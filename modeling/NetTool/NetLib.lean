import NetTool.Main

/-!
# The two calls of the test program

`NetLib.c`. `Net_1` is a request for the addresses, one reply, and the loop over its messages. Its
remaining length `status` is an `int` that the loop compares with a `size_t`. What stands behind
`buf` is what the stack has there. `Net_2` adds an address, with copies of its own of what the
library has for it.
-/

namespace NetTool

open Bytes CInt Loop

def INFINITY_LIFE_TIME : ℕ := 0xFFFFFFFF

/-! ## The lines of an attribute -/

def NIP6_FMT : String := "%04x:%04x:%04x:%04x:%04x:%04x:%04x:%04x"

def NIP6 (m : Mem) (addr : ℕ) : List Arg :=
  (List.range 8).map fun i => .int (256 * get8 m (addr + 2 * i) + get8 m (addr + 2 * i + 1))

/-- The line for an attribute of this type. -/
def show_address (m : Mem) (rtatp type : ℕ) (name : String) : List Ev :=
  if rta_type m rtatp = type then [.printf (name ++ NIP6_FMT ++ "\n") (NIP6 m (RTA_DATA rtatp))]
  else []

def show_lifetime (name : String) (seconds : ℕ) : Ev :=
  if seconds = INFINITY_LIFE_TIME then .printf (name ++ " forever\n") []
  else .printf (name ++ " %usec\n") [.int seconds]

def show_attribute (m : Mem) (rtatp : ℕ) : List Ev :=
  (if rta_type m rtatp = IFA_CACHEINFO then
    [show_lifetime "valid_lft" (get32 m (RTA_DATA rtatp + 4)),
      show_lifetime " preferred_lft" (get32 m (RTA_DATA rtatp))]
  else []) ++
  show_address m rtatp IFA_ADDRESS "addr0: " ++ show_address m rtatp IFA_LOCAL "addr1: " ++
  show_address m rtatp IFA_BROADCAST "bcataddr: " ++
  show_address m rtatp IFA_ANYCAST "anycastaddr: "

def show_attributes (fuel : ℕ) (m : Mem) (rtatp : ℕ) (rtattrlen : ℤ) : List Ev × Exit Unit :=
  forLoop (fun t => RTA_OK m t.1 t.2) (RTA_NEXT i32 m)
    (fun t out => (out ++ show_attribute m t.1, none)) fuel (rtatp, rtattrlen) []

/-! ## The loop over the messages -/

/-- A round of the loop that came to its end: where its message stands, `status` at its start and
at its end, and what it printed. -/
structure MsgRound where
  nlmp : ℕ
  status : ℤ
  left : ℤ
  out : List Ev
  deriving DecidableEq

def next_message (m : Mem) (t : ℕ × ℤ) : ℕ × ℤ :=
  let len := i32 (nlmsg_len m t.1)
  (t.1 + NLMSG_ALIGN (u32 len), i32 (t.2 - NLMSG_ALIGN (u32 len)))

def index_line (m : Mem) (nlmp : ℕ) : Ev :=
  .printf "Index Of Iface= %d\n" [.int (i32 (ifaddrmsg.at m (NLMSG_DATA nlmp)).ifa_index)]

/-- A round. One whose attributes do not end has no result. -/
def show_message (fuel : ℕ) (m : Mem) (t : ℕ × ℤ) (rounds : List MsgRound) :
    List MsgRound × Option (Outcome ℤ) :=
  let len := i32 (nlmsg_len m t.1)
  let req_len := i32 (u64 (u64 len - 16))
  if req_len < 0 ∨ t.2 < len then (rounds, some ⟨some (-1), [.printf "error\n" []]⟩)
  else if NLMSG_OK m t.1 t.2 = false then (rounds, some ⟨some 1, [.printf "NLMSG not OK\n" []]⟩)
  else
    let q := show_attributes fuel m (IFA_RTA (NLMSG_DATA t.1)) (i32 (NLMSG_PAYLOAD m t.1 8))
    let out := index_line m t.1 :: q.1
    if q.2 = .running then (rounds, some ⟨none, out⟩)
    else (rounds ++ [⟨t.1, t.2, (next_message m t).2, out⟩], none)

def message_loop (fuel : ℕ) (m : Mem) (t : ℕ × ℤ) (rounds : List MsgRound) :
    List MsgRound × Exit (Outcome ℤ) :=
  forLoop (fun t => 16 < u64 t.2) (next_message m) (show_message fuel m) fuel t rounds

/-! ## `Net_1` -/

/-- `req`, which has 24 bytes, so that the length of `rta` is stored behind it. -/
def address_request : Mem :=
  let req : Mem := fun _ => 0
  let req := set32 req 0 (NLMSG_LENGTH 8)
  let req := set16 req 6 (NLM_F_REQUEST ||| NLM_F_ROOT)
  let req := set16 req 4 RTM_GETADDR
  let req := set8 req (NLMSG_DATA 0) AF_INET6
  let rta := NLMSG_ALIGN (nlmsg_len req 0)
  set16 req rta (RTA_LENGTH 16)

/-- What a call of `Net_1` comes to: its result unless a loop does not end, the rounds of its loop
and what it did. -/
structure Listing where
  ret : Option ℤ
  rounds : List MsgRound
  out : List Ev

/-- What `Net_1` does with `status` bytes in `buf`. -/
def list_messages (fuel : ℕ) (buf : Mem) (status : ℤ) : Listing :=
  let q := message_loop fuel buf (0, status) []
  let out := q.1.flatMap MsgRound.out
  match q.2 with
  | .running => ⟨none, q.1, out⟩
  | .done => ⟨some 0, q.1, out⟩
  | .brk o => ⟨o.ret, q.1, out ++ o.out⟩

/-- `Net_1`, with `buf` as it was and what `recv` brings. -/
def Net_1 (c : Libc) (fuel : ℕ) (buf : Mem) (r : Reply) : Listing :=
  let sent : List Ev := [.sendmsg (slice address_request 0 (nlmsg_len address_request 0))]
  if c.sendmsg < 0 then
    ⟨some 1, [], sent ++ [.eprintf "send: %s\n" [.str (c.strerror c.errno)]]⟩
  else
    match r with
    | .fail errno => ⟨some 1, [], sent ++ [.recvmsg, .eprintf "recv: %s\n" [.str (c.strerror errno)]]⟩
    | .datagram bytes =>
      let (status, buf) := recvmsg buf 16384 (.datagram bytes)
      if status = 0 then ⟨some 1, [], sent ++ [.recvmsg, .printf "EOF\n" []]⟩
      else
        let q := list_messages fuel buf status
        ⟨q.ret, q.rounds, sent ++ .recvmsg :: q.out⟩

/-! ## `Net_2` -/

/-- The copy of `add_ip`, which names device 2. -/
def Net_2_add_ip : Libc → Mem → ℤ → String → Sent := ip_request RTM_NEWADDR 2

/-- What `check` prints in front of its `exit(1)`. -/
def check_error (c : Libc) (errno : ℤ) : Ev := .printf "check error: %s\n" [.str (c.strerror errno)]

/-- `Net_2`, with what `socket` returns and the stack buffers of its request and of its answer as
they were. -/
def Net_2 (c : Libc) (fd : ℤ) (replies : List Reply) (stale buf : Mem) : Outcome ℤ :=
  if fd < 0 then ⟨some 1, [check_error c c.errno]⟩
  else
    let sent := Net_2_add_ip c stale AF_INET NEW_IP
    match replies with
    | [] => ⟨none, sent.out ++ [.recvmsg]⟩
    | .fail errno :: _ => ⟨some 1, sent.out ++ [.recvmsg, check_error c errno]⟩
    | .datagram bytes :: _ =>
      let (len, buf) := recvmsg buf BUFLEN (.datagram bytes)
      let nl_msg_type := util_parse_nl_msg_OK buf (u64 len)
      ⟨some 0, sent.out ++ .recvmsg ::
        if nl_msg_type = NLMSG_ERROR then [plain_lines.line c (i32 (get32 buf (NLMSG_DATA 0)))]
        else []⟩

end NetTool
