import NetTool.Util

/-!
# Showing addresses and routes

`ip_show.c` and `gateway_show.c`: the dump requests, the receive loops, and the printers of one
address and of one route, which the receive loops do not call. The printers share the static text
of `util_ntop`, so they take it and return it with what they print.
-/

namespace NetTool

open Bytes CInt Loop

/-! ## Addresses -/

def get_ip (c : Libc) (stale : Mem) (domain : ℕ) : Sent :=
  let buf := fill stale 0 BUFLEN 0
  let buf := set32 buf 0 (NLMSG_LENGTH 8)
  let buf := set16 buf 4 RTM_GETADDR
  let buf := set16 buf 6 (NLM_F_REQUEST ||| NLM_F_ROOT)
  let buf := set8 buf (NLMSG_DATA 0) domain
  send_message c buf

/-- One attribute's address, where it is of the given type. -/
def print_address (c : Libc) (fa : ℕ) (m : Mem) (rta type : ℕ) (fmt : String)
    (s : String × List Ev) : String × List Ev :=
  if rta_type m rta = type then
    let ip := util_ntop c s.1 fa m (RTA_DATA rta)
    (ip, s.2 ++ [.printf fmt [.str ip]])
  else s

def parse_ifa_msg (c : Libc) (fuel : ℕ) (ip : String) (m : Mem) (ifa buf len : ℕ) :
    String × List Ev :=
  let msg := ifaddrmsg.at m ifa
  let fa := msg.ifa_family
  let s := (forLoop (fun t => RTA_OK m t.1 t.2) (RTA_NEXT (fun x => u64 x) m) (fun t s =>
    let s := print_address c fa m t.1 IFA_ADDRESS "%-15s  " s
    let s := print_address c fa m t.1 IFA_LOCAL "%-15s  " s
    let s := print_address c fa m t.1 IFA_BROADCAST "%-15s" s
    (s, (none : Option Unit))) fuel (buf, (len : ℤ)) (ip, [])).1
  (s.1, [.printf "==================================\n" [],
    .printf "%-15s  %-15s  %-15s \n" [.str "family", .str "dev", .str "prefix length"],
    .printf "%-15d  %-15s  %-15d \n" [.int (if msg.ifa_family = AF_INET then 4 else 6),
      .str ((c.if_indextoname msg.ifa_index).getD "(null)"), .int msg.ifa_prefixlen],
    .printf "\n" [],
    .printf "%-15s  %-15s  %-15s \n" [.str "if address", .str "local address", .str "broadcast"]]
    ++ s.2 ++ [.printf "\n" []])

/-! ## Routes -/

def get_gateway (c : Libc) (stale : Mem) (domain : ℕ) : Sent :=
  let buf := fill stale 0 BUFLEN 0
  let buf := set32 buf 0 (NLMSG_LENGTH 12)
  let buf := set16 buf 4 RTM_GETROUTE
  let buf := set16 buf 6 (NLM_F_REQUEST ||| NLM_F_ROOT)
  let buf := set8 buf (NLMSG_DATA 0) domain
  send_message c buf

def parse_rt_msg (c : Libc) (fuel : ℕ) (ip : String) (m : Mem) (rt buf len : ℕ) :
    String × List Ev :=
  let msg := rtmsg.at m rt
  let fa := msg.rtm_family
  let s := (forLoop (fun t => RTA_OK m t.1 t.2) (RTA_NEXT (fun x => u64 x) m) (fun t s =>
    (print_address c fa m t.1 RTA_GATEWAY "gateway:\t%s\n" s, (none : Option Unit)))
    fuel (buf, (len : ℤ)) (ip, [])).1
  (s.1, [.printf "==================================\n" [],
    .printf "family:\t\t%d\n" [.int (if msg.rtm_family = AF_INET then 4 else 6)],
    .printf "table id:\t%d\n" [.int msg.rtm_table],
    .printf "protocol:\t%d\n" [.int msg.rtm_protocol],
    .printf "scope:\t\t%d\n" [.int msg.rtm_scope],
    .printf "type:\t\t%d\n" [.int msg.rtm_type],
    .printf "\n" []] ++ s.2)

/-- The loop of `parse_nl_msg_gateway`, with the fuel `n` of the loop in `parse_rt_msg`. -/
def gatewayLoop (c : Libc) (n : ℕ) (m : Mem) :
    ℕ → ℕ × ℤ → String × List Ev → Option ℕ × String × List Ev
  | 0, _, s => (none, s)
  | fuel + 1, t, s =>
    let type := nlmsg_type m t.1
    if NLMSG_OK m t.1 (u32 t.2) ∧ type ≠ NLMSG_DONE then
      if type = NLMSG_ERROR then (some (u32 (-1)), s.1, s.2 ++ [.printf "error" []])
      else
        let s :=
          if type = RTM_NEWROUTE then
            let rt := NLMSG_DATA t.1
            let r := parse_rt_msg c n s.1 m rt (RTM_RTA rt) (NLMSG_PAYLOAD m t.1 12)
            (r.1, s.2 ++ r.2)
          else s
        gatewayLoop c n m fuel (NLMSG_NEXT (fun x => u64 x) m t) s
    else (some type, s)

/-- `parse_nl_msg_gateway`, with the text of `util_ntop`; the type is read once more where the
loop stopped. -/
def parse_nl_msg_gateway (c : Libc) (fuel : ℕ) (ip : String) (m : Mem) (buf len : ℕ) :
    Option ℕ × String × List Ev :=
  gatewayLoop c fuel m fuel (buf, (len : ℤ)) (ip, [])

/-! ## The receive loops -/

/-- The `do` loop of `nettool_ip_show` and of `gateway_show`. -/
def show_loop : List Reply → Mem → Outcome ℤ
  | [], _ => ⟨none, [.recvmsg]⟩
  | r :: rs, buf =>
    let (len, buf) := util_get_msg buf BUFLEN r
    let nl_msg_type := util_parse_nl_msg_OK buf (u64 len)
    if nl_msg_type ≠ NLMSG_DONE ∧ nl_msg_type ≠ NLMSG_ERROR then
      let o := show_loop rs buf
      ⟨o.ret, .recvmsg :: o.out⟩
    else ⟨some 0, [.recvmsg]⟩

/-- `nettool_ip_show`, with the stack buffers of its request and of its loop as they were. -/
def nettool_ip_show (c : Libc) (replies : List Reply) (stale buf : Mem) : Outcome ℤ :=
  let sent := get_ip c stale AF_INET
  let o := show_loop replies buf
  ⟨o.ret, sent.out ++ o.out⟩

def gateway_show (c : Libc) (replies : List Reply) (stale buf : Mem) : Outcome ℤ :=
  let sent := get_gateway c stale AF_INET
  let o := show_loop replies buf
  ⟨o.ret, sent.out ++ o.out⟩

end NetTool
