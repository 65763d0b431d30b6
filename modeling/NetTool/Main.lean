import NetTool.Event
import NetTool.Request
import NetTool.Show

/-!
# The program

`main_nettool.c` around its event reader, with `ip_link` of the tool and the calls of the library
that add and remove an address or a gateway. The number of descriptors that are ready is not kept:
the only one that `select` is asked for is the netlink socket.
-/

namespace NetTool

open Bytes CInt

/-! ## Calls that wait for an acknowledgement -/

/-- What a call prints for the codes of an error message: for 0, for `-EADDRNOTAVAIL`, for `-EPERM`
and for any other. -/
structure AckLines where
  success : Ev
  failed : Ev
  denied : Ev
  other : Libc → ℤ → Ev

def AckLines.line (a : AckLines) (c : Libc) (error : ℤ) : Ev :=
  if error = 0 then a.success
  else if error = -EADDRNOTAVAIL then a.failed
  else if error = -EPERM then a.denied
  else a.other c error

/-- What the calls do once they sent their request. -/
def acknowledge (a : AckLines) (c : Libc) (sent : Sent) (replies : List Reply) (buf : Mem) :
    Outcome ℤ :=
  match replies with
  | [] => ⟨none, sent.out ++ [.recvmsg]⟩
  | r :: _ =>
    let (len, buf) := util_get_msg buf BUFLEN r
    let nl_msg_type := util_parse_nl_msg_OK buf (u64 len)
    ⟨some 0, sent.out ++ .recvmsg ::
      if nl_msg_type = NLMSG_ERROR then [a.line c (i32 (get32 buf (NLMSG_DATA 0)))] else []⟩

def NEW_IP : String := "192.168.1.2"

/-- The lines of `nettool_ip_add`, which prints `errno` beside the text of the code. -/
def ip_add_lines : AckLines where
  success := .printf "ip_add : Success\n" []
  failed := .printf "ip_add : Failed\n" []
  denied := .printf "ip_add : Permission denied\n" []
  other c error := .printf "ip_add : errno=%d %s\n" [.int c.errno, .str (c.strerror error)]

/-- The lines of the other three calls. -/
def plain_lines : AckLines where
  success := .printf "Success\n" []
  failed := .printf "Failed\n" []
  denied := .printf "Permission denied\n" []
  other c error := .printf "%s\n" [.str (c.strerror error)]

/-- `nettool_ip_add`, with the stack buffers of its request and of its answer as they were. -/
def nettool_ip_add (c : Libc) (replies : List Reply) (stale buf : Mem) : Outcome ℤ :=
  acknowledge ip_add_lines c (add_ip c stale AF_INET NEW_IP) replies buf

def ip_del (c : Libc) (replies : List Reply) (stale buf : Mem) : Outcome ℤ :=
  acknowledge plain_lines c (del_ip c stale AF_INET "172.16.10.111") replies buf

def gateway_add (c : Libc) (replies : List Reply) (stale buf : Mem) : Outcome ℤ :=
  acknowledge plain_lines c (add_gateway c stale AF_INET "172.16.0.1") replies buf

def gateway_del (c : Libc) (replies : List Reply) (stale buf : Mem) : Outcome ℤ :=
  acknowledge plain_lines c (del_gateway c stale AF_INET "172.16.0.1") replies buf

/-! ## The tables -/

/-- What `SetArrayRTMTypes` registers of the message types. -/
def rtmTypes : List (ℕ × String) :=
  [(16, "RTM_BASE"), (RTM_NEWLINK, "RTM_NEWLINK"), (RTM_DELLINK, "RTM_DELLINK"),
    (RTM_GETLINK, "RTM_GETLINK"), (RTM_SETLINK, "RTM_SETLINK"), (RTM_NEWADDR, "RTM_NEWADDR"),
    (RTM_DELADDR, "RTM_DELADDR"), (RTM_GETADDR, "RTM_GETADDR"), (RTM_NEWROUTE, "RTM_GETADDR"),
    (RTM_DELROUTE, "RTM_DELROUTE"), (RTM_GETROUTE, "RTM_GETROUTE"), (28, "RTM_NEWNEIGH"),
    (29, "RTM_DELNEIGH"), (30, "RTM_GETNEIGH"), (52, "RTM_NEWPREFIX"), (80, "RTM_NEWNETCONF"),
    (82, "RTM_GETNETCONF")]

/-- What it registers of the attribute types. -/
def ifaTypes : List (ℕ × String) :=
  [(0, "IFA_UNSPEC"), (IFA_ADDRESS, "IFA_ADDRESS"), (IFA_LOCAL, "IFA_LOCAL"),
    (IFA_LABEL, "IFA_LABEL"), (IFA_BROADCAST, "IFA_BROADCAST"), (IFA_ANYCAST, "IFA_ANYCAST"),
    (IFA_CACHEINFO, "IFA_CACHEINFO"), (7, "IFA_MULTICAST"), (8, "IFA_FLAGS")]

def SetArrayRTMTypes (g : Globals) : Globals :=
  { g with
    gArray_RTM_Type := rtmTypes.foldl (fun t e => Function.update t e.1 e.2) g.gArray_RTM_Type
    gArray_IFA_Type := ifaTypes.foldl (fun t e => t.set e.1 e.2) g.gArray_IFA_Type }

/-- No result is a store outside the table of the families. -/
def SetArrays (PF_MAX : ℕ) (g : Globals) : Option Globals :=
  (setArrayAddressFamily PF_MAX).map fun gArrayFamily =>
    { SetArrayRTMTypes g with gArrayFamily := gArrayFamily }

/-! ## The link of interface 5 -/

/-- The header and the `struct ifinfomsg` of `IpLink`. -/
def IpLink_header (stale : Mem) : Mem :=
  let req := fill stale 0 52 0
  let req := set32 req 0 (NLMSG_LENGTH 16)
  let req := set16 req 6 NLM_F_REQUEST
  let req := set16 req 4 RTM_NEWLINK
  let Ifinfomsg := NLMSG_DATA 0
  let req := set8 req Ifinfomsg AF_UNSPEC
  let req := set32 req (Ifinfomsg + 4) 5
  let req := set32 req (Ifinfomsg + 12) 0xffffffff
  set32 req (Ifinfomsg + 8) (get32 req (Ifinfomsg + 8) ||| IFF_UP)

/-- `IpLink`, with its stack buffer as it was. -/
def IpLink (c : Libc) (stale : Mem) (a_UP : ℤ) : List Ev :=
  let vStateLink := if a_UP ≠ 0 then 1 else 0
  let req := IpLink_header stale
  let pRtAttr := NLMSG_ALIGN (nlmsg_len req 0)
  let req := set16 req (pRtAttr + 2) IFLA_LINK
  let req := set16 req pRtAttr (RTA_LENGTH 4)
  let req := set32 req 0 (NLMSG_ALIGN (nlmsg_len req 0) + RTA_LENGTH 4)
  let req := set32 req (RTA_DATA pRtAttr) vStateLink
  [.sendmsg (slice req 0 (nlmsg_len req 0)),
    .printf "IpLink(%d) vRetcode  = %d \n" [.int a_UP, .int c.sendmsg]]

/-! ## The event loop -/

/-- What `select` reports in a round of `LoopEvent`, with what the receive call brings then and its
buffer as it was. -/
inductive Round
  | error
  | timedOut
  | ready (r : Reply) (vBuf : Mem)

/-- One round of `LoopEvent`. No result is a `read_event` that goes on forever. -/
def LoopEvent_round (g : Globals) (c : Libc) (fuel : ℕ) (s : Watch) : Round → Option Watch
  | .error => some { s with out := s.out ++ [.printf "Error select() \n" []] }
  | .timedOut => some s
  | .ready r vBuf =>
    match read_event g c fuel r vBuf s with
    | (some _, s) => some s
    | (none, _) => none

/-- The first rounds of `LoopEvent`, which does not return. -/
def LoopEvent (g : Globals) (c : Libc) (fuel : ℕ) (rounds : List Round) (s : Watch) :
    Option Watch :=
  rounds.foldlM (LoopEvent_round g c fuel) s

/-! ## The command line -/

def PrintUsage (argv : List String) : List Ev :=
  [.printf "\n" [], .printf " Usage %s [ARG]\n" [.str (argv.headD "(null)")],
    .printf "\t all    : all test\n" [], .printf "\t evloop : loop event\n" [],
    .printf "\t lu     : link up\n" [], .printf "\t ld     : link down\n" [],
    .printf "\t li     : link info\n" [], .printf "\n" []]

/-- What one run of the program meets: the headers it was compiled with, the tables before it set
them, the library, whether the socket could be opened and bound, what the receive calls of its
first and of its second request bring, the rounds of its event loop, and its stack buffers as they
were. -/
structure World where
  PF_MAX : ℕ
  g : Globals
  c : Libc
  fuel : ℕ
  opened : Bool
  bound : Bool
  replies : List Reply
  replies' : List Reply
  rounds : List Round
  stale : Mem
  vBuffReply : Mem
  buf : Mem

/-- The second of two calls follows where the first returned. -/
def Outcome.andThen {α β : Type} (o : Outcome α) (o' : Outcome β) : Outcome β :=
  match o.ret with
  | none => ⟨none, o.out⟩
  | some _ => ⟨o'.ret, o.out ++ o'.out⟩

def net_event_show (w : World) : Outcome ℤ :=
  (nettool_ip_add w.c w.replies w.stale w.buf).andThen
    (nettool_ip_show w.c w.replies' w.stale w.buf)

def ARG_LINK_UP : String := "lu"
def ARG_LINK_DOWN : String := "ld"
def ARG_LINK_INFO : String := "li"

def ip_link (w : World) (argv : List String) : Outcome ℤ :=
  match argv with
  | [_, arg, a_DeviceName] =>
    if arg = ARG_LINK_UP then nettool_link_up w.c w.replies w.stale w.buf a_DeviceName 1
    else if arg = ARG_LINK_DOWN then nettool_link_up w.c w.replies w.stale w.buf a_DeviceName 0
    else if arg = ARG_LINK_INFO then
      ip_link_Info w.c w.fuel w.replies w.stale w.vBuffReply w.buf a_DeviceName
    else ⟨some 0, PrintUsage argv⟩
  | _ => ⟨some 0, PrintUsage argv⟩

/-- What `util_OpenSocket` printed before it ended the program, where it did. -/
def util_OpenSocket (w : World) : Option (List Ev) :=
  if ¬ w.opened then some [.printf "Socket Open Error!" []]
  else if ¬ w.bound then
    some [.printf "Socket bind failed! %d %s " [.int w.c.errno, .str (w.c.strerror w.c.errno)]]
  else none

/-- `main`, with the exit code 1 where `util_OpenSocket` ended it. No result is a store outside the
tables or a `read_event` that goes on forever. -/
def nettool_main (w : World) (argv : List String) : Option (Outcome ℤ) :=
  (SetArrays w.PF_MAX w.g).bind fun g =>
    match argv with
    | _ :: arg :: _ =>
      match util_OpenSocket w with
      | some out => some ⟨some 1, out⟩
      | none =>
        if arg = "evloop" then
          (LoopEvent g w.c w.fuel w.rounds ⟨0, [], []⟩).map fun s => ⟨none, s.out⟩
        else some <|
          if arg = "all" then (net_event_show w).andThen ⟨some 0, []⟩
          else if arg.toList.head? = some 'l' then (ip_link w argv).andThen ⟨some 0, []⟩
          else if arg = "show" then
            (nettool_ip_show w.c w.replies w.stale w.buf).andThen ⟨some 0, []⟩
          else if arg = "add" then
            (nettool_ip_add w.c w.replies w.stale w.buf).andThen ⟨some 0, []⟩
          else if arg = "" then
            (nettool_ip_add w.c w.replies w.stale w.buf).andThen ⟨some 0, []⟩
          else ⟨some 0, PrintUsage argv⟩
    | _ => some ⟨some 0, PrintUsage argv⟩

end NetTool
