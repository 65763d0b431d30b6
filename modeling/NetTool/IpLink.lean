import NetTool.Util

/-!
# Links

`ip_link.c` of the library, with `ip_link.c` and `print_info.c` of the tool. A string that a `%s`
reads from the receive buffer ends at its null byte or with the buffer.
-/

namespace NetTool

open Bytes CInt Loop

def IFF_UP : ℕ := 0x1
def IFF_BROADCAST : ℕ := 0x2
def IFF_DEBUG : ℕ := 0x4
def IFF_LOOPBACK : ℕ := 0x8
def IFF_POINTOPOINT : ℕ := 0x10
def IFF_NOTRAILERS : ℕ := 0x20
def IFF_RUNNING : ℕ := 0x40
def IFF_NOARP : ℕ := 0x80
def IFF_PROMISC : ℕ := 0x100
def IFF_ALLMULTI : ℕ := 0x200
def IFF_MASTER : ℕ := 0x400
def IFF_SLAVE : ℕ := 0x800
def IFF_MULTICAST : ℕ := 0x1000
def IFF_PORTSEL : ℕ := 0x2000
def IFF_AUTOMEDIA : ℕ := 0x4000
def IFF_DYNAMIC : ℕ := 0x8000
def IFF_LOWER_UP : ℕ := 0x10000
def IFF_DORMANT : ℕ := 0x20000
def IFF_ECHO : ℕ := 0x40000

def EPERM : ℤ := 1
def EADDRNOTAVAIL : ℤ := 99

/-! ## The watcher thread -/

/-- `ip_link_add_notification`, which so far only allocates. -/
def ip_link_add_notification : ℤ := 0

/-- The arguments of `nettool_link_notify`: the device name or no pointer, the function's address
and the flag. -/
structure NotifyArgs where
  a_DeviceName : Option String
  a_pfunction : ℕ
  a_FlagToCheck : ℤ

/-- What a call returned, and what `pthread_create` returned in it where it was called. -/
structure Notified where
  ret : ℤ
  pthread_create : Option ℤ
  deriving DecidableEq

/-- `nettool_link_notify`, with what `pthread_create` would return; also the new `g_ModuleInit`. -/
def nettool_link_notify (g_ModuleInit : ℤ) (a : NotifyArgs) (created : ℤ) : Notified × ℤ :=
  let vRetcode : ℤ :=
    if a.a_DeviceName = none ∨ a.a_DeviceName = some "" ∨ a.a_pfunction = 0 ∨ a.a_FlagToCheck = 0
    then -1 else 0
  let (vRetcode, g_ModuleInit, create) :=
    if vRetcode = 0 ∧ g_ModuleInit = 0 then (created, 1, some created)
    else (vRetcode, g_ModuleInit, none)
  let vRetcode :=
    if vRetcode = 0 ∧ g_ModuleInit ≠ 0 then ip_link_add_notification else vRetcode
  (⟨vRetcode, create⟩, g_ModuleInit)

/-- The calls of a program, from a `g_ModuleInit` on. -/
def notifyRun (g_ModuleInit : ℤ) : List (NotifyArgs × ℤ) → List Notified
  | [] => []
  | (a, created) :: calls =>
    let (r, g_ModuleInit) := nettool_link_notify g_ModuleInit a created
    r :: notifyRun g_ModuleInit calls

/-! ## Reading a link -/

def rtnl_print_link (fuel : ℕ) (m : Mem) (h : ℕ) : List Ev :=
  let iface := NLMSG_DATA h
  let len := i32 (nlmsg_len m h - NLMSG_LENGTH 16)
  (forLoop (fun t => RTA_OK m t.1 t.2) (RTA_NEXT i32 m) (fun t out =>
    (if rta_type m t.1 = IFLA_IFNAME then
      out ++ [.printf "rtnl_print_link : IFLA_IFNAME =  %d : %s ifi_flags =0x%X\n"
        [.int (ifinfomsg.at m iface).ifi_index,
          .bytes (cstr m (RTA_DATA t.1) (BUFLEN - RTA_DATA t.1)),
          .int (ifinfomsg.at m iface).ifi_flags]]
    else out, (none : Option Unit))) fuel (IFLA_RTA iface, len) []).1

/-- The variables the message loop of `link_info_receive` changes. -/
structure LinkInfo where
  end_ : ℕ
  a_pInfomsg : ifinfomsg
  out : List Ev

/-- One message of `link_info_receive`, which leaves the loop once it found the index. -/
def link_info_message (fuel : ℕ) (a_IndexToFind : ℤ) (m : Mem) (msg_ptr : ℕ) (s : LinkInfo) :
    LinkInfo × Option Unit :=
  let type := nlmsg_type m msg_ptr
  if type = NLMSG_DONE then
    ({ s with
      end_ := s.end_ + 1
      out := s.out ++ [.printf "link_info_receive_2 : NLMSG_DONE\n" []] }, none)
  else if type = RTM_NEWLINK then
    let pIface := ifinfomsg.at m (NLMSG_DATA msg_ptr)
    if a_IndexToFind = pIface.ifi_index then
      ({ s with a_pInfomsg := pIface }, some ())
    else
      ({ s with
        out := s.out ++ .printf "link_info_receive_2 : RTM_NEWLINK \n" [] ::
          rtnl_print_link fuel m msg_ptr }, none)
  else if type = RTM_GETLINK then
    ({ s with
      out := s.out ++ .printf "link_info_receive_2 : RTM_GETLINK \n" [] ::
        rtnl_print_link fuel m msg_ptr }, none)
  else
    ({ s with
      out := s.out ++ [.printf "message type %d, length %d\n"
        [.int type, .int (nlmsg_len m msg_ptr)]] }, none)

/-- The `while` loop of `link_info_receive`, with the replies to come and what the buffer holds. -/
def link_info_loop (fuel : ℕ) (a_IndexToFind : ℤ) :
    List Reply → Mem → LinkInfo → Option ℤ × LinkInfo
  | [], _, s => (none, { s with out := s.out ++ [.recvmsg] })
  | r :: rs, vBuffReply, s =>
    let (len, vBuffReply) := recvmsg vBuffReply BUFLEN r
    let s := { s with
      out := s.out ++ [.recvmsg, .printf "link_info_receive_2 : len = %d \n" [.int len]] }
    let (s, e) :=
      if len ≠ 0 then
        forLoop (fun t => NLMSG_OK vBuffReply t.1 t.2) (NLMSG_NEXT i32 vBuffReply)
          (fun t s => link_info_message fuel a_IndexToFind vBuffReply t.1 s) fuel (0, len) s
      else (s, .done)
    match e with
    | .running => (none, s)
    | .brk () => (some 0, s)
    | .done =>
      if s.end_ = 0 then link_info_loop fuel a_IndexToFind rs vBuffReply s else (some (-1), s)

def link_info_receive (fuel : ℕ) (replies : List Reply) (vBuffReply : Mem) (a_IndexToFind : ℤ)
    (a_pInfomsg : ifinfomsg) : Option ℤ × LinkInfo :=
  link_info_loop fuel a_IndexToFind replies vBuffReply ⟨0, a_pInfomsg, []⟩

def link_info_request (c : Libc) (stale : Mem) : Sent :=
  let vBuf := fill stale 0 BUFLEN 0
  let vBuf := set32 vBuf 0 (NLMSG_LENGTH 1)
  let vBuf := set16 vBuf 4 RTM_GETLINK
  let vBuf := set16 vBuf 6 (NLM_F_REQUEST ||| NLM_F_DUMP ||| NLM_F_ACK)
  let vBuf := set32 vBuf 12 c.getpid
  let vBuf := set32 vBuf 8 1
  send_message c vBuf

/-- The header and the `struct ifinfomsg` of `link_up`. -/
def link_header (stale : Mem) (a_UP a_IndexDevice : ℤ) : Mem :=
  let vBuf := fill stale 0 BUFLEN 0
  let vBuf := set32 vBuf 0 (NLMSG_LENGTH 16)
  let vBuf := set16 vBuf 4 RTM_NEWLINK
  let vBuf := set16 vBuf 6 (NLM_F_REQUEST ||| NLM_F_ACK)
  let pIfinfomsg := NLMSG_DATA 0
  let vBuf := set8 vBuf pIfinfomsg AF_UNSPEC
  let vBuf := set32 vBuf (pIfinfomsg + 4) (u32 a_IndexDevice)
  let vBuf := set32 vBuf (pIfinfomsg + 12) 0xffffffff
  set32 vBuf (pIfinfomsg + 8) (if a_UP ≠ 0 then IFF_UP ||| IFF_RUNNING else 0)

def link_up (c : Libc) (stale : Mem) (a_UP a_IndexDevice : ℤ) : Sent :=
  let vBuf := link_header stale a_UP a_IndexDevice
  let vLinkAttribut := if a_UP ≠ 0 then 1 else 0
  let pRtAttr := IFLA_RTA (NLMSG_DATA 0)
  let vBuf := set16 vBuf (pRtAttr + 2) IFLA_LINK
  let vBuf := set32 vBuf (RTA_DATA pRtAttr) vLinkAttribut
  let vBuf := set16 vBuf pRtAttr (RTA_LENGTH 4)
  let vBuf := set32 vBuf 0 (NLMSG_ALIGN (nlmsg_len vBuf 0) + rta_len vBuf pRtAttr)
  send_message c vBuf

/-- What is printed of an error message's code. -/
def print_ack (c : Libc) (vBuf : Mem) : Ev :=
  let error := i32 (get32 vBuf (NLMSG_DATA 0))
  if error = 0 then .printf "nettool_link_up : Success\n" []
  else if error = -EADDRNOTAVAIL then .printf "nettool_link_up : Failed\n" []
  else if error = -EPERM then .printf "nettool_link_up : Permission denied\n" []
  else .printf "nettool_link_up : errno=%d %s\n" [.int c.errno, .str (c.strerror error)]

/-- `nettool_link_up`, with the two stack buffers as they were. -/
def nettool_link_up (c : Libc) (replies : List Reply) (stale vBuf : Mem) (a_DeviceName : String)
    (a_UP : ℤ) : Outcome ℤ :=
  let vIndexDevice := i32 (c.if_nametoindex a_DeviceName)
  if vIndexDevice = 0 then
    ⟨some 0, [.eprintf "\nError device %s  not exits ! \n\n" [.str a_DeviceName]]⟩
  else
    let sent := link_up c stale a_UP vIndexDevice
    match replies with
    | [] => ⟨none, sent.out ++ [.recvmsg]⟩
    | r :: _ =>
      let (vLen, vBuf) := util_get_msg vBuf BUFLEN r
      let vNl_msg_type := util_parse_nl_msg_OK vBuf (u64 vLen)
      ⟨some 0, sent.out ++ .recvmsg ::
        if vNl_msg_type = NLMSG_ERROR then [print_ack c vBuf] else []⟩

/-- `nettool_link_info`, with its three stack buffers as they were; also the new
`*a_Ifinfomsg`. -/
def nettool_link_info (c : Libc) (fuel : ℕ) (replies : List Reply) (stale vBuffReply vBuf : Mem)
    (a_DeviceName : String) (a_Ifinfomsg : ifinfomsg) : Outcome ℤ × ifinfomsg :=
  let vIndexDevice := i32 (c.if_nametoindex a_DeviceName)
  if vIndexDevice = 0 then
    (⟨some 0, [.eprintf "\nError device %s  not exits ! \n\n" [.str a_DeviceName]]⟩, a_Ifinfomsg)
  else
    let sent := link_info_request c stale
    let (vRetcode, s) := link_info_receive fuel replies vBuffReply vIndexDevice a_Ifinfomsg
    match vRetcode with
    | none => (⟨none, sent.out ++ s.out⟩, s.a_pInfomsg)
    | some _ =>
      let vNl_msg_type := util_parse_nl_msg_OK vBuf 0
      (⟨some 0, sent.out ++ s.out ++
        if vNl_msg_type = NLMSG_ERROR then [print_ack c vBuf] else []⟩, s.a_pInfomsg)

/-! ## The tool's side -/

/-- The flags `PrintMessageFlag` prints, in its order. -/
def messageFlags : List (String × ℕ) :=
  [("IFF_UP", IFF_UP), ("IFF_RUNNING", IFF_RUNNING), ("IFF_BROADCAST", IFF_BROADCAST),
    ("IFF_DEBUG", IFF_DEBUG), ("IFF_LOOPBACK", IFF_LOOPBACK),
    ("IFF_POINTOPOINT", IFF_POINTOPOINT), ("IFF_NOTRAILERS", IFF_NOTRAILERS),
    ("IFF_NOARP", IFF_NOARP), ("IFF_PROMISC", IFF_PROMISC), ("IFF_ALLMULTI", IFF_ALLMULTI),
    ("IFF_MASTER", IFF_MASTER), ("IFF_SLAVE", IFF_SLAVE), ("IFF_MULTICAST", IFF_MULTICAST),
    ("IFF_PORTSEL", IFF_PORTSEL), ("IFF_AUTOMEDIA", IFF_AUTOMEDIA), ("IFF_DYNAMIC", IFF_DYNAMIC)]

def PrintMessageFlag (a_Flags : ℕ) : List Ev :=
  messageFlags.map fun f =>
    .printf "%-20s -  %d \n" [.str f.1, .int (if a_Flags &&& f.2 ≠ 0 then 1 else 0)]

def ip_link_Info (c : Libc) (fuel : ℕ) (replies : List Reply) (stale vBuffReply vBuf : Mem)
    (a_DeviceName : String) : Outcome ℤ :=
  let r := nettool_link_info c fuel replies stale vBuffReply vBuf a_DeviceName .zero
  ⟨r.1.ret, if r.1.ret = some 0 then r.1.out ++ PrintMessageFlag r.2.ifi_flags else r.1.out⟩

end NetTool
