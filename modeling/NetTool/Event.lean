import NetTool.IpLink

/-!
# The event reader

`read_event` of `main_nettool.c` with the handlers it calls. `errno` after a failed receive is the
reply's. The pointer that `IFLA_LINK` prints is the offset counted from the buffer's address. A
text that `strncpy` cuts has no null byte, so it is printed with what stands behind its array.
-/

namespace NetTool

open Bytes CInt Loop

/-! ## The tables -/

structure sArrayItem where
  ID : ℤ
  Name : String

structure sArrayFamily where
  Number : ℕ
  Array : List sArrayItem
  Max : ℕ

def gStringError : String := "ERROR"

def ArrayFindItem (a_pArray : sArrayFamily) (a_ID : ℤ) : String :=
  match (a_pArray.Array.take a_pArray.Max).find? fun item => item.ID = a_ID with
  | some item => item.Name
  | none => gStringError

/-- No result is a store outside `Array` or outside the 100 bytes of `Name`. -/
def ArraySetItem (a_pArray : sArrayFamily) (a_Id : ℤ) (a_KeyName : String) : Option sArrayFamily :=
  if a_pArray.Number < a_pArray.Array.length ∧ a_KeyName.utf8ByteSize < 100 then
    some { a_pArray with
      Array := a_pArray.Array.set a_pArray.Number ⟨a_Id, a_KeyName⟩
      Number := a_pArray.Number + 1 }
  else none

/-- The length of `Array`, with the `PF_MAX` of the system's header. -/
def ARRAY_ADDRESS_FAMILY_MAX (PF_MAX : ℕ) : ℕ := PF_MAX + 3

/-- `gArrayFamily` after `memset` and the assignment to `Max`. -/
def sArrayFamily.zeroed (PF_MAX : ℕ) : sArrayFamily where
  Number := 0
  Array := List.replicate (ARRAY_ADDRESS_FAMILY_MAX PF_MAX) ⟨0, ""⟩
  Max := ARRAY_ADDRESS_FAMILY_MAX PF_MAX

/-- Calls of `ArraySetItem`, one after the other. -/
def setItems (items : List (ℤ × String)) (a_pArray : sArrayFamily) : Option sArrayFamily :=
  items.foldlM (fun a_pArray item => ArraySetItem a_pArray item.1 item.2) a_pArray

/-- What `setArrayAddressFamily` registers, with the numbers of the system's header. -/
def addressFamilies (PF_MAX : ℕ) : List (ℤ × String) :=
  [(0, "AF_UNSPEC"), (0, "AF_UNSPEC"), (1, "AF_LOCAL"), (1, "AF_UNIX"), (1, "AF_FILE"),
    (2, "AF_INET"), (3, "AF_AX25"), (4, "AF_IPX"), (5, "AF_APPLETALK"), (6, "AF_NETROM"),
    (7, "AF_BRIDGE"), (8, "AF_ATMPVC"), (9, "AF_X25"), (10, "AF_INET6"), (11, "AF_ROSE"),
    (12, "AF_DECnet"), (13, "AF_NETBEUI"), (14, "AF_SECURITY"), (15, "AF_KEY"),
    (16, "AF_NETLINK"), (16, "AF_ROUTE"), (17, "AF_PACKET"), (18, "AF_ASH"), (19, "AF_ECONET"),
    (20, "AF_ATMSVC"), (21, "AF_RDS"), (22, "AF_SNA"), (23, "AF_IRDA"), (24, "AF_PPPOX"),
    (25, "AF_WANPIPE"), (26, "AF_LLC"), (29, "AF_CAN"), (30, "AF_TIPC"), (31, "AF_BLUETOOTH"),
    (32, "AF_IUCV"), (33, "AF_RXRPC"), (34, "AF_ISDN"), (35, "AF_PHONET"), (36, "AF_IEEE802154"),
    (37, "AF_CAIF"), (38, "AF_ALG"), (39, "AF_NFC"), (40, "AF_VSOCK"),
    ((PF_MAX : ℤ), "AF_MAX")]

def setArrayAddressFamily (PF_MAX : ℕ) : Option sArrayFamily :=
  setItems (addressFamilies PF_MAX) (.zeroed PF_MAX)

/-- The local arrays that `strncpy` copies to. -/
inductive LocalArray
  | tmp
  | ifname
  | vBufferData

/-- The tables of the program, where the receive buffer is, and what stands on the stack behind a
local array up to a null byte. -/
structure Globals where
  gArray_RTM_Type : ℕ → String
  gArray_IFA_Type : List String
  gArrayFamily : sArrayFamily
  vBuf : ℕ
  behind : LocalArray → List UInt8

/-- The tables before `SetArrays`. -/
def Globals.empty : Globals := ⟨fun _ => "", [], ⟨0, [], 0⟩, 0, fun _ => []⟩

/-- What is printed of an array of `n` bytes after `strncpy` from a string. -/
def strncpy_text (g : Globals) (a : LocalArray) (n : ℕ) (src : List UInt8) : List UInt8 :=
  if src.length < n then src else src.take n ++ g.behind a

/-- The name of any message type is the first of the table. -/
def getRTM_Type (g : Globals) (_a_Type : ℕ) : String := g.gArray_RTM_Type 0

/-- The name of an attribute type below `__IFA_MAX`, printed as a null pointer is otherwise. -/
def getIFA_Type (g : Globals) (a_Type : ℕ) : String :=
  (g.gArray_IFA_Type[a_Type]?).getD "(null)"

/-! ## Addresses -/

/-- The text an attribute of an address is printed with. -/
def addr_text (g : Globals) (c : Libc) (ifa_family : ℕ) (m : Mem) (rta : ℕ) : Arg :=
  let type := rta_type m rta
  if type = IFA_ADDRESS ∨ type = IFA_LOCAL ∨ type = IFA_BROADCAST ∨ type = IFA_ANYCAST then
    .str ((c.inet_ntop ifa_family m (RTA_DATA rta)).getD "")
  else if type = IFA_LABEL then .bytes (strncpy_text g .tmp 128 (cstr m (RTA_DATA rta) 128))
  else if type = IFA_CACHEINFO then
    .str ("valid=" ++ toString (get32 m (RTA_DATA rta + 4)) ++ " prefered=" ++
      toString (get32 m (RTA_DATA rta)))
  else .str "*unknown*"

/-- The variables the attribute loop of `RTM_NEWADDR_Check` changes. -/
structure NewAddr where
  address : Arg
  ifname : Arg
  out : List Ev

def newaddr_attribute (g : Globals) (c : Libc) (ifa_family : ℕ) (m : Mem) (rta : ℕ)
    (s : NewAddr) : NewAddr :=
  let type := rta_type m rta
  let tmp := addr_text g c ifa_family m rta
  let s :=
    if type = IFA_ADDRESS ∨ type = IFA_LOCAL ∨ type = IFA_BROADCAST ∨ type = IFA_ANYCAST then
      { s with address := tmp }
    else if type = IFA_LABEL then
      { s with ifname := .bytes (strncpy_text g .ifname 16 (cstr m (RTA_DATA rta) 128)) }
    else s
  { s with
    out := s.out ++ [.printf "RTM_NEWADDR_Check : Attribut rta_type=%d-%s '%s' rta_len=%d \n"
      [.int type, .str (getIFA_Type g type), tmp, .int (rta_len m rta)]] }

def RTM_NEWADDR_Check (g : Globals) (c : Libc) (fuel : ℕ) (m : Mem) (a_pNlmsghdr : ℕ) : List Ev :=
  let ifa := ifaddrmsg.at m (NLMSG_DATA a_pNlmsghdr)
  let rta := IFA_RTA (NLMSG_DATA a_pNlmsghdr)
  let ifa_len := i32 (NLMSG_PAYLOAD m a_pNlmsghdr 8)
  let s := (forLoop (fun t => RTA_OK m t.1 t.2) (RTA_NEXT i32 m)
    (fun t s => (newaddr_attribute g c ifa.ifa_family m t.1 s, (none : Option Unit))) fuel
    (rta, ifa_len) ⟨.str "", .str "", []⟩).1
  [.printf "RTM_NEWADDR_Check\n" [],
    .printf "RTM_NEWADDR_Check : %s %s index=%d fam=%d prefixlen=%d flags=%d scope=%d\n"
      [.str "ProcessInterfaceWatchNotify", .str "RTM_NEWADDR", .int (i32 ifa.ifa_index),
        .int ifa.ifa_family, .int ifa.ifa_prefixlen, .int ifa.ifa_flags, .int ifa.ifa_scope]] ++
    s.out ++ [.printf "RTM_NEWADDR_Check : OUT %s: %s/%d %s\n"
      [.str "RTM_NEWADDR", s.address, .int ifa.ifa_prefixlen, s.ifname]]

/-! ## Links -/

/-- The flags `RTM_NEWLINK_Check` compares, in its order. -/
def checkedFlags : List (String × ℕ) :=
  [("IFF_UP", IFF_UP), ("IFF_BROADCAST", IFF_BROADCAST), ("IFF_DEBUG", IFF_DEBUG),
    ("IFF_LOOPBACK", IFF_LOOPBACK), ("IFF_POINTOPOINT", IFF_POINTOPOINT),
    ("IFF_RUNNING", IFF_RUNNING), ("IFF_NOARP", IFF_NOARP), ("IFF_PROMISC", IFF_PROMISC),
    ("IFF_NOTRAILERS", IFF_NOTRAILERS), ("IFF_ALLMULTI", IFF_ALLMULTI),
    ("IFF_MASTER", IFF_MASTER), ("IFF_SLAVE", IFF_SLAVE), ("IFF_MULTICAST", IFF_MULTICAST),
    ("IFF_PORTSEL", IFF_PORTSEL), ("IFF_AUTOMEDIA", IFF_AUTOMEDIA), ("IFF_DYNAMIC", IFF_DYNAMIC),
    ("IFF_LOWER_UP", IFF_LOWER_UP), ("IFF_DORMANT", IFF_DORMANT), ("IFF_ECHO", IFF_ECHO)]

/-- `CHECK_FLAG` and the line it guards. -/
def check_flag (ifi_flags vIfi_flags : ℕ) (f : String × ℕ) : List Ev :=
  if ifi_flags &&& f.2 ≠ vIfi_flags &&& f.2 then
    [.printf " %-20s = %d \n" [.str f.1, .int (if ifi_flags &&& f.2 ≠ 0 then 1 else 0)]]
  else []

/-- What is printed of one attribute of a link. -/
def newlink_attribute (g : Globals) (c : Libc) (ifi_family : ℕ) (m : Mem) (pRtAttr : ℕ) :
    List Ev :=
  let type := rta_type m pRtAttr
  if type = IFLA_ADDRESS then
    [.printf "%-15s = %s \n" [.str "IFLA_ADDRESS",
      .str ((c.inet_ntop ifi_family m (RTA_DATA pRtAttr)).getD "")]]
  else if type = IFLA_BROADCAST then
    [.printf "%-15s = %s \n" [.str "IFLA_BROADCAST",
      .str ((c.inet_ntop ifi_family m (RTA_DATA pRtAttr)).getD "")]]
  else if type = IFLA_IFNAME then
    [.printf "%-15s = %s \n" [.str "IFLA_IFNAME",
      .bytes (strncpy_text g .vBufferData 128 (cstr m (RTA_DATA pRtAttr) 128))]]
  else if type = IFLA_MTU then
    [.printf "%-15s = %u \n" [.str "IFLA_MTU", .int (get32 m (RTA_DATA pRtAttr))]]
  else if type = IFLA_LINK then
    [.printf "%-15s = %d \n" [.str ",IFLA_LINK", .int (i32 (g.vBuf + RTA_DATA pRtAttr))]]
  else if type = IFLA_QDISC then
    [.printf "%-15s = %s \n" [.str "IFLA_QDISC",
      .bytes (strncpy_text g .vBufferData 128 (cstr m (RTA_DATA pRtAttr) 128))]]
  else if type = IFLA_STATS then [.printf "%-15s =  \n" [.str "IFLA_STATS"]]
  else []

/-- `RTM_NEWLINK_Check`, with its static `vIfi_flags`; also the new `vIfi_flags`. -/
def RTM_NEWLINK_Check (g : Globals) (c : Libc) (fuel vIfi_flags : ℕ) (m : Mem)
    (a_pNlmsghdr : ℕ) : ℕ × List Ev :=
  let info := ifinfomsg.at m (NLMSG_DATA a_pNlmsghdr)
  let pRtAttr := IFLA_RTA (NLMSG_DATA a_pNlmsghdr)
  let vLen := i32 (NLMSG_PAYLOAD m a_pNlmsghdr 16)
  let attrs := (forLoop (fun t => RTA_OK m t.1 t.2) (RTA_NEXT i32 m)
    (fun t out => (out ++ newlink_attribute g c info.ifi_family m t.1, (none : Option Unit))) fuel
    (pRtAttr, vLen) []).1
  (info.ifi_flags,
    [.printf "\n RTM_NEWLINK_Check \n" [],
      .printf "\t %-15s : %10d %s\n" [.str "ifi_family", .int info.ifi_family,
        .str (ArrayFindItem g.gArrayFamily info.ifi_family)],
      .printf "\t %-15s : %10d \n" [.str "ifi_index", .int info.ifi_index],
      .printf "\t %-15s : %10d \n" [.str "ifi_type", .int info.ifi_type],
      .printf "\t %-15s : %10d \n" [.str "ifi_change", .int (i32 info.ifi_change)],
      .printf "\t %-30s : %10d \n" [.str "ifi_flags", .int (i32 info.ifi_flags)]] ++
    checkedFlags.flatMap (check_flag info.ifi_flags vIfi_flags) ++
    [.printf "\n" []] ++ attrs ++ [.printf "RTM_NEWLINK_Check\n" []])

/-- What `RTM_NEWLINK_Check` prints for each of the messages it is called with, one after the
other. -/
def newlinkRun (g : Globals) (c : Libc) (fuel : ℕ) : ℕ → List (Mem × ℕ) → List (List Ev)
  | _, [] => []
  | vIfi_flags, (m, a_pNlmsghdr) :: msgs =>
    let r := RTM_NEWLINK_Check g c fuel vIfi_flags m a_pNlmsghdr
    r.2 :: newlinkRun g c fuel r.1 msgs

/-! ## Dispatch -/

/-- What `read_event` does with a message that is no mark. -/
inductive Handler
  | newaddr
  | deladdr
  | getaddr
  | newlink
  | dellink
  | getlink
  | setlink
  | other
  deriving DecidableEq

def Handler.ofType (type : ℕ) : Handler :=
  if type = RTM_NEWADDR then .newaddr
  else if type = RTM_DELADDR then .deladdr
  else if type = RTM_GETADDR then .getaddr
  else if type = RTM_NEWLINK then .newlink
  else if type = RTM_DELLINK then .dellink
  else if type = RTM_GETLINK then .getlink
  else if type = RTM_SETLINK then .setlink
  else .other

/-- A dispatched message: what it was handed to, where it stands and its `nlmsg_len` bytes. -/
structure Dispatch where
  handler : Handler
  off : ℕ
  bytes : List UInt8
  deriving DecidableEq

/-- What `read_event` changes: the static of `RTM_NEWLINK_Check`, the messages it dispatched and
what it printed. -/
structure Watch where
  vIfi_flags : ℕ
  calls : List Dispatch
  out : List Ev

def Handler.run (g : Globals) (c : Libc) (fuel : ℕ) (m : Mem) (o : ℕ) (s : Watch) :
    Handler → Watch
  | .newaddr => { s with out := s.out ++ RTM_NEWADDR_Check g c fuel m o }
  | .deladdr => { s with out := s.out ++ [.printf "RTM_DELADDR_Check\n" []] }
  | .getaddr => { s with out := s.out ++ [.printf "RTM_GETADDR_Check\n" []] }
  | .newlink =>
    let (vIfi_flags, out) := RTM_NEWLINK_Check g c fuel s.vIfi_flags m o
    { s with vIfi_flags := vIfi_flags, out := s.out ++ out }
  | .dellink => { s with out := s.out ++ [.printf "RTM_DELLINK_Check\n" []] }
  | .getlink => { s with out := s.out ++ [.printf "RTM_GETLINK_Check\n" []] }
  | .setlink => { s with out := s.out ++ [.printf "RTM_SETLINK_Check\n" []] }
  | .other => { s with
      out := s.out ++ [.printf "\n read_event_9 : else  %d,%s"
        [.int (nlmsg_type m o), .str (getRTM_Type g (nlmsg_type m o))]] }

/-- One message of `read_event`, with the value it returns where it returns. -/
def event_message (g : Globals) (c : Libc) (fuel : ℕ) (m : Mem) (o : ℕ) (s : Watch) :
    Watch × Option ℤ :=
  let s := { s with out := s.out ++ [.printf "read_event_7 : >>>>>>>>>>>>>>>>>>>>>>\n" []] }
  let type := nlmsg_type m o
  if type = NLMSG_DONE then (s, some 0)
  else if type = NLMSG_ERROR then
    ({ s with
      out := s.out ++ [.printf "read_event_8 : Message is an error - decode TBD\n" []] }, some (-1))
  else
    let h := Handler.ofType type
    let s := { s with calls := s.calls ++ [⟨h, o, slice m o (nlmsg_len m o)⟩] }
    let s := h.run g c fuel m o s
    ({ s with out := s.out ++ [.printf "read_event_10 : <<<<<<<<<<<<<<<<<<<<<<<\n" []] }, none)

def read_event (g : Globals) (c : Libc) (fuel : ℕ) (r : Reply) (vBuf : Mem) (s : Watch) :
    Option ℤ × Watch :=
  let (status, vBuf) := recvmsg vBuf BUFLEN r
  let s := { s with
    out := s.out ++ [.recvmsg, .printf "read_event_1 : >>>>>>>>>>>>>>>>>>>>>>\n" [],
      .printf "read_event_2 : recvmsg() == %d\n" [.int status]] }
  match r with
  | .fail errno =>
    if errno = EAGAIN then (some 0, s)
    else
      (some status, { s with
        out := s.out ++ [.printf "read_event_3 : Error recvmsg: %d\n" [.int status],
          .eprintf "%s: %s\n" [.str "read_event_4 : Error: ", .str (c.strerror errno)]] })
  | .datagram _ =>
    let s := if status = 0 then
        { s with out := s.out ++ [.printf "read_event_5 : EOF\n" []] } else s
    let s := { s with
      out := s.out ++ [.printf "read_event_6 : nlmsg_len = %d nlmsg_flags=%#x nlmsg_pid=%d nlmsg_seq=%d nlmsg_type= %d-%s NLMSG_PAYLOAD=%d\n \n"
        [.int (i32 (nlmsg_len vBuf 0)), .int (nlmsg_flags vBuf 0), .int (i32 (nlmsg_pid vBuf 0)),
          .int (i32 (nlmsg_seq vBuf 0)), .int (nlmsg_type vBuf 0),
          .str (getRTM_Type g (nlmsg_type vBuf 0)), .int (i32 (NLMSG_PAYLOAD vBuf 0 0))]] }
    let (s, e) := forLoop (fun t => NLMSG_OK vBuf t.1 (u32 t.2)) (NLMSG_NEXT i32 vBuf)
      (fun t s => event_message g c fuel vBuf t.1 s) fuel (0, status) s
    match e with
    | .running => (none, s)
    | .brk ret => (some ret, s)
    | .done =>
      (some 0, { s with out := s.out ++ [.printf "read_event_12 : <<<<<<<<<<<<<<<<<<<<\n" []] })

end NetTool
