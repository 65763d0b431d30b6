import NetTool.Event

/-!
# The interface watch

`ProcessInterfaceWatch` of `ifacewatch.c`, as it is compiled on Linux. The list of the interfaces
and the function that joins and leaves multicast groups belong to the daemon around it: the list is
given, and a call of the function is kept as an event.
-/

namespace NetTool

open Bytes CInt Loop

/-- What the watch reads of a `struct lan_addr_s`. -/
structure lan_addr_s where
  ifname : List UInt8
  str : String
  index : ℕ
  deriving DecidableEq

inductive Priority
  | LOG_ERR
  | LOG_INFO
  | LOG_DEBUG
  deriving DecidableEq

inductive WatchEv
  | recvmsg
  | syslog (priority : Priority) (fmt : String) (args : List Arg)
  | AddDropMulticastMembership (s : ℤ) (lan_addr : lan_addr_s) (ipv6 is_del : Bool)
  deriving DecidableEq

/-- The variables that the attribute loop changes. -/
structure WatchAddr where
  address : String
  ifname : List UInt8
  out : List WatchEv

def watch_attribute (g : Globals) (c : Libc) (ifa_family : ℕ) (m : Mem) (rta : ℕ)
    (s : WatchAddr) : WatchAddr :=
  let type := rta_type m rta
  let tmp := addr_text g c ifa_family m rta
  let s :=
    if type = IFA_ADDRESS then
      { s with address := (c.inet_ntop ifa_family m (RTA_DATA rta)).getD "" }
    else if type = IFA_LABEL then
      { s with ifname := strncpy_text g .ifname 16 (cstr m (RTA_DATA rta) 128) }
    else s
  { s with
    out := s.out ++ [.syslog .LOG_DEBUG " rta_len=%d rta_type=%d '%s'"
      [.int (rta_len m rta), .int type, tmp]] }

/-- What a message about an address leads to, once its attributes are read. -/
def watch_membership (lan_addrs : List lan_addr_s) (s_ssdp s_ssdp6 : ℤ) (ifa : ifaddrmsg)
    (address : String) (ifname : List UInt8) (is_del : Bool) : List WatchEv :=
  match lan_addrs.find? fun lan_addr =>
    address = lan_addr.str ∨ ifname = lan_addr.ifname ∨ ifa.ifa_index = lan_addr.index with
  | none => []
  | some lan_addr =>
    if ifa.ifa_family = AF_INET then [.AddDropMulticastMembership s_ssdp lan_addr false is_del]
    else if ifa.ifa_family = AF_INET6 then
      [.AddDropMulticastMembership s_ssdp6 lan_addr true is_del]
    else []

/-- The two cases of the `switch` that are about addresses. -/
def watch_address (g : Globals) (c : Libc) (fuel : ℕ) (lan_addrs : List lan_addr_s)
    (s_ssdp s_ssdp6 : ℤ) (m : Mem) (nlhdr : ℕ) (is_del : Bool) : List WatchEv :=
  let ifa := ifaddrmsg.at m (NLMSG_DATA nlhdr)
  let rta := IFA_RTA (NLMSG_DATA nlhdr)
  let ifa_len := i32 (NLMSG_PAYLOAD m nlhdr 8)
  let name := if is_del then "RTM_DELADDR" else "RTM_NEWADDR"
  let s := (forLoop (fun t => RTA_OK m t.1 t.2) (RTA_NEXT i32 m)
    (fun t s => (watch_attribute g c ifa.ifa_family m t.1 s, (none : Option Unit))) fuel
    (rta, ifa_len) ⟨"", [], []⟩).1
  .syslog .LOG_DEBUG "%s %s index=%d fam=%d prefixlen=%d flags=%d scope=%d"
      [.str "ProcessInterfaceWatchNotify", .str name, .int (i32 ifa.ifa_index),
        .int ifa.ifa_family, .int ifa.ifa_prefixlen, .int ifa.ifa_flags, .int ifa.ifa_scope] ::
    s.out ++
    .syslog .LOG_INFO "%s: %s/%d %s"
      [.str name, .str s.address, .int ifa.ifa_prefixlen, .bytes s.ifname] ::
    watch_membership lan_addrs s_ssdp s_ssdp6 ifa s.address s.ifname is_del

def watch_message (g : Globals) (c : Libc) (fuel : ℕ) (lan_addrs : List lan_addr_s)
    (s_ssdp s_ssdp6 : ℤ) (m : Mem) (nlhdr : ℕ) (out : List WatchEv) :
    List WatchEv × Option Unit :=
  let type := nlmsg_type m nlhdr
  if type = NLMSG_DONE then (out, some ())
  else if type = RTM_DELADDR then
    (out ++ watch_address g c fuel lan_addrs s_ssdp s_ssdp6 m nlhdr true, none)
  else if type = RTM_NEWADDR then
    (out ++ watch_address g c fuel lan_addrs s_ssdp s_ssdp6 m nlhdr false, none)
  else (out ++ [.syslog .LOG_DEBUG "unknown nlmsg_type=%d" [.int type]], none)

/-- `ProcessInterfaceWatch`, with its stack buffer as it was. The remaining length is a
`ssize_t`. -/
def ProcessInterfaceWatch (g : Globals) (c : Libc) (fuel : ℕ) (lan_addrs : List lan_addr_s)
    (s_ssdp s_ssdp6 : ℤ) (r : Reply) (buffer : Mem) : Option ℤ × List WatchEv :=
  let (len, buffer) := recvmsg buffer BUFLEN r
  match r with
  | .fail errno =>
    (some (-1), [.recvmsg, .syslog .LOG_ERR "recvmsg(s, &hdr, 0): %m" [.str (c.strerror errno)]])
  | .datagram _ =>
    let (out, e) := forLoop (fun t => NLMSG_OK buffer t.1 t.2) (NLMSG_NEXT i64 buffer)
      (fun t out => watch_message g c fuel lan_addrs s_ssdp s_ssdp6 buffer t.1 out) fuel (0, len)
      [.recvmsg]
    match e with
    | .running => (none, out)
    | _ => (some 0, out)

end NetTool
