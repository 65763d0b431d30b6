import NetTool.Lib.CInt
import NetTool.Lib.Frames

/-!
# Netlink messages and the socket

The constants, structures and macros of `linux/netlink.h` and `linux/rtnetlink.h` that the sources
use. A buffer is a byte memory, and a message, an attribute or a structure in it is the offset it
stands at; past the bytes that were written it holds whatever was there.

`NLMSG_OK` and `RTA_OK` take the remaining length as the number the test compares, after the
conversion of the call; `NLMSG_NEXT` and `RTA_NEXT` take the conversion that stores it again.

The socket is the list of what its receive calls will bring. A program that waits for a reply
that does not come has no result. What it sends, prints and receives is kept as its trace.
-/

namespace NetTool

open Bytes CInt Frames Loop

def BUFLEN : ℕ := 4096

def EAGAIN : ℤ := 11
def EINVAL : ℤ := 22

def AF_UNSPEC : ℕ := 0
def AF_INET : ℕ := 2
def AF_INET6 : ℕ := 10

def NLMSG_ERROR : ℕ := 0x2
def NLMSG_DONE : ℕ := 0x3

def RTM_NEWLINK : ℕ := 16
def RTM_DELLINK : ℕ := 17
def RTM_GETLINK : ℕ := 18
def RTM_SETLINK : ℕ := 19
def RTM_NEWADDR : ℕ := 20
def RTM_DELADDR : ℕ := 21
def RTM_GETADDR : ℕ := 22
def RTM_NEWROUTE : ℕ := 24
def RTM_DELROUTE : ℕ := 25
def RTM_GETROUTE : ℕ := 26

def NLM_F_REQUEST : ℕ := 0x1
def NLM_F_ACK : ℕ := 0x4
def NLM_F_ROOT : ℕ := 0x100
def NLM_F_MATCH : ℕ := 0x200
def NLM_F_DUMP : ℕ := NLM_F_ROOT ||| NLM_F_MATCH
def NLM_F_REPLACE : ℕ := 0x100
def NLM_F_CREATE : ℕ := 0x400

def IFA_ADDRESS : ℕ := 1
def IFA_LOCAL : ℕ := 2
def IFA_LABEL : ℕ := 3
def IFA_BROADCAST : ℕ := 4
def IFA_ANYCAST : ℕ := 5
def IFA_CACHEINFO : ℕ := 6

def IFLA_ADDRESS : ℕ := 1
def IFLA_BROADCAST : ℕ := 2
def IFLA_IFNAME : ℕ := 3
def IFLA_MTU : ℕ := 4
def IFLA_LINK : ℕ := 5
def IFLA_QDISC : ℕ := 6
def IFLA_STATS : ℕ := 7

def RTA_OIF : ℕ := 4
def RTA_GATEWAY : ℕ := 5

/-! ## Messages -/

def nlmsg_len (m : Mem) (o : ℕ) : ℕ := get32 m o
def nlmsg_type (m : Mem) (o : ℕ) : ℕ := get16 m (o + 4)
def nlmsg_flags (m : Mem) (o : ℕ) : ℕ := get16 m (o + 6)
def nlmsg_seq (m : Mem) (o : ℕ) : ℕ := get32 m (o + 8)
def nlmsg_pid (m : Mem) (o : ℕ) : ℕ := get32 m (o + 12)

def NLMSG_ALIGN (len : ℕ) : ℕ := u32 (len + 3) / 4 * 4

def NLMSG_LENGTH (len : ℕ) : ℕ := len + 16

def NLMSG_DATA (o : ℕ) : ℕ := o + NLMSG_LENGTH 0

def NLMSG_OK (m : Mem) (o : ℕ) (len : ℤ) : Bool :=
  16 ≤ len ∧ 16 ≤ nlmsg_len m o ∧ nlmsg_len m o ≤ len

def NLMSG_NEXT (conv : ℤ → ℤ) (m : Mem) (t : ℕ × ℤ) : ℕ × ℤ :=
  (t.1 + NLMSG_ALIGN (nlmsg_len m t.1), conv (t.2 - NLMSG_ALIGN (nlmsg_len m t.1)))

/-! ## Attributes -/

def rta_len (m : Mem) (o : ℕ) : ℕ := get16 m o
def rta_type (m : Mem) (o : ℕ) : ℕ := get16 m (o + 2)

def RTA_ALIGN (len : ℕ) : ℕ := u32 (len + 3) / 4 * 4

def RTA_LENGTH (len : ℤ) : ℕ := u64 (len + 4)

def RTA_DATA (o : ℕ) : ℕ := o + 4

def RTA_OK (m : Mem) (o : ℕ) (len : ℤ) : Bool :=
  4 ≤ len ∧ 4 ≤ rta_len m o ∧ rta_len m o ≤ len

def RTA_NEXT (conv : ℤ → ℤ) (m : Mem) (t : ℕ × ℤ) : ℕ × ℤ :=
  (t.1 + RTA_ALIGN (rta_len m t.1), conv (t.2 - RTA_ALIGN (rta_len m t.1)))

/-! ## Headers of the message families -/

/-- The 16 bytes of a `struct ifinfomsg`. -/
structure ifinfomsg where
  ifi_family : ℕ
  ifi_pad : ℕ
  ifi_type : ℕ
  ifi_index : ℤ
  ifi_flags : ℕ
  ifi_change : ℕ
  deriving DecidableEq

def ifinfomsg.at (m : Mem) (o : ℕ) : ifinfomsg where
  ifi_family := get8 m o
  ifi_pad := get8 m (o + 1)
  ifi_type := get16 m (o + 2)
  ifi_index := i32 (get32 m (o + 4))
  ifi_flags := get32 m (o + 8)
  ifi_change := get32 m (o + 12)

/-- What `memset` leaves. -/
def ifinfomsg.zero : ifinfomsg := ⟨0, 0, 0, 0, 0, 0⟩

def IFLA_RTA (o : ℕ) : ℕ := o + 16

structure ifaddrmsg where
  ifa_family : ℕ
  ifa_prefixlen : ℕ
  ifa_flags : ℕ
  ifa_scope : ℕ
  ifa_index : ℕ
  deriving DecidableEq

def ifaddrmsg.at (m : Mem) (o : ℕ) : ifaddrmsg where
  ifa_family := get8 m o
  ifa_prefixlen := get8 m (o + 1)
  ifa_flags := get8 m (o + 2)
  ifa_scope := get8 m (o + 3)
  ifa_index := get32 m (o + 4)

def IFA_RTA (o : ℕ) : ℕ := o + 8

structure rtmsg where
  rtm_family : ℕ
  rtm_table : ℕ
  rtm_protocol : ℕ
  rtm_scope : ℕ
  rtm_type : ℕ
  deriving DecidableEq

def rtmsg.at (m : Mem) (o : ℕ) : rtmsg where
  rtm_family := get8 m o
  rtm_table := get8 m (o + 4)
  rtm_protocol := get8 m (o + 5)
  rtm_scope := get8 m (o + 6)
  rtm_type := get8 m (o + 7)

def RTM_RTA (o : ℕ) : ℕ := o + 12

/-- `NLMSG_PAYLOAD(nlh, n)` as a `size_t`, also under the names `IFLA_PAYLOAD`, `IFA_PAYLOAD` and
`RTM_PAYLOAD` for the `n` bytes of their structures. -/
def NLMSG_PAYLOAD (m : Mem) (o n : ℕ) : ℕ :=
  u64 (nlmsg_len m o - NLMSG_ALIGN (NLMSG_LENGTH n))

/-! ## The two formats -/

def netlink : Format where
  hdr := 16
  align := 4
  len m := get32 m 0
  hdr_pos := by omega
  align_pos := by omega
  len_congr m m' h := get32_congr fun a _ ha => h a (by omega)

def rtattr : Format where
  hdr := 4
  align := 4
  len m := get16 m 0
  hdr_pos := by omega
  align_pos := by omega
  len_congr m m' h := get16_congr fun a _ ha => h a (by omega)

/-- A complete message with its padding, and its fields. -/
abbrev Msg := Format.Frame netlink

namespace Msg

def type (f : Msg) : ℕ := nlmsg_type (ofList f.bytes) 0

def info (f : Msg) : ifinfomsg := ifinfomsg.at (ofList f.bytes) (NLMSG_DATA 0)

/-- A message of type `t` that is its header only. -/
def header (t : UInt8) : Msg where
  bytes := [16, 0, 0, 0, t, 0, 0, 0, 0, 0, 0, 0, 0, 0, 0, 0]
  padding := []
  long := Nat.le_refl 16
  len_eq := rfl
  padded := by simp [netlink, Format.pad]

theorem type_header_done : (header 3).type = NLMSG_DONE := rfl

/-- An `RTM_NEWLINK` message that is its `ifinfomsg` only. -/
def newLink (index flags : UInt8) : Msg where
  bytes := [32, 0, 0, 0, 16, 0, 0, 0, 0, 0, 0, 0, 0, 0, 0, 0,
    0, 0, 0, 0, index, 0, 0, 0, flags, 0, 0, 0, 0, 0, 0, 0]
  padding := []
  long := Nat.le_add_left 16 16
  len_eq := rfl
  padded := by simp [netlink, Format.pad]

end Msg

/-- A dump: messages that neither end it nor report an error, the link messages with their header,
and the message that ends it. -/
structure Dump where
  msgs : List Msg
  done : Msg
  not_end : ∀ f ∈ msgs, f.type ≠ NLMSG_DONE
  no_error : ∀ f ∈ msgs, f.type ≠ NLMSG_ERROR
  links : ∀ f ∈ msgs, f.type = RTM_NEWLINK → 32 ≤ f.bytes.length
  is_end : done.type = NLMSG_DONE

/-- A way to send a dump in datagrams that fit a receive buffer. -/
structure Dump.Split (D : Dump) where
  datagrams : List (List Msg)
  flatten_eq : datagrams.flatten = D.msgs ++ [D.done]
  fits : ∀ d ∈ datagrams, (Format.encode d).length ≤ BUFLEN

/-! ## The socket and the trace -/

/-- What one receive call brings. -/
inductive Reply
  | fail (errno : ℤ)
  | datagram (bytes : List UInt8)
  deriving DecidableEq

/-- A datagram of complete messages. -/
def Reply.ofMsgs (d : List Msg) : Reply := .datagram (Format.encode d)

/-- `recvmsg` into the first `len` bytes of a buffer, cutting a longer datagram. -/
def recvmsg (buf : Mem) (len : ℕ) : Reply → ℤ × Mem
  | .fail _ => (-1, buf)
  | .datagram bytes => ((bytes.take len).length, overlay (bytes.take len) buf)

/-- What the receive calls bring one after the other: their results and what the buffer holds
then. -/
def receives : List Reply → Mem → List (ℤ × Mem)
  | [], _ => []
  | r :: rs, buf => recvmsg buf BUFLEN r :: receives rs (recvmsg buf BUFLEN r).2

/-- The messages in what a receive call brought. -/
def accepted (p : ℤ × Mem) : List ℕ := netlink.offsets p.2 0 p.1.toNat

inductive Arg
  | int (v : ℤ)
  | str (s : String)
  | bytes (s : List UInt8)
  deriving DecidableEq

inductive Ev
  | sendmsg (bytes : List UInt8)
  | recvmsg
  | printf (fmt : String) (args : List Arg)
  | eprintf (fmt : String) (args : List Arg)
  deriving DecidableEq

/-- What a call did, and its result unless it still waits for a reply. -/
structure Outcome (α : Type) where
  ret : Option α
  out : List Ev

/-- The C library and what the kernel answers apart from the replies. -/
structure Libc where
  if_nametoindex : String → ℕ
  if_indextoname : ℕ → Option String
  getpid : ℕ
  sendmsg : ℤ
  errno : ℤ
  strerror : ℤ → String
  ntop : List UInt8 → String
  pton4 : String → Option (Vector UInt8 4)
  pton6 : String → Option (Vector UInt8 16)

/-- `inet_ntop`, from the 4 or 16 bytes at `o`. -/
def Libc.inet_ntop (c : Libc) (af : ℕ) (m : Mem) (o : ℕ) : Option String :=
  if af = AF_INET then some (c.ntop (slice m o 4))
  else if af = AF_INET6 then some (c.ntop (slice m o 16))
  else none

/-- `inet_pton`, with the 4 or 16 bytes it writes for a valid text. -/
def Libc.inet_pton (c : Libc) (af : ℤ) (src : String) : Option (List UInt8) :=
  if af = AF_INET then (c.pton4 src).map Vector.toList
  else if af = AF_INET6 then (c.pton6 src).map Vector.toList
  else none

/-- A machine without devices that knows the text of one address. -/
def Libc.bare : Libc where
  if_nametoindex _ := 0
  if_indextoname _ := none
  getpid := 1
  sendmsg := 0
  errno := 0
  strerror _ := ""
  ntop _ := ""
  pton4 src := if src = "192.168.1.2" then some #v[192, 168, 1, 2] else none
  pton6 _ := none

end NetTool
