import NetTool.Util

/-!
# Requests

The encoders `add_ip`, `del_ip`, `add_gateway` and `del_gateway` of `ip_add.c`, `ip_del.c`,
`gateway_add.c` and `gateway_del.c`. Each is given the stack buffer as it was.
-/

namespace NetTool

open Bytes CInt

def IFA_F_PERMANENT : ℕ := 0x80

def RT_TABLE_MAIN : ℕ := 254
def RTPROT_STATIC : ℕ := 4
def RT_SCOPE_UNIVERSE : ℕ := 0
def RTN_UNICAST : ℕ := 1

/-- The address attribute at `rta`. -/
def put_address (c : Libc) (domain : ℤ) (ip : String) (type : ℕ) (vBuf : Mem) (rta : ℕ) : Mem :=
  let vBuf := set16 vBuf (rta + 2) type
  let (vIpLen, vBuf) := util_pton c domain vBuf (RTA_DATA rta) ip
  set16 vBuf rta (RTA_LENGTH vIpLen)

/-! ## Addresses -/

/-- The header and the `struct ifaddrmsg` of `add_ip` and `del_ip`, with the type of their message
and the index of their device. -/
def ip_header (nlmsg_type ifa_index : ℕ) (stale : Mem) (a_Domain : ℤ) : Mem :=
  let vBuf := fill stale 0 BUFLEN 0
  let vBuf := set32 vBuf 0 (NLMSG_LENGTH 8)
  let vBuf := set16 vBuf 4 nlmsg_type
  let vBuf := set16 vBuf 6 (NLM_F_REQUEST ||| NLM_F_ACK)
  let pIfAddrMsg := NLMSG_DATA 0
  let vBuf := set8 vBuf pIfAddrMsg (u32 a_Domain)
  let vBuf := set8 vBuf (pIfAddrMsg + 1) 16
  let vBuf := set8 vBuf (pIfAddrMsg + 2) IFA_F_PERMANENT
  let vBuf := set8 vBuf (pIfAddrMsg + 3) 0
  set32 vBuf (pIfAddrMsg + 4) ifa_index

def ip_request (nlmsg_type ifa_index : ℕ) (c : Libc) (stale : Mem) (a_Domain : ℤ)
    (a_Ip : String) : Sent :=
  let vBuf := ip_header nlmsg_type ifa_index stale a_Domain
  let pRtAttr := IFA_RTA (NLMSG_DATA 0)
  let vBuf := put_address c a_Domain a_Ip IFA_LOCAL vBuf pRtAttr
  let vBuf := set32 vBuf 0 (NLMSG_ALIGN (nlmsg_len vBuf 0) + rta_len vBuf pRtAttr)
  let vLen := i32 (BUFLEN - nlmsg_len vBuf 0)
  let pRtAttr := (RTA_NEXT i32 vBuf (pRtAttr, vLen)).1
  let vBuf := put_address c a_Domain a_Ip IFA_ADDRESS vBuf pRtAttr
  let vBuf := set32 vBuf 0 (nlmsg_len vBuf 0 + rta_len vBuf pRtAttr)
  send_message c vBuf

def add_ip : Libc → Mem → ℤ → String → Sent := ip_request RTM_NEWADDR 3

def del_ip : Libc → Mem → ℤ → String → Sent := ip_request RTM_DELADDR 2

/-! ## Gateways -/

/-- The header of `add_gateway` and `del_gateway` and the family, with the type and the flags of
their message. -/
def gateway_header (nlmsg_type nlmsg_flags : ℕ) (stale : Mem) (domain : ℤ) : Mem :=
  let buf := fill stale 0 BUFLEN 0
  let buf := set32 buf 0 (NLMSG_LENGTH 12)
  let buf := set16 buf 4 nlmsg_type
  let buf := set16 buf 6 nlmsg_flags
  set8 buf (NLMSG_DATA 0) (u32 domain)

/-- What `add_gateway` and `del_gateway` do once the `struct rtmsg` is written. -/
def gateway_request (buf : Mem) (c : Libc) (domain : ℤ) (ip : String) : Sent :=
  let rta := RTM_RTA (NLMSG_DATA 0)
  let buf := put_address c domain ip RTA_GATEWAY buf rta
  let buf := set32 buf 0 (NLMSG_ALIGN (nlmsg_len buf 0) + rta_len buf rta)
  let l := i32 (BUFLEN - nlmsg_len buf 0)
  let rta := (RTA_NEXT i32 buf (rta, l)).1
  let buf := set16 buf (rta + 2) RTA_OIF
  let buf := set16 buf rta (RTA_LENGTH 4)
  let buf := set32 buf (RTA_DATA rta) 2
  let buf := set32 buf 0 (nlmsg_len buf 0 + rta_len buf rta)
  send_message c buf

def add_gateway (c : Libc) (stale : Mem) (domain : ℤ) (ip : String) : Sent :=
  let buf := gateway_header RTM_NEWROUTE
    (NLM_F_REQUEST ||| NLM_F_REPLACE ||| NLM_F_ACK ||| NLM_F_CREATE) stale domain
  let rt := NLMSG_DATA 0
  let buf := set8 buf (rt + 4) RT_TABLE_MAIN
  let buf := set8 buf (rt + 5) RTPROT_STATIC
  let buf := set8 buf (rt + 6) RT_SCOPE_UNIVERSE
  let buf := set8 buf (rt + 7) RTN_UNICAST
  gateway_request buf c domain ip

def del_gateway (c : Libc) (stale : Mem) (domain : ℤ) (ip : String) : Sent :=
  let buf := gateway_header RTM_DELROUTE (NLM_F_REQUEST ||| NLM_F_ACK) stale domain
  let rt := NLMSG_DATA 0
  let buf := set8 buf (rt + 6) RT_SCOPE_UNIVERSE
  let buf := set8 buf (rt + 7) RTN_UNICAST
  gateway_request buf c domain ip

end NetTool
