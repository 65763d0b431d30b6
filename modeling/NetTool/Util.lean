import NetTool.Netlink

/-!
# The shared helpers

`util.c`, and the walks over messages and attributes that the macros of `util.h` and the loops of
the sources spell out.
-/

namespace NetTool

open Bytes CInt Loop

def util_get_msg (buf : Mem) (len : ℕ) (r : Reply) : ℤ × Mem := recvmsg buf len r

/-- The type of the first message, or 0. The callers hand their `int` length over as a
`size_t`. -/
def util_parse_nl_msg_OK (buf : Mem) (len : ℕ) : ℕ :=
  if NLMSG_OK buf 0 len then nlmsg_type buf 0 else 0

/-- `inet_pton` to the address at `o`, and the size of the family's addresses. -/
def util_pton (c : Libc) (domain : ℤ) (buf : Mem) (o : ℕ) (ip : String) : ℤ × Mem :=
  let written :=
    match c.inet_pton domain ip with
    | some a => setBytes buf o a
    | none => buf
  if domain = AF_INET then (4, written)
  else if domain = AF_INET6 then (16, written)
  else (-1, buf)

/-- `inet_ntop` into the static `ip`, which keeps its text where `inet_ntop` fails. -/
def util_ntop (c : Libc) (ip : String) (domain : ℕ) (m : Mem) (o : ℕ) : String :=
  (c.inet_ntop domain m o).getD ip

/-- What a sender leaves: its result, its buffer and the message it sent. -/
structure Sent where
  ret : ℤ
  vBuf : Mem
  out : List Ev

/-- `sendmsg` of the message at the buffer's start, as all senders end. -/
def send_message (c : Libc) (vBuf : Mem) : Sent where
  ret := if c.sendmsg < 0 then -1 else 0
  vBuf := vBuf
  out := [.sendmsg (slice vBuf 0 (nlmsg_len vBuf 0))]

/-- Where a walk with `NLMSG_OK` and `NLMSG_NEXT` finds messages, and how it ends. -/
def walk_messages (fuel : ℕ) (m : Mem) (o : ℕ) (len : ℤ) : List ℕ × Exit Unit :=
  forLoop (fun t => NLMSG_OK m t.1 t.2) (NLMSG_NEXT i32 m) (fun t l => (l ++ [t.1], none)) fuel
    (o, len) []

/-- Where a walk with `RTA_OK` and `RTA_NEXT` finds attributes, and how it ends. -/
def walk_attributes (fuel : ℕ) (m : Mem) (o : ℕ) (len : ℤ) : List ℕ × Exit Unit :=
  forLoop (fun t => RTA_OK m t.1 t.2) (RTA_NEXT i32 m) (fun t l => (l ++ [t.1], none)) fuel
    (o, len) []

/-- The same walk with the remaining length in a `size_t`. -/
def walk_attributes_size (fuel : ℕ) (m : Mem) (o len : ℕ) : List ℕ × Exit Unit :=
  forLoop (fun t => RTA_OK m t.1 t.2) (RTA_NEXT (fun x => u64 x) m)
    (fun t l => (l ++ [t.1], none)) fuel (o, (len : ℤ)) []

end NetTool
