import NetTool.Netlink

/-!
# The wait on a FIFO of the test program

`WaitFifoChar` of `WaitFifo.cpp`. A round of its loop is what `poll`, `FIONREAD` and `read` answer.
-/

namespace NetTool

open Bytes CInt

/-- What a round meets: `poll` or `read` fails, `poll` times out, or these bytes are read. -/
inductive FifoRound
  | poll_fails
  | timeout
  | read_fails
  | chunk (bytes : List UInt8)

structure Fifo where
  mkfifo : ℤ
  fd : ℤ
  rounds : List FifoRound

/-- How a call went: the rounds it took, its result unless it still waits, and what it printed. -/
structure Waited where
  rounds : ℕ
  ret : Option ℤ
  out : List Ev

/-- The loop behind `ii` rounds. No result is a store outside `ReadBuffer`, which has 1025 bytes. -/
def wait_rounds (c : Libc) (a_WaitCondition : UInt8) : List FifoRound → ℕ → Option Waited
  | [], ii => some ⟨ii, none, []⟩
  | .poll_fails :: _, ii =>
    some ⟨ii + 1, some (-1), [.eprintf "select: %s\n" [.str (c.strerror c.errno)]]⟩
  | .timeout :: _, ii => some ⟨ii + 1, some 0, [.printf "timeout" []]⟩
  | .read_fails :: rs, ii => wait_rounds c a_WaitCondition rs (ii + 1)
  | .chunk bytes :: rs, ii =>
    let LenToRead := bytes.length
    if 1025 < LenToRead then none
    else
      let ReadBuffer := setBytes (fun _ => 0) 0 bytes
      if 0 < LenToRead ∧ ReadBuffer 0 = a_WaitCondition then some ⟨ii + 1, some LenToRead, []⟩
      else wait_rounds c a_WaitCondition rs (ii + 1)

def WaitFifoChar (c : Libc) (a_FifoName : String) (a_WaitCondition : UInt8) (f : Fifo) :
    Option Waited :=
  if f.mkfifo ≠ 0 then
    some ⟨0, some f.mkfifo, [.printf "*** Error mkfifo(%s) res= %d  errno=%d %s\n"
      [.str a_FifoName, .int f.mkfifo, .int c.errno, .str (c.strerror c.errno)]]⟩
  else if f.fd < 0 then
    some ⟨0, some (-1), [.printf "*** Error open(%s) res= %d  errno=%d %s\n"
      [.str a_FifoName, .int 0, .int c.errno, .str (c.strerror c.errno)]]⟩
  else wait_rounds c a_WaitCondition f.rounds 0

end NetTool
