import NetTool.Netlink

/-!
# The file watcher of the test program

`CheckReadFile` of `WaitGpio.c`. Each `read` of the inotify descriptor brings a batch of events to
the start of `ReadBuffer`, and what the watched file has left to read is copied there as well. The
calls on the file succeed. No result is undefined behaviour: a load or a store outside
`ReadBuffer`.
-/

namespace NetTool

open Bytes CInt

def IN_MODIFY : ℕ := 2

/-- `10 * (sizeof(struct inotify_event) + 255 + 1)` -/
def BUF_LEN : ℕ := 10 * (16 + 255 + 1)

/-! ## `struct inotify_event` -/

def event_mask (m : Mem) (p : ℕ) : ℕ := get32 m (p + 4)

def event_len (m : Mem) (p : ℕ) : ℕ := get32 m (p + 12)

/-! ## The loop over a batch -/

/-- What an `IN_MODIFY` event leads to, where the file has these bytes left: `ReadBuffer` with them
and a null byte, and `res`. -/
def read_file (file : List UInt8) (ReadBuffer : Mem) : Option (Mem × ℤ × List Ev) :=
  let LenToRead := file.length
  let s : Mem × ℤ := if 0 < LenToRead then (setBytes ReadBuffer 0 file, LenToRead)
    else (ReadBuffer, 0)
  if 0 < s.2 ∧ LenToRead ≤ BUF_LEN then
    let ReadBuffer := set8 s.1 (s.2 - 1).toNat 0
    some (ReadBuffer, s.2,
      [.printf "len = %d ReadBuffer = %s. \n" [.int s.2, .bytes (cstr ReadBuffer 0 BUF_LEN)]])
  else none

/-- One round at the event at `p`, up to the step to the next one. -/
def check_event (file : List UInt8) (p : ℕ) (s : Mem × ℤ) : Option (Mem × ℤ × List Ev) :=
  if BUF_LEN < p + 16 then none
  else if event_mask s.1 p &&& IN_MODIFY ≠ 0 then read_file file s.1
  else some (s.1, s.2, [])

/-- A round of the loop: where its event stands, where the loop goes on, and what is printed. -/
structure Visit where
  p : ℕ
  next : ℕ
  out : List Ev

/-- The loop from `p` on, with what the file has left to read at each round. -/
def check_events (numRead : ℕ) (file : ℕ → List UInt8) (p : ℕ) (s : Mem × ℤ) :
    Option (List Visit × Mem × ℤ) :=
  if p < numRead then
    (check_event (file 0) p s).bind fun r =>
      (check_events numRead (fun k => file (k + 1)) (p + (16 + event_len r.1 p))
        (r.1, r.2.1)).map fun t => (⟨p, p + (16 + event_len r.1 p), r.2.2⟩ :: t.1, t.2)
  else some ([], s)
termination_by numRead - p

/-! ## `CheckReadFile` -/

/-- What one round of `for (;;)` meets: the bytes of the events, unless `read` fails, and what the
file has left to read at each of them. -/
structure Batch where
  events : Option (List UInt8)
  file : ℕ → List UInt8

def read_events (b : Batch) (s : Mem × ℤ) : Option (List Ev × Mem × ℤ) :=
  match b.events with
  | none => some ([.printf "read() from inotify fd returned -1!\n" []], s)
  | some events =>
    (check_events events.length b.file 0 (setBytes s.1 0 events, s.2)).map fun t =>
      ((if events.length = 0 then [.printf "read() from inotify fd returned 0!\n" []] else []) ++
        t.1.flatMap Visit.out, t.2)

def read_batches : List Batch → Mem × ℤ → Option (List Ev)
  | [], _ => some []
  | b :: bs, s => (read_events b s).bind fun r => (read_batches bs r.2).map (r.1 ++ ·)

/-- What is printed over these batches. -/
def CheckReadFile (c : Libc) (batches : List Batch) : Option (List Ev) :=
  (read_batches batches (fun _ => 0, 0)).map fun out =>
    .printf "passage_1 res=%d errno=%d %s  size=%d\n"
      [.int 0, .int c.errno, .str (c.strerror c.errno), .int 16] :: out

end NetTool
