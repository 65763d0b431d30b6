import NetTool.Netlink

/-!
# The times of the test programs

`ts_util.c`, and the two threads that compute how long to wait: `ConditionVariable_funcThread` of
`Test_condition_variable.c` and `WaitSignal_funcThread` of `Test_waitSignal.c`. What the clock
shows at each reading is given; the processing of the second one computes a number nobody reads,
and its time is in the next reading. A message of `PrintfLn` is kept without the clock and the
thread it puts in front.
-/

namespace NetTool

open CInt

structure timespec where
  tv_sec : ℤ
  tv_nsec : ℤ
  deriving DecidableEq

structure timeval where
  tv_sec : ℤ
  tv_usec : ℤ
  deriving DecidableEq

/-! ## `ts_util.c` -/

def ts_Add (time1 time2 : timespec) : timespec :=
  let result : timespec :=
    ⟨i64 (time1.tv_sec + time2.tv_sec), i64 (time1.tv_nsec + time2.tv_nsec)⟩
  if 1000000000 ≤ result.tv_nsec then
    ⟨i64 (result.tv_sec + 1), i64 (result.tv_nsec - 1000000000)⟩
  else result

def ts_Compare (time1 time2 : timespec) : ℤ :=
  if time1.tv_sec < time2.tv_sec then -1
  else if time2.tv_sec < time1.tv_sec then 1
  else if time1.tv_nsec < time2.tv_nsec then -1
  else if time2.tv_nsec < time1.tv_nsec then 1
  else 0

def ts_IsGreaterThan (time1 time2 : timespec) : ℤ := if ts_Compare time1 time2 = 1 then 1 else 0

def ts_IsLessThan (time1 time2 : timespec) : ℤ := if ts_Compare time1 time2 = -1 then 1 else 0

def ts_IsEqual (time1 time2 : timespec) : ℤ := if ts_Compare time1 time2 = 0 then 1 else 0

def ts_Subtract (time1 time2 : timespec) : timespec :=
  if time1.tv_sec < time2.tv_sec ∨
      time1.tv_sec = time2.tv_sec ∧ time1.tv_nsec ≤ time2.tv_nsec then ⟨0, 0⟩
  else
    let tv_sec := i64 (time1.tv_sec - time2.tv_sec)
    if time1.tv_nsec < time2.tv_nsec then
      ⟨i64 (tv_sec - 1), i64 (i64 (time1.tv_nsec + 1000000000) - time2.tv_nsec)⟩
    else ⟨tv_sec, i64 (time1.tv_nsec - time2.tv_nsec)⟩

/-! ## The two threads -/

/-- What a thread does. -/
inductive ThreadEv
  | PrintfLn (fmt : String) (args : List Arg)
  | pthread_mutex_lock
  | pthread_cond_timedwait (abstime : timespec)
  | pthread_mutex_unlock
  | sigtimedwait (timeout : timespec)
  deriving DecidableEq

/-- `absTimeToWait`, where `gettimeofday` shows `now`. -/
def absTimeToWait (now : timeval) (timeoutMs : ℤ) : timespec :=
  let absTimeToWait : timespec :=
    ⟨i64 (now.tv_sec + timeoutMs.tdiv 1000),
      i64 (i64 (now.tv_usec * 1000) + i64 (1000000 * timeoutMs.tmod 1000))⟩
  if 1000000000 < absTimeToWait.tv_nsec then
    ⟨i64 (absTimeToWait.tv_sec + 1), i64 (absTimeToWait.tv_nsec - 1000000000)⟩
  else absTimeToWait

def ConditionVariable_wait (now : timeval) (timeoutMs : ℤ) : List ThreadEv :=
  [.pthread_mutex_lock, .PrintfLn "ConditionVariable_wait_1" [],
    .pthread_cond_timedwait (absTimeToWait now timeoutMs),
    .PrintfLn "ConditionVariable_wait_2" [], .pthread_mutex_unlock]

/-- The rounds of the endless loop, with what the clock shows in each. -/
def ConditionVariable_funcThread (nows : List timeval) : List ThreadEv :=
  .PrintfLn "funcThread_1 " [] :: nows.flatMap fun now =>
    .PrintfLn "funcThread_2" [] ::
      (ConditionVariable_wait now (20 * 1000) ++ [.PrintfLn "funcThread_3" []])

def EINTR : ℤ := 4

/-- What a round of `WaitSignal_funcThread` meets: what the clock shows in front of the wait,
behind it and behind the processing, and how the wait ends. -/
structure SignalRound where
  vDateNow : timespec
  vRetcode : ℤ
  errno : ℤ
  g_DateStart : timespec
  vDateAfter : timespec

def WaitSignal_Wait (r : SignalRound) (a_Timeout : timespec) : List ThreadEv :=
  [.sigtimedwait a_Timeout, .PrintfLn "WaitSignal_Wait_2 : vretcode=%d %s" [.int r.vRetcode,
    .str (if 0 < r.vRetcode then "***********************   OK"
      else if r.errno = EAGAIN then "EAGAIN"
      else if r.errno = EINTR then "EINTR"
      else if r.errno = EINVAL then "EINVAL"
      else "ERROR !!!")]]

/-- The timeout a round computes for the next one. -/
def signal_timeout (r : SignalRound) : timespec :=
  let vDiffAfter := ts_Subtract r.vDateAfter r.g_DateStart
  ts_Subtract ⟨2, 0⟩ vDiffAfter

/-- The rounds from `g_Timeout` on: the timeouts they compute, and what they do. -/
def signal_rounds : timespec → List SignalRound → List timespec × List ThreadEv
  | _, [] => ([], [])
  | g_Timeout, r :: rs =>
    let t := signal_timeout r
    let q := signal_rounds t rs
    (t :: q.1,
      .PrintfLn "funcThread_2" [] :: (WaitSignal_Wait r g_Timeout ++
        [.PrintfLn "funcThread_3" [],
          .PrintfLn "funcThread_4 diff_sec=%ld diff_ns=%ld" [.int t.tv_sec, .int t.tv_nsec],
          .PrintfLn "funcThread_4" []] ++ q.2))

/-- The thread with its endless loop, and the number of the signal it blocks. -/
def WaitSignal_funcThread (SIG_STOP : ℤ) (g_Timeout : timespec) (rounds : List SignalRound) :
    List timespec × List ThreadEv :=
  let q := signal_rounds { g_Timeout with tv_sec := 2 } rounds
  (q.1, .PrintfLn "WaitSignal_Config : Blocking signal %d" [.int SIG_STOP] ::
    .PrintfLn "funcThread_1 " [] :: q.2)

end NetTool
