import NetTool.Network
import NetTool.Timespec

/-!
# Lines with the clock and the thread

`Common.c`. A text is what its conversions write in front of the terminating NUL. No result is a
text that does not fit the array it is written to with its NUL.
-/

namespace NetTool

open Bytes CInt

/-! ## Conversions -/

/-- A number with at least `n` digits. -/
def decimalText (n : ℕ) (v : ℤ) : List UInt8 :=
  let digits := (Nat.toDigits 10 v.natAbs).map Char.toUInt8
  (if v < 0 then [ch '-'] else []) ++ List.replicate (n - digits.length) (ch '0') ++ digits

def convert (n : ℕ) : Arg → List UInt8
  | .int v => decimalText n v
  | .str s => (argBytes s).takeWhile (· ≠ 0)
  | .bytes s => s.takeWhile (· ≠ 0)

/-- What is behind a `%`: a precision or none, a length, the letter of the conversion, which the
argument tells, and text. -/
def directive (s : List Char) (a : Arg) : List UInt8 :=
  let n := if s.head? = some '.' then Nat.ofDigitChars 10 (s.tail.takeWhile Char.isDigit) 0 else 1
  let s := if s.head? = some '.' then s.tail.dropWhile Char.isDigit else s
  convert n a ++ (s.dropWhile (· = 'l')).tail.map Char.toUInt8

/-- `sprintf` with the conversions that these programs use. -/
def sprintf (fmt : String) (args : List Arg) : List UInt8 :=
  match fmt.toList.splitOn '%' with
  | [] => []
  | text :: directives =>
    text.map Char.toUInt8 ++ (List.zipWith directive directives args).flatten

/-! ## `Common.c` -/

/-- The line that `Printf` writes, where `clock_gettime` shows `vTimespec`. -/
def Printf (vTimespec : timespec) (pthread_self : ℕ) (fmt : String) (args : List Arg) :
    Option (List UInt8) :=
  let vBuffArg := (sprintf fmt args).take 511
  let vBuffer := sprintf "%ld.%ld %lu %s\n"
    [.int vTimespec.tv_sec, .int vTimespec.tv_nsec, .int pthread_self, .bytes vBuffArg]
  if vBuffer.length < 1024 then some vBuffer else none

def PrintfLn (vTimespec : timespec) (pthread_self : ℕ) (a_Message : List UInt8) :
    Option (List UInt8) :=
  let vBuffer := sprintf "%.10ld.%.9ld %lu %s\n"
    [.int vTimespec.tv_sec, .int vTimespec.tv_nsec, .int pthread_self, .bytes a_Message]
  if vBuffer.length < 100 then some vBuffer else none

/-- The line a thread writes: `sprintf` to an array of 1024 bytes, and `PrintfLn` of it. -/
def ThreadEv.line (vTimespec : timespec) (pthread_self : ℕ) : ThreadEv → Option (List UInt8)
  | .PrintfLn fmt args =>
    let vBuffer := sprintf fmt args
    if vBuffer.length < 1024 then NetTool.PrintfLn vTimespec pthread_self vBuffer else none
  | _ => some []

example : PrintfLn ⟨12, 34⟩ 5 (sprintf "a=%d %s" [.int (-1), .str "b"]) =
    some (argBytes "0000000012.000000034 5 a=-1 b\n") := by decide

end NetTool
