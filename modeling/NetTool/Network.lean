import NetTool.Util
import NetTool.Lib.Fields
import NetTool.Lib.Hex

/-!
# The address texts of the test program

`getcolon` and `Net_inet_pton` of `Network.c`. A place in `addr` is the text from there on. No
result is undefined behaviour: a read behind the text, a store outside an array, or a string
without its null byte.
-/

namespace NetTool

open Bytes CInt Fields

def ch (c : Char) : UInt8 := c.toUInt8

/-- The bytes of an argument. -/
def argBytes (s : String) : List UInt8 := s.toByteArray.data.toList

/-! ## The C library -/

def isspace (b : UInt8) : Bool := b = ch ' ' || (9 ≤ b && b ≤ 13)

/-- What `strtol` and `%hhx` take in base 16: whether there is a minus, and the digits. -/
def hexItem (s : List UInt8) : Bool × List UInt8 :=
  let s := s.dropWhile isspace
  let t := if s.head? = some (ch '-') ∨ s.head? = some (ch '+') then s.tail else s
  let u := if t[0]? = some (ch '0') ∧ (t[1]? = some (ch 'x') ∨ t[1]? = some (ch 'X')) then t.drop 2
    else t
  (s.head? = some (ch '-'), u.takeWhile fun b => (Hex.digit b).isSome)

/-- `strtol` in base 16. -/
def strtol (s : List UInt8) : ℤ :=
  let v : ℤ := Hex.value (hexItem s).2
  if (hexItem s).1 then max (-2 ^ 63) (-v) else min (2 ^ 63 - 1) v

/-- The byte `%hhx` stores, unless it finds no digit. -/
def sscanf_hhx (s : List UInt8) : Option ℕ :=
  let v : ℤ := Hex.value (hexItem s).2
  if (hexItem s).2 = [] then none
  else some ((if (hexItem s).1 then -v else v) % 256).toNat

/-- `strcat` to an array of `n` bytes. -/
def strcat (dst : Mem) (n : ℕ) (src : List UInt8) : Option Mem :=
  let k := (cstr dst 0 n).length
  if k + src.length < n then some (setBytes dst k (src ++ [0])) else none

/-! ## `getcolon` -/

def isV6TypeStandard (addr : List UInt8) : Bool := ch '.' ∉ addr

/-- The array `str` of five bytes: the string in it, and each index stored to. -/
structure ColonStr where
  text : List UInt8
  stores : List ℕ

def ColonStr.bzero (str : ColonStr) : ColonStr := ⟨[], str.stores ++ List.range 5⟩

/-- The loop that copies the field at `y` to `str` after `bzero`. -/
def ColonStr.copy (str : ColonStr) (y : List UInt8) : ColonStr :=
  ⟨field (ch ':') y, str.stores ++ List.range (field (ch ':') y).length⟩

/-- `str[0] = '0'`. -/
def ColonStr.zero (str : ColonStr) : ColonStr := ⟨ch '0' :: str.text.tail, str.stores ++ [0]⟩

/-- Up to the last test of `str[0]`. -/
def getcolon_str (addr : List UInt8) (pos : ℕ) : Option ColonStr :=
  let max : ℤ := if isV6TypeStandard addr then 7 else 5
  let str : ColonStr := ColonStr.bzero ⟨[], []⟩
  if addr = [] then none
  else if pairs (ch ':') addr = 0 then (skip (ch ':') pos addr).map str.copy
  else
    let cstart := (toPair (ch ':') addr).1
    let right := (toPair (ch ':') addr).2.drop 2
    let cend : ℤ := right.count (ch ':') -
      if addr[addr.length - 1]? = some (ch ':') ∧ addr[addr.length - 2]? ≠ some (ch ':') then 1
      else 0
    (if pos ≤ cstart then (skip (ch ':') pos addr).map str.copy else some str).bind fun str =>
      let str := if cstart < pos ∧ pos < max - cend then str.zero else str
      if max - cend ≤ pos then
        (skip (ch ':') (pos - (max - cend)).toNat right).map str.bzero.copy
      else some str

def getcolon (addr : List UInt8) (pos : ℕ) : Option ℤ :=
  (getcolon_str addr pos).bind fun str =>
    if (∀ i ∈ str.stores, i < 5) ∧ str.text.length < 5 then
      some (i32 (strtol (if str.text = [] then [ch '0'] else str.text)))
    else none

/-! ## `Net_inet_pton` -/

/-- `"%02X%02X"` of the two bytes of a value. -/
def sprintf_value (vValue : ℤ) : List UInt8 :=
  Hex.two ((u32 vValue &&& 0xFF00) >>> 8) ++ Hex.two (u32 vValue &&& 0x00FF)

/-- One round of the loop over the fields, with `Str` and `StrOutput`. -/
def append_field (addr : List UInt8) (s : Mem × Mem) (ii : ℕ) : Option (Mem × Mem) :=
  (getcolon addr ii).bind fun vValue =>
    (strcat s.2 1024 (sprintf_value vValue ++ if ii < 7 then [ch ':'] else [])).bind
      fun StrOutput => (strcat s.1 1024 (sprintf_value vValue)).map fun Str => (Str, StrOutput)

/-- One round of the loop over the digits in `Str`, with `vChar` and `vNbBit`. -/
def count_bits (Str : Mem) (s : ℕ × ℕ) (ii : ℕ) : ℕ × ℕ :=
  let vChar := (sscanf_hhx [ch '0', ch 'x', Str ii]).getD s.1
  (vChar, (List.range 4).foldl (fun vNbBit jj =>
    if vChar &&& 1 <<< (3 - jj) ≠ 0 then ii * 4 + jj + 1 else vNbBit) s.2)

/-- What `Net_inet_pton` prints after a valid address, where `Str` and `StrOutput` held these
bytes before. -/
def print_fields (addr : List UInt8) (Str StrOutput : Mem) : Option (List Ev) :=
  ((List.range 8).foldlM (append_field addr) (Str, StrOutput)).map fun s =>
    [.printf "\n\n %s\n\n" [.bytes (cstr s.2 0 1024)],
      .printf "\n bit = %d \n" [.int ((List.range 32).foldl (count_bits s.1) (0, 0)).2]]

def Net_inet_pton (c : Libc) (argv : List String) (Str StrOutput : Mem) : Option (List Ev) :=
  let start : List Ev := [.printf "\n Net_inet_pton( argc=%d argv[1]=%s argv[2]=%s argv[3]=%s \n\n"
    [.int argv.length, .str (argv.getD 1 ""), .str (argv.getD 2 ""), .str (argv.getD 3 "")]]
  match argv with
  | _ :: _ :: family :: addr :: _ =>
    let vAddressFamily := if (argBytes family)[0]? = some (ch '0') then AF_INET else AF_INET6
    match c.inet_pton vAddressFamily addr with
    | none =>
      some (start ++ [.printf " Error bad address :  vRetcode=%d errno=%d %s\n\n"
        [.int 0, .int c.errno, .str (c.strerror c.errno)]])
    | some a =>
      (print_fields (argBytes addr) Str StrOutput).map fun fields =>
        start ++ [.printf "vRetcode=%d  OK \n\n" [.int 1],
          .printf "sizeof(struct in6_addr) = %d \n" [.int 16]] ++
        (List.range 16).map (fun ii => .printf "%X" [.int (u32 (i8 (get8 (ofList a) ii)))]) ++
        [.printf "\n\n" []] ++ fields
  | _ => some (start ++ [.printf "\n Error : no input address ! \n\n" []])

end NetTool
