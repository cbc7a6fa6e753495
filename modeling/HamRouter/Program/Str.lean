import Mathlib.Data.List.DropRight
import Mathlib.Data.Nat.Digits.Defs

/-! # Byte strings

The part of `std::string` the router uses, `trim` and `split` of `str.cpp`. A position is a
`size_t`; `none` stands for `npos`, the largest one, so that adding to it wraps. -/

namespace HamRouter

/-- The contents of a `std::string`: bytes of any value. -/
abbrev StdString := List UInt8

/-- The byte of a character literal. -/
def ch (c : Char) : UInt8 := c.toNat.toUInt8

/-- The bytes of a string literal. -/
def str (s : String) : StdString := s.toList.map ch

/-- A property of all bytes of a string is decided along the string. -/
instance (priority := 2000) decidableForallMem (s : StdString) (p : UInt8 → Prop)
    [DecidablePred p] : Decidable (∀ c ∈ s, p c) :=
  List.decidableBAll p s

/-- A `size_t` used as a position, `none` being `npos`. -/
abbrev Pos := Option ℕ

/-- `pos + k` for a positive constant `k`; on `npos` the sum wraps around. -/
def Pos.plus : Pos → ℕ → ℕ
  | some n, k => n + k
  | none, k => k - 1

/-- `stop - start` used as a count. `npos - start` exceeds every count, and is `none`. -/
def Pos.minus (stop : Pos) (start : ℕ) : Option ℕ := stop.map (· - start)

namespace StdString

/-- `c_str()` as a C function sees it: everything before the first NUL. -/
def cStr (s : StdString) : StdString := s.takeWhile (· ≠ 0)

/-- `s.find_first_of(chars, pos)`. -/
def findFirstOf (s chars : StdString) (pos : ℕ) : Pos :=
  ((s.drop pos).findIdx? (· ∈ chars)).map (pos + ·)

/-- `s.substr(pos, count)`; it throws `std::out_of_range` when `pos > s.size()`. -/
def substr (s : StdString) (pos : ℕ) (count : Option ℕ) : Option StdString :=
  if pos ≤ s.length then
    some (match count with
      | none => s.drop pos
      | some n => (s.drop pos).take n)
  else none

/-- `trim(in)` with its default argument: the spaces at both ends go. -/
def trim (s : StdString) : StdString :=
  (s.rdropWhile (· == ch ' ')).dropWhile (· == ch ' ')

/-- `s.find(t)`. -/
def find : StdString → StdString → Pos
  | [], t => if t = [] then some 0 else none
  | c :: s, t => if t.isPrefixOf (c :: s) then some 0 else (find s t).map (· + 1)

/-- The loop of `split`, which does not end when the separator is empty. -/
def splitLoop (splitter : StdString) : ℕ → StdString → Option (List StdString)
  | 0, _ => none
  | fuel + 1, input =>
      match find input splitter with
      | none => some (if input.length > 0 then [input] else [])
      | some pos =>
          let before := input.take pos
          let bytesLeft := input.length - (pos + splitter.length)
          if bytesLeft = 0 then some [before, []]
          else (splitLoop splitter fuel (input.drop (pos + splitter.length))).map (before :: ·)

/-- `split(in, splitter)`, for separators that are not empty. -/
def split (input splitter : StdString) : List StdString :=
  (splitLoop splitter (input.length + 1) input).getD []

end StdString

/-! ## Numbers -/

def isSpace (c : UInt8) : Bool := c = 32 || 9 ≤ c && c ≤ 13

def isDigit (c : UInt8) : Bool := ch '0' ≤ c && c ≤ ch '9'

/-- The value of the digits a string starts with. -/
def digitsValue (s : StdString) : ℕ :=
  (s.takeWhile isDigit).foldl (fun n c => n * 10 + (c - ch '0').toNat) 0

/-- `atoll`: white space, a sign and digits; out of range the limit of the type. -/
def atoll (s : StdString) : ℤ :=
  let clamp := fun n : ℤ => max (-2 ^ 63) (min (2 ^ 63 - 1) n)
  match s.dropWhile isSpace with
  | [] => 0
  | c :: rest =>
      if c = ch '-' then clamp (-digitsValue rest)
      else if c = ch '+' then clamp (digitsValue rest)
      else clamp (digitsValue (c :: rest))

/-- `atoi`: what `strtol` gives, narrowed. -/
def atoi (s : StdString) : ℤ := (atoll s).bmod 4294967296

/-- The decimal digits of a natural number. -/
def decimal (n : ℕ) : StdString :=
  if n = 0 then [ch '0'] else ((Nat.digits 10 n).map fun d => ch '0' + UInt8.ofNat d).reverse

/-- `myformat("%d", v)`. -/
def formatInt (v : ℤ) : StdString := if v < 0 then ch '-' :: decimal v.natAbs else decimal v.natAbs

/-- `myformat("%0<width>d", v)`. -/
def formatPadded (width : ℕ) (v : ℤ) : StdString :=
  let digits := decimal v.natAbs
  if v < 0 then ch '-' :: (List.replicate (width - 1 - digits.length) (ch '0') ++ digits)
  else List.replicate (width - digits.length) (ch '0') ++ digits

end HamRouter
