import HamRouter.Program.Str
import Mathlib.Algebra.Field.Rat
import Mathlib.Data.Rat.Floor

/-! # The positions of `gps.cpp`

A `double` is the number it is computed to be in exact arithmetic. -/

namespace HamRouter

/-! ## Floating-point numbers as text -/

/-- The exponent behind its letter. Without digits there is no exponent, which is as good
as 0. -/
def exponentValue : StdString → ℤ
  | [] => 0
  | c :: rest =>
      if c = ch '-' then -digitsValue rest
      else if c = ch '+' then digitsValue rest
      else digitsValue (c :: rest)

/-- The exponent of the number whose digits end here. -/
def exponentPart : StdString → ℤ
  | [] => 0
  | c :: rest => if c = ch 'e' ∨ c = ch 'E' then exponentValue rest else 0

/-- The digits behind a decimal point, and what follows them. -/
def fractionPart : StdString → StdString × StdString
  | [] => ([], [])
  | c :: rest =>
      if c = ch '.' then (rest.takeWhile isDigit, rest.dropWhile isDigit) else ([], c :: rest)

/-- A number without a sign: digits, a fraction and an exponent. -/
def unsignedFloat (s : StdString) : ℚ :=
  let (fraction, tail) := fractionPart (s.dropWhile isDigit)
  digitsValue (s.takeWhile isDigit ++ fraction) * 10 ^ (exponentPart tail - fraction.length)

/-- `atof` of a decimal number. -/
def atof (s : StdString) : ℚ :=
  match s.dropWhile isSpace with
  | [] => 0
  | c :: rest =>
      if c = ch '-' then -unsignedFloat rest
      else if c = ch '+' then unsignedFloat rest
      else unsignedFloat (c :: rest)

namespace Gps

/-- `nmea_to_degrees(latLon, direction)`. The minutes start two characters in front of the
first dot, and at most three characters of degrees are in front of them. -/
def nmeaToDegrees (latLon : StdString) (direction : UInt8) : Option ℚ :=
  match latLon.idxOf? (ch '.') with
  | none => none
  | some dot =>
      if dot < 2 ∨ dot > 5 then none
      else
        let deg := latLon.take (dot - 2)
        let min := latLon.drop (dot - 2)
        let dec := atof deg + atof min / 60
        some (if direction = ch 'S' ∨ direction = ch 'W' then dec * -1 else dec)

/-- A character of a C string, which ends in a zero. -/
def charAt (s : StdString) (i : ℕ) : UInt8 := s.getD i 0

/-- `parse_nmea_pos(what)`: latitude and longitude. Behind an `@` nothing is done yet. -/
def parseNmeaPos (what : StdString) : Option (ℚ × ℚ) :=
  if charAt what 0 = ch '@' then none
  else if charAt what 0 = ch '!' ∧ what.length ≥ 19 then
    let what := what.drop 1
    match nmeaToDegrees what (charAt what 8) with
    | none => none
    | some lat =>
        let what := what.drop 9
        match nmeaToDegrees what (charAt what 8) with
        | none => none
        | some lng => some (lat, lng)
  else none

/-- `gps_double_to_aprs(lat, lng, symbol_table)`. The text ends at a symbol table that is
zero. -/
def gpsDoubleToAprs (lat lng : ℚ) (symbolTable : UInt8) : StdString :=
  let lata := |lat|
  let latd := ⌊lata⌋
  let latm := (lata - latd) * 60
  let lath := (latm - ⌊latm⌋) * 100
  let lnga := |lng|
  let lngd := ⌊lnga⌋
  let lngm := (lnga - lngd) * 60
  let lngh := (lngm - ⌊lngm⌋) * 100
  (formatPadded 2 latd ++ formatPadded 2 ⌊latm⌋ ++ str "." ++ formatPadded 2 ⌊lath⌋ ++
    [if lat > 0 then ch 'N' else ch 'S', symbolTable] ++
    formatPadded 3 lngd ++ formatPadded 2 ⌊lngm⌋ ++ str "." ++ formatPadded 2 ⌊lngh⌋ ++
    [if lng > 0 then ch 'E' else ch 'W']).cStr

end Gps

end HamRouter
