import HamRouter.Program.Gps

/-! # Uncompressed position reports

What a position text of an APRS packet says. -/

namespace HamRouter.Gps

/-- A number below 100 in two digits. -/
def twoDigits (n : Fin 100) : StdString :=
  [ch '0' + UInt8.ofNat (n / 10), ch '0' + UInt8.ofNat (n % 10)]

/-- A number below 1000 in three digits. -/
def threeDigits (n : Fin 1000) : StdString :=
  [ch '0' + UInt8.ofNat (n / 100), ch '0' + UInt8.ofNat (n / 10 % 10),
    ch '0' + UInt8.ofNat (n % 10)]

/-- An angle in degrees, minutes and hundredths of a minute. -/
structure Angle (degrees : ℕ) where
  deg : Fin degrees
  min : Fin 100
  hundredths : Fin 100

/-- The minutes with their fraction. -/
def Angle.minutes {degrees : ℕ} (a : Angle degrees) : ℚ :=
  (a.min : ℕ) + ((a.hundredths : ℕ) : ℚ) / 100

def Angle.value {degrees : ℕ} (a : Angle degrees) : ℚ := (a.deg : ℕ) + a.minutes / 60

/-- A position report. No character of a C string is zero. -/
structure PositionReport where
  lat : Angle 100
  south : Bool
  symbolTable : UInt8
  lng : Angle 1000
  west : Bool
  symbolCode : UInt8
  comment : StdString
  symbolTable_ne : symbolTable ≠ 0
  symbolCode_ne : symbolCode ≠ 0
  comment_clean : 0 ∉ comment

namespace PositionReport

variable (r : PositionReport)

/-- The text behind the longitude's last digit. -/
def lngTail : StdString := ch (if r.west then 'W' else 'E') :: r.symbolCode :: r.comment

def lngText : StdString :=
  threeDigits r.lng.deg ++ (twoDigits r.lng.min ++ ch '.' :: (twoDigits r.lng.hundredths ++
    r.lngTail))

def latTail : StdString := ch (if r.south then 'S' else 'N') :: r.symbolTable :: r.lngText

def latText : StdString :=
  twoDigits r.lat.deg ++ (twoDigits r.lat.min ++ ch '.' :: (twoDigits r.lat.hundredths ++
    r.latTail))

/-- `!DDMM.hhNTDDDMM.hhEC` and the comment. -/
def text : StdString := ch '!' :: r.latText

def latitude : ℚ := (if r.south then -1 else 1) * r.lat.value

def longitude : ℚ := (if r.west then -1 else 1) * r.lng.value

/-- The position is read as it is written. -/
def ReadRight : Prop := parseNmeaPos r.text = some (r.latitude, r.longitude)

/-- The symbol table is a letter that stands for a southern or western direction. -/
def NegativeTable : Prop := r.symbolTable = ch 'S' ∨ r.symbolTable = ch 'W'

instance : Decidable r.NegativeTable := by
  unfold NegativeTable
  infer_instance

/-- The exponent that the text behind an `E` for east is taken for. -/
def exponent : ℤ := exponentValue (r.symbolCode :: r.comment)

/-- The symbol table agrees with the hemisphere of the latitude, and no exponent is read
behind the longitude. -/
def Harmless : Prop :=
  (r.lat.value = 0 ∨ (r.NegativeTable ↔ r.south = true)) ∧
    (r.west = true ∨ r.lng.minutes = 0 ∨ r.exponent = 0)

end PositionReport

end HamRouter.Gps
