import HamRouter.Library.Byte
import HamRouter.Model.GpsPosition
import HamRouter.Verification.Decimal
import HamRouter.Verification.Str
import Mathlib.Tactic.FieldSimp
import Mathlib.Tactic.Linarith
import Mathlib.Tactic.NormNum
import Mathlib.Tactic.Ring

/-! # Reading a position report

The numbers are taken by `atof` from a text that runs on behind them. -/

namespace HamRouter

/-! ## Numbers in a longer text -/

section Float

variable {whole fraction tail : StdString}

theorem takeWhile_digits (h : ∀ c ∈ whole, isDigit c = true) (htail : NoDigit tail) :
    (whole ++ tail).takeWhile isDigit = whole := by
  have hstop : tail.takeWhile isDigit = [] := by
    cases tail with
    | nil => rfl
    | cons c tail => rw [List.takeWhile_cons, htail c (by simp), if_neg (by simp)]
  rw [List.takeWhile_append_of_pos h, hstop, List.append_nil]

theorem dropWhile_digits (h : ∀ c ∈ whole, isDigit c = true) (htail : NoDigit tail) :
    (whole ++ tail).dropWhile isDigit = tail := by
  have hstop : tail.dropWhile isDigit = tail := by
    cases tail with
    | nil => rfl
    | cons c tail => rw [List.dropWhile_cons, htail c (by simp), if_neg (by simp)]
  rw [List.dropWhile_append_of_pos h, hstop]

theorem noDigit_nil : NoDigit [] := by simp [NoDigit]

theorem noDigit_cons {c : UInt8} (hc : isDigit c = false) (rest : StdString) :
    NoDigit (c :: rest) := by
  intro b hb
  obtain rfl : c = b := by simpa using hb
  exact hc

theorem unsignedFloat_digits (h : ∀ c ∈ whole, isDigit c = true) :
    unsignedFloat whole = digitsValue whole := by
  have htake := takeWhile_digits h noDigit_nil
  have hdrop := dropWhile_digits h noDigit_nil
  rw [List.append_nil] at htake hdrop
  simp [unsignedFloat, htake, hdrop, fractionPart, exponentPart]

/-- The exponent is read from what follows the fraction. -/
theorem unsignedFloat_point (hwhole : ∀ c ∈ whole, isDigit c = true)
    (hfraction : ∀ c ∈ fraction, isDigit c = true) (htail : NoDigit tail) :
    unsignedFloat (whole ++ ch '.' :: (fraction ++ tail)) =
      digitsValue (whole ++ fraction) * 10 ^ (exponentPart tail - fraction.length) := by
  have hpoint : NoDigit (ch '.' :: (fraction ++ tail)) := noDigit_cons (by decide) _
  rw [unsignedFloat, takeWhile_digits hwhole hpoint, dropWhile_digits hwhole hpoint]
  simp only [fractionPart, if_true, takeWhile_digits hfraction htail,
    dropWhile_digits hfraction htail]

theorem atof_of_digit {c : UInt8} (hc : isDigit c = true) (rest : StdString) :
    atof (c :: rest) = unsignedFloat (c :: rest) := by
  have hspace : isSpace c = false :=
    Byte.forall_of_fin (P := fun c => isDigit c = true → isSpace c = false)
      (by decide +kernel) c hc
  have hminus : c ≠ ch '-' := by
    rintro rfl
    exact absurd hc (by decide)
  have hplus : c ≠ ch '+' := by
    rintro rfl
    exact absurd hc (by decide)
  rw [atof, List.dropWhile_cons, hspace]
  simp [hminus, hplus]

theorem atof_digits (h : ∀ c ∈ whole, isDigit c = true) : atof whole = digitsValue whole := by
  cases whole with
  | nil => rfl
  | cons c whole => rw [atof_of_digit (h c (by simp)), unsignedFloat_digits h]

theorem atof_point (hne : whole ≠ []) (hwhole : ∀ c ∈ whole, isDigit c = true)
    (hfraction : ∀ c ∈ fraction, isDigit c = true) (htail : NoDigit tail) :
    atof (whole ++ ch '.' :: (fraction ++ tail)) =
      digitsValue (whole ++ fraction) * 10 ^ (exponentPart tail - fraction.length) := by
  cases whole with
  | nil => exact absurd rfl hne
  | cons c whole =>
      rw [List.cons_append, atof_of_digit (hwhole c (by simp)), ← List.cons_append,
        unsignedFloat_point hwhole hfraction htail]

end Float

namespace Gps

/-! ## Digits -/

theorem isDigit_twoDigits (n : Fin 100) : ∀ c ∈ twoDigits n, isDigit c = true := by
  have hhigh := (digit_char (show (n : ℕ) / 10 < 10 by omega)).1
  have hlow := (digit_char (show (n : ℕ) % 10 < 10 by omega)).1
  simp [twoDigits, hhigh, hlow]

theorem isDigit_threeDigits (n : Fin 1000) : ∀ c ∈ threeDigits n, isDigit c = true := by
  have hhigh := (digit_char (show (n : ℕ) / 100 < 10 by omega)).1
  have hmiddle := (digit_char (show (n : ℕ) / 10 % 10 < 10 by omega)).1
  have hlow := (digit_char (show (n : ℕ) % 10 < 10 by omega)).1
  simp [threeDigits, hhigh, hmiddle, hlow]

theorem digitsValue_of_digits {s : StdString} (h : ∀ c ∈ s, isDigit c = true) :
    digitsValue s = s.foldl (fun n c => n * 10 + (c - ch '0').toNat) 0 := by
  have htake := takeWhile_digits h noDigit_nil
  rw [List.append_nil] at htake
  rw [digitsValue, htake]

theorem digitsValue_append {s t : StdString} (hs : ∀ c ∈ s, isDigit c = true)
    (ht : ∀ c ∈ t, isDigit c = true) :
    digitsValue (s ++ t) = digitsValue s * 10 ^ t.length + digitsValue t := by
  have hfold : ∀ n : ℕ, t.foldl (fun n c => n * 10 + (c - ch '0').toNat) n =
      n * 10 ^ t.length + t.foldl (fun n c => n * 10 + (c - ch '0').toNat) 0 := by
    clear ht
    induction t using List.reverseRecOn with
    | nil => simp
    | append_singleton t c ih =>
        intro n
        simp only [List.foldl_append, List.foldl_cons, List.foldl_nil, ih n, List.length_append,
          List.length_singleton, pow_succ]
        ring
  have hboth : ∀ c ∈ s ++ t, isDigit c = true := by
    intro c hc
    exact (List.mem_append.mp hc).elim (hs c) (ht c)
  rw [digitsValue_of_digits hboth, digitsValue_of_digits hs, digitsValue_of_digits ht,
    List.foldl_append, hfold]

theorem digitsValue_twoDigits (n : Fin 100) : digitsValue (twoDigits n) = n := by
  have hhigh := (digit_char (show (n : ℕ) / 10 < 10 by omega)).2.1
  have hlow := (digit_char (show (n : ℕ) % 10 < 10 by omega)).2.1
  rw [digitsValue_of_digits (isDigit_twoDigits n)]
  simp only [twoDigits, List.foldl_cons, List.foldl_nil, hhigh, hlow]
  omega

theorem digitsValue_threeDigits (n : Fin 1000) : digitsValue (threeDigits n) = n := by
  have hhigh := (digit_char (show (n : ℕ) / 100 < 10 by omega)).2.1
  have hmiddle := (digit_char (show (n : ℕ) / 10 % 10 < 10 by omega)).2.1
  have hlow := (digit_char (show (n : ℕ) % 10 < 10 by omega)).2.1
  rw [digitsValue_of_digits (isDigit_threeDigits n)]
  simp only [threeDigits, List.foldl_cons, List.foldl_nil, hhigh, hmiddle, hlow]
  omega

/-! ## Degrees and minutes -/

/-- Degrees, minutes and fraction are cut out of the text around its first dot. -/
theorem nmeaToDegrees_eq {deg min fraction tail : StdString} (hlength : deg.length ≤ 3)
    (hminutes : min.length = 2) (hdeg : ∀ c ∈ deg, isDigit c = true)
    (hmin : ∀ c ∈ min, isDigit c = true) (hfraction : ∀ c ∈ fraction, isDigit c = true)
    (htail : NoDigit tail) (direction : UInt8) :
    nmeaToDegrees (deg ++ (min ++ ch '.' :: (fraction ++ tail))) direction =
      some ((if direction = ch 'S' ∨ direction = ch 'W' then -1 else 1) *
        ((digitsValue deg : ℚ) + digitsValue (min ++ fraction) *
          10 ^ (exponentPart tail - fraction.length) / 60)) := by
  have hdot : ch '.' ∉ deg ++ min := by
    intro hmem
    have hdigit := (List.mem_append.mp hmem).elim (hdeg _) (hmin _)
    exact absurd hdigit (by decide)
  have hidx : (deg ++ (min ++ ch '.' :: (fraction ++ tail))).idxOf? (ch '.') =
      some (deg.length + 2) := by
    rw [← List.append_assoc, StdString.idxOf?_append_cons hdot, List.length_append, hminutes]
  have hne : min ≠ [] := by
    rintro rfl
    cases hminutes
  have hrange : ¬ (deg.length + 2 < 2 ∨ deg.length + 2 > 5) := by omega
  rw [nmeaToDegrees, hidx]
  simp only [hrange, if_false, Nat.add_sub_cancel, List.take_left, List.drop_left]
  rw [atof_digits hdeg, atof_point hne hmin hfraction htail]
  split
  · rw [mul_comm]
  · rw [one_mul]

section Angles

variable {degrees : ℕ} (a : Angle degrees)

/-- The minutes with their two decimals, scaled by an exponent. -/
theorem minutes_eq (e : ℤ) :
    (digitsValue (twoDigits a.min ++ twoDigits a.hundredths) : ℚ) * 10 ^ (e - 2) =
      a.minutes * 10 ^ e := by
  have hlength : (twoDigits a.hundredths).length = 2 := rfl
  rw [digitsValue_append (isDigit_twoDigits _) (isDigit_twoDigits _), digitsValue_twoDigits,
    digitsValue_twoDigits, hlength, zpow_sub₀ (by norm_num), Angle.minutes]
  push_cast
  ring

end Angles

/-! ## The report -/

namespace PositionReport

variable (r : PositionReport)

theorem noDigit_latTail : NoDigit r.latTail := by
  rw [latTail]
  refine noDigit_cons ?_ _
  cases r.south <;> rfl

theorem noDigit_lngTail : NoDigit r.lngTail := by
  rw [lngTail]
  refine noDigit_cons ?_ _
  cases r.west <;> rfl

theorem exponentPart_latTail : exponentPart r.latTail = 0 := by
  rw [latTail, exponentPart]
  cases r.south <;> rfl

theorem exponentPart_lngTail : exponentPart r.lngTail = if r.west then 0 else r.exponent := by
  rw [lngTail, exponentPart]
  cases r.west <;> rfl

/-- The latitude is negated for the symbol tables `S` and `W`. -/
theorem nmeaToDegrees_latText : nmeaToDegrees r.latText r.symbolTable =
    some ((if r.NegativeTable then -1 else 1) * r.lat.value) := by
  have hminutes := minutes_eq r.lat 0
  have hlength : (twoDigits r.lat.hundredths).length = 2 := rfl
  have hdegrees : (twoDigits r.lat.deg).length ≤ 3 := Nat.le_succ 2
  rw [zpow_zero, mul_one] at hminutes
  rw [latText, nmeaToDegrees_eq hdegrees rfl (isDigit_twoDigits _) (isDigit_twoDigits _)
    (isDigit_twoDigits _) r.noDigit_latTail, exponentPart_latTail, hlength, Nat.cast_ofNat, hminutes,
    digitsValue_twoDigits]
  rfl

/-- The longitude's minutes are scaled by what is read as an exponent behind an `E`. -/
theorem nmeaToDegrees_lngText : nmeaToDegrees r.lngText (ch (if r.west then 'W' else 'E')) =
    some ((if r.west then -1 else 1) *
      ((r.lng.deg : ℕ) + r.lng.minutes * 10 ^ (if r.west then 0 else r.exponent) / 60)) := by
  have hminutes := minutes_eq r.lng (if r.west then 0 else r.exponent)
  have hlength : (twoDigits r.lng.hundredths).length = 2 := rfl
  have hsign : (ch (if r.west then 'W' else 'E') = ch 'S' ∨
      ch (if r.west then 'W' else 'E') = ch 'W') ↔ r.west = true := by
    cases r.west <;> decide
  have hdegrees : (threeDigits r.lng.deg).length ≤ 3 := Nat.le_refl 3
  rw [lngText, nmeaToDegrees_eq hdegrees rfl (isDigit_threeDigits _) (isDigit_twoDigits _)
    (isDigit_twoDigits _) r.noDigit_lngTail, exponentPart_lngTail, hlength, Nat.cast_ofNat, hminutes,
    digitsValue_threeDigits]
  simp only [hsign]

/-- What is read from a report. -/
theorem parseNmeaPos_text : parseNmeaPos r.text =
    some ((if r.NegativeTable then -1 else 1) * r.lat.value,
      (if r.west then -1 else 1) *
        ((r.lng.deg : ℕ) + r.lng.minutes * 10 ^ (if r.west then 0 else r.exponent) / 60)) := by
  have hlat := r.nmeaToDegrees_latText
  have hlng := r.nmeaToDegrees_lngText
  have htable : charAt r.latText 8 = r.symbolTable := rfl
  have hbehind : r.latText.drop 9 = r.lngText := rfl
  have hdirection : charAt r.lngText 8 = ch (if r.west then 'W' else 'E') := rfl
  have hlength : r.text.length ≥ 19 := by
    simp [text, latText, latTail, lngText, lngTail, twoDigits, threeDigits]
  have hstart : charAt r.text 0 = ch '!' := rfl
  have hdrop : r.text.drop 1 = r.latText := rfl
  rw [parseNmeaPos, hstart, if_neg (by decide), if_pos ⟨rfl, hlength⟩, hdrop]
  simp only [htable, hlat, hbehind, hdirection, hlng]

theorem sign_mul_eq_iff (p q : Prop) [Decidable p] [Decidable q] (v : ℚ) :
    (if p then -1 else 1) * v = (if q then -1 else 1) * v ↔ v = 0 ∨ (p ↔ q) := by
  by_cases hp : p
  · by_cases hq : q
    · simp [hp, hq]
    · simp [hp, hq, neg_eq_self]
  · by_cases hq : q
    · simp [hp, hq, self_eq_neg]
    · simp [hp, hq]

/-- Scaling minutes leaves them alone when there are none, or by the exponent 0. -/
theorem scaled_eq_iff (m : ℚ) (e : ℤ) : m * 10 ^ e = m ↔ m = 0 ∨ e = 0 := by
  rw [mul_right_eq_self₀, zpow_eq_one_iff_right₀ (by norm_num) (by norm_num), or_comm]

/-- A position report is read as it is written exactly when its symbol table agrees with its
latitude and no exponent is read behind its longitude. -/
theorem readRight_iff : r.ReadRight ↔ r.Harmless := by
  have hlat := sign_mul_eq_iff r.NegativeTable (r.south = true) r.lat.value
  have hlng : (if r.west then -1 else 1) *
        ((r.lng.deg : ℕ) + r.lng.minutes * 10 ^ (if r.west then 0 else r.exponent) / 60) =
      r.longitude ↔ r.west = true ∨ r.lng.minutes = 0 ∨ r.exponent = 0 := by
    rw [longitude, Angle.value]
    cases hwest : r.west with
    | true => simp
    | false =>
        simp only [Bool.false_eq_true, if_false, one_mul, add_right_inj, false_or,
          ← scaled_eq_iff]
        exact div_left_inj' (by norm_num)
  rw [ReadRight, parseNmeaPos_text, Option.some.injEq, Prod.mk.injEq, latitude, hlat, hlng]
  rfl

end PositionReport

/-- South of the equator, with the primary symbol table: 33°52' south, 151°12' east. -/
def sydneyReport : PositionReport where
  lat := ⟨33, 52, 0⟩
  south := true
  symbolTable := ch '/'
  lng := ⟨151, 12, 0⟩
  west := false
  symbolCode := ch '>'
  comment := []
  symbolTable_ne := by decide
  symbolCode_ne := by decide
  comment_clean := by decide

/-- It is read as north of the equator. -/
theorem not_readRight_sydneyReport : ¬ sydneyReport.ReadRight := by
  intro h
  rw [PositionReport.ReadRight, PositionReport.parseNmeaPos_text] at h
  have hlat := (Prod.mk.inj (Option.some.inj h)).1
  rw [PositionReport.latitude, PositionReport.sign_mul_eq_iff] at hlat
  rcases hlat with hzero | hsame
  · norm_num [sydneyReport, Angle.value, Angle.minutes] at hzero
  · exact absurd hsame (by decide)

end Gps

end HamRouter
