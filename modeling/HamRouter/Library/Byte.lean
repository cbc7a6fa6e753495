import Mathlib.Data.List.Basic

/-! # Facts about single bytes, checked on all of them -/

namespace Byte

/-- A property of bytes holds when it holds of the 256 values. -/
theorem forall_of_fin {P : UInt8 → Prop} (h : ∀ n : Fin 256, P (UInt8.ofFin n)) (b : UInt8) :
    P b := by
  have hb := h b.toFin
  simpa using hb

/-! A byte shifted by one bit. -/

theorem shifted (b : UInt8) :
    (b <<< 1) &&& 1 = 0 ∧ ((b <<< 1) &&& 3 = 2 ↔ b &&& 1 = 1) ∧
      (b < 128 → (b <<< 1) >>> 1 = b) ∧ b >>> 1 < 128 :=
  forall_of_fin
    (P := fun b => (b <<< 1) &&& 1 = 0 ∧ ((b <<< 1) &&& 3 = 2 ↔ b &&& 1 = 1) ∧
      (b < 128 → (b <<< 1) >>> 1 = b) ∧ b >>> 1 < 128)
    (by decide +kernel) b

theorem shiftLeft_one_and_one (b : UInt8) : (b <<< 1) &&& 1 = 0 := (shifted b).1

theorem shiftLeft_one_and_three (b : UInt8) : (b <<< 1) &&& 3 = 2 ↔ b &&& 1 = 1 :=
  (shifted b).2.1

theorem shiftLeft_one_shiftRight_one (b : UInt8) (h : b < 128) : (b <<< 1) >>> 1 = b :=
  (shifted b).2.2.1 h

theorem shiftRight_one_lt (b : UInt8) : b >>> 1 < 128 := (shifted b).2.2.2

/-- The four bits behind the lowest one, put behind the digit zero. -/
theorem digit_of_nibble (b : UInt8) :
    let nibble : UInt8 := (b >>> 1) &&& 0x0f
    let digit : UInt8 := 48 + nibble
    digit &&& 64 = 0 ∧ 48 + (digit &&& 0x0f : UInt8) = digit :=
  forall_of_fin
    (P := fun b =>
      let nibble : UInt8 := (b >>> 1) &&& 0x0f
      let digit : UInt8 := 48 + nibble
      digit &&& 64 = 0 ∧ 48 + (digit &&& 0x0f : UInt8) = digit)
    (by decide +kernel) b

/-- A byte with bits 5 and 6 set is assembled again from the digit of its four bits, its
lowest and its highest bit. -/
theorem assemble_digit (b : UInt8) (h : b &&& 0x60 = 0x60) :
    (((48 : UInt8) + ((b >>> 1) &&& 0x0f)) <<< 1) |||
      (if decide (b &&& 1 ≠ 0) = true then 1 else 0) |||
      (if decide (b &&& 128 ≠ 0) = true then 128 else 0) = b :=
  forall_of_fin
    (P := fun b => b &&& 0x60 = 0x60 →
      (((48 : UInt8) + ((b >>> 1) &&& 0x0f)) <<< 1) |||
        (if decide (b &&& 1 ≠ 0) = true then 1 else 0) |||
        (if decide (b &&& 128 ≠ 0) = true then 128 else 0) = b)
    (by decide +kernel) b h

/-! A byte assembled from shifted bits with a low and a high flag. -/

theorem flags (b : UInt8) (low high : Bool) :
    ((((b <<< 1) ||| (if low then 1 else 0) ||| (if high then 128 else 0)) >>> 1) &&& 0x0f) =
        b &&& 0x0f ∧
      ((b <<< 1) ||| (if low then 1 else 0) ||| (if high then 128 else 0)) &&& 1 =
        (if low then 1 else 0) ∧
      (b &&& 64 = 0 →
        ((b <<< 1) ||| (if low then 1 else 0) ||| (if high then 128 else 0)) &&& 128 =
          if high then 128 else 0) :=
  forall_of_fin
    (P := fun b =>
      ((((b <<< 1) ||| (if low then 1 else 0) ||| (if high then 128 else 0)) >>> 1) &&& 0x0f) =
          b &&& 0x0f ∧
        ((b <<< 1) ||| (if low then 1 else 0) ||| (if high then 128 else 0)) &&& 1 =
          (if low then 1 else 0) ∧
        (b &&& 64 = 0 →
          ((b <<< 1) ||| (if low then 1 else 0) ||| (if high then 128 else 0)) &&& 128 =
            if high then 128 else 0))
    (by revert low high; decide +kernel) b

theorem flags_middle (b : UInt8) (low high : Bool) :
    ((((b <<< 1) ||| (if low then 1 else 0) ||| (if high then 128 else 0)) >>> 1) &&& 0x0f) =
      b &&& 0x0f :=
  (flags b low high).1

theorem flags_low (b : UInt8) (low high : Bool) :
    ((b <<< 1) ||| (if low then 1 else 0) ||| (if high then 128 else 0)) &&& 1 =
      if low then 1 else 0 :=
  (flags b low high).2.1

theorem flags_high (b : UInt8) (low high : Bool) (h : b &&& 64 = 0) :
    ((b <<< 1) ||| (if low then 1 else 0) ||| (if high then 128 else 0)) &&& 128 =
      if high then 128 else 0 :=
  (flags b low high).2.2 h

end Byte
