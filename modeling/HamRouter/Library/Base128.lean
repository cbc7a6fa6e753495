import Mathlib.Data.Nat.Digits.Lemmas

/-! # Numbers in groups of seven bits

The highest group comes first, and every octet but the last has bit 7 set. -/

namespace Base128

/-- An octet that is not the last one. -/
def high (d : ℕ) : UInt8 := UInt8.ofNat (128 + d)

/-- The octets of a number. `Nat.digits` has no zero in front, so there are as few as
possible. -/
def encode (n : ℕ) : List UInt8 :=
  (Nat.digits 128 (n / 128)).reverse.map high ++ [UInt8.ofNat (n % 128)]

theorem toNat_high {d : ℕ} (h : d < 128) : (high d).toNat = 128 + d := by
  rw [high, UInt8.toNat_ofNat']
  omega

theorem high_ge {d : ℕ} (h : d < 128) : ¬ high d < 128 := by
  rw [UInt8.lt_iff_toNat_lt, toNat_high h]
  exact Nat.not_lt.mpr (Nat.le_add_right 128 d)

theorem high_and_127 {d : ℕ} (h : d < 128) : high d &&& 127 = UInt8.ofNat d := by
  apply UInt8.toNat_inj.mp
  have hmask : (high d).toNat &&& 127 = (high d).toNat % 128 :=
    Nat.and_two_pow_sub_one_eq_mod _ 7
  rw [UInt8.toNat_and, UInt8.toNat_ofNat']
  rw [toNat_high h] at hmask
  rw [toNat_high h]
  exact hmask.trans (by omega)

theorem ofNat_or_128 {d : ℕ} (h : d < 128) : UInt8.ofNat d ||| 128 = high d := by
  apply UInt8.toNat_inj.mp
  have hor : 128 + d = 128 ||| d := Nat.two_pow_add_eq_or_of_lt (i := 7) h 1
  rw [UInt8.toNat_or, UInt8.toNat_ofNat', toNat_high h, Nat.mod_eq_of_lt (by omega), Nat.or_comm,
    hor]
  rfl

theorem encode_ne_nil (n : ℕ) : encode n ≠ [] := by simp [encode]

/-- An encoding that begins with a last octet is that octet. -/
theorem encode_append_eq_cons {n : ℕ} {rest tail : List UInt8} {b : UInt8} (hb : b < 128)
    (h : encode n ++ rest = b :: tail) : rest = tail := by
  rw [encode, List.append_assoc] at h
  cases hgroups : (Nat.digits 128 (n / 128)).reverse with
  | nil =>
      rw [hgroups] at h
      exact (List.cons.inj h).2
  | cons d ds =>
      have hd : d < 128 :=
        Nat.digits_lt_base (by decide) (List.mem_reverse.mp (show d ∈ _ by rw [hgroups]; simp))
      rw [hgroups] at h
      exact absurd ((List.cons.inj h).1 ▸ hb) (high_ge hd)

theorem digits_eq_cons {n : ℕ} (h : n ≠ 0) :
    Nat.digits 128 n = n % 128 :: Nat.digits 128 (n / 128) :=
  Nat.digits_def' (by decide) (Nat.pos_of_ne_zero h)

/-- Appending group after group gives the number back. -/
theorem foldl_digits (n : ℕ) :
    (Nat.digits 128 n).reverse.foldl (fun a d => a * 128 + d) 0 = n := by
  rw [List.foldl_reverse]
  calc
    (Nat.digits 128 n).foldr (fun d a => a * 128 + d) 0 = Nat.ofDigits 128 (Nat.digits 128 n) := by
      rw [Nat.ofDigits_eq_foldr]
      congr
      funext d a
      exact (Nat.add_comm _ _).trans (congrArg (d + ·) (Nat.mul_comm a 128))
    _ = n := Nat.ofDigits_digits 128 n

end Base128
