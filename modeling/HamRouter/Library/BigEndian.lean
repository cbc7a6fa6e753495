import Mathlib.Data.List.Basic
import Mathlib.Data.Nat.Basic
import Mathlib.Tactic.Ring

/-! # Numbers as bytes, the highest first

The unsigned and the two's-complement value of a sequence of bytes, and the bytes of a
number. -/

namespace BigEndian

/-- The value of the bytes without a sign. -/
def unsigned : List UInt8 → ℕ
  | [] => 0
  | b :: rest => b.toNat * 256 ^ rest.length + unsigned rest

/-- The two's-complement value of the bytes. -/
def signed (bytes : List UInt8) : ℤ :=
  unsigned bytes - if 128 ≤ bytes.headD 0 then 256 ^ bytes.length else 0

/-- The lowest `len` bytes of a number. -/
def ofNat (len n : ℕ) : List UInt8 :=
  (List.range len).map fun i => UInt8.ofNat (n / 256 ^ (len - 1 - i))

theorem length_ofNat (len n : ℕ) : (ofNat len n).length = len := by
  rw [ofNat, List.length_map, List.length_range]

theorem ofNat_succ (len n : ℕ) : ofNat (len + 1) n = UInt8.ofNat (n / 256 ^ len) :: ofNat len n := by
  rw [ofNat, List.range_succ_eq_map, List.map_cons, List.map_map]
  refine List.cons_eq_cons.mpr ⟨rfl, ?_⟩
  apply List.map_congr_left
  intro i _
  have hexponent : len + 1 - 1 - (i + 1) = len - 1 - i := by omega
  exact congrArg (fun k => UInt8.ofNat (n / 256 ^ k)) hexponent

theorem unsigned_ofNat (len n : ℕ) : unsigned (ofNat len n) = n % 256 ^ len := by
  induction len with
  | zero => rw [Nat.pow_zero, Nat.mod_one]; rfl
  | succ len ih =>
      have hbyte : (UInt8.ofNat (n / 256 ^ len)).toNat = n / 256 ^ len % 256 := UInt8.toNat_ofNat'
      rw [ofNat_succ, unsigned, ih, length_ofNat, hbyte, Nat.pow_succ, Nat.mod_mul,
        Nat.mul_comm (256 ^ len), Nat.add_comm]

theorem unsigned_lt (bytes : List UInt8) : unsigned bytes < 256 ^ bytes.length := by
  induction bytes with
  | nil => exact Nat.one_pos
  | cons b rest ih =>
      have hb := b.toNat_lt
      rw [unsigned, List.length_cons, Nat.pow_succ]
      calc
        b.toNat * 256 ^ rest.length + unsigned rest < (b.toNat + 1) * 256 ^ rest.length := by
          rw [Nat.add_mul, Nat.one_mul]
          exact Nat.add_lt_add_left ih _
        _ ≤ 256 * 256 ^ rest.length := Nat.mul_le_mul_right _ hb
        _ = 256 ^ rest.length * 256 := Nat.mul_comm _ _

/-- The first byte has its highest bit set exactly if the value is in the upper half. -/
theorem le_head_iff {bytes : List UInt8} (h : bytes ≠ []) :
    128 ≤ bytes.headD 0 ↔ 256 ^ bytes.length ≤ 2 * unsigned bytes := by
  obtain ⟨b, rest, rfl⟩ := List.exists_cons_of_ne_nil h
  have hrest := unsigned_lt rest
  rw [List.headD_cons, unsigned, List.length_cons, Nat.pow_succ, UInt8.le_iff_toNat_le]
  show 128 ≤ b.toNat ↔ _
  constructor
  · intro hb
    have hmul := Nat.mul_le_mul_right (256 ^ rest.length) hb
    omega
  · intro hle
    by_contra hb
    have hmul := Nat.mul_le_mul_right (256 ^ rest.length) (show b.toNat + 1 ≤ 128 by omega)
    rw [Nat.add_mul] at hmul
    omega

theorem signed_eq {bytes : List UInt8} (h : bytes ≠ []) :
    signed bytes = unsigned bytes -
      if 256 ^ bytes.length ≤ 2 * unsigned bytes then 256 ^ bytes.length else 0 := by
  simp only [signed, le_head_iff h]

/-! ## Machine words -/

theorem shiftLeft_or_of_lt {a b i : ℕ} (h : b < 2 ^ i) : a <<< i ||| b = a * 2 ^ i + b := by
  rw [← Nat.shiftLeft_add_eq_or_of_lt h, Nat.shiftLeft_eq]

theorem shiftLeft_or_byte (a : ℕ) (b : UInt8) :
    (UInt64.ofNat a <<< 8) ||| b.toUInt64 = UInt64.ofNat (a * 256 + b.toNat) := by
  have hshift : UInt64.ofNat a <<< 8 = UInt64.ofNat (a <<< 8) :=
    (UInt64.ofNat_shiftLeft a 8 (by decide)).symm
  have hbyte : b.toUInt64 = UInt64.ofNat b.toNat := by
    apply UInt64.toNat_inj.mp
    have hb := b.toNat_lt
    rw [UInt8.toNat_toUInt64, UInt64.toNat_ofNat']
    omega
  rw [hshift, hbyte, ← UInt64.ofNat_or, shiftLeft_or_of_lt b.toNat_lt]
  rfl

/-- Shifting in byte after byte gives the unsigned value modulo 2^64. -/
theorem foldl_shiftLeft_or (bytes : List UInt8) :
    bytes.foldl (fun (v : UInt64) b => (v <<< 8) ||| b.toUInt64) 0 =
      UInt64.ofNat (unsigned bytes) := by
  have hfold : ∀ a : ℕ,
      bytes.foldl (fun (v : UInt64) b => (v <<< 8) ||| b.toUInt64) (UInt64.ofNat a) =
        UInt64.ofNat (a * 256 ^ bytes.length + unsigned bytes) := by
    intro a
    induction bytes generalizing a with
    | nil => simp [unsigned]
    | cons b rest ih =>
        rw [List.foldl_cons, shiftLeft_or_byte, ih, unsigned, List.length_cons, Nat.pow_succ]
        congr 1
        ring
  have h := hfold 0
  rwa [Nat.zero_mul, Nat.zero_add] at h

end BigEndian
