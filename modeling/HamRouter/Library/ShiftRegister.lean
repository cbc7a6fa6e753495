import Mathlib.Data.Nat.Init
import Mathlib.Data.List.Basic

/-! # Feedback shift registers

A register that shifts to the right, takes in one bit at a time, and has the terms of its
polynomial added when a one falls out. -/

namespace ShiftRegister

/-- The polynomial with these terms below its highest one, the terms in the order in which the
register shifts. -/
def polynomial (w : ℕ) (terms : List ℕ) : BitVec w :=
  terms.foldl (fun poly k => poly ||| 1#w <<< (w - 1 - k)) 0#w

variable {w : ℕ} (poly : BitVec w)

/-- The register after a bit. -/
def step (r : BitVec w) (b : Bool) : BitVec w :=
  if (r.getLsbD 0 ^^ b) = true then (r >>> 1) ^^^ poly else r >>> 1

/-- The register after a sequence of bits. -/
def feed (r : BitVec w) (bits : List Bool) : BitVec w := bits.foldl (step poly) r

@[simp] theorem feed_nil (r : BitVec w) : feed poly r [] = r := rfl

@[simp] theorem feed_cons (r : BitVec w) (b : Bool) (bits : List Bool) :
    feed poly r (b :: bits) = feed poly (step poly r b) bits := rfl

theorem feed_append (r : BitVec w) (front back : List Bool) :
    feed poly r (front ++ back) = feed poly (feed poly r front) back := List.foldl_append

/-! ## Several bits at once -/

theorem step_xor (r r' : BitVec w) (b b' : Bool) :
    step poly (r ^^^ r') (b ^^ b') = step poly r b ^^^ step poly r' b' := by
  have hfalls : ((r ^^^ r').getLsbD 0 ^^ (b ^^ b')) =
      ((r.getLsbD 0 ^^ b) ^^ (r'.getLsbD 0 ^^ b')) := by
    rw [BitVec.getLsbD_xor]
    cases r.getLsbD 0 <;> cases r'.getLsbD 0 <;> cases b <;> cases b' <;> rfl
  rw [step, step, step, hfalls, BitVec.ushiftRight_xor_distrib]
  cases r.getLsbD 0 ^^ b with
  | false =>
      cases r'.getLsbD 0 ^^ b' with
      | false => rfl
      | true => exact BitVec.xor_assoc _ _ _
  | true =>
      cases r'.getLsbD 0 ^^ b' with
      | false =>
          change r >>> 1 ^^^ r' >>> 1 ^^^ poly = r >>> 1 ^^^ poly ^^^ r' >>> 1
          rw [BitVec.xor_assoc, BitVec.xor_comm (r' >>> 1), ← BitVec.xor_assoc]
      | true =>
          change r >>> 1 ^^^ r' >>> 1 = r >>> 1 ^^^ poly ^^^ (r' >>> 1 ^^^ poly)
          rw [BitVec.xor_comm (r' >>> 1) poly, BitVec.xor_assoc, ← BitVec.xor_assoc poly,
            BitVec.xor_self, BitVec.zero_xor]

/-- The register is linear in its content and its input. -/
theorem feed_xor (r r' : BitVec w) {bits bits' : List Bool} (h : bits.length = bits'.length) :
    feed poly (r ^^^ r') (List.zipWith (· ^^ ·) bits bits') =
      feed poly r bits ^^^ feed poly r' bits' := by
  induction bits generalizing r r' bits' with
  | nil =>
      obtain rfl := List.eq_nil_of_length_eq_zero h.symm
      rfl
  | cons b bits ih =>
      obtain ⟨b', rest, rfl⟩ := List.exists_cons_of_length_eq_add_one h.symm
      rw [List.zipWith_cons_cons, feed_cons, feed_cons, feed_cons, step_xor]
      exact ih _ _ (Nat.succ.inj h)

/-- The lowest bits of a register. -/
def lowBits : ℕ → BitVec w → List Bool
  | 0, _ => []
  | n + 1, r => r.getLsbD 0 :: lowBits n (r >>> 1)

@[simp] theorem length_lowBits (n : ℕ) (r : BitVec w) : (lowBits n r).length = n := by
  induction n generalizing r with
  | zero => rfl
  | succ n ih => rw [lowBits, List.length_cons, ih]

theorem lowBits_eq (n : ℕ) (r : BitVec w) : lowBits n r = (List.range n).map r.getLsbD := by
  induction n generalizing r with
  | zero => rfl
  | succ n ih =>
      rw [lowBits, ih, List.range_succ_eq_map, List.map_cons, List.map_map]
      refine congrArg _ (List.map_congr_left fun i _ => ?_)
      rw [BitVec.getLsbD_ushiftRight, Nat.add_comm]
      rfl

/-- Its own bits only move a register down. -/
theorem feed_lowBits (n : ℕ) (r : BitVec w) : feed poly r (lowBits n r) = r >>> n := by
  induction n generalizing r with
  | zero => exact (BitVec.ushiftRight_zero r).symm
  | succ n ih =>
      have hstep : step poly r (r.getLsbD 0) = r >>> 1 := by
        rw [step, Bool.xor_self]
        rfl
      rw [lowBits, feed_cons, hstep, ih, ← BitVec.shiftRight_add, Nat.add_comm]

/-- Several bits at once: the register moves down, and what they and the bits that fall out make
of an empty register is added. -/
theorem feed_eq (r : BitVec w) (bits : List Bool) :
    feed poly r bits = (r >>> bits.length) ^^^
      feed poly 0#w (List.zipWith (· ^^ ·) (lowBits bits.length r) bits) := by
  have hbits : List.zipWith (· ^^ ·) (lowBits bits.length r)
      (List.zipWith (· ^^ ·) (lowBits bits.length r) bits) = bits := by
    apply List.ext_getElem
    · simp
    · intro i _ _
      simp
  have hlinear : feed poly (r ^^^ 0#w) _ = _ ^^^ feed poly 0#w _ :=
    feed_xor poly r 0#w (show (lowBits bits.length r).length =
      (List.zipWith (· ^^ ·) (lowBits bits.length r) bits).length by simp)
  rw [hbits, BitVec.xor_zero, feed_lowBits] at hlinear
  exact hlinear

/-! ## Bytes -/

/-- The bits of a byte, the lowest first. -/
def byteBits (b : UInt8) : List Bool := (List.range 8).map b.toBitVec.getLsbD

@[simp] theorem length_byteBits (b : UInt8) : (byteBits b).length = 8 := by
  rw [byteBits, List.length_map, List.length_range]

def bitsOf (bytes : List UInt8) : List Bool := bytes.flatMap byteBits

@[simp] theorem bitsOf_cons (b : UInt8) (bytes : List UInt8) :
    bitsOf (b :: bytes) = byteBits b ++ bitsOf bytes := List.flatMap_cons

/-- A byte at once: a table of what the bytes make of an empty register is enough. -/
theorem feed_byteBits (r : BitVec w) (b : UInt8) :
    feed poly r (byteBits b) =
      (r >>> 8) ^^^ feed poly 0#w (byteBits (UInt8.ofBitVec (r.setWidth 8) ^^^ b)) := by
  have hindex : List.zipWith (· ^^ ·) (lowBits 8 r) (byteBits b) =
      byteBits (UInt8.ofBitVec (r.setWidth 8) ^^^ b) := by
    rw [lowBits_eq, byteBits, byteBits, List.zipWith_map, List.zipWith_self]
    refine List.map_congr_left fun i hi => ?_
    have hlt : i < 8 := List.mem_range.mp hi
    rw [UInt8.toBitVec_xor, BitVec.getLsbD_xor, BitVec.getLsbD_setWidth]
    simp [hlt]
  rw [feed_eq, length_byteBits, hindex]

/-! ## Bursts

The highest bit of the polynomial is set, so that the highest bits of a register tell which bits
fell out last. -/

variable {poly}

theorem getLsbD_step (hpoly : poly.getLsbD (w - 1) = true) (hw : 0 < w) (r : BitVec w) (b : Bool) :
    (step poly r b).getLsbD (w - 1) = (r.getLsbD 0 ^^ b) := by
  have htop : (r >>> 1).getLsbD (w - 1) = false := by
    rw [BitVec.getLsbD_ushiftRight]
    exact BitVec.getLsbD_of_ge r _ (by omega)
  rw [step]
  cases r.getLsbD 0 ^^ b with
  | false => exact htop
  | true =>
      change ((r >>> 1) ^^^ poly).getLsbD (w - 1) = true
      rw [BitVec.getLsbD_xor, htop, hpoly]
      rfl

/-- Registers that agree in their high bits behind a step let the same bit fall out, and agreed in
their high bits before it. -/
theorem step_agree (hpoly : poly.getLsbD (w - 1) = true) {m : ℕ} (hm : m < w) {r r' : BitVec w}
    {b b' : Bool} (h : step poly r b >>> m = step poly r' b' >>> m) :
    (r.getLsbD 0 ^^ b) = (r'.getLsbD 0 ^^ b') ∧ r >>> (m + 1) = r' >>> (m + 1) := by
  have hfalls : (r.getLsbD 0 ^^ b) = (r'.getLsbD 0 ^^ b') := by
    have hbit := congrArg (fun v => v.getLsbD (w - 1 - m)) h
    have hindex : m + (w - 1 - m) = w - 1 := by omega
    simp only [BitVec.getLsbD_ushiftRight, hindex] at hbit
    rwa [getLsbD_step hpoly (by omega), getLsbD_step hpoly (by omega)] at hbit
  refine ⟨hfalls, ?_⟩
  have hshift : ∀ v : BitVec w, v >>> (m + 1) = v >>> 1 >>> m := by
    intro v
    rw [← BitVec.shiftRight_add, Nat.add_comm]
  rw [step, step, hfalls] at h
  rw [hshift, hshift]
  split at h
  · rw [BitVec.ushiftRight_xor_distrib, BitVec.ushiftRight_xor_distrib] at h
    have hcancel := congrArg (· ^^^ (poly >>> m)) h
    simpa only [BitVec.xor_assoc, BitVec.xor_self, BitVec.xor_zero] using hcancel
  · exact h

theorem feed_agree (hpoly : poly.getLsbD (w - 1) = true) {r r' : BitVec w} {bits bits' : List Bool}
    (hlength : bits.length = bits'.length) (hw : bits.length ≤ w)
    (h : feed poly r bits = feed poly r' bits') : r >>> bits.length = r' >>> bits.length := by
  induction bits generalizing r r' bits' with
  | nil =>
      obtain rfl := List.eq_nil_of_length_eq_zero hlength.symm
      rw [feed_nil, feed_nil] at h
      rw [h]
  | cons b bits ih =>
      obtain ⟨b', rest, rfl⟩ := List.exists_cons_of_length_eq_add_one hlength.symm
      rw [List.length_cons] at hw
      exact (step_agree hpoly (by omega) (ih (Nat.succ.inj hlength) (by omega) h)).2

/-- No two sequences of at most `w` bits leave the same register. -/
theorem feed_injective (hpoly : poly.getLsbD (w - 1) = true) {r : BitVec w}
    {bits bits' : List Bool} (hlength : bits.length = bits'.length) (hw : bits.length ≤ w)
    (h : feed poly r bits = feed poly r bits') : bits = bits' := by
  induction bits generalizing r bits' with
  | nil => exact (List.eq_nil_of_length_eq_zero hlength.symm).symm
  | cons b bits ih =>
      obtain ⟨b', rest, rfl⟩ := List.exists_cons_of_length_eq_add_one hlength.symm
      rw [List.length_cons] at hw
      have htails := feed_agree hpoly (Nat.succ.inj hlength) (by omega) h
      have hfirst : b = b' := by
        have hfalls := (step_agree hpoly (by omega) htails).1
        exact Bool.xor_right_inj.mp hfalls
      subst hfirst
      rw [ih (Nat.succ.inj hlength) (by omega) h]

/-- The same bits keep different registers different. -/
theorem feed_left_injective (hpoly : poly.getLsbD (w - 1) = true) (hw : 0 < w) {r r' : BitVec w}
    (bits : List Bool) (h : feed poly r bits = feed poly r' bits) : r = r' := by
  induction bits generalizing r r' with
  | nil => exact h
  | cons b bits ih =>
      have hstep : step poly r b >>> 0 = step poly r' b >>> 0 := by
        rw [ih h]
      obtain ⟨hfalls, hrest⟩ := step_agree hpoly hw hstep
      have hlow : r.getLsbD 0 = r'.getLsbD 0 := Bool.xor_left_inj.mp hfalls
      apply BitVec.eq_of_getLsbD_eq
      intro i _
      cases i with
      | zero => exact hlow
      | succ i =>
          have hbit := congrArg (fun v => v.getLsbD i) hrest
          simpa only [BitVec.getLsbD_ushiftRight, Nat.zero_add, Nat.add_comm 1] using hbit

/-- Inputs that differ within `w` successive bits leave different registers. -/
theorem feed_burst (hpoly : poly.getLsbD (w - 1) = true) (hw : 0 < w) {r : BitVec w}
    {front middle middle' back : List Bool} (hlength : middle.length = middle'.length)
    (hmiddle : middle.length ≤ w)
    (h : feed poly r (front ++ middle ++ back) = feed poly r (front ++ middle' ++ back)) :
    middle = middle' := by
  rw [feed_append, feed_append poly r (front ++ middle'), feed_append, feed_append] at h
  exact feed_injective hpoly hlength hmiddle (feed_left_injective hpoly hw back h)

/-- Bytes whose bits differ, and do so within `n` successive places. -/
def Burst (n : ℕ) (bytes bytes' : List UInt8) : Prop :=
  ∃ front middle middle' back, bitsOf bytes = front ++ middle ++ back ∧
    bitsOf bytes' = front ++ middle' ++ back ∧ middle.length = middle'.length ∧
      middle.length ≤ n ∧ middle ≠ middle'

theorem feed_ne_of_burst (hpoly : poly.getLsbD (w - 1) = true) (hw : 0 < w) (r : BitVec w)
    {bytes bytes' : List UInt8} (h : Burst w bytes bytes') :
    feed poly r (bitsOf bytes) ≠ feed poly r (bitsOf bytes') := by
  obtain ⟨front, middle, middle', back, hbits, hbits', hlength, hmiddle, hne⟩ := h
  intro heq
  rw [hbits, hbits'] at heq
  exact hne (feed_burst hpoly hw hlength hmiddle heq)

end ShiftRegister
