import Mathlib.Data.List.Basic

/-! # Blocks of memory

An allocated block with a mark that is set by a write behind its end. -/

namespace Memory

structure Block where
  bytes : List UInt8
  overrun : Bool
deriving DecidableEq

namespace Block

/-- A fresh block; its bytes have no meaning yet. -/
def malloc (size : ℕ) : Block := ⟨List.replicate size 0, false⟩

def write (out : Block) (i : ℕ) (b : UInt8) : Block :=
  if i < out.bytes.length then { out with bytes := out.bytes.set i b }
  else { out with overrun := true }

/-- Copy some bytes to `offset` and on. -/
def memcpy (out : Block) : ℕ → List UInt8 → Block
  | _, [] => out
  | offset, b :: rest => (out.write offset b).memcpy (offset + 1) rest

@[simp] theorem length_malloc (size : ℕ) : (malloc size).bytes.length = size := by
  simp [malloc]

@[simp] theorem overrun_malloc (size : ℕ) : (malloc size).overrun = false := rfl

@[simp] theorem length_write (out : Block) (i : ℕ) (b : UInt8) :
    (out.write i b).bytes.length = out.bytes.length := by
  unfold write
  split
  · exact List.length_set
  · rfl

@[simp] theorem length_memcpy (out : Block) (offset : ℕ) (src : List UInt8) :
    (out.memcpy offset src).bytes.length = out.bytes.length := by
  induction src generalizing out offset with
  | nil => rfl
  | cons b rest ih => rw [memcpy, ih, length_write]

theorem overrun_write (out : Block) (i : ℕ) (b : UInt8) :
    (out.write i b).overrun = (out.overrun || decide (out.bytes.length ≤ i)) := by
  unfold write
  by_cases h : i < out.bytes.length
  · simp [h, Nat.not_le_of_lt h]
  · simp [h, Nat.le_of_not_lt h]

/-- A copy overruns when its last byte does. -/
theorem overrun_memcpy (out : Block) (offset : ℕ) {src : List UInt8} (h : src ≠ []) :
    (out.memcpy offset src).overrun =
      (out.overrun || decide (out.bytes.length < offset + src.length)) := by
  induction src generalizing out offset with
  | nil => exact absurd rfl h
  | cons b rest ih =>
      rw [memcpy]
      cases rest with
      | nil =>
          rw [memcpy, overrun_write, List.length_singleton]
          congr 1
          exact decide_eq_decide.mpr Nat.lt_succ_iff.symm
      | cons c rest =>
          rw [ih _ _ (by simp), overrun_write, length_write, Bool.or_assoc, ← Bool.decide_or]
          congr 1
          apply decide_eq_decide.mpr
          simp only [List.length_cons]
          omega

theorem overrun_memcpy_of_overrun {out : Block} (h : out.overrun = true) (offset : ℕ)
    (src : List UInt8) : (out.memcpy offset src).overrun = true := by
  by_cases hsrc : src = []
  · rw [hsrc]
    exact h
  · rw [overrun_memcpy out offset hsrc, h, Bool.true_or]

/-- Inside the block a copy replaces as many bytes as it has. -/
theorem memcpy_append (front middle back src : List UInt8) (overrun : Bool)
    (h : src.length = middle.length) :
    (Block.mk (front ++ middle ++ back) overrun).memcpy front.length src =
      ⟨front ++ src ++ back, overrun⟩ := by
  induction src generalizing front middle with
  | nil =>
      have hnil : middle = [] := List.length_eq_zero_iff.mp h.symm
      rw [hnil]
      rfl
  | cons b src ih =>
      cases middle with
      | nil => simp at h
      | cons c middle =>
          have hlt : front.length < (front ++ c :: middle ++ back).length := by simp
          have hset : (front ++ c :: middle ++ back).set front.length b =
              front ++ [b] ++ middle ++ back := by
            simp
          have hnext := ih (front ++ [b]) middle (by simpa using h)
          rw [List.length_append, List.length_singleton] at hnext
          rw [memcpy, write, if_pos hlt, hset, hnext]
          simp

end Block

end Memory
