import HamRouter.Library.BigEndian
import HamRouter.Library.Block

/-! # Words and records in a block

64-bit words with their lowest byte first, and a block that begins with records of one size. -/

namespace Memory

/-- The bytes of a word. -/
def wordBytes (v : UInt64) : List UInt8 := (BigEndian.ofNat 8 v.toNat).reverse

/-- The word of some bytes. -/
def wordOf (bytes : List UInt8) : UInt64 := UInt64.ofNat (BigEndian.unsigned bytes.reverse)

@[simp] theorem length_wordBytes (v : UInt64) : (wordBytes v).length = 8 := by
  rw [wordBytes, List.length_reverse, BigEndian.length_ofNat]

@[simp] theorem wordOf_wordBytes (v : UInt64) : wordOf (wordBytes v) = v := by
  have hlt : v.toNat < 256 ^ 8 := v.toNat_lt
  rw [wordOf, wordBytes, List.reverse_reverse, BigEndian.unsigned_ofNat, Nat.mod_eq_of_lt hlt,
    UInt64.ofNat_toNat]

namespace Block

/-- The word at `offset`. -/
def word (b : Block) (offset : ℕ) : UInt64 := wordOf ((b.bytes.drop offset).take 8)

def setWord (b : Block) (offset : ℕ) (v : UInt64) : Block := b.memcpy offset (wordBytes v)

theorem word_append (front back : List UInt8) (v : UInt64) (overrun : Bool) :
    (Block.mk (front ++ wordBytes v ++ back) overrun).word front.length = v := by
  have hword : ((front ++ wordBytes v ++ back).drop front.length).take 8 = wordBytes v := by
    rw [List.append_assoc, List.drop_left, ← length_wordBytes v, List.take_left]
  rw [word, hword, wordOf_wordBytes]

/-! ## Records -/

section Records

variable {ρ : Type*} {bytes : ρ → List UInt8} {size : ℕ}

theorem length_flatMap_records (hsize : ∀ r, (bytes r).length = size) (records : List ρ) :
    (records.flatMap bytes).length = size * records.length := by
  induction records with
  | nil => rfl
  | cons r rest ih =>
      rw [List.flatMap_cons, List.length_append, hsize, ih, List.length_cons, Nat.mul_succ,
        Nat.add_comm]

/-- A copy over a part of a record changes that record alone. -/
theorem memcpy_record (hsize : ∀ r, (bytes r).length = size) (front back : List ρ) {r r' : ρ}
    {start middle src finish : List UInt8} (hr : bytes r = start ++ middle ++ finish)
    (hr' : bytes r' = start ++ src ++ finish) (hlength : src.length = middle.length)
    (rest : List UInt8) (overrun : Bool) :
    (Block.mk ((front ++ r :: back).flatMap bytes ++ rest) overrun).memcpy
        (size * front.length + start.length) src =
      ⟨(front ++ r' :: back).flatMap bytes ++ rest, overrun⟩ := by
  have hsplit : ∀ record : ρ, ∀ part, bytes record = start ++ part ++ finish →
      (front ++ record :: back).flatMap bytes ++ rest =
        (front.flatMap bytes ++ start) ++ part ++ (finish ++ back.flatMap bytes ++ rest) := by
    intro record part hrecord
    rw [List.flatMap_append, List.flatMap_cons, hrecord]
    simp only [List.append_assoc]
  have hoffset : size * front.length + start.length = (front.flatMap bytes ++ start).length := by
    rw [List.length_append, length_flatMap_records hsize]
  rw [hsplit r middle hr, hsplit r' src hr', hoffset, memcpy_append _ _ _ _ _ hlength]

/-- The word in a record. -/
theorem word_record (hsize : ∀ r, (bytes r).length = size) (front back : List ρ) {r : ρ}
    {start finish : List UInt8} {v : UInt64} (hr : bytes r = start ++ wordBytes v ++ finish)
    (rest : List UInt8) (overrun : Bool) :
    (Block.mk ((front ++ r :: back).flatMap bytes ++ rest) overrun).word
        (size * front.length + start.length) = v := by
  have hsplit : (front ++ r :: back).flatMap bytes ++ rest =
      (front.flatMap bytes ++ start) ++ wordBytes v ++ (finish ++ back.flatMap bytes ++ rest) := by
    rw [List.flatMap_append, List.flatMap_cons, hr]
    simp only [List.append_assoc]
  have hoffset : size * front.length + start.length = (front.flatMap bytes ++ start).length := by
    rw [List.length_append, length_flatMap_records hsize]
  rw [hsplit, hoffset, word_append]

end Records

end Block

end Memory
