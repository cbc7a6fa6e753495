import HamRouter.Model.BufferRun

/-! # The cursor of a buffer

Every read starts from a bound check, which holds the cursor in the buffer as long as nothing
shorter is assigned to it. -/

namespace HamRouter

open Ax25 (intMax)
open BigEndian Transition

/-! ## Numbers in network order -/

theorem Net.toNat_getNetShort {p : List UInt8} (h : p.length = 2) :
    (Net.getNetShort p).toNat = unsigned p := by
  match p, h with
  | [a, b], _ =>
      have ha := a.toNat_lt
      have hb := b.toNat_lt
      have hjoin : a.toUInt16 <<< 8 ||| b.toUInt16 = UInt16.ofNat (a.toNat <<< 8 ||| b.toNat) := by
        simp
      change (a.toUInt16 <<< 8 ||| b.toUInt16).toNat = a.toNat * 256 ^ 1 + (b.toNat * 256 ^ 0 + 0)
      rw [hjoin, shiftLeft_or_of_lt hb, UInt16.toNat_ofNat']
      omega

theorem Net.toNat_getNetLong {p : List UInt8} (h : p.length = 4) :
    (Net.getNetLong p).toNat = unsigned p := by
  match p, h with
  | [a, b, c, d], _ =>
      have ha := a.toNat_lt
      have hb := b.toNat_lt
      have hc := c.toNat_lt
      have hd := d.toNat_lt
      have hjoin : a.toUInt32 <<< 24 ||| b.toUInt32 <<< 16 ||| c.toUInt32 <<< 8 ||| d.toUInt32 =
          UInt32.ofNat (((a.toNat <<< 8 ||| b.toNat) <<< 8 ||| c.toNat) <<< 8 ||| d.toNat) := by
        simp [Nat.shiftLeft_or_distrib, ← Nat.shiftLeft_add]
      change (a.toUInt32 <<< 24 ||| b.toUInt32 <<< 16 ||| c.toUInt32 <<< 8 ||| d.toUInt32).toNat =
        a.toNat * 256 ^ 3 + (b.toNat * 256 ^ 2 + (c.toNat * 256 ^ 1 + (d.toNat * 256 ^ 0 + 0)))
      rw [hjoin, shiftLeft_or_of_lt hb, shiftLeft_or_of_lt hc, shiftLeft_or_of_lt hd,
        UInt32.toNat_ofNat']
      omega

theorem Net.toNat_getNetLongLong {p : List UInt8} (h : p.length = 8) :
    (Net.getNetLongLong p).toNat = unsigned p := by
  have hlt := unsigned_lt p
  have hfold : Net.getNetLongLong p =
      p.foldl (fun (v : UInt64) b => (v <<< 8) ||| b.toUInt64) 0 := by
    match p, h with
    | [a, b, c, d, e, f, g, i], _ => rfl
  rw [hfold, foldl_shiftLeft_or, UInt64.toNat_ofNat']
  rw [h] at hlt
  exact Nat.mod_eq_of_lt hlt

namespace Buffer

/-! ## Reading at the cursor -/

/-- A buffer whose cursor can be relied on. -/
structure Valid (b : Buffer) : Prop extends b.Sized, b.InBounds

variable {b : Buffer} {α : Type*}

/-- `n` bytes that are left are read. -/
theorem Valid.readAt_eq (hb : b.Valid) {n : ℕ} (h : b.o + n ≤ b.size) (f : List UInt8 → α) :
    ∃ bytes, bytes <+: b.bytes.drop b.o.toNat ∧ bytes.length = n ∧
      b.readAt n f = .returned (f bytes) := by
  have hsize := hb.size_eq
  have hnonneg := hb.nonneg
  refine ⟨(b.bytes.drop b.o.toNat).take n, List.take_prefix _ _, ?_, ?_⟩
  · rw [List.length_take, List.length_drop]
    omega
  · rw [readAt, if_pos ⟨hnonneg, by omega⟩]

theorem bounded_of_lt {len : ℤ} (h : intMax < b.o + len) (what : StdString)
    (read : Buffer → Outcome α) : bounded what len read b = (.undefined, b) := by
  rw [bounded, addInt, if_neg (by omega)]

theorem Valid.bounded_of_size_lt (hb : b.Valid) {len : ℤ} (hlen : 0 ≤ len)
    (hsum : b.o + len ≤ intMax) (h : b.size < b.o + len) (what : StdString)
    (read : Buffer → Outcome α) :
    bounded what len read b = (.threw (.outOfRange what), b) := by
  have hnonneg := hb.nonneg
  have hmin : -intMax - 1 ≤ b.o + len := by
    rw [intMax]
    omega
  rw [bounded, addInt, if_pos ⟨hmin, hsum⟩]
  exact if_pos h

theorem Valid.bounded_of_le (hb : b.Valid) {len : ℤ} (hlen : 0 ≤ len)
    (hsum : b.o + len ≤ intMax) (h : b.o + len ≤ b.size) (what : StdString)
    {read : Buffer → Outcome α} {value : α} (hread : read b = .returned value) :
    bounded what len read b = (.returned value, { b with o := b.o + len }) := by
  have hnonneg := hb.nonneg
  have hmin : -intMax - 1 ≤ b.o + len := by
    rw [intMax]
    omega
  rw [bounded, addInt, if_pos ⟨hmin, hsum⟩]
  simp only [if_neg (Int.not_lt.mpr h), hread]

/-! ## One operation -/

variable {op : Operation}

/-- Where the value and the buffer afterwards are known, they decide. -/
theorem Operation.sound_of_returned {value : Value} {after : Buffer}
    (hrun : op.run b = (.returned value, after)) (hbounds : after.InBounds)
    (hreads : ∀ n, op.count b = some n → b.ReadsAtCursor n value after) : op.Sound b where
  defined := by simp [hrun]
  inBounds := by simpa [hrun] using hbounds
  unchanged := by simp [hrun]
  reads := by
    intro value' n hvalue hcount
    rw [hrun] at hvalue ⊢
    obtain rfl := Outcome.returned.inj hvalue
    exact hreads n hcount

theorem Operation.sound_of_threw {exception : Exception} (hb : b.InBounds)
    (hrun : op.run b = (.threw exception, b)) : op.Sound b where
  defined := by simp [hrun]
  inBounds := by simpa [hrun] using hb
  unchanged := by simp [hrun]
  reads := by simp [hrun]

/-- A member with a bound check does what it is to do exactly if its sum is an `int`. -/
theorem Valid.sound_bounded_iff (hb : b.Valid) {len : ℤ} {what : StdString}
    {read : Buffer → Outcome α} {f : α → Value}
    (hrun : op.run b = (bounded what len read b).map (·.map f) id) (hlen : 0 ≤ len)
    (hread : b.o + len ≤ b.size → ∃ value, read b = .returned value ∧
      ∀ n, op.count b = some n → b.ReadsAtCursor n (f value) { b with o := b.o + len }) :
    op.Sound b ↔ b.o + len ≤ intMax := by
  constructor
  · intro hsound
    by_contra hsum
    rw [bounded_of_lt (Int.not_le.mp hsum)] at hrun
    exact hsound.defined (congrArg Prod.fst hrun)
  · intro hsum
    have hnonneg := hb.nonneg
    by_cases hleft : b.o + len ≤ b.size
    · obtain ⟨value, hvalue, hreads⟩ := hread hleft
      rw [hb.bounded_of_le hlen hsum hleft what hvalue] at hrun
      exact Operation.sound_of_returned hrun ⟨Int.add_nonneg hnonneg hlen, hleft⟩ hreads
    · rw [hb.bounded_of_size_lt hlen hsum (Int.not_le.mp hleft)] at hrun
      exact Operation.sound_of_threw hb.toInBounds hrun

/-- The same for a member that makes its value of `n` bytes at the cursor. -/
theorem Valid.sound_read_iff (hb : b.Valid) {n : ℕ} {len : ℤ} {what : StdString}
    {read : Buffer → Outcome α} {f : List UInt8 → α} {g : α → Value}
    (hrun : op.run b = (bounded what len read b).map (·.map g) id) (hlen : len = n)
    (hread : read b = b.readAt n f) (hcount : op.count b = some n)
    (hshows : ∀ bytes, bytes <+: b.bytes.drop b.o.toNat → bytes.length = n →
      (g (f bytes)).Shows b bytes) :
    op.Sound b ↔ b.o + len ≤ intMax := by
  subst hlen
  refine hb.sound_bounded_iff hrun (Int.natCast_nonneg n) ?_
  intro hleft
  obtain ⟨bytes, hprefix, hlength, hvalue⟩ := hb.readAt_eq hleft f
  refine ⟨f bytes, hread.trans hvalue, ?_⟩
  intro m hm
  obtain rfl := Option.some.inj (hcount.symm.trans hm)
  exact ⟨⟨bytes, hprefix, hlength, hshows bytes hprefix hlength⟩, rfl⟩

theorem Valid.sound_getByte (hb : b.Valid) : Operation.getByte.Sound b := by
  have hnonneg := hb.nonneg
  by_cases hleft : b.o < b.size
  · obtain ⟨bytes, hprefix, hlength, hvalue⟩ := hb.readAt_eq (n := 1) (by omega) (·.getD 0 0)
    have hrun : Operation.getByte.run b =
        (.returned (.byte (bytes.getD 0 0)), { b with o := b.o + 1 }) := by
      rw [Operation.run, getByte, if_neg (Int.not_le.mpr hleft), hvalue]
      rfl
    refine Operation.sound_of_returned hrun ⟨Int.add_nonneg hnonneg (by decide), hleft⟩ ?_
    intro n hcount
    obtain rfl := Option.some.inj hcount
    refine ⟨⟨bytes, hprefix, hlength, ?_⟩, rfl⟩
    obtain ⟨c, rfl⟩ := List.length_eq_one_iff.mp hlength
    rfl
  · have hrun : Operation.getByte.run b =
        (.threw (.outOfRange (str "buffer::get_byte")), b) := by
      rw [Operation.run, getByte, if_pos (Int.not_lt.mp hleft)]
      rfl
    exact Operation.sound_of_threw hb.toInBounds hrun

theorem Length.val_eq (len : Length) : len.val = len.val.toNat :=
  (Int.toNat_of_nonneg len.nonneg).symm

theorem stringAt_eq {len : ℤ} (h : 0 ≤ len) : b.stringAt len = b.readAt len.toNat id :=
  if_neg (Int.not_lt.mpr h)

theorem Valid.sound_getRest (hb : b.Valid) : Operation.getRest.Sound b := by
  have hnonneg := hb.nonneg
  have hle := hb.le_size
  by_cases hend : b.o = b.size
  · have hrun : Operation.getRest.run b =
        (.threw (.outOfRange (str "buffer::get_string")), b) := by
      rw [Operation.run, getRest, if_pos hend]
      rfl
    exact Operation.sound_of_threw hb.toInBounds hrun
  · obtain ⟨bytes, hprefix, hlength, hvalue⟩ := hb.readAt_eq (n := (b.size - b.o).toNat)
      (by omega) id
    have hrun : Operation.getRest.run b =
        (.returned (.text bytes), { b with o := b.o + (b.size - b.o) }) := by
      rw [Operation.run, getRest, if_neg hend]
      dsimp only
      rw [stringAt_eq (by omega), hvalue]
      rfl
    have hmoved : b.o + (b.size - b.o) = b.size := by omega
    rw [hmoved] at hrun
    refine Operation.sound_of_returned hrun ⟨hnonneg.trans hle, Int.le_refl _⟩ ?_
    intro n hcount
    obtain rfl := Option.some.inj hcount
    refine ⟨⟨bytes, hprefix, hlength, rfl⟩, ?_⟩
    rw [Int.toNat_of_nonneg (by omega), hmoved]

theorem Valid.sound_reset (hb : b.Valid) : Operation.reset.Sound b := by
  have hsize : 0 ≤ b.size := hb.nonneg.trans hb.le_size
  have hrun : Operation.reset.run b = (.returned .nothing, { b with o := 0 }) := rfl
  refine Operation.sound_of_returned hrun ⟨Int.le_refl 0, hsize⟩ ?_
  intro n hcount
  cases hcount

/-- The cursor stays where it is, whatever is assigned. -/
theorem Valid.sound_assign_iff (hb : b.Valid) (other : Buffer) (h : other.Sized) :
    (Operation.assign other h).Sound b ↔ b.o ≤ other.size := by
  constructor
  · intro hsound
    exact hsound.inBounds.le_size
  · intro hle
    have hrun : (Operation.assign other h).run b =
        (.returned .nothing, (Buffer.assign other b).2) := rfl
    refine Operation.sound_of_returned hrun ⟨hb.nonneg, hle⟩ ?_
    intro n hcount
    cases hcount

/-- An operation does what it is to do exactly if it is harmless. -/
theorem Valid.sound_iff (hb : b.Valid) (op : Operation) : op.Sound b ↔ op.Harmless b := by
  cases op with
  | getByte => exact iff_of_true hb.sound_getByte trivial
  | getNetShort =>
      have hrun : Operation.getNetShort.run b = (bounded (str "buffer::get_net_short") 2
          (fun b => b.readAt 2 Net.getNetShort) b).map (·.map .short) id := rfl
      refine hb.sound_read_iff hrun rfl rfl rfl ?_
      intro bytes _ hlength
      exact ⟨hlength, Net.toNat_getNetShort hlength⟩
  | getNetLong =>
      have hrun : Operation.getNetLong.run b = (bounded (str "buffer::get_net_long") 4
          (fun b => b.readAt 4 Net.getNetLong) b).map (·.map .long) id := rfl
      refine hb.sound_read_iff hrun rfl rfl rfl ?_
      intro bytes _ hlength
      exact ⟨hlength, Net.toNat_getNetLong hlength⟩
  | getNetLongLong =>
      have hrun : Operation.getNetLongLong.run b = (bounded (str "buffer::get_net_long_long") 8
          (fun b => b.readAt 8 Net.getNetLongLong) b).map (·.map .longLong) id := rfl
      refine hb.sound_read_iff hrun rfl rfl rfl ?_
      intro bytes _ hlength
      exact ⟨hlength, Net.toNat_getNetLongLong hlength⟩
  | getBytes len =>
      have hrun : (Operation.getBytes len).run b = (bounded (str "buffer::get_bytes") len.val
          (fun b => .returned b.o) b).map (·.map .pointer) id := rfl
      refine hb.sound_bounded_iff hrun len.nonneg ?_
      intro hleft
      refine ⟨b.o, rfl, ?_⟩
      intro n hcount
      obtain rfl := Option.some.inj hcount
      rw [len.val_eq] at hleft ⊢
      obtain ⟨bytes, hprefix, hlength, _⟩ := hb.readAt_eq hleft id
      exact ⟨⟨bytes, hprefix, hlength, hb.nonneg, hprefix⟩, rfl⟩
  | getSegment len =>
      have hrun : (Operation.getSegment len).run b = (bounded (str "buffer::get_segment") len.val
          (fun b => if len.val < 0 then .returned (ofPointer [] len.val)
            else b.readAt len.val.toNat (ofPointer · len.val)) b).map (·.map .segment) id := rfl
      refine hb.sound_read_iff hrun len.val_eq (if_neg (Int.not_lt.mpr len.nonneg)) rfl ?_
      intro bytes _ hlength
      change ofPointer bytes len.val = ofPointer bytes bytes.length
      rw [hlength, ← len.val_eq]
  | getString len =>
      have hrun : (Operation.getString len).run b = (bounded (str "buffer::get_string()") len.val
          (fun b => b.stringAt len.val) b).map (·.map .text) id := rfl
      refine hb.sound_read_iff hrun len.val_eq (stringAt_eq len.nonneg) rfl ?_
      intro bytes _ _
      rfl
  | getRest => exact iff_of_true hb.sound_getRest trivial
  | seek len =>
      have hrun : (Operation.seek len).run b = (bounded (str "buffer::seek") len.val
          (fun _ => .returned ()) b).map (·.map fun _ => .nothing) id := rfl
      refine hb.sound_bounded_iff hrun len.nonneg ?_
      intro _
      refine ⟨(), rfl, ?_⟩
      intro n hcount
      cases hcount
  | reset => exact iff_of_true hb.sound_reset trivial
  | assign other h => exact hb.sound_assign_iff other h

/-! ## Sequences of operations -/

theorem toBuffer_bounded (what : StdString) (len : ℤ) (read : Buffer → Outcome α) (b : Buffer) :
    (bounded what len read b).2.toBuffer = b.toBuffer := by
  rw [bounded]
  split
  · rfl
  · split
    · rfl
    · split <;> rfl

theorem toBuffer_getByte (b : Buffer) : b.getByte.2.toBuffer = b.toBuffer := by
  rw [getByte]
  split <;> rfl

theorem toBuffer_getRest (b : Buffer) : b.getRest.2.toBuffer = b.toBuffer := by
  rw [getRest]
  split
  · rfl
  · dsimp only
    split <;> rfl

/-- Nothing but an assignment changes the bytes. -/
theorem toBuffer_step (b : Buffer) (op : Operation) (h : ∀ other hother, op ≠ .assign other hother) :
    (step b op).toBuffer = b.toBuffer := by
  cases op with
  | getByte => exact toBuffer_getByte b
  | getNetShort =>
      have hsame : b.getNetShort.2.toBuffer = b.toBuffer := toBuffer_bounded _ _ _ b
      exact hsame
  | getNetLong =>
      have hsame : b.getNetLong.2.toBuffer = b.toBuffer := toBuffer_bounded _ _ _ b
      exact hsame
  | getNetLongLong =>
      have hsame : b.getNetLongLong.2.toBuffer = b.toBuffer := toBuffer_bounded _ _ _ b
      exact hsame
  | getBytes len =>
      have hsame : (b.getBytes len.val).2.toBuffer = b.toBuffer := toBuffer_bounded _ _ _ b
      exact hsame
  | getSegment len =>
      have hsame : (b.getSegment len.val).2.toBuffer = b.toBuffer := toBuffer_bounded _ _ _ b
      exact hsame
  | getString len =>
      have hsame : (b.getString len.val).2.toBuffer = b.toBuffer := toBuffer_bounded _ _ _ b
      exact hsame
  | getRest => exact toBuffer_getRest b
  | seek len =>
      have hsame : (b.seek len.val).2.toBuffer = b.toBuffer := toBuffer_bounded _ _ _ b
      exact hsame
  | reset => rfl
  | assign other hother => exact absurd rfl (h other hother)

theorem sized_ofPointer {p : List UInt8} (h : (p.length : ℤ) ≤ intMax) :
    (ofPointer p p.length).Sized where
  size_eq := by simp [ofPointer, Ax25.Buffer.ofPointer]
  inRange := h

theorem Sized.step (h : b.Sized) (op : Operation) : (step b op).Sized := by
  by_cases hassign : ∃ other hother, op = .assign other hother
  · obtain ⟨other, hother, rfl⟩ := hassign
    have hsize := hother.size_eq
    refine ⟨?_, hother.inRange⟩
    change other.size = (other.bytes.take other.size.toNat).length
    rw [List.length_take]
    omega
  · have hsame := toBuffer_step b op (by simpa using hassign)
    exact ⟨by rw [hsame]; exact h.size_eq, by rw [hsame]; exact h.inRange⟩

theorem Content.valid_buffer (content : Content) : content.buffer.Valid where
  toSized := sized_ofPointer content.short
  nonneg := Int.le_refl 0
  le_size := Int.natCast_nonneg _

/-- All operations of a sequence do what they are to do exactly if all are harmless. -/
theorem guarded_sound_iff (content : Content) (ops : List Operation) :
    Guarded step (fun b op => op.Sound b) content.buffer ops ↔
      Guarded step (fun b op => op.Harmless b) content.buffer ops := by
  refine guarded_iff_guarded content.valid_buffer (fun b op hb => hb.sound_iff op) ?_ ops
  intro b op hb hsound
  exact ⟨hb.toSized.step op, hsound.inBounds⟩

/-! ## A cursor beyond the end -/

def fiveBytes : Content := ⟨[1, 2, 3, 4, 5], by decide⟩

def oneByte : Content := ⟨[6], by decide⟩

/-- The buffer is read up to its third byte, and then has one byte only. -/
def shorterAssigned : List Operation :=
  [.getNetShort, .assign oneByte.buffer oneByte.valid_buffer.toSized]

theorem not_sound_shorterAssigned :
    ¬ Guarded step (fun b op => op.Sound b) fiveBytes.buffer shorterAssigned := by
  rintro ⟨_, hassign, _⟩
  exact absurd hassign.inBounds.le_size (by decide)

end Buffer

end HamRouter
