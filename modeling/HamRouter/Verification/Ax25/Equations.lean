import HamRouter.Library.Byte
import HamRouter.Program.Ax25

/-! Computation rules for the frame decoder on a vector that holds what it reads. -/

namespace HamRouter.Ax25

open TracedRead

@[simp] theorem val_readByte (r : Region) (i : ℕ) : (readByte r i).val = r.get i := rfl

@[simp] theorem log_readByte (r : Region) (i : ℕ) : (readByte r i).log = [i] := rfl

@[simp] theorem val_readBytes (r : Region) (start n : ℕ) :
    (readBytes r start n).val = r.slice start n := rfl

@[simp] theorem log_readBytes (r : Region) (start n : ℕ) :
    (readBytes r start n).log = List.range' start n := rfl

theorem val_readIf (wanted : Bool) (r : Region) (i : ℕ) :
    (readIf wanted r i).val = if wanted then some (r.get i) else none := by
  cases wanted <;> rfl

theorem log_readIf (wanted : Bool) (r : Region) (i : ℕ) :
    (readIf wanted r i).log = if wanted then [i] else [] := by
  cases wanted <;> rfl

@[simp] theorem Address.endMark_assign (a : Address) : a.assign.endMark = a.endMark := rfl

/-- The checks of the two addresses never fail, `operator=` has made both valid. -/
theorem ofVector_of_length (r : Region) (h : 14 ≤ r.bytes.length) :
    ofVector r = (do
      let toAddress := (Address.ofBytes (← readBytes r 0 7)).assign
      let fromAddress := (Address.ofBytes (← readBytes r 7 7)).assign
      let (seenBy, offset) ← readRepeaters r 2 fromAddress.endMark 14 []
      let packet : Packet :=
        { toAddress := toAddress, fromAddress := fromAddress, seenBy := seenBy }
      match offset with
      | none => pure packet
      | some offset => readBody r packet offset) := by
  have hlen : ¬ r.bytes.length < 14 := by omega
  unfold ofVector
  rw [if_neg hlen]
  rfl

theorem intSize_of_le {n : ℕ} (h : n ≤ intMax) : intSize n = n := by
  unfold intMax at h
  unfold intSize
  exact Int.bmod_eq_of_le (by omega) (by omega)

/-- Passing a size as an `int` never makes it larger. -/
theorem toNat_intSize_le (n : ℕ) : (intSize n).toNat ≤ n := by
  unfold intSize
  rw [Int.bmod_eq_emod]
  split <;> omega

theorem intSize_le_intMax (n : ℕ) : intSize n ≤ intMax := by
  unfold intSize intMax
  rw [Int.bmod_eq_emod]
  split <;> omega

theorem Buffer.ofPointer_of_le {payload : List UInt8} (h : payload.length ≤ intMax) :
    Buffer.ofPointer payload (intSize payload.length) = ⟨payload, payload.length⟩ := by
  rw [intSize_of_le h, Buffer.ofPointer, Int.toNat_natCast, List.take_length]

/-- A buffer keeps exactly the payloads whose length is an `int`. -/
theorem Buffer.ofPointer_eq_iff (payload : List UInt8) :
    Buffer.ofPointer payload (intSize payload.length) = ⟨payload, payload.length⟩ ↔
      payload.length ≤ intMax := by
  constructor
  · intro h
    rw [Buffer.ofPointer, Buffer.mk.injEq] at h
    rw [← h.2]
    exact intSize_le_intMax payload.length
  · exact Buffer.ofPointer_of_le

/-- The payload behind a header. A single byte is not taken. -/
theorem val_readData (r : Region) (front payload : List UInt8)
    (hbytes : r.bytes = front ++ payload) :
    (readData r front.length).val =
      if payload.length = 1 then {} else Buffer.ofPointer payload (intSize payload.length) := by
  have hcount : r.bytes.length - front.length = payload.length := by simp [hbytes]
  have hlength : r.bytes.length = front.length + payload.length := by simp [hbytes]
  have hle := toNat_intSize_le payload.length
  unfold readData
  by_cases hmany : payload.length ≤ 1
  · rw [if_neg (by omega)]
    by_cases hone : payload.length = 1
    · rw [if_pos hone]
      rfl
    · have hnil : payload = [] := List.eq_nil_of_length_eq_zero (by omega)
      subst hnil
      rfl
  · rw [if_pos (by omega), if_neg (by omega), hcount]
    simp only [Traced.val_bind, Traced.val_pure, val_readBytes, Buffer.ofPointer]
    have hslice := r.slice_append front (payload.take (intSize payload.length).toNat)
      (payload.drop (intSize payload.length).toNat)
      (by rw [List.append_assoc, List.take_append_drop, hbytes])
    rw [List.length_take_of_le hle] at hslice
    rw [hslice, List.take_take, Nat.min_self]

/-- What follows the addresses, when all of it is there. -/
theorem val_readBody (r : Region) (packet : Packet) (front : List UInt8) (control : UInt8)
    (msgNr pid : Option UInt8) (payload : List UInt8)
    (hbytes : r.bytes = front ++ control :: (msgNr.toList ++ pid.toList ++ payload))
    (hmsg : msgNr.isSome = (control &&& 3 = 0 || control &&& 3 = 1))
    (hpid : pid.isSome = (control &&& 3 = 0 || control &&& 3 = 3)) :
    (readBody r packet front.length).val =
      { packet with
        valid := true
        msgNr := msgNr
        pid := pid
        data := if payload.length = 1 then {}
          else Buffer.ofPointer payload (intSize payload.length) } := by
  have hcontrol : r.get front.length = control := r.get_append front _ hbytes
  have hreadMsg : (readIf (control &&& 3 = 0 || control &&& 3 = 1) r (front.length + 1)).val =
      msgNr := by
    rw [val_readIf, ← hmsg]
    cases msgNr with
    | none => rfl
    | some b =>
        have hget : r.get (front ++ [control]).length = b :=
          r.get_append _ (pid.toList ++ payload) (by simp [hbytes])
        simpa using hget
  have hreadPid : (readIf (control &&& 3 = 0 || control &&& 3 = 3) r
      (front.length + 1 + msgNr.toList.length)).val = pid := by
    rw [val_readIf, ← hpid]
    cases pid with
    | none => rfl
    | some b =>
        have hget : r.get (front ++ [control] ++ msgNr.toList).length = b :=
          r.get_append _ payload (by simp [hbytes])
        simpa [Nat.add_assoc, Nat.add_comm] using hget
  have hdata := val_readData r (front ++ [control] ++ msgNr.toList ++ pid.toList) payload
    (by simp [hbytes])
  have hoffset : (front ++ [control] ++ msgNr.toList ++ pid.toList).length =
      front.length + 1 + msgNr.toList.length + pid.toList.length := by
    simp only [List.length_append, List.length_singleton]
  rw [hoffset] at hdata
  simp only [readBody, Traced.val_bind, Traced.val_pure, val_readByte, hcontrol, hreadMsg,
    hreadPid, hdata]

end HamRouter.Ax25
