import HamRouter.Model.Ax25Header
import HamRouter.Verification.Ax25.Equations

/-! # Which indices the frame decoder reads -/

namespace HamRouter.Ax25

open TracedRead

variable (r : Region)

theorem within_readByte (i : ℕ) : r.Within (readByte r i) ↔ i < r.bytes.length := by
  simp [Region.Within, Traced.All]

theorem within_readIf (wanted : Bool) (i : ℕ) :
    r.Within (readIf wanted r i) ↔ wanted = true → i < r.bytes.length := by
  cases wanted <;> simp [Region.Within, Traced.All, log_readIf]

theorem within_readBytes {start n : ℕ} (hn : 0 < n) :
    r.Within (readBytes r start n) ↔ start + n ≤ r.bytes.length := by
  simp only [Region.Within, Traced.All, log_readBytes, List.mem_range'_1]
  constructor
  · intro h
    have hlast := h (start + n - 1) (by omega)
    omega
  · intro h i hi
    omega

/-- The payload is bounded by the length of the vector. -/
theorem within_readData (offset : ℕ) : r.Within (readData r offset) := by
  unfold readData
  by_cases h : offset < r.bytes.length - 1
  · have hsize := toNat_intSize_le (r.bytes.length - offset)
    rw [if_pos h, Region.within_bind]
    refine ⟨?_, r.within_pure _⟩
    intro i hi
    rw [log_readBytes, List.mem_range'_1] at hi
    omega
  · rw [if_neg h]
    exact r.within_pure _

theorem length_toList_readIf (wanted : Bool) (i : ℕ) :
    (readIf wanted r i).val.toList.length = if wanted then 1 else 0 := by
  cases wanted <;> simp [val_readIf]

/-- After the addresses nothing but the header bytes themselves can be out of bounds. -/
theorem within_readBody (packet : Packet) (offset : ℕ) :
    r.Within (readBody r packet offset) ↔ bodyHeader (r.bytes.drop offset) ≠ .truncated := by
  cases hd : r.bytes.drop offset with
  | nil =>
      have hend : r.bytes.length ≤ offset := List.drop_eq_nil_iff.mp hd
      simp only [readBody, Region.within_bind, within_readByte, bodyHeader, ne_eq,
        not_true_eq_false, iff_false, not_and]
      omega
  | cons control rest =>
      have hlt : offset < r.bytes.length := by
        by_contra hge
        rw [List.drop_eq_nil_of_le (by omega)] at hd
        simp at hd
      have hcontrol : r.get offset = control := by
        rw [r.get_of_lt hlt]
        rw [List.drop_eq_getElem_cons hlt] at hd
        exact (List.cons.inj hd).1
      have hrest : r.bytes.length = offset + 1 + rest.length := by
        have h := congrArg List.length hd
        simp only [List.length_drop, List.length_cons] at h
        omega
      simp only [readBody, Region.within_bind, within_readByte, val_readByte, hcontrol,
        within_readIf, length_toList_readIf, within_readData, Region.within_pure, and_true,
        bodyHeader]
      generalize (decide (control &&& 3 = 0) || decide (control &&& 3 = 1)) = msg
      generalize (decide (control &&& 3 = 0) || decide (control &&& 3 = 3)) = pid
      generalize rest.length = remaining at hrest
      cases msg <;> cases pid <;> simp <;> omega

/-- The decoder after its repeater loop. -/
def afterRepeaters (toAddress fromAddress : Address) (result : List Address × Option ℕ) :
    Traced ℕ Packet :=
  let packet : Packet :=
    { toAddress := toAddress, fromAddress := fromAddress, seenBy := result.1 }
  match result.2 with
  | none => pure packet
  | some offset => readBody r packet offset

theorem within_readRepeaters (toAddress fromAddress : Address) (n : ℕ) (endMark : Bool)
    (offset : ℕ) (seenBy : List Address) :
    r.Within (readRepeaters r n endMark offset seenBy >>= afterRepeaters r toAddress fromAddress) ↔
      repeaterHeader n endMark (r.bytes.drop offset) ≠ .truncated := by
  induction n generalizing endMark offset seenBy with
  | zero => exact within_readBody r _ offset
  | succ n ih =>
      cases endMark with
      | true => exact within_readBody r _ offset
      | false =>
          by_cases hshort : (r.bytes.drop offset).length < 7
          · simp only [readRepeaters, repeaterHeader, hshort, Bool.false_eq_true, if_false, if_true,
              Region.within_bind, within_readBytes r (show 0 < 7 by decide), ne_eq,
              not_true_eq_false, iff_false, not_and]
            simp only [List.length_drop] at hshort
            omega
          · have hin : offset + 7 ≤ r.bytes.length := by
              simp only [List.length_drop] at hshort
              omega
            have hslice : r.slice offset 7 = (r.bytes.drop offset).take 7 := r.slice_of_le hin
            by_cases hvalid : (Address.ofBytes ((r.bytes.drop offset).take 7)).valid = true
            · have hnext := ih (Address.ofBytes ((r.bytes.drop offset).take 7)).endMark (offset + 7)
                (seenBy ++ [Address.ofBytes ((r.bytes.drop offset).take 7)])
              rw [← List.drop_drop, Region.within_bind] at hnext
              simp only [readRepeaters, repeaterHeader, hshort, Bool.false_eq_true, if_false,
                Region.within_bind, within_readBytes r (show 0 < 7 by decide), hin, true_and,
                Traced.val_bind, val_readBytes, hslice, hvalid, if_true]
              exact hnext
            · simp [readRepeaters, repeaterHeader, Region.within_bind,
                within_readBytes r (show 0 < 7 by decide), hin, hslice, hvalid, afterRepeaters]
              omega

/-- All reads are in bounds exactly when the announced header is. -/
theorem within_ofVector :
    r.Within (ofVector r) ↔ headerVerdict r.bytes ≠ .truncated := by
  by_cases hshort : r.bytes.length < 14
  · simp [ofVector, headerVerdict, hshort]
  · have hfrom : r.slice 7 7 = (r.bytes.drop 7).take 7 := r.slice_of_le (by omega)
    have h := within_readRepeaters r
      (Address.ofBytes (r.slice 0 7)).assign (Address.ofBytes (r.slice 7 7)).assign 2
      (Address.ofBytes (r.slice 7 7)).endMark 14 []
    rw [ofVector_of_length r (by omega), Region.within_bind, Region.within_bind]
    simp only [within_readBytes r (show 0 < 7 by decide), headerVerdict, hshort, if_false, ← hfrom]
    rw [← h]
    constructor
    · intro hreads
      rcases hreads with ⟨_, _, hrest⟩
      exact hrest
    · intro hrest
      exact ⟨by omega, by omega, hrest⟩

/-- The decoder reads the vector only, and leaves the packet invalid when it is too short. -/
def SafeDecode : Prop :=
  r.Within (ofVector r) ∧ (TooShort r.bytes → (ofVector r).val.valid = false)

theorem safeDecode_iff : SafeDecode r ↔ headerVerdict r.bytes ≠ .truncated := by
  constructor
  · intro hsafe
    rcases hsafe with ⟨hwithin, _⟩
    exact (within_ofVector r).mp hwithin
  · intro h
    refine ⟨(within_ofVector r).mpr h, ?_⟩
    intro hshort
    rcases hshort with hlength | htruncated
    · simp [ofVector, hlength]
    · exact absurd htruncated h

/-- Sixteen bytes, to `IDENT` and from `PD9FVH`, whose two addresses have no end mark: a
repeater is copied from indices 14 to 20. -/
def repeaterlessFrame : List UInt8 :=
  (str "IDENT 0PD9FVH0").map (fun c : UInt8 => c <<< 1) ++ [3, 0xf0]

theorem not_safeDecode_repeaterlessFrame : ¬ SafeDecode ⟨repeaterlessFrame, fun _ => 0⟩ := by
  intro h
  exact (within_ofVector _).mp h.1 (by decide)

end HamRouter.Ax25
