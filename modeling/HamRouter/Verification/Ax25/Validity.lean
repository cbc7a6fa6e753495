import HamRouter.Verification.Ax25.Frames

/-! # What the decoder takes for a valid packet -/

namespace HamRouter.Ax25

open TracedRead

section

variable (r : Region)

/-- The `i`-th address of a vector, as its seven bytes are decoded. -/
def addressAt (i : ℕ) : Address := Address.ofBytes (r.slice (7 * i) 7)

theorem valid_addressAt (i : ℕ) : (addressAt r i).valid = true ↔ Clear r i := by
  rw [addressAt, valid_ofBytes (r.length_slice _ _), r.take_slice _ (by decide), Clear]

theorem endMark_addressAt (i : ℕ) : (addressAt r i).endMark = true ↔ Clear r i ∧ Ends r i := by
  rw [addressAt, endMark_ofBytes (r.length_slice _ _), r.take_slice _ (by decide), r.getD_slice _ (by decide),
    Clear, Ends]

/-- The packet before its body is read, with `n` repeaters. -/
def headerPacket (n : ℕ) : Packet where
  toAddress := (addressAt r 0).assign
  fromAddress := (addressAt r 1).assign
  seenBy := (List.range n).map fun i => addressAt r (i + 2)

/-- The loop reads no repeaters behind an end mark, and else the third address and, if that
has no end mark, the fourth. -/
theorem val_readRepeaters_header :
    (readRepeaters r 2 (addressAt r 1).endMark 14 []).val =
      if (addressAt r 1).endMark then ([], some 14)
      else if (addressAt r 2).valid then
        if (addressAt r 2).endMark then ([addressAt r 2], some 21)
        else if (addressAt r 3).valid then ([addressAt r 2, addressAt r 3], some 28)
        else ([addressAt r 2], none)
      else ([], none) := by
  cases hfrom : (addressAt r 1).endMark with
  | true => rfl
  | false =>
      cases hvalid : (addressAt r 2).valid with
      | false =>
          have hdecoded : (Address.ofBytes (r.slice 14 7)).valid = false := hvalid
          simp [readRepeaters, hdecoded]
      | true =>
          have hdecoded : (Address.ofBytes (r.slice 14 7)).valid = true := hvalid
          cases hend : (addressAt r 2).endMark with
          | true =>
              have hmark : (Address.ofBytes (r.slice 14 7)).endMark = true := hend
              simp [readRepeaters, hdecoded, hmark, addressAt]
          | false =>
              have hmark : (Address.ofBytes (r.slice 14 7)).endMark = false := hend
              cases hlast : (addressAt r 3).valid with
              | true =>
                  have hvalid' : (Address.ofBytes (r.slice 21 7)).valid = true := hlast
                  simp [readRepeaters, hdecoded, hmark, hvalid', addressAt]
              | false =>
                  have hvalid' : (Address.ofBytes (r.slice 21 7)).valid = false := hlast
                  simp [readRepeaters, hdecoded, hmark, hvalid', addressAt]

/-- The loop takes the repeaters that are counted, unless one is malformed. -/
theorem val_readRepeaters_of_count :
    match repeaterCount r with
    | none => (readRepeaters r 2 (addressAt r 1).endMark 14 []).val.2 = none
    | some n =>
        (readRepeaters r 2 (addressAt r 1).endMark 14 []).val =
          ((List.range n).map fun i => addressAt r (i + 2), some (14 + 7 * n)) := by
  have hfrom := endMark_addressAt r 1
  have hvalid2 := valid_addressAt r 2
  have hmark2 := endMark_addressAt r 2
  have hvalid3 := valid_addressAt r 3
  rw [val_readRepeaters_header, repeaterCount]
  by_cases h1 : Clear r 1 ∧ Ends r 1
  · rw [if_pos h1, if_pos (hfrom.mpr h1)]
    rfl
  · rw [if_neg h1, if_neg (mt hfrom.mp h1)]
    by_cases h2 : Clear r 2
    · rw [if_neg (not_not.mpr h2), if_pos (hvalid2.mpr h2)]
      by_cases hend : Ends r 2
      · rw [if_pos hend, if_pos (hmark2.mpr ⟨h2, hend⟩)]
        rfl
      · rw [if_neg hend, if_neg fun hmark => hend (hmark2.mp hmark).2]
        by_cases h3 : Clear r 3
        · rw [if_neg (not_not.mpr h3), if_pos (hvalid3.mpr h3)]
          rfl
        · rw [if_pos h3, if_neg (mt hvalid3.mp h3)]
    · rw [if_pos h2, if_neg (mt hvalid2.mp h2)]

theorem ofVector_header (h : 14 ≤ r.bytes.length) :
    (ofVector r).val =
      match (readRepeaters r 2 (addressAt r 1).endMark 14 []).val with
      | (seenBy, none) => { headerPacket r 0 with seenBy := seenBy }
      | (seenBy, some offset) =>
          (readBody r { headerPacket r 0 with seenBy := seenBy } offset).val := by
  have hdecoded := congrArg Traced.val (ofVector_of_length r h)
  have hto : addressAt r 0 = Address.ofBytes (r.slice 0 7) := rfl
  have hfrom : addressAt r 1 = Address.ofBytes (r.slice 7 7) := rfl
  simp only [Traced.val_bind, val_readBytes, Address.endMark_assign, ← hto, ← hfrom] at hdecoded
  rw [hdecoded]
  generalize (readRepeaters r 2 (addressAt r 1).endMark 14 []).val = loop
  rcases loop with ⟨seenBy, offset⟩
  cases offset <;> rfl

/-- A vector decodes to its header and its body, if its repeaters are not malformed. -/
theorem ofVector_of_count (h : 14 ≤ r.bytes.length) :
    match repeaterCount r with
    | none => (ofVector r).val.valid = false
    | some n => (ofVector r).val = (readBody r (headerPacket r n) (14 + 7 * n)).val := by
  have hloop := val_readRepeaters_of_count r
  rw [ofVector_header r h]
  cases hcount : repeaterCount r with
  | none =>
      rw [hcount] at hloop
      generalize (readRepeaters r 2 (addressAt r 1).endMark 14 []).val = loop at hloop
      rcases loop with ⟨seenBy, offset⟩
      obtain rfl : offset = none := hloop
      rfl
  | some n =>
      rw [hcount] at hloop
      simp only [hloop]
      rfl

/-- A valid packet is what a header and a body are decoded to. -/
theorem valid_iff_repeaterCount :
    (ofVector r).val.valid = true ↔ 14 ≤ r.bytes.length ∧ repeaterCount r ≠ none := by
  by_cases hlength : 14 ≤ r.bytes.length
  · have hcount := ofVector_of_count r hlength
    cases hn : repeaterCount r with
    | none =>
        rw [hn] at hcount
        simp [hcount]
    | some n =>
        rw [hn] at hcount
        simp only [hcount, hlength, true_and, ne_eq, reduceCtorEq, not_false_eq_true, iff_true]
        rfl
  · rw [ofVector, if_pos (by omega)]
    simp [hlength]

theorem ofVector_of_some {n : ℕ} (hn : repeaterCount r = some n) (h : 14 ≤ r.bytes.length) :
    (ofVector r).val = (readBody r (headerPacket r n) (14 + 7 * n)).val := by
  have hcount := ofVector_of_count r h
  rwa [hn] at hcount

theorem length_seenBy {n : ℕ} (hn : repeaterCount r = some n) (h : 14 ≤ r.bytes.length) :
    (ofVector r).val.seenBy.length = n := by
  rw [ofVector_of_some r hn h]
  exact (List.length_map _).trans List.length_range

theorem repeaterCount_eq_zero_iff : repeaterCount r = some 0 ↔ Clear r 1 ∧ Ends r 1 := by
  rw [repeaterCount]
  by_cases h1 : Clear r 1 ∧ Ends r 1
  · rw [if_pos h1]
    exact iff_of_true rfl h1
  · rw [if_neg h1, Option.ite_none_left_eq_some]
    refine iff_of_false ?_ h1
    rintro ⟨_, hrest⟩
    split at hrest
    · exact absurd hrest (by decide)
    · rw [Option.ite_none_left_eq_some] at hrest
      exact absurd hrest.2 (by decide)

theorem clear_of_repeaterCount {n : ℕ} (hn : repeaterCount r = some n) (hpos : 0 < n) :
    Clear r 2 := by
  rw [repeaterCount] at hn
  by_cases h1 : Clear r 1 ∧ Ends r 1
  · rw [if_pos h1] at hn
    obtain rfl := Option.some.inj hn
    exact absurd hpos (by decide)
  · rw [if_neg h1, Option.ite_none_left_eq_some, not_not] at hn
    exact hn.1

theorem headerWellFormed_iff_forall (n : ℕ) :
    HeaderWellFormed r n ↔
      (∀ i, i < n + 2 → Clear r i) ∧ ∀ i, i < n + 1 → (Ends r (i + 1) ↔ i = n) := by
  constructor
  · intro h
    refine ⟨fun i hi => h.clear i (by omega), fun i hi => ?_⟩
    rw [h.ends (i + 1) (by omega) (by omega)]
    omega
  · rintro ⟨hclear, hends⟩
    refine ⟨fun i hi => hclear i (by omega), fun i hone hi => ?_⟩
    cases i with
    | zero => omega
    | succ i =>
        rw [hends i (by omega)]
        omega

/-- The header behind a count of repeaters is well-formed when the first two callsigns are
clear and the end bit is set somewhere. -/
theorem headerWellFormed_iff {n : ℕ} (hn : repeaterCount r = some n) :
    HeaderWellFormed r n ↔ Clear r 0 ∧ Clear r 1 ∧ (Ends r 1 ∨ Ends r 2 ∨ Ends r 3) := by
  rw [headerWellFormed_iff_forall]
  rw [repeaterCount] at hn
  by_cases h1 : Clear r 1 ∧ Ends r 1
  · rw [if_pos h1] at hn
    obtain rfl := Option.some.inj hn
    simp only [Nat.forall_lt_succ_right, Nat.not_lt_zero, false_imp_iff, implies_true, true_and,
      Nat.zero_add, iff_true]
    tauto
  · rw [if_neg h1, Option.ite_none_left_eq_some, not_not] at hn
    have hfrom : Clear r 1 → ¬ Ends r 1 := fun hclear hends => h1 ⟨hclear, hends⟩
    obtain ⟨h2, hn⟩ := hn
    by_cases hend : Ends r 2
    · rw [if_pos hend] at hn
      obtain rfl := Option.some.inj hn
      simp only [Nat.forall_lt_succ_right, Nat.not_lt_zero, false_imp_iff, implies_true, true_and,
        Nat.zero_add, Nat.reduceAdd, Nat.zero_ne_one, iff_false, iff_true]
      tauto
    · rw [if_neg hend, Option.ite_none_left_eq_some, not_not] at hn
      obtain ⟨h3, hn⟩ := hn
      obtain rfl := Option.some.inj hn
      simp only [Nat.forall_lt_succ_right, Nat.not_lt_zero, false_imp_iff, implies_true, true_and,
        Nat.zero_add, Nat.reduceAdd, Nat.reduceEqDiff, iff_false, iff_true]
      tauto

/-- A valid packet has a well-formed header exactly where the end bit is not missed. -/
theorem validWellFormed_iff : ValidWellFormed r ↔ HeaderEnds r := by
  unfold ValidWellFormed HeaderEnds
  rw [valid_iff_repeaterCount]
  by_cases hlength : r.bytes.length < 14
  · simp only [hlength, true_or, iff_true]
    rintro ⟨hlong, _⟩
    omega
  · have hlong : 14 ≤ r.bytes.length := by omega
    cases hn : repeaterCount r with
    | none => simp
    | some n =>
        rw [length_seenBy r hn hlong, headerWellFormed_iff r hn]
        simp [hlength, hlong]

end

/-! ## A malformed header that is taken -/

/-- A UI frame with the low bit set in the first byte of the receiver's callsign. -/
def oddRegion : Region :=
  ⟨(addressIdent.bytes false).set 0 147 ++ addressPd9fvh.bytes true ++ [3, 240], fun _ => 0⟩

theorem not_validWellFormed_oddRegion : ¬ ValidWellFormed oddRegion := by
  intro h
  have hvalid : (ofVector oddRegion).val.valid = true := by decide
  have hclear : Clear oddRegion 0 := (h hvalid).clear 0 (Nat.zero_le _)
  exact absurd hclear (by decide)

end HamRouter.Ax25
