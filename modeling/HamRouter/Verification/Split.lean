import HamRouter.Verification.Str

/-! # Splitting at a separator

`split` cuts a string at the first separator and goes on behind it. Nothing of the string is
lost. -/

namespace HamRouter.StdString

/-! ## The first occurrence -/

theorem exists_of_find_eq_some {s t : StdString} {pos : ℕ} (h : find s t = some pos) :
    ∃ before rest, s = before ++ (t ++ rest) ∧ before.length = pos := by
  induction s generalizing pos with
  | nil =>
      rw [find] at h
      split at h
      · rename_i hempty
        exact ⟨[], [], by simp [hempty], Option.some.inj h⟩
      · cases h
  | cons c s ih =>
      rw [find] at h
      split at h
      · rename_i hprefix
        obtain ⟨rest, hrest⟩ := List.isPrefixOf_iff_prefix.mp hprefix
        exact ⟨[], rest, hrest.symm, Option.some.inj h⟩
      · obtain ⟨below, hbelow, rfl⟩ := Option.map_eq_some_iff.mp h
        obtain ⟨before, rest, rfl, rfl⟩ := ih hbelow
        exact ⟨c :: before, rest, rfl, rfl⟩

/-- A byte is found at its first occurrence. -/
theorem find_byte_cases (s : StdString) (c : UInt8) :
    find s [c] = none ∧ c ∉ s ∨
      ∃ before rest, s = before ++ c :: rest ∧ c ∉ before ∧ find s [c] = some before.length := by
  by_cases h : c ∈ s
  · obtain ⟨before, rest, rfl, hbefore⟩ := List.eq_append_cons_of_mem h
    exact Or.inr ⟨before, rest, rfl, hbefore, find_byte hbefore rest⟩
  · exact Or.inl ⟨find_byte_none h, h⟩

/-! ## The loop -/

variable {splitter : StdString}

/-- What is behind the first separator. -/
def behind (splitter s : StdString) (pos : ℕ) : StdString := s.drop (pos + splitter.length)

theorem behind_append (before splitter rest : StdString) :
    behind splitter (before ++ (splitter ++ rest)) before.length = rest := by
  rw [behind, ← List.drop_drop, List.drop_left, List.drop_left]

theorem split_at_find {s : StdString} {pos : ℕ} (h : find s splitter = some pos) :
    s = s.take pos ++ (splitter ++ behind splitter s pos) := by
  obtain ⟨before, rest, rfl, rfl⟩ := exists_of_find_eq_some h
  rw [behind_append, List.take_left]

theorem length_behind_lt (hne : splitter ≠ []) {s : StdString} {pos : ℕ}
    (h : find s splitter = some pos) : (behind splitter s pos).length < s.length := by
  have hlength := congrArg List.length (split_at_find h)
  have hpos := List.length_pos_of_ne_nil hne
  rw [List.length_append, List.length_append] at hlength
  omega

theorem splitLoop_succ (splitter s : StdString) (fuel : ℕ) :
    splitLoop splitter (fuel + 1) s =
      match find s splitter with
      | none => some (if s = [] then [] else [s])
      | some pos =>
          if behind splitter s pos = [] then some [s.take pos, []]
          else (splitLoop splitter fuel (behind splitter s pos)).map (s.take pos :: ·) := by
  rw [splitLoop]
  cases find s splitter with
  | none => cases s <;> rfl
  | some pos =>
      have hleft : s.length - (pos + splitter.length) = 0 ↔ behind splitter s pos = [] := by
        rw [behind, List.drop_eq_nil_iff, Nat.sub_eq_zero_iff_le]
      simp only [hleft]
      rfl

/-- The loop comes to an end. -/
theorem exists_splitLoop (hne : splitter ≠ []) (s : StdString) :
    ∃ parts, ∀ fuel, s.length < fuel → splitLoop splitter fuel s = some parts := by
  induction h : s.length using Nat.strong_induction_on generalizing s with
  | _ n ih =>
      cases hfind : find s splitter with
      | none =>
          refine ⟨if s = [] then [] else [s], ?_⟩
          intro fuel hfuel
          obtain ⟨fuel, rfl⟩ : ∃ spare, fuel = spare + 1 := ⟨fuel - 1, by omega⟩
          rw [splitLoop_succ, hfind]
      | some pos =>
          have hshorter := length_behind_lt hne hfind
          obtain ⟨parts, hparts⟩ := ih _ (h ▸ hshorter) (behind splitter s pos) rfl
          refine ⟨if behind splitter s pos = [] then [s.take pos, []] else s.take pos :: parts, ?_⟩
          intro fuel hfuel
          obtain ⟨fuel, rfl⟩ : ∃ spare, fuel = spare + 1 := ⟨fuel - 1, by omega⟩
          rw [splitLoop_succ, hfind]
          dsimp only
          rw [hparts fuel (by omega)]
          split <;> rfl

theorem splitLoop_eq_split (hne : splitter ≠ []) {s : StdString} {fuel : ℕ}
    (h : s.length < fuel) : splitLoop splitter fuel s = some (split s splitter) := by
  obtain ⟨parts, hparts⟩ := exists_splitLoop hne s
  rw [hparts fuel h, split, hparts _ (Nat.lt_succ_self _)]
  rfl

/-- Where there is no separator the string is its only part, unless it is empty. -/
theorem split_of_find_none (hne : splitter ≠ []) {s : StdString} (h : find s splitter = none) :
    split s splitter = if s = [] then [] else [s] := by
  have hloop := splitLoop_eq_split hne (Nat.lt_succ_self s.length)
  rw [splitLoop_succ, h] at hloop
  exact (Option.some.inj hloop).symm

/-- Otherwise the part before the first separator is followed by the parts behind it. -/
theorem split_of_find_some (hne : splitter ≠ []) {s : StdString} {pos : ℕ}
    (h : find s splitter = some pos) :
    split s splitter =
      s.take pos :: if behind splitter s pos = [] then [[]]
        else split (behind splitter s pos) splitter := by
  have hloop := splitLoop_eq_split hne (Nat.lt_succ_self s.length)
  rw [splitLoop_succ, h] at hloop
  dsimp only at hloop
  rw [splitLoop_eq_split hne (length_behind_lt hne h)] at hloop
  split at hloop
  · rename_i hempty
    rw [if_pos hempty]
    exact (Option.some.inj hloop).symm
  · rename_i hrest
    rw [if_neg hrest]
    exact (Option.some.inj hloop).symm

/-- A part in front of the first separator, with something behind that. -/
theorem split_append {c : UInt8} {part rest : StdString} (hpart : c ∉ part) (hrest : rest ≠ []) :
    split (part ++ c :: rest) [c] = part :: split rest [c] := by
  have hfind : find (part ++ ([c] ++ rest)) [c] = some part.length := find_byte hpart rest
  have hsplit := split_of_find_some (List.cons_ne_nil c []) hfind
  rw [behind_append, List.take_left, if_neg hrest] at hsplit
  exact hsplit

theorem split_of_not_mem {c : UInt8} {part : StdString} (hpart : c ∉ part) (hne : part ≠ []) :
    split part [c] = [part] := by
  rw [split_of_find_none (List.cons_ne_nil c []) (find_byte_none hpart), if_neg hne]

/-! ## The parts -/

theorem split_eq_nil_iff (hne : splitter ≠ []) (s : StdString) :
    split s splitter = [] ↔ s = [] := by
  cases hfind : find s splitter with
  | none =>
      rw [split_of_find_none hne hfind]
      split <;> simp_all
  | some pos =>
      have hlength := length_behind_lt hne hfind
      rw [split_of_find_some hne hfind]
      constructor
      · intro h
        cases h
      · rintro rfl
        cases hlength

/-- The parts with the separator between them are the string. -/
theorem intercalate_split (hne : splitter ≠ []) (s : StdString) :
    splitter.intercalate (split s splitter) = s := by
  induction h : s.length using Nat.strong_induction_on generalizing s with
  | _ n ih =>
      cases hfind : find s splitter with
      | none =>
          rw [split_of_find_none hne hfind]
          split
          · rename_i hempty
            rw [hempty, List.intercalate_nil]
          · rw [List.intercalate_singleton]
      | some pos =>
          have hcut := split_at_find hfind
          rw [split_of_find_some hne hfind]
          split
          · rename_i hbehind
            rw [hbehind] at hcut
            rw [List.intercalate_cons_cons, List.intercalate_singleton, List.append_assoc]
            exact hcut.symm
          · rename_i hbehind
            have hparts := mt (split_eq_nil_iff hne _).mp hbehind
            rw [List.intercalate_cons_of_ne_nil hparts,
              ih _ (h ▸ length_behind_lt hne hfind) _ rfl, List.append_assoc]
            exact hcut.symm

/-- A separator of one byte is in no part. -/
theorem not_mem_of_mem_split (c : UInt8) (s : StdString) :
    ∀ part ∈ split s [c], c ∉ part := by
  have hne : [c] ≠ [] := List.cons_ne_nil c []
  induction h : s.length using Nat.strong_induction_on generalizing s with
  | _ n ih =>
      intro part hpart
      obtain ⟨hfind, hclean⟩ | ⟨before, rest, rfl, hbefore, hfind⟩ := find_byte_cases s c
      · rw [split_of_find_none hne hfind] at hpart
        split at hpart
        · cases hpart
        · rw [List.mem_singleton.mp hpart]
          exact hclean
      · rw [split_of_find_some hne hfind, List.take_left, List.mem_cons] at hpart
        obtain rfl | hpart := hpart
        · exact hbefore
        · split at hpart
          · rw [List.mem_singleton.mp hpart]
            exact List.not_mem_nil
          · exact ih _ (h ▸ length_behind_lt hne hfind) _ rfl part hpart

/-- The first part of a string that does not start with the separator is not empty. -/
theorem head?_split_ne {c : UInt8} {s : StdString} (h : s.head? ≠ some c) :
    ∀ part ∈ (split s [c]).head?, part ≠ [] := by
  have hne : [c] ≠ [] := List.cons_ne_nil c []
  intro part hpart
  obtain ⟨hfind, -⟩ | ⟨before, rest, rfl, -, hfind⟩ := find_byte_cases s c
  · rw [split_of_find_none hne hfind] at hpart
    split at hpart
    · cases hpart
    · rename_i hs
      obtain rfl := Option.some.inj hpart
      exact hs
  · rw [split_of_find_some hne hfind, List.take_left] at hpart
    obtain rfl := Option.some.inj hpart
    rintro rfl
    exact h rfl

end HamRouter.StdString
