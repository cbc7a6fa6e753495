import Mathlib.Data.List.Induction

/-! # A pass over a list with an attempt for each chosen element

An element is attempted, passed over, or brings the pass to a halt. Whether an attempt
succeeds may depend on those made before it, and a failure may end the pass. -/

namespace Attempts

/-- How a pass ends. -/
inductive Ending where
  | finished
  | failed
  | halted
deriving DecidableEq

section Pass

variable {α : Type*} (wanted : α → Option Bool) (attempt : List α → α → Bool) (goOn : Bool)

/-- The attempts with their outcomes, behind those made earlier, and the ending. -/
def pass : List α → List α → List (α × Bool) × Ending
  | [], _ => ([], .finished)
  | a :: rest, earlier =>
      match wanted a with
      | none => ([], .halted)
      | some false => pass rest earlier
      | some true =>
          if attempt earlier a = false ∧ goOn = false then ([(a, false)], .failed)
          else
            let behind := pass rest (earlier ++ [a])
            ((a, attempt earlier a) :: behind.1, behind.2)

/-- The elements to be attempted. -/
def chosen (as : List α) : List α := as.filter (wanted · = some true)

/-- The pass comes behind these elements: none of them halts it, and each attempt succeeds
or does not have to. -/
def Passes (as earlier : List α) : Prop :=
  ∀ front a back, as = front ++ a :: back → wanted a ≠ none ∧
    (wanted a = some true →
      attempt (earlier ++ chosen wanted front) a = true ∨ goOn = true)

variable {wanted attempt goOn}

theorem passes_nil (earlier : List α) : Passes wanted attempt goOn [] earlier := by
  intro front a back h
  simp at h

theorem append_chosen_cons (earlier : List α) (a : α) (as : List α) :
    earlier ++ chosen wanted (a :: as) =
      (if wanted a = some true then earlier ++ [a] else earlier) ++ chosen wanted as := by
  by_cases h : wanted a = some true
  · simp [chosen, h]
  · simp [chosen, h]

theorem passes_cons {a : α} {as earlier : List α} :
    Passes wanted attempt goOn (a :: as) earlier ↔
      wanted a ≠ none ∧ (wanted a = some true → attempt earlier a = true ∨ goOn = true) ∧
        Passes wanted attempt goOn as
          (if wanted a = some true then earlier ++ [a] else earlier) := by
  constructor
  · intro h
    have hfirst := h [] a as rfl
    refine ⟨hfirst.1, by simpa [chosen] using hfirst.2, ?_⟩
    intro front b back hsplit
    rw [← append_chosen_cons]
    exact h (a :: front) b back (by rw [hsplit, List.cons_append])
  · rintro ⟨hnone, hfirst, hrest⟩ front b back hsplit
    cases front with
    | nil =>
        obtain ⟨rfl, rfl⟩ := List.cons.inj hsplit
        exact ⟨hnone, by simpa [chosen] using hfirst⟩
    | cons c front =>
        obtain ⟨rfl, htail⟩ := List.cons.inj hsplit
        rw [append_chosen_cons]
        exact hrest front b back htail

theorem exists_split_cons {b a : α} {as : List α} {P : List α → Prop} :
    (∃ front back, b :: as = front ++ a :: back ∧ P front) ↔
      b = a ∧ P [] ∨ ∃ front back, as = front ++ a :: back ∧ P (b :: front) := by
  constructor
  · rintro ⟨front, back, hsplit, hp⟩
    cases front with
    | nil => exact Or.inl ⟨(List.cons.inj hsplit).1, hp⟩
    | cons c front =>
        obtain ⟨rfl, htail⟩ := List.cons.inj hsplit
        exact Or.inr ⟨front, back, htail, hp⟩
  · rintro (⟨rfl, hp⟩ | ⟨front, back, rfl, hp⟩)
    · exact ⟨[], as, rfl, hp⟩
    · exact ⟨b :: front, back, rfl, hp⟩

/-- What is attempted: the chosen elements that the pass comes to. -/
theorem mem_pass_iff {as earlier : List α} {a : α} {ok : Bool} :
    (a, ok) ∈ (pass wanted attempt goOn as earlier).1 ↔
      ∃ front back, as = front ++ a :: back ∧ wanted a = some true ∧
        Passes wanted attempt goOn front earlier ∧
        attempt (earlier ++ chosen wanted front) a = ok := by
  induction as generalizing earlier with
  | nil => simp [pass]
  | cons b as ih =>
      rw [exists_split_cons, pass]
      simp only [passes_cons, append_chosen_cons]
      cases hb : wanted b with
      | none =>
          simp only [List.not_mem_nil, false_iff]
          rintro (⟨rfl, hwanted, _⟩ | ⟨_, _, _, _, ⟨hnone, _⟩, _⟩)
          · simp [hb] at hwanted
          · exact hnone rfl
      | some choice =>
          cases choice with
          | false =>
              simp only [ih]
              constructor
              · rintro ⟨front, back, hsplit, hwanted, hpasses, hok⟩
                exact Or.inr ⟨front, back, hsplit, hwanted, ⟨by simp, by simp, hpasses⟩, hok⟩
              · rintro (⟨rfl, hwanted, _⟩ | ⟨front, back, hsplit, hwanted, ⟨_, _, hpasses⟩, hok⟩)
                · simp [hb] at hwanted
                · exact ⟨front, back, hsplit, hwanted, hpasses, hok⟩
          | true =>
              have hhead : (a, ok) = (b, attempt earlier b) ↔
                  b = a ∧ wanted a = some true ∧ Passes wanted attempt goOn [] earlier ∧
                    attempt (earlier ++ chosen wanted []) a = ok := by
                constructor
                · intro hpair
                  obtain ⟨rfl, rfl⟩ := Prod.mk.inj hpair
                  exact ⟨rfl, hb, passes_nil earlier, by simp [chosen]⟩
                · rintro ⟨rfl, _, _, rfl⟩
                  simp [chosen]
              rw [← hhead]
              by_cases hfail : attempt earlier b = false ∧ goOn = false
              · rw [if_pos hfail, List.mem_singleton, hfail.1]
                refine (or_iff_left ?_).symm
                rintro ⟨_, _, _, _, ⟨_, hgo, _⟩, _⟩
                simp [hfail] at hgo
              · rw [if_neg hfail, List.mem_cons, ih]
                have hgo : attempt earlier b = true ∨ goOn = true := by
                  simpa [or_iff_not_imp_left] using hfail
                simp [hgo]

/-- There are no more attempts than elements. -/
theorem length_pass_le (as earlier : List α) :
    (pass wanted attempt goOn as earlier).1.length ≤ as.length := by
  induction as generalizing earlier with
  | nil => exact Nat.le_refl _
  | cons a as ih =>
      rw [pass]
      cases wanted a with
      | none => exact Nat.zero_le _
      | some choice =>
          cases choice with
          | false => exact Nat.le_succ_of_le (ih earlier)
          | true =>
              dsimp only
              split
              · exact Nat.succ_le_succ (Nat.zero_le _)
              · exact Nat.succ_le_succ (ih _)

/-- No attempt that the pass comes to fails. -/
def Succeeds (wanted : α → Option Bool) (attempt : List α → α → Bool) (goOn : Bool)
    (as : List α) : Prop :=
  ∀ front a back, as = front ++ a :: back → wanted a = some true →
    Passes wanted attempt goOn front [] → attempt (chosen wanted front) a = true

theorem succeeds_iff {as : List α} :
    Succeeds wanted attempt goOn as ↔ ∀ x ∈ (pass wanted attempt goOn as []).1, x.2 = true := by
  constructor
  · rintro h ⟨a, ok⟩ hmem
    obtain ⟨front, back, hsplit, hwanted, hpasses, hok⟩ := mem_pass_iff.mp hmem
    exact hok.symm.trans (h front a back hsplit hwanted hpasses)
  · intro h front a back hsplit hwanted hpasses
    exact h (a, _) (mem_pass_iff.mpr ⟨front, back, hsplit, hwanted, hpasses, rfl⟩)

theorem passes_snoc {as earlier : List α} {a : α} :
    Passes wanted attempt goOn (as ++ [a]) earlier ↔
      Passes wanted attempt goOn as earlier ∧ wanted a ≠ none ∧
        (wanted a = some true → attempt (earlier ++ chosen wanted as) a = true ∨ goOn = true) := by
  induction as generalizing earlier with
  | nil =>
      rw [List.nil_append, passes_cons]
      simp [passes_nil, chosen]
  | cons b as ih => rw [List.cons_append, passes_cons, passes_cons, ih, append_chosen_cons,
      and_assoc, and_assoc]

/-- When no failure ends it, only a halt keeps a pass from an element. -/
theorem passes_iff_of_succeeds {front back : List α}
    (h : goOn = true ∨ Succeeds wanted attempt goOn (front ++ back)) :
    Passes wanted attempt goOn front [] ↔ ∀ a ∈ front, wanted a ≠ none := by
  induction front using List.reverseRecOn generalizing back with
  | nil => simp [passes_nil]
  | append_singleton front a ih =>
      rw [List.append_assoc, List.singleton_append] at h
      rw [passes_snoc, ih h, List.forall_mem_append, List.forall_mem_singleton]
      refine and_congr_right fun hfront => and_iff_left_of_imp fun _ hwanted => ?_
      rcases h with hgo | hsucceeds
      · exact Or.inr hgo
      · exact Or.inl (hsucceeds front a back rfl hwanted ((ih (Or.inr hsucceeds)).mpr hfront))

end Pass

end Attempts
