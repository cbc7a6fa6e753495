import Mathlib.Data.List.Basic

/-! # Steps that append to a list, or fail

Every state stands for a list for which there is room. A step that may fail appends to the list
when there is room for more, and fails when there is none. -/

/-- What the states stand for, and which lists there is room for. -/
structure Appending (σ α : Type*) where
  Holds : σ → List α → Prop
  Room : List α → Prop
  room : ∀ {s xs}, Holds s xs → Room xs
  begins : ∀ {xs ys}, Room (xs ++ ys) → Room xs

namespace Appending

variable {σ α ε : Type*} (A : Appending σ α)

/-- A step ends in a state for a list, or fails where there is no room for it. -/
def Reaches (xs : List α) : Except ε σ → Prop
  | .ok s => A.Holds s xs
  | .error _ => ¬ A.Room xs

/-- From every state a step appends a list, unless there is no room for it. -/
def Appends (f : σ → Except ε σ) (added : List α) : Prop :=
  ∀ s xs, A.Holds s xs → A.Reaches (xs ++ added) (f s)

variable {A}

theorem Reaches.exists_ok_iff {xs : List α} {result : Except ε σ} (h : A.Reaches xs result) :
    (∃ s, result = .ok s) ↔ A.Room xs := by
  cases result with
  | ok s => exact ⟨fun _ => A.room h, fun _ => ⟨s, rfl⟩⟩
  | error e =>
      refine ⟨?_, fun hroom => (h hroom).elim⟩
      rintro ⟨s, hok⟩
      cases hok

namespace Appends

variable {f g : σ → Except ε σ} {added more : List α}

theorem refl : A.Appends (Except.ok : σ → Except ε σ) [] := by
  intro s xs hs
  rwa [List.append_nil]

theorem bind (h : A.Appends f added) (h' : A.Appends g more) :
    A.Appends (fun s => f s >>= g) (added ++ more) := by
  intro s xs hs
  have hfirst := h s xs hs
  rw [← List.append_assoc]
  change A.Reaches _ (f s >>= g)
  cases hf : f s with
  | ok s' =>
      rw [hf] at hfirst
      exact h' s' _ hfirst
  | error e =>
      rw [hf] at hfirst
      exact fun hroom => hfirst (A.begins hroom)

/-- A step that does not fail, and another one behind it. -/
theorem comp {f : σ → σ} (h : A.Appends (fun s => (.ok (f s) : Except ε σ)) added)
    (h' : A.Appends g more) : A.Appends (fun s => g (f s)) (added ++ more) :=
  h.bind h'

/-- Steps that are done for the elements of a list append one after the other. -/
theorem foldlM {β : Type*} {step : σ → β → Except ε σ} {addedFor : β → List α} {bs : List β}
    (h : ∀ b ∈ bs, A.Appends (step · b) (addedFor b)) :
    A.Appends (fun s => bs.foldlM step s) (bs.flatMap addedFor) := by
  induction bs with
  | nil => exact refl
  | cons b bs ih =>
      have hrest := ih fun b' hb' => h b' (List.mem_cons_of_mem _ hb')
      exact (h b List.mem_cons_self).bind hrest

end Appends

end Appending
