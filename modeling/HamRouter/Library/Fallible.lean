import Mathlib.Data.List.Basic

/-! # Results that may be errors

How a result is taken apart, results that agree with another one wherever that is no error, and
what holds behind a fold whose steps do not fail. -/

namespace Fallible

universe u

variable {ε α β : Type*}

theorem map_eq_ok {x : Except ε α} {f : α → β} {b : β} :
    x.map f = .ok b ↔ ∃ a, x = .ok a ∧ f a = b := by
  cases x with
  | ok a => simp [Except.map]
  | error e => simp [Except.map]

/-- What holds of the elements done holds behind all of them. -/
theorem foldlM_induction {f : β → α → Except ε β} {P : List α → β → Prop} {xs : List α}
    {b b' : β} (done : List α) (hstart : P done b)
    (hstep : ∀ done x b b', x ∈ xs → P done b → f b x = .ok b' → P (done ++ [x]) b')
    (h : xs.foldlM f b = .ok b') : P (done ++ xs) b' := by
  induction xs generalizing b done with
  | nil =>
      obtain rfl := Except.ok.inj h
      rwa [List.append_nil]
  | cons x xs ih =>
      rw [List.foldlM_cons] at h
      cases hx : f b x with
      | error e =>
          rw [hx] at h
          cases h
      | ok next =>
          rw [hx] at h
          rw [List.append_cons]
          exact ih _ (hstep _ _ _ _ List.mem_cons_self hstart hx)
            (fun done y b b' hy => hstep done y b b' (List.mem_cons_of_mem _ hy)) h

theorem exists_map_iff {x : Except ε α} {f : α → β} : (∃ b, x.map f = .ok b) ↔ ∃ a, x = .ok a := by
  cases x with
  | ok a => simp [Except.map]
  | error e => simp [Except.map]

/-- A fold does not fail exactly when none of its steps does, behind those in front of it. -/
theorem exists_foldlM_iff {f : β → α → Except ε β} {Inv : List α → β → Prop}
    {Passes : List α → α → Prop}
    (hkeep : ∀ done x b b', Inv done b → f b x = .ok b' → Inv (done ++ [x]) b')
    (hpass : ∀ done x b, Inv done b → ((∃ b', f b x = .ok b') ↔ Passes done x)) {xs : List α}
    {b : β} (done : List α) (hstart : Inv done b) :
    (∃ b', xs.foldlM f b = .ok b') ↔
      ∀ front x back, xs = front ++ x :: back → Passes (done ++ front) x := by
  induction xs generalizing done b with
  | nil => simp [pure, Except.pure]
  | cons x xs ih =>
      rw [List.foldlM_cons]
      constructor
      · rintro ⟨b', h⟩ front y back hsplit
        cases hx : f b x with
        | error e =>
            rw [hx] at h
            cases h
        | ok next =>
            rw [hx] at h
            cases front with
            | nil =>
                obtain ⟨rfl, -⟩ := List.cons.inj hsplit
                rw [List.append_nil]
                exact (hpass done x b hstart).mp ⟨next, hx⟩
            | cons z front =>
                obtain ⟨rfl, hrest⟩ := List.cons.inj hsplit
                rw [List.append_cons]
                exact (ih _ (hkeep _ _ _ _ hstart hx)).mp ⟨b', h⟩ front y back hrest
      · intro h
        have hfirst := h [] x xs rfl
        rw [List.append_nil] at hfirst
        obtain ⟨next, hx⟩ := (hpass done x b hstart).mpr hfirst
        rw [hx]
        refine (ih _ (hkeep _ _ _ _ hstart hx)).mpr fun front y back hsplit => ?_
        have hlater := h (x :: front) y back (by rw [hsplit]; rfl)
        rwa [List.append_cons] at hlater

/-- The case where it depends on the element alone. -/
theorem exists_foldlM_iff_forall {f : β → α → Except ε β} {P : α → Prop}
    (hpass : ∀ b x, (∃ b', f b x = .ok b') ↔ P x) {xs : List α} {b : β} :
    (∃ b', xs.foldlM f b = .ok b') ↔ ∀ x ∈ xs, P x := by
  rw [exists_foldlM_iff (fun _ _ _ _ _ _ => trivial) (fun _ x b (_ : True) => hpass b x) []
    trivial]
  constructor
  · intro h x hx
    obtain ⟨front, back, hsplit⟩ := List.append_of_mem hx
    exact h front x back hsplit
  · rintro h front x back rfl
    exact h x (List.mem_append_right _ List.mem_cons_self)

section Bind

variable {α β : Type u} {x : Except ε α} {f : α → Except ε β}

theorem bind_eq_ok {b : β} : x >>= f = .ok b ↔ ∃ a, x = .ok a ∧ f a = .ok b := by
  cases x with
  | ok a => exact ⟨fun h => ⟨a, rfl, h⟩, fun ⟨_, ha, h⟩ => Except.ok.inj ha ▸ h⟩
  | error e => exact ⟨fun h => (by cases h), fun ⟨_, ha, _⟩ => (by cases ha)⟩

theorem map_bind {γ : Type u} (g : β → γ) : (x >>= f).map g = x >>= fun a => (f a).map g := by
  cases x <;> rfl

theorem mem_mapM {xs : List α} {ys : List β} (h : xs.mapM f = .ok ys) (y : β) :
    y ∈ ys ↔ ∃ x ∈ xs, f x = .ok y := by
  induction xs generalizing ys with
  | nil =>
      obtain rfl := Except.ok.inj h
      simp
  | cons x xs ih =>
      rw [List.mapM_cons] at h
      obtain ⟨y', hy', hrest⟩ := bind_eq_ok.mp h
      obtain ⟨ys', hys', hcons⟩ := bind_eq_ok.mp hrest
      obtain rfl := Except.ok.inj hcons
      rw [List.mem_cons, ih hys', List.exists_mem_cons_iff, hy']
      simp [eq_comm]

theorem exists_bind_iff :
    (∃ b, x >>= f = .ok b) ↔ ∃ a, x = .ok a ∧ ∃ b, f a = .ok b := by
  constructor
  · rintro ⟨b, h⟩
    obtain ⟨a, ha, hb⟩ := bind_eq_ok.mp h
    exact ⟨a, ha, b, hb⟩
  · rintro ⟨a, ha, b, hb⟩
    exact ⟨b, bind_eq_ok.mpr ⟨a, ha, hb⟩⟩

/-- Nothing fails for an element of the list. -/
theorem exists_mapM_iff {xs : List α} : (∃ ys, xs.mapM f = .ok ys) ↔ ∀ x ∈ xs, ∃ y, f x = .ok y := by
  induction xs with
  | nil => exact iff_of_true ⟨[], rfl⟩ fun _ hx => (by cases hx)
  | cons x xs ih =>
      rw [List.mapM_cons, exists_bind_iff, List.forall_mem_cons, ← ih]
      constructor
      · rintro ⟨y, hy, hrest⟩
        obtain ⟨ys, hys, -⟩ := exists_bind_iff.mp hrest
        exact ⟨⟨y, hy⟩, ys, hys⟩
      · rintro ⟨⟨y, hy⟩, ys, hys⟩
        exact ⟨y, hy, exists_bind_iff.mpr ⟨ys, hys, _, rfl⟩⟩

/-! ## Extending -/

/-- A result that is the other one, unless that is an error. -/
def Extends (x y : Except ε α) : Prop := ∀ a, x = .ok a → y = .ok a

theorem Extends.refl (x : Except ε α) : Extends x x := fun _ h => h

theorem Extends.bind {y : Except ε α} {g : α → Except ε β} (h : Extends x y)
    (hfg : ∀ a, Extends (f a) (g a)) : Extends (x >>= f) (y >>= g) := by
  intro b hb
  obtain ⟨a, ha, hfa⟩ := bind_eq_ok.mp hb
  exact bind_eq_ok.mpr ⟨a, h a ha, hfg a b hfa⟩

theorem Extends.mapM {g : α → Except ε β} (hfg : ∀ a, Extends (f a) (g a)) (xs : List α) :
    Extends (xs.mapM f) (xs.mapM g) := by
  induction xs with
  | nil => exact .refl _
  | cons x xs ih =>
      rw [List.mapM_cons, List.mapM_cons]
      exact (hfg x).bind fun b => ih.bind fun bs => .refl _

theorem Extends.map {y : Except ε α} (h : Extends x y) (g : α → β) :
    Extends (x.map g) (y.map g) := by
  intro b hb
  obtain ⟨a, ha, hga⟩ := map_eq_ok.mp hb
  exact map_eq_ok.mpr ⟨a, h a ha, hga⟩

end Bind

end Fallible
