import Mathlib.Data.List.Basic

/-! # Labelled transition systems

Reachable states of a partial step function, the invariant rule, finite runs, and systems that
follow another one. For a total step function, what holds all along a run, and simulation by
another one. -/

namespace Transition

variable {σ α : Type*}

/-- States reached from `init` by finitely many successful steps. -/
inductive Reachable (step : σ → α → Option σ) (init : σ) : σ → Prop where
  | start : Reachable step init init
  | next {s t : σ} {a : α} : Reachable step init s → step s a = some t → Reachable step init t

/-- The steps of a list of actions, all of which must succeed. -/
def run (step : σ → α → Option σ) : List α → σ → Option σ
  | [], s => some s
  | a :: rest, s => (step s a).bind (run step rest)

/-- What holds initially and is kept by every step holds of every reachable state. -/
theorem Reachable.invariant {step : σ → α → Option σ} {init s : σ} {P : σ → Prop}
    (h : Reachable step init s) (start : P init)
    (kept : ∀ s t a, P s → step s a = some t → P t) : P s := by
  induction h with
  | start => exact start
  | next _ hstep ih => exact kept _ _ _ ih hstep

theorem Reachable.of_run {step : σ → α → Option σ} {init s t : σ} (actions : List α)
    (h : Reachable step init s) (hrun : run step actions s = some t) : Reachable step init t := by
  induction actions generalizing s with
  | nil =>
      obtain rfl := Option.some.inj hrun
      exact h
  | cons a rest ih =>
      obtain ⟨next, hstep, hrest⟩ := Option.bind_eq_some_iff.mp hrun
      exact ih (h.next hstep) hrest

/-! ## Following another system -/

section Following

variable {τ γ : Type*} {step : σ → α → Option σ} {step' : τ → γ → Option τ}

theorem run_append (step : σ → α → Option σ) (front back : List α) (s : σ) :
    run step (front ++ back) s = (run step front s).bind (run step back) := by
  induction front generalizing s with
  | nil => rfl
  | cons a rest ih =>
      rw [List.cons_append, run, run, Option.bind_assoc]
      exact congrArg _ (funext fun next => ih next)

/-- Where every step of a system is a run of another one, its reachable states lead to
reachable ones there. -/
theorem Reachable.follow {init s : σ} (f : σ → τ)
    (follows : ∀ s t a, step s a = some t → ∃ actions, run step' actions (f s) = some (f t))
    (h : Reachable step init s) : Reachable step' (f init) (f s) := by
  induction h with
  | start => exact .start
  | next _ hstep ih =>
      obtain ⟨actions, hrun⟩ := follows _ _ _ hstep
      exact ih.of_run actions hrun

end Following

section Total

variable {τ γ : Type*} {step : σ → α → σ} {step' : τ → γ → τ}

/-- Something holds of every state along a run. -/
def Along (step : σ → α → σ) (P : σ → Prop) : σ → List α → Prop
  | s, [] => P s
  | s, a :: rest => P s ∧ Along step P (step s a) rest

/-- Something holds of every step along a run, in the state before it. -/
def Guarded (step : σ → α → σ) (G : σ → α → Prop) : σ → List α → Prop
  | _, [] => True
  | s, a :: rest => G s a ∧ Guarded step G (step s a) rest

theorem Along.of_invariant {I P : σ → Prop} (holds : ∀ s, I s → P s)
    (kept : ∀ s a, I s → I (step s a)) {s : σ} (h : I s) (actions : List α) :
    Along step P s actions := by
  induction actions generalizing s with
  | nil => exact holds s h
  | cons a rest ih => exact ⟨holds s h, ih (kept s a h)⟩

/-- A guard that keeps an invariant, and without which a step fails, is exact. -/
theorem along_iff_guarded {I P : σ → Prop} {G : σ → α → Prop} {s : σ} (h : I s)
    (holds : ∀ s, I s → P s) (kept : ∀ s a, I s → G s a → I (step s a))
    (needed : ∀ s a, I s → P (step s a) → G s a) (actions : List α) :
    Along step P s actions ↔ Guarded step G s actions := by
  induction actions generalizing s with
  | nil => exact ⟨fun _ => trivial, fun _ => holds s h⟩
  | cons a rest ih =>
      constructor
      · rintro ⟨hs, hrest⟩
        have hnext : P (step s a) := by
          cases rest with
          | nil => exact hrest
          | cons b rest => exact hrest.1
        have hguard := needed s a h hnext
        exact ⟨hguard, (ih (kept s a h hguard)).mp hrest⟩
      · rintro ⟨hguard, hrest⟩
        exact ⟨holds s h, (ih (kept s a h hguard)).mpr hrest⟩

/-- Guards that agree under an invariant that one of them keeps agree along a run. -/
theorem guarded_iff_guarded {I : σ → Prop} {G H : σ → α → Prop} {s : σ} (h : I s)
    (same : ∀ s a, I s → (G s a ↔ H s a)) (kept : ∀ s a, I s → G s a → I (step s a))
    (actions : List α) : Guarded step G s actions ↔ Guarded step H s actions := by
  induction actions generalizing s with
  | nil => exact Iff.rfl
  | cons a rest ih =>
      constructor
      · rintro ⟨hguard, hrest⟩
        exact ⟨(same s a h).mp hguard, (ih (kept s a h hguard)).mp hrest⟩
      · rintro ⟨hguard, hrest⟩
        have hg := (same s a h).mpr hguard
        exact ⟨hg, (ih (kept s a h hg)).mpr hrest⟩

/-- One step function follows another. -/
def Simulates (R : σ → τ → Prop) (f : α → γ) (step : σ → α → σ) (step' : τ → γ → τ) : Prop :=
  ∀ s t a, R s t → R (step s a) (step' t (f a))

variable {R : σ → τ → Prop} {f : α → γ}

theorem Simulates.along_iff (hsim : Simulates R f step step') {P : σ → Prop} {Q : τ → Prop}
    (same : ∀ s t, R s t → (P s ↔ Q t)) {s : σ} {t : τ} (h : R s t) (actions : List α) :
    Along step P s actions ↔ Along step' Q t (actions.map f) := by
  induction actions generalizing s t with
  | nil => exact same s t h
  | cons a rest ih => exact and_congr (same s t h) (ih (hsim s t a h))

theorem Simulates.guarded_iff (hsim : Simulates R f step step') {G : σ → α → Prop}
    {H : τ → γ → Prop} (same : ∀ s t a, R s t → (G s a ↔ H t (f a))) {s : σ} {t : τ} (h : R s t)
    (actions : List α) : Guarded step G s actions ↔ Guarded step' H t (actions.map f) := by
  induction actions generalizing s t with
  | nil => exact Iff.rfl
  | cons a rest ih => exact and_congr (same s t a h) (ih (hsim s t a h))

end Total

end Transition
