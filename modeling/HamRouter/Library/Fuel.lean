import Mathlib.Data.Nat.Init

/-! # Evaluation by fuel

`eval n s` is the answer for `s` that `n` units of fuel are enough for. An evaluation that
keeps getting to states of one kind, with less fuel each time, has no answer. -/

namespace Fuel

variable {σ ρ : Type*}

/-- More fuel never changes an answer. -/
def Stable (eval : ℕ → σ → Option ρ) : Prop :=
  ∀ n s r, eval n s = some r → eval (n + 1) s = some r

/-- `r` is the answer for `s`. -/
def Answers (eval : ℕ → σ → Option ρ) (s : σ) (r : ρ) : Prop := ∃ n, eval n s = some r

/-- The evaluation of `s` goes on as that of `t`, and has used some fuel until then. -/
structure Leads (eval : ℕ → σ → Option ρ) (s t : σ) : Prop where
  onward : ∀ n r, eval n s = some r → ∃ left < n, eval left t = some r
  backward : ∀ r, Answers eval t r → Answers eval s r

variable {eval : ℕ → σ → Option ρ} {s t u : σ} {r : ρ}

theorem Stable.of_le (h : Stable eval) {n k : ℕ} (hle : n ≤ k) (hn : eval n s = some r) :
    eval k s = some r := by
  induction hle with
  | refl => exact hn
  | step _ ih => exact h _ s r ih

/-- There is one answer at most. -/
theorem Stable.answer_unique (h : Stable eval) {n k : ℕ} {r' : ρ} (hn : eval n s = some r)
    (hk : eval k s = some r') : r = r' := by
  have hleft := h.of_le (Nat.le_max_left n k) hn
  have hright := h.of_le (Nat.le_max_right n k) hk
  exact Option.some.inj (hleft.symm.trans hright)

theorem Leads.of_step (hzero : eval 0 s = none) (hstep : ∀ n, eval (n + 1) s = eval n t) :
    Leads eval s t where
  onward n r hn := by
    cases n with
    | zero => simp [hzero] at hn
    | succ n => exact ⟨n, Nat.lt_succ_self n, (hstep n).symm.trans hn⟩
  backward r hr := by
    obtain ⟨n, hn⟩ := hr
    exact ⟨n + 1, (hstep n).trans hn⟩

theorem Leads.trans (hst : Leads eval s t) (htu : Leads eval t u) : Leads eval s u where
  onward n r hn := by
    obtain ⟨k, hk, hmiddle⟩ := hst.onward n r hn
    obtain ⟨left, hleft, hend⟩ := htu.onward k r hmiddle
    exact ⟨left, Nat.lt_trans hleft hk, hend⟩
  backward r hr := hst.backward r (htu.backward r hr)

theorem Leads.eq_none (h : Leads eval s t) (ht : ∀ n, eval n t = none) (n : ℕ) :
    eval n s = none := by
  cases hn : eval n s with
  | none => rfl
  | some r =>
      obtain ⟨left, _, hleft⟩ := h.onward n r hn
      simp [ht left] at hleft

/-- States that only lead to states of the same kind are never answered. -/
theorem eq_none_of_leads {P : σ → Prop} (h : ∀ s, P s → ∃ t, P t ∧ Leads eval s t) (n : ℕ) :
    ∀ s, P s → eval n s = none := by
  induction n using Nat.strongRecOn with
  | ind n ih =>
      intro s hs
      obtain ⟨t, ht, hleads⟩ := h s hs
      cases hn : eval n s with
      | none => rfl
      | some r =>
          obtain ⟨left, hlt, hleft⟩ := hleads.onward n r hn
          simp [ih left hlt t ht] at hleft

end Fuel
