import HamRouter.Library.Transition
import HamRouter.Program.WorkQueue
import Mathlib.Algebra.BigOperators.Group.Finset.Basic
import Mathlib.Algebra.Order.Group.Multiset
import Mathlib.Data.Fintype.Basic
import Mathlib.Tactic.Abel

/-! # The hand-over of messages to the main thread

A tranceiver has one entry in `work_list` for each message in its `incoming` queue, up
to the threads that are between their two pushes and the entry the main thread holds. -/

namespace HamRouter.WorkQueue

variable {τ π μ : Type*} [DecidableEq τ]

/-! ## What is on its way -/

/-- The message for `t` a thread has pushed to `incoming` and not yet announced. -/
def Producer.pending (phase : Producer τ μ) (t : τ) : Multiset μ :=
  match phase with
  | .pushed t' m => if t' = t then {m} else 0
  | _ => 0

/-- The work-list entries for `t` the main thread has taken without taking the message. -/
def Consumer.holding (phase : Consumer τ μ) (t : τ) : ℕ :=
  match phase with
  | .popped t' | .peeked t' => if t' = t then 1 else 0
  | _ => 0

def inTransit [Fintype π] (producer : π → Producer τ μ) (t : τ) : Multiset μ :=
  ∑ p, (producer p).pending t

theorem inTransit_update [Fintype π] [DecidableEq π] (producer : π → Producer τ μ) (p : π)
    (phase : Producer τ μ) (t : τ) :
    inTransit (Function.update producer p phase) t + (producer p).pending t =
      inTransit producer t + phase.pending t := by
  have hold : (producer p).pending t + ∑ q ∈ Finset.univ.erase p, (producer q).pending t =
      inTransit producer t :=
    Finset.add_sum_erase Finset.univ (fun q => (producer q).pending t) (Finset.mem_univ p)
  have hnew : phase.pending t +
      ∑ q ∈ Finset.univ.erase p, (Function.update producer p phase q).pending t =
        inTransit (Function.update producer p phase) t := by
    have h := Finset.add_sum_erase Finset.univ
      (fun q => (Function.update producer p phase q).pending t) (Finset.mem_univ p)
    simpa [inTransit] using h
  have hrest : ∑ q ∈ Finset.univ.erase p, (Function.update producer p phase q).pending t =
      ∑ q ∈ Finset.univ.erase p, (producer q).pending t := by
    refine Finset.sum_congr rfl fun q hq => ?_
    rw [Function.update_of_ne (Finset.ne_of_mem_erase hq)]
  rw [← hold, ← hnew, hrest]
  abel

/-- A change of phase that moves no message leaves what is on its way. -/
theorem inTransit_update_of_pending_eq [Fintype π] [DecidableEq π] (producer : π → Producer τ μ)
    (p : π) (phase : Producer τ μ) (t : τ) (h : phase.pending t = (producer p).pending t) :
    inTransit (Function.update producer p phase) t = inTransit producer t := by
  have hu := inTransit_update producer p phase t
  rw [h] at hu
  exact add_right_cancel hu

theorem push_apply (q : τ → List μ) (t t' : τ) (m : μ) :
    push q t m t' = if t = t' then q t' ++ [m] else q t' := by
  by_cases h : t = t'
  · subst h
    simp [push]
  · simp [push, h, Function.update_of_ne (Ne.symm h)]

/-! ## The invariant -/

/-- The counting invariant that links the two queues, and the histories that go with it. -/
structure Balanced [Fintype π] (s : State τ π μ) : Prop where
  count : ∀ t, s.workList.count t + (inTransit s.producer t).card + s.consumer.holding t =
    (s.incoming t).length
  fifo : ∀ t, s.taken t ++ s.incoming t = s.accepted t
  confirmed : ∀ t, (s.accepted t : Multiset μ) = s.confirmed t + inTransit s.producer t
  noFailure : ∀ t, s.consumer ≠ .assertFailed t ∧ s.consumer ≠ .badOptionalAccess t

theorem balanced_initial [Fintype π] : Balanced (State.initial : State τ π μ) := by
  constructor <;> intro t <;> simp [State.initial, inTransit, Producer.pending, Consumer.holding]

/-- A held work-list entry comes with a message. -/
theorem Balanced.incoming_ne_nil [Fintype π] {s : State τ π μ} (h : Balanced s) {t : τ}
    (hold : s.consumer.holding t = 1) : s.incoming t ≠ [] := by
  have hc := h.count t
  intro hempty
  rw [hempty, hold] at hc
  simp at hc

section Steps

variable [Fintype π] {s s' : State τ π μ}

/-- A step of the main thread that takes nothing and does not fail. -/
theorem Balanced.consumer_update (h : Balanced s) (phase : Consumer τ μ)
    (hholding : ∀ t, phase.holding t = s.consumer.holding t)
    (hfine : ∀ t, phase ≠ .assertFailed t ∧ phase ≠ .badOptionalAccess t) :
    Balanced { s with consumer := phase } := by
  refine ⟨?_, h.fifo, h.confirmed, hfine⟩
  intro t
  rw [hholding t]
  exact h.count t

theorem Balanced.popWork (h : Balanced s) {t : τ} {rest : List τ}
    (hwait : s.consumer = .waiting) (hwork : s.workList = t :: rest) :
    Balanced { s with workList := rest, consumer := .popped t } := by
  refine ⟨?_, h.fifo, h.confirmed, by simp⟩
  intro t'
  have hc := h.count t'
  rw [hwait, hwork, List.count_cons] at hc
  simp only [Consumer.holding, beq_iff_eq] at hc ⊢
  omega

theorem Balanced.getMessage (h : Balanced s) {t : τ} {m : μ}
    (hpeek : s.consumer = .peeked t) (hget : WorkQueue.getMessage s t = some m) :
    Balanced { s with
      incoming := Function.update s.incoming t (s.incoming t).tail
      taken := push s.taken t m
      consumer := .forwarding t m } := by
  have hcons : s.incoming t = m :: (s.incoming t).tail :=
    List.eq_cons_of_mem_head? hget
  refine ⟨?_, ?_, h.confirmed, by simp⟩
  · intro t'
    have hc := h.count t'
    by_cases he : t = t'
    · subst he
      rw [hcons] at hc
      simp only [hpeek, Consumer.holding, if_true, List.length_cons] at hc
      simp only [Consumer.holding, Function.update_self]
      omega
    · simpa [hpeek, Consumer.holding, he, Function.update_of_ne (Ne.symm he)] using hc
  · intro t'
    have hf := h.fifo t'
    by_cases he : t = t'
    · subst he
      rw [hcons] at hf
      simpa [push_apply] using hf
    · simpa [push_apply, he, Function.update_of_ne (Ne.symm he)] using hf

variable [DecidableEq π]

/-- Entering the function and leaving it with `TE_ratelimiting` touch no queue. -/
theorem Balanced.producer_update (h : Balanced s) (p : π) (phase : Producer τ μ)
    (hp : ∀ t, phase.pending t = (s.producer p).pending t) :
    Balanced { s with producer := Function.update s.producer p phase } := by
  have ht := fun t => inTransit_update_of_pending_eq s.producer p phase t (hp t)
  refine ⟨?_, h.fifo, ?_, h.noFailure⟩
  · intro t
    simpa only [ht t] using h.count t
  · intro t
    simpa only [ht t] using h.confirmed t

theorem Balanced.pushIncoming (h : Balanced s) {p : π} {t : τ} {m : μ}
    (hp : s.producer p = .called t m) :
    Balanced { s with
      incoming := push s.incoming t m
      accepted := push s.accepted t m
      producer := Function.update s.producer p (.pushed t m) } := by
  have hmove : ∀ t', inTransit (Function.update s.producer p (.pushed t m)) t' =
      inTransit s.producer t' + if t = t' then {m} else 0 := by
    intro t'
    simpa [hp, Producer.pending] using inTransit_update s.producer p (.pushed t m) t'
  refine ⟨?_, ?_, ?_, h.noFailure⟩
  · intro t'
    have hc := h.count t'
    have hm := hmove t'
    by_cases he : t = t'
    · subst he
      simp only [hm, push_apply, if_true, Multiset.card_add, Multiset.card_singleton,
        List.length_append, List.length_singleton]
      omega
    · simpa [hm, push_apply, he] using hc
  · intro t'
    have hf := h.fifo t'
    by_cases he : t = t'
    · subst he
      simp only [push_apply, if_true, ← hf, List.append_assoc]
    · simpa [push_apply, he] using hf
  · intro t'
    have hc := h.confirmed t'
    have hm := hmove t'
    by_cases he : t = t'
    · subst he
      simp only [hm, push_apply, if_true, ← Multiset.coe_add, Multiset.coe_singleton]
      rw [hc, add_assoc]
    · simpa [hm, push_apply, he] using hc

theorem Balanced.pushWork (h : Balanced s) {p : π} {t : τ} {m : μ}
    (hp : s.producer p = .pushed t m) :
    Balanced { s with
      workList := s.workList ++ [t]
      confirmed := push s.confirmed t m
      producer := Function.update s.producer p .outside } := by
  have hmove : ∀ t', inTransit (Function.update s.producer p .outside) t' +
      (if t = t' then {m} else 0) = inTransit s.producer t' := by
    intro t'
    simpa [hp, Producer.pending] using inTransit_update s.producer p .outside t'
  refine ⟨?_, h.fifo, ?_, h.noFailure⟩
  · intro t'
    have hc := h.count t'
    have hm := hmove t'
    by_cases he : t = t'
    · subst he
      have hcard := congrArg Multiset.card hm
      simp only [if_true, Multiset.card_add, Multiset.card_singleton] at hcard
      simp only [List.count_append, List.count_singleton_self]
      omega
    · simp only [he, if_false, add_zero] at hm
      simpa [hm, he, List.count_append, List.count_singleton] using hc
  · intro t'
    have hc := h.confirmed t'
    have hm := hmove t'
    by_cases he : t = t'
    · subst he
      simp only [if_true] at hm
      simp only [push_apply, if_true, ← Multiset.coe_add, Multiset.coe_singleton]
      rw [hc, ← hm, add_assoc]
      congr 1
      exact add_comm _ _
    · simp only [he, if_false, add_zero] at hm
      simpa [hm, push_apply, he] using hc

/-- Every step of every thread keeps the balance. -/
theorem Balanced.step {a : Action τ π μ} (h : Balanced s)
    (hs : WorkQueue.step s a = some s') : Balanced s' := by
  cases a with
  | call p t m =>
      simp only [WorkQueue.step] at hs
      split at hs
      · rename_i hp
        obtain rfl := Option.some.inj hs
        exact h.producer_update p _ (by simp [hp, Producer.pending])
      · simp at hs
  | rateLimited p =>
      simp only [WorkQueue.step] at hs
      split at hs
      · rename_i hp
        obtain rfl := Option.some.inj hs
        exact h.producer_update p _ (by simp [hp, Producer.pending])
      · simp at hs
  | pushIncoming p =>
      simp only [WorkQueue.step] at hs
      split at hs
      · rename_i hp
        obtain rfl := Option.some.inj hs
        exact h.pushIncoming hp
      · simp at hs
  | pushWork p =>
      simp only [WorkQueue.step] at hs
      split at hs
      · rename_i hp
        obtain rfl := Option.some.inj hs
        exact h.pushWork hp
      · simp at hs
  | popWork =>
      simp only [WorkQueue.step] at hs
      split at hs
      · rename_i hwait hwork
        obtain rfl := Option.some.inj hs
        exact h.popWork hwait hwork
      · simp at hs
  | terminate =>
      simp only [WorkQueue.step] at hs
      split at hs
      · rename_i hwait
        obtain rfl := Option.some.inj hs
        exact h.consumer_update _ (by simp [hwait, Consumer.holding]) (by simp)
      · simp at hs
  | peek =>
      simp only [WorkQueue.step] at hs
      split at hs
      · rename_i t hpop
        obtain rfl := Option.some.inj hs
        have hne := h.incoming_ne_nil (t := t) (by simp [hpop, Consumer.holding])
        have hpeek : WorkQueue.peek s t = true := by simp [WorkQueue.peek, hne]
        rw [hpeek, if_pos rfl]
        exact h.consumer_update _ (by simp [hpop, Consumer.holding]) (by simp)
      · simp at hs
  | getMessage =>
      simp only [WorkQueue.step] at hs
      split at hs
      · rename_i t hpeek
        have hne := h.incoming_ne_nil (t := t) (by simp [hpeek, Consumer.holding])
        split at hs
        · rename_i m hget
          obtain rfl := Option.some.inj hs
          exact h.getMessage hpeek hget
        · rename_i hget
          exact absurd (List.head?_eq_none_iff.mp hget) hne
      · simp at hs
  | forwarded =>
      simp only [WorkQueue.step] at hs
      split at hs
      · rename_i hfwd
        obtain rfl := Option.some.inj hs
        exact h.consumer_update _ (by simp [hfwd, Consumer.holding]) (by simp)
      · simp at hs

end Steps

variable [DecidableEq π]

/-- The states of any interleaving of the threads. -/
def Reachable (s : State τ π μ) : Prop := Transition.Reachable step State.initial s

theorem Reachable.balanced [Fintype π] {s : State τ π μ} (h : Reachable s) : Balanced s :=
  Transition.Reachable.invariant h balanced_initial fun _ _ _ hb hs => hb.step hs

/-! ## The hand-over -/

/-- The main thread holds no work-list entry. -/
def Consumer.Free (phase : Consumer τ μ) : Prop :=
  ∀ t, phase ≠ .popped t ∧ phase ≠ .peeked t

omit [DecidableEq π] in
theorem Balanced.held_message [Fintype π] {s : State τ π μ} (h : Balanced s) {t : τ}
    (hold : s.consumer = .popped t ∨ s.consumer = .peeked t) :
    peek s t = true ∧ (WorkQueue.getMessage s t).isSome := by
  have hone : s.consumer.holding t = 1 := by
    rcases hold with hc | hc <;> simp [hc, Consumer.holding]
  have hne := h.incoming_ne_nil hone
  constructor
  · simp [peek, hne]
  · simpa [WorkQueue.getMessage] using hne

omit [DecidableEq π] in
theorem Balanced.quiescent [Fintype π] {s : State τ π μ} (h : Balanced s) (t : τ)
    (hp : ∀ p m, s.producer p ≠ .pushed t m) (hc : s.consumer.Free) :
    s.workList.count t = (s.incoming t).length := by
  have hnone : inTransit s.producer t = 0 := by
    refine Finset.sum_eq_zero fun p _ => ?_
    cases hq : s.producer p with
    | outside => rfl
    | called t' m => rfl
    | pushed t' m =>
        have hne : t' ≠ t := by
          rintro rfl
          exact hp p m hq
        simp [Producer.pending, hne]
  have hfree : s.consumer.holding t = 0 := by
    cases hq : s.consumer with
    | popped t' => exact absurd hq (hc t').1
    | peeked t' => exact absurd hq (hc t').2
    | _ => rfl
  have hcount := h.count t
  rw [hnone, hfree] at hcount
  simpa using hcount

/-- A thread inside a call that ends in `TE_ratelimiting` only enters and leaves it. -/
theorem rateLimited_keeps_queues {s s' : State τ π μ} {a : Action τ π μ}
    (hs : step s a = some s') (ha : a.returns = some .ratelimiting ∨ ∃ p t m, a = .call p t m) :
    s'.incoming = s.incoming ∧ s'.workList = s.workList := by
  rcases ha with ha | ⟨p, t, m, rfl⟩
  · cases a with
    | rateLimited p =>
        simp only [step] at hs
        split at hs
        · obtain rfl := Option.some.inj hs
          exact ⟨rfl, rfl⟩
        · simp at hs
    | _ => simp [Action.returns] at ha
  · simp only [step] at hs
    split at hs
    · obtain rfl := Option.some.inj hs
      exact ⟨rfl, rfl⟩
    · simp at hs

theorem rateLimited_not_pushed {s s' : State τ π μ} {p : π}
    (hs : step s (.rateLimited p) = some s') : ∃ t m, s.producer p = .called t m := by
  simp only [step] at hs
  split at hs
  · rename_i t m hp
    exact ⟨t, m, hp⟩
  · simp at hs

/-- What any interleaving of the threads guarantees about the hand-over. -/
structure HandoverSafe (s : State τ π μ) : Prop where
  held : ∀ t, s.consumer = .popped t ∨ s.consumer = .peeked t →
    peek s t = true ∧ (getMessage s t).isSome
  noFailure : ∀ t, s.consumer ≠ .assertFailed t ∧ s.consumer ≠ .badOptionalAccess t
  inOrder : ∀ t, s.taken t <+: s.accepted t
  okAccepted : ∀ t, (s.confirmed t : Multiset μ) ≤ s.accepted t
  quiescent : ∀ t, (∀ p m, s.producer p ≠ .pushed t m) → s.consumer.Free →
    s.workList.count t = (s.incoming t).length
  rateLimited : ∀ a s', step s a = some s' →
    (a.returns = some .ratelimiting ∨ ∃ p t m, a = .call p t m) →
      s'.incoming = s.incoming ∧ s'.workList = s.workList
  rateLimitedCall : ∀ p s', step s (.rateLimited p) = some s' →
    ∃ t m, s.producer p = .called t m

theorem handover_safe [Fintype π] (s : State τ π μ) (h : Reachable s) : HandoverSafe s := by
  have hb := h.balanced
  refine ⟨fun t => hb.held_message, hb.noFailure, ?_, ?_, hb.quiescent, ?_, ?_⟩
  · intro t
    exact ⟨s.incoming t, hb.fifo t⟩
  · intro t
    rw [hb.confirmed t]
    exact Multiset.le_add_right _ _
  · intro a s' hs ha
    exact rateLimited_keeps_queues hs ha
  · intro p s' hs
    exact rateLimited_not_pushed hs

/-- Two threads queue messages on two tranceivers, one of them is rate limited, and the
main thread takes the first entry. -/
def sampleActions : List (Action ℕ (Fin 2) ℕ) :=
  [.call 0 7 41, .call 1 8 42, .pushIncoming 0, .pushIncoming 1, .pushWork 1, .call 1 7 43,
    .rateLimited 1, .pushWork 0, .popWork]

def sampleState : State ℕ (Fin 2) ℕ :=
  (Transition.run step sampleActions State.initial).getD State.initial

theorem handover_safe_sample :
    sampleState.consumer = .popped 8 ∧ HandoverSafe sampleState :=
  ⟨rfl, handover_safe sampleState (Transition.Reachable.of_run sampleActions .start rfl)⟩

end HamRouter.WorkQueue
