import HamRouter.Verification.Router.Handled

/-! # The main thread catches up

Alone, it empties the queues in as many rounds of its loop as the work list has entries, and
no round depends on what the others or the clock did. -/

namespace HamRouter

theorem WorkQueue.inTransit_eq_zero {τ π μ : Type*} [DecidableEq τ] [Fintype π]
    {producer : π → Producer τ μ} {t : τ} (h : ∀ p m, producer p ≠ .pushed t m) :
    inTransit producer t = 0 := by
  refine Finset.sum_eq_zero fun p _ => ?_
  cases hp : producer p with
  | outside => rfl
  | called t' m => rfl
  | pushed t' m =>
      have hne : t' ≠ t := by
        rintro rfl
        exact h p m hp
      rw [Producer.pending, if_neg hne]

namespace Router

variable {ρ τ π : Type*} [DecidableEq τ] [DecidableEq π] {cfg : Config ρ τ} {s : State τ π}

/-- A reading of the clock, and how the attempts for a message end. -/
structure Outcome (τ : Type*) where
  nowTs : ℚ
  rc : List τ → τ → TransmitError

/-- The steps of one iteration of the loop of `process`. -/
def round (outcome : Outcome τ) : List (Action τ π) :=
  [.popWork, .peek, .getMessage, .process outcome.nowTs outcome.rc]

theorem step_process (cfg : Config ρ τ) (s : State τ π) (outcome : Outcome τ) {t : τ} {m : Message τ}
    (h : s.queues.consumer = .forwarding t m) :
    ∃ s', step cfg s (.process outcome.nowTs outcome.rc) = some s' ∧
      s'.queues = { s.queues with consumer := .waiting } := by
  simp only [step, process, WorkQueue.step, h, Option.map_some]
  exact ⟨_, rfl, rfl⟩

/-- One iteration takes the first entry of the work list, with a message. -/
theorem run_round [Fintype π] (cfg : Config ρ τ) (hbalanced : WorkQueue.Balanced s.queues) (outcome : Outcome τ)
    {t : τ} {rest : List τ} (hwait : s.queues.consumer = .waiting)
    (hwork : s.queues.workList = t :: rest) :
    ∃ s', Transition.run (step cfg) (round outcome) s = some s' ∧
      s'.queues.consumer = .waiting ∧ s'.queues.workList = rest ∧
      s'.queues.producer = s.queues.producer ∧ s'.queues.accepted = s.queues.accepted ∧
      s'.queues.confirmed = s.queues.confirmed := by
  have hcount := hbalanced.count t
  rw [hwork, List.count_cons_self] at hcount
  cases hincoming : s.queues.incoming t with
  | nil =>
      rw [hincoming, List.length_nil] at hcount
      omega
  | cons m others =>
      let popped := { s with queues := { s.queues with workList := rest, consumer := .popped t } }
      let peeked := { popped with queues := { popped.queues with consumer := .peeked t } }
      let got := { peeked with queues := { peeked.queues with
        incoming := Function.update s.queues.incoming t others
        taken := WorkQueue.push s.queues.taken t m
        consumer := .forwarding t m } }
      have hpop : step cfg s .popWork = some popped := by
        simp only [step, onQueues, WorkQueue.step, hwait, hwork, Option.map_some, popped]
      have hpeek : step cfg popped .peek = some peeked := by
        simp [step, onQueues, WorkQueue.step, WorkQueue.peek, popped, peeked, hincoming]
      have hget : step cfg peeked .getMessage = some got := by
        simp [step, onQueues, WorkQueue.step, WorkQueue.getMessage, popped, peeked, got, hincoming]
      obtain ⟨s', hprocess, hqueues⟩ := step_process cfg got outcome rfl
      refine ⟨s', ?_, ?_⟩
      · rw [round, Transition.run, hpop, Option.bind_some, Transition.run, hpeek,
          Option.bind_some, Transition.run, hget, Option.bind_some, Transition.run, hprocess]
        rfl
      · rw [hqueues]
        exact ⟨rfl, rfl, rfl, rfl, rfl⟩

/-- The iterations that empty the work list. -/
theorem run_rounds [Fintype π] (h : Reachable cfg s) (outcomes : List (Outcome τ))
    (hlength : outcomes.length = s.queues.workList.length)
    (hwait : s.queues.consumer = .waiting) :
    ∃ s', Transition.run (step cfg) (outcomes.flatMap round) s = some s' ∧
      s'.queues.consumer = .waiting ∧ s'.queues.workList = [] ∧
      s'.queues.producer = s.queues.producer ∧ s'.queues.accepted = s.queues.accepted ∧
      s'.queues.confirmed = s.queues.confirmed := by
  induction outcomes generalizing s with
  | nil => exact ⟨s, rfl, hwait, List.eq_nil_of_length_eq_zero hlength.symm, rfl, rfl, rfl⟩
  | cons outcome rest ih =>
      obtain ⟨t, others, hwork⟩ := List.exists_cons_of_length_eq_add_one hlength.symm
      obtain ⟨next, hround, hwait', hwork', hproducer, haccepted, hconfirmed⟩ :=
        run_round cfg h.queues.balanced outcome hwait hwork
      have hreach : Reachable cfg next := Transition.Reachable.of_run _ h hround
      obtain ⟨s', hrun, hwait'', hnone, hproducer', haccepted', hconfirmed'⟩ := ih hreach
        (by rw [hwork']; rw [hwork] at hlength; exact Nat.succ.inj hlength) hwait'
      refine ⟨s', ?_, hwait'', hnone, hproducer'.trans hproducer, haccepted'.trans haccepted,
        hconfirmed'.trans hconfirmed⟩
      rw [List.flatMap_cons, Transition.run_append, hround]
      exact hrun

end Router

end HamRouter
