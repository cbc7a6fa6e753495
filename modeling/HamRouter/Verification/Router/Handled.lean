import HamRouter.Program.Router
import HamRouter.Verification.Switchboard.Delivery
import HamRouter.Verification.Tranceiver.Handover

/-! # What the router does with the messages it accepts

The router follows the work queue, so that the hand-over is safe in it. Along with the queues
go the messages the main thread was done with. -/

namespace HamRouter

/-! ## The queues -/

namespace WorkQueue

variable {τ π μ : Type*} [DecidableEq τ]

/-- The messages of a tranceiver that the main thread got and is not done with. -/
def Consumer.inHand (phase : Consumer τ μ) (t : τ) : List μ :=
  match phase with
  | .forwarding t' m => if t' = t then [m] else []
  | _ => []

/-- What a step takes out of a queue is in hand behind it. -/
theorem taken_step [DecidableEq π] {s s' : State τ π μ} {a : Action τ π μ}
    (h : step s a = some s') (hnot : a ≠ .forwarded) (t : τ) :
    ∃ new, s'.taken t = s.taken t ++ new ∧
      s'.consumer.inHand t = s.consumer.inHand t ++ new := by
  have hsame : s'.taken = s.taken → s'.consumer.inHand t = s.consumer.inHand t →
      ∃ new, s'.taken t = s.taken t ++ new ∧
        s'.consumer.inHand t = s.consumer.inHand t ++ new := by
    intro htaken hhand
    exact ⟨[], by rw [htaken, List.append_nil], by rw [hhand, List.append_nil]⟩
  cases a with
  | call p t m =>
      simp only [step] at h
      split at h
      · obtain rfl := Option.some.inj h
        exact hsame rfl rfl
      · cases h
  | rateLimited p =>
      simp only [step] at h
      split at h
      · obtain rfl := Option.some.inj h
        exact hsame rfl rfl
      · cases h
  | pushIncoming p =>
      simp only [step] at h
      split at h
      · obtain rfl := Option.some.inj h
        exact hsame rfl rfl
      · cases h
  | pushWork p =>
      simp only [step] at h
      split at h
      · obtain rfl := Option.some.inj h
        exact hsame rfl rfl
      · cases h
  | popWork =>
      simp only [step] at h
      split at h
      · rename_i hwait hwork
        obtain rfl := Option.some.inj h
        exact hsame rfl (by rw [hwait]; rfl)
      · cases h
  | terminate =>
      simp only [step] at h
      split at h
      · rename_i hwait
        obtain rfl := Option.some.inj h
        exact hsame rfl (by rw [hwait]; rfl)
      · cases h
  | peek =>
      simp only [step] at h
      split at h
      · rename_i t' hpop
        obtain rfl := Option.some.inj h
        refine hsame rfl ?_
        rw [hpop]
        dsimp only
        split <;> rfl
      · cases h
  | getMessage =>
      simp only [step] at h
      split at h
      · rename_i t' hpeek
        split at h
        · rename_i m hget
          obtain rfl := Option.some.inj h
          refine ⟨if t' = t then [m] else [], ?_, ?_⟩
          · change push s.taken t' m t = _
            rw [push_apply]
            split
            · rfl
            · rw [List.append_nil]
          · rw [hpeek]
            rfl
        · obtain rfl := Option.some.inj h
          exact hsame rfl (by rw [hpeek]; rfl)
      · cases h
  | forwarded => exact absurd rfl hnot

theorem taken_run [DecidableEq π] {actions : List (Action τ π μ)} {s s' : State τ π μ}
    (h : Transition.run step actions s = some s') (hnot : ∀ a ∈ actions, a ≠ .forwarded) (t : τ) :
    ∃ new, s'.taken t = s.taken t ++ new ∧
      s'.consumer.inHand t = s.consumer.inHand t ++ new := by
  induction actions generalizing s with
  | nil =>
      obtain rfl := Option.some.inj h
      exact ⟨[], by rw [List.append_nil], by rw [List.append_nil]⟩
  | cons a rest ih =>
      obtain ⟨next, hstep, hrest⟩ := Option.bind_eq_some_iff.mp h
      obtain ⟨front, htaken, hhand⟩ := taken_step hstep (hnot a List.mem_cons_self) t
      obtain ⟨back, hmore, hhands⟩ := ih hrest fun b hb => hnot b (List.mem_cons_of_mem _ hb)
      refine ⟨front ++ back, ?_, ?_⟩
      · rw [hmore, htaken, List.append_assoc]
      · rw [hhands, hhand, List.append_assoc]

/-- Something holds of every message of a tranceiver that is in a thread or was accepted. -/
structure Known (P : τ → μ → Prop) (s : State τ π μ) : Prop where
  called : ∀ p t m, s.producer p = .called t m → P t m
  pushed : ∀ p t m, s.producer p = .pushed t m → P t m
  accepted : ∀ t, ∀ m ∈ s.accepted t, P t m

variable [DecidableEq π] {P : τ → μ → Prop} {s s' : State τ π μ}

omit [DecidableEq τ] in
theorem Known.producer_update (h : Known P s) (p : π) (phase : Producer τ μ)
    (hcalled : ∀ t m, phase = .called t m → P t m)
    (hpushed : ∀ t m, phase = .pushed t m → P t m) :
    Known P { s with producer := Function.update s.producer p phase } := by
  refine ⟨?_, ?_, h.accepted⟩
  · intro q t m hq
    change Function.update s.producer p phase q = _ at hq
    rw [Function.update_apply] at hq
    split at hq
    · exact hcalled t m hq
    · exact h.called q t m hq
  · intro q t m hq
    change Function.update s.producer p phase q = _ at hq
    rw [Function.update_apply] at hq
    split at hq
    · exact hpushed t m hq
    · exact h.pushed q t m hq

/-- What is known of the messages of all calls stays known. -/
theorem Known.step {a : Action τ π μ} (h : Known P s)
    (hcall : ∀ p t m, a = .call p t m → P t m) (hs : WorkQueue.step s a = some s') :
    Known P s' := by
  cases a with
  | call p t m =>
      simp only [WorkQueue.step] at hs
      split at hs
      · obtain rfl := Option.some.inj hs
        refine h.producer_update p _ ?_ (by simp)
        intro t' m' heq
        obtain ⟨ht, hm⟩ := Producer.called.inj heq
        rw [← ht, ← hm]
        exact hcall p t m rfl
      · cases hs
  | rateLimited p =>
      simp only [WorkQueue.step] at hs
      split at hs
      · obtain rfl := Option.some.inj hs
        exact h.producer_update p _ (by simp) (by simp)
      · cases hs
  | pushIncoming p =>
      simp only [WorkQueue.step] at hs
      split at hs
      · rename_i t m hp
        obtain rfl := Option.some.inj hs
        have hm := h.called p t m hp
        have hnext : Known P { s with
            producer := Function.update s.producer p (.pushed t m) } := by
          refine h.producer_update p _ (by simp) ?_
          intro t' m' heq
          obtain ⟨ht', hm'⟩ := Producer.pushed.inj heq
          rw [← ht', ← hm']
          exact hm
        refine ⟨hnext.called, hnext.pushed, ?_⟩
        intro t' m' hmem
        change m' ∈ push s.accepted t m t' at hmem
        rw [push_apply] at hmem
        by_cases ht : t = t'
        · rw [if_pos ht, List.mem_append, List.mem_singleton] at hmem
          rcases hmem with hold | rfl
          · exact h.accepted t' m' hold
          · exact ht ▸ hm
        · rw [if_neg ht] at hmem
          exact h.accepted t' m' hmem
      · cases hs
  | pushWork p =>
      simp only [WorkQueue.step] at hs
      split at hs
      · obtain rfl := Option.some.inj hs
        have hnext := h.producer_update p .outside (by simp) (by simp)
        exact ⟨hnext.called, hnext.pushed, h.accepted⟩
      · cases hs
  | popWork =>
      simp only [WorkQueue.step] at hs
      split at hs
      · obtain rfl := Option.some.inj hs
        exact ⟨h.called, h.pushed, h.accepted⟩
      · cases hs
  | terminate =>
      simp only [WorkQueue.step] at hs
      split at hs
      · obtain rfl := Option.some.inj hs
        exact ⟨h.called, h.pushed, h.accepted⟩
      · cases hs
  | peek =>
      simp only [WorkQueue.step] at hs
      split at hs
      · obtain rfl := Option.some.inj hs
        exact ⟨h.called, h.pushed, h.accepted⟩
      · cases hs
  | getMessage =>
      simp only [WorkQueue.step] at hs
      split at hs
      · split at hs
        · obtain rfl := Option.some.inj hs
          exact ⟨h.called, h.pushed, h.accepted⟩
        · obtain rfl := Option.some.inj hs
          exact ⟨h.called, h.pushed, h.accepted⟩
      · cases hs
  | forwarded =>
      simp only [WorkQueue.step] at hs
      split at hs
      · obtain rfl := Option.some.inj hs
        exact ⟨h.called, h.pushed, h.accepted⟩
      · cases hs

theorem Known.run {actions : List (Action τ π μ)} (h : Known P s)
    (hcall : ∀ a ∈ actions, ∀ p t m, a = .call p t m → P t m)
    (hrun : Transition.run WorkQueue.step actions s = some s') : Known P s' := by
  induction actions generalizing s with
  | nil =>
      obtain rfl := Option.some.inj hrun
      exact h
  | cons a rest ih =>
      obtain ⟨next, hstep, hrest⟩ := Option.bind_eq_some_iff.mp hrun
      exact ih (h.step (hcall a List.mem_cons_self) hstep)
        (fun b hb => hcall b (List.mem_cons_of_mem _ hb)) hrest

end WorkQueue

namespace Router

variable {ρ τ π : Type*} [DecidableEq τ] [DecidableEq π] {cfg : Config ρ τ} {s s' : State τ π}

/-! ## Steps -/

omit [DecidableEq τ] [DecidableEq π] in
/-- The message that goes to the queues is the packet, with more metadata. -/
theorem Reception.queued_copy {r : Reception τ} {copy : Message τ}
    (h : (r.queued cfg s).2.1 = some copy) :
    copy.source = some r.t ∧ copy.content = r.content := by
  simp only [queued, Tranceiver.queueIncomingMessage] at h
  split at h
  · cases h
  · obtain rfl := Option.some.inj h
    exact ⟨rfl, rfl⟩

/-- A call that puts a message of `t` into the queues of `t`. -/
def Sourced (a : WorkQueue.Action τ π (Message τ)) : Prop :=
  ∀ p t m, a = .call p t m → m.source = some t

/-- What a step can do to the queues and the histories: what the threads of the queues do, or
what `process` does. -/
theorem step_cases {a : Action τ π} (h : step cfg s a = some s') :
    (∃ actions, (∀ b ∈ actions, b ≠ .forwarded ∧ Sourced b) ∧
        Transition.run WorkQueue.step actions s.queues = some s'.queues ∧
        s'.handled = s.handled ∧ s'.puts = s.puts) ∨
      (∃ t m ok outcome, s.queues.consumer = .forwarding t m ∧
        WorkQueue.step s.queues .forwarded = some s'.queues ∧
        s'.handled = s.handled ++ [⟨t, m, ok⟩] ∧
        s'.puts = s.puts ++ (if ok then
          (Switchboard.putMessage (cfg.env outcome) cfg.sb t m true).1 else []).map (·, m)) := by
  have hqueue : ∀ b, b ≠ WorkQueue.Action.forwarded → (∀ p t m, b ≠ .call p t m) →
      onQueues s b = some s' →
        ∃ actions, (∀ b ∈ actions, b ≠ .forwarded ∧ Sourced b) ∧
          Transition.run WorkQueue.step actions s.queues = some s'.queues ∧
          s'.handled = s.handled ∧ s'.puts = s.puts := by
    intro b hforwarded hcall hb
    obtain ⟨queues, hstep, rfl⟩ := Option.map_eq_some_iff.mp hb
    refine ⟨[b], ?_, by rw [Transition.run, hstep]; rfl, rfl, rfl⟩
    intro b' hb'
    obtain rfl := List.mem_singleton.mp hb'
    exact ⟨hforwarded, fun p t m heq => absurd heq (hcall p t m)⟩
  have hseen : ∀ site event, onSeen cfg s site event = some s' →
      ∃ actions, (∀ b ∈ actions, b ≠ WorkQueue.Action.forwarded ∧ Sourced b) ∧
        Transition.run WorkQueue.step actions s.queues = some s'.queues ∧
        s'.handled = s.handled ∧ s'.puts = s.puts := by
    intro site event he
    obtain ⟨pars, -, he⟩ := Option.bind_eq_some_iff.mp he
    obtain ⟨counted, -, rfl⟩ := Option.map_eq_some_iff.mp he
    exact ⟨[], by simp, rfl, rfl, rfl⟩
  cases a with
  | receive p r =>
      left
      simp only [step, receive] at h
      rcases hqueued : r.queued cfg s with ⟨history, _ | copy, rc⟩
      · rw [hqueued] at h
        obtain ⟨queues, hrun, rfl⟩ := Option.map_eq_some_iff.mp h
        refine ⟨_, ?_, hrun, rfl, rfl⟩
        intro b hb
        rcases List.mem_pair.mp hb with rfl | rfl
        · refine ⟨by simp, ?_⟩
          intro p' t m heq
          obtain ⟨-, ht, hm⟩ := WorkQueue.Action.call.inj heq
          rw [← ht, ← hm]
        · exact ⟨by simp, by simp [Sourced]⟩
      · have hcopy : (r.queued cfg s).2.1 = some copy := by rw [hqueued]
        rw [hqueued] at h
        obtain ⟨queues, hstep, rfl⟩ := Option.map_eq_some_iff.mp h
        refine ⟨[.call p r.t copy], ?_, by rw [Transition.run, hstep]; rfl, rfl, rfl⟩
        intro b hb
        obtain rfl := List.mem_singleton.mp hb
        refine ⟨by simp, ?_⟩
        intro p' t m heq
        obtain ⟨-, ht, hm⟩ := WorkQueue.Action.call.inj heq
        rw [← ht, ← hm]
        exact (Reception.queued_copy hcopy).1
  | pushIncoming p => exact Or.inl (hqueue (.pushIncoming p) (by simp) (by simp) h)
  | pushWork p => exact Or.inl (hqueue (.pushWork p) (by simp) (by simp) h)
  | popWork => exact Or.inl (hqueue .popWork (by simp) (by simp) h)
  | terminate => exact Or.inl (hqueue .terminate (by simp) (by simp) h)
  | peek => exact Or.inl (hqueue .peek (by simp) (by simp) h)
  | getMessage => exact Or.inl (hqueue .getMessage (by simp) (by simp) h)
  | process nowTs outcome =>
      right
      simp only [step, process] at h
      split at h
      · rename_i t m hforwarding
        obtain ⟨queues, hstep, rfl⟩ := Option.map_eq_some_iff.mp h
        exact ⟨t, m, _, outcome, hforwarding, hstep, rfl, rfl⟩
      · cases h
  | checkSeen t call => exact Or.inl (hseen _ _ h)
  | evict site vector => exact Or.inl (hseen _ _ h)

/-! ## Following the work queue -/

theorem step_follows {a : Action τ π} (h : step cfg s a = some s') :
    ∃ actions, Transition.run WorkQueue.step actions s.queues = some s'.queues := by
  rcases step_cases h with ⟨actions, -, hrun, -⟩ | ⟨t, m, ok, outcome, -, hstep, -⟩
  · exact ⟨actions, hrun⟩
  · exact ⟨[.forwarded], by rw [Transition.run, hstep]; rfl⟩

/-- The states of any interleaving of the threads of the router. -/
def Reachable (cfg : Config ρ τ) (s : State τ π) : Prop :=
  Transition.Reachable (step cfg) State.initial s

theorem Reachable.queues (h : Reachable cfg s) : WorkQueue.Reachable s.queues :=
  Transition.Reachable.follow State.queues (fun _ _ _ => step_follows) h

/-! ## What was handled -/

/-- The messages of a tranceiver that `process` was done with. -/
def State.handledOf (s : State τ π) (t : τ) : List (Message τ) :=
  (s.handled.filter (·.from_ = t)).map Handled.m

/-- The attempts of the switchboard for the messages it was given. -/
def attemptsOf (cfg : Config ρ τ) (handled : List (Handled τ)) : List (τ × Message τ) :=
  handled.flatMap fun h =>
    if h.ok then
      (Switchboard.targetSequence (cfg.env fun _ _ => .ok) h.m cfg.sb h.from_).map (·, h.m)
    else []

/-- The histories of `process` against those of the queues. -/
structure Ledger (cfg : Config ρ τ) (s : State τ π) : Prop where
  taken : ∀ t, s.handledOf t ++ s.queues.consumer.inHand t = s.queues.taken t
  puts : s.puts = attemptsOf cfg s.handled

theorem Ledger.step {a : Action τ π} (h : Ledger cfg s) (hs : Router.step cfg s a = some s') :
    Ledger cfg s' := by
  rcases step_cases hs with ⟨actions, hactions, hrun, hhandled, hputs⟩ |
    ⟨t, m, ok, outcome, hforwarding, hstep, hhandled, hputs⟩
  · refine ⟨?_, by rw [hputs, hhandled, h.puts]⟩
    intro t
    obtain ⟨new, htaken, hhand⟩ := WorkQueue.taken_run hrun (fun b hb => (hactions b hb).1) t
    rw [State.handledOf, hhandled, hhand, htaken, ← h.taken t, State.handledOf, List.append_assoc]
  · have hdone : s'.queues.taken = s.queues.taken ∧ s'.queues.consumer = .waiting := by
      rw [WorkQueue.step, hforwarding] at hstep
      obtain hq := Option.some.inj hstep
      rw [← hq]
      exact ⟨rfl, rfl⟩
    refine ⟨?_, ?_⟩
    · intro t'
      rw [hdone.1, hdone.2, ← h.taken t', hforwarding, State.handledOf, hhandled,
        List.filter_append, List.map_append, ← State.handledOf, List.append_assoc]
      congr 1
      by_cases ht : t = t'
      · simp [WorkQueue.Consumer.inHand, ht]
      · simp [WorkQueue.Consumer.inHand, ht]
    · rw [hputs, hhandled, attemptsOf, List.flatMap_append, ← attemptsOf, h.puts,
        List.flatMap_singleton]
      cases ok with
      | false => rfl
      | true =>
          rw [if_pos rfl, if_pos rfl, Switchboard.putMessage_attempts]
          rfl

theorem Reachable.ledger (h : Reachable cfg s) : Ledger cfg s :=
  Transition.Reachable.invariant h ⟨fun _ => rfl, rfl⟩ fun _ _ _ hl hs => hl.step hs

/-- The source of a queued message is the tranceiver of the queue. -/
theorem Reachable.sourced (h : Reachable cfg s) :
    WorkQueue.Known (fun t m => m.source = some t) s.queues := by
  refine Transition.Reachable.invariant
    (P := fun s => WorkQueue.Known (fun t m => m.source = some t) s.queues) h ?_ ?_
  · refine ⟨?_, ?_, fun t m hm => absurd hm List.not_mem_nil⟩
    · simp [State.initial, WorkQueue.State.initial]
    · simp [State.initial, WorkQueue.State.initial]
  intro s s' a hknown hs
  rcases step_cases hs with ⟨actions, hactions, hrun, -⟩ | ⟨t, m, ok, outcome, -, hstep, -⟩
  · exact hknown.run (fun b hb => (hactions b hb).2) hrun
  · refine hknown.step ?_ hstep
    intro p t m heq
    cases heq

/-! ## The system -/

/-- What any interleaving of the threads guarantees about the messages. -/
structure ExactlyOnce (cfg : Config ρ τ) (s : State τ π) : Prop where
  noFailure : ∀ t, s.queues.consumer ≠ .assertFailed t ∧
    s.queues.consumer ≠ .badOptionalAccess t
  inOrder : ∀ t, s.handledOf t ++ s.queues.consumer.inHand t ++ s.queues.incoming t =
    s.queues.accepted t
  okAccepted : ∀ t, (s.queues.confirmed t : Multiset (Message τ)) ≤ s.queues.accepted t
  source : ∀ t, ∀ m ∈ s.queues.accepted t, m.source = some t
  puts : s.puts = attemptsOf cfg s.handled

/-- Every message that a tranceiver accepted is handled once, in its turn, or waits for it; and
the switchboard attempts the targets of the handled messages and no others. -/
theorem exactlyOnce [Fintype π] (h : Reachable cfg s) : ExactlyOnce cfg s := by
  have hbalanced := h.queues.balanced
  refine ⟨hbalanced.noFailure, ?_, ?_, h.sourced.accepted, h.ledger.puts⟩
  · intro t
    rw [h.ledger.taken, hbalanced.fifo]
  · intro t
    rw [hbalanced.confirmed t]
    exact Multiset.le_add_right _ _

/-- Whatever tranceiver 0 accepts goes to tranceiver 1, a copy each ten seconds. -/
def sampleConfig : Config Unit ℕ where
  seen
    | .tranceiver _ => none
    | .main => some ⟨1, 10, 100⟩
  sb := Switchboard.configured [.bridge 0 1 none]
  regexec _ _ := REG_NOMATCH
  executeFilter _ _ _ := true

def sampleReception : Reception ℕ := ⟨0, [1, 2, 3], ∅, fun _ => 0, fun _ _ => none, 100⟩

/-- Two threads bring the same packet, and the main thread is done with the first one. -/
def sampleActions : List (Action ℕ Bool) :=
  [.receive false sampleReception, .receive true sampleReception, .pushIncoming true,
    .pushWork true, .popWork, .pushIncoming false, .peek, .getMessage,
    .process 100 fun _ _ => .hardware, .pushWork false]

def sampleState : State ℕ Bool :=
  (Transition.run (step sampleConfig) sampleActions .initial).getD .initial

theorem reachable_sampleState : Reachable sampleConfig sampleState :=
  Transition.Reachable.of_run sampleActions .start rfl

theorem exactlyOnce_sampleState :
    sampleState.handled.length = 1 ∧ ExactlyOnce sampleConfig sampleState :=
  ⟨rfl, exactlyOnce reachable_sampleState⟩

/-! ## Delivery -/

theorem Reachable.handled_accepted [Fintype π] (h : Reachable cfg s) {e : Handled τ}
    (he : e ∈ s.handled) : e.m ∈ s.queues.accepted e.from_ := by
  rw [← h.queues.balanced.fifo, ← h.ledger.taken, List.append_assoc]
  refine List.mem_append_left _ (List.mem_map.mpr ⟨e, ?_, rfl⟩)
  exact List.mem_filter.mpr ⟨he, by simp⟩

omit [DecidableEq π] in
theorem mem_attemptsOf {calls : List (Switchboard.Registration ρ τ)}
    (hsb : cfg.sb = Switchboard.configured calls) (handled : List (Handled τ)) (x : τ)
    (m : Message τ) :
    (x, m) ∈ attemptsOf cfg handled ↔ ∃ e ∈ handled, e.ok = true ∧ e.m = m ∧
      ((∃ g, Switchboard.firstFilter calls e.from_ = some g ∧
          Switchboard.FilterPasses (cfg.env fun _ _ => .ok) g m ∧
          (x, g) ∈ Switchboard.bridgesOf calls e.from_) ∨
        Switchboard.Routed (cfg.env fun _ _ => .ok) calls m x) := by
  have hone : ∀ e : Handled τ, (x, m) ∈ (if e.ok then
      (Switchboard.targetSequence (cfg.env fun _ _ => .ok) e.m cfg.sb e.from_).map (·, e.m)
        else []) ↔ e.ok = true ∧ e.m = m ∧
          x ∈ Switchboard.targetSequence (cfg.env fun _ _ => .ok) m cfg.sb e.from_ := by
    intro e
    cases hok : e.ok with
    | false => simp
    | true =>
        simp only [if_true, List.mem_map, Prod.mk.injEq, true_and]
        constructor
        · rintro ⟨y, hy, rfl, rfl⟩
          exact ⟨rfl, hy⟩
        · rintro ⟨rfl, hx⟩
          exact ⟨x, hx, rfl, rfl⟩
  rw [attemptsOf, List.mem_flatMap]
  refine exists_congr fun e => and_congr_right fun _ => ?_
  rw [hone, ← Switchboard.putMessage_attempts, hsb, Switchboard.mem_attempts_iff]

section Requests

variable [Fintype π] {calls : List (Switchboard.Registration ρ τ)} (h : Reachable cfg s)
  (hsb : cfg.sb = Switchboard.configured calls)

include h hsb

theorem Reachable.requested_of_put {x : τ} {m : Message τ} (hput : (x, m) ∈ s.puts) :
    ∃ t, m ∈ s.queues.accepted t ∧ m.source = some t ∧
      Switchboard.Requested (cfg.env fun _ _ => .ok) calls t m x := by
  rw [h.ledger.puts, mem_attemptsOf hsb] at hput
  obtain ⟨e, he, -, rfl, hreached⟩ := hput
  have haccepted := h.handled_accepted he
  refine ⟨e.from_, haccepted, h.sourced.accepted _ _ haccepted, ?_⟩
  rcases hreached with ⟨g, -, hpass, hmem⟩ | hroute
  · obtain ⟨hcall, hne⟩ := (Switchboard.mem_bridgesOf calls e.from_ x g).mp hmem
    exact Or.inl ⟨g, hcall, hne, hpass⟩
  · exact Or.inr hroute

omit [Fintype π] in
theorem Reachable.put_of_requested {e : Handled τ} (he : e ∈ s.handled) (hok : e.ok = true)
    (hnothing : Switchboard.NothingLost (cfg.env fun _ _ => .ok) calls e.from_ e.m) {x : τ}
    (hrequested : Switchboard.Requested (cfg.env fun _ _ => .ok) calls e.from_ e.m x) :
    (x, e.m) ∈ s.puts := by
  rw [h.ledger.puts, mem_attemptsOf hsb]
  refine ⟨e, he, hok, rfl, ?_⟩
  rcases hrequested with ⟨f, hcall, hne, hpass⟩ | hroute
  · have hmem := (Switchboard.mem_bridgesOf calls e.from_ x f).mpr ⟨hcall, hne⟩
    rcases hnothing x f hmem hpass with hfirst | hserved
    · exact Or.inl ⟨f, hfirst, hpass, hmem⟩
    · exact hserved
  · exact Or.inr hroute

end Requests

/-- What the switchboard of a configuration puts out: only what the configuration requests of
an accepted message, and for a handled message that loses nothing all of it. -/
structure Delivers (cfg : Config ρ τ) (calls : List (Switchboard.Registration ρ τ))
    (s : State τ π) : Prop where
  requested : ∀ put ∈ s.puts, ∃ t, put.2 ∈ s.queues.accepted t ∧ put.2.source = some t ∧
    Switchboard.Requested (cfg.env fun _ _ => .ok) calls t put.2 put.1
  complete : ∀ e ∈ s.handled, e.ok = true →
    Switchboard.NothingLost (cfg.env fun _ _ => .ok) calls e.from_ e.m →
      ∀ x, Switchboard.Requested (cfg.env fun _ _ => .ok) calls e.from_ e.m x →
        (x, e.m) ∈ s.puts

end Router

end HamRouter
