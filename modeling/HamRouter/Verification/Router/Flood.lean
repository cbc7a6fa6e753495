import HamRouter.Verification.Router.Handled
import HamRouter.Verification.Seen.Evicted

/-! # What the global repetition filter does for the router

However the tranceivers are connected outside, and whatever the threads do in between, the
copies of a packet that go out again are as few as the filter says. -/

namespace HamRouter.Router

variable {ρ τ π : Type*} [DecidableEq τ] [DecidableEq π] {cfg : Config ρ τ} {s s' : State τ π}

/-! ## The filter along a run -/

/-- The readings of the clock by `process`. -/
def clock (actions : List (Action τ π)) : List ℚ :=
  actions.filterMap fun
    | .process nowTs _ => some nowTs
    | _ => none

/-- The messages with this checksum that the switchboard was given. -/
def forwarded (hash : UInt32) (handled : List (Handled τ)) : ℕ :=
  handled.countP fun h => h.ok && calcCrc32 h.m.content = hash

omit [DecidableEq τ] in
theorem forwarded_snoc (hash : UInt32) (handled : List (Handled τ)) (h : Handled τ) :
    forwarded hash (handled ++ [h]) = forwarded hash handled +
      if h.ok = true ∧ calcCrc32 h.m.content = hash then 1 else 0 := by
  rw [forwarded, List.countP_append, List.countP_singleton]
  simp [forwarded]

/-- What a step does to the filter of the main thread: nothing but its own events, and a check
for each message handled. -/
theorem step_main {pars : SeenPars} (hfilter : cfg.seen .main = some pars) {a : Action τ π}
    (h : step cfg s a = some s') :
    ∃ events new, Transition.run (Seen.step pars) events (s.seen .main) = some (s'.seen .main) ∧
      (∀ hash, (Seen.readings hash events).Sublist (clock [a])) ∧
      s'.handled = s.handled ++ new ∧
      ∀ hash, (s'.seen .main).accepted hash = (s.seen .main).accepted hash + forwarded hash new := by
  have hnothing : s'.seen .main = s.seen .main → s'.handled = s.handled →
      ∃ events new, Transition.run (Seen.step pars) events (s.seen .main) =
          some (s'.seen .main) ∧
        (∀ hash, (Seen.readings hash events).Sublist (clock [a])) ∧
        s'.handled = s.handled ++ new ∧
        ∀ hash, (s'.seen .main).accepted hash =
          (s.seen .main).accepted hash + forwarded hash new := by
    intro hseen hhandled
    refine ⟨[], [], by rw [hseen]; rfl, fun _ => List.nil_sublist _, ?_, ?_⟩
    · rw [hhandled, List.append_nil]
    · intro hash
      rw [hseen]
      rfl
  have hqueue : ∀ b, onQueues s b = some s' → s'.seen = s.seen ∧ s'.handled = s.handled := by
    intro b hb
    obtain ⟨queues, -, rfl⟩ := Option.map_eq_some_iff.mp hb
    exact ⟨rfl, rfl⟩
  have hothers : ∀ t counted, Function.update s.seen (.tranceiver t) counted .main =
      s.seen .main := by
    intro t counted
    have hne : Site.main ≠ Site.tranceiver t := by simp
    rw [Function.update_of_ne hne]
  cases a with
  | receive p r =>
      simp only [step, receive] at h
      rcases hqueued : r.queued cfg s with ⟨history, _ | copy, rc⟩
      · rw [hqueued] at h
        obtain ⟨queues, -, rfl⟩ := Option.map_eq_some_iff.mp h
        exact hnothing (by dsimp only; exact hothers _ _) rfl
      · rw [hqueued] at h
        obtain ⟨queues, -, rfl⟩ := Option.map_eq_some_iff.mp h
        exact hnothing (by dsimp only; exact hothers _ _) rfl
  | pushIncoming p => exact hnothing (by rw [(hqueue _ h).1]) (hqueue _ h).2
  | pushWork p => exact hnothing (by rw [(hqueue _ h).1]) (hqueue _ h).2
  | popWork => exact hnothing (by rw [(hqueue _ h).1]) (hqueue _ h).2
  | terminate => exact hnothing (by rw [(hqueue _ h).1]) (hqueue _ h).2
  | peek => exact hnothing (by rw [(hqueue _ h).1]) (hqueue _ h).2
  | getMessage => exact hnothing (by rw [(hqueue _ h).1]) (hqueue _ h).2
  | process nowTs outcome =>
      simp only [step, process] at h
      split at h
      · rename_i t m hforwarding
        simp only [check, hfilter] at h
        obtain ⟨queues, -, rfl⟩ := Option.map_eq_some_iff.mp h
        refine ⟨[.check ⟨m.content, nowTs⟩],
          [⟨t, m, ((s.seen .main).check pars ⟨m.content, nowTs⟩).2.1⟩], ?_, ?_, rfl, ?_⟩
        · dsimp only
          rw [Function.update_self]
          rfl
        · intro hash
          by_cases hhash : calcCrc32 m.content = hash
          · simp [Seen.readings, clock, hhash]
          · simp [Seen.readings, hhash]
        · intro hash
          have haccepted := Seen.accepted_check pars hash (s.seen .main) ⟨m.content, nowTs⟩
          have hone := forwarded_snoc hash []
            ⟨t, m, ((s.seen .main).check pars ⟨m.content, nowTs⟩).2.1⟩
          dsimp only
          rw [Function.update_self, haccepted, ← List.nil_append [_], hone]
          simp [forwarded, and_comm]
      · cases h
  | checkSeen t call =>
      obtain ⟨pars', -, h⟩ := Option.bind_eq_some_iff.mp h
      obtain ⟨counted, -, rfl⟩ := Option.map_eq_some_iff.mp h
      exact hnothing (by dsimp only; exact hothers _ _) rfl
  | evict site vector =>
      obtain ⟨pars', hpars, h⟩ := Option.bind_eq_some_iff.mp h
      obtain ⟨counted, hstep, rfl⟩ := Option.map_eq_some_iff.mp h
      cases site with
      | tranceiver t => exact hnothing (by dsimp only; exact hothers _ _) rfl
      | main =>
          obtain rfl := Option.some.inj (hfilter.symm.trans hpars)
          refine ⟨[.evict vector], [], ?_, fun _ => List.nil_sublist _,
            (List.append_nil _).symm, ?_⟩
          · dsimp only
            rw [Transition.run, hstep, Function.update_self]
            rfl
          · intro hash
            obtain ⟨left, -, rfl⟩ := Option.map_eq_some_iff.mp hstep
            dsimp only
            rw [Function.update_self]
            rfl

theorem run_main {pars : SeenPars} (hfilter : cfg.seen .main = some pars)
    {actions : List (Action τ π)} (h : Transition.run (step cfg) actions s = some s') :
    ∃ events new, Transition.run (Seen.step pars) events (s.seen .main) = some (s'.seen .main) ∧
      (∀ hash, (Seen.readings hash events).Sublist (clock actions)) ∧
      s'.handled = s.handled ++ new ∧
      ∀ hash, (s'.seen .main).accepted hash = (s.seen .main).accepted hash + forwarded hash new := by
  induction actions generalizing s with
  | nil =>
      obtain rfl := Option.some.inj h
      exact ⟨[], [], rfl, fun _ => List.nil_sublist _, (List.append_nil _).symm, fun _ => rfl⟩
  | cons a rest ih =>
      obtain ⟨next, hstep, hrest⟩ := Option.bind_eq_some_iff.mp h
      obtain ⟨front, new, hfront, hread, hhandled, haccepted⟩ := step_main hfilter hstep
      obtain ⟨back, more, hback, hreads, hhandled', haccepted'⟩ := ih hrest
      refine ⟨front ++ back, new ++ more, ?_, ?_, ?_, ?_⟩
      · rw [Transition.run_append, hfront]
        exact hback
      · intro hash
        have hclock : clock (a :: rest) = clock [a] ++ clock rest := by
          rw [clock, ← List.singleton_append, List.filterMap_append]
          rfl
        rw [Seen.readings_append, hclock]
        exact (hread hash).append (hreads hash)
      · rw [hhandled', hhandled, List.append_assoc]
      · intro hash
        rw [haccepted', haccepted, forwarded, forwarded, forwarded, List.countP_append,
          Nat.add_assoc]

/-! ## Attempts -/

/-- The attempts to put a message with this checksum into `x`. -/
def attempted (x : τ) (hash : UInt32) (puts : List (τ × Message τ)) : ℕ :=
  puts.countP fun put => put.1 = x ∧ calcCrc32 put.2.content = hash

theorem attempted_le {x : τ} {hash : UInt32} {n : ℕ}
    (hn : ∀ t m, (Switchboard.targetSequence (cfg.env fun _ _ => .ok) m cfg.sb t).count x ≤ n)
    (handled : List (Handled τ)) :
    attempted x hash (attemptsOf cfg handled) ≤ n * forwarded hash handled := by
  induction handled with
  | nil => exact Nat.zero_le _
  | cons h rest ih =>
      rw [attemptsOf, List.flatMap_cons, ← attemptsOf, attempted, List.countP_append, ← attempted,
        forwarded, List.countP_cons, ← forwarded, Nat.mul_add, Nat.add_comm]
      refine Nat.add_le_add ih ?_
      cases hok : h.ok with
      | false => exact Nat.zero_le _
      | true =>
          rw [if_pos rfl, attempted, List.countP_map]
          by_cases hhash : calcCrc32 h.m.content = hash
          · have hcount := hn h.from_ h.m
            simpa [Function.comp_def, hhash, List.count, beq_eq_decide] using hcount
          · simp [Function.comp_def, hhash]

theorem count_targets_sampleConfig (t : ℕ) (m : Message ℕ) :
    (Switchboard.targetSequence (sampleConfig.env fun _ _ => .ok) m sampleConfig.sb t).count 1 ≤
      1 := by
  have htargets : Switchboard.targetSequence (sampleConfig.env fun _ _ => .ok) m
      sampleConfig.sb t = if t = 0 then [1] else [] := by
    by_cases ht : t = 0
    · subst ht
      rfl
    · rw [if_neg ht, Switchboard.targetSequence, sampleConfig, Switchboard.lookup_configured]
      simp [Switchboard.bridgesOf, Switchboard.tableEntry, Ne.symm ht,
        Switchboard.routingMap_configured, Switchboard.routesOf]
  rw [htargets]
  split
  · exact Nat.le_refl 1
  · exact Nat.zero_le 1

end HamRouter.Router
