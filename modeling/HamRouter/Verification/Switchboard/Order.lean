import HamRouter.Verification.Switchboard.Tables

/-! # The two loops of `put_message` as one sequence of attempts -/

namespace HamRouter.Switchboard

variable {ρ τ : Type*} (env : Env ρ τ) (continueOnError : Bool)

/-! ## The loop over the targets of one mapping -/

/-- The loop goes through one list of targets and then, if it has not returned, through
another. -/
theorem putTargets_append (front back attempts : List τ) :
    putTargets env continueOnError (front ++ back) attempts =
      match putTargets env continueOnError front attempts with
      | (attempted, some rc) => (attempted, some rc)
      | (attempted, none) => putTargets env continueOnError back attempted := by
  induction front generalizing attempts with
  | nil => rfl
  | cons t front ih =>
      rw [List.cons_append, putTargets, putTargets]
      split
      · rfl
      · exact ih (attempts ++ [t])

theorem putTargets_of_none {targets attempts : List τ}
    (h : (putTargets env continueOnError targets attempts).2 = none) :
    putTargets env continueOnError targets attempts = (attempts ++ targets, none) := by
  induction targets generalizing attempts with
  | nil => simp [putTargets]
  | cons t rest ih =>
      rw [putTargets] at h ⊢
      split at h
      · exact absurd h (Option.some_ne_none _)
      · rename_i hgo
        rw [if_neg hgo, ih h, List.append_assoc, List.singleton_append]

theorem putTargets_continue (targets attempts : List τ) :
    putTargets env true targets attempts = (attempts ++ targets, none) := by
  refine putTargets_of_none env true ?_
  induction targets generalizing attempts with
  | nil => rfl
  | cons t rest ih => simpa [putTargets] using ih (attempts ++ [t])

/-- No attempt fails, each made behind those in front of it. -/
def AllOk (targets : List τ) : Prop :=
  ∀ front t back, targets = front ++ t :: back → env.putMessage front t = .ok

/-- As long as no attempt fails, the loop goes on. -/
theorem putTargets_of_allOk (targets : List τ) (h : AllOk env targets) :
    putTargets env continueOnError targets [] = (targets, none) := by
  induction targets using List.reverseRecOn with
  | nil => rfl
  | append_singleton targets t ih =>
      have hfront : AllOk env targets := by
        intro front u back hsplit
        exact h front u (back ++ [t]) (by rw [hsplit, List.append_assoc, List.cons_append])
      have hlast : env.putMessage targets t = .ok := h targets t [] rfl
      rw [putTargets_append, ih hfront]
      simp [putTargets, hlast]

/-- Without `continue_on_error` the first failed attempt ends the loop. -/
theorem putTargets_of_failed (front back : List τ) (t : τ) (hfront : AllOk env front)
    (ht : env.putMessage front t ≠ .ok) :
    putTargets env false (front ++ t :: back) [] = (front ++ [t], some (env.putMessage front t)) := by
  rw [putTargets_append, putTargets_of_allOk env false front hfront]
  simp [putTargets, ht]

/-! ## The loops over the mappings -/

/-- The attempts so far and the code of an early return. -/
def Progress.state (p : Progress τ) : List τ × Option TransmitError := (p.attempts, p.returned)

/-- More targets are attempted, unless the loop has returned. -/
def goOn (state : List τ × Option TransmitError) (targets : List τ) :
    List τ × Option TransmitError :=
  match state with
  | (attempted, some rc) => (attempted, some rc)
  | (attempted, none) => putTargets env continueOnError targets attempted

theorem goOn_nil (state : List τ × Option TransmitError) :
    goOn env continueOnError state [] = state := by
  rcases state with ⟨attempted, returned⟩
  cases returned <;> rfl

theorem goOn_append (state : List τ × Option TransmitError) (front back : List τ) :
    goOn env continueOnError state (front ++ back) =
      goOn env continueOnError (goOn env continueOnError state front) back := by
  rcases state with ⟨attempted, returned⟩
  cases returned with
  | some rc => rfl
  | none => exact putTargets_append env continueOnError front back attempted

/-- A loop whose steps attempt the targets of their mappings attempts the targets of all
mappings, one behind the other. -/
theorem state_foldl {μ : Type*} (step : Progress τ → μ → Progress τ) (targets : μ → List τ)
    (hstep : ∀ p x, (step p x).state = goOn env continueOnError p.state (targets x))
    (mappings : List μ) (p : Progress τ) :
    (mappings.foldl step p).state =
      goOn env continueOnError p.state (mappings.flatMap targets) := by
  induction mappings generalizing p with
  | nil => exact (goOn_nil env continueOnError p.state).symm
  | cons x rest ih =>
      rw [List.foldl_cons, ih, hstep, List.flatMap_cons, goOn_append]

/-- `forwarded` tells whether anything was attempted. -/
def Progress.Told (p : Progress τ) : Prop :=
  p.returned = none → (p.forwarded = true ↔ p.attempts ≠ [])

theorem told_foldl {μ : Type*} (step : Progress τ → μ → Progress τ) (mappings : List μ)
    (hstep : ∀ x ∈ mappings, ∀ p : Progress τ, p.Told → (step p x).Told) (p : Progress τ)
    (h : p.Told) : (mappings.foldl step p).Told := by
  induction mappings generalizing p with
  | nil => exact h
  | cons x rest ih =>
      rw [List.foldl_cons]
      refine ih (fun y hy => hstep y (by simp [hy])) _ ?_
      exact hstep x (by simp) p h

/-! ## One mapping -/

/-- What both loops do with a mapping. -/
def mappingStep (matched : Bool) (targets : List τ) (forwarded : Bool) (p : Progress τ) :
    Progress τ :=
  if p.returned.isSome then p
  else if matched then
    match putTargets env continueOnError targets p.attempts with
    | (attempts, some rc) => ⟨attempts, p.forwarded, some rc⟩
    | (attempts, none) => ⟨attempts, forwarded, none⟩
  else p

theorem state_mappingStep (matched : Bool) (targets : List τ) (forwarded : Bool)
    (p : Progress τ) :
    (mappingStep env continueOnError matched targets forwarded p).state =
      goOn env continueOnError p.state (if matched then targets else []) := by
  obtain ⟨attempts, before, returned⟩ := p
  cases returned with
  | some rc => rfl
  | none =>
      cases matched with
      | false => rfl
      | true =>
          simp only [mappingStep, Progress.state, goOn, if_true]
          rcases hput : putTargets env continueOnError targets attempts with ⟨attempted, _ | rc⟩
          · simp
          · simp

theorem told_mappingStep (matched : Bool) (targets : List τ) {forwarded : Bool}
    {p : Progress τ} (h : p.Told)
    (hforwarded : forwarded = true ↔ p.forwarded = true ∨ targets ≠ []) :
    (mappingStep env continueOnError matched targets forwarded p).Told := by
  rw [mappingStep]
  split
  · exact h
  · rename_i hgoing
    split
    · rcases hput : putTargets env continueOnError targets p.attempts with ⟨attempted, _ | rc⟩
      · intro _
        have hall := putTargets_of_none env continueOnError (congrArg Prod.snd hput)
        rw [hput] at hall
        obtain rfl := congrArg Prod.fst hall
        have hbefore := h (by simpa using hgoing)
        change forwarded = true ↔ p.attempts ++ targets ≠ []
        rw [hforwarded, hbefore, ne_eq, ne_eq, ne_eq, List.append_eq_nil_iff, not_and_or]
      · intro hreturned
        exact absurd hreturned (Option.some_ne_none rc)
    · exact h

/-! ## Bridges -/

variable (m : Message τ)

/-- The targets one bridge mapping contributes. -/
def bridgeTargets (mapping : BridgeMapping τ) : List τ :=
  if accepts env mapping.f m then mapping.t else []

theorem bridgeStep_eq (p : Progress τ) (mapping : BridgeMapping τ) :
    bridgeStep env continueOnError m p mapping =
      mappingStep env continueOnError (accepts env mapping.f m) mapping.t true p :=
  rfl

theorem state_bridgeStep (p : Progress τ) (mapping : BridgeMapping τ) :
    (bridgeStep env continueOnError m p mapping).state =
      goOn env continueOnError p.state (bridgeTargets env m mapping) := by
  rw [bridgeStep_eq, state_mappingStep, bridgeTargets]

theorem told_bridgeStep (p : Progress τ) (mapping : BridgeMapping τ) (hne : mapping.t ≠ [])
    (h : p.Told) : (bridgeStep env continueOnError m p mapping).Told := by
  rw [bridgeStep_eq]
  exact told_mappingStep env continueOnError _ _ h (iff_of_true rfl (Or.inr hne))

/-! ## Routes -/

section Routes

variable [DecidableEq τ]

/-- The targets one routing mapping contributes. -/
def routeTargets (r : RoutingMapping ρ τ) : List τ :=
  if routeMatches env r m then r.tOutgoingVia else []

theorem routeStep_eq (p : Progress τ) (r : RoutingMapping ρ τ) :
    routeStep env continueOnError m p r =
      mappingStep env continueOnError (routeMatches env r m) r.tOutgoingVia
        (p.forwarded || !r.tOutgoingVia.isEmpty) p :=
  rfl

theorem state_routeStep (p : Progress τ) (r : RoutingMapping ρ τ) :
    (routeStep env continueOnError m p r).state =
      goOn env continueOnError p.state (routeTargets env m r) := by
  rw [routeStep_eq, state_mappingStep, routeTargets]

theorem told_routeStep (p : Progress τ) (r : RoutingMapping ρ τ) (h : p.Told) :
    (routeStep env continueOnError m p r).Told := by
  rw [routeStep_eq]
  refine told_mappingStep env continueOnError _ _ h ?_
  simp

/-! ## The whole call -/

variable (sb : Tables ρ τ) (input : τ)

/-- The targets of all matching mappings, in table order, bridges before routes. -/
def targetSequence : List τ :=
  ((sb.bridgeMap.lookup input).getD []).flatMap (bridgeTargets env m) ++
    sb.routingMap.flatMap (routeTargets env m)

/-- Where both loops lead to. -/
def bothLoops : Progress τ :=
  sb.routingMap.foldl (routeStep env continueOnError m)
    (((sb.bridgeMap.lookup input).getD []).foldl (bridgeStep env continueOnError m)
      ⟨[], false, none⟩)

theorem putMessage_bothLoops :
    putMessage env sb input m continueOnError =
      match (bothLoops env continueOnError m sb input).returned with
      | some rc => ((bothLoops env continueOnError m sb input).attempts, rc)
      | none => ((bothLoops env continueOnError m sb input).attempts,
          if (bothLoops env continueOnError m sb input).forwarded then .ok else .filter) := by
  unfold putMessage bothLoops
  cases sb.bridgeMap.lookup input <;> rfl

theorem state_bothLoops :
    (bothLoops env continueOnError m sb input).state =
      putTargets env continueOnError (targetSequence env m sb input) [] := by
  rw [bothLoops, state_foldl env continueOnError _ _ (state_routeStep env continueOnError m),
    state_foldl env continueOnError _ _ (state_bridgeStep env continueOnError m), ← goOn_append]
  rfl

theorem told_bothLoops
    (hne : ∀ mapping ∈ (sb.bridgeMap.lookup input).getD [], mapping.t ≠ []) :
    (bothLoops env continueOnError m sb input).Told := by
  refine told_foldl _ _ (fun r _ p => told_routeStep env continueOnError m p r) _ ?_
  refine told_foldl _ _ (fun x hx p => told_bridgeStep env continueOnError m p x (hne x hx)) _ ?_
  intro _
  simp

/-- `put_message` makes one sequence of attempts, and its code tells how the sequence
ended. -/
theorem putMessage_eq
    (hne : ∀ mapping ∈ (sb.bridgeMap.lookup input).getD [], mapping.t ≠ []) :
    putMessage env sb input m continueOnError =
      match putTargets env continueOnError (targetSequence env m sb input) [] with
      | (attempted, some rc) => (attempted, rc)
      | (attempted, none) => (attempted, if attempted = [] then .filter else .ok) := by
  rw [putMessage_bothLoops, ← state_bothLoops, Progress.state]
  cases hreturned : (bothLoops env continueOnError m sb input).returned with
  | some rc => rfl
  | none =>
      have hforwarded := told_bothLoops env continueOnError m sb input hne hreturned
      by_cases hnone : (bothLoops env continueOnError m sb input).attempts = []
      · simp [hnone, hforwarded]
      · simp [hnone, hforwarded]

/-- The call is one sequence of attempts: with `continue_on_error` of all targets whatever
the attempts return, without it up to the first one that fails. -/
structure ActsAsSequence : Prop where
  continued : putMessage env sb input m true =
    (targetSequence env m sb input,
      if targetSequence env m sb input = [] then .filter else .ok)
  succeeded : AllOk env (targetSequence env m sb input) →
    putMessage env sb input m false =
      (targetSequence env m sb input,
        if targetSequence env m sb input = [] then .filter else .ok)
  failed : ∀ front t back, targetSequence env m sb input = front ++ t :: back →
    AllOk env front → env.putMessage front t ≠ .ok →
      putMessage env sb input m false = (front ++ [t], env.putMessage front t)

/-- No bridge mapping of a configured switchboard is without a target. -/
theorem targets_ne_nil (calls : List (Registration ρ τ)) :
    ∀ mapping ∈ ((configured calls).bridgeMap.lookup input).getD [], mapping.t ≠ [] := by
  rw [lookup_configured]
  cases bridgesOf calls input with
  | nil => simp [tableEntry]
  | cons first rest =>
      intro mapping hmapping
      obtain rfl := List.mem_singleton.mp hmapping
      exact List.cons_ne_nil _ _

theorem actsAsSequence (calls : List (Registration ρ τ)) :
    ActsAsSequence env m (configured calls) input := by
  have heq := fun goesOn =>
    putMessage_eq env goesOn m (configured calls) input (targets_ne_nil input calls)
  refine ⟨?_, ?_, ?_⟩
  · rw [heq, putTargets_continue, List.nil_append]
  · intro hall
    rw [heq, putTargets_of_allOk env false _ hall]
  · intro front t back hsplit hfront ht
    rw [heq, hsplit, putTargets_of_failed env front back t hfront ht]

end Routes

end HamRouter.Switchboard
