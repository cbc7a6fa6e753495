import HamRouter.Verification.Switchboard.Order

/-! # Which tranceivers a message reaches

With `continue_on_error` the two loops of `put_message` attempt every target of every
mapping that matches. Which mappings exist is the matter of the tables. -/

namespace HamRouter.Switchboard

variable {ρ τ : Type*}

variable [DecidableEq τ]

/-- With `continue_on_error` the attempts are the targets of the accepting bridge
mappings followed by those of the matching routing mappings. -/
theorem putMessage_attempts (env : Env ρ τ) (sb : Tables ρ τ) (input : τ) (m : Message τ) :
    (putMessage env sb input m true).1 = targetSequence env m sb input := by
  have hstate := state_bothLoops env true m sb input
  rw [putTargets_continue, List.nil_append] at hstate
  have hattempts : (bothLoops env true m sb input).attempts = targetSequence env m sb input :=
    congrArg Prod.fst hstate
  rw [putMessage_bothLoops, ← hattempts]
  cases (bothLoops env true m sb input).returned <;> rfl

/-! ## Delivery after a sequence of registrations -/

/-- The bridge table delivers through the first filter of the input and no other. -/
theorem mem_bridge_attempts (env : Env ρ τ) (calls : List (Registration ρ τ)) (input : τ)
    (m : Message τ) (t : τ) :
    t ∈ (((configured calls).bridgeMap.lookup input).getD []).flatMap (bridgeTargets env m) ↔
      ∃ g, firstFilter calls input = some g ∧ FilterPasses env g m ∧
        (t, g) ∈ bridgesOf calls input := by
  rw [lookup_configured]
  unfold firstFilter
  cases hb : bridgesOf calls input with
  | nil => simp [tableEntry]
  | cons first rest =>
      obtain ⟨out, f⟩ := first
      simp only [tableEntry, Option.getD_some, List.flatMap_cons, List.flatMap_nil,
        List.append_nil, bridgeTargets, List.mem_ite_nil_right, accepts_iff,
        List.head?_cons, Option.map_some, Option.some.injEq]
      constructor
      · intro h
        rcases h with ⟨hpass, ht⟩
        refine ⟨f, rfl, hpass, ?_⟩
        simpa using ht
      · intro h
        rcases h with ⟨g, rfl, hpass, ht⟩
        refine ⟨hpass, ?_⟩
        simpa using ht

theorem mem_route_attempts (env : Env ρ τ) (calls : List (Registration ρ τ)) (m : Message τ)
    (t : τ) :
    t ∈ (configured calls).routingMap.flatMap (routeTargets env m) ↔ Routed env calls m t := by
  rw [routingMap_configured]
  simp only [List.mem_flatMap, mem_routesOf, routeTargets, List.mem_ite_nil_right,
    routeMatches_iff, Routed]

/-- What a configured switchboard really does with a message. -/
theorem mem_attempts_iff (env : Env ρ τ) (calls : List (Registration ρ τ)) (input : τ)
    (m : Message τ) (t : τ) :
    t ∈ (putMessage env (configured calls) input m true).1 ↔
      (∃ g, firstFilter calls input = some g ∧ FilterPasses env g m ∧
        (t, g) ∈ bridgesOf calls input) ∨ Routed env calls m t := by
  rw [putMessage_attempts, targetSequence, List.mem_append, mem_bridge_attempts,
    mem_route_attempts]

/-- No tranceiver gets a message the configuration does not ask for. -/
theorem requested_of_mem_attempts {env : Env ρ τ} {calls : List (Registration ρ τ)} {input : τ}
    {m : Message τ} {t : τ} (h : t ∈ (putMessage env (configured calls) input m true).1) :
    Requested env calls input m t := by
  rcases (mem_attempts_iff env calls input m t).mp h with ⟨g, _, hpass, hmem⟩ | hroute
  · obtain ⟨hcall, hne⟩ := (mem_bridgesOf calls input t g).mp hmem
    exact Or.inl ⟨g, hcall, hne, hpass⟩
  · exact Or.inr hroute

/-- The message reaches exactly the requested tranceivers when, and only when, every
accepting bridge mapping of its input has the first filter or a target served anyway. -/
theorem delivery_iff_requested (env : Env ρ τ) (calls : List (Registration ρ τ)) (input : τ)
    (m : Message τ) :
    (∀ t, t ∈ (putMessage env (configured calls) input m true).1 ↔
      Requested env calls input m t) ↔ NothingLost env calls input m := by
  constructor
  · intro h out f hmem hpass
    obtain ⟨hcall, hne⟩ := (mem_bridgesOf calls input out f).mp hmem
    have hget := (h out).mpr (Or.inl ⟨f, hcall, hne, hpass⟩)
    exact Or.inr ((mem_attempts_iff env calls input m out).mp hget)
  · intro h t
    refine ⟨requested_of_mem_attempts, ?_⟩
    intro hrequested
    rcases hrequested with ⟨f, hcall, hne, hpass⟩ | hroute
    · have hmem := (mem_bridgesOf calls input t f).mpr ⟨hcall, hne⟩
      apply (mem_attempts_iff env calls input m t).mpr
      rcases h t f hmem hpass with hfirst | hserved
      · exact Or.inl ⟨f, hfirst, hpass, hmem⟩
      · exact hserved
    · exact (mem_attempts_iff env calls input m t).mpr (Or.inr hroute)

/-! ## A configuration that loses a target -/

/-- `ax0` (0) sends to `axudp-tunnels` (1) without a filter, and to `lora-sx1278` (2)
with the filter `from="PD9FVH"`, as the sample configuration does. -/
def sampleCalls : List (Registration Unit ℕ) :=
  [.bridge 0 1 none, .bridge 0 2 (some ⟨true, str "from=\"PD9FVH\""⟩)]

/-- A message from `PD9FVH` received through `ax0`. -/
def sampleMessage : Message ℕ :=
  ⟨some 0, [], AList.singleton (str "from") ⟨str "PD9FVH"⟩⟩

/-- No regular expression is involved, and every attempt succeeds. -/
def sampleEnv : Env Unit ℕ where
  regexec _ _ := REG_NOMATCH
  executeFilter pattern ignore m :=
    Filter.executeFilter 20 pattern ignore m.metadata = some (.ok true)
  putMessage _ _ := .ok

theorem sample_target_lost :
    ¬ (2 ∈ (putMessage sampleEnv (configured sampleCalls) 0 sampleMessage true).1 ↔
      Requested sampleEnv sampleCalls 0 sampleMessage 2) := by
  have hlost : 2 ∉ (putMessage sampleEnv (configured sampleCalls) 0 sampleMessage true).1 := by
    decide
  have hasked : Requested sampleEnv sampleCalls 0 sampleMessage 2 := by
    refine Or.inl ⟨some ⟨true, str "from=\"PD9FVH\""⟩, ?_, by decide, ?_⟩
    · simp [sampleCalls]
    · rintro g hg
      obtain rfl := Option.some.inj hg
      decide
  exact fun h => hlost (h.mpr hasked)

end HamRouter.Switchboard
