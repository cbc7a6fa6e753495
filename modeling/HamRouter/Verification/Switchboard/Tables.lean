import HamRouter.Model.Delivery

/-! # The tables a sequence of registrations leaves behind -/

namespace HamRouter.Switchboard

variable {ρ τ : Type*}

theorem sameFilter_iff (f g : Option FilterT) : sameFilter f g = true ↔ f = g := by
  rcases f with _ | ⟨i, p⟩ <;> rcases g with _ | ⟨j, q⟩
  · simp [sameFilter]
  · simp [sameFilter]
  · simp [sameFilter]
  · simp [sameFilter, and_comm]

theorem accepts_iff (env : Env ρ τ) (f : Option FilterT) (m : Message τ) :
    accepts env f m = true ↔ FilterPasses env f m := by
  cases f <;> simp [accepts, FilterPasses]

theorem callsignMatches_iff (env : Env ρ τ) (re : ρ) (field : StdString) (m : Message τ) :
    callsignMatches env re field m = true ↔ CallsignMatches env re field m := by
  unfold callsignMatches CallsignMatches
  cases h : m.metadata.lookup field with
  | none => simp
  | some value =>
      by_cases hz : env.regexec re value.sValue.cStr = 0
      · simp [hz, REG_NOMATCH]
      · simp [hz]

/-- What the table holds for one tranceiver: nothing, or a single mapping with the
first filter and the targets registered under it. Other filters never get a mapping. -/
def tableEntry : List (τ × Option FilterT) → Option (List (BridgeMapping τ))
  | [] => none
  | (out, f) :: rest => some [⟨f, out :: (rest.filter (·.2 = f)).map Prod.fst⟩]

theorem tableEntry_append_of_cons (out : τ) (f : Option FilterT)
    (rest : List (τ × Option FilterT)) (next : τ × Option FilterT) :
    tableEntry ((out, f) :: rest ++ [next]) =
      (tableEntry ((out, f) :: rest)).map (pushTarget next.1 next.2) := by
  obtain ⟨o, g⟩ := next
  by_cases h : f = g
  · subst h
    simp [tableEntry, pushTarget, (sameFilter_iff f f).mpr rfl]
  · have hs : ¬ sameFilter f g = true := fun hc => h ((sameFilter_iff f g).mp hc)
    simp [tableEntry, pushTarget, hs, Ne.symm h]

/-- The routing mappings among the registrations. -/
def routesOf (calls : List (Registration ρ τ)) : List (RoutingMapping ρ τ) :=
  calls.filterMap fun
    | .bridge _ _ _ => none
    | .routing r => some r

theorem mem_routesOf (calls : List (Registration ρ τ)) (r : RoutingMapping ρ τ) :
    r ∈ routesOf calls ↔ .routing r ∈ calls := by
  simp only [routesOf, List.mem_filterMap]
  constructor
  · intro hmem
    rcases hmem with ⟨c, hc, h⟩
    cases c with
    | bridge i o g => simp at h
    | routing r' =>
        obtain rfl : r' = r := by simpa using h
        exact hc
  · intro hc
    exact ⟨_, hc, rfl⟩

variable [DecidableEq τ]

theorem routeMatches_iff (env : Env ρ τ) (r : RoutingMapping ρ τ) (m : Message τ) :
    routeMatches env r m = true ↔ RouteApplies env r m := by
  have hvia : (r.tIncomingVia = none ∨ r.tIncomingVia = m.source) ↔
      ∀ i, r.tIncomingVia = some i → m.source = some i := by
    cases r.tIncomingVia <;> simp [eq_comm]
  unfold routeMatches
  simp only [Bool.and_eq_true, Bool.or_eq_true, decide_eq_true_eq, callsignMatches_iff, hvia]
  constructor
  · intro h
    rcases h with ⟨⟨hf, ht⟩, hi⟩
    exact ⟨hf, ht, hi⟩
  · intro h
    rcases h with ⟨hf, ht, hi⟩
    exact ⟨⟨hf, ht⟩, hi⟩

/-! ## The bridge table -/

theorem bridgesOf_append (calls more : List (Registration ρ τ)) (input : τ) :
    bridgesOf (calls ++ more) input = bridgesOf calls input ++ bridgesOf more input :=
  List.filterMap_append

theorem mem_bridgesOf (calls : List (Registration ρ τ)) (input out : τ) (f : Option FilterT) :
    (out, f) ∈ bridgesOf calls input ↔ .bridge input out f ∈ calls ∧ input ≠ out := by
  simp only [bridgesOf, List.mem_filterMap]
  constructor
  · intro hmem
    rcases hmem with ⟨c, hc, h⟩
    cases c with
    | bridge i o g =>
        simp only [Option.ite_none_right_eq_some, Option.some.injEq, Prod.mk.injEq] at h
        obtain ⟨⟨rfl, hne⟩, rfl, rfl⟩ := h
        exact ⟨hc, hne⟩
    | routing r => simp at h
  · intro h
    rcases h with ⟨hc, hne⟩
    exact ⟨_, hc, by simp [hne]⟩

/-- One call keeps the table in step with the registrations. -/
theorem lookup_register (sb : Tables ρ τ) (calls : List (Registration ρ τ))
    (c : Registration ρ τ) (input : τ)
    (h : ∀ i, sb.bridgeMap.lookup i = tableEntry (bridgesOf calls i)) :
    (register sb c).bridgeMap.lookup input = tableEntry (bridgesOf (calls ++ [c]) input) := by
  rw [bridgesOf_append]
  cases c with
  | routing r => simpa [register, addRoutingMapping, bridgesOf] using h input
  | bridge i out f =>
      by_cases hself : i = out
      · simpa [register, addBridgeMapping, bridgesOf, hself] using h input
      by_cases hi : i = input
      · subst hi
        have hlast : bridgesOf [Registration.bridge (ρ := ρ) i out f] i = [(out, f)] := by
          simp [bridgesOf, hself]
        rw [hlast]
        have hold := h i
        cases hb : bridgesOf calls i with
        | nil =>
            rw [hb] at hold
            simp only [tableEntry] at hold
            simp [register, addBridgeMapping, hself, hold, tableEntry]
        | cons first rest =>
            obtain ⟨o, g⟩ := first
            rw [hb] at hold
            rw [tableEntry_append_of_cons, ← hold]
            simp only [tableEntry] at hold
            simp [register, addBridgeMapping, hself, hold]
      · have hnone : bridgesOf [Registration.bridge (ρ := ρ) i out f] input = [] := by
          simp [bridgesOf, hi]
        rw [hnone, List.append_nil, ← h input]
        cases hl : sb.bridgeMap.lookup i <;>
          simp [register, addBridgeMapping, hself, hl, AList.lookup_insert_ne (Ne.symm hi)]

theorem configured_append (calls : List (Registration ρ τ)) (c : Registration ρ τ) :
    configured (calls ++ [c]) = register (configured calls) c := by
  simp [configured]

/-- The bridge table after any sequence of registrations. -/
theorem lookup_configured (calls : List (Registration ρ τ)) :
    ∀ input, (configured calls).bridgeMap.lookup input = tableEntry (bridgesOf calls input) := by
  induction calls using List.reverseRecOn with
  | nil =>
      intro input
      simp [configured, Tables.fresh, bridgesOf, tableEntry]
  | append_singleton calls c ih =>
      intro input
      rw [configured_append]
      exact lookup_register _ calls c input ih

/-! ## The routing table -/

theorem routingMap_configured (calls : List (Registration ρ τ)) :
    (configured calls).routingMap = routesOf calls := by
  induction calls using List.reverseRecOn with
  | nil => rfl
  | append_singleton calls c ih =>
      rw [configured_append]
      cases c with
      | routing r => simp [register, addRoutingMapping, ih, routesOf]
      | bridge i out f =>
          have hkeep : (addBridgeMapping (configured calls) i out f).routingMap =
              (configured calls).routingMap := by
            unfold addBridgeMapping
            split
            · rfl
            · split <;> rfl
          simp [register, hkeep, ih, routesOf]

end HamRouter.Switchboard
