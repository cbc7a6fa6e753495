import HamRouter.Program.Switchboard

/-! # What a switchboard configuration asks for

Stated over the registrations themselves, without the tables they are stored in. -/

namespace HamRouter.Switchboard

variable {ρ τ : Type*}

/-- The filter is absent or `execute_filter` accepts the message. -/
def FilterPasses (env : Env ρ τ) (f : Option FilterT) (m : Message τ) : Prop :=
  ∀ g, f = some g → env.executeFilter g.pattern g.ignoreIfFieldIsMissing m = true

/-- The message has the field and the expression matches its value. -/
def CallsignMatches (env : Env ρ τ) (re : ρ) (field : StdString) (m : Message τ) : Prop :=
  ∃ value, m.metadata.lookup field = some value ∧ env.regexec re value.sValue.cStr = 0

/-- A routing mapping is for this message. -/
structure RouteApplies (env : Env ρ τ) (r : RoutingMapping ρ τ) (m : Message τ) : Prop where
  fromCallsign : CallsignMatches env r.reFromCallsign (str "from") m
  toCallsign : CallsignMatches env r.reToCallsign (str "to") m
  incoming : ∀ i, r.tIncomingVia = some i → m.source = some i

/-- Some routing mapping brings the message to `t`. -/
def Routed (env : Env ρ τ) (calls : List (Registration ρ τ)) (m : Message τ) (t : τ) : Prop :=
  ∃ r, .routing r ∈ calls ∧ RouteApplies env r m ∧ t ∈ r.tOutgoingVia

/-- The configuration asks for the message to be put into `t`. -/
def Requested (env : Env ρ τ) (calls : List (Registration ρ τ)) (input : τ) (m : Message τ)
    (t : τ) : Prop :=
  (∃ f, .bridge input t f ∈ calls ∧ input ≠ t ∧ FilterPasses env f m) ∨ Routed env calls m t

section Bridges

variable [DecidableEq τ]

/-- The targets and filters registered for `input`, in order, without the calls
`add_bridge_mapping` ignores. -/
def bridgesOf (calls : List (Registration ρ τ)) (input : τ) : List (τ × Option FilterT) :=
  calls.filterMap fun
    | .bridge i out f => if i = input ∧ i ≠ out then some (out, f) else none
    | .routing _ => none

/-- The filter of the first bridge mapping of `input`. -/
def firstFilter (calls : List (Registration ρ τ)) (input : τ) : Option (Option FilterT) :=
  (bridgesOf calls input).head?.map Prod.snd

/-- Every bridge mapping of `input` that accepts `m` carries the filter of the first
one, or its target gets the message through that filter or through a route. -/
def NothingLost (env : Env ρ τ) (calls : List (Registration ρ τ)) (input : τ)
    (m : Message τ) : Prop :=
  ∀ out f, (out, f) ∈ bridgesOf calls input → FilterPasses env f m →
    firstFilter calls input = some f ∨
      (∃ g, firstFilter calls input = some g ∧ FilterPasses env g m ∧
        (out, g) ∈ bridgesOf calls input) ∨
      Routed env calls m out

end Bridges

end HamRouter.Switchboard
