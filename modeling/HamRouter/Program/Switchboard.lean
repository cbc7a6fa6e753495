import HamRouter.Program.Filter

/-! # The bridge and routing tables of `switchboard.cpp` -/

namespace HamRouter

/-- `transmit_error_t`. -/
inductive TransmitError where
  | ok
  | hardware
  | ratelimiting
  | filter
deriving DecidableEq

/-- `regexec`'s return value for "no match". -/
def REG_NOMATCH : ℤ := 1

namespace Switchboard

/-- `sb_bridge_mapping_t`: the targets that share one filter. -/
structure BridgeMapping (τ : Type*) where
  f : Option FilterT
  t : List τ

/-- `sb_routing_mapping_t`, with `ρ` for compiled regular expressions. -/
structure RoutingMapping (ρ τ : Type*) where
  reFromCallsign : ρ
  reToCallsign : ρ
  tIncomingVia : Option τ
  tOutgoingVia : List τ

/-- The two tables of a `switchboard`. -/
structure Tables (ρ τ : Type*) where
  bridgeMap : AList (fun _ : τ => List (BridgeMapping τ))
  routingMap : List (RoutingMapping ρ τ)

def Tables.fresh {ρ τ : Type*} : Tables ρ τ := ⟨∅, []⟩

/-- The filter comparison of `add_bridge_mapping`, both absent or both equal by field. -/
def sameFilter : Option FilterT → Option FilterT → Bool
  | none, none => true
  | some f, some g =>
      f.pattern = g.pattern && f.ignoreIfFieldIsMissing = g.ignoreIfFieldIsMissing
  | _, _ => false

/-- The loop over the mappings of one tranceiver: `out` joins the first one with the
same filter, and is in none of them when no filter matches. -/
def pushTarget {τ : Type*} (out : τ) (f : Option FilterT) :
    List (BridgeMapping τ) → List (BridgeMapping τ)
  | [] => []
  | mapping :: rest =>
      if sameFilter mapping.f f then { mapping with t := mapping.t ++ [out] } :: rest
      else mapping :: pushTarget out f rest

/-- `add_bridge_mapping(in, out, f)`. -/
def addBridgeMapping {ρ τ : Type*} [DecidableEq τ] (sb : Tables ρ τ) (input out : τ)
    (f : Option FilterT) : Tables ρ τ :=
  if input = out then sb
  else
    match sb.bridgeMap.lookup input with
    | none => { sb with bridgeMap := sb.bridgeMap.insert input [⟨f, [out]⟩] }
    | some mappings => { sb with bridgeMap := sb.bridgeMap.insert input (pushTarget out f mappings) }

/-- `add_routing_mapping(m)`. -/
def addRoutingMapping {ρ τ : Type*} (sb : Tables ρ τ) (m : RoutingMapping ρ τ) : Tables ρ τ :=
  { sb with routingMap := sb.routingMap ++ [m] }

/-- The calls that leave the switchboard: `regexec` on a compiled expression and a C
string, `execute_filter`, and `t->put_message` whose outcome may depend on the
attempts made before. -/
structure Env (ρ τ : Type*) where
  regexec : ρ → StdString → ℤ
  executeFilter : StdString → Bool → Message τ → Bool
  putMessage : List τ → τ → TransmitError

/-- The attempts made so far, `forwarded`, and the code of an early `return`. -/
structure Progress (τ : Type*) where
  attempts : List τ
  forwarded : Bool
  returned : Option TransmitError

/-- The loop over the targets of one mapping. A failed attempt returns from
`put_message` unless `continue_on_error` is set. -/
def putTargets {ρ τ : Type*} (env : Env ρ τ) (continueOnError : Bool) :
    List τ → List τ → List τ × Option TransmitError
  | [], attempts => (attempts, none)
  | t :: rest, attempts =>
      let rc := env.putMessage attempts t
      if rc ≠ .ok ∧ continueOnError = false then (attempts ++ [t], some rc)
      else putTargets env continueOnError rest (attempts ++ [t])

/-- Absent filters accept every message. -/
def accepts {ρ τ : Type*} (env : Env ρ τ) (f : Option FilterT) (m : Message τ) : Bool :=
  match f with
  | none => true
  | some f => env.executeFilter f.pattern f.ignoreIfFieldIsMissing m

/-- One iteration of the bridge loop. -/
def bridgeStep {ρ τ : Type*} (env : Env ρ τ) (continueOnError : Bool) (m : Message τ)
    (p : Progress τ) (mapping : BridgeMapping τ) : Progress τ :=
  if p.returned.isSome then p
  else if accepts env mapping.f m then
    match putTargets env continueOnError mapping.t p.attempts with
    | (attempts, some rc) => ⟨attempts, p.forwarded, some rc⟩
    | (attempts, none) => ⟨attempts, true, none⟩
  else p

/-- The check of one callsign: the field must be there and `regexec` must return 0,
both `REG_NOMATCH` and an error code skip the mapping. -/
def callsignMatches {ρ τ : Type*} (env : Env ρ τ) (re : ρ) (field : StdString)
    (m : Message τ) : Bool :=
  match m.metadata.lookup field with
  | none => false
  | some value =>
      let rc := env.regexec re value.sValue.cStr
      if rc = REG_NOMATCH then false
      else if rc ≠ 0 then false
      else true

/-- The three checks that lead to `continue` in the routing loop. -/
def routeMatches {ρ τ : Type*} [DecidableEq τ] (env : Env ρ τ) (mapping : RoutingMapping ρ τ)
    (m : Message τ) : Bool :=
  callsignMatches env mapping.reFromCallsign (str "from") m &&
    callsignMatches env mapping.reToCallsign (str "to") m &&
      (mapping.tIncomingVia = none || mapping.tIncomingVia = m.source)

/-- One iteration of the routing loop; `forwarded` is set per target here. -/
def routeStep {ρ τ : Type*} [DecidableEq τ] (env : Env ρ τ) (continueOnError : Bool)
    (m : Message τ) (p : Progress τ) (mapping : RoutingMapping ρ τ) : Progress τ :=
  if p.returned.isSome then p
  else if routeMatches env mapping m then
    match putTargets env continueOnError mapping.tOutgoingVia p.attempts with
    | (attempts, some rc) => ⟨attempts, p.forwarded, some rc⟩
    | (attempts, none) => ⟨attempts, p.forwarded || !mapping.tOutgoingVia.isEmpty, none⟩
  else p

/-- `put_message(from, m, continue_on_error)`: the targets attempted, in order, and the
code returned. -/
def putMessage {ρ τ : Type*} [DecidableEq τ] (env : Env ρ τ) (sb : Tables ρ τ)
    (from_ : τ) (m : Message τ) (continueOnError : Bool) : List τ × TransmitError :=
  let start : Progress τ := ⟨[], false, none⟩
  let bridged := match sb.bridgeMap.lookup from_ with
    | none => start
    | some mappings => mappings.foldl (bridgeStep env continueOnError m) start
  let routed := sb.routingMap.foldl (routeStep env continueOnError m) bridged
  match routed.returned with
  | some rc => (routed.attempts, rc)
  | none => (routed.attempts, if routed.forwarded then .ok else .filter)

/-- A call that registers a mapping. -/
inductive Registration (ρ τ : Type*) where
  | bridge (input out : τ) (f : Option FilterT)
  | routing (m : RoutingMapping ρ τ)

def register {ρ τ : Type*} [DecidableEq τ] (sb : Tables ρ τ) : Registration ρ τ → Tables ρ τ
  | .bridge input out f => addBridgeMapping sb input out f
  | .routing m => addRoutingMapping sb m

/-- The tables of a fresh switchboard after a sequence of registrations. -/
def configured {ρ τ : Type*} [DecidableEq τ] (calls : List (Registration ρ τ)) : Tables ρ τ :=
  calls.foldl register .fresh

end Switchboard

end HamRouter
