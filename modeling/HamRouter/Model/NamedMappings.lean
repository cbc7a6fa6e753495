import HamRouter.Model.Delivery
import HamRouter.Model.ManagedObjects

/-! # The mappings of a configuration by name

What a mapping of the file asks for, in the words of the file: the ids of the tranceivers, the
names of the filters and the regular expressions. -/

namespace HamRouter.Configuration

open Switchboard

/-- A mapping of a file. -/
inductive Mapping where
  | bridge (node : Group)
  | route (node : Group)

def Section.mappings : Section → List Mapping
  | .bridgeMappings nodes => nodes.map .bridge
  | .routingMappings nodes => nodes.map .route
  | _ => []

/-- The words of a setting. -/
def words (s : StdString) : List StdString := StdString.split s (str " ")

variable {ρ : Type} (regcomp : StdString → Option ρ)

/-! ## Registrations -/

namespace Mappings

variable (c : Mappings ρ)

/-- The registration of a bridge to the tranceiver of a word. -/
def bridgeCall (line fromT : ℕ) (f : Option FilterT) (part : StdString) :
    Except Failure (Registration ρ ℕ) := do
  let toT ← c.tranceiver line (str "Mapping: " ++ quoted part) part
  .ok (.bridge fromT toT f)

/-- The registrations of a bridge mapping. -/
def bridgeCalls (node : Group) : Except Failure (List (Registration ρ ℕ)) := do
  let from_ ← node.text (str "from")
  let tos ← node.text (str "to")
  let f ← c.filter node
  let fromT ← c.tranceiver node.line (str "Mapping: " ++ quoted from_) from_
  (words tos).mapM (c.bridgeCall node.line fromT f)

/-- The registration of a routing mapping. -/
def routeCall (node : Group) : Except Failure (RoutingMapping ρ ℕ) := do
  let fromCallsign ← node.text (str "from-callsign")
  let toCallsign ← node.text (str "to-callsign")
  let incoming ← node.text (str "incoming-via")
  let tIncomingVia ← c.incomingVia node.line incoming
  let outgoing ← node.text (str "outgoing-via")
  let tOutgoingVia ← (words outgoing).mapM
    (c.tranceiver node.line (str "\"outgoing-via\": " ++ quoted outgoing))
  let reFromCallsign ← compiled regcomp node.line (str "from-callsign") fromCallsign
  let reToCallsign ← compiled regcomp node.line (str "to-callsign") toCallsign
  .ok ⟨reFromCallsign, reToCallsign, tIncomingVia, tOutgoingVia⟩

def calls : Mapping → Except Failure (List (Registration ρ ℕ))
  | .bridge node => c.bridgeCalls node
  | .route node => (c.routeCall regcomp node).map fun m => [.routing m]

end Mappings

/-! ## What is asked for -/

section Asking

variable (f : File) (c : Mappings ρ) (env : Env ρ ℕ) (m : Message ℕ)

/-- A regular expression of a setting matches a field of the message. -/
def Group.ExpressionMatches (node : Group) (setting field : StdString) : Prop :=
  ∃ re compiled, node.text setting = .ok re ∧ regcomp re = some compiled ∧
    CallsignMatches env compiled field m

/-- The setting has a word. -/
def Group.HasWord (node : Group) (setting word : StdString) : Prop :=
  ∃ s, node.text setting = .ok s ∧ word ∈ words s

/-- A bridge mapping has no filter, or one that accepts the message. -/
def Mappings.FilterAccepts (node : Group) : Prop :=
  ∃ f, c.filter node = .ok f ∧ FilterPasses env f m

namespace File

def mappings : List Mapping := f.sections.flatMap Section.mappings

/-- The mappings ask for a message to be put into a tranceiver. -/
inductive Asks (target : StdString) : Prop where
  | bridge (node : Group) (source : StdString) (mem : .bridge node ∈ f.mappings)
      (from_ : node.text (str "from") = .ok source) (incoming : m.source = c.findTranceiver source)
      (to_ : node.HasWord (str "to") target) (ne : source ≠ target)
      (filter : c.FilterAccepts env m node)
  | route (node : Group) (id : StdString) (mem : .route node ∈ f.mappings)
      (fromCallsign : node.ExpressionMatches regcomp env m (str "from-callsign") (str "from"))
      (toCallsign : node.ExpressionMatches regcomp env m (str "to-callsign") (str "to"))
      (via : node.text (str "incoming-via") = .ok id)
      (incoming : id = [] ∨ m.source = c.findTranceiver id)
      (to_ : node.HasWord (str "outgoing-via") target)

/-- All bridge mappings from a tranceiver have the same filter. -/
def OneFilter (source : StdString) : Prop :=
  ∀ node node', .bridge node ∈ f.mappings → .bridge node' ∈ f.mappings →
    node.text (str "from") = .ok source → node'.text (str "from") = .ok source →
      c.filter node = c.filter node'

end File

end Asking

end HamRouter.Configuration
