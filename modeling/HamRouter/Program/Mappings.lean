import HamRouter.Program.Switchboard
import Mathlib.Data.List.AList

/-! # The filters and the mappings of `configuration.cpp`

Settings are as the parser of the file hands them over. Compiled regular expressions are given. -/

namespace HamRouter.Configuration

open Switchboard

/-! ## Settings -/

/-- A value. A number is an `int`; what is made of any other one is given elsewhere. -/
inductive Value where
  | text (s : StdString)
  | flag (b : Bool)
  | number (n : ℤ)
  | other

/-- A setting, with `getSourceLine()`. -/
structure Setting where
  name : StdString
  value : Value
  line : ℕ

/-- A group of settings, each with a name of its own. -/
structure Group where
  line : ℕ
  settings : List Setting

/-- What ends the program: `error_exit` with a text, or an exception that nothing catches. -/
inductive Failure where
  | errorExit (text : StdString)
  | settingNotFound (name : StdString)
  | settingType (name : StdString)
deriving DecidableEq

def errorAt (line : ℕ) (text : StdString) : Failure :=
  .errorExit (str "(line " ++ decimal line ++ str "): " ++ text)

def quoted (s : StdString) : StdString := str "\"" ++ s.cStr ++ str "\""

/-- `c_str()` of a setting. -/
def Setting.text (e : Setting) : Except Failure StdString :=
  match e.value with
  | .text s => .ok s
  | _ => .error (.settingType e.name)

/-- A setting as a `bool`. -/
def Setting.flag (e : Setting) : Except Failure Bool :=
  match e.value with
  | .flag b => .ok b
  | _ => .error (.settingType e.name)

/-- A setting as an `int`. -/
def Setting.number (e : Setting) : Except Failure ℤ :=
  match e.value with
  | .number n => .ok n
  | _ => .error (.settingType e.name)

def Group.find (g : Group) (name : StdString) : Option Setting :=
  g.settings.find? (·.name = name)

/-- `lookup(name).c_str()`. -/
def Group.text (g : Group) (name : StdString) : Except Failure StdString :=
  match g.find name with
  | none => .error (.settingNotFound name)
  | some e => e.text

/-! ## Filters -/

/-- `filters`. -/
abbrev Filters := AList (fun _ : StdString => FilterT)

/-- The variables of the loop over the settings of a filter. -/
structure FilterDraft where
  name : StdString
  ignoreIfFieldIsMissing : Bool
  pattern : StdString

def FilterDraft.setting (d : FilterDraft) (e : Setting) : Except Failure FilterDraft :=
  if e.name = str "name" then e.text.map fun s => { d with name := s }
  else if e.name = str "pattern" then e.text.map fun s => { d with pattern := s }
  else if e.name = str "ignore-if-field-is-missing" then
    e.flag.map fun b => { d with ignoreIfFieldIsMissing := b }
  else .error (errorAt e.line (str "Filter setting " ++ quoted e.name ++ str " is not known"))

/-- An iteration of `load_filters`. A second filter of a name is not inserted. -/
def loadFilter (nodeInLine : ℕ) (filters : Filters) (node : Group) : Except Failure Filters := do
  let d ← node.settings.foldlM FilterDraft.setting ⟨[], true, []⟩
  if d.name = [] then .error (errorAt nodeInLine (str "No filter name set"))
  else if d.pattern = [] then
    .error (errorAt nodeInLine (str "No filter definition set for " ++ quoted d.name))
  else if d.name ∈ filters then .ok filters
  else .ok (filters.insert d.name ⟨d.ignoreIfFieldIsMissing, d.pattern⟩)

/-! ## Mappings -/

/-- The filters, the ids of the tranceivers, each of which stands for its place, and `sb`. -/
structure Mappings (ρ : Type) where
  filters : Filters
  tranceivers : List StdString
  sb : Option (Tables ρ ℕ)

namespace Mappings

variable {ρ : Type} (c : Mappings ρ)

/-- `find_tranceiver(id)`. -/
def findTranceiver (id : StdString) : Option ℕ := c.tranceivers.findIdx? (· = id)

/-- `find_tranceiver(id)` where it must not return the null pointer. -/
def tranceiver (line : ℕ) (text id : StdString) : Except Failure ℕ :=
  match c.findTranceiver id with
  | none => .error (errorAt line (text ++ str " is an unknown tranceiver"))
  | some t => .ok t

/-- The filter of a mapping, if it has one. -/
def filter (node : Group) : Except Failure (Option FilterT) :=
  match node.find (str "filter") with
  | none => .ok none
  | some e => do
      let filterName ← e.text
      match c.filters.lookup filterName with
      | none =>
          .error (errorAt node.line (str "Filter " ++ quoted filterName ++ str " is not defined"))
      | some f => .ok (some f)

/-- `sb`, when there is none a new one. -/
def switchboard : Tables ρ ℕ := c.sb.getD .fresh

/-- The loop over `parts` in `load_bridge_switchboard`. -/
def bridgeTo (line fromT : ℕ) (f : Option FilterT) (c : Mappings ρ) (part : StdString) :
    Except Failure (Mappings ρ) := do
  let toT ← c.tranceiver line (str "Mapping: " ++ quoted part) part
  .ok { c with sb := some (addBridgeMapping c.switchboard fromT toT f) }

/-- An iteration of `load_bridge_switchboard`. -/
def bridge (c : Mappings ρ) (node : Group) : Except Failure (Mappings ρ) := do
  let from_ ← node.text (str "from")
  let tos ← node.text (str "to")
  let f ← c.filter node
  let fromT ← c.tranceiver node.line (str "Mapping: " ++ quoted from_) from_
  (StdString.split tos (str " ")).foldlM (bridgeTo node.line fromT f) c

def loadBridgeSwitchboard (nodes : List Group) : Except Failure (Mappings ρ) :=
  nodes.foldlM bridge { c with sb := some c.switchboard }

/-- `regcomp` of a setting that must be a regular expression. -/
def compiled (regcomp : StdString → Option ρ) (line : ℕ) (name re : StdString) :
    Except Failure ρ :=
  match regcomp re with
  | none =>
      .error (errorAt line
        (quoted name ++ str ": " ++ quoted re ++ str " is not a valid regular expression"))
  | some compiled => .ok compiled

/-- The tranceiver a message must come from, or none for the empty text. -/
def incomingVia (line : ℕ) (id : StdString) : Except Failure (Option ℕ) :=
  if id = [] then .ok none
  else (c.tranceiver line (str "\"incoming-via\": " ++ quoted id) id).map some

/-- An iteration of `load_routing_switchboard`. -/
def route (regcomp : StdString → Option ρ) (c : Mappings ρ) (node : Group) :
    Except Failure (Mappings ρ) := do
  let fromCallsign ← node.text (str "from-callsign")
  let toCallsign ← node.text (str "to-callsign")
  let incoming ← node.text (str "incoming-via")
  let tIncomingVia ← c.incomingVia node.line incoming
  let outgoing ← node.text (str "outgoing-via")
  let tOutgoingVia ← (StdString.split outgoing (str " ")).mapM
    (c.tranceiver node.line (str "\"outgoing-via\": " ++ quoted outgoing))
  let reFromCallsign ← compiled regcomp node.line (str "from-callsign") fromCallsign
  let reToCallsign ← compiled regcomp node.line (str "to-callsign") toCallsign
  .ok { c with sb := some (addRoutingMapping c.switchboard
    ⟨reFromCallsign, reToCallsign, tIncomingVia, tOutgoingVia⟩) }

def loadRoutingSwitchboard (regcomp : StdString → Option ρ) (nodes : List Group) :
    Except Failure (Mappings ρ) :=
  nodes.foldlM (route regcomp) { c with sb := some c.switchboard }

end Mappings

end HamRouter.Configuration
