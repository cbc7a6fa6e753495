import HamRouter.Model.NamedMappings

/-! # Which configurations are accepted

What a file must say for none of its sections to end the program. A name stands for what a section
in front has, so that the order of the sections matters. -/

namespace HamRouter.Configuration

/-! ## Settings -/

def Setting.IsText (e : Setting) : Prop := ∃ s, e.value = .text s

/-- The text of the last setting with a name, empty where there is none. -/
def givenText (settings : List Setting) (name : StdString) : StdString :=
  settings.foldl (fun given e =>
    match e.value with
    | .text s => if e.name = name then s else given
    | _ => given) []

/-- A setting of a filter. -/
def Setting.OfFilter (e : Setting) : Prop :=
  (e.name = str "name" ∨ e.name = str "pattern") ∧ e.IsText ∨
    e.name = str "ignore-if-field-is-missing" ∧ ∃ b, e.value = .flag b

/-- A filter with a name and a pattern. -/
structure Group.IsFilter (node : Group) : Prop where
  known : ∀ e ∈ node.settings, e.OfFilter
  name : givenText node.settings (str "name") ≠ []
  pattern : givenText node.settings (str "pattern") ≠ []

/-- A setting of the general section. -/
def Setting.OfGeneral (e : Setting) : Prop :=
  e.name = str "gps" ∨ e.name = str "logfile" ∧ e.IsText ∨ e.name = str "repetition-rate-limiting"

/-- A setting of the SNMP section. -/
def Setting.OfSnmp (e : Setting) : Prop := e.name = str "port" ∧ ∃ n, e.value = .number n

/-- The general section has a location, and not more than one limiter. -/
structure IsGeneral (settings : List Setting) : Prop where
  known : ∀ e ∈ settings, e.OfGeneral
  gps : ∃ e ∈ settings, e.name = str "gps"
  once : settings.countP (·.name = str "repetition-rate-limiting") ≤ 1

/-! ## Sections -/

variable {ρ : Type} (regcomp : StdString → Option ρ) (ids filters : List StdString)

/-- The names in a mapping are those of tranceivers and of filters, and its expressions are
regular. -/
def Mapping.Resolves : Mapping → Prop
  | .bridge node =>
      (∃ source, node.text (str "from") = .ok source ∧ source ∈ ids) ∧
        (∃ tos, node.text (str "to") = .ok tos ∧ ∀ target ∈ words tos, target ∈ ids) ∧
        ∀ e, node.find (str "filter") = some e → ∃ name, e.value = .text name ∧ name ∈ filters
  | .route node =>
      (∃ re, node.text (str "from-callsign") = .ok re ∧ (regcomp re).isSome) ∧
        (∃ re, node.text (str "to-callsign") = .ok re ∧ (regcomp re).isSome) ∧
        (∃ id, node.text (str "incoming-via") = .ok id ∧ (id = [] ∨ id ∈ ids)) ∧
        ∃ tos, node.text (str "outgoing-via") = .ok tos ∧ ∀ target ∈ words tos, target ∈ ids

namespace Section

/-- The names of the filters of a section. -/
def filterNames : Section → List StdString
  | .filters _ nodes => nodes.map fun node => givenText node.settings (str "name")
  | _ => []

/-- A section that does not end the program, with the names in front of it. -/
def InOrder : Section → Prop
  | .filters _ nodes => ∀ node ∈ nodes, node.IsFilter
  | .general _ settings => IsGeneral settings
  | .snmp settings _ => ∀ e ∈ settings, e.OfSnmp
  | .other _ _ => False
  | sec => ∀ mapping ∈ sec.mappings, mapping.Resolves regcomp ids filters

end Section

/-- The ids of the tranceivers differ, the segment has room for their statistics, and each section
is in order behind those in front of it. -/
structure File.InOrder (f : File) : Prop where
  ids : (f.tranceivers.map Tranceiver.id).Nodup
  statistics : 48 * f.statistics ≤ 8192
  sections : ∀ front sec back, f.sections = front ++ sec :: back →
    sec.InOrder regcomp ((front.flatMap Section.instances).map Tranceiver.id)
      (front.flatMap Section.filterNames)

end HamRouter.Configuration
