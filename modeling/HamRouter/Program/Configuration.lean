import HamRouter.Program.Mappings
import HamRouter.Program.StatsStore

/-! # What `configuration.cpp` leaves behind

The SNMP objects and the statistics of the tranceivers, and the filters and the mappings. What
`instantiate` makes of the settings of a tranceiver, of a location and of a limiter is given. -/

namespace HamRouter.Configuration

open Snmp Stats

/-- The tranceivers whose constructors register statistics, and the others. -/
inductive Kind where
  | aprsSi
  | loraSx1278
  | other
deriving DecidableEq

/-- A tranceiver: `get_id()`, `get_type_name()`, and whether it has an `s`. -/
structure Tranceiver where
  id : StdString
  typeName : StdString
  kind : Kind
  limited : Bool

/-- The arguments of `register_stat`. -/
structure Stat where
  name : StdString
  oid : StdString
  type : IntegerType

/-- The statistics of the constructor of a tranceiver. -/
def Tranceiver.constructor (t : Tranceiver) (deviceNr : ℕ) : List Stat :=
  let n := decimal deviceNr
  match t.kind with
  | .aprsSi =>
      [⟨t.id ++ str "-aprs-frames", str "1.3.6.1.2.1.4.57850.2.4." ++ n ++ str ".1", .counter64⟩,
        ⟨t.id ++ str "-aprs-frames-rate-limited",
          str "1.3.6.1.2.1.4.57850.2.4." ++ n ++ str ".2", .counter64⟩,
        ⟨t.id ++ str "-aprs-frames-invalid",
          str "1.3.6.1.2.1.4.57850.2.4." ++ n ++ str ".3", .counter64⟩]
  | .loraSx1278 =>
      [⟨t.id ++ str "-valid-packets", str "1.3.6.1.2.1.4.57850.2.5." ++ n ++ str ".1", .counter64⟩,
        ⟨t.id ++ str "-invalid-packets",
          str "1.3.6.1.2.1.4.57850.2.5." ++ n ++ str ".2", .counter64⟩]
  | .other => []

/-- `seen::register_snmp_counters`. -/
def seenCounters (parentId : StdString) (deviceNr : ℕ) : List Stat :=
  let n := decimal deviceNr
  [⟨str "seen-" ++ parentId ++ str "-hit",
      str "1.3.6.1.2.1.4.57850.2.3." ++ n ++ str ".1", .counter64⟩,
    ⟨str "seen-" ++ parentId ++ str "-miss",
      str "1.3.6.1.2.1.4.57850.2.3." ++ n ++ str ".2", .counter64⟩]

/-- `tranceiver::register_snmp_counters`. -/
def Tranceiver.snmpCounters (t : Tranceiver) (deviceNr : ℕ) : List Stat :=
  let n := decimal deviceNr
  [⟨t.id ++ str "-ifInOctets", str "1.3.6.1.2.1.2.2.1.10." ++ n, .counter32⟩,
    ⟨t.id ++ str "-ifHCInOctets", str "1.3.6.1.2.1.31.1.1.1.6." ++ n, .counter64⟩,
    ⟨t.id ++ str "-ifInUcastPkts", str "1.3.6.1.2.1.2.2.1.11." ++ n, .counter32⟩,
    ⟨t.id ++ str "-ifOutOctets", str "1.3.6.1.2.1.2.2.1.16." ++ n, .counter32⟩,
    ⟨t.id ++ str "-ifHCOutOctets", str "1.3.6.1.2.1.31.1.1.1.10." ++ n, .counter64⟩,
    ⟨t.id ++ str "-ifOutUcastPkts", str "1.3.6.1.2.1.2.2.1.17." ++ n, .counter32⟩] ++
    if t.limited then seenCounters t.id deviceNr else []

/-- Calls of `register_stat`, one after the other. -/
def registerStats (s : Store) (stats : List Stat) : Except StdString Store :=
  stats.foldlM (fun s stat => (s.registerStat stat.name stat.oid stat.type).map Prod.fst) s

/-- `register_oid` of an object that is no statistic. -/
def registerObject (s : Store) (oid : StdString) (e : SnmpDataType) : Store :=
  { s with sd := SnmpData.registerOid s.sd oid e }

/-- A `snmp_data_type_static` of an `int`, always an integer. -/
def staticInt (n : ℕ) : SnmpDataType := .static (.integer .integer (Int32.ofNat n).toInt64.toUInt64)

/-- A `snmp_data_type_static` of a text. -/
def staticText (content : StdString) : SnmpDataType := .static (.octetString content)

/-- The objects and the statistics of one tranceiver in the loop of `load_tranceivers`. -/
def loadInterface (s : Store) (t : Tranceiver) (interfaceNr : ℕ) : Except StdString Store :=
  let n := decimal interfaceNr
  let s := registerObject s (str "1.3.6.1.2.1.2.2.1.1." ++ n) (staticInt interfaceNr)
  let s := registerObject s (str "1.3.6.1.2.1.31.1.1.1.1." ++ n) (staticText t.id)
  let s := registerObject s (str "1.3.6.1.2.1.2.2.1.2.1." ++ n) (staticText t.typeName)
  let s := registerObject s (str "1.3.6.1.2.1.17.1.4.1." ++ n) (staticInt 1)
  registerStats s (t.snmpCounters interfaceNr)

/-- `load_tranceivers`, for what `instantiate` returns. -/
def loadTranceivers (s : Store) (ts : List Tranceiver) : Except StdString Store := do
  let s ← ts.zipIdx.foldlM (fun s t => registerStats s (t.1.constructor (t.2 + 1))) s
  let s := registerObject s (str "1.3.6.1.2.1.2.1.0") (staticInt ts.length)
  ts.zipIdx.foldlM (fun s t => loadInterface s t.1 (t.2 + 1)) s

/-- An iteration of `load_snmp`. -/
def snmpSetting (_ : ℤ) (e : Setting) : Except Failure ℤ :=
  if e.name = str "port" then e.number
  else .error (errorAt e.line (str "SNMP setting " ++ quoted e.name ++ str " is not known"))

/-- The loop of `load_snmp`, which sets `snmp_port`. -/
def snmpPort (settings : List Setting) : Except Failure ℤ := settings.foldlM snmpSetting (-1)

/-- `load_snmp` behind its loop, with the `running_since` of the configuration. -/
def loadSnmp (s : Store) (snmpPort : ℤ) (runningSince : UInt64) : Store :=
  if snmpPort = -1 then s
  else
    let s := registerObject s (str "1.3.6.1.2.1.1.1.0") (staticText (str "lora_aprs_gw"))
    let s := registerObject s (str "1.3.6.1.2.1.1.2.0")
      (.static (.oid (snmpOid (str "1.3.6.1.2.1.4.57850.2")).written))
    let s := registerObject s (str "1.3.6.1.2.1.1.3.0") (.runningSince runningSince)
    let s := registerObject s (str "1.3.6.1.2.1.1.4.0")
      (staticText (str "Folkert van Heusden <mail@vanheusden.com>"))
    let s := registerObject s (str "1.3.6.1.2.1.1.5.0") (staticText (str "lora_aprs_gw"))
    let s := registerObject s (str "1.3.6.1.2.1.1.6.0") (staticText (str "Earth"))
    let s := registerObject s (str "1.3.6.1.2.1.1.7.0") (staticInt 254)
    registerObject s (str "1.3.6.1.2.1.1.8.0") (staticInt 0)

/-- What `load_general` sets: the `gps`, and the `global_repetition_filter`. -/
structure General where
  gps : Bool
  globalRepetitionFilter : Bool

/-- An iteration of `load_general`. -/
def General.setting (g : General) (e : Setting) : Except Failure General :=
  if e.name = str "gps" then .ok { g with gps := true }
  else if e.name = str "logfile" then e.text.map fun _ => g
  else if e.name = str "repetition-rate-limiting" then
    if g.globalRepetitionFilter then
      .error (errorAt e.line (str "repetition-rate-limiting is already defined"))
    else .ok { g with globalRepetitionFilter := true }
  else .error (errorAt e.line (str "General setting " ++ quoted e.name ++ str " is not known"))

/-- `load_general`. The parser refuses a second section of a name, so nothing is set before it. -/
def loadGeneral (nodeInLine : ℕ) (settings : List Setting) : Except Failure General := do
  let g ← settings.foldlM General.setting ⟨false, false⟩
  if g.gps then .ok g
  else .error (errorAt nodeInLine (str "No GPS/location configuration set"))

/-- The sections of a configuration file, the last one for any other name. -/
inductive Section where
  | filters (line : ℕ) (nodes : List Group)
  | general (line : ℕ) (settings : List Setting)
  | tranceivers (ts : List Tranceiver)
  | bridgeMappings (nodes : List Group)
  | routingMappings (nodes : List Group)
  | snmp (settings : List Setting) (runningSince : UInt64)
  | other (line : ℕ) (name : StdString)

/-- What a section registers. Settings of `snmp` that end the program register nothing. -/
def loadSection (s : Store) : Section → Except StdString Store
  | .tranceivers ts => loadTranceivers s ts
  | .snmp settings runningSince =>
      match snmpPort settings with
      | .ok port => .ok (loadSnmp s port runningSince)
      | .error _ => .ok s
  | _ => .ok s

/-- What the loop of the constructor over the sections registers, with the `stats` of `main`. -/
def load (sections : List Section) : Except StdString Store :=
  sections.foldlM loadSection (.new 8192 [])

variable {ρ : Type} (regcomp : StdString → Option ρ)

/-- What a section names and maps, and how it ends the program. -/
def mapSection (c : Mappings ρ) : Section → Except Failure (Mappings ρ)
  | .filters line nodes =>
      (nodes.foldlM (loadFilter line) c.filters).map fun filters => { c with filters := filters }
  | .general line settings => (loadGeneral line settings).map fun _ => c
  | .tranceivers ts => .ok { c with tranceivers := c.tranceivers ++ ts.map Tranceiver.id }
  | .bridgeMappings nodes => c.loadBridgeSwitchboard nodes
  | .routingMappings nodes => c.loadRoutingSwitchboard regcomp nodes
  | .snmp settings _ => (snmpPort settings).map fun _ => c
  | .other line name => .error (errorAt line (str "Setting " ++ quoted name ++ str " is not known"))

/-- A section, with `error_exit` for a statistic that cannot be registered. -/
def configure (state : Store × Mappings ρ) (c : Section) : Except Failure (Store × Mappings ρ) := do
  let s ← (loadSection state.1 c).mapError .errorExit
  let mappings ← mapSection regcomp state.2 c
  .ok (s, mappings)

/-- The loop of the constructor over the sections of the file. -/
def configuration (sections : List Section) : Except Failure (Store × Mappings ρ) :=
  sections.foldlM (configure regcomp) (.new 8192 [], ⟨∅, [], none⟩)

end HamRouter.Configuration
