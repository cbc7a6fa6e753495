import HamRouter.Model.SnmpManager
import HamRouter.Model.StatsTable
import HamRouter.Program.Configuration

/-! # The objects of a configuration

Each object is in a column of a table, at a number: that of a tranceiver, or that of a scalar. -/

namespace HamRouter.Configuration

open Snmp SnmpData Stats

/-! ## Columns -/

inductive Column where
  | system
  | ifNumber
  | ifIndex
  | ifName
  | ifDescr
  | status
  | inOctets
  | hcInOctets
  | inUcastPkts
  | outOctets
  | hcOutOctets
  | outUcastPkts
  | seenHit
  | seenMiss
  | aprsFrames
  | aprsRateLimited
  | aprsInvalid
  | validPackets
  | invalidPackets
deriving DecidableEq

namespace Column

def all : List Column :=
  [system, ifNumber, ifIndex, ifName, ifDescr, status, inOctets, hcInOctets, inUcastPkts,
    outOctets, hcOutOctets, outUcastPkts, seenHit, seenMiss, aprsFrames, aprsRateLimited,
    aprsInvalid, validPackets, invalidPackets]

/-- The sub-identifiers in front of the number. -/
def front : Column → List ℤ
  | system => [1, 3, 6, 1, 2, 1, 1]
  | ifNumber => [1, 3, 6, 1, 2, 1, 2, 1]
  | ifIndex => [1, 3, 6, 1, 2, 1, 2, 2, 1, 1]
  | ifName => [1, 3, 6, 1, 2, 1, 31, 1, 1, 1, 1]
  | ifDescr => [1, 3, 6, 1, 2, 1, 2, 2, 1, 2, 1]
  | status => [1, 3, 6, 1, 2, 1, 17, 1, 4, 1]
  | inOctets => [1, 3, 6, 1, 2, 1, 2, 2, 1, 10]
  | hcInOctets => [1, 3, 6, 1, 2, 1, 31, 1, 1, 1, 6]
  | inUcastPkts => [1, 3, 6, 1, 2, 1, 2, 2, 1, 11]
  | outOctets => [1, 3, 6, 1, 2, 1, 2, 2, 1, 16]
  | hcOutOctets => [1, 3, 6, 1, 2, 1, 31, 1, 1, 1, 10]
  | outUcastPkts => [1, 3, 6, 1, 2, 1, 2, 2, 1, 17]
  | seenHit => [1, 3, 6, 1, 2, 1, 4, 57850, 2, 3]
  | seenMiss => [1, 3, 6, 1, 2, 1, 4, 57850, 2, 3]
  | aprsFrames => [1, 3, 6, 1, 2, 1, 4, 57850, 2, 4]
  | aprsRateLimited => [1, 3, 6, 1, 2, 1, 4, 57850, 2, 4]
  | aprsInvalid => [1, 3, 6, 1, 2, 1, 4, 57850, 2, 4]
  | validPackets => [1, 3, 6, 1, 2, 1, 4, 57850, 2, 5]
  | invalidPackets => [1, 3, 6, 1, 2, 1, 4, 57850, 2, 5]

/-- The sub-identifiers behind the number. -/
def back : Column → List ℤ
  | system => [0]
  | seenHit => [1]
  | seenMiss => [2]
  | aprsFrames => [1]
  | aprsRateLimited => [2]
  | aprsInvalid => [3]
  | validPackets => [1]
  | invalidPackets => [2]
  | _ => []

/-- The sub-identifiers of the object at a number. -/
def ids (c : Column) (n : ℕ) : List ℤ := c.front ++ (n : ℤ) :: c.back

/-- What the name of a statistic is in front of the id of its tranceiver, and behind it. -/
def nameParts : Column → StdString × StdString
  | inOctets => ([], str "-ifInOctets")
  | hcInOctets => ([], str "-ifHCInOctets")
  | inUcastPkts => ([], str "-ifInUcastPkts")
  | outOctets => ([], str "-ifOutOctets")
  | hcOutOctets => ([], str "-ifHCOutOctets")
  | outUcastPkts => ([], str "-ifOutUcastPkts")
  | seenHit => (str "seen-", str "-hit")
  | seenMiss => (str "seen-", str "-miss")
  | aprsFrames => ([], str "-aprs-frames")
  | aprsRateLimited => ([], str "-aprs-frames-rate-limited")
  | aprsInvalid => ([], str "-aprs-frames-invalid")
  | validPackets => ([], str "-valid-packets")
  | invalidPackets => ([], str "-invalid-packets")
  | _ => ([], [])

def name (c : Column) (id : StdString) : StdString := c.nameParts.1 ++ id ++ c.nameParts.2

def type : Column → IntegerType
  | inOctets => .counter32
  | inUcastPkts => .counter32
  | outOctets => .counter32
  | outUcastPkts => .counter32
  | _ => .counter64

end Column

/-! ## Keys -/

/-- A column and a number. -/
abbrev Key := Column × ℕ

def Key.ids (k : Key) : List ℤ := k.1.ids k.2

def Key.text (k : Key) : StdString := oidText k.ids

/-- The octets of the OID of a key. -/
def Key.octets (k : Key) : List UInt8 :=
  43 :: (k.ids.drop 2).flatMap fun i => Base128.encode i.toNat

/-! ## Objects -/

/-- What is registered at a key: an element, the time since a start, or the statistic with a
name. -/
inductive Item where
  | static (e : Elem)
  | runningSince (since : UInt64)
  | statistic (name : StdString)

/-- A key with what is registered at it. -/
abbrev Object := Key × Item

namespace Object

/-- What the tree has for an object. -/
def data (s : Store) (x : Object) : SnmpDataType :=
  match x.2 with
  | .static e => .static e
  | .runningSince since => .runningSince since
  | .statistic name => (s.findStat name).elim (.static .null) (.stats x.1.1.type)

/-- The entry of a statistic that was not counted yet. -/
def entry (x : Object) : Option Entry :=
  match x.2 with
  | .statistic name => some (.fresh name x.1.text x.1.1.type)
  | _ => none

/-- What is to be sent for an object at a time, with the statistics of a table. -/
def value (table : Table) (us : UInt64) (x : Object) : Elem :=
  match x.2 with
  | .static e => e
  | .runningSince since => runningSinceGetData since us
  | .statistic name =>
      (table.find? (·.name = name)).elim .null fun e => statsGetData x.1.1.type e.value

end Object

/-- The statistics among the objects, before anything is counted. -/
def tableOf (objects : List Object) : Table := objects.filterMap Object.entry

/-- An integer made of an `int`. -/
def intElem (n : ℕ) : Elem := .integer .integer (Int32.ofNat n).toInt64.toUInt64

namespace Tranceiver

variable (t : Tranceiver)

/-- The columns of the statistics of the constructor. -/
def constructorColumns : List Column :=
  match t.kind with
  | .aprsSi => [.aprsFrames, .aprsRateLimited, .aprsInvalid]
  | .loraSx1278 => [.validPackets, .invalidPackets]
  | .other => []

/-- The columns of the statistics that every tranceiver has, and of those of its `s`. -/
def counterColumns : List Column :=
  [.inOctets, .hcInOctets, .inUcastPkts, .outOctets, .hcOutOctets, .outUcastPkts] ++
    if t.limited then [.seenHit, .seenMiss] else []

/-- The columns of all its statistics. -/
def columns : List Column := t.constructorColumns ++ t.counterColumns

/-- The statistics in columns, at a number. -/
def statistics (columns : List Column) (n : ℕ) : List Object :=
  columns.map fun c => ((c, n), .statistic (c.name t.id))

/-- The objects of the loop of `load_tranceivers`. -/
def interface (n : ℕ) : List Object :=
  [((.ifIndex, n), .static (intElem n)), ((.ifName, n), .static (.octetString t.id)),
    ((.ifDescr, n), .static (.octetString t.typeName)), ((.status, n), .static (intElem 1))] ++
    t.statistics t.counterColumns n

end Tranceiver

/-- The objects of an agent that listens on a port. -/
def systemObjects (runningSince : UInt64) : List Object :=
  [((.system, 1), .static (.octetString (str "lora_aprs_gw"))),
    ((.system, 2), .static (.oid (snmpOid (str "1.3.6.1.2.1.4.57850.2")).written)),
    ((.system, 3), .runningSince runningSince),
    ((.system, 4), .static (.octetString (str "Folkert van Heusden <mail@vanheusden.com>"))),
    ((.system, 5), .static (.octetString (str "lora_aprs_gw"))),
    ((.system, 6), .static (.octetString (str "Earth"))),
    ((.system, 7), .static (intElem 254)), ((.system, 8), .static (intElem 0))]

namespace Section

/-- The objects that a section registers, in their order. -/
def objects : Section → List Object
  | .tranceivers ts =>
      (ts.zipIdx.flatMap fun t => t.1.statistics t.1.constructorColumns (t.2 + 1)) ++
        [((.ifNumber, 0), .static (intElem ts.length))] ++
        ts.zipIdx.flatMap fun t => t.1.interface (t.2 + 1)
  | .snmp settings runningSince =>
      match snmpPort settings with
      | .ok port => if port = -1 then [] else systemObjects runningSince
      | .error _ => []
  | _ => []

def instances : Section → List Tranceiver
  | .tranceivers ts => ts
  | _ => []

end Section

/-- The name of a section in the file. -/
inductive SectionName where
  | filters
  | general
  | tranceivers
  | bridgeMappings
  | routingMappings
  | snmp
  | other (name : StdString)
deriving DecidableEq

def Section.name : Section → SectionName
  | .filters _ _ => .filters
  | .general _ _ => .general
  | .tranceivers _ => .tranceivers
  | .bridgeMappings _ => .bridgeMappings
  | .routingMappings _ => .routingMappings
  | .snmp _ _ => .snmp
  | .other _ name => .other name

/-- A file has each section at most once. -/
structure File where
  sections : List Section
  distinct : (sections.map Section.name).Nodup

namespace File

variable (f : File)

def objects : List Object := f.sections.flatMap Section.objects

def tranceivers : List Tranceiver := f.sections.flatMap Section.instances

/-- How many statistics the tranceivers have together. -/
def statistics : ℕ := (f.tranceivers.map fun t => t.columns.length).sum

end File

/-! ## Requests -/

/-- A call that counts, and registers nothing. -/
def Counting : Call → Prop
  | .registerStat _ _ _ => False
  | _ => True

/-- Integers of at most 8 bytes, and a community of at most 32. -/
structure Modest (m : Manager) : Prop where
  version : m.version.length ≤ 8
  community : m.community.length ≤ 32
  reqId : ∀ n, (m.reqId n).length ≤ 8

/-- The octets of 1.3.6.1.2.1, where all objects are. -/
def mib : List UInt8 := [43, 6, 1, 2, 1]

/-- What `input` sends for a datagram, from a store at a time. -/
def serve (s : Store) (us : UInt64) (beyond : ℕ → UInt8) (datagram : List UInt8) :
    Option (List UInt8) :=
  ((input ⟨datagram, beyond⟩ (nextName s.sd)
      (fun oid => (findByOid s.sd oid).map (·.map (s.getData us))) (datagram.length + 2)).bind
    id).map (·.out.bytes)

end HamRouter.Configuration
