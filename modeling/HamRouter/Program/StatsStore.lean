import HamRouter.Library.Records
import HamRouter.Program.SnmpData
import HamRouter.Program.Stats
import Mathlib.Data.List.AList

/-! # The statistics of `stats.cpp`

The counters are in a segment of shared memory, their places in a map by name, and those with an
OID in the SNMP tree. Sizes are far below the limits of an `int`. -/

namespace HamRouter.Stats

open Memory Snmp

/-- `stats_t`: where the two words of a statistic are in the segment, and its OID. -/
structure StatsT where
  p : ℕ
  oid : StdString
deriving DecidableEq

/-- An object in the SNMP tree: one that is always answered alike (`snmp_data_type_static`
and `snmp_data_type_oid`), a `snmp_data_type_stats` with its type and the place of its counter,
or a `snmp_data_type_running_since` with the time it was made. -/
inductive SnmpDataType where
  | static (e : Elem)
  | stats (type : IntegerType) (counter : ℕ)
  | runningSince (runningSince : UInt64)

/-- A `stats`: `size`, the segment `p`, `len`, `lut` and the tree behind `sd`. -/
structure Store where
  size : ℕ
  p : Block
  len : ℕ
  lut : AList (fun _ : StdString => StatsT)
  sd : List (SnmpData.Node SnmpDataType)

/-- The constructor: the segment is cleared. -/
def Store.new (size : ℕ) (sd : List (SnmpData.Node SnmpDataType)) : Store :=
  ⟨size, ⟨List.replicate size 0, false⟩, 0, ∅, sd⟩

namespace Store

variable (s : Store)

/-- `register_stat(name, oid, type)`: the place of the counter, or the text of the error that
ends the program. -/
def registerStat (name oid : StdString) (type : IntegerType) : Except StdString (Store × ℕ) :=
  if s.len + 48 > s.size then .error (str "stats: shm is full")
  else if name ∈ s.lut then
    .error (str "stats: stat \"" ++ StdString.cStr name ++ str "\" already exists")
  else
    let pOut := s.len
    let p := (s.p.setWord pOut 0).setWord (pOut + 8) 0
    let copyN := min name.length 31
    let p := (p.memcpy (pOut + 16) (name.take copyN)).write (pOut + 16 + copyN) 0
    .ok ({ s with
      p := p
      len := s.len + 48
      lut := s.lut.insert name ⟨pOut, oid⟩
      sd := if oid = [] then s.sd else SnmpData.registerOid s.sd oid (.stats type pOut) }, pOut)

/-- `find_stat(name)`, with nothing for the null pointer. -/
def findStat (name : StdString) : Option ℕ := (s.lut.lookup name).map StatsT.p

/-- `snapshot()`. -/
def snapshot : AList (fun _ : StdString => StdString) :=
  s.lut.entries.foldl (fun out entry =>
    if entry.1 ∈ out then out else out.insert entry.1 (decimal (s.p.word entry.2.p).toNat)) ∅

/-- A word changed through a pointer, unless that is null. -/
def changed (p : Option ℕ) (f : UInt64 → UInt64) : Store :=
  match p with
  | none => s
  | some p => { s with p := s.p.setWord p (f (s.p.word p)) }

/-- `stats_inc_counter(p)`. -/
def incCounter (p : Option ℕ) : Store := s.changed p statsIncCounter

/-- `stats_add_counter(p, value)`. -/
def addCounter (p : Option ℕ) (value : UInt64) : Store := s.changed p (statsAddCounter · value)

/-- `stats_set(p, value)`. -/
def set (p : Option ℕ) (value : UInt64) : Store := s.changed p fun _ => value

/-- `stats_add_average(p, val)`: first the number of values, then their sum. -/
def addAverage (p : Option ℕ) (val : ℤ) : Store :=
  (s.changed (p.map (· + 8)) statsIncCounter).changed p (statsAddCounter · (UInt64.ofInt val))

/-- `get_data()` of an object in the tree, when `get_us()` gives this time. -/
def getData (us : UInt64) : SnmpDataType → Elem
  | .static e => e
  | .stats type counter => statsGetData type (s.p.word counter)
  | .runningSince runningSince => runningSinceGetData runningSince us

end Store

/-- A call, for a counter that the caller found by its name. -/
inductive Call where
  | registerStat (name oid : StdString) (type : IntegerType)
  | incCounter (name : StdString)
  | addCounter (name : StdString) (value : UInt64)
  | set (name : StdString) (value : UInt64)
  | addAverage (name : StdString) (val : ℤ)

def Store.call (s : Store) : Call → Except StdString Store
  | .registerStat name oid type => (s.registerStat name oid type).map Prod.fst
  | .incCounter name => .ok (s.incCounter (s.findStat name))
  | .addCounter name value => .ok (s.addCounter (s.findStat name) value)
  | .set name value => .ok (s.set (s.findStat name) value)
  | .addAverage name val => .ok (s.addAverage (s.findStat name) val)

def Store.run (s : Store) (calls : List Call) : Except StdString Store :=
  calls.foldlM Store.call s

end HamRouter.Stats
