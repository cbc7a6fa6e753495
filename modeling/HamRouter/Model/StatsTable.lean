import HamRouter.Program.StatsStore

/-! # What the statistics are

A table of named counters, in the order in which they were registered. -/

namespace HamRouter.Stats

open Memory Snmp

/-- A statistic: a counter, and for averages the number of values that were added to it. -/
structure Entry where
  name : StdString
  oid : StdString
  type : IntegerType
  value : UInt64
  count : UInt64

/-- A statistic that was just registered. -/
def Entry.fresh (name oid : StdString) (type : IntegerType) : Entry := ⟨name, oid, type, 0, 0⟩

/-- The statistics that fit into `size` bytes. -/
abbrev Table := List Entry

namespace Table

/-- The entry of a name changed. -/
def update (table : Table) (name : StdString) (f : Entry → Entry) : Table :=
  table.map fun e => if e.name = name then f e else e

def call (size : ℕ) (table : Table) : Call → Except StdString Table
  | .registerStat name oid type =>
      if size < 48 * (table.length + 1) then .error (str "stats: shm is full")
      else if table.any (·.name = name) then
        .error (str "stats: stat \"" ++ StdString.cStr name ++ str "\" already exists")
      else .ok (table ++ [.fresh name oid type])
  | .incCounter name => .ok (table.update name fun e => { e with value := e.value + 1 })
  | .addCounter name value => .ok (table.update name fun e => { e with value := e.value + value })
  | .set name value => .ok (table.update name fun e => { e with value := value })
  | .addAverage name val =>
      .ok (table.update name fun e =>
        { e with value := e.value + UInt64.ofInt val, count := e.count + 1 })

def run (size : ℕ) (table : Table) (calls : List Call) : Except StdString Table :=
  calls.foldlM (call size) table

end Table

/-! ## The segment -/

/-- The beginning of the name, with zeros behind it. -/
def Entry.nameField (e : Entry) : List UInt8 :=
  e.name.take 31 ++ List.replicate (32 - min e.name.length 31) 0

/-- The bytes of a statistic: two words and the name. -/
def Entry.bytes (e : Entry) : List UInt8 := wordBytes e.value ++ wordBytes e.count ++ e.nameField

/-- Where the statistics are. -/
def Table.places (table : Table) : List (StdString × StatsT) :=
  table.zipIdx.map fun e => (e.1.name, ⟨48 * e.2, e.1.oid⟩)

/-- The objects that the statistics put into the SNMP tree. -/
def Table.registrations (table : Table) : List (StdString × SnmpDataType) :=
  (table.zipIdx.map fun e => (e.1.oid, .stats e.1.type (48 * e.2))).filter (·.1 ≠ [])

/-- The store holds the table, behind what was registered in the tree before. -/
structure Represents (base : List (StdString × SnmpDataType)) (size : ℕ) (table : Table)
    (s : Store) : Prop where
  size_eq : s.size = size
  fits : 48 * table.length ≤ size
  segment : s.p = ⟨table.flatMap Entry.bytes ++ List.replicate (size - 48 * table.length) 0, false⟩
  len : s.len = 48 * table.length
  names : (table.map Entry.name).Nodup
  lut : ∀ name, s.lut.lookup name = table.places.lookup name
  tree : s.sd = SnmpData.registered (base ++ table.registrations)

/-- The same error, or a store that holds the table. -/
def Follows (base : List (StdString × SnmpDataType)) (size : ℕ) :
    Except StdString Table → Except StdString Store → Prop
  | .ok table, .ok s => Represents base size table s
  | .error e, .error e' => e = e'
  | _, _ => False

end HamRouter.Stats
