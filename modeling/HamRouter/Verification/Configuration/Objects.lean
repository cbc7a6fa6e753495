import HamRouter.Library.Appending
import HamRouter.Model.ManagedObjects
import HamRouter.Verification.Snmp.Tree
import HamRouter.Verification.Stats.Store

/-! # The objects that are registered

No OID of a configuration is a beginning of another, and each step of `configuration.cpp` adds
the objects of its own keys behind those that are there. -/

namespace HamRouter.Configuration

open Snmp SnmpData Stats

/-! ## Columns -/

namespace Column

theorem mem_all (c : Column) : c ∈ all := by
  cases c <;> decide

/-- Columns whose fronts begin with each other have the same, and are told apart behind the
number. -/
theorem apart :
    ∀ c ∈ all, ∀ c' ∈ all, c.front <+: c'.front →
      c.front = c'.front ∧ (c.back <+: c'.back → c = c') := by
  decide

theorem ids_prefix {c c' : Column} {n n' : ℕ} (h : c.ids n <+: c'.ids n') :
    c = c' ∧ n = n' := by
  have hfronts : c.front <+: c'.front ∨ c'.front <+: c.front :=
    List.prefix_or_prefix_of_prefix ((List.prefix_append _ _).trans h) (List.prefix_append _ _)
  have hsame : c.front = c'.front := by
    rcases hfronts with hle | hle
    · exact (apart c (mem_all c) c' (mem_all c') hle).1
    · exact (apart c' (mem_all c') c (mem_all c) hle).1.symm
  rw [ids, ids, hsame, List.prefix_append_right_inj, List.cons_prefix_cons] at h
  have hbacks := (apart c (mem_all c) c' (mem_all c') (by rw [hsame])).2 h.2
  exact ⟨hbacks, Int.natCast_inj.mp h.1⟩

/-- The text in front of the number. -/
def frontText : Column → StdString
  | system => str "1.3.6.1.2.1.1."
  | ifNumber => str "1.3.6.1.2.1.2.1."
  | ifIndex => str "1.3.6.1.2.1.2.2.1.1."
  | ifName => str "1.3.6.1.2.1.31.1.1.1.1."
  | ifDescr => str "1.3.6.1.2.1.2.2.1.2.1."
  | status => str "1.3.6.1.2.1.17.1.4.1."
  | inOctets => str "1.3.6.1.2.1.2.2.1.10."
  | hcInOctets => str "1.3.6.1.2.1.31.1.1.1.6."
  | inUcastPkts => str "1.3.6.1.2.1.2.2.1.11."
  | outOctets => str "1.3.6.1.2.1.2.2.1.16."
  | hcOutOctets => str "1.3.6.1.2.1.31.1.1.1.10."
  | outUcastPkts => str "1.3.6.1.2.1.2.2.1.17."
  | seenHit => str "1.3.6.1.2.1.4.57850.2.3."
  | seenMiss => str "1.3.6.1.2.1.4.57850.2.3."
  | aprsFrames => str "1.3.6.1.2.1.4.57850.2.4."
  | aprsRateLimited => str "1.3.6.1.2.1.4.57850.2.4."
  | aprsInvalid => str "1.3.6.1.2.1.4.57850.2.4."
  | validPackets => str "1.3.6.1.2.1.4.57850.2.5."
  | invalidPackets => str "1.3.6.1.2.1.4.57850.2.5."

theorem frontText_eq (c : Column) : oidText c.front ++ str "." = c.frontText := by
  cases c <;> decide +kernel

/-- The text behind the number. -/
def backText : Column → StdString
  | system => str ".0"
  | seenHit => str ".1"
  | seenMiss => str ".2"
  | aprsFrames => str ".1"
  | aprsRateLimited => str ".2"
  | aprsInvalid => str ".3"
  | validPackets => str ".1"
  | invalidPackets => str ".2"
  | _ => []

theorem backText_eq (c : Column) : (c.back.flatMap fun i => ch '.' :: formatInt i) = c.backText := by
  cases c <;> decide +kernel

end Column

theorem oidText_append_dotted {ids : List ℤ} (hne : ids ≠ []) (more : List ℤ) :
    oidText (ids ++ more) = oidText ids ++ more.flatMap fun i => ch '.' :: formatInt i := by
  induction more generalizing ids with
  | nil => simp
  | cons i more ih =>
      have hstep := ih (show ids ++ [i] ≠ [] by simp)
      rw [List.append_cons, hstep, oidText_snoc, extendOid, if_neg (oidText_ne_nil hne),
        List.flatMap_cons]
      simp [str]

/-- The text of a key is that of its column with the number in it. -/
theorem Key.text_eq (c : Column) (n : ℕ) :
    Key.text (c, n) = c.frontText ++ decimal n ++ c.backText := by
  have hfront : c.front ≠ [] := by cases c <;> decide
  have hdot : str "." = [ch '.'] := rfl
  have hnumber : formatInt (n : ℤ) = decimal n := by simp [formatInt]
  rw [Key.text, Key.ids, Column.ids, oidText_append_dotted hfront, List.flatMap_cons, hnumber,
    Column.backText_eq, ← Column.frontText_eq, hdot]
  simp

theorem Key.text_ne_nil (k : Key) : k.text ≠ [] :=
  oidText_ne_nil (by simp [Key.ids, Column.ids])

/-! ## Statistics -/

/-- The arguments that the statistics in columns are registered with. -/
def statsIn (t : Tranceiver) (columns : List Column) (n : ℕ) : List Stat :=
  columns.map fun c => ⟨c.name t.id, Key.text (c, n), c.type⟩

theorem constructor_eq (t : Tranceiver) (n : ℕ) :
    t.constructor n = statsIn t t.constructorColumns n := by
  rw [Tranceiver.constructor, Tranceiver.constructorColumns, statsIn]
  cases t.kind with
  | aprsSi =>
      simp only [List.map_cons, List.map_nil, Key.text_eq]
      rfl
  | loraSx1278 =>
      simp only [List.map_cons, List.map_nil, Key.text_eq]
      rfl
  | other => rfl

theorem snmpCounters_eq (t : Tranceiver) (n : ℕ) :
    t.snmpCounters n = statsIn t t.counterColumns n := by
  rw [Tranceiver.snmpCounters, Tranceiver.counterColumns, statsIn]
  cases t.limited with
  | true =>
      simp only [seenCounters, if_true, List.map_append, List.map_cons, List.map_nil,
        Key.text_eq]
      simp [Column.frontText, Column.backText, Column.name, Column.nameParts, Column.type]
  | false =>
      simp only [List.map_append, List.map_cons, List.map_nil, Key.text_eq]
      simp [Column.frontText, Column.backText, Column.name, Column.nameParts, Column.type]

/-! ## What a step adds -/

/-- The statistics have names of their own and fit into the segment. -/
def Room (objects : List Object) : Prop :=
  ((tableOf objects).map Entry.name).Nodup ∧ 48 * (tableOf objects).length ≤ 8192

/-- The tree is that of the objects, registered one after the other, and beside the tree there are
just the statistics among them. -/
structure Holds (s : Store) (objects : List Object) : Prop where
  sd : s.sd = registered (objects.map fun x => (x.1.text, x.data s))
  table : Represents [] 8192 (tableOf objects)
    { s with sd := registered (tableOf objects).registrations }

theorem tableOf_append (objects added : List Object) :
    tableOf (objects ++ added) = tableOf objects ++ tableOf added :=
  List.filterMap_append

def registering : Appending Store Object where
  Holds := Holds
  Room := Room
  room h := ⟨h.table.names, h.table.fits⟩
  begins := by
    rintro objects added ⟨hnodup, hfits⟩
    rw [tableOf_append, List.map_append] at hnodup
    rw [tableOf_append, List.length_append] at hfits
    exact ⟨hnodup.of_append_left, by omega⟩

theorem registered_append (entries : List (StdString × SnmpDataType)) (oid : StdString)
    (e : SnmpDataType) :
    registered (entries ++ [(oid, e)]) = registerOid (registered entries) oid e := by
  rw [registered, registered, List.foldl_append]
  rfl

theorem Object.data_of_findStat {s s' : Store} {x : Object}
    (h : ∀ name, x.2 = .statistic name → s'.findStat name = s.findStat name) :
    x.data s' = x.data s := by
  obtain ⟨k, item⟩ := x
  cases item with
  | static e => rfl
  | runningSince since => rfl
  | statistic name => simp only [Object.data, h name rfl]

/-- An object that is no statistic is added behind the others. -/
theorem appends_registerObject {x : Object} (hx : x.entry = none) {oid : StdString}
    (hoid : x.1.text = oid) {e : SnmpDataType} (he : ∀ s, x.data s = e) :
    registering.Appends (ε := StdString) (fun s => .ok (registerObject s oid e)) [x] := by
  intro s objects h
  have htable : tableOf (objects ++ [x]) = tableOf objects := by
    rw [tableOf_append, tableOf, tableOf, List.filterMap_cons_none hx, List.filterMap_nil,
      List.append_nil]
  have hdata : ∀ x : Object, x.data (registerObject s oid e) = x.data s :=
    fun x => Object.data_of_findStat fun _ _ => rfl
  constructor
  · simp only [hdata, he, List.map_append, List.map_cons, List.map_nil]
    rw [registered_append, ← h.sd, hoid]
    rfl
  · rw [htable]
    exact h.table

theorem mem_lut_of_holds {s : Store} {objects : List Object} (h : Holds s objects)
    (name : StdString) : name ∈ s.lut ↔ name ∈ (tableOf objects).map Entry.name :=
  mem_lut_iff h.table name

theorem represents_withTree {base : List (StdString × SnmpDataType)} {size : ℕ} {table : Table}
    {s : Store} (h : Represents base size table s) {sd : List (Node SnmpDataType)}
    (hsd : sd = s.sd) : Represents base size table { s with sd := sd } := by
  rwa [hsd]

/-- Behind another statistic, what the tree has for the objects is the same. -/
theorem data_insert {s s' : Store} {objects : List Object} (h : Holds s objects)
    {name : StdString} (hfree : name ∉ s.lut) {place : StatsT}
    (hlut : s'.lut = s.lut.insert name place) {x : Object} (hx : x ∈ objects) :
    x.data s' = x.data s := by
  refine Object.data_of_findStat fun old hold => ?_
  have hentry : x.entry = some (.fresh old x.1.text x.1.1.type) := by rw [Object.entry, hold]
  have hmem : old ∈ (tableOf objects).map Entry.name :=
    List.mem_map_of_mem (List.mem_filterMap.mpr ⟨x, hx, hentry⟩)
  have hne : old ≠ name := fun heq => hfree (heq ▸ (mem_lut_of_holds h old).mpr hmem)
  rw [Store.findStat, Store.findStat, hlut, AList.lookup_insert_ne hne]

/-- A call of `register_stat` adds its statistic, unless the segment is full or the name is
taken. -/
theorem appends_registerStat (c : Column) (n : ℕ) (name : StdString) :
    registering.Appends
      (fun s => (s.registerStat name (Key.text (c, n)) c.type).map Prod.fst)
      [((c, n), .statistic name)] := by
  intro s objects h
  have htable : tableOf (objects ++ [((c, n), .statistic name)]) =
      tableOf objects ++ [.fresh name (Key.text (c, n)) c.type] := by
    rw [tableOf_append]
    rfl
  have hlen : s.len = 48 * (tableOf objects).length := h.table.len
  have hsize : s.size = 8192 := h.table.size_eq
  change registering.Reaches _ ((s.registerStat name (Key.text (c, n)) c.type).map Prod.fst)
  rw [Store.registerStat]
  split
  · rename_i hfull
    rintro ⟨-, hfits⟩
    rw [htable, List.length_append, List.length_singleton] at hfits
    omega
  · rename_i hfits
    split
    · rename_i htaken
      rintro ⟨hnodup, -⟩
      rw [htable, List.map_append] at hnodup
      exact (List.nodup_append.mp hnodup).2.2 name ((mem_lut_of_holds h name).mp htaken) name
        (List.mem_singleton_self name) rfl
    · rename_i hfree
      have hnames := mt (mem_lut_of_holds h name).mpr hfree
      obtain ⟨s', hcall, htable'⟩ := h.table.registerStat name (Key.text (c, n)) c.type
        (by omega) hnames
      rw [Store.registerStat, if_neg hfits, if_neg hfree] at hcall
      have hs' := (Prod.mk.inj (Except.ok.inj hcall)).1
      constructor
      · have hnew : ∀ s' : Store, s'.lut = s.lut.insert name ⟨s.len, Key.text (c, n)⟩ →
            Object.data s' ((c, n), .statistic name) = .stats c.type s.len := by
          intro s' hlut
          simp only [Object.data, Store.findStat, hlut, AList.lookup_insert]
          rfl
        rw [List.map_append, List.map_singleton, registered_append, hnew _ rfl,
          List.map_congr_left fun x hx => by rw [data_insert h hfree rfl hx], ← h.sd]
        exact if_neg (Key.text_ne_nil (c, n))
      · rw [htable]
        subst hs'
        exact represents_withTree htable' htable'.tree.symm

theorem appends_registerStats (t : Tranceiver) (columns : List Column) (n : ℕ) :
    registering.Appends (fun s => registerStats s (statsIn t columns n))
      (t.statistics columns n) := by
  have hsteps := Appending.Appends.foldlM fun c (_ : c ∈ columns) =>
    appends_registerStat c n (c.name t.id)
  simp only [registerStats, statsIn, List.foldlM_map]
  rwa [← List.map_eq_flatMap] at hsteps

/-! ## The sections of a file -/

theorem appends_loadInterface (t : Tranceiver) (n : ℕ) :
    registering.Appends (fun s => loadInterface s t n) (t.interface n) := by
  have htext : ∀ c : Column, c.backText = [] → Key.text (c, n) = c.frontText ++ decimal n := by
    intro c hc
    rw [Key.text_eq, hc, List.append_nil]
  simp only [loadInterface, snmpCounters_eq]
  have hstatic := fun c hc e =>
    appends_registerObject (x := ((c, n), .static e)) rfl (htext c hc) fun _ => rfl
  exact (hstatic .ifIndex rfl (intElem n)).comp ((hstatic .ifName rfl (.octetString t.id)).comp
    ((hstatic .ifDescr rfl (.octetString t.typeName)).comp
      ((hstatic .status rfl (intElem 1)).comp (appends_registerStats t t.counterColumns n))))

theorem appends_loadTranceivers (ts : List Tranceiver) :
    registering.Appends (loadTranceivers · ts) (Section.tranceivers ts).objects := by
  have hconstructors := Appending.Appends.foldlM fun t (_ : t ∈ ts.zipIdx) =>
    appends_registerStats t.1 t.1.constructorColumns (t.2 + 1)
  have hnumber := appends_registerObject (x := ((.ifNumber, 0), .static (intElem ts.length))) rfl
    (Key.text_eq .ifNumber 0) fun _ => rfl
  have hinterfaces := Appending.Appends.foldlM fun t (_ : t ∈ ts.zipIdx) =>
    appends_loadInterface t.1 (t.2 + 1)
  simp only [loadTranceivers, constructor_eq]
  rw [Section.objects, List.append_assoc]
  exact hconstructors.bind (hnumber.comp hinterfaces)

theorem appends_loadSnmp (port : ℤ) (runningSince : UInt64) :
    registering.Appends (ε := StdString) (fun s => .ok (loadSnmp s port runningSince))
      (if port = -1 then [] else systemObjects runningSince) := by
  simp only [loadSnmp]
  split
  · exact .refl
  · have hobject : ∀ (n : ℕ) (oid : StdString) (item : Item) {e : SnmpDataType},
        str "1.3.6.1.2.1.1." ++ decimal n ++ str ".0" = oid →
        Object.entry ((.system, n), item) = none → (∀ s, Object.data s ((.system, n), item) = e) →
        registering.Appends (ε := StdString) (fun s => .ok (registerObject s oid e))
          [((.system, n), item)] :=
      fun n oid _ _ hoid hentry hdata =>
        appends_registerObject hentry ((Key.text_eq .system n).trans hoid) hdata
    have hstatic := fun (n : ℕ) (oid : StdString) hoid (e : Elem) =>
      hobject n oid (.static e) hoid rfl fun _ => rfl
    have h1 := hstatic 1 (str "1.3.6.1.2.1.1.1.0") rfl (.octetString (str "lora_aprs_gw"))
    have h2 := hstatic 2 (str "1.3.6.1.2.1.1.2.0") rfl
      (.oid (snmpOid (str "1.3.6.1.2.1.4.57850.2")).written)
    have h3 := hobject 3 (str "1.3.6.1.2.1.1.3.0") (.runningSince runningSince) rfl rfl fun _ => rfl
    have h4 := hstatic 4 (str "1.3.6.1.2.1.1.4.0") rfl
      (.octetString (str "Folkert van Heusden <mail@vanheusden.com>"))
    have h5 := hstatic 5 (str "1.3.6.1.2.1.1.5.0") rfl (.octetString (str "lora_aprs_gw"))
    have h6 := hstatic 6 (str "1.3.6.1.2.1.1.6.0") rfl (.octetString (str "Earth"))
    have h7 := hstatic 7 (str "1.3.6.1.2.1.1.7.0") rfl (intElem 254)
    have h8 := hstatic 8 (str "1.3.6.1.2.1.1.8.0") rfl (intElem 0)
    have hall := h1.comp (h2.comp (h3.comp (h4.comp (h5.comp (h6.comp (h7.comp h8))))))
    simpa only [systemObjects, List.singleton_append, staticText, staticInt, intElem] using hall

theorem appends_load (sections : List Section) :
    registering.Appends (fun s => sections.foldlM loadSection s)
      (sections.flatMap Section.objects) := by
  refine .foldlM fun c _ => ?_
  cases c with
  | tranceivers ts => exact appends_loadTranceivers ts
  | snmp settings runningSince =>
      rw [Section.objects]
      simp only [loadSection]
      cases snmpPort settings with
      | error e => exact .refl
      | ok port => exact appends_loadSnmp port runningSince
  | filters line nodes => exact .refl
  | bridgeMappings nodes => exact .refl
  | routingMappings nodes => exact .refl
  | general line settings => exact .refl
  | other line name => exact .refl

/-- Loading ends in a store that holds the objects of the sections, unless there is no room for
their statistics. -/
theorem reaches_load (sections : List Section) :
    registering.Reaches (sections.flatMap Section.objects) (load sections) := by
  have hnew : Holds (.new 8192 []) [] := by
    refine ⟨rfl, ?_⟩
    exact Represents.new [] 8192
  exact appends_load sections _ _ hnew

end HamRouter.Configuration
