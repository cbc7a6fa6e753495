import HamRouter.Verification.Configuration.Capacity
import HamRouter.Verification.Configuration.Counting
import HamRouter.Verification.Snmp.Manager
import Mathlib.Algebra.Order.BigOperators.Group.List

/-! # A manager that walks over a configuration

Between the start of the router and each request other statistics may be counted. The manager
gets all objects of the configuration, in the order of their OIDs, and the statistics as they were
counted before each request. -/

namespace HamRouter.Configuration

open Snmp SnmpData Stats

/-! ## Keys -/

namespace Tranceiver

variable (t : Tranceiver)

/-- The columns of a tranceiver. -/
def allColumns : List Column :=
  t.constructorColumns ++ ([.ifIndex, .ifName, .ifDescr, .status] ++ t.counterColumns)

theorem nodup_allColumns : t.allColumns.Nodup := by
  rw [allColumns, constructorColumns, counterColumns]
  cases t.kind <;> cases t.limited <;> decide

theorem system_notMem : .system ∉ t.allColumns := by
  rw [allColumns, constructorColumns, counterColumns]
  cases t.kind <;> cases t.limited <;> decide

def keys (n : ℕ) : List Key := t.allColumns.map (·, n)

end Tranceiver

theorem keys_tranceivers (ts : List Tranceiver) :
    ((Section.tranceivers ts).objects.map Prod.fst).Perm
      ((.ifNumber, 0) :: ts.zipIdx.flatMap fun t => t.1.keys (t.2 + 1)) := by
  have hkeys : ∀ (t : Tranceiver) n, (t.statistics t.constructorColumns n).map Prod.fst ++
      (t.interface n).map Prod.fst = t.keys n := by
    intro t n
    simp [Tranceiver.keys, Tranceiver.allColumns, Tranceiver.statistics, Tranceiver.interface,
      Function.comp_def]
  simp only [← hkeys]
  rw [Section.objects, List.map_append, List.map_append, List.map_flatMap, List.map_flatMap]
  refine (List.perm_append_comm.append_right _).trans ?_
  exact (List.flatMap_append_perm _ _ _).cons _

theorem nodup_keys_tranceivers (ts : List Tranceiver) :
    ((Section.tranceivers ts).objects.map Prod.fst).Nodup := by
  refine (keys_tranceivers ts).nodup_iff.mpr (List.nodup_cons.mpr ⟨?_, ?_⟩)
  · intro hmem
    obtain ⟨t, -, ht⟩ := List.mem_flatMap.mp hmem
    obtain ⟨c, -, heq⟩ := List.mem_map.mp ht
    exact Nat.succ_ne_zero t.2 (Prod.mk.inj heq).2
  · refine List.nodup_flatMap.mpr ⟨fun t _ => ?_, ?_⟩
    · exact t.1.nodup_allColumns.map (Prod.mk_left_injective _)
    · have hnumbers : (ts.zipIdx.map Prod.snd).Nodup := by
        rw [List.zipIdx_map_snd]
        exact List.nodup_range'
      refine (List.pairwise_map.mp hnumbers).imp fun hne k hk hk' => hne ?_
      obtain ⟨c, -, rfl⟩ := List.mem_map.mp hk
      obtain ⟨c', -, heq⟩ := List.mem_map.mp hk'
      exact (Nat.succ.inj (Prod.mk.inj heq).2).symm

theorem mem_systemObjects {settings : List Setting} {runningSince : UInt64} {x : Object}
    (hx : x ∈ (Section.snmp settings runningSince).objects) : x ∈ systemObjects runningSince := by
  rw [Section.objects] at hx
  split at hx
  · split at hx
    · cases hx
    · exact hx
  · cases hx

/-- The number of an object is that of a tranceiver, or below 9, and its column tells the
section. -/
theorem number_le (c : Section) {x : Object} (hx : x ∈ c.objects) :
    x.1.2 ≤ max c.instances.length 8 ∧
      c.name = if x.1.1 = .system then .snmp else .tranceivers := by
  cases c with
  | tranceivers ts =>
      rcases List.mem_cons.mp ((keys_tranceivers ts).mem_iff.mp (List.mem_map_of_mem hx)) with
        hnumber | hmem
      · rw [hnumber]
        exact ⟨Nat.zero_le _, by simp [Section.name]⟩
      · obtain ⟨t, ht, hkey⟩ := List.mem_flatMap.mp hmem
        obtain ⟨c, hc, heq⟩ := List.mem_map.mp hkey
        have hlt : t.2 < ts.length := by
          have := List.snd_lt_of_mem_zipIdx ht
          omega
        rw [← heq]
        refine ⟨(Nat.succ_le_of_lt hlt).trans (le_max_left _ _), ?_⟩
        have hne : c ≠ .system := fun h => t.1.system_notMem (h ▸ hc)
        simp [Section.name, hne]
  | filters line nodes => cases hx
  | bridgeMappings nodes => cases hx
  | routingMappings nodes => cases hx
  | general line settings => cases hx
  | other line name => cases hx
  | snmp settings runningSince =>
      have hsystem := mem_systemObjects hx
      clear hx
      revert x
      simp [systemObjects, Section.name]

namespace File

variable (f : File)

theorem nodup_keys : (f.objects.map Prod.fst).Nodup := by
  rw [objects, List.map_flatMap]
  refine List.nodup_flatMap.mpr ⟨fun c _ => ?_, ?_⟩
  · cases c with
    | tranceivers ts => exact nodup_keys_tranceivers ts
    | snmp settings runningSince =>
        rw [Section.objects]
        split
        · split
          · exact List.nodup_nil
          · simp only [systemObjects, List.map_cons, List.map_nil]
            decide
        · exact List.nodup_nil
    | filters line nodes => exact List.nodup_nil
    | bridgeMappings nodes => exact List.nodup_nil
    | routingMappings nodes => exact List.nodup_nil
    | general line settings => exact List.nodup_nil
    | other line name => exact List.nodup_nil
  · refine (List.pairwise_map.mp f.distinct).imp fun {c c'} hne k hk hk' => hne ?_
    obtain ⟨x, hx, rfl⟩ := List.mem_map.mp hk
    obtain ⟨x', hx', heq⟩ := List.mem_map.mp hk'
    rw [(number_le c hx).2, (number_le c' hx').2, heq]

theorem length_tranceivers (hroom : Room f.objects) : f.tranceivers.length ≤ 28 := by
  have hfits := (f.room_iff.mp hroom).2
  have hsum : f.tranceivers.length * 6 ≤ f.statistics := by
    rw [statistics, ← List.length_map (fun t : Tranceiver => t.columns.length)]
    refine List.card_nsmul_le_sum _ 6 fun n hn => ?_
    obtain ⟨t, -, rfl⟩ := List.mem_map.mp hn
    simp only [Tranceiver.columns, Tranceiver.counterColumns, List.length_append, List.length_cons]
    omega
  omega

theorem number_lt (hroom : Room f.objects) {x : Object} (hx : x ∈ f.objects) : x.1.2 < 128 := by
  obtain ⟨c, hc, hmem⟩ := List.mem_flatMap.mp hx
  have hinstances : c.instances.length ≤ f.tranceivers.length := by
    rw [tranceivers, List.length_flatMap]
    exact List.single_le_sum (fun _ _ => Nat.zero_le _) _ (List.mem_map_of_mem hc)
  have hle := (number_le c hmem).1
  have hlength := f.length_tranceivers hroom
  omega

end File

/-! ## OIDs -/

theorem bounded_ids (c : Column) :
    ∀ i ∈ c.front ++ c.back, 0 ≤ i ∧ i < 2147483648 := by
  cases c <;> decide

theorem Key.ids_ne_nil (k : Key) : k.ids ≠ [] :=
  List.append_ne_nil_of_right_ne_nil _ (List.cons_ne_nil _ _)

theorem Key.bounded {k : Key} (h : k.2 < 128) : ∀ i ∈ k.ids, 0 ≤ i ∧ i < 2147483648 := by
  intro i hi
  rcases List.mem_append.mp hi with hfront | hrest
  · exact bounded_ids k.1 i (List.mem_append_left _ hfront)
  · rcases List.mem_cons.mp hrest with rfl | hback
    · omega
    · exact bounded_ids k.1 i (List.mem_append_right _ hback)

/-- The OID of a key, for a number below 128. -/
def Key.oid (k : Key) : Oid :=
  ⟨Key.ids (k.1, k.2 % 128), Key.ids_ne_nil _, Key.bounded (Nat.mod_lt _ (Nat.succ_pos 127))⟩

theorem Key.ids_oid {k : Key} (h : k.2 < 128) : k.oid.ids = k.ids := by
  change Key.ids (k.1, k.2 % 128) = k.ids
  rw [Nat.mod_eq_of_lt h]

theorem below_mib (c : Column) : [1, 3, 6, 1, 2, 1] <+: c.front := by
  cases c <;> decide

theorem mib_prefix (k : Key) : [1, 3, 6, 1, 2, 1] <+: k.ids ∧ [1, 3, 6, 1, 2, 1] ≠ k.ids := by
  refine ⟨(below_mib k.1).trans (List.prefix_append _ _), fun heq => ?_⟩
  have hlength := congrArg List.length heq
  have hfront := (below_mib k.1).length_le
  rw [Key.ids, Column.ids, List.length_append, List.length_cons] at hlength
  simp only [List.length_cons, List.length_nil] at hlength hfront
  omega

theorem length_column (c : Column) :
    2 ≤ c.front.length ∧ ((c.front.drop 2).flatMap fun i => Base128.encode i.toNat).length +
      (c.back.flatMap fun i => Base128.encode i.toNat).length ≤ 12 := by
  cases c <;> simp [Column.front, Column.back, Base128.encode]

theorem length_octets {k : Key} (h : k.2 < 128) : k.octets.length ≤ 14 := by
  have hnumber : Base128.encode k.2 = [UInt8.ofNat k.2] := by
    rw [Base128.encode, Nat.div_eq_of_lt h, Nat.mod_eq_of_lt h]
    rfl
  obtain ⟨htwo, hle⟩ := length_column k.1
  rw [Key.octets, Key.ids, Column.ids, List.drop_append_of_le_length htwo, List.flatMap_append,
    List.flatMap_cons, Int.toNat_natCast, hnumber]
  simp only [List.length_cons, List.length_append, List.length_nil]
  omega

/-! ## Values -/

/-- An element of at most 150 bytes. -/
def Small (e : Elem) : Prop := e.Fits ∧ e.contentLength ≤ 150

theorem small_integer (type : IntegerType) (v : UInt64) : Small (.integer type v) := by
  refine ⟨trivial, ?_⟩
  rw [Elem.contentLength]
  split <;> decide

theorem small_of_length {bytes : List UInt8} (h : bytes.length ≤ 150) :
    Small (.octetString bytes) ∧ Small (.oid bytes) := by
  have hle : bytes.length % 256 ≤ 150 := (Nat.mod_le _ _).trans h
  have hfits : bytes.length % 256 ≤ 253 := by omega
  exact ⟨⟨hfits, hle⟩, ⟨hfits, hle⟩⟩

theorem small_interface {t : Tranceiver} (hid : t.id.length ≤ 150)
    (hname : t.typeName.length ≤ 150) {k : Key} {e : Elem} {n : ℕ}
    (hx : (k, .static e) ∈ t.interface n) : Small e := by
  rcases List.mem_append.mp hx with hstatic | hcounter
  · simp only [List.mem_cons, List.not_mem_nil, or_false, Prod.mk.injEq, Item.static.injEq]
      at hstatic
    rcases hstatic with ⟨-, rfl⟩ | ⟨-, rfl⟩ | ⟨-, rfl⟩ | ⟨-, rfl⟩
    · exact small_integer _ _
    · exact (small_of_length hid).1
    · exact (small_of_length hname).1
    · exact small_integer _ _
  · obtain ⟨c, -, heq⟩ := List.mem_map.mp hcounter
    cases heq

theorem small_system {runningSince : UInt64} {k : Key} {e : Elem}
    (hx : (k, .static e) ∈ systemObjects runningSince) : Small e := by
  simp only [systemObjects, List.mem_cons, List.not_mem_nil, or_false, Prod.mk.injEq,
    Item.static.injEq, reduceCtorEq, and_false, false_or] at hx
  rcases hx with ⟨-, rfl⟩ | ⟨-, rfl⟩ | ⟨-, rfl⟩ | ⟨-, rfl⟩ | ⟨-, rfl⟩ | ⟨-, rfl⟩ | ⟨-, rfl⟩
  · exact (small_of_length (by decide)).1
  · exact (small_of_length (by decide +kernel)).2
  · exact (small_of_length (by decide)).1
  · exact (small_of_length (by decide)).1
  · exact (small_of_length (by decide)).1
  · exact small_integer _ _
  · exact small_integer _ _

theorem small_static (c : Section)
    (htexts : ∀ t ∈ c.instances, t.id.length ≤ 150 ∧ t.typeName.length ≤ 150) {k : Key} {e : Elem}
    (hx : (k, .static e) ∈ c.objects) : Small e := by
  cases c with
  | tranceivers ts =>
      rcases List.mem_append.mp hx with hfront | hinterface
      · rcases List.mem_append.mp hfront with hconstructor | hnumber
        · obtain ⟨t, -, ht⟩ := List.mem_flatMap.mp hconstructor
          obtain ⟨c, -, heq⟩ := List.mem_map.mp ht
          cases heq
        · cases List.mem_singleton.mp hnumber
          exact small_integer _ _
      · obtain ⟨t, ht, hmem⟩ := List.mem_flatMap.mp hinterface
        obtain ⟨hid, hname⟩ := htexts t.1 (List.fst_mem_of_mem_zipIdx ht)
        exact small_interface hid hname hmem
  | snmp settings runningSince => exact small_system (mem_systemObjects hx)
  | filters line nodes => cases hx
  | bridgeMappings nodes => cases hx
  | routingMappings nodes => cases hx
  | general line settings => cases hx
  | other line name => cases hx

theorem small_value (f : File)
    (htexts : ∀ t ∈ f.tranceivers, t.id.length ≤ 150 ∧ t.typeName.length ≤ 150)
    {x : Object} (hx : x ∈ f.objects) (table : Table) (us : UInt64) : Small (x.value table us) := by
  obtain ⟨k, item⟩ := x
  cases item with
  | static e =>
      obtain ⟨c, hc, hmem⟩ := List.mem_flatMap.mp hx
      exact small_static c (fun t ht => htexts t (List.mem_flatMap.mpr ⟨c, hc, ht⟩)) hmem
  | runningSince since => exact small_integer _ _
  | statistic name =>
      change Small ((table.find? (·.name = name)).elim .null fun e => .integer k.1.type e.value)
      cases table.find? (·.name = name) with
      | none => exact ⟨trivial, Nat.zero_le _⟩
      | some e => exact small_integer _ _

/-! ## The walk -/

section Walk

variable {f : File} {s : Store} (h : Holds s f.objects) (hne : f.objects ≠ [])

/-- What the tree has at an OID. -/
def entryOf (s : Store) (x : Object) : Oid × SnmpDataType := (x.1.oid, x.data s)

theorem ids_entryOf (hroom : Room f.objects) {x : Object} (hx : x ∈ f.objects) :
    (entryOf s x).1.ids = x.1.ids :=
  Key.ids_oid (f.number_lt hroom hx)

theorem octetsOf_mib {o : Oid} (ho : o.ids = [1, 3, 6, 1, 2, 1]) : octetsOf o = mib := by
  rw [octetsOf, ho]
  simp [Base128.encode, mib]

/-- The router as an agent. -/
def agent (getData : ℕ → SnmpDataType → Elem) : Agent SnmpDataType where
  root := ⟨[1, 3, 6, 1, 2, 1], by decide, by decide⟩
  entries := f.objects.map (entryOf s)
  below := by
    intro entry hentry
    obtain ⟨x, -, rfl⟩ := List.mem_map.mp hentry
    exact mib_prefix _
  distinct := by
    rw [List.map_map]
    have hids : f.objects.map ((·.1.ids) ∘ entryOf s) = (f.objects.map Prod.fst).map Key.ids := by
      rw [List.map_map]
      exact List.map_congr_left fun x hx => ids_entryOf (registering.room h) hx
    rw [hids]
    refine f.nodup_keys.map fun k k' heq => ?_
    have hsame : k.1.ids k.2 = k'.1.ids k'.2 := heq
    exact Prod.ext_iff.mpr (Column.ids_prefix (hsame ▸ List.prefix_rfl))
  unnested := by
    intro entry hentry other hother hprefix
    obtain ⟨x, -, rfl⟩ := List.mem_map.mp hentry
    obtain ⟨y, -, rfl⟩ := List.mem_map.mp hother
    obtain ⟨hcolumn, hnumber⟩ := Column.ids_prefix hprefix
    exact congrArg₂ Column.ids hcolumn hnumber
  iso := by decide
  registered := by simpa using hne
  getData := getData

theorem treeOf_agent (getData : ℕ → SnmpDataType → Elem) :
    treeOf (agent h hne getData).entries = s.sd := by
  rw [h.sd, treeOf]
  refine congrArg registered ?_
  change (f.objects.map (entryOf s)).map _ = _
  rw [List.map_map]
  refine List.map_congr_left fun x hx => ?_
  exact congrArg (fun ids => (oidText ids, x.data s)) (ids_entryOf (registering.room h) hx)

theorem octetsOf_entryOf (hroom : Room f.objects) {x : Object} (hx : x ∈ f.objects) :
    octetsOf (entryOf s x).1 = x.1.octets := by
  rw [octetsOf, ids_entryOf hroom hx, Key.octets]

theorem suits_agent {m : Manager} (hm : Modest m) {getData : ℕ → SnmpDataType → Elem}
    (hsmall : ∀ n, ∀ x ∈ f.objects, Small (getData n (x.data s))) :
    m.Suits (agent h hne getData) where
  short := by
    intro n o ho
    have hoctets : (octetsOf o).length ≤ 14 := by
      rcases List.mem_cons.mp ho with rfl | hentry
      · rw [octetsOf_mib rfl]
        decide
      · obtain ⟨entry, hmem, rfl⟩ := List.mem_map.mp hentry
        obtain ⟨x, hx, rfl⟩ := List.mem_map.mp hmem
        rw [octetsOf_entryOf (registering.room h) hx]
        exact length_octets (f.number_lt (registering.room h) hx)
    have hversion := hm.version
    have hcommunity := hm.community
    have hreqId := hm.reqId n
    simp only [Manager.datagram, length_element, List.length_append, List.length_cons,
      List.length_nil]
    omega
  values := by
    intro n entry hentry
    obtain ⟨x, hx, rfl⟩ := List.mem_map.mp hentry
    exact (hsmall n x hx).1
  room := by
    intro n entry hentry
    obtain ⟨x, hx, rfl⟩ := List.mem_map.mp hentry
    have hoctets := length_octets (f.number_lt (registering.room h) hx)
    have hvalue := (hsmall n x hx).2
    have hcommunity : (communityOf m.community).length ≤ 32 := by
      rw [communityOf]
      split
      · decide
      · exact hm.community
    have hwidth : ∀ type v, (Elem.integer type v).contentLength ≤ 8 := by
      intro type v
      rw [Elem.contentLength]
      split <;> decide
    have hversion := hwidth .integer (number m.version).toUInt32.toInt32.toInt64.toUInt64
    have hreqId := hwidth .integer (number (m.reqId n))
    rw [Manager.replyLength, octetsOf_entryOf (registering.room h) hx]
    change _ + _ + _ + _ + (getData n (x.data s)).contentLength + 28 ≤ 253
    omega

/-- After calls that count, what is sent for a datagram is what the agent sends. -/
theorem answer_agent {getData : ℕ → SnmpDataType → Elem} {stores : ℕ → Store} {us : ℕ → UInt64}
    (beyond : ℕ → ℕ → UInt8) {n : ℕ} (hsd : (stores n).sd = s.sd)
    (hdata : getData n = (stores n).getData (us n)) (datagram : List UInt8) :
    (agent h hne getData).answer beyond n datagram =
      serve (stores n) (us n) (beyond n) datagram := by
  have htree := treeOf_agent h hne getData
  have hnext : (agent h hne getData).findNext = nextName (stores n).sd := by
    funext oid
    rw [Agent.findNext, htree, hsd]
  have hat : (agent h hne getData).findAt n = fun oid =>
      (findByOid (stores n).sd oid).map (·.map ((stores n).getData (us n))) := by
    funext oid
    rw [Agent.findAt, htree, hsd, ← hdata]
    rfl
  rw [Agent.answer, serve, hnext, hat]

end Walk

/-- A manager that walks over a configuration that was loaded gets each of its objects once, in the
order of the OIDs, and the statistics as they were counted before each request. -/
theorem File.walked (f : File) {s : Store} (hload : load f.sections = .ok s)
    (htexts : ∀ t ∈ f.tranceivers, t.id.length ≤ 150 ∧ t.typeName.length ≤ 150)
    {m : Manager} (hm : Modest m) {calls : ℕ → List Call}
    (hcalls : ∀ n, ∀ c ∈ calls n, Counting c) {stores : ℕ → Store}
    (hstores : ∀ n, s.run (calls n) = .ok (stores n)) {tables : ℕ → Table}
    (htables : ∀ n, Table.run 8192 (tableOf f.objects) (calls n) = .ok (tables n))
    (us : ℕ → UInt64) (beyond : ℕ → ℕ → UInt8) {rounds : ℕ} (hrounds : f.objects.length < rounds)
    (hne : f.objects ≠ []) :
    ∃ walked : List Object, walked.Perm f.objects ∧
      walked.Pairwise (fun x y => x.1.ids < y.1.ids) ∧
      m.walk (fun n => serve (stores n) (us n) (beyond n)) rounds 0 mib =
        some (walked.zipIdx.map fun e =>
          (e.1.1.octets, (e.1.value (tables e.2) (us e.2)).getPayload.out.bytes)) := by
  have hholds : Holds s f.objects := by
    have hreaches := reaches_load f.sections
    rwa [hload] at hreaches
  have hread := fun n => read_of_holds hholds (hcalls n) (hstores n) (htables n)
  have hroom := registering.room hholds
  let a := agent hholds hne fun n => (stores n).getData (us n)
  have hsuits : m.Suits a := suits_agent hholds hne hm fun n x hx => by
    rw [(hread n).2 x hx]
    exact small_value f htexts hx _ _
  have hanswer : a.answer beyond = fun n => serve (stores n) (us n) (beyond n) := by
    funext n datagram
    exact answer_agent hholds hne beyond (hread n).1 rfl datagram
  have hlength : a.entries.length < rounds := (List.length_map (entryOf s)).symm ▸ hrounds
  have hcomp := congrFun (congrFun (List.eq_map_comp_perm (entryOf s)) a.ascending) f.objects
  obtain ⟨walked, hwalked, hperm⟩ := hcomp.mpr a.ascending_perm
  have hmem : ∀ x ∈ walked, x ∈ f.objects := fun x hx => hperm.mem_iff.mp hx
  refine ⟨walked, hperm, ?_, ?_⟩
  · have hsorted := a.ascending_pairwise
    rw [hwalked, List.pairwise_map] at hsorted
    refine hsorted.imp_of_mem fun hx hy hlt => ?_
    rwa [ids_entryOf hroom (hmem _ hx), ids_entryOf hroom (hmem _ hy)] at hlt
  · have hwalk := Manager.walk_ascending hsuits beyond hlength
    rw [hanswer, hwalked, List.zipIdx_map, List.map_map, octetsOf_mib rfl] at hwalk
    rw [hwalk]
    refine congrArg some (List.map_congr_left fun e he => ?_)
    have hx := hmem _ (List.fst_mem_of_mem_zipIdx he)
    have hoctets := octetsOf_entryOf (s := s) hroom hx
    have hvalue := (hread e.2).2 e.1 hx (us e.2)
    change (octetsOf (entryOf s e.1).1,
      ((stores e.2).getData (us e.2) (e.1.data s)).getPayload.out.bytes) = _
    rw [hoctets, hvalue]

/-- A port for requests, and a tranceiver with a limiter. -/
def sampleFile : File where
  sections := [.snmp [⟨str "port", .number 161, 2⟩] 0,
    .tranceivers [⟨str "radio", str "kiss", .other, true⟩]]
  distinct := by decide

/-- Octets that are counted one by one. -/
def sampleCalls (n : ℕ) : List Call := List.replicate n (.incCounter (str "radio-ifInOctets"))

theorem counting_sampleCalls (n : ℕ) : ∀ c ∈ sampleCalls n, Counting c := by
  intro c hc
  rw [List.eq_of_mem_replicate hc]
  trivial

theorem exists_table_sampleCalls (table : Table) (n : ℕ) :
    ∃ table', Table.run 8192 table (sampleCalls n) = .ok table' := by
  induction n generalizing table with
  | zero => exact ⟨table, rfl⟩
  | succ n ih => exact ih _

theorem walked_sampleFile :
    ∃ (s : Store) (stores : ℕ → Store) (tables : ℕ → Table), load sampleFile.sections = .ok s ∧
      (∀ n, s.run (sampleCalls n) = .ok (stores n) ∧
        Table.run 8192 (tableOf sampleFile.objects) (sampleCalls n) = .ok (tables n)) ∧
      ∃ walked : List Object, walked.Perm sampleFile.objects ∧
        walked.Pairwise (fun x y => x.1.ids < y.1.ids) ∧
        Manager.countingManager.walk (fun n => serve (stores n) 0 fun _ => 0) 22 0 mib =
          some (walked.zipIdx.map fun e =>
            (e.1.1.octets, (e.1.value (tables e.2) 0).getPayload.out.bytes)) := by
  have hroom : Room sampleFile.objects := sampleFile.room_iff.mpr (by decide)
  obtain ⟨s, hload⟩ := (reaches_load sampleFile.sections).exists_ok_iff.mpr hroom
  have hstores : ∀ n, ∃ s', s.run (sampleCalls n) = .ok s' := fun n => by
    obtain ⟨p, hp⟩ := run_replaced (counting_sampleCalls n) s s.p
    exact ⟨_, hp s.sd⟩
  choose stores hstores using hstores
  choose tables htables using exists_table_sampleCalls (tableOf sampleFile.objects)
  have hmodest : Modest Manager.countingManager :=
    ⟨by decide, by decide, fun _ => Nat.succ_le_succ (Nat.zero_le 7)⟩
  exact ⟨s, stores, tables, hload, fun n => ⟨hstores n, htables n⟩,
    sampleFile.walked hload (by decide) hmodest counting_sampleCalls hstores htables
      (fun _ => 0) (fun _ _ => 0) (by decide) (by decide)⟩

end HamRouter.Configuration
