import HamRouter.Verification.Configuration.Objects

/-! # Which configurations are loaded

The names of the statistics tell the tranceivers and their columns apart. So loading fails only for
two tranceivers with one id, and for more statistics than there is room for in the segment. -/

namespace HamRouter.Configuration

open Snmp SnmpData Stats

/-! ## Names of statistics -/

namespace Column

/-- The columns of statistics. -/
def counted : List Column :=
  [inOctets, hcInOctets, inUcastPkts, outOctets, hcOutOctets, outUcastPkts, seenHit, seenMiss,
    aprsFrames, aprsRateLimited, aprsInvalid, validPackets, invalidPackets]

/-- No end of a name is the end of another. -/
theorem ends_apart :
    ∀ c ∈ counted, ∀ c' ∈ counted, c.nameParts.2 <:+ c'.nameParts.2 → c = c' := by
  decide +kernel

theorem name_inj {c c' : Column} (hc : c ∈ counted) (hc' : c' ∈ counted) {id id' : StdString}
    (h : c.name id = c'.name id') : c = c' ∧ id = id' := by
  have hend : c.nameParts.2 <:+ c'.name id' := by
    rw [← h]
    exact List.suffix_append _ _
  have hsame : c = c' := by
    rcases List.suffix_or_suffix_of_suffix hend (List.suffix_append _ _) with hle | hle
    · exact ends_apart c hc c' hc' hle
    · exact (ends_apart c' hc' c hc hle).symm
  subst hsame
  exact ⟨rfl, List.append_cancel_left (List.append_cancel_right h)⟩

end Column

namespace Tranceiver

variable (t : Tranceiver)

theorem mem_counted {c : Column} (h : c ∈ t.columns) : c ∈ Column.counted := by
  rw [columns, constructorColumns, counterColumns] at h
  revert c
  cases t.kind <;> cases t.limited <;> decide

theorem nodup_columns : t.columns.Nodup := by
  rw [columns, constructorColumns, counterColumns]
  cases t.kind <;> cases t.limited <;> decide

theorem inOctets_mem : .inOctets ∈ t.columns :=
  List.mem_append_right _ List.mem_cons_self

def statisticNames : List StdString := t.columns.map (·.name t.id)

theorem nodup_statisticNames : t.statisticNames.Nodup :=
  t.nodup_columns.map_on fun _ hc _ hc' h =>
    (Column.name_inj (t.mem_counted hc) (t.mem_counted hc') h).1

/-- Tranceivers share the name of a statistic exactly when they have one id. -/
theorem disjoint_statisticNames (t t' : Tranceiver) :
    t.statisticNames.Disjoint t'.statisticNames ↔ t.id ≠ t'.id := by
  constructor
  · intro hdisjoint heq
    have hname : Column.inOctets.name t.id ∈ t'.statisticNames := by
      rw [heq]
      exact List.mem_map_of_mem t'.inOctets_mem
    exact hdisjoint (List.mem_map_of_mem t.inOctets_mem) hname
  · intro hne name hname hname'
    obtain ⟨c, hc, rfl⟩ := List.mem_map.mp hname
    obtain ⟨c', hc', heq⟩ := List.mem_map.mp hname'
    exact hne (Column.name_inj (t.mem_counted hc) (t'.mem_counted hc') heq.symm).2

end Tranceiver

/-! ## All statistics of a file -/

/-- The names of the statistics among the objects. -/
def statisticNames (objects : List Object) : List StdString := (tableOf objects).map Entry.name

theorem statisticNames_append (objects added : List Object) :
    statisticNames (objects ++ added) = statisticNames objects ++ statisticNames added := by
  rw [statisticNames, tableOf_append, List.map_append]
  rfl

theorem statisticNames_flatMap {α : Type*} (xs : List α) (objectsOf : α → List Object) :
    statisticNames (xs.flatMap objectsOf) = xs.flatMap fun x => statisticNames (objectsOf x) := by
  rw [statisticNames, tableOf, List.filterMap_flatMap, List.map_flatMap]
  rfl

theorem statisticNames_statistics (t : Tranceiver) (columns : List Column) (n : ℕ) :
    statisticNames (t.statistics columns n) = columns.map (·.name t.id) := by
  have hentries : tableOf (t.statistics columns n) =
      columns.map fun c => .fresh (c.name t.id) (Key.text (c, n)) c.type := by
    rw [tableOf, Tranceiver.statistics, List.filterMap_map, ← List.filterMap_eq_map]
    rfl
  rw [statisticNames, hentries, List.map_map]
  rfl

/-- The numbers of the tranceivers are not in the names. -/
theorem statisticNames_zipIdx {objectsOf : Tranceiver → ℕ → List Object}
    {namesOf : Tranceiver → List StdString}
    (h : ∀ t n, statisticNames (objectsOf t n) = namesOf t) (ts : List Tranceiver) :
    statisticNames (ts.zipIdx.flatMap fun t => objectsOf t.1 (t.2 + 1)) = ts.flatMap namesOf := by
  rw [statisticNames_flatMap]
  simp only [h]
  conv_rhs => rw [← List.zipIdx_map_fst 0 ts, List.flatMap_map]

theorem statisticNames_section (c : Section) :
    (statisticNames c.objects).Perm (c.instances.flatMap Tranceiver.statisticNames) := by
  cases c with
  | tranceivers ts =>
      have hconstructors := statisticNames_zipIdx
        (fun t n => statisticNames_statistics t t.constructorColumns n) ts
      have hinterface : ∀ t n, statisticNames (Tranceiver.interface t n) =
          t.counterColumns.map (·.name t.id) :=
        fun t n => statisticNames_statistics t t.counterColumns n
      have hinterfaces := statisticNames_zipIdx hinterface ts
      have hnumber : statisticNames [((.ifNumber, 0), .static (intElem ts.length))] = [] := rfl
      rw [Section.objects, statisticNames_append, statisticNames_append, hconstructors,
        hinterfaces, hnumber, List.append_nil]
      refine (List.flatMap_append_perm _ _ _).trans (.of_eq ?_)
      simp only [← List.map_append]
      rfl
  | snmp settings runningSince =>
      rw [Section.objects]
      split
      · split <;> exact .refl []
      · exact .refl []
  | filters line nodes => exact .refl []
  | bridgeMappings nodes => exact .refl []
  | routingMappings nodes => exact .refl []
  | general line settings => exact .refl []
  | other line name => exact .refl []

namespace File

variable (f : File)

theorem statisticNames_perm :
    (statisticNames f.objects).Perm (f.tranceivers.flatMap Tranceiver.statisticNames) := by
  rw [objects, statisticNames_flatMap, tranceivers, List.flatMap_assoc]
  exact .flatMap_left _ fun c _ => statisticNames_section c

theorem room_iff :
    Room f.objects ↔ (f.tranceivers.map Tranceiver.id).Nodup ∧ 48 * f.statistics ≤ 8192 := by
  have hnames : ((tableOf f.objects).map Entry.name).Perm
      (f.tranceivers.flatMap Tranceiver.statisticNames) := f.statisticNames_perm
  have hlength : (tableOf f.objects).length = f.statistics := by
    have hlengths := hnames.length_eq
    rw [statistics]
    simpa only [List.length_map, List.length_flatMap, Tranceiver.statisticNames] using hlengths
  rw [Room, hlength, hnames.nodup_iff, List.nodup_flatMap, List.Nodup,
    List.pairwise_map]
  refine and_congr_left fun _ => ⟨fun h => ?_, fun h => ⟨fun t _ => t.nodup_statisticNames, ?_⟩⟩
  · exact h.2.imp fun hdisjoint => (Tranceiver.disjoint_statisticNames _ _).mp hdisjoint
  · exact h.imp fun hne => (Tranceiver.disjoint_statisticNames _ _).mpr hne

/-- A file is loaded exactly when its tranceivers have ids of their own and the 8192 bytes are
enough for their statistics. -/
theorem loaded_iff :
    (∃ s, load f.sections = .ok s) ↔
      (f.tranceivers.map Tranceiver.id).Nodup ∧ 48 * f.statistics ≤ 8192 :=
  (reaches_load f.sections).exists_ok_iff.trans f.room_iff

end File

end HamRouter.Configuration
