import HamRouter.Verification.Snmp.Registry

/-! # Walking over the registered OIDs -/

namespace HamRouter.SnmpData

open Trie Snmp

variable {δ : Type*}

theorem findNextOid_forestOf {entries : List (Oid × δ)} (h : entries ≠ []) (q : List ℤ) :
    findNextOid (treeOf entries) (oidText q) =
      .returned (oidText (((forestOf entries).nextUnder q).getD [])) := by
  rw [treeOf_eq]
  exact findNextOid_render (forestOf_ne_nil h) q

theorem top_eq_head? (o : Oid) : o.ids.head? = some o.top := List.head?_eq_some_head o.ne_nil

namespace Registrations

variable (r : Registrations δ)

/-- Every registered OID is a leaf. -/
theorem leaf_iff (ids : List ℤ) :
    Leaf (r.entries.map Prod.fst) ids ↔ ids ∈ r.entries.map (·.1.ids) := by
  constructor
  · rintro ⟨⟨o, ho, rfl⟩, _⟩
    obtain ⟨entry, hentry, rfl⟩ := List.mem_map.mp ho
    exact List.mem_map_of_mem hentry
  · intro hids
    obtain ⟨entry, hentry, rfl⟩ := List.mem_map.mp hids
    refine ⟨⟨entry.1, List.mem_map_of_mem hentry, rfl⟩, ?_⟩
    intro o ho hbegins
    obtain ⟨other, hother, rfl⟩ := List.mem_map.mp ho
    exact (r.unnested entry hentry other hother hbegins).symm

theorem root_lt {ids : List ℤ} (h : ids ∈ r.entries.map (·.1.ids)) : r.root.ids < ids := by
  obtain ⟨entry, hentry, rfl⟩ := List.mem_map.mp h
  obtain ⟨hbegins, hne⟩ := r.below entry hentry
  exact lt_of_le_of_ne (not_lt.mp hbegins.le) hne

theorem head_eq {ids : List ℤ} (h : ids ∈ r.entries.map (·.1.ids)) :
    ids.head? = some r.root.top := by
  obtain ⟨entry, hentry, rfl⟩ := List.mem_map.mp h
  obtain ⟨tail, htail⟩ := (r.below entry hentry).1
  simp only [← htail, List.head?_append, top_eq_head?, Option.some_or]

/-- The registrations in ascending order. -/
def ascending : List (Oid × δ) :=
  r.entries.mergeSort fun entry entry' => decide (entry.1.ids ≤ entry'.1.ids)

theorem ascending_perm : r.ascending.Perm r.entries := List.mergeSort_perm _ _

theorem ascending_pairwise :
    r.ascending.Pairwise fun entry entry' => entry.1.ids < entry'.1.ids := by
  have hle : r.ascending.Pairwise fun entry entry' =>
      decide (entry.1.ids ≤ entry'.1.ids) = true :=
    List.pairwise_mergeSort
      (fun a b c hab hbc =>
        decide_eq_true ((of_decide_eq_true hab).trans (of_decide_eq_true hbc)))
      (fun a b => by simpa using le_total a.1.ids b.1.ids) r.entries
  have hne : (r.ascending.map (·.1.ids)).Nodup :=
    (r.ascending_perm.map _).nodup_iff.mpr r.distinct
  rw [List.Nodup, List.pairwise_map] at hne
  exact hle.imp₂ (fun a b hab hab' => lt_of_le_of_ne (of_decide_eq_true hab) hab') hne

/-- Going on from an OID of the walk, the next registered OID is found. -/
theorem isNext_nextUnder (h : r.entries ≠ []) {ids : List ℤ}
    (hids : ids = r.root.ids ∨ ids ∈ r.entries.map (·.1.ids)) :
    Forest.IsNext (· ∈ r.entries.map (·.1.ids)) ids ((forestOf r.entries).nextUnder ids) := by
  have hhead : ids.head? = some r.root.top := by
    rcases hids with rfl | hmem
    · exact top_eq_head? r.root
    · exact r.head_eq hmem
  have hknown : Known (r.entries.map Prod.fst) ids := by
    rcases hids with rfl | hmem
    · obtain ⟨entry, hentry⟩ := List.exists_mem_of_ne_nil _ h
      exact ⟨entry.1, List.mem_map_of_mem hentry, (r.below entry hentry).1⟩
    · obtain ⟨entry, hentry, rfl⟩ := List.mem_map.mp hmem
      exact ⟨entry.1, List.mem_map_of_mem hentry, List.prefix_rfl⟩
  have hleaves : (fun l => (forestOf r.entries).IsLeaf l ∧ l.head? = some r.root.top) =
      (· ∈ r.entries.map (·.1.ids)) := by
    funext l
    rw [isLeaf_forestOf h, r.leaf_iff]
    exact propext (and_iff_left_of_imp fun hl => r.head_eq hl)
  cases ids with
  | nil => cases hhead
  | cons k rest =>
      obtain rfl := Option.some.inj hhead
      have hpath := (subtree_forestOf r.entries _).mpr (Or.inr hknown)
      have hnext := Forest.isNext_nextUnder (ordered_forestOf r.entries) hpath
      rwa [hleaves] at hnext

/-- Registered in any order, the OIDs are walked over in ascending order, unless there is
none. -/
theorem walked_of_ne_nil (h : r.entries ≠ []) : r.Walked := by
  have hperm := r.ascending_perm
  have hmem : ∀ ids, ids ∈ r.ascending.map (·.1.ids) ↔ ids ∈ r.entries.map (·.1.ids) :=
    fun ids => (hperm.map _).mem_iff
  refine ⟨r.ascending, hperm, r.ascending_pairwise, ?_, ?_⟩
  · have hsorted : (r.root.ids :: r.ascending.map (·.1.ids)).Pairwise (· < ·) := by
      refine List.pairwise_cons.mpr ⟨?_, List.pairwise_map.mpr r.ascending_pairwise⟩
      exact fun ids hids => r.root_lt ((hmem ids).mp hids)
    have hchain := Forest.isChain_of_isNext hsorted
      (fun ids => ⟨fun hids => ⟨(hmem ids).mp hids, r.root_lt ((hmem ids).mp hids)⟩,
        fun hids => (hmem ids).mpr hids.1⟩)
      (fun ids hids => r.isNext_nextUnder h
        ((List.mem_cons.mp hids).imp_right (hmem ids).mp))
    have htexts : r.root.text :: (r.ascending.map Prod.fst).map Oid.text ++ [[]] =
        (r.root.ids :: r.ascending.map (fun entry : Oid × δ => entry.1.ids) ++ [[]]).map
          oidText := by
      simp [Oid.text, oidText]
    rw [WalksOver, htexts, List.isChain_map]
    refine hchain.imp ?_
    intro ids ids' hstep
    rw [findNextOid_forestOf h, hstep]
  · intro entry hentry
    rw [treeOf_eq, Oid.text, findByOid_render]
    exact valueAt_forestOf r.distinct r.unnested entry (hperm.mem_iff.mp hentry)

end Registrations

/-- The OIDs 1.3.2.10, 1.3.1.0 and 1.3.2.9 below 1.3. -/
def threeRegistrations : Registrations ℕ where
  root := ⟨[1, 3], by decide, by decide⟩
  entries := [(⟨[1, 3, 2, 10], by decide, by decide⟩, 0),
    (⟨[1, 3, 1, 0], by decide, by decide⟩, 1), (⟨[1, 3, 2, 9], by decide, by decide⟩, 2)]
  below := by decide
  distinct := by decide
  unnested := by decide

theorem walked_threeRegistrations : threeRegistrations.Walked :=
  threeRegistrations.walked_of_ne_nil (by decide)

/-- No OID below 1.3. -/
def noRegistrations : Registrations ℕ where
  root := ⟨[1, 3], by decide, by decide⟩
  entries := []
  below := by decide
  distinct := by decide
  unnested := by decide

/-- In an empty tree `find_next_oid` goes through the null pointer. -/
theorem not_walked_noRegistrations : ¬ noRegistrations.Walked := by
  rintro ⟨walked, hperm, _, hwalks, _⟩
  obtain rfl : walked = [] := List.perm_nil.mp hperm
  have hstep := (List.isChain_cons_cons.mp hwalks).1
  exact absurd hstep (by decide +kernel)

end HamRouter.SnmpData
