import HamRouter.Verification.Snmp.Tree

/-! # The forest of the registered OIDs -/

namespace HamRouter.SnmpData

open Trie Snmp

variable {δ : Type*}

theorem forestOf_snoc (entries : List (Oid × δ)) (entry : Oid × δ) :
    forestOf (entries ++ [entry]) =
      (forestOf entries).insert (fun _ _ => false) entry.1.ids entry.2 :=
  List.foldl_append

theorem known_snoc (oids : List Oid) (o : Oid) (ids : List ℤ) :
    Known (oids ++ [o]) ids ↔ Known oids ids ∨ ids <+: o.ids := by
  simp [Known, or_and_right, exists_or]

/-- Below the first level, siblings are in ascending order. -/
theorem ordered_forestOf (entries : List (Oid × δ)) : (forestOf entries).Ordered (· ≠ ·) := by
  induction entries using List.reverseRecOn with
  | nil => trivial
  | append_singleton entries entry ih =>
      rw [forestOf_snoc]
      exact Forest.ordered_insert Forest.keeps_ne _ _ ih

/-- The paths of the forest are the beginnings of the registered OIDs. -/
theorem subtree_forestOf (entries : List (Oid × δ)) (ids : List ℤ) :
    ((forestOf entries).subtree ids).isSome ↔ ids = [] ∨ Known (entries.map Prod.fst) ids := by
  induction entries using List.reverseRecOn with
  | nil => cases ids <;> simp [forestOf, Forest.subtree, Forest.lookup, Known]
  | append_singleton entries entry ih =>
      rw [forestOf_snoc, Forest.subtree_insert_isSome, ih, List.map_append, List.map_singleton,
        known_snoc, or_assoc]

theorem forestOf_ne_nil {entries : List (Oid × δ)} (h : entries ≠ []) :
    forestOf entries ≠ .nil := by
  obtain ⟨entry, hentry⟩ := List.exists_mem_of_ne_nil entries h
  have hpath := (subtree_forestOf entries entry.1.ids).mpr
    (Or.inr ⟨entry.1, List.mem_map_of_mem hentry, List.prefix_rfl⟩)
  intro hnil
  rw [hnil] at hpath
  cases hids : entry.1.ids with
  | nil => exact entry.1.ne_nil hids
  | cons i ids => simp [hids, Forest.subtree, Forest.lookup] at hpath

/-- The first level begins with what was registered first. -/
theorem head_keys_forestOf (first : Oid × δ) (rest : List (Oid × δ)) :
    (forestOf (first :: rest)).keys.head? = some first.1.top := by
  induction rest using List.reverseRecOn with
  | nil =>
      obtain ⟨i, ids, hids⟩ := List.exists_cons_of_ne_nil first.1.ne_nil
      simp [forestOf, hids, Forest.insert, Forest.lookup, Forest.place, Forest.keys, Oid.top]
  | append_singleton rest entry ih =>
      rw [← List.cons_append, forestOf_snoc]
      obtain ⟨later, hkeys⟩ :=
        Forest.keys_prefix_insert entry.1.ids entry.2 (forestOf (first :: rest))
      rw [← hkeys, List.head?_append, ih]
      rfl

/-- The leaves of the forest are the registered leaves. -/
theorem isLeaf_forestOf {entries : List (Oid × δ)} (h : entries ≠ []) (ids : List ℤ) :
    (forestOf entries).IsLeaf ids ↔ Leaf (entries.map Prod.fst) ids := by
  have hpath := subtree_forestOf entries
  rw [Forest.isLeaf_iff]
  constructor
  · rintro ⟨hsome, hnone⟩
    have hknown : Known (entries.map Prod.fst) ids := by
      rcases (hpath ids).mp hsome with rfl | hknown
      · refine absurd ?_ (forestOf_ne_nil h)
        exact Forest.isLeaf_nil_iff.mp ((Forest.isLeaf_iff _ _).mpr ⟨hsome, hnone⟩)
      · exact hknown
    have hlast : ∀ o ∈ entries.map Prod.fst, ids <+: o.ids → o.ids = ids := by
      rintro o ho ⟨tail, htail⟩
      cases tail with
      | nil => rw [← htail, List.append_nil]
      | cons k tail =>
          have hlonger := (hpath (ids ++ [k])).mpr (Or.inr ⟨o, ho, tail, by simpa using htail⟩)
          simp [hnone k] at hlonger
    obtain ⟨o, ho, hbegins⟩ := hknown
    exact ⟨⟨o, ho, hlast o ho hbegins⟩, hlast⟩
  · rintro ⟨⟨o, ho, rfl⟩, hlast⟩
    refine ⟨(hpath o.ids).mpr (Or.inr ⟨o, ho, List.prefix_rfl⟩), ?_⟩
    intro k
    rw [← Option.not_isSome_iff_eq_none, hpath]
    rintro (hnil | ⟨o', ho', hbegins⟩)
    · simp at hnil
    · have hsame := hlast o' ho' ((List.prefix_append _ _).trans hbegins)
      have hlength := hbegins.length_le
      rw [hsame, List.length_append] at hlength
      simp at hlength

/-- A registered OID keeps its data, when none is a beginning of another. -/
theorem valueAt_forestOf {entries : List (Oid × δ)}
    (hdistinct : (entries.map (·.1.ids)).Nodup)
    (hunnested : ∀ entry ∈ entries, ∀ other ∈ entries,
      entry.1.ids <+: other.1.ids → entry.1.ids = other.1.ids) :
    ∀ entry ∈ entries, (forestOf entries).valueAt entry.1.ids = some (some entry.2) := by
  induction entries using List.reverseRecOn with
  | nil => simp
  | append_singleton entries last ih =>
      rw [List.map_append, List.map_singleton, List.nodup_append] at hdistinct
      have hold := ih hdistinct.1 fun entry hentry other hother =>
        hunnested entry (List.mem_append_left _ hentry) other (List.mem_append_left _ hother)
      intro entry hentry
      rw [forestOf_snoc]
      rcases List.mem_append.mp hentry with hmem | hmem
      · rw [Forest.valueAt_insert_of_some _ _ _ _ (by rw [hold entry hmem]; rfl)]
        exact hold entry hmem
      · obtain rfl := List.mem_singleton.mp hmem
        refine Forest.valueAt_insert_self _ entry.1.ne_nil _ _ ?_
        rw [← Option.not_isSome_iff_eq_none, subtree_forestOf]
        rintro (hnil | ⟨o, ho, hbegins⟩)
        · exact entry.1.ne_nil hnil
        · obtain ⟨other, hother, rfl⟩ := List.mem_map.mp ho
          have hsame := hunnested entry hentry other (List.mem_append_left _ hother) hbegins
          exact hdistinct.2.2 _ (List.mem_map_of_mem hother) _ (by simp) hsame.symm

end HamRouter.SnmpData
