import HamRouter.Verification.Snmp.Oid
import HamRouter.Verification.Snmp.Walk

/-! # The answer to any query -/

namespace HamRouter.SnmpData

open Trie Snmp

/-! ## The text of a query -/

theorem oidText_append {ids : List ℤ} (hne : ids ≠ []) (vs : List UInt32) :
    oidText (ids ++ vs.map (·.toInt32.toInt)) = oidText ids ++ vs.flatMap dotted := by
  induction vs generalizing ids with
  | nil => simp
  | cons v vs ih =>
      have hstep := ih (show ids ++ [v.toInt32.toInt] ≠ [] by simp)
      rw [List.map_cons, List.append_cons, hstep, oidText_snoc, extendOid,
        if_neg (oidText_ne_nil hne), List.flatMap_cons, dotted]
      simp [str]

theorem queryText_iso {query : AcceptedOid} (h : isIso query.octets) :
    query.text = oidText (queryIds query) := by
  rw [query.text_eq, queryIds, if_pos h, if_pos h, oidText_append (by simp)]
  rfl

/-- Without the first octet 43 the text is empty or begins with a dot. -/
theorem queryText_not_iso {query : AcceptedOid} (h : ¬ isIso query.octets) :
    query.text = [] ∨ ∃ ids, ids ≠ [] ∧ query.text = ch '.' :: oidText ids := by
  rw [query.text_eq, if_neg h, List.nil_append]
  cases dottedIds query.octets with
  | nil => exact Or.inl rfl
  | cons v vs =>
      refine Or.inr ⟨v.toInt32.toInt :: vs.map (·.toInt32.toInt), by simp, ?_⟩
      have htext := oidText_append (List.cons_ne_nil v.toInt32.toInt []) vs
      rw [List.singleton_append] at htext
      rw [htext]
      rfl

/-! ## The followed part of a query -/

theorem longestKnown_nil (oids : List Oid) : longestKnown oids [] = [] := by
  by_cases h : Known oids [] <;> simp [longestKnown, h]

theorem longestKnown_snoc (oids : List Oid) (ids : List ℤ) (i : ℤ) :
    longestKnown oids (ids ++ [i]) =
      if Known oids (ids ++ [i]) then ids ++ [i] else longestKnown oids ids := by
  have hinits : (ids ++ [i]).inits.reverse = (ids ++ [i]) :: ids.inits.reverse := by
    simp [List.inits_append]
  rw [longestKnown, hinits, List.find?_cons]
  by_cases h : Known oids (ids ++ [i]) <;> simp [longestKnown, h]

theorem longestKnown_spec (oids : List Oid) (ids : List ℤ) :
    longestKnown oids ids <+: ids ∧
      (longestKnown oids ids = [] ∨ Known oids (longestKnown oids ids)) ∧
      ∀ path, path <+: ids → Known oids path → path <+: longestKnown oids ids := by
  induction ids using List.reverseRecOn with
  | nil => simp [longestKnown_nil]
  | append_singleton ids i ih =>
      obtain ⟨hbegins, hknown, hlongest⟩ := ih
      rw [longestKnown_snoc]
      by_cases h : Known oids (ids ++ [i])
      · rw [if_pos h]
        exact ⟨List.prefix_rfl, Or.inr h, fun path hpath _ => hpath⟩
      · rw [if_neg h]
        refine ⟨hbegins.trans (List.prefix_append _ _), hknown, ?_⟩
        intro path hpath hk
        rcases List.prefix_concat_iff.mp hpath with rfl | hpath
        · exact absurd hk h
        · exact hlongest path hpath hk

variable {δ : Type*}

/-- The longest known beginning of a query is followed in the forest. -/
theorem longestKnown_eq (entries : List (Oid × δ)) (ids : List ℤ) :
    longestKnown (entries.map Prod.fst) ids = (forestOf entries).matched ids := by
  obtain ⟨hbegins, hknown, hlongest⟩ := longestKnown_spec (entries.map Prod.fst) ids
  have hpath := (subtree_forestOf entries _).mpr hknown
  have hle := Forest.prefix_matched hbegins hpath
  refine hle.eq_of_length_le (List.IsPrefix.length_le ?_)
  rcases (subtree_forestOf entries _).mp (Forest.subtree_matched _ ids) with hnil | hmatched
  · rw [hnil]
    exact List.nil_prefix
  · exact hlongest _ (Forest.matched_prefix _ ids) hmatched

/-! ## The answer -/

theorem lt_of_head?_lt {p l : List ℤ} {k k' : ℤ} (hp : p.head? = some k)
    (hl : l.head? = some k') (h : k < k') : p < l := by
  obtain ⟨p', rfl⟩ := List.head?_eq_some_iff.mp hp
  obtain ⟨l', rfl⟩ := List.head?_eq_some_iff.mp hl
  exact List.cons_lt_cons_iff.mpr (Or.inl h)

section Answer

variable (first : Oid × δ) (rest : List (Oid × δ)) (query : AcceptedOid)

/-- A query that is known is answered with the next leaf. -/
theorem answersLeast_of_known (hiso : isIso query.octets)
    (hknown : Known ((first :: rest).map Prod.fst) (queryIds query)) :
    AnswersLeast (first :: rest) query := by
  have hne : first :: rest ≠ [] := List.cons_ne_nil _ _
  have hpath := (subtree_forestOf (first :: rest) _).mpr (Or.inr hknown)
  intro oid hoid hnonempty
  rw [queryText_iso hiso, findNextOid_forestOf hne] at hoid
  obtain rfl := NextOid.returned.inj hoid
  have hq : ∃ k q, queryIds query = k :: q := by
    rw [queryIds, if_pos hiso]
    exact ⟨1, _, rfl⟩
  obtain ⟨k, q, hq⟩ := hq
  rw [hq] at hpath hnonempty ⊢
  have hnext := Forest.isNext_nextUnder (ordered_forestOf (first :: rest)) hpath
  cases h : (forestOf (first :: rest)).nextUnder (k :: q) with
  | none =>
      rw [h] at hnonempty
      exact absurd rfl hnonempty
  | some p =>
      rw [h] at hnext
      obtain ⟨⟨hleaf, hhead⟩, hlt, hleast⟩ := hnext
      refine ⟨p, rfl, (isLeaf_forestOf hne p).mp hleaf, hlt, ?_⟩
      intro leaf hleaf' hbehind
      by_cases hsame : leaf.head? = some k
      · exact hleast leaf ⟨(isLeaf_forestOf hne leaf).mpr hleaf', hsame⟩ hbehind
      · rw [← List.singleton_prefix_iff_head?_eq_some] at hhead hsame
        exact le_of_lt (Forest.lt_of_prefix (List.prefix_append [k] q) hhead hbehind hsame)

/-- Any other query is answered with the first leaf below its followed part. -/
theorem answer_of_not_known
    (h : ¬ (isIso query.octets ∧ Known ((first :: rest).map Prod.fst) (queryIds query))) :
    ∃ p, findNextOid (treeOf (first :: rest)) query.text = .returned (oidText p) ∧ p ≠ [] ∧
      Below first.1 ((first :: rest).map Prod.fst) query p ∧
      ∀ leaf, Below first.1 ((first :: rest).map Prod.fst) query leaf → p ≤ leaf := by
  have hne : first :: rest ≠ [] := List.cons_ne_nil _ _
  have hleaves := isLeaf_forestOf hne
  have hnonempty : ∀ p, (forestOf (first :: rest)).IsLeaf p → p ≠ [] := by
    rintro p hp rfl
    exact forestOf_ne_nil hne (Forest.isLeaf_nil_iff.mp hp)
  by_cases hiso : isIso query.octets
  · have hpath : (forestOf (first :: rest)).subtree (queryIds query) = none := by
      rw [← Option.not_isSome_iff_eq_none, subtree_forestOf]
      rintro (hnil | hknown)
      · simp [queryIds, hiso] at hnil
      · exact h ⟨hiso, hknown⟩
    have hfollowed : followed ((first :: rest).map Prod.fst) query =
        (forestOf (first :: rest)).matched (queryIds query) := by
      rw [followed, if_pos hiso, longestKnown_eq]
    obtain ⟨p, hnext, hleaf, hbegins, hhead, hleast⟩ := Forest.nextUnder_spec
      (ordered_forestOf (first :: rest)) (forestOf_ne_nil hne) (Or.inr hpath)
    rw [head_keys_forestOf, ← hfollowed] at hhead hleast
    rw [← hfollowed] at hbegins
    refine ⟨p, ?_, hnonempty p hleaf, ⟨(hleaves p).mp hleaf, hbegins, hhead⟩, ?_⟩
    · rw [queryText_iso hiso, findNextOid_forestOf hne, hnext]
      rfl
    · intro leaf hbelow
      exact hleast leaf ((hleaves leaf).mpr hbelow.1) hbelow.2.1 hbelow.2.2
  · have hfollowed : followed ((first :: rest).map Prod.fst) query = [] := if_neg hiso
    obtain ⟨p, hfirst, hleaf, hhead, hleast⟩ :=
      Forest.first_spec (ordered_forestOf (first :: rest)) (forestOf_ne_nil hne)
    rw [head_keys_forestOf] at hhead hleast
    refine ⟨p, ?_, hnonempty p hleaf, ⟨(hleaves p).mp hleaf, ?_, fun _ => hhead⟩, ?_⟩
    · rcases queryText_not_iso hiso with htext | ⟨ids, hids, htext⟩
      · have hanswer := findNextOid_forestOf hne []
        rw [Forest.nextUnder, hfirst] at hanswer
        rw [htext]
        exact hanswer
      · have hanswer := findNextOid_render_dot (forestOf_ne_nil hne) hids
        rw [← treeOf_eq, hfirst] at hanswer
        rw [htext]
        exact hanswer
    · rw [hfollowed]
      exact List.nil_prefix
    · intro leaf hbelow
      exact hleast leaf ((hleaves leaf).mpr hbelow.1) (hbelow.2.2 hfollowed)

/-- What is followed of a query is a beginning of it. -/
theorem followed_prefix_query (oids : List Oid) : followed oids query <+: queryIds query := by
  rw [followed]
  split
  · exact (longestKnown_spec oids (queryIds query)).1
  · exact List.nil_prefix

end Answer

/-- The first and the last OID that `load_snmp` registers. -/
def systemEntries : List (Oid × ℕ) :=
  [(⟨[1, 3, 6, 1, 2, 1, 1, 1, 0], by decide, by decide⟩, 0),
    (⟨[1, 3, 6, 1, 2, 1, 1, 8, 0], by decide, by decide⟩, 1)]

/-- The OID 1.3.6.1.2.1.1.9, behind both. -/
def orTableQuery : AcceptedOid where
  octets := [43, 6, 1, 2, 1, 1, 9]
  text := str "1.3.6.1.2.1.1.9"
  accepted := by decide

/-- Beyond the numbers of an `int` siblings are not in the order of their numbers. -/
example : findNextOid (registered [(str "1.3.1", 0), (str "1.3.3000000000", 1)]) (str "1.3") =
    .returned (str "1.3.3000000000") := by
  decide +kernel

end HamRouter.SnmpData
