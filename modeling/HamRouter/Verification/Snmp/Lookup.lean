import HamRouter.Verification.Snmp.Tree

/-! # Finding registered OIDs, whatever the order of the registrations -/

namespace HamRouter.SnmpData

open StdString

variable {δ : Type*}

/-! ## One level of the tree -/

theorem extendOid_right_inj (curOid part part' : StdString) :
    extendOid curOid part = extendOid curOid part' ↔ part = part' := by
  rw [extendOid, extendOid, List.append_right_inj]

theorem snd_findOidInVector (lut : List (Node δ)) (oid : StdString) :
    (findOidInVector lut oid).map Prod.snd = lut.find? (·.oid = oid) := by
  induction lut with
  | nil => rfl
  | cons node lut ih =>
      rw [findOidInVector_cons, List.find?_cons]
      by_cases h : node.oid = oid
      · simp [h]
      · simp only [h, if_false, Option.map_map, decide_false, ← ih]
        rfl

/-- A node that is put where there is none with its OID is found there. -/
theorem find?_insertNode {lut : List (Node δ)} {oid : StdString}
    (h : lut.find? (·.oid = oid) = none) {node : Node δ} (hoid : node.oid = oid)
    (oid' : StdString) :
    (insertNode node lut).find? (·.oid = oid') =
      if oid = oid' then some node else lut.find? (·.oid = oid') := by
  subst hoid
  induction lut with
  | nil =>
      rw [insertNode, List.find?_cons]
      by_cases hoid : node.oid = oid' <;> simp [hoid]
  | cons other lut ih =>
      rw [List.find?_cons] at h
      have hother : other.oid ≠ node.oid := by
        intro heq
        simp [heq] at h
      rw [insertNode]
      split
      · rw [List.find?_cons]
        by_cases hoid : node.oid = oid' <;> simp [hoid]
      · simp only [hother, decide_false] at h
        rw [List.find?_cons, List.find?_cons, ih h]
        by_cases hoid : other.oid = oid'
        · have hnode : node.oid ≠ oid' := fun heq => hother (hoid.trans heq.symm)
          simp [hoid, hnode]
        · simp [hoid]

/-- A change of the node that was found, which keeps its OID, is found again. -/
theorem find?_modify {lut : List (Node δ)} {oid : StdString} {idx : ℕ} {node : Node δ}
    (h : findOidInVector lut oid = some (idx, node)) (change : Node δ → Node δ)
    (hchange : ∀ n, (change n).oid = n.oid) (oid' : StdString) :
    (lut.modify idx change).find? (·.oid = oid') =
      if oid = oid' then some (change node) else lut.find? (·.oid = oid') := by
  induction lut generalizing idx with
  | nil => cases h
  | cons other lut ih =>
      rw [findOidInVector_cons] at h
      by_cases hoid : other.oid = oid
      · rw [if_pos hoid] at h
        obtain ⟨rfl, rfl⟩ := Prod.mk.inj (Option.some.inj h)
        rw [List.modify_zero_cons, List.find?_cons, List.find?_cons, hchange, hoid]
        by_cases heq : oid = oid' <;> simp [heq]
      · rw [if_neg hoid] at h
        obtain ⟨⟨below, found⟩, hfound, hidx⟩ := Option.map_eq_some_iff.mp h
        obtain ⟨rfl, rfl⟩ := Prod.mk.inj hidx
        rw [List.modify_succ_cons, List.find?_cons, List.find?_cons, ih hfound]
        by_cases hother : other.oid = oid'
        · have hne : oid ≠ oid' := fun heq => hoid (hother.trans heq.symm)
          simp [hother, hne]
        · simp [hother]

/-! ## Along the parts -/

theorem findParts_cons (part : StdString) (rest : List StdString) (curOid : StdString)
    (lut : List (Node δ)) :
    findParts (part :: rest) curOid lut =
      match lut.find? (·.oid = extendOid curOid part) with
      | none => none
      | some node =>
          if rest = [] then some node.element
          else findParts rest (extendOid curOid part) node.children := by
  rw [findParts, ← snd_findOidInVector]
  cases findOidInVector lut (extendOid curOid part) <;> rfl

theorem findParts_nil_right (q : List StdString) (curOid : StdString) :
    findParts q curOid ([] : List (Node δ)) = none := by
  cases q with
  | nil => rfl
  | cons part rest => rfl

/-- Registering answers the beginnings of its OID, the OID itself with the element, unless
they were answered before. -/
theorem findParts_registerParts (e : δ) (p q : List StdString) (curOid : StdString)
    (lut : List (Node δ)) :
    findParts q curOid (registerParts e p curOid lut) =
      (findParts q curOid lut).or
        (if q ≠ [] ∧ q <+: p then some (if q = p then some e else none) else none) := by
  induction p generalizing q curOid lut with
  | nil =>
      have hnone : ¬ (q ≠ [] ∧ q <+: []) := fun h => h.1 (List.prefix_nil.mp h.2)
      rw [registerParts, if_neg hnone, Option.or_none]
  | cons part rest ih =>
      cases q with
      | nil => simp [findParts]
      | cons part' q =>
          rw [registerParts, findParts_cons, findParts_cons]
          cases hfind : findOidInVector lut (extendOid curOid part) with
          | none =>
              have hfree : lut.find? (·.oid = extendOid curOid part) = none := by
                rw [← snd_findOidInVector, hfind]
                rfl
              rw [find?_insertNode hfree rfl]
              simp only [extendOid_right_inj]
              by_cases hpart : part = part'
              · subst hpart
                simp only [if_true, hfree, ih, findParts_nil_right, Option.none_or]
                by_cases hq : q = []
                · subst hq
                  simp [eq_comm]
                · simp [hq]
              · simp [hpart, Ne.symm hpart]
          | some found =>
              obtain ⟨idx, node⟩ := found
              have hnode : lut.find? (·.oid = extendOid curOid part) = some node := by
                rw [← snd_findOidInVector, hfind]
                rfl
              dsimp only
              rw [find?_modify hfind]
              swap
              · exact fun _ => rfl
              simp only [extendOid_right_inj]
              by_cases hpart : part = part'
              · subst hpart
                simp only [if_true, hnode, ih]
                by_cases hq : q = []
                · simp [hq]
                · simp [hq]
              · simp [hpart, Ne.symm hpart]

/-! ## After all registrations -/

/-- The first registration that a query is a beginning of decides the answer. -/
theorem findByOid_registered (calls : List (StdString × δ)) (oid : StdString) :
    findByOid (registered calls) oid =
      (calls.find? fun call => split oid (str ".") ≠ [] ∧
          split oid (str ".") <+: split call.1 (str ".")).map
        fun call => if split oid (str ".") = split call.1 (str ".") then some call.2 else none := by
  induction calls using List.reverseRecOn with
  | nil => exact findParts_nil_right _ _
  | append_singleton calls call ih =>
      have hstep : findByOid (registered (calls ++ [call])) oid =
          (findByOid (registered calls) oid).or
            (if split oid (str ".") ≠ [] ∧ split oid (str ".") <+: split call.1 (str ".") then
              some (if split oid (str ".") = split call.1 (str ".") then some call.2 else none)
            else none) := by
        rw [registered, List.foldl_append, List.foldl_cons, List.foldl_nil]
        exact findParts_registerParts call.2 _ _ [] _
      rw [hstep, ih, List.find?_append, Option.map_or, List.find?_singleton]
      congr 1
      by_cases hcall : split oid (str ".") ≠ [] ∧ split oid (str ".") <+: split call.1 (str ".")
      · simp [hcall]
      · rw [if_neg hcall, if_neg (by simpa using hcall)]
        rfl

/-- The parts of an OID's text. -/
def DottedOid.parts (o : DottedOid) : List StdString := o.ids.map fun i : ℕ => formatInt i

theorem DottedOid.split_text (o : DottedOid) : split o.text (str ".") = o.parts := by
  rw [DottedOid.text, split_oidText, List.map_map]
  rfl

theorem DottedOid.parts_ne_nil (o : DottedOid) : o.parts ≠ [] :=
  fun h => o.ne_nil (List.map_eq_nil_iff.mp h)

theorem formatInt_natCast_injective : Function.Injective fun i : ℕ => formatInt (i : ℤ) :=
  fun _ _ h => Int.ofNat_inj.mp (formatInt_injective h)

theorem DottedOid.parts_inj {o o' : DottedOid} : o.parts = o'.parts ↔ o.ids = o'.ids :=
  (List.map_injective_iff.mpr formatInt_natCast_injective).eq_iff

theorem DottedOid.parts_prefix_iff {o o' : DottedOid} : o.parts <+: o'.parts ↔ o.ids <+: o'.ids := by
  constructor
  · intro h
    obtain ⟨ids, hbegins, hids⟩ := List.prefix_map_iff.mp h
    rwa [(List.map_injective_iff.mpr formatInt_natCast_injective) hids]
  · intro h
    exact h.map _

/-- What a query of some parts finds. -/
def answer (entries : List (DottedOid × δ)) (q : List StdString) : Option (Option δ) :=
  (entries.find? fun entry => q ≠ [] ∧ q <+: entry.1.parts).map
    fun entry => if q = entry.1.parts then some entry.2 else none

theorem findByOid_dottedTree (entries : List (DottedOid × δ)) (oid : StdString) :
    findByOid (dottedTree entries) oid = answer entries (split oid (str ".")) := by
  rw [dottedTree, findByOid_registered, List.find?_map, Option.map_map]
  simp only [answer, Function.comp_def, DottedOid.split_text]

theorem answer_cons (entry : DottedOid × δ) (entries : List (DottedOid × δ))
    {q : List StdString} (hq : q ≠ []) :
    answer (entry :: entries) q =
      if q <+: entry.1.parts then some (if q = entry.1.parts then some entry.2 else none)
      else answer entries q := by
  rw [answer, List.find?_cons]
  by_cases h : q <+: entry.1.parts
  · simp [hq, h]
  · simp [hq, h, answer]

theorem allFound_iff_answer (entries : List (DottedOid × δ)) :
    AllFound entries ↔ ∀ entry ∈ entries, answer entries entry.1.parts = some (some entry.2) := by
  simp only [AllFound, findByOid_dottedTree, DottedOid.split_text]

/-- Every OID is found exactly if none is registered behind one that it is a beginning of. -/
theorem allFound_iff_unshadowed {entries : List (DottedOid × δ)}
    (hdistinct : (entries.map (·.1.ids)).Nodup) : AllFound entries ↔ Unshadowed entries := by
  rw [allFound_iff_answer]
  induction entries with
  | nil => simp [Unshadowed]
  | cons first entries ih =>
      rw [List.map_cons, List.nodup_cons] at hdistinct
      have hown : answer (first :: entries) first.1.parts = some (some first.2) := by
        rw [answer_cons _ _ first.1.parts_ne_nil, if_pos (List.prefix_refl _), if_pos rfl]
      have hother : ∀ entry ∈ entries,
          (answer (first :: entries) entry.1.parts = some (some entry.2) ↔
            ¬ entry.1.ids <+: first.1.ids ∧ answer entries entry.1.parts = some (some entry.2)) := by
        intro entry hentry
        have hne : entry.1.ids ≠ first.1.ids :=
          fun heq => hdistinct.1 (heq ▸ List.mem_map_of_mem hentry)
        rw [answer_cons _ _ entry.1.parts_ne_nil]
        simp only [DottedOid.parts_prefix_iff, DottedOid.parts_inj, hne, if_false]
        by_cases hbegins : entry.1.ids <+: first.1.ids <;> simp [hbegins]
      rw [Unshadowed, List.pairwise_cons, List.forall_mem_cons, ← Unshadowed, ← ih hdistinct.2,
        and_iff_right hown, forall₂_congr hother]
      exact forall₂_and

/-- A query that is no registered OID is answered alike in any order. -/
theorem answer_of_not_registered {entries entries' : List (DottedOid × δ)} {q : List StdString}
    (hperm : entries'.Perm entries) (h : ∀ entry ∈ entries, q ≠ entry.1.parts) :
    answer entries' q = answer entries q := by
  have hbeginning : ∀ l : List (DottedOid × δ), (∀ entry ∈ l, q ≠ entry.1.parts) →
      answer l q = if ∃ entry ∈ l, q ≠ [] ∧ q <+: entry.1.parts then some none else none := by
    intro l hl
    rw [answer]
    cases hfind : l.find? fun entry => q ≠ [] ∧ q <+: entry.1.parts with
    | none =>
        have hnone := List.find?_eq_none.mp hfind
        rw [if_neg]
        · rfl
        · rintro ⟨entry, hentry, hbegins⟩
          exact hnone entry hentry (decide_eq_true hbegins)
    | some entry =>
        have hentry := List.mem_of_find?_eq_some hfind
        have hbegins : q ≠ [] ∧ q <+: entry.1.parts := by simpa using List.find?_some hfind
        rw [if_pos ⟨entry, hentry, hbegins⟩, Option.map_some, if_neg (hl entry hentry)]
  rw [hbeginning entries h, hbeginning entries' fun entry hentry => h entry (hperm.mem_iff.mp hentry)]
  simp only [hperm.mem_iff]

/-- Both orders answer every query alike, and each OID with its element, exactly if in
neither of them an OID is registered behind one that it is a beginning of. -/
theorem Orders.orderFree_iff (r : Orders δ) :
    r.OrderFree ↔ Unshadowed r.entries ∧ Unshadowed r.reordered := by
  have hreordered : (r.reordered.map (·.1.ids)).Nodup := (r.perm.map _).nodup_iff.mpr r.distinct
  rw [← allFound_iff_unshadowed r.distinct, ← allFound_iff_unshadowed hreordered]
  constructor
  · intro h
    exact ⟨h.found, h.foundReordered⟩
  · rintro ⟨hfound, hfoundReordered⟩
    refine ⟨hfound, hfoundReordered, fun oid => ?_⟩
    rw [findByOid_dottedTree, findByOid_dottedTree]
    by_cases hregistered : ∃ entry ∈ r.entries, split oid (str ".") = entry.1.parts
    · obtain ⟨entry, hentry, hparts⟩ := hregistered
      rw [hparts, (allFound_iff_answer r.entries).mp hfound entry hentry]
      exact ((allFound_iff_answer r.reordered).mp hfoundReordered entry
        (r.perm.mem_iff.mpr hentry)).symm
    · refine (answer_of_not_registered r.perm fun entry hentry hparts => ?_).symm
      exact hregistered ⟨entry, hentry, hparts⟩

/-! ## An OID registered behind a longer one -/

/-- The OIDs 1.3.6.1.2 and 1.3.6.1, in both orders. -/
def nestedOrders : Orders ℕ where
  entries := [(⟨[1, 3, 6, 1], by decide⟩, 0), (⟨[1, 3, 6, 1, 2], by decide⟩, 1)]
  reordered := [(⟨[1, 3, 6, 1, 2], by decide⟩, 1), (⟨[1, 3, 6, 1], by decide⟩, 0)]
  perm := List.Perm.swap _ _ _
  distinct := by decide

theorem not_orderFree_nestedOrders : ¬ nestedOrders.OrderFree := by
  intro h
  have hfound := h.foundReordered (⟨[1, 3, 6, 1], by decide⟩, 0) (by simp [nestedOrders])
  have hnull : findByOid (dottedTree nestedOrders.reordered)
      (DottedOid.mk [1, 3, 6, 1] (by decide)).text = some none := by decide
  rw [hnull] at hfound
  exact absurd hfound (by decide)

end HamRouter.SnmpData
