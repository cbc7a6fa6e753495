import HamRouter.Model.SnmpRegistry
import HamRouter.Verification.Decimal
import HamRouter.Verification.Split

/-! # The tree of `snmp-data.cpp` is a trie

Texts are taken apart into the sub-identifiers they were joined from; then registering,
finding and going to the next OID are the operations of the trie. -/

namespace HamRouter.SnmpData

open Trie StdString

/-! ## Texts -/

theorem oidText_cons {ids : List ℤ} (h : ids ≠ []) (i : ℤ) :
    oidText (i :: ids) = formatInt i ++ ch '.' :: oidText ids := by
  cases ids with
  | nil => exact absurd rfl h
  | cons j rest => rfl

theorem oidText_ne_nil {ids : List ℤ} (h : ids ≠ []) : oidText ids ≠ [] := by
  cases ids with
  | nil => exact absurd rfl h
  | cons i rest =>
      cases rest with
      | nil => exact formatInt_ne_nil i
      | cons j rest =>
          rw [oidText_cons (List.cons_ne_nil _ _)]
          exact List.append_ne_nil_of_right_ne_nil _ (List.cons_ne_nil _ _)

theorem oidText_snoc (path : List ℤ) (i : ℤ) :
    oidText (path ++ [i]) = extendOid (oidText path) (formatInt i) := by
  induction path with
  | nil => rfl
  | cons j path ih =>
      have hne : oidText (j :: path) ≠ [] := oidText_ne_nil (List.cons_ne_nil _ _)
      rw [extendOid, if_neg hne, List.cons_append, oidText_cons (by simp), ih, extendOid]
      cases path with
      | nil => simp [oidText, str]
      | cons k path =>
          have hinner : oidText (k :: path) ≠ [] := oidText_ne_nil (List.cons_ne_nil _ _)
          rw [if_neg hinner, oidText_cons (List.cons_ne_nil _ _)]
          simp

/-- The parts of an OID are its sub-identifiers. -/
theorem split_oidText (ids : List ℤ) : split (oidText ids) (str ".") = ids.map formatInt := by
  induction ids with
  | nil => rfl
  | cons i ids ih =>
      cases ids with
      | nil => exact split_of_not_mem (dot_not_mem_formatInt i) (formatInt_ne_nil i)
      | cons j ids =>
          have hrest : oidText (j :: ids) ≠ [] := oidText_ne_nil (List.cons_ne_nil _ _)
          rw [oidText_cons (List.cons_ne_nil _ _)]
          exact (split_append (dot_not_mem_formatInt i) hrest).trans
            (congrArg (formatInt i :: ·) ih)

/-- A leading dot gives an empty part. -/
theorem split_dot_oidText {ids : List ℤ} (hne : ids ≠ []) :
    split (ch '.' :: oidText ids) (str ".") = [] :: ids.map formatInt :=
  (split_append List.not_mem_nil (oidText_ne_nil hne)).trans
    (congrArg ([] :: ·) (split_oidText ids))

theorem oidText_injective {ids ids' : List ℤ} (h : oidText ids = oidText ids') : ids = ids' := by
  have hsplit := split_oidText ids
  rw [h, split_oidText] at hsplit
  exact (List.map_injective_iff.mpr fun _ _ => formatInt_injective) hsplit.symm

theorem oidText_snoc_eq_iff {path : List ℤ} {i j : ℤ} :
    oidText (path ++ [i]) = oidText (path ++ [j]) ↔ i = j := by
  constructor
  · intro h
    simpa using oidText_injective h
  · intro h
    rw [h]

theorem lastDot_append {last : StdString} (h : ch '.' ∉ last) (front : StdString) :
    Snmp.lastDot (front ++ ch '.' :: last) = some front.length := by
  have hreverse : ch '.' ∉ last.reverse := fun hmem => h (List.mem_reverse.mp hmem)
  have hidx := idxOf?_append_cons hreverse front.reverse
  rw [Snmp.lastDot, List.reverse_append, List.reverse_cons, List.append_assoc,
    List.singleton_append, hidx]
  simp only [Option.map_some, List.length_append, List.length_cons, List.length_reverse]
  congr 1
  omega

theorem lastDot_none {s : StdString} (h : ch '.' ∉ s) : Snmp.lastDot s = none := by
  rw [Snmp.lastDot, List.idxOf?_eq_none_iff.mpr (fun hmem => h (List.mem_reverse.mp hmem))]
  rfl

/-- The index by which a node of the tree is kept in order. -/
theorem oidIndex_snoc (path : List ℤ) {i : ℤ} (hi : 0 ≤ i ∧ i < 2147483648) :
    oidIndex (oidText (path ++ [i])) = if path = [] then 0 else i := by
  by_cases hpath : path = []
  · subst hpath
    rw [if_pos rfl, List.nil_append, oidIndex]
    rw [show oidText [i] = formatInt i from rfl, lastDot_none (dot_not_mem_formatInt i)]
  · have hdrop : (oidText path ++ ch '.' :: formatInt i).drop ((oidText path).length + 1) =
        formatInt i := by
      rw [← List.drop_drop, List.drop_left]
      rfl
    have htext : oidText (path ++ [i]) = oidText path ++ ch '.' :: formatInt i := by
      rw [oidText_snoc, extendOid, if_neg (oidText_ne_nil hpath)]
      simp [str]
    rw [if_neg hpath, htext, oidIndex, lastDot_append (dot_not_mem_formatInt i)]
    simp only [hdrop]
    exact atoi_formatInt (by omega) hi.2

/-! ## Nodes -/

section Nodes

variable {δ : Type*} {path : List ℤ} {f : Forest ℤ δ} {i : ℤ}

/-- The node for one key below a path. -/
def rendered (path : List ℤ) (i : ℤ) (value : Option δ) (children : Forest ℤ δ) : Node δ :=
  ⟨oidText (path ++ [i]), if path = [] then 0 else i, value, render (path ++ [i]) children⟩

theorem findOidInVector_cons (node : Node δ) (rest : List (Node δ)) (oid : StdString) :
    findOidInVector (node :: rest) oid =
      if node.oid = oid then some (0, node)
      else (findOidInVector rest oid).map fun found => (found.1 + 1, found.2) := by
  by_cases h : node.oid = oid
  · simp [findOidInVector, List.findIdx?_cons, h]
  · simp only [findOidInVector, List.findIdx?_cons, h, decide_false, Bool.false_eq_true, if_false]
    cases rest.findIdx? (·.oid = oid) with
    | none => rfl
    | some idx => cases hidx : rest[idx]? <;> simp [hidx]

theorem findOidInVector_render_none (h : f.lookup i = none) :
    findOidInVector (render path f) (oidText (path ++ [i])) = none := by
  induction f with
  | nil => rfl
  | node key value children siblings _ ih =>
      rw [Forest.lookup] at h
      split at h
      · cases h
      · rename_i hkey
        have hoid : oidText (path ++ [key]) ≠ oidText (path ++ [i]) :=
          fun heq => hkey (oidText_snoc_eq_iff.mp heq)
        rw [render, findOidInVector_cons, if_neg hoid, ih h]
        rfl

/-- The node found for a key, the node behind it, and the vector after its children
changed. -/
theorem findOidInVector_render_some (path : List ℤ) {value : Option δ} {children : Forest ℤ δ}
    (h : f.lookup i = some (value, children)) :
    ∃ idx, findOidInVector (render path f) (oidText (path ++ [i])) =
        some (idx, rendered path i value children) ∧
      (render path f)[idx + 1]? = (render path (f.later i)).head? ∧
      ∀ (change : List (Node δ) → List (Node δ)) (children' : Forest ℤ δ),
        change (render (path ++ [i]) children) = render (path ++ [i]) children' →
          (render path f).modify idx (fun node =>
            { node with children := change node.children }) =
              render path (Forest.descend i children' f) := by
  induction f with
  | nil => simp [Forest.lookup] at h
  | node key v c siblings _ ih =>
      rw [Forest.lookup] at h
      by_cases hkey : key = i
      · subst hkey
        rw [if_pos rfl] at h
        obtain ⟨rfl, rfl⟩ := Prod.mk.inj (Option.some.inj h)
        refine ⟨0, ?_, ?_, ?_⟩
        · rw [render, findOidInVector_cons, if_pos rfl]
          rfl
        · simp [render, Forest.later, List.head?_eq_getElem?]
        · intro change children' hchange
          simp [render, Forest.descend, hchange]
      · rw [if_neg hkey] at h
        obtain ⟨idx, hfind, hnext, hmodify⟩ := ih h
        have hoid : oidText (path ++ [key]) ≠ oidText (path ++ [i]) :=
          fun heq => hkey (oidText_snoc_eq_iff.mp heq)
        refine ⟨idx + 1, ?_, ?_, ?_⟩
        · rw [render, findOidInVector_cons, if_neg hoid, hfind]
          rfl
        · rw [render, List.getElem?_cons_succ, hnext, Forest.later, if_neg hkey]
        · intro change children' hchange
          rw [render, List.modify_succ_cons, hmodify change children' hchange, Forest.descend,
            if_neg hkey, render]

/-- The order in which `register_oid` keeps the children of a node, and the top level. -/
def before (path : List ℤ) (i j : ℤ) : Bool := if path = [] then false else decide (i < j)

theorem insertNode_render (value : Option δ) (children : Forest ℤ δ) :
    insertNode (rendered path i value children) (render path f) =
      render path (Forest.place (before path) i value children f) := by
  induction f with
  | nil => rfl
  | node key v c siblings _ ih =>
      have hidx : (rendered path i value children).oidIdx <
          (if path = [] then 0 else key) ↔ before path i key = true := by
        by_cases hpath : path = []
        · simp [rendered, before, hpath]
        · simp [rendered, before, hpath]
      rw [render, insertNode, Forest.place]
      simp only [hidx, ih]
      cases before path i key with
      | true => rfl
      | false => rfl

theorem before_snoc (path : List ℤ) (i : ℤ) :
    before (path ++ [i]) = fun a b => decide (a < b) := by
  funext a b
  simp [before]

end Nodes

/-! ## Registering and finding -/

section Registering

variable {δ : Type*}

/-- Registering below a path inserts into its forest. -/
theorem registerParts_render (e : δ) (ids : List ℤ)
    (hbounded : ∀ i ∈ ids, 0 ≤ i ∧ i < 2147483648) (path : List ℤ) (f : Forest ℤ δ) :
    registerParts e (ids.map formatInt) (oidText path) (render path f) =
      render path (f.insert (before path) ids e) := by
  induction ids generalizing path f with
  | nil => rfl
  | cons i ids ih =>
      have hrest := ih (fun j hj => hbounded j (List.mem_cons_of_mem _ hj)) (path ++ [i])
      rw [before_snoc] at hrest
      have hindex := oidIndex_snoc path (hbounded i List.mem_cons_self)
      rw [List.map_cons, registerParts, ← oidText_snoc, Forest.insert]
      cases h : f.lookup i with
      | none =>
          have hnew := hrest .nil
          rw [findOidInVector_render_none h]
          simp only [hindex, List.map_eq_nil_iff]
          rw [← insertNode_render, rendered, ← hnew]
          rfl
      | some found =>
          obtain ⟨value, children⟩ := found
          obtain ⟨idx, hfind, _, hmodify⟩ := findOidInVector_render_some path h
          rw [hfind]
          exact hmodify _ _ (hrest children)

/-- The tree is the forest of the registered OIDs. -/
theorem treeOf_eq (entries : List (Oid × δ)) : treeOf entries = render [] (forestOf entries) := by
  have hfold : ∀ f : Forest ℤ δ,
      (entries.map fun entry => (entry.1.text, entry.2)).foldl
        (fun data call => registerOid data call.1 call.2) (render [] f) =
      render [] (entries.foldl (fun f entry =>
        f.insert (fun _ _ => false) entry.1.ids entry.2) f) := by
    induction entries with
    | nil => exact fun f => rfl
    | cons entry entries ih =>
        intro f
        have hregister : registerOid (render [] f) entry.1.text entry.2 =
            render [] (f.insert (fun _ _ => false) entry.1.ids entry.2) := by
          rw [registerOid, Oid.text, split_oidText]
          exact registerParts_render entry.2 entry.1.ids entry.1.bounded [] f
        rw [List.map_cons, List.foldl_cons, List.foldl_cons, hregister]
        exact ih _
  exact hfold .nil

theorem findParts_render (ids path : List ℤ) (f : Forest ℤ δ) :
    findParts (ids.map formatInt) (oidText path) (render path f) = f.valueAt ids := by
  induction ids generalizing path f with
  | nil => rfl
  | cons i ids ih =>
      rw [List.map_cons, findParts, ← oidText_snoc]
      cases h : f.lookup i with
      | none =>
          rw [findOidInVector_render_none h]
          cases ids <;> simp [Forest.valueAt, h]
      | some found =>
          obtain ⟨value, children⟩ := found
          obtain ⟨idx, hfind, _⟩ := findOidInVector_render_some path h
          rw [hfind]
          cases ids with
          | nil => simp [Forest.valueAt, h, rendered]
          | cons j ids =>
              have hrest := ih (path ++ [i]) children
              simp only [Forest.valueAt, h]
              exact hrest

theorem findByOid_render (ids : List ℤ) (f : Forest ℤ δ) :
    findByOid (render [] f) (oidText ids) = f.valueAt ids := by
  rw [findByOid, split_oidText]
  exact findParts_render ids [] f

end Registering

/-! ## Going to the next OID -/

section Next

variable {δ : Type*} {path : List ℤ} {f : Forest ℤ δ}

/-- From a node the second loop ends at the first leaf below it. -/
theorem endBelow_rendered (path : List ℤ) (i : ℤ) (value : Option δ) (children : Forest ℤ δ)
    (branch : Branch δ) :
    ∃ last branch', endBelow (rendered path i value children) branch = (some last, branch') ∧
      last.oid = oidText (path ++ i :: children.first.getD []) := by
  induction children generalizing path i value branch with
  | nil => exact ⟨_, _, rfl, rfl⟩
  | node key v c siblings ih _ =>
      obtain ⟨last, branch', hend, hoid⟩ := ih (path ++ [i]) key v
        ((some (rendered path i value (.node key v c siblings)), 0) :: branch)
      refine ⟨last, branch', hend, ?_⟩
      rw [hoid, Forest.first, Option.getD_some, List.append_assoc, List.singleton_append]

theorem endOfBranch_render (path : List ℤ) {first : List ℤ} (hfirst : f.first = some first)
    (parent : Option (Node δ)) (branch : Branch δ) :
    ∃ last branch', endOfBranch parent (render path f) branch = (some last, branch') ∧
      last.oid = oidText (path ++ first) := by
  cases f with
  | nil => simp [Forest.first] at hfirst
  | node key value children siblings =>
      obtain rfl := Option.some.inj hfirst
      exact endBelow_rendered path key value children ((parent, 0) :: branch)

/-- What `find_next_oid` does behind its first loop. -/
def conclude (oid : StdString) (stopped : Option (Node δ) × List (Node δ) × Branch δ) : NextOid :=
  match endOfBranch stopped.1 stopped.2.1 stopped.2.2 with
  | (none, _) => .nullParent
  | (some parent, branch) =>
      if parent.oid ≠ oid then .returned parent.oid
      else goToSibling ((some parent, 0) :: branch)

theorem conclude_first (path : List ℤ) {first : List ℤ} (hfirst : f.first = some first) {oid : StdString}
    (hoid : oidText (path ++ first) ≠ oid) (parent : Option (Node δ)) (branch : Branch δ) :
    conclude oid (parent, render path f, branch) = .returned (oidText (path ++ first)) := by
  obtain ⟨last, branch', hend, hlast⟩ := endOfBranch_render path hfirst parent branch
  rw [conclude, hend]
  simp only [hlast, hoid, ne_eq, not_false_eq_true, if_true]

/-- From a node of the tree it ends at the first leaf below, or else at the node itself. -/
theorem conclude_at {node : Node δ} (hnode : node.oid = oidText path) {oid : StdString}
    (hoid : oidText (path ++ f.first.getD []) ≠ oid) (branch : Branch δ) :
    conclude oid (some node, render path f, branch) =
      .returned (oidText (path ++ f.first.getD [])) := by
  cases f with
  | nil =>
      rw [Forest.first, Option.getD_none, List.append_nil] at hoid ⊢
      rw [conclude, render, endOfBranch]
      simp only [hnode, hoid, ne_eq, not_false_eq_true, if_true]
  | node key value children siblings => exact conclude_first path rfl hoid _ _

theorem first_ne_of_lookup_eq_none {k : ℤ} (h : f.lookup k = none) (q : List ℤ) :
    f.first.getD [] ≠ k :: q := by
  cases f with
  | nil => simp [Forest.first]
  | node key value children siblings =>
      intro heq
      obtain ⟨rfl, _⟩ := List.cons.inj heq
      simp [Forest.lookup] at h

/-- Going up from a node, the first later sibling on the way is taken. -/
theorem goToSibling_render {node : Node δ} (hchildren : node.children = render path f) {i : ℤ}
    {idx : ℕ} (hidx : (render path f)[idx + 1]? = (render path (f.later i)).head?)
    (branch : Branch δ) :
    goToSibling ((some node, idx) :: branch) =
      match (f.later i).first with
      | some p => .returned (oidText (path ++ p))
      | none => goToSibling branch := by
  rw [goToSibling, hchildren, hidx]
  cases f.later i with
  | nil => rfl
  | node key value children siblings =>
      obtain ⟨last, branch', hend, hoid⟩ := endBelow_rendered path key value children []
      have hhead : (render path (.node key value children siblings)).head? =
          some (rendered path key value children) := rfl
      rw [hhead]
      simp only [hend, hoid, Forest.first]

/-- From a node on the way, `find_next_oid` goes on as `next` does in the forest below. -/
theorem conclude_descend (q path : List ℤ) (f : Forest ℤ δ) (node : Node δ) (branch : Branch δ)
    (hoid : node.oid = oidText path) (hchildren : node.children = render path f) :
    conclude (oidText (path ++ q))
        (descend (q.map formatInt) (oidText path) (some node) (render path f) branch) =
      match f.next q with
      | some p => .returned (oidText (path ++ p))
      | none => goToSibling branch := by
  induction q generalizing path f node branch with
  | nil =>
      rw [List.map_nil, descend, Forest.next, List.append_nil]
      cases f with
      | nil =>
          rw [conclude, render, endOfBranch]
          simp only [hoid, ne_eq, not_true, if_false]
          rw [goToSibling, hchildren]
          rfl
      | node key value children siblings =>
          refine conclude_at hoid ?_ branch
          intro heq
          simpa [Forest.first] using oidText_injective heq
  | cons k q ih =>
      rw [List.map_cons, descend, ← oidText_snoc]
      cases h : f.lookup k with
      | none =>
          rw [findOidInVector_render_none h]
          simp only [Forest.next, h]
          refine conclude_at hoid ?_ branch
          intro heq
          exact first_ne_of_lookup_eq_none h q (List.append_cancel_left (oidText_injective heq))
      | some found =>
          obtain ⟨value, children⟩ := found
          obtain ⟨idx, hfind, hidx, _⟩ := findOidInVector_render_some path h
          have hrest := ih (path ++ [k]) children (rendered path k value children)
            ((some node, idx) :: branch) rfl rfl
          rw [goToSibling_render hchildren hidx, List.append_assoc, List.singleton_append] at hrest
          rw [hfind]
          simp only [Forest.next, h]
          refine hrest.trans ?_
          cases children.next q with
          | none => simp
          | some p => simp

theorem findNextOid_eq (data : List (Node δ)) (oid : StdString) :
    findNextOid data oid = conclude oid (descend (split oid (str ".")) [] none data []) := rfl

/-- What stops above the first level goes to the first leaf. -/
theorem conclude_top (hne : f ≠ .nil) {oid : StdString} (hoid : oidText (f.first.getD []) ≠ oid) :
    conclude oid (none, render [] f, []) = .returned (oidText (f.first.getD [])) := by
  cases f with
  | nil => exact absurd rfl hne
  | node key value children siblings => exact conclude_first [] rfl hoid none []

/-- `find_next_oid` goes on as `nextUnder` does. -/
theorem findNextOid_render (hne : f ≠ .nil) (q : List ℤ) :
    findNextOid (render [] f) (oidText q) = .returned (oidText ((f.nextUnder q).getD [])) := by
  rw [findNextOid_eq, split_oidText]
  cases q with
  | nil =>
      refine conclude_top hne ?_
      intro heq
      cases f with
      | nil => exact absurd rfl hne
      | node key value children siblings => exact List.cons_ne_nil _ _ (oidText_injective heq)
  | cons k q =>
      rw [List.map_cons, descend, show extendOid [] (formatInt k) = oidText ([] ++ [k]) from rfl]
      cases h : f.lookup k with
      | none =>
          rw [findOidInVector_render_none h]
          simp only [Forest.nextUnder, h]
          refine conclude_top hne ?_
          intro heq
          exact first_ne_of_lookup_eq_none h q (oidText_injective heq)
      | some found =>
          obtain ⟨value, children⟩ := found
          obtain ⟨idx, hfind, _⟩ := findOidInVector_render_some [] h
          have hbelow := conclude_descend q [k] children (rendered [] k value children)
            [(none, idx)] rfl rfl
          rw [hfind]
          simp only [Forest.nextUnder, h]
          refine hbelow.trans ?_
          cases children.next q with
          | none => rfl
          | some p => rfl

/-- An OID with a leading dot has an empty first part, which no node has. -/
theorem findNextOid_render_dot (hne : f ≠ .nil) {q : List ℤ} (hq : q ≠ []) :
    findNextOid (render [] f) (ch '.' :: oidText q) = .returned (oidText (f.first.getD [])) := by
  have hmissing : findOidInVector (render [] f) [] = none := by
    induction f with
    | nil => exact absurd rfl hne
    | node key value children siblings _ ih =>
        rw [render, findOidInVector_cons, if_neg (oidText_ne_nil (by simp)), Option.map_eq_none_iff]
        cases siblings with
        | nil => rfl
        | node key' value' children' siblings' => exact ih (by simp)
  rw [findNextOid_eq, split_dot_oidText hq, descend, show extendOid [] [] = [] from rfl, hmissing]
  refine conclude_top hne ?_
  intro heq
  have hparts := split_oidText (f.first.getD [])
  rw [heq, split_dot_oidText hq] at hparts
  cases hfirst : f.first.getD [] with
  | nil => simp [hfirst] at hparts
  | cons i first =>
      rw [hfirst] at hparts
      exact formatInt_ne_nil i (List.cons.inj hparts).1.symm

end Next

end HamRouter.SnmpData
