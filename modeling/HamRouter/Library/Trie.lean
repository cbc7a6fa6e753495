import Mathlib.Data.List.Lex
import Mathlib.Order.Lattice

/-! # Tries with ordered siblings

A forest of nodes that are reached by lists of keys. Siblings are kept in order as paths
are inserted, so that the leaf behind a given path can be found on the way down to it. -/

namespace Trie

/-- A node with its value, its children, and the siblings behind it. -/
inductive Forest (κ α : Type*) where
  | nil
  | node (key : κ) (value : Option α) (children siblings : Forest κ α)

variable {κ α : Type*}

namespace Forest

/-- The keys of one level. -/
def keys : Forest κ α → List κ
  | nil => []
  | node key _ _ siblings => key :: siblings.keys

section Access

variable [DecidableEq κ]

/-- The value and the children of the first node with a key. -/
def lookup : Forest κ α → κ → Option (Option α × Forest κ α)
  | nil, _ => none
  | node key value children siblings, k =>
      if key = k then some (value, children) else siblings.lookup k

/-- The siblings behind the first node with a key. -/
def later : Forest κ α → κ → Forest κ α
  | nil, _ => nil
  | node key _ _ siblings, k => if key = k then siblings else siblings.later k

/-- What is below a path, if the path is there; the empty path always is. -/
def subtree : Forest κ α → List κ → Option (Forest κ α)
  | f, [] => some f
  | f, k :: path =>
      match f.lookup k with
      | none => none
      | some (_, children) => children.subtree path

/-- The value at a path. -/
def valueAt : Forest κ α → List κ → Option (Option α)
  | _, [] => none
  | f, [k] => (f.lookup k).map Prod.fst
  | f, k :: path =>
      match f.lookup k with
      | none => none
      | some (_, children) => children.valueAt path

/-- A path with nothing below it. -/
def IsLeaf (f : Forest κ α) (path : List κ) : Prop := f.subtree path = some nil

/-- The longest beginning of a list that is a path. -/
def matched : Forest κ α → List κ → List κ
  | _, [] => []
  | f, k :: path =>
      match f.lookup k with
      | none => []
      | some (_, children) => k :: children.matched path

end Access

/-- The first leaf of a forest. -/
def first : Forest κ α → Option (List κ)
  | nil => none
  | node key _ children _ => some (key :: children.first.getD [])

/-- The leaf to go to from a list of keys: behind it when it is a path, and at the first
leaf below the part that is one otherwise. -/
def next [DecidableEq κ] : Forest κ α → List κ → Option (List κ)
  | f, [] => f.first
  | f, k :: path =>
      match f.lookup k with
      | none => some (f.first.getD [])
      | some (_, children) => ((children.next path).map (k :: ·)).or (f.later k).first

/-- `next` without the siblings of the first key. -/
def nextUnder [DecidableEq κ] : Forest κ α → List κ → Option (List κ)
  | f, [] => f.first
  | f, k :: path =>
      match f.lookup k with
      | none => f.first
      | some (_, children) => (children.next path).map (k :: ·)

/-! ## Insertion -/

/-- A node joins a level in front of the first sibling it has to be before. -/
def place (before : κ → κ → Bool) (k : κ) (value : Option α) (children : Forest κ α) :
    Forest κ α → Forest κ α
  | nil => node k value children nil
  | node key v c siblings =>
      if before k key then node k value children (node key v c siblings)
      else node key v c (place before k value children siblings)

/-- The children of the first node with a key are replaced. -/
def descend [DecidableEq κ] (k : κ) (children : Forest κ α) : Forest κ α → Forest κ α
  | nil => nil
  | node key v c siblings =>
      if key = k then node key v children siblings else node key v c (descend k children siblings)

/-- A path is inserted with a value, unless it is there. -/
def insert [LinearOrder κ] (before : κ → κ → Bool) : List κ → α → Forest κ α → Forest κ α
  | [], _, f => f
  | k :: path, a, f =>
      match f.lookup k with
      | none =>
          place before k (if path = [] then some a else none) (insert (· < ·) path a nil) f
      | some (_, children) => descend k (insert (· < ·) path a children) f

/-- Siblings are in order: by `r` at this level, and increasing at every level below. -/
def Ordered [LT κ] (r : κ → κ → Prop) : Forest κ α → Prop
  | nil => True
  | node key _ children siblings =>
      (∀ k ∈ siblings.keys, r key k) ∧ Ordered (· < ·) children ∧ Ordered r siblings

/-! ## Levels -/

theorem keys_place {f : Forest κ α} (before : κ → κ → Bool) (k : κ) (value : Option α)
    (children : Forest κ α) (k' : κ) :
    k' ∈ (place before k value children f).keys ↔ k' = k ∨ k' ∈ f.keys := by
  induction f with
  | nil => simp [place, keys]
  | node key v c siblings _ ih =>
      rw [place]
      split
      · simp [keys]
      · simp only [keys, List.mem_cons, ih]
        exact or_left_comm

theorem keys_place_last (k : κ) (value : Option α) (children f : Forest κ α) :
    (place (fun _ _ => false) k value children f).keys = f.keys ++ [k] := by
  induction f with
  | nil => rfl
  | node key v c siblings _ ih => simp [place, keys, ih]

section Levels

variable [DecidableEq κ] {f : Forest κ α} {k : κ}

theorem lookup_eq_none_iff : f.lookup k = none ↔ k ∉ f.keys := by
  induction f with
  | nil => simp [lookup, keys]
  | node key value children siblings _ ih =>
      by_cases h : key = k
      · simp [lookup, keys, h]
      · simp [lookup, keys, h, ih, Ne.symm h]

theorem mem_keys_of_lookup {found : Option α × Forest κ α} (h : f.lookup k = some found) :
    k ∈ f.keys := by
  by_contra hnot
  rw [lookup_eq_none_iff.mpr hnot] at h
  cases h

theorem lookup_place (before : κ → κ → Bool) (value : Option α) (children : Forest κ α)
    (h : f.lookup k = none) (k' : κ) :
    (place before k value children f).lookup k' =
      if k = k' then some (value, children) else f.lookup k' := by
  induction f with
  | nil => simp [place, lookup]
  | node key v c siblings _ ih =>
      have hkey : key ≠ k := by
        intro heq
        simp [lookup, heq] at h
      have hrest : siblings.lookup k = none := by simpa [lookup, hkey] using h
      rw [place]
      split
      · rw [lookup]
      · rw [lookup, ih hrest, lookup]
        by_cases hk : k = k'
        · simp [← hk, hkey]
        · simp [hk]

theorem lookup_descend (children : Forest κ α) (k' : κ) :
    (descend k children f).lookup k' =
      if k = k' then (f.lookup k).map fun found => (found.1, children) else f.lookup k' := by
  induction f with
  | nil => simp [descend, lookup]
  | node key v c siblings _ ih =>
      rw [descend]
      by_cases hkey : key = k
      · subst hkey
        rw [if_pos rfl, lookup, lookup, lookup]
        by_cases hk : key = k'
        · simp [hk]
        · simp [hk]
      · rw [if_neg hkey, lookup, ih, lookup, lookup, if_neg hkey]
        by_cases hk : k = k'
        · simp [← hk, hkey]
        · simp [hk]

theorem keys_descend (children : Forest κ α) : (descend k children f).keys = f.keys := by
  induction f with
  | nil => rfl
  | node key v c siblings _ ih =>
      rw [descend]
      split
      · rfl
      · rw [keys, ih, keys]

end Levels

/-! ## Paths -/

section Paths

variable [DecidableEq κ]

theorem subtree_append (f : Forest κ α) (path path' : List κ) :
    f.subtree (path ++ path') = (f.subtree path).bind (·.subtree path') := by
  induction path generalizing f with
  | nil => rfl
  | cons k path ih =>
      rw [List.cons_append, subtree, subtree]
      cases f.lookup k with
      | none => rfl
      | some found => exact ih found.2

/-- A leaf is a path that no key prolongs. -/
theorem isLeaf_iff (f : Forest κ α) (path : List κ) :
    f.IsLeaf path ↔ (f.subtree path).isSome ∧ ∀ k, f.subtree (path ++ [k]) = none := by
  simp only [IsLeaf, subtree_append]
  cases f.subtree path with
  | none => simp
  | some below =>
      cases below with
      | nil => simp [subtree, lookup]
      | node key value children siblings =>
          have hkey : (node key value children siblings).subtree [key] = some children := by
            simp [subtree, lookup]
          simp only [Option.some.injEq, reduceCtorEq, Option.isSome_some, Option.bind_some,
            true_and, false_iff, not_forall]
          exact ⟨key, by simp [hkey]⟩

theorem matched_prefix (f : Forest κ α) (q : List κ) : f.matched q <+: q := by
  induction q generalizing f with
  | nil => exact List.prefix_rfl
  | cons k q ih =>
      rw [matched]
      cases f.lookup k with
      | none => exact List.nil_prefix
      | some found => exact List.cons_prefix_cons.mpr ⟨rfl, ih found.2⟩

theorem subtree_matched (f : Forest κ α) (q : List κ) : (f.subtree (f.matched q)).isSome := by
  induction q generalizing f with
  | nil => rfl
  | cons k q ih =>
      rw [matched]
      cases h : f.lookup k with
      | none => rfl
      | some found => simpa [subtree, h] using ih found.2

theorem prefix_matched {f : Forest κ α} {q path : List κ} (hbegins : path <+: q)
    (hpath : (f.subtree path).isSome) : path <+: f.matched q := by
  induction path generalizing f q with
  | nil => exact List.nil_prefix
  | cons k path ih =>
      cases q with
      | nil => simp at hbegins
      | cons k' q =>
          obtain ⟨rfl, hrest⟩ := List.cons_prefix_cons.mp hbegins
          rw [subtree] at hpath
          rw [matched]
          cases h : f.lookup k with
          | none => simp [h] at hpath
          | some found =>
              simp only [h] at hpath
              exact List.cons_prefix_cons.mpr ⟨rfl, ih hrest hpath⟩

end Paths

section Insert

variable [LinearOrder κ]

/-- Inserting a path concerns the node of its first key. -/
theorem lookup_insert (before : κ → κ → Bool) (k : κ) (path : List κ) (a : α) (f : Forest κ α)
    (k' : κ) :
    (insert before (k :: path) a f).lookup k' =
      if k = k' then
        some ((f.lookup k).elim (if path = [] then some a else none) Prod.fst,
          insert (· < ·) path a ((f.lookup k).elim nil Prod.snd))
      else f.lookup k' := by
  rw [insert]
  cases h : f.lookup k with
  | none => rw [lookup_place _ _ _ h]; rfl
  | some found =>
      rw [lookup_descend, h]
      rfl

/-- When nothing has to be before anything, the keys of the first level stay in front. -/
theorem keys_prefix_insert (path : List κ) (a : α) (f : Forest κ α) :
    f.keys <+: (insert (fun _ _ => false) path a f).keys := by
  cases path with
  | nil => exact List.prefix_rfl
  | cons k path =>
      rw [insert]
      cases f.lookup k with
      | none =>
          simp only [keys_place_last]
          exact List.prefix_append _ _
      | some found =>
          simp only [keys_descend]
          exact List.prefix_rfl

/-- The paths of a forest after an insertion. -/
theorem subtree_insert_isSome (before : κ → κ → Bool) (path : List κ) (a : α) (f : Forest κ α)
    (p : List κ) :
    ((insert before path a f).subtree p).isSome ↔ (f.subtree p).isSome ∨ p <+: path := by
  induction p generalizing before path f with
  | nil => simp [subtree]
  | cons k' p ih =>
      cases path with
      | nil => simp [insert]
      | cons k path =>
          rw [subtree, lookup_insert, List.cons_prefix_cons]
          by_cases hk : k = k'
          · subst hk
            simp only [if_true, ih, true_and, subtree]
            cases f.lookup k with
            | none =>
                cases p with
                | nil => simp [subtree]
                | cons k' p => simp [subtree, lookup]
            | some found => simp
          · simp [hk, Ne.symm hk, subtree]

/-- A value stays where it is. -/
theorem valueAt_insert_of_some (before : κ → κ → Bool) (path : List κ) (a : α) (f : Forest κ α)
    {p : List κ} (h : (f.valueAt p).isSome) :
    (insert before path a f).valueAt p = f.valueAt p := by
  induction p generalizing before path f with
  | nil => simp [valueAt]
  | cons k' p ih =>
      cases path with
      | nil => rfl
      | cons k path =>
          by_cases hk : k = k'
          · subst hk
            cases hl : f.lookup k with
            | none => cases p <;> simp [valueAt, hl] at h
            | some found =>
                cases p with
                | nil => simp [valueAt, lookup_insert, hl]
                | cons k' p =>
                    simp only [valueAt, hl] at h
                    simp only [valueAt, lookup_insert, hl, if_true, Option.elim_some]
                    exact ih _ _ _ h
          · cases p <;> simp [valueAt, lookup_insert, hk]

/-- A path that was not there has its value afterwards. -/
theorem valueAt_insert_self (before : κ → κ → Bool) {path : List κ} (hne : path ≠ []) (a : α)
    (f : Forest κ α) (h : f.subtree path = none) :
    (insert before path a f).valueAt path = some (some a) := by
  induction path generalizing before f with
  | nil => exact absurd rfl hne
  | cons k path ih =>
      cases hl : f.lookup k with
      | none =>
          cases path with
          | nil => simp [valueAt, lookup_insert, hl]
          | cons k' path =>
              simp only [valueAt, lookup_insert, hl, if_true, Option.elim_none]
              exact ih _ (by simp) nil (by simp [subtree, lookup])
      | some found =>
          cases path with
          | nil => simp [subtree, hl] at h
          | cons k' path =>
              simp only [subtree, hl] at h
              simp only [valueAt, lookup_insert, hl, if_true, Option.elim_some]
              exact ih _ (by simp) _ h

/-! ## Order -/

/-- Joining a level in front of `before` keeps it in the order `r`. -/
structure Keeps (before : κ → κ → Bool) (r : κ → κ → Prop) : Prop where
  front : ∀ k k', before k k' = true → r k k' ∧ ∀ k'', r k' k'' → r k k''
  behind : ∀ k k', before k k' = false → k' ≠ k → r k' k

theorem keeps_lt : Keeps (fun a b : κ => decide (a < b)) (· < ·) where
  front _ _ h := ⟨of_decide_eq_true h, fun _ => (of_decide_eq_true h).trans⟩
  behind _ _ h hne := lt_of_le_of_ne (not_lt.mp (of_decide_eq_false h)) hne

theorem keeps_ne {κ : Type*} : Keeps (fun _ _ : κ => false) (· ≠ ·) where
  front _ _ h := by cases h
  behind _ _ _ hne := hne

variable {before : κ → κ → Bool} {r : κ → κ → Prop} {f : Forest κ α}

theorem ordered_place (hkeeps : Keeps before r) {k : κ} (value : Option α) {children : Forest κ α}
    (hf : f.Ordered r) (hk : k ∉ f.keys) (hchildren : children.Ordered (· < ·)) :
    (place before k value children f).Ordered r := by
  induction f with
  | nil => exact ⟨by simp [keys], hchildren, trivial⟩
  | node key v c siblings _ ih =>
      obtain ⟨hkey, hc, hsiblings⟩ := hf
      have hne : key ≠ k := fun h => hk (by simp [keys, h])
      have hrest : k ∉ siblings.keys := fun h => hk (by simp [keys, h])
      rw [place]
      cases hbefore : before k key with
      | true =>
          obtain ⟨hfront, hlater⟩ := hkeeps.front k key hbefore
          refine ⟨?_, hchildren, hkey, hc, hsiblings⟩
          intro k' hk'
          rcases List.mem_cons.mp hk' with rfl | hk'
          · exact hfront
          · exact hlater k' (hkey k' hk')
      | false =>
          refine ⟨?_, hc, ih hsiblings hrest⟩
          intro k' hk'
          rcases (keys_place before k value children k').mp hk' with rfl | hk'
          · exact hkeeps.behind k' key hbefore hne
          · exact hkey k' hk'

theorem ordered_descend {k : κ} {children : Forest κ α} (hf : f.Ordered r)
    (hchildren : children.Ordered (· < ·)) : (descend k children f).Ordered r := by
  induction f with
  | nil => trivial
  | node key v c siblings _ ih =>
      obtain ⟨hkey, hc, hsiblings⟩ := hf
      rw [descend]
      split
      · exact ⟨hkey, hchildren, hsiblings⟩
      · refine ⟨?_, hc, ih hsiblings⟩
        rw [keys_descend]
        exact hkey

theorem ordered_lookup {k : κ} {value : Option α} {children : Forest κ α} (hf : f.Ordered r)
    (h : f.lookup k = some (value, children)) : children.Ordered (· < ·) := by
  induction f with
  | nil => simp [lookup] at h
  | node key v c siblings _ ih =>
      rw [lookup] at h
      split at h
      · obtain ⟨_, rfl⟩ := Prod.mk.inj (Option.some.inj h)
        exact hf.2.1
      · exact ih hf.2.2 h

/-- Insertion keeps every level in order. -/
theorem ordered_insert (hkeeps : Keeps before r) (path : List κ) (a : α) (hf : f.Ordered r) :
    (insert before path a f).Ordered r := by
  induction path generalizing before r f with
  | nil => exact hf
  | cons k path ih =>
      rw [insert]
      cases h : f.lookup k with
      | none =>
          have hchildren := ih keeps_lt (f := nil) trivial
          exact ordered_place hkeeps _ hf (lookup_eq_none_iff.mp h) hchildren
      | some found => exact ordered_descend hf (ih keeps_lt (ordered_lookup hf h))

end Insert

/-! ## Leaves -/

section Leaves

variable [LinearOrder κ] {f : Forest κ α}

@[simp]
theorem isLeaf_nil_iff : f.IsLeaf [] ↔ f = nil := by
  simp [IsLeaf, subtree]

theorem isLeaf_cons_iff {k : κ} {path : List κ} :
    f.IsLeaf (k :: path) ↔ ∃ found, f.lookup k = some found ∧ found.2.IsLeaf path := by
  rw [IsLeaf, subtree]
  cases f.lookup k with
  | none => simp
  | some found => simp [IsLeaf]

theorem isLeaf_cons_of_lookup {k : κ} {found : Option α × Forest κ α}
    (hk : f.lookup k = some found) {path : List κ} :
    f.IsLeaf (k :: path) ↔ found.2.IsLeaf path := by
  rw [isLeaf_cons_iff, hk]
  simp

theorem eq_nil_of_isLeaf_nil {path : List κ} (h : (nil : Forest κ α).IsLeaf path) : path = [] := by
  cases path with
  | nil => rfl
  | cons k path => simp [isLeaf_cons_iff, lookup] at h

theorem isLeaf_first (f : Forest κ α) : f.IsLeaf (f.first.getD []) := by
  induction f with
  | nil => simp [first]
  | node key value children siblings ih _ =>
      rw [first, Option.getD_some, isLeaf_cons_iff]
      exact ⟨(value, children), by simp [lookup], ih⟩

theorem first_le (hf : f.Ordered (· < ·)) {l : List κ} (hl : f.IsLeaf l) :
    f.first.getD [] ≤ l := by
  induction f generalizing l with
  | nil => exact not_lt.mp (List.not_lt_nil l)
  | node key value children siblings ihchildren _ =>
      obtain ⟨hkey, hchildren, _⟩ := hf
      rw [first, Option.getD_some]
      cases l with
      | nil => simp at hl
      | cons k l =>
          obtain ⟨found, hfound, hleaf⟩ := isLeaf_cons_iff.mp hl
          rw [lookup] at hfound
          split at hfound
          · rename_i hk
            subst hk
            obtain rfl := Option.some.inj hfound
            exact List.cons_le_cons key (ihchildren hchildren hleaf)
          · have hmem := mem_keys_of_lookup hfound
            exact le_of_lt (List.cons_lt_cons_iff.mpr (Or.inl (hkey k hmem)))

theorem lookup_later (hf : f.Ordered (· < ·)) {k : κ} {found : Option α × Forest κ α}
    (hk : f.lookup k = some found) (k' : κ) :
    (f.later k).lookup k' = if k < k' then f.lookup k' else none := by
  induction f with
  | nil => simp [lookup] at hk
  | node key value children siblings _ ih =>
      obtain ⟨hkey, _, hsiblings⟩ := hf
      rw [later, lookup]
      by_cases heq : key = k
      · subst heq
        rw [if_pos rfl]
        by_cases hlt : key < k'
        · rw [if_pos hlt, if_neg hlt.ne]
        · rw [if_neg hlt, lookup_eq_none_iff]
          exact fun hmem => hlt (hkey k' hmem)
      · rw [lookup, if_neg heq] at hk
        have hmem := mem_keys_of_lookup hk
        rw [if_neg heq, ih hsiblings hk]
        by_cases hlt : k < k'
        · rw [if_pos hlt, if_pos hlt, if_neg ((hkey k hmem).trans hlt).ne]
        · rw [if_neg hlt, if_neg hlt]

theorem ordered_later {r : κ → κ → Prop} (hf : f.Ordered r) (k : κ) : (f.later k).Ordered r := by
  induction f with
  | nil => trivial
  | node key value children siblings _ ih =>
      rw [later]
      split
      · exact hf.2.2
      · exact ih hf.2.2

/-- The leaves behind a key are those with a larger one. -/
theorem isLeaf_later_iff (hf : f.Ordered (· < ·)) {k : κ} {found : Option α × Forest κ α}
    (hk : f.lookup k = some found) {k' : κ} {path : List κ} :
    (f.later k).IsLeaf (k' :: path) ↔ k < k' ∧ f.IsLeaf (k' :: path) := by
  rw [isLeaf_cons_iff, isLeaf_cons_iff, lookup_later hf hk]
  by_cases hlt : k < k'
  · simp [hlt]
  · simp [hlt]

/-! ## The leaf behind a path -/

/-- The least element of a set behind a list of keys, if there is one. -/
def IsNext (leaves : List κ → Prop) (q : List κ) : Option (List κ) → Prop
  | none => ∀ l, leaves l → ¬ q < l
  | some p => leaves p ∧ q < p ∧ ∀ l, leaves l → q < l → p ≤ l

/-- What is behind one list, but does not begin as it does, is behind all that do. -/
theorem lt_of_prefix {m p q l : List κ} (hq : m <+: q) (hp : m <+: p) (hlt : q < l)
    (hl : ¬ m <+: l) : p < l := by
  induction m generalizing p q l with
  | nil => exact absurd List.nil_prefix hl
  | cons k m ih =>
      obtain ⟨q', rfl⟩ := hq
      obtain ⟨p', rfl⟩ := hp
      cases l with
      | nil => exact absurd hlt (List.not_lt_nil _)
      | cons k' l =>
          rw [List.cons_append, List.cons_lt_cons_iff] at hlt ⊢
          rcases hlt with hless | ⟨rfl, hrest⟩
          · exact Or.inl hless
          · refine Or.inr ⟨rfl, ih (List.prefix_append _ _) (List.prefix_append _ _) hrest ?_⟩
            exact fun hm => hl (List.cons_prefix_cons.mpr ⟨rfl, hm⟩)

/-- Going from each leaf to the next one walks over the leaves in their order, to the end. -/
theorem isChain_of_isNext {leaves : List κ → Prop} {next : List κ → Option (List κ)}
    {q : List κ} {ls : List (List κ)} (hsorted : (q :: ls).Pairwise (· < ·))
    (hls : ∀ l, l ∈ ls ↔ leaves l ∧ q < l) (hnext : ∀ p ∈ q :: ls, IsNext leaves p (next p)) :
    (q :: ls ++ [[]]).IsChain fun p p' => (next p).getD [] = p' := by
  induction ls generalizing q with
  | nil =>
      have hlast := hnext q List.mem_cons_self
      cases h : next q with
      | none => simp [h]
      | some p =>
          rw [h] at hlast
          exact absurd ((hls p).mpr ⟨hlast.1, hlast.2.1⟩) (by simp)
  | cons l ls ih =>
      obtain ⟨hq, hrest⟩ := List.pairwise_cons.mp hsorted
      have hl := List.pairwise_cons.mp hrest
      have hleaf := (hls l).mp List.mem_cons_self
      have htail : ∀ l', l' ∈ ls ↔ leaves l' ∧ l < l' := by
        intro l'
        constructor
        · intro hmem
          exact ⟨((hls l').mp (List.mem_cons_of_mem _ hmem)).1, hl.1 l' hmem⟩
        · intro h
          rcases List.mem_cons.mp ((hls l').mpr ⟨h.1, hleaf.2.trans h.2⟩) with rfl | hmem
          · exact absurd h.2 (lt_irrefl _)
          · exact hmem
      have hstep : (next q).getD [] = l := by
        have hthis := hnext q List.mem_cons_self
        cases h : next q with
        | none =>
            rw [h] at hthis
            exact absurd hleaf.2 (hthis l hleaf.1)
        | some p =>
            rw [h] at hthis
            obtain ⟨hp, hqp, hleast⟩ := hthis
            rcases List.mem_cons.mp ((hls p).mpr ⟨hp, hqp⟩) with rfl | hmem
            · rfl
            · exact absurd (hl.1 p hmem) (hleast l hleaf.1 hleaf.2).not_gt
      refine List.isChain_cons_cons.mpr ⟨hstep, ?_⟩
      exact ih hrest htail fun p hp => hnext p (List.mem_cons_of_mem _ hp)

/-- The next leaf below a key, as a leaf of the forest that the key is in. -/
theorem isNext_below {k : κ} {found : Option α × Forest κ α} (hk : f.lookup k = some found)
    {q : List κ} {answer : Option (List κ)} (h : IsNext found.2.IsLeaf q answer) :
    IsNext (fun l => f.IsLeaf l ∧ l.head? = some k) (k :: q) (answer.map (k :: ·)) := by
  have hinside : ∀ l, f.IsLeaf l ∧ l.head? = some k → k :: q < l →
      ∃ rest, l = k :: rest ∧ found.2.IsLeaf rest ∧ q < rest := by
    rintro l ⟨hl, hhead⟩ hql
    obtain ⟨rest, rfl⟩ := List.head?_eq_some_iff.mp hhead
    exact ⟨rest, rfl, (isLeaf_cons_of_lookup hk).mp hl, List.cons_lt_cons_self.mp hql⟩
  cases answer with
  | none =>
      intro l hl hql
      obtain ⟨rest, _, hrest, hlt⟩ := hinside l hl hql
      exact h rest hrest hlt
  | some p =>
      obtain ⟨hleaf, hlt, hleast⟩ := h
      refine ⟨⟨(isLeaf_cons_of_lookup hk).mpr hleaf, rfl⟩, List.cons_lt_cons_self.mpr hlt, ?_⟩
      intro l hl hql
      obtain ⟨rest, rfl, hrest, hqrest⟩ := hinside l hl hql
      exact List.cons_le_cons k (hleast rest hrest hqrest)

/-- A leaf behind a path is below the first key of the path, or below a larger key. -/
theorem below_or_later (hf : f.Ordered (· < ·)) {k : κ} {found : Option α × Forest κ α}
    (hk : f.lookup k = some found) {q l : List κ} (hl : f.IsLeaf l) (hlt : k :: q < l) :
    l.head? = some k ∨ (f.later k).IsLeaf l := by
  cases l with
  | nil => exact absurd hlt (List.not_lt_nil _)
  | cons k' l =>
      rcases List.cons_lt_cons_iff.mp hlt with hless | ⟨rfl, _⟩
      · exact Or.inr ((isLeaf_later_iff hf hk).mpr ⟨hless, hl⟩)
      · exact Or.inl rfl

/-- The first leaf behind a key, when no leaf below the key is behind the path. -/
theorem isNext_later (hf : f.Ordered (· < ·)) {k : κ} {found : Option α × Forest κ α}
    (hk : f.lookup k = some found) {q : List κ}
    (hbehind : ∀ l, f.IsLeaf l → k :: q < l → (f.later k).IsLeaf l) :
    IsNext f.IsLeaf (k :: q) (f.later k).first := by
  have hfirst := isLeaf_first (f.later k)
  have hleast : ∀ l, f.IsLeaf l → k :: q < l → (f.later k).first.getD [] ≤ l :=
    fun l hl hql => first_le (ordered_later hf k) (hbehind l hl hql)
  cases h : f.later k with
  | nil =>
      intro l hl hql
      have hnil := hbehind l hl hql
      rw [h] at hnil
      rw [eq_nil_of_isLeaf_nil hnil] at hql
      exact List.not_lt_nil _ hql
  | node key value children siblings =>
      rw [h, first, Option.getD_some, ← h] at hfirst
      simp only [h, first, Option.getD_some] at hleast
      obtain ⟨hless, hleaf⟩ := (isLeaf_later_iff hf hk).mp hfirst
      exact ⟨hleaf, List.cons_lt_cons_iff.mpr (Or.inl hless), hleast⟩

/-- From a path of the forest, `next` goes to the least leaf behind it. -/
theorem isNext_next (hf : f.Ordered (· < ·)) {q : List κ} (hq : (f.subtree q).isSome) :
    IsNext f.IsLeaf q (f.next q) := by
  induction q generalizing f with
  | nil =>
      rw [next]
      cases f with
      | nil =>
          intro l hl
          rw [eq_nil_of_isLeaf_nil hl]
          exact lt_irrefl _
      | node key value children siblings =>
          refine ⟨isLeaf_first (node key value children siblings), List.nil_lt_cons _ _, ?_⟩
          intro l hl _
          exact first_le hf hl
  | cons k q ih =>
      rw [subtree] at hq
      cases hk : f.lookup k with
      | none => simp [hk] at hq
      | some found =>
          simp only [hk] at hq
          have hbelow := isNext_below hk (ih (ordered_lookup hf hk) hq)
          simp only [next, hk]
          cases hnext : found.2.next q with
          | some p =>
              rw [hnext] at hbelow
              obtain ⟨⟨hleaf, _⟩, hlt, hleast⟩ := hbelow
              refine ⟨hleaf, hlt, fun l hl hql => ?_⟩
              rcases below_or_later hf hk hl hql with hhead | hlater
              · exact hleast l ⟨hl, hhead⟩ hql
              · cases l with
                | nil => exact absurd hql (List.not_lt_nil _)
                | cons k' l =>
                    have hless := ((isLeaf_later_iff hf hk).mp hlater).1
                    exact le_of_lt (List.cons_lt_cons_iff.mpr (Or.inl hless))
          | none =>
              rw [hnext] at hbelow
              refine isNext_later hf hk fun l hl hql => ?_
              rcases below_or_later hf hk hl hql with hhead | hlater
              · exact absurd hql (hbelow l ⟨hl, hhead⟩)
              · exact hlater

/-- The least leaf below a list of keys stays the least one under a further key. -/
theorem cons_le_of_prefix {k : κ} {found : Option α × Forest κ α} (hk : f.lookup k = some found)
    {m p : List κ} (hleast : ∀ l, found.2.IsLeaf l → m <+: l → p ≤ l) {l : List κ}
    (hl : f.IsLeaf l) (hbelow : k :: m <+: l) : k :: p ≤ l := by
  obtain ⟨rest, rfl⟩ := hbelow
  rw [List.cons_append, isLeaf_cons_of_lookup hk] at hl
  exact List.cons_le_cons k (hleast _ hl (List.prefix_append _ _))

/-- From anything else it goes to the least leaf below the longest beginning that is a
path. -/
theorem next_of_subtree_eq_none (hf : f.Ordered (· < ·)) {q : List κ} (hq : f.subtree q = none) :
    ∃ p, f.next q = some p ∧ f.IsLeaf p ∧ f.matched q <+: p ∧
      ∀ l, f.IsLeaf l → f.matched q <+: l → p ≤ l := by
  induction q generalizing f with
  | nil => simp [subtree] at hq
  | cons k q ih =>
      cases hk : f.lookup k with
      | none =>
          refine ⟨f.first.getD [], by simp [next, hk], isLeaf_first f, by simp [matched, hk], ?_⟩
          intro l hl _
          exact first_le hf hl
      | some found =>
          simp only [subtree, hk] at hq
          obtain ⟨p, hnext, hleaf, hmatched, hleast⟩ := ih (ordered_lookup hf hk) hq
          have hmatched' : f.matched (k :: q) = k :: found.2.matched q := by simp [matched, hk]
          rw [hmatched']
          refine ⟨k :: p, by simp [next, hk, hnext], (isLeaf_cons_of_lookup hk).mpr hleaf,
            List.cons_prefix_cons.mpr ⟨rfl, hmatched⟩, ?_⟩
          intro l hl hbelow
          exact cons_le_of_prefix hk hleast hl hbelow

/-! ## Below one key of the first level -/

theorem isNext_nextUnder {r : κ → κ → Prop} (hf : f.Ordered r) {k : κ} {q : List κ}
    (hq : (f.subtree (k :: q)).isSome) :
    IsNext (fun l => f.IsLeaf l ∧ l.head? = some k) (k :: q) (f.nextUnder (k :: q)) := by
  rw [subtree] at hq
  cases hk : f.lookup k with
  | none => simp [hk] at hq
  | some found =>
      simp only [hk] at hq
      simp only [nextUnder, hk]
      exact isNext_below hk (isNext_next (ordered_lookup hf hk) hq)

/-- The first leaf of a forest is the least one with the first key. -/
theorem first_spec {r : κ → κ → Prop} (hf : f.Ordered r) (hne : f ≠ nil) :
    ∃ p, f.first = some p ∧ f.IsLeaf p ∧ p.head? = f.keys.head? ∧
      ∀ l, f.IsLeaf l → l.head? = f.keys.head? → p ≤ l := by
  cases f with
  | nil => exact absurd rfl hne
  | node key value children siblings =>
      refine ⟨key :: children.first.getD [], rfl, isLeaf_first (node key value children siblings),
        rfl, ?_⟩
      intro l hl hhead
      cases l with
      | nil => cases hhead
      | cons k rest =>
          obtain rfl := Option.some.inj hhead
          obtain ⟨found, hfound, hleaf⟩ := isLeaf_cons_iff.mp hl
          simp only [lookup, if_true] at hfound
          obtain rfl := Option.some.inj hfound
          exact List.cons_le_cons k (first_le hf.2.1 hleaf)

/-- Where `nextUnder` goes from a list of keys that is no path. -/
theorem nextUnder_spec {r : κ → κ → Prop} (hf : f.Ordered r) (hne : f ≠ nil) {q : List κ}
    (hq : q = [] ∨ f.subtree q = none) :
    ∃ p, f.nextUnder q = some p ∧ f.IsLeaf p ∧ f.matched q <+: p ∧
      (f.matched q = [] → p.head? = f.keys.head?) ∧
      ∀ l, f.IsLeaf l → f.matched q <+: l → (f.matched q = [] → l.head? = f.keys.head?) →
        p ≤ l := by
  obtain ⟨p, hfirst, hleaf, hhead, hleast⟩ := first_spec hf hne
  cases q with
  | nil =>
      refine ⟨p, hfirst, hleaf, List.nil_prefix, fun _ => hhead, ?_⟩
      intro l hl _ hl'
      exact hleast l hl (hl' rfl)
  | cons k q =>
      have hsub : f.subtree (k :: q) = none := by simpa using hq
      cases hk : f.lookup k with
      | none =>
          have hmatched : f.matched (k :: q) = [] := by simp [matched, hk]
          refine ⟨p, by simp [nextUnder, hk, hfirst], hleaf, ?_, fun _ => hhead, ?_⟩
          · rw [hmatched]
            exact List.nil_prefix
          · intro l hl _ hl'
            exact hleast l hl (hl' hmatched)
      | some found =>
          have hmatched : f.matched (k :: q) = k :: found.2.matched q := by simp [matched, hk]
          simp only [subtree, hk] at hsub
          obtain ⟨p, hnext, hleaf, hbelow, hleast⟩ :=
            next_of_subtree_eq_none (ordered_lookup hf hk) hsub
          rw [hmatched]
          refine ⟨k :: p, by simp [nextUnder, hk, hnext], (isLeaf_cons_of_lookup hk).mpr hleaf,
            List.cons_prefix_cons.mpr ⟨rfl, hbelow⟩, fun h => absurd h (List.cons_ne_nil _ _), ?_⟩
          intro l hl hbegins _
          exact cons_le_of_prefix hk hleast hl hbegins

end Leaves

end Forest

end Trie
