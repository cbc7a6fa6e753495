import HamRouter.Library.Trie
import HamRouter.Model.SnmpOid
import HamRouter.Program.SnmpData

/-! # The registered OIDs and the order they are walked in

OIDs as lists of sub-identifiers, compared lexicographically. A query may also have
negative ones, which `get_OID` prints for values of 2^31 and more. -/

namespace HamRouter.SnmpData

open Trie Snmp

/-- The text of a list of sub-identifiers. -/
def oidText : List ℤ → StdString
  | [] => []
  | [i] => formatInt i
  | i :: rest => formatInt i ++ ch '.' :: oidText rest

/-- An OID that can be registered: sub-identifiers below 2^31. -/
structure Oid where
  ids : List ℤ
  ne_nil : ids ≠ []
  bounded : ∀ i ∈ ids, 0 ≤ i ∧ i < 2147483648

def Oid.text (o : Oid) : StdString := oidText o.ids

/-- The sub-identifiers of an OID `get_OID` accepts, with the two that a first octet 43
stands for. -/
def queryIds (o : AcceptedOid) : List ℤ :=
  (if isIso o.octets then [1, 3] else []) ++ (dottedIds o.octets).map (·.toInt32.toInt)

variable {δ : Type*}

/-- The tree after the registrations. -/
def treeOf (entries : List (Oid × δ)) : List (Node δ) :=
  registered (entries.map fun entry => (entry.1.text, entry.2))

/-- A beginning of a registered OID. -/
def Known (oids : List Oid) (ids : List ℤ) : Prop := ∃ o ∈ oids, ids <+: o.ids

instance (oids : List Oid) (ids : List ℤ) : Decidable (Known oids ids) := by
  unfold Known
  infer_instance

/-- A registered OID with no registered OID below it. -/
def Leaf (oids : List Oid) (ids : List ℤ) : Prop :=
  (∃ o ∈ oids, o.ids = ids) ∧ ∀ o ∈ oids, ids <+: o.ids → o.ids = ids

/-- The longest beginning of a query that is a beginning of a registered OID. -/
def longestKnown (oids : List Oid) (ids : List ℤ) : List ℤ :=
  (ids.inits.reverse.find? (Known oids ·)).getD []

/-! ## What `find_next_oid` is to answer -/

/-- Distinct OIDs below one root, none of them the beginning of another, with the data
they are registered with, in the order of the registrations. -/
structure Registrations (δ : Type*) where
  root : Oid
  entries : List (Oid × δ)
  below : ∀ entry ∈ entries, root.ids <+: entry.1.ids ∧ root.ids ≠ entry.1.ids
  distinct : (entries.map (·.1.ids)).Nodup
  unnested : ∀ entry ∈ entries, ∀ other ∈ entries,
    entry.1.ids <+: other.1.ids → entry.1.ids = other.1.ids

/-- Feeding each answer back, `find_next_oid` goes from an OID over the given ones, and then
to the empty text. -/
def WalksOver (data : List (Node δ)) (root : Oid) (oids : List Oid) : Prop :=
  (root.text :: oids.map Oid.text ++ [[]]).IsChain fun oid oid' =>
    findNextOid data oid = NextOid.returned oid'

/-- From the root, every registered OID is returned once, in ascending order, and found with
its data. -/
def Registrations.Walked (r : Registrations δ) : Prop :=
  ∃ walked : List (Oid × δ), walked.Perm r.entries ∧
    walked.Pairwise (fun entry entry' => entry.1.ids < entry'.1.ids) ∧
    WalksOver (treeOf r.entries) r.root (walked.map Prod.fst) ∧
    ∀ entry ∈ walked, findByOid (treeOf r.entries) entry.1.text = some (some entry.2)

/-- A text that `find_next_oid` answers a query with is that of the least registered leaf
behind the query. -/
def AnswersLeast (entries : List (Oid × δ)) (query : AcceptedOid) : Prop :=
  ∀ oid, findNextOid (treeOf entries) query.text = .returned oid → oid ≠ [] →
    ∃ ids, oid = oidText ids ∧ Leaf (entries.map Prod.fst) ids ∧ queryIds query < ids ∧
      ∀ leaf, Leaf (entries.map Prod.fst) leaf → queryIds query < leaf → ids ≤ leaf

/-- The part of a query up to which `find_next_oid` follows it. Nothing is found under a
leading dot. -/
def followed (oids : List Oid) (query : AcceptedOid) : List ℤ :=
  if isIso query.octets then longestKnown oids (queryIds query) else []

/-- The first sub-identifier of an OID. -/
def Oid.top (o : Oid) : ℤ := o.ids.head o.ne_nil

/-- The leaves below the followed part of a query; below nothing, those under the first
sub-identifier that was registered. -/
def Below (first : Oid) (oids : List Oid) (query : AcceptedOid) (leaf : List ℤ) : Prop :=
  Leaf oids leaf ∧ followed oids query <+: leaf ∧
    (followed oids query = [] → leaf.head? = some first.top)

/-- The query is a beginning of a registered OID, or it is in front of every leaf below its
followed part, and no leaf behind it is in front of those. -/
def Forward (first : Oid) (oids : List Oid) (query : AcceptedOid) : Prop :=
  isIso query.octets ∧ Known oids (queryIds query) ∨
    (∀ leaf, Below first oids query leaf → queryIds query < leaf) ∧
      (followed oids query = [] → ∀ leaf, Leaf oids leaf → queryIds query < leaf →
        ∀ id ∈ leaf.head?, first.top ≤ id)

/-! ## What `find_by_oid` is to answer -/

/-- An OID of any sub-identifiers. -/
structure DottedOid where
  ids : List ℕ
  ne_nil : ids ≠ []

def DottedOid.text (o : DottedOid) : StdString := oidText (o.ids.map fun i : ℕ => (i : ℤ))

/-- The tree after OIDs were registered one after the other. -/
def dottedTree (entries : List (DottedOid × δ)) : List (Node δ) :=
  registered (entries.map fun entry => (entry.1.text, entry.2))

/-- Distinct OIDs with their elements, in two orders. -/
structure Orders (δ : Type*) where
  entries : List (DottedOid × δ)
  reordered : List (DottedOid × δ)
  perm : reordered.Perm entries
  distinct : (entries.map (·.1.ids)).Nodup

/-- Each OID is answered with the element registered under it. -/
def AllFound (entries : List (DottedOid × δ)) : Prop :=
  ∀ entry ∈ entries, findByOid (dottedTree entries) entry.1.text = some (some entry.2)

/-- In both orders each OID is found, and every query is answered alike. -/
structure Orders.OrderFree (r : Orders δ) : Prop where
  found : AllFound r.entries
  foundReordered : AllFound r.reordered
  alike : ∀ oid, findByOid (dottedTree r.entries) oid = findByOid (dottedTree r.reordered) oid

/-- No OID is registered behind one that it is a beginning of. -/
def Unshadowed (entries : List (DottedOid × δ)) : Prop :=
  entries.Pairwise fun earlier later => ¬ later.1.ids <+: earlier.1.ids

/-! ## The tree as a trie -/

/-- The nodes that a forest of sub-identifiers stands for below a path. -/
def render (path : List ℤ) : Forest ℤ δ → List (Node δ)
  | .nil => []
  | .node i value children siblings =>
      ⟨oidText (path ++ [i]), if path = [] then 0 else i, value, render (path ++ [i]) children⟩ ::
        render path siblings

/-- The forest after the registrations. Those of the first level stay in the order in
which they were registered. -/
def forestOf (entries : List (Oid × δ)) : Forest ℤ δ :=
  entries.foldl (fun f entry => f.insert (fun _ _ => false) entry.1.ids entry.2) .nil

end HamRouter.SnmpData
