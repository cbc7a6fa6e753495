import HamRouter.Program.Snmp

/-! # The tree of SNMP values of `snmp-data.cpp` -/

namespace HamRouter

namespace SnmpData

open StdString

/-- A `snmp_data_type` in the tree. The element stands for what `get_data()` returns, the
null pointer in the nodes that `register_oid` makes up. -/
structure Node (δ : Type*) where
  oid : StdString
  oidIdx : ℤ
  element : Option δ
  children : List (Node δ)

variable {δ : Type*}

/-- `find_oid_in_vector`, with the node at the index. -/
def findOidInVector (vec : List (Node δ)) (oid : StdString) : Option (ℕ × Node δ) :=
  (vec.findIdx? (·.oid = oid)).bind fun i => (vec[i]?).map fun node => (i, node)

/-- `cur_oid`, longer by one part. -/
def extendOid (curOid part : StdString) : StdString :=
  (if curOid = [] then curOid else curOid ++ str ".") ++ part

/-- `set_tree_data(oid)` of a node: its index is the number behind the last dot. -/
def oidIndex (oid : StdString) : ℤ :=
  match Snmp.lastDot oid with
  | none => 0
  | some dot => atoi (oid.drop (dot + 1))

/-- A node goes in front of the first one with a larger index. -/
def insertNode (node : Node δ) : List (Node δ) → List (Node δ)
  | [] => [node]
  | other :: rest =>
      if node.oidIdx < other.oidIdx then node :: other :: rest
      else other :: insertNode node rest

/-- The loop of `register_oid`. Only a node made for the last part gets the element. -/
def registerParts (e : δ) : List StdString → StdString → List (Node δ) → List (Node δ)
  | [], _, lut => lut
  | part :: rest, curOid, lut =>
      let curOid := extendOid curOid part
      match findOidInVector lut curOid with
      | none =>
          insertNode ⟨curOid, oidIndex curOid, if rest = [] then some e else none,
            registerParts e rest curOid []⟩ lut
      | some (idx, _) =>
          lut.modify idx fun node =>
            { node with children := registerParts e rest curOid node.children }

/-- `register_oid(oid, e)`. -/
def registerOid (data : List (Node δ)) (oid : StdString) (e : δ) : List (Node δ) :=
  registerParts e (split oid (str ".")) [] data

/-- The loop of `find_by_oid`. -/
def findParts : List StdString → StdString → List (Node δ) → Option (Option δ)
  | [], _, _ => none
  | part :: rest, curOid, lut =>
      let curOid := extendOid curOid part
      match findOidInVector lut curOid with
      | none => none
      | some (_, node) => if rest = [] then some node.element else findParts rest curOid node.children

/-- `find_by_oid(oid)`: nothing, or what `get_data()` of the node returns. -/
def findByOid (data : List (Node δ)) (oid : StdString) : Option (Option δ) :=
  findParts (split oid (str ".")) [] data

/-! ## The successor of an OID -/

/-- An element of `branch`: a node, the null pointer for the top, and an index into its
children. The last element is the head of the list. -/
abbrev Branch (δ : Type*) := List (Option (Node δ) × ℕ)

/-- How `find_next_oid` ends: it returns, or it goes through the null pointer `parent`, or
its assertion fails. -/
inductive NextOid where
  | returned (oid : StdString)
  | nullParent
  | assertFailed
deriving DecidableEq

/-- The first loop, along the parts: `parent`, `p_lut` and `branch` where it stops. -/
def descend : List StdString → StdString → Option (Node δ) → List (Node δ) → Branch δ →
    Option (Node δ) × List (Node δ) × Branch δ
  | [], _, parent, lut, branch => (parent, lut, branch)
  | part :: rest, curOid, parent, lut, branch =>
      let curOid := extendOid curOid part
      match findOidInVector lut curOid with
      | none => (parent, lut, branch)
      | some (idx, node) => descend rest curOid (some node) node.children ((parent, idx) :: branch)

mutual

/-- The second loop, to the end of the branch. -/
def endOfBranch : Option (Node δ) → List (Node δ) → Branch δ → Option (Node δ) × Branch δ
  | parent, [], branch => (parent, branch)
  | parent, node :: _, branch => endBelow node ((parent, 0) :: branch)

/-- The same loop when `p_lut` are the children of `parent`. -/
def endBelow : Node δ → Branch δ → Option (Node δ) × Branch δ
  | ⟨oid, oidIdx, element, children⟩, branch =>
      endOfBranch (some ⟨oid, oidIdx, element, children⟩) children branch

end

/-- The last loop, which looks for a later child going up. Below that child it goes to the
end of the branch again. -/
def goToSibling : Branch δ → NextOid
  | [] => .returned []
  | (none, _) :: rest => if rest = [] then .returned [] else .assertFailed
  | (some element, index) :: rest =>
      match element.children[index + 1]? with
      | some sibling =>
          match (endBelow sibling []).1 with
          | some last => .returned last.oid
          | none => .nullParent
      | none => goToSibling rest

/-- `find_next_oid(oid)`. -/
def findNextOid (data : List (Node δ)) (oid : StdString) : NextOid :=
  let (parent, lut, branch) := descend (split oid (str ".")) [] none data []
  match endOfBranch parent lut branch with
  | (none, _) => .nullParent
  | (some parent, branch) =>
      if parent.oid ≠ oid then .returned parent.oid
      else goToSibling ((some parent, 0) :: branch)

/-- The tree after a sequence of registrations. -/
def registered (calls : List (StdString × δ)) : List (Node δ) :=
  calls.foldl (fun data call => registerOid data call.1 call.2) []

end SnmpData

end HamRouter
