import HamRouter.Program.SnmpData

/-! # The parts of a string and the paths to an OID

What a string is cut into, and the path prefixes that `register_oid`, `find_by_oid` and
`find_next_oid` look up one after the other. -/

namespace HamRouter

/-- The loop of `split` ends with the parts, and nothing of the string is lost in them. -/
structure StdString.CutInto (s splitter : StdString) (parts : List StdString) : Prop where
  ends : ∀ fuel, s.length < fuel → splitLoop splitter fuel s = some parts
  returned : split s splitter = parts
  joined : splitter.intercalate parts = s
  clean : ∀ c, splitter = [c] → ∀ part ∈ parts, c ∉ part

namespace SnmpData

open StdString

variable {δ : Type*}

/-- The values `cur_oid` takes along the parts. -/
def pathsFrom : StdString → List StdString → List StdString
  | _, [] => []
  | curOid, part :: rest => extendOid curOid part :: pathsFrom (extendOid curOid part) rest

/-- The path prefixes built for an OID. -/
def paths (oid : StdString) : List StdString := pathsFrom [] (split oid (str "."))

/-- `cur_oid` behind the last part. -/
def lastCurOid (oid : StdString) : StdString := (split oid (str ".")).foldl extendOid []

/-! ## The loops along given paths -/

def registerAlong (e : δ) : List StdString → List (Node δ) → List (Node δ)
  | [], lut => lut
  | path :: rest, lut =>
      match findOidInVector lut path with
      | none =>
          insertNode ⟨path, oidIndex path, if rest = [] then some e else none,
            registerAlong e rest []⟩ lut
      | some (idx, _) =>
          lut.modify idx fun node => { node with children := registerAlong e rest node.children }

def findAlong : List StdString → List (Node δ) → Option (Option δ)
  | [], _ => none
  | path :: rest, lut =>
      match findOidInVector lut path with
      | none => none
      | some (_, node) => if rest = [] then some node.element else findAlong rest node.children

def descendAlong : List StdString → Option (Node δ) → List (Node δ) → Branch δ →
    Option (Node δ) × List (Node δ) × Branch δ
  | [], parent, lut, branch => (parent, lut, branch)
  | path :: rest, parent, lut, branch =>
      match findOidInVector lut path with
      | none => (parent, lut, branch)
      | some (idx, node) => descendAlong rest (some node) node.children ((parent, idx) :: branch)

/-- The three operations look up the path prefixes of the OID, the last of which is the OID. -/
structure LedTo (δ : Type*) (oid : StdString) : Prop where
  register : ∀ (data : List (Node δ)) (e : δ),
    registerOid data oid e = registerAlong e (paths oid) data
  find : ∀ data : List (Node δ), findByOid data oid = findAlong (paths oid) data
  next : ∀ data : List (Node δ),
    descend (split oid (str ".")) [] none data [] = descendAlong (paths oid) none data []
  curOid : lastCurOid oid = oid
  last : (paths oid).getLast? = if oid = [] then none else some oid

end SnmpData

end HamRouter
