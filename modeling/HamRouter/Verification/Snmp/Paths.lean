import HamRouter.Verification.Split
import HamRouter.Model.SnmpPaths

/-! # The last path prefix of an OID -/

namespace HamRouter.SnmpData

open StdString

variable {δ : Type*}

/-! ## The loops look up the path prefixes -/

theorem pathsFrom_eq_nil_iff (curOid : StdString) (parts : List StdString) :
    pathsFrom curOid parts = [] ↔ parts = [] := by
  cases parts <;> simp [pathsFrom]

theorem registerParts_eq_along (e : δ) (parts : List StdString) (curOid : StdString)
    (lut : List (Node δ)) :
    registerParts e parts curOid lut = registerAlong e (pathsFrom curOid parts) lut := by
  induction parts generalizing curOid lut with
  | nil => rfl
  | cons part rest ih =>
      rw [registerParts, pathsFrom, registerAlong]
      cases findOidInVector lut (extendOid curOid part) with
      | none => simp only [ih, pathsFrom_eq_nil_iff]
      | some found => simp only [ih]

theorem findParts_eq_along (parts : List StdString) (curOid : StdString) (lut : List (Node δ)) :
    findParts parts curOid lut = findAlong (pathsFrom curOid parts) lut := by
  induction parts generalizing curOid lut with
  | nil => rfl
  | cons part rest ih =>
      rw [findParts, pathsFrom, findAlong]
      cases findOidInVector lut (extendOid curOid part) with
      | none => rfl
      | some found => simp only [ih, pathsFrom_eq_nil_iff]

theorem descend_eq_along (parts : List StdString) (curOid : StdString) (parent : Option (Node δ))
    (lut : List (Node δ)) (branch : Branch δ) :
    descend parts curOid parent lut branch =
      descendAlong (pathsFrom curOid parts) parent lut branch := by
  induction parts generalizing curOid parent lut branch with
  | nil => rfl
  | cons part rest ih =>
      rw [descend, pathsFrom, descendAlong]
      cases findOidInVector lut (extendOid curOid part) with
      | none => rfl
      | some found => simp only [ih]

/-! ## The last of them -/

theorem getLast?_pathsFrom (curOid : StdString) (parts : List StdString) :
    (pathsFrom curOid parts).getLast? =
      if parts = [] then none else some (parts.foldl extendOid curOid) := by
  induction parts generalizing curOid with
  | nil => rfl
  | cons part rest ih =>
      rw [pathsFrom, List.getLast?_cons, ih, List.foldl_cons]
      cases rest with
      | nil => rfl
      | cons part' rest => rfl

/-- Behind a beginning that is not empty, every part is joined with a dot. -/
theorem foldl_extendOid {curOid : StdString} (hne : curOid ≠ []) (parts : List StdString) :
    parts.foldl extendOid curOid = (str ".").intercalate (curOid :: parts) := by
  induction parts generalizing curOid with
  | nil => rw [List.intercalate_singleton, List.foldl_nil]
  | cons part rest ih =>
      have hlonger : extendOid curOid part = curOid ++ str "." ++ part := by
        rw [extendOid, if_neg hne]
      have hnext : curOid ++ str "." ++ part ≠ [] := by simp [hne]
      rw [List.foldl_cons, hlonger, ih hnext, List.intercalate_cons_cons]
      cases rest with
      | nil => simp only [List.intercalate_singleton]
      | cons part' rest => simp only [List.intercalate_cons_cons, List.append_assoc]

theorem lastCurOid_eq {oid : StdString} (h : oid.head? ≠ some (ch '.')) :
    lastCurOid oid = oid := by
  have hjoined := intercalate_split (List.cons_ne_nil (ch '.') []) oid
  have hfirst := head?_split_ne h
  have hdot : str "." = [ch '.'] := rfl
  rw [lastCurOid, hdot]
  cases hparts : split oid [ch '.'] with
  | nil =>
      rw [hparts, List.intercalate_nil] at hjoined
      exact hjoined
  | cons part rest =>
      have hpart : part ≠ [] := hfirst part (by rw [hparts, List.head?_cons]; rfl)
      have hstart : extendOid [] part = part := by rw [extendOid, if_pos rfl, List.nil_append]
      rw [List.foldl_cons, hstart, foldl_extendOid hpart]
      rw [hparts] at hjoined
      exact hjoined

theorem getLast?_paths {oid : StdString} (h : oid.head? ≠ some (ch '.')) :
    (paths oid).getLast? = if oid = [] then none else some oid := by
  have hempty : split oid (str ".") = [] ↔ oid = [] :=
    split_eq_nil_iff (List.cons_ne_nil (ch '.') []) oid
  have hlast : (split oid (str ".")).foldl extendOid [] = oid := lastCurOid_eq h
  rw [paths, getLast?_pathsFrom, hlast]
  simp only [hempty]

/-- `split` ends and loses nothing, so that the paths to an OID end in the OID. -/
theorem split_lossless (δ : Type*) {splitter : StdString} (hne : splitter ≠ []) (s : StdString)
    {oid : StdString} (hdot : oid.head? ≠ some (ch '.')) :
    (∃ parts, s.CutInto splitter parts) ∧ LedTo δ oid := by
  refine ⟨⟨split s splitter, ?_⟩, ?_⟩
  · refine ⟨fun fuel hfuel => splitLoop_eq_split hne hfuel, rfl, intercalate_split hne s, ?_⟩
    rintro c rfl
    exact not_mem_of_mem_split c s
  · exact
      { register := fun data e => registerParts_eq_along e _ [] data
        find := fun data => findParts_eq_along _ [] data
        next := fun data => descend_eq_along _ [] none data []
        curOid := lastCurOid_eq hdot
        last := getLast?_paths hdot }

/-- A string with a doubled and a trailing separator, and an OID. -/
theorem split_lossless_sample :
    (∃ parts, (str "a..b.").CutInto (str ".") parts) ∧ LedTo StdString (str "1.3.6") :=
  split_lossless StdString (by decide) (str "a..b.") (by decide)

end HamRouter.SnmpData
