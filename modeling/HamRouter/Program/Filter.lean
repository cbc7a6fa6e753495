import HamRouter.Program.Message

/-! # The filter interpreter of `filter.cpp` -/

namespace HamRouter

/-- A `filter_t`. -/
structure FilterT where
  ignoreIfFieldIsMissing : Bool
  pattern : StdString
deriving DecidableEq

namespace Filter

open StdString

/-- How `execute_filter` can fail: three calls of `error_exit`, and the
`std::out_of_range` of `substr`. -/
inductive FilterError where
  | endOfSubFilterNotFound
  | unknownOperation (operation : StdString)
  | fieldNotFound (filter field : StdString)
  | outOfRange
deriving DecidableEq

/-- The text handed to `error_exit`, or the `what()` of the exception. -/
def FilterError.text : FilterError → StdString
  | .endOfSubFilterNotFound => str "End of sub-filter not found"
  | .unknownOperation operation => str "Unknown operation \"" ++ operation ++ str "\""
  | .fieldNotFound filter field =>
      str "Filter (" ++ filter ++ str "): field \"" ++ field ++ str "\" not found"
  | .outOfRange => str "basic_string::substr"

/-- The scan of `retrieve_subfilter` with its two variables; it returns the number
of bytes before the parenthesis that ends the sub-filter. -/
def subfilterLength : (string : Bool) → (level : ℕ) → StdString → Option ℕ
  | _, _, [] => none
  | string, level, c :: rest =>
      if c = ch ')' ∧ string = false then
        if level - 1 = 0 then some 0
        else (subfilterLength string (level - 1) rest).map (· + 1)
      else if c = ch '"' then (subfilterLength (!string) level rest).map (· + 1)
      else if c = ch '(' ∧ string = false then
        (subfilterLength string (level + 1) rest).map (· + 1)
      else (subfilterLength string level rest).map (· + 1)

/-- `retrieve_subfilter(in)`. -/
def retrieveSubfilter (input : StdString) : Option StdString :=
  (subfilterLength false 1 input).map input.take

/-- The chain `operation.empty()`, `"&&"`, `"||"` that folds a new value into `rc`. -/
def combine (operation : StdString) (rc curRc : Bool) : Except FilterError Bool :=
  if operation = [] then .ok curRc
  else if operation = str "&&" then .ok (rc && curRc)
  else if operation = str "||" then .ok (rc || curRc)
  else .error (.unknownOperation operation)

/-- One key/value pair as the last branch of the loop cuts it out of the filter. -/
structure Comparison where
  left : StdString
  equals : Bool
  right : StdString
  rightEnd : Pos
deriving DecidableEq

/-- The value that starts at `start`, bare or between quotes, and `right_end`. -/
def cutValue (filter : StdString) (start : ℕ) : Except FilterError (StdString × Pos) :=
  let rightEnd := findFirstOf filter (str " ") start
  match substr filter start (rightEnd.minus start) with
  | none => .error .outOfRange
  | some rawRight =>
      let right := trim rawRight
      if right.head? = some (ch '"') then
        let dq := findFirstOf filter (str "\"") (start + 1)
        match substr filter (start + 1) (dq.minus (start + 1)) with
        | none => .error .outOfRange
        | some quoted => .ok (quoted, some (dq.plus 1))
      else .ok (right, rightEnd)

/-- The splitting of a key/value pair that starts at `position`. The search for `!=` also
stops at a `=`, so `equal_sign < nequal_sign` never holds. -/
def splitComparison (filter : StdString) (position : ℕ) : Except FilterError Comparison :=
  let equalSign := findFirstOf filter (str "=") position
  let nequalSign := findFirstOf filter (str "!=") position
  let splitter := match equalSign, nequalSign with
    | some e, some n => if e < n then some e else some n
    | some e, none => some e
    | none, some n => some n
    | none, none => none
  let equals := decide (splitter = equalSign)
  let compareLen := if equals then 1 else 2
  match substr filter position (splitter.minus position) with
  | none => .error .outOfRange
  | some left =>
      (cutValue filter (splitter.plus compareLen)).map fun (right, rightEnd) =>
        ⟨trim left, equals, right, rightEnd⟩

/-- The lookup of the field and the comparison with its value. -/
def compareField (filter : StdString) (ignoreIfFieldIsMissing : Bool) (m : Meta)
    (c : Comparison) : Except FilterError Bool :=
  match m.lookup c.left with
  | none => if ignoreIfFieldIsMissing then .ok true else .error (.fieldNotFound filter c.left)
  | some field => .ok (if c.equals then field.sValue = c.right else field.sValue ≠ c.right)

/-- The `while` loop of `execute_filter`. The fuel bounds the iterations and the depth
of the recursion together; `none` is a run that did not end within it. -/
def filterLoop (ignoreIfFieldIsMissing : Bool) (m : Meta) :
    ℕ → StdString → Pos → StdString → Bool → Option (Except FilterError Bool)
  | 0, _, _, _, _ => none
  | _ + 1, _, none, _, rc => some (.ok rc)
  | fuel + 1, filter, some position, operation, rc =>
      match filter[position]? with
      | none => some (.ok rc)
      | some c =>
          if c = ch ' ' then
            filterLoop ignoreIfFieldIsMissing m fuel filter (some (position + 1)) operation rc
          else if c = ch '(' then
            match retrieveSubfilter (filter.drop (position + 1)) with
            | none => some (.error .endOfSubFilterNotFound)
            | some temp =>
                match filterLoop ignoreIfFieldIsMissing m fuel temp (some 0) [] false with
                | none => none
                | some (.error e) => some (.error e)
                | some (.ok curRc) =>
                    match combine operation rc curRc with
                    | .error e => some (.error e)
                    | .ok rc =>
                        filterLoop ignoreIfFieldIsMissing m fuel filter
                          (some (position + (temp.length + 2))) [] rc
          else if c = ch '&' ∨ c = ch '|' then
            let tokenEnd := findFirstOf filter (str " ") position
            match substr filter position (tokenEnd.minus position) with
            | none => some (.error .outOfRange)
            | some token => filterLoop ignoreIfFieldIsMissing m fuel filter tokenEnd token rc
          else
            match splitComparison filter position with
            | .error e => some (.error e)
            | .ok comparison =>
                match compareField filter ignoreIfFieldIsMissing m comparison with
                | .error e => some (.error e)
                | .ok curRc =>
                    match combine operation rc curRc with
                    | .error e => some (.error e)
                    | .ok rc =>
                        filterLoop ignoreIfFieldIsMissing m fuel filter comparison.rightEnd [] rc

/-- `execute_filter(filter, ignore_if_field_is_missing, m)`. -/
def executeFilter (fuel : ℕ) (filter : StdString) (ignoreIfFieldIsMissing : Bool) (m : Meta) :
    Option (Except FilterError Bool) :=
  filterLoop ignoreIfFieldIsMissing m fuel filter (some 0) [] false

end Filter

end HamRouter
