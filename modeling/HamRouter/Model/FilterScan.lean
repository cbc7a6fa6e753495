import HamRouter.Program.Filter

/-! # How far a filter can be read

The tokens of any text, also a malformed one, and the places from which the interpreter
jumps back instead of going on behind a token. -/

namespace HamRouter.Filter

open StdString

/-- Where the reading goes on behind a key/value pair. -/
inductive PairEnd where
  | outOfRange
  | ahead (position : Pos)
  | back (position : Pos)
deriving DecidableEq

/-- A value ends at the next space, or behind its closing quote if it starts with a quote.
When that quote is missing the reading goes back to the start of the filter. -/
def valueEnd (filter : StdString) (start : ℕ) : PairEnd :=
  if filter.length < start then .outOfRange
  else if filter[start]? = some (ch '"') then
    match findFirstOf filter (str "\"") (start + 1) with
    | none => .back (some 0)
    | some dq => .ahead (some (dq + 1))
  else .ahead (findFirstOf filter (str " ") start)

/-- Behind a value at the very start of the filter. -/
def firstValueEnd (filter : StdString) : Pos :=
  match valueEnd filter 0 with
  | .outOfRange => none
  | .ahead position => position
  | .back position => position

/-- The end of the pair at `position`. One without a sign behind it is given the value that
the start of the filter spells, and the reading goes back to the end of that. -/
def pairEnd (filter : StdString) (position : ℕ) : PairEnd :=
  match findFirstOf filter (str "!=") position with
  | none => .back (firstValueEnd filter)
  | some sign => valueEnd filter (sign + if filter[sign]? = some (ch '=') then 1 else 2)

/-- The operations a value can be folded in with. -/
def known (operation : StdString) : Bool :=
  operation = [] || operation = str "&&" || operation = str "||"

/-- How the reading of a filter ends: behind its last token, with an error, with a jump
back, or never, inside of a sub-filter. -/
inductive Reading where
  | finished
  | failed
  | back (position : Pos)
  | endless
deriving DecidableEq

mutual

/-- The tokens from a position on, up to the first jump back. -/
def scan : ℕ → StdString → Pos → StdString → Reading
  | 0, _, _, _ => .finished
  | _ + 1, _, none, _ => .finished
  | n + 1, filter, some position, operation =>
      match filter[position]? with
      | none => .finished
      | some c =>
          if c = ch ' ' then scan n filter (some (position + 1)) operation
          else if c = ch '(' then
            match retrieveSubfilter (filter.drop (position + 1)) with
            | none => .failed
            | some temp =>
                match readWithin n temp with
                | .finished =>
                    if known operation then
                      scan n filter (some (position + (temp.length + 2))) []
                    else .failed
                | other => other
          else if c = ch '&' ∨ c = ch '|' then
            scan n filter (findFirstOf filter (str " ") position)
              ((filter.drop position).takeWhile (· ≠ ch ' '))
          else
            match pairEnd filter position with
            | .outOfRange => .failed
            | .ahead next => if known operation then scan n filter next [] else .failed
            | .back next => if known operation then .back next else .failed

/-- A whole filter. After one jump back the reading may still come to an end; a second one
leads to where it has been before. -/
def readWithin : ℕ → StdString → Reading
  | 0, _ => .finished
  | n + 1, filter =>
      match scan n filter (some 0) [] with
      | .back position =>
          match scan n filter position [] with
          | .back _ => .endless
          | other => other
      | other => other

end

/-- The reading of a filter: a token takes a byte or more, a level of nesting two. -/
def reading (filter : StdString) : Reading := readWithin (2 * filter.length + 2) filter

end HamRouter.Filter
