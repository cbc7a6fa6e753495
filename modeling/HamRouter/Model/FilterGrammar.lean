import HamRouter.Program.Filter

/-! # The filter language

The expressions a filter is meant to be written in, their text and their meaning. -/

namespace HamRouter.Filter

/-- A field name. -/
structure Key where
  text : StdString
  ne_nil : text ≠ []
  clean : ∀ c ∈ text, c ∉ str " \"()=!&|"

/-- A value as it is written, bare or between quotes. -/
inductive Value where
  | bare (text : StdString) (clean : ∀ c ∈ text, c ∉ str " \"()")
  | quoted (text : StdString) (clean : ∀ c ∈ text, c ∉ str "\"")

/-- The string to compare a field with. -/
def Value.content : Value → StdString
  | .bare text _ => text
  | .quoted text _ => text

def Value.text : Value → StdString
  | .bare text _ => text
  | .quoted text _ => [ch '"'] ++ text ++ [ch '"']

inductive Operator where
  | and
  | or
deriving DecidableEq

def Operator.text : Operator → StdString
  | .and => str "&&"
  | .or => str "||"

def Operator.apply : Operator → Bool → Bool → Bool
  | .and, a, b => a && b
  | .or, a, b => a || b

mutual

/-- A comparison or an expression in parentheses. -/
inductive Item where
  | comparison (key : Key) (equals : Bool) (value : Value)
  | group (e : Expr)

/-- Items and operators from left to right. There are `before + 1` spaces before an
operator and `after + 1` behind it. -/
inductive Expr where
  | single (i : Item)
  | chain (front : Expr) (before : ℕ) (op : Operator) (after : ℕ) (last : Item)

end

def sign (equals : Bool) : StdString := if equals then str "=" else str "!="

def spaces (n : ℕ) : StdString := List.replicate (n + 1) (ch ' ')

mutual

def Item.text : Item → StdString
  | .comparison key equals value => key.text ++ (sign equals ++ value.text)
  | .group e => ch '(' :: (e.text ++ [ch ')'])

def Expr.text : Expr → StdString
  | .single i => i.text
  | .chain front before op after last =>
      front.text ++ (spaces before ++ (op.text ++ (spaces after ++ last.text)))

end

section

variable (ignoreIfFieldIsMissing : Bool) (m : Meta)

mutual

/-- A missing field is true or an error, which names the text around the item. -/
def Item.eval (around : StdString) : Item → Except FilterError Bool
  | .comparison key equals value =>
      match m.lookup key.text with
      | none => if ignoreIfFieldIsMissing then .ok true else .error (.fieldNotFound around key.text)
      | some field => .ok (decide (field.sValue = value.content) == equals)
  | .group e => e.eval e.text

/-- Strictly from left to right, both operators with the same precedence. -/
def Expr.eval (around : StdString) : Expr → Except FilterError Bool
  | .single i => i.eval around
  | .chain front _ op _ last => do
      let a ← front.eval around
      let b ← last.eval around
      pure (op.apply a b)

end

/-- The meaning of a filter. -/
def Expr.meaning (e : Expr) : Except FilterError Bool :=
  e.eval ignoreIfFieldIsMissing m e.text

end

end HamRouter.Filter
