import HamRouter.Model.FilterGrammar
import HamRouter.Verification.Str

/-! # What the interpreter makes of one token -/

namespace HamRouter.Filter

open StdString

/-! ## The parenthesis matcher -/

theorem map_add_map_add (length : Option ℕ) (a b : ℕ) :
    (length.map (· + a)).map (· + b) = length.map (· + (b + a)) := by
  cases length with
  | none => rfl
  | some n =>
      rw [Option.map_some, Option.map_some, Option.map_some, Nat.add_assoc, Nat.add_comm a]

theorem subfilterLength_plain {t : StdString} (ht : ∀ c ∈ t, c ∉ str "()\"") (level : ℕ)
    (rest : StdString) :
    subfilterLength false level (t ++ rest) =
      (subfilterLength false level rest).map (· + t.length) := by
  induction t with
  | nil => simp
  | cons c t ih =>
      have hc := ht c (by simp)
      have hclose : c ≠ ch ')' := (ne_of_mem_of_not_mem (by decide) hc).symm
      have hopen : c ≠ ch '(' := (ne_of_mem_of_not_mem (by decide) hc).symm
      have hquote : c ≠ ch '"' := (ne_of_mem_of_not_mem (by decide) hc).symm
      rw [List.cons_append, subfilterLength]
      simp only [hclose, hopen, hquote, false_and, if_false, ih (fun d hd => ht d (by simp [hd])),
        Option.map_map, List.length_cons]
      rfl

theorem subfilterLength_quoted {t : StdString} (ht : ∀ c ∈ t, c ∉ str "\"") (level : ℕ)
    (rest : StdString) :
    subfilterLength true level (t ++ ch '"' :: rest) =
      (subfilterLength false level rest).map (· + (t.length + 1)) := by
  induction t with
  | nil =>
      rw [List.nil_append, subfilterLength]
      simp [show ch '"' ≠ ch ')' by decide]
  | cons c t ih =>
      have hquote : c ≠ ch '"' := (ne_of_mem_of_not_mem (by decide) (ht c (by simp))).symm
      rw [List.cons_append, subfilterLength]
      simp only [Bool.true_eq_false, and_false, hquote, if_false,
        ih (fun d hd => ht d (by simp [hd])), Option.map_map, List.length_cons]
      rfl

theorem subfilterLength_value (v : Value) (level : ℕ) (rest : StdString) :
    subfilterLength false level (v.text ++ rest) =
      (subfilterLength false level rest).map (· + v.text.length) := by
  cases v with
  | bare text clean =>
      apply subfilterLength_plain
      intro c hc hmem
      have hsub : str "()\"" ⊆ str " \"()" := by decide
      exact clean c hc (hsub hmem)
  | quoted text clean =>
      have hquoted := subfilterLength_quoted clean level rest
      rw [Value.text, List.append_assoc, List.append_assoc, List.singleton_append,
        List.singleton_append, subfilterLength]
      simp only [show ch '"' ≠ ch ')' by decide, false_and, if_false, if_true, Bool.not_false,
        hquoted, map_add_map_add, List.length_append, List.length_singleton]
      rw [Nat.add_assoc]

theorem Key.subfilterLength (key : Key) (level : ℕ) (rest : StdString) :
    subfilterLength false level (key.text ++ rest) =
      (subfilterLength false level rest).map (· + key.text.length) := by
  apply subfilterLength_plain
  intro c hc hmem
  have hsub : str "()\"" ⊆ str " \"()=!&|" := by decide
  exact key.clean c hc (hsub hmem)

theorem subfilterLength_open (level : ℕ) (rest : StdString) :
    subfilterLength false level (ch '(' :: rest) =
      (subfilterLength false (level + 1) rest).map (· + 1) := by
  rw [subfilterLength]
  simp [show ch '(' ≠ ch ')' by decide, show ch '(' ≠ ch '"' by decide]

theorem subfilterLength_close (level : ℕ) (rest : StdString) :
    subfilterLength false (level + 2) (ch ')' :: rest) =
      (subfilterLength false (level + 1) rest).map (· + 1) := by
  rw [subfilterLength]
  simp

theorem plain_sign (equals : Bool) : ∀ c ∈ sign equals, c ∉ str "()\"" := by
  cases equals <;> decide

theorem plain_operator (op : Operator) : ∀ c ∈ op.text, c ∉ str "()\"" := by
  cases op <;> decide

theorem plain_spaces (n : ℕ) : ∀ c ∈ spaces n, c ∉ str "()\"" := by
  intro c hc
  obtain rfl := List.eq_of_mem_replicate hc
  decide

mutual

/-- The matcher passes over an item without losing count of the parentheses around it. -/
theorem Item.subfilterLength (i : Item) (level : ℕ) (rest : StdString) :
    Filter.subfilterLength false (level + 1) (i.text ++ rest) =
      (Filter.subfilterLength false (level + 1) rest).map (· + i.text.length) := by
  cases i with
  | comparison key equals value =>
      rw [Item.text, List.append_assoc, List.append_assoc, key.subfilterLength,
        subfilterLength_plain (plain_sign equals), subfilterLength_value, map_add_map_add,
        map_add_map_add, List.length_append, List.length_append, Nat.add_assoc]
  | group e =>
      rw [Item.text, List.cons_append, List.append_assoc, subfilterLength_open,
        e.subfilterLength (level + 1), List.singleton_append, subfilterLength_close,
        map_add_map_add, map_add_map_add, List.length_cons, List.length_append,
        List.length_singleton, Nat.add_comm 1]

theorem Expr.subfilterLength (e : Expr) (level : ℕ) (rest : StdString) :
    Filter.subfilterLength false (level + 1) (e.text ++ rest) =
      (Filter.subfilterLength false (level + 1) rest).map (· + e.text.length) := by
  cases e with
  | single i =>
      rw [Expr.text]
      exact i.subfilterLength level rest
  | chain front before op after last =>
      simp only [Expr.text, List.append_assoc]
      rw [front.subfilterLength, subfilterLength_plain (plain_spaces before),
        subfilterLength_plain (plain_operator op), subfilterLength_plain (plain_spaces after),
        last.subfilterLength]
      simp only [map_add_map_add, List.length_append]

end

/-- The matcher finds the expression between a pair of parentheses. -/
theorem Expr.retrieveSubfilter (e : Expr) (rest : StdString) :
    Filter.retrieveSubfilter (e.text ++ ch ')' :: rest) = some e.text := by
  have hclose : Filter.subfilterLength false 1 (ch ')' :: rest) = some 0 := by
    rw [Filter.subfilterLength]
    simp
  rw [Filter.retrieveSubfilter, e.subfilterLength 0, hclose]
  simp

/-! ## A key/value pair -/

/-- Where the interpreter goes on after an item: at its end, or at `npos` if nothing
follows. -/
def EndsAt (pos : Pos) (n : ℕ) (rest : StdString) : Prop :=
  pos = some n ∨ pos = none ∧ rest = []

/-- An item is followed by a space or by nothing. -/
def Bounded (rest : StdString) : Prop := rest = [] ∨ ∃ more, rest = ch ' ' :: more

theorem Key.not_mem (key : Key) {chars : StdString} (h : chars ⊆ str " \"()=!&|") :
    ∀ c ∈ key.text, c ∉ chars := by
  intro c hc hmem
  exact key.clean c hc (h hmem)

theorem findFirstOf_nequal (front tail : StdString) (key : Key) (equals : Bool) :
    findFirstOf (front ++ (key.text ++ (sign equals ++ tail))) (str "!=") front.length =
      some (front.length + key.text.length) := by
  cases equals with
  | true => exact findFirstOf_append (key.not_mem (by decide)) (by decide) front _
  | false => exact findFirstOf_append (key.not_mem (by decide)) (by decide) front _

theorem findFirstOf_equal (front tail : StdString) (key : Key) (equals : Bool) :
    findFirstOf (front ++ (key.text ++ (sign equals ++ tail))) (str "=") front.length =
      some (front.length + key.text.length + if equals then 0 else 1) := by
  cases equals with
  | true => exact findFirstOf_append (key.not_mem (by decide)) (by decide) front _
  | false =>
      have hclean : ∀ c ∈ key.text ++ [ch '!'], c ∉ str "=" := by
        intro c hc
        rcases List.mem_append.mp hc with hkey | hsign
        · exact key.not_mem (by decide) c hkey
        · obtain rfl := List.mem_singleton.mp hsign
          decide
      have hfind := findFirstOf_append hclean (show ch '=' ∈ str "=" by decide) front tail
      rw [List.append_assoc, List.length_append, List.length_singleton, ← Nat.add_assoc] at hfind
      exact hfind

theorem splitComparison_sign (front tail : StdString) (key : Key) (equals : Bool) :
    splitComparison (front ++ (key.text ++ (sign equals ++ tail))) front.length =
      (cutValue (front ++ (key.text ++ (sign equals ++ tail)))
        (front.length + key.text.length + (sign equals).length)).map fun (right, rightEnd) =>
          ⟨key.text, equals, right, rightEnd⟩ := by
  have hleft := substr_append front key.text (sign equals ++ tail)
  have htrim : trim key.text = key.text := by
    apply trim_of_forall_ne
    intro c hc
    exact (ne_of_mem_of_not_mem (by decide) (key.clean c hc)).symm
  have hlength : (sign equals).length = if equals then 1 else 2 := by cases equals <;> rfl
  have hlt : ¬ front.length + key.text.length + (if equals then 0 else 1) <
      front.length + key.text.length := by omega
  have hequals : decide (some (front.length + key.text.length) =
      some (front.length + key.text.length + if equals then 0 else 1)) = equals := by
    cases equals <;> simp
  rw [splitComparison, findFirstOf_equal, findFirstOf_nequal]
  simp only [hlt, if_false, hequals, Pos.plus, Pos.minus, Option.map_some, Nat.add_sub_cancel_left,
    hleft, htrim, hlength]

theorem cutValue_bare (head : StdString) {text rest : StdString}
    (clean : ∀ c ∈ text, c ∉ str " \"()") (hrest : Bounded rest) :
    ∃ pos, EndsAt pos (head.length + text.length) rest ∧
      cutValue (head ++ (text ++ rest)) head.length = .ok (text, pos) := by
  have htrim : trim text = text := by
    apply trim_of_forall_ne
    intro c hc
    exact (ne_of_mem_of_not_mem (by decide) (clean c hc)).symm
  have hquote : text.head? ≠ some (ch '"') := by
    intro h
    exact clean _ (List.mem_of_head? h) (by decide)
  have hspace : ∀ c ∈ text, c ∉ str " " := by
    intro c hc hmem
    have hsub : str " " ⊆ str " \"()" := by decide
    exact clean c hc (hsub hmem)
  rcases hrest with rfl | ⟨more, rfl⟩
  · refine ⟨none, Or.inr ⟨rfl, rfl⟩, ?_⟩
    rw [List.append_nil, cutValue, findFirstOf_none hspace]
    simp only [Pos.minus, Option.map_none, substr_append_npos, htrim, if_neg hquote]
  · refine ⟨some (head.length + text.length), Or.inl rfl, ?_⟩
    rw [cutValue, findFirstOf_append hspace (by decide)]
    simp only [Pos.minus, Option.map_some, Nat.add_sub_cancel_left, substr_append, htrim,
      if_neg hquote]

theorem cutValue_quoted (head : StdString) {text : StdString}
    (clean : ∀ c ∈ text, c ∉ str "\"") (rest : StdString) :
    cutValue (head ++ ((Value.quoted text clean).text ++ rest)) head.length =
      .ok (text, some (head.length + (Value.quoted text clean).text.length)) := by
  have hopen : head.length + 1 = (head ++ [ch '"']).length := by simp
  have htext : head ++ ((Value.quoted text clean).text ++ rest) =
      head ++ [ch '"'] ++ (text ++ ch '"' :: rest) := by
    simp [Value.text]
  have hcons : head ++ ((Value.quoted text clean).text ++ rest) =
      head ++ ch '"' :: (text ++ ch '"' :: rest) := by
    simp [Value.text]
  obtain ⟨more, hraw⟩ := substr_findFirstOf_cons (show ch '"' ∉ str " " by decide) head
    (text ++ ch '"' :: rest)
  have hhead : (trim (ch '"' :: more)).head? = some (ch '"') := head?_trim_cons (by decide) more
  have hclose : findFirstOf (head ++ ((Value.quoted text clean).text ++ rest)) (str "\"")
      (head.length + 1) = some (head.length + 1 + text.length) := by
    rw [hopen, htext]
    exact findFirstOf_append clean (by decide) _ rest
  have hquoted : substr (head ++ ((Value.quoted text clean).text ++ rest)) (head.length + 1)
      (some text.length) = some text := by
    rw [hopen, htext]
    exact substr_append _ text _
  rw [← hcons] at hraw
  have hend : head.length + 1 + text.length + 1 =
      head.length + (Value.quoted text clean).text.length := by
    simp only [Value.text, List.length_append, List.length_singleton]
    omega
  simp only [cutValue, hraw, hhead, if_true, hclose]
  simp only [Pos.minus, Option.map_some, Nat.add_sub_cancel_left, hquoted, Pos.plus, hend]

/-- A pair is cut into its key, its sign and the content of its value. -/
theorem splitComparison_text (front : StdString) (key : Key) (equals : Bool) (value : Value)
    {rest : StdString} (hrest : Bounded rest) :
    ∃ pos, EndsAt pos (front.length + (Item.comparison key equals value).text.length) rest ∧
      splitComparison (front ++ ((Item.comparison key equals value).text ++ rest)) front.length =
        .ok ⟨key.text, equals, value.content, pos⟩ := by
  have htext : front ++ ((Item.comparison key equals value).text ++ rest) =
      front ++ (key.text ++ (sign equals ++ (value.text ++ rest))) := by
    simp [Item.text]
  have hstart : front.length + key.text.length + (sign equals).length =
      (front ++ (key.text ++ sign equals)).length := by
    simp only [List.length_append]
    omega
  have hvalue : front ++ (key.text ++ (sign equals ++ (value.text ++ rest))) =
      front ++ (key.text ++ sign equals) ++ (value.text ++ rest) := by
    simp
  have hlength : front.length + (Item.comparison key equals value).text.length =
      (front ++ (key.text ++ sign equals)).length + value.text.length := by
    simp only [Item.text, List.length_append]
    omega
  rw [htext, hlength, splitComparison_sign, hstart, hvalue]
  cases value with
  | bare text clean =>
      obtain ⟨pos, hpos, hcut⟩ := cutValue_bare (front ++ (key.text ++ sign equals)) clean hrest
      refine ⟨pos, hpos, ?_⟩
      rw [Value.text, hcut]
      rfl
  | quoted text clean =>
      refine ⟨_, Or.inl rfl, ?_⟩
      rw [cutValue_quoted]
      rfl

end HamRouter.Filter
