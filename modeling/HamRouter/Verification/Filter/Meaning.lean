import HamRouter.Verification.Filter.Tokens

/-! # The interpreter computes the meaning of a filter

Each token takes one iteration. The loop is followed along an expression from its
position in the text to its end. -/

namespace HamRouter.Filter

open StdString

variable (ignoreIfFieldIsMissing : Bool) (m : Meta)

theorem getElem?_front (front : StdString) (c : UInt8) (rest : StdString) :
    (front ++ c :: rest)[front.length]? = some c := by
  simp

/-! ## Spaces and operators -/

theorem filterLoop_spaces (n : ℕ) {filter front rest : StdString}
    (h : filter = front ++ (List.replicate n (ch ' ') ++ rest)) (fuel : ℕ)
    (operation : StdString) (rc : Bool) :
    filterLoop ignoreIfFieldIsMissing m (fuel + n) filter (some front.length) operation rc =
      filterLoop ignoreIfFieldIsMissing m fuel filter (some (front.length + n)) operation rc := by
  induction n generalizing front with
  | zero => rfl
  | succ n ih =>
      rw [List.replicate_succ, List.cons_append] at h
      have hnext : filter = front ++ [ch ' '] ++ (List.replicate n (ch ' ') ++ rest) := by
        simpa using h
      have hmore := ih hnext
      rw [List.length_append, List.length_singleton] at hmore
      rw [← Nat.add_assoc, filterLoop, h, getElem?_front, ← h]
      simp only [if_true, hmore]
      congr 2
      omega

theorem filterLoop_operator (op : Operator) {filter front rest : StdString}
    (h : filter = front ++ (op.text ++ ch ' ' :: rest)) (fuel : ℕ) (operation : StdString)
    (rc : Bool) :
    filterLoop ignoreIfFieldIsMissing m (fuel + 1) filter (some front.length) operation rc =
      filterLoop ignoreIfFieldIsMissing m fuel filter (some (front.length + op.text.length))
        op.text rc := by
  have hclean : ∀ c ∈ op.text, c ∉ str " " := by cases op <;> decide
  have hend : findFirstOf filter (str " ") front.length =
      some (front.length + op.text.length) := by
    rw [h]
    exact findFirstOf_append hclean (by decide) front rest
  have htoken : substr filter front.length (some op.text.length) = some op.text := by
    rw [h]
    exact substr_append front op.text _
  have hfirst : ∃ c, filter[front.length]? = some c ∧ c ≠ ch ' ' ∧ c ≠ ch '(' ∧
      (c = ch '&' ∨ c = ch '|') := by
    rw [h]
    cases op with
    | and => exact ⟨ch '&', getElem?_front front _ _, by decide, by decide, by decide⟩
    | or => exact ⟨ch '|', getElem?_front front _ _, by decide, by decide, by decide⟩
  obtain ⟨c, hc, hspace, hopen, hoperator⟩ := hfirst
  rw [filterLoop, hc]
  simp only [hspace, hopen, hoperator, if_true, if_false, hend, Pos.minus, Option.map_some,
    Nat.add_sub_cancel_left, htoken]

theorem Operator.length_text (op : Operator) : op.text.length = 2 := by
  cases op <;> rfl

theorem length_spaces (n : ℕ) : (spaces n).length = n + 1 := by
  rw [spaces, List.length_replicate]

/-- From the end of one item to the start of the next. -/
theorem filterLoop_separator (before : ℕ) (op : Operator) (after : ℕ)
    {filter front rest : StdString}
    (h : filter = front ++ (spaces before ++ (op.text ++ (spaces after ++ rest)))) (fuel : ℕ)
    (rc : Bool) :
    filterLoop ignoreIfFieldIsMissing m (fuel + (after + 1) + 1 + (before + 1)) filter
        (some front.length) [] rc =
      filterLoop ignoreIfFieldIsMissing m fuel filter
        (some (front ++ (spaces before ++ (op.text ++ spaces after))).length) op.text rc := by
  have hop : filter = front ++ spaces before ++
      (op.text ++ ch ' ' :: (List.replicate after (ch ' ') ++ rest)) := by
    rw [h]
    simp [spaces, List.replicate_succ]
  have hafter : filter = front ++ spaces before ++ op.text ++ (spaces after ++ rest) := by
    rw [h]
    simp
  have hfirst := filterLoop_spaces ignoreIfFieldIsMissing m (before + 1) h
    (fuel + (after + 1) + 1) [] rc
  have hsecond := filterLoop_operator ignoreIfFieldIsMissing m op hop (fuel + (after + 1)) [] rc
  have hthird := filterLoop_spaces ignoreIfFieldIsMissing m (after + 1) hafter fuel op.text rc
  simp only [List.length_append, length_spaces, op.length_text] at hsecond hthird ⊢
  rw [hfirst, hsecond, hthird]
  congr 2
  omega

theorem filterLoop_end {filter : StdString} {pos : Pos} (h : EndsAt pos filter.length [])
    (fuel : ℕ) (operation : StdString) (rc : Bool) :
    filterLoop ignoreIfFieldIsMissing m (fuel + 1) filter pos operation rc = some (.ok rc) := by
  rcases h with rfl | ⟨rfl, _⟩
  · rw [filterLoop, List.getElem?_eq_none (Nat.le_refl _)]
  · rw [filterLoop]

theorem combine_nil (rc curRc : Bool) : combine [] rc curRc = .ok curRc := by
  rw [combine, if_pos rfl]

theorem combine_operator (op : Operator) (rc curRc : Bool) :
    combine op.text rc curRc = .ok (op.apply rc curRc) := by
  cases op with
  | and => rfl
  | or => rfl

/-! ## Items and expressions -/

/-- Go on with a value, or stop with an error. -/
def resume (k : Bool → Option (Except FilterError Bool)) :
    Except FilterError Bool → Option (Except FilterError Bool)
  | .error e => some (.error e)
  | .ok v => k v

theorem Item.text_ne_nil (i : Item) : 0 < i.text.length := by
  cases i with
  | comparison key equals value =>
      have hkey := List.length_pos_of_ne_nil key.ne_nil
      rw [Item.text, List.length_append]
      omega
  | group e => simp [Item.text]

theorem compareField_eq_eval (filter : StdString) (key : Key) (equals : Bool) (value : Value)
    (pos : Pos) :
    compareField filter ignoreIfFieldIsMissing m ⟨key.text, equals, value.content, pos⟩ =
      (Item.comparison key equals value).eval ignoreIfFieldIsMissing m filter := by
  rw [compareField, Item.eval]
  cases m.lookup key.text with
  | none => rfl
  | some field => cases equals <;> simp

mutual

/-- An item is one iteration, which folds its value into `rc`. -/
theorem Item.filterLoop (i : Item) {filter front rest : StdString}
    (h : filter = front ++ (i.text ++ rest)) (hrest : Bounded rest) {fuel : ℕ}
    (hfuel : i.text.length ≤ fuel + 1) (operation : StdString) (rc : Bool) :
    ∃ pos, EndsAt pos (front.length + i.text.length) rest ∧
      Filter.filterLoop ignoreIfFieldIsMissing m (fuel + 1) filter (some front.length) operation
          rc =
        resume (fun curRc => resume
            (fun rc => Filter.filterLoop ignoreIfFieldIsMissing m fuel filter pos [] rc)
            (combine operation rc curRc))
          (i.eval ignoreIfFieldIsMissing m filter) := by
  cases i with
  | comparison key equals value =>
      obtain ⟨pos, hpos, hsplit⟩ := splitComparison_text front key equals value hrest
      rw [← h] at hsplit
      refine ⟨pos, hpos, ?_⟩
      obtain ⟨c, text, htext⟩ := List.exists_cons_of_ne_nil key.ne_nil
      have hclean := key.clean c (by simp [htext])
      have hc : filter[front.length]? = some c := by
        rw [h, Item.text, htext]
        exact getElem?_front front _ _
      have hspace : c ≠ ch ' ' := (ne_of_mem_of_not_mem (by decide) hclean).symm
      have hopen : c ≠ ch '(' := (ne_of_mem_of_not_mem (by decide) hclean).symm
      have hoperator : ¬ (c = ch '&' ∨ c = ch '|') := by
        rintro (rfl | rfl)
        · exact hclean (by decide)
        · exact hclean (by decide)
      rw [Filter.filterLoop, hc]
      simp only [hspace, hopen, hoperator, if_false, hsplit, compareField_eq_eval]
      cases (Item.comparison key equals value).eval ignoreIfFieldIsMissing m filter with
      | error e => rfl
      | ok curRc => cases hrc : combine operation rc curRc <;> simp [resume, hrc]
  | group e =>
      rw [Item.text, List.cons_append, List.append_assoc, List.singleton_append] at h
      have hlength : (Item.group e).text.length = e.text.length + 2 := by simp [Item.text]
      have hc : filter[front.length]? = some (ch '(') := by
        rw [h]
        exact getElem?_front front _ _
      have hdrop : filter.drop (front.length + 1) = e.text ++ ch ')' :: rest := by
        rw [h, ← List.drop_drop, List.drop_left, List.drop_one, List.tail_cons]
      have hwhole : e.text = [] ++ (e.text ++ []) := by simp
      obtain ⟨last, left, hlast, hleft, hinner⟩ :=
        e.filterLoop hwhole (Or.inl rfl) (show e.text.length < fuel by omega) false
      obtain ⟨left, rfl⟩ := Nat.exists_eq_add_one_of_ne_zero (show left ≠ 0 by omega)
      rw [List.length_nil, Nat.zero_add] at hlast
      simp only [List.length_nil, filterLoop_end _ _ hlast] at hinner
      refine ⟨some (front.length + (e.text.length + 2)), Or.inl (by rw [hlength]), ?_⟩
      rw [Filter.filterLoop, hc, Item.eval]
      simp only [show ch '(' ≠ ch ' ' by decide, if_false, if_true, hdrop, e.retrieveSubfilter,
        hinner]
      cases e.eval ignoreIfFieldIsMissing m e.text with
      | error e => rfl
      | ok curRc => cases hrc : combine operation rc curRc <;> simp [resume, hrc]

/-- An expression is read from an empty operation, and leaves its value in `rc`. -/
theorem Expr.filterLoop (e : Expr) {filter front rest : StdString}
    (h : filter = front ++ (e.text ++ rest)) (hrest : Bounded rest) {fuel : ℕ}
    (hfuel : e.text.length < fuel) (rc : Bool) :
    ∃ pos left, EndsAt pos (front.length + e.text.length) rest ∧ fuel ≤ left + e.text.length ∧
      Filter.filterLoop ignoreIfFieldIsMissing m fuel filter (some front.length) [] rc =
        resume (fun rc => Filter.filterLoop ignoreIfFieldIsMissing m left filter pos [] rc)
          (e.eval ignoreIfFieldIsMissing m filter) := by
  cases e with
  | single i =>
      rw [Expr.text] at h hfuel ⊢
      obtain ⟨fuel, rfl⟩ := Nat.exists_eq_add_one_of_ne_zero (Nat.ne_zero_of_lt hfuel)
      obtain ⟨pos, hpos, hloop⟩ := i.filterLoop h hrest (Nat.le_of_lt hfuel) [] rc
      have hpositive := i.text_ne_nil
      refine ⟨pos, fuel, hpos, by omega, ?_⟩
      rw [hloop, Expr.eval]
      simp only [combine_nil, resume]
  | chain first before op after last =>
      have hlength : (Expr.chain first before op after last).text.length =
          first.text.length + ((before + 1) + (2 + ((after + 1) + last.text.length))) := by
        simp only [Expr.text, List.length_append, length_spaces, op.length_text]
      rw [Expr.text] at h
      have hfirst : filter = front ++ (first.text ++
          (spaces before ++ (op.text ++ (spaces after ++ (last.text ++ rest))))) := by
        rw [h]
        simp
      have hseparator : filter = front ++ first.text ++
          (spaces before ++ (op.text ++ (spaces after ++ (last.text ++ rest)))) := by
        rw [hfirst]
        simp
      have hlast : filter = front ++ first.text ++
          (spaces before ++ (op.text ++ spaces after)) ++ (last.text ++ rest) := by
        rw [hfirst]
        simp
      obtain ⟨pos, left, hpos, hleft, hloop⟩ :=
        first.filterLoop hfirst (Or.inr ⟨_, rfl⟩) (show first.text.length < fuel by omega) rc
      have hsome : pos = some (front ++ first.text).length := by
        rcases hpos with hpos | ⟨_, hnil⟩
        · rw [hpos, List.length_append]
        · simp [spaces] at hnil
      obtain ⟨more, rfl⟩ : ∃ more, left = more + 1 + (after + 1) + 1 + (before + 1) :=
        ⟨left - (after + before + 4), by omega⟩
      have hitem := last.filterLoop hlast hrest (show last.text.length ≤ more + 1 by omega) op.text
      rw [hloop, Expr.eval]
      cases first.eval ignoreIfFieldIsMissing m filter with
      | error e => exact ⟨_, more, Or.inl rfl, by omega, rfl⟩
      | ok a =>
          obtain ⟨pos, hpos, hend⟩ := hitem a
          refine ⟨pos, more, ?_, by omega, ?_⟩
          · simp only [List.length_append, length_spaces, op.length_text] at hpos
            convert hpos using 1
            omega
          · rw [resume, hsome, filterLoop_separator _ _ _ _ _ hseparator, hend]
            cases last.eval ignoreIfFieldIsMissing m filter with
            | error e => rfl
            | ok b =>
                simp only [resume, combine_operator]
                rfl

end

/-- With one iteration more than it has bytes, the text of an expression is executed to
its meaning: a truth value, or the error of the first missing field. -/
theorem executeFilter_text (e : Expr) (extra : ℕ) :
    executeFilter (e.text.length + 1 + extra) e.text ignoreIfFieldIsMissing m =
      some (e.meaning ignoreIfFieldIsMissing m) := by
  have hwhole : e.text = [] ++ (e.text ++ []) := by simp
  obtain ⟨pos, left, hpos, hleft, hloop⟩ := e.filterLoop ignoreIfFieldIsMissing m hwhole
    (Or.inl rfl) (show e.text.length < e.text.length + 1 + extra by omega) false
  obtain ⟨left, rfl⟩ := Nat.exists_eq_add_one_of_ne_zero (show left ≠ 0 by omega)
  rw [List.length_nil, Nat.zero_add] at hpos
  rw [List.length_nil] at hloop
  rw [executeFilter, hloop, Expr.meaning]
  cases e.eval ignoreIfFieldIsMissing m e.text with
  | error err => rfl
  | ok rc => exact filterLoop_end _ _ hpos _ _ _

end HamRouter.Filter
