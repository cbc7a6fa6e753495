import HamRouter.Library.Fuel
import HamRouter.Model.FilterScan
import HamRouter.Verification.Filter.Meaning

/-! # When the interpreter comes to an end

With `ignore_if_field_is_missing` the metadata decides nothing about where the reading
goes, so that it can be followed along the scan of the text. -/

namespace HamRouter.Filter

open StdString Fuel

/-! ## One key/value pair -/

/-- The position a pair hands to the loop, if it hands one. -/
def PairEnd.position : PairEnd → Except FilterError Pos
  | .outOfRange => .error .outOfRange
  | .ahead position => .ok position
  | .back position => .ok position

/-- What is cut out up to the next space starts with a quote if the text does. -/
theorem head?_trim_takeWhile (s : StdString) :
    (trim (s.takeWhile (· ∉ str " "))).head? = some (ch '"') ↔ s.head? = some (ch '"') := by
  have htrim : trim (s.takeWhile (· ∉ str " ")) = s.takeWhile (· ∉ str " ") := by
    apply trim_of_forall_ne
    intro c hc hspace
    have hclean := List.mem_takeWhile_imp hc
    rw [hspace] at hclean
    revert hclean
    decide
  rw [htrim]
  cases s with
  | nil => rfl
  | cons c rest =>
      by_cases hspace : c ∈ str " "
      · obtain rfl := List.mem_singleton.mp (show c ∈ [ch ' '] from hspace)
        simp only [List.takeWhile_cons, hspace, not_true, decide_false, Bool.false_eq_true,
          if_false, List.head?_cons, List.head?_nil]
        decide
      · simp [hspace]

theorem cutValue_position (filter : StdString) (start : ℕ) :
    (cutValue filter start).map Prod.snd = (valueEnd filter start).position := by
  by_cases hrange : filter.length < start
  · have hnone : ∀ count, substr filter start count = none := fun count => if_neg (by omega)
    rw [cutValue, valueEnd, if_pos hrange, hnone]
    rfl
  · rw [cutValue, valueEnd, if_neg hrange, substr_findFirstOf _ _ (Nat.le_of_not_lt hrange)]
    simp only [head?_trim_takeWhile, List.head?_drop]
    by_cases hquote : filter[start]? = some (ch '"')
    · obtain ⟨hlt, _⟩ := List.getElem?_eq_some_iff.mp hquote
      rw [if_pos hquote, if_pos hquote, substr_findFirstOf _ _ (by omega)]
      cases findFirstOf filter (str "\"") (start + 1) with
      | none => rfl
      | some dq => rfl
    · rw [if_neg hquote, if_neg hquote]
      rfl

theorem findFirstOf_sign_none {filter : StdString} {position : ℕ}
    (h : findFirstOf filter (str "!=") position = none) :
    findFirstOf filter (str "=") position = none := by
  rw [findFirstOf_eq_none_iff] at h ⊢
  intro k c hk hc hmem
  have hsub : str "=" ⊆ str "!=" := by decide
  exact h k c hk hc (hsub hmem)

theorem findFirstOf_sign_equal {filter : StdString} {position sign : ℕ}
    (h : findFirstOf filter (str "!=") position = some sign)
    (hequal : filter[sign]? = some (ch '=')) :
    findFirstOf filter (str "=") position = some sign := by
  rw [findFirstOf_eq_some_iff] at h ⊢
  obtain ⟨hle, _, hbefore⟩ := h
  refine ⟨hle, ⟨_, hequal, by decide⟩, ?_⟩
  intro k c hk hlt hc hmem
  have hsub : str "=" ⊆ str "!=" := by decide
  exact hbefore k c hk hlt hc (hsub hmem)

theorem findFirstOf_sign_lt {filter : StdString} {position sign equal : ℕ}
    (h : findFirstOf filter (str "!=") position = some sign)
    (hequal : filter[sign]? ≠ some (ch '='))
    (he : findFirstOf filter (str "=") position = some equal) : sign < equal := by
  rw [findFirstOf_eq_some_iff] at h he
  obtain ⟨_, _, hbefore⟩ := h
  obtain ⟨hle, ⟨c, hc, hmem⟩, _⟩ := he
  obtain rfl := List.mem_singleton.mp hmem
  rcases Nat.lt_trichotomy sign equal with hlt | rfl | hgt
  · exact hlt
  · exact absurd hc hequal
  · exact absurd (by decide) (hbefore equal _ hle hgt hc)

theorem firstValueEnd_position (filter : StdString) :
    (valueEnd filter 0).position = .ok (firstValueEnd filter) := by
  have hrange : valueEnd filter 0 ≠ .outOfRange := by
    rw [valueEnd, if_neg (Nat.not_lt_zero _)]
    split
    · split <;> simp
    · simp
  rw [firstValueEnd]
  cases hend : valueEnd filter 0 with
  | outOfRange => exact absurd hend hrange
  | ahead position => rfl
  | back position => rfl

/-- Where the interpreter goes on behind a pair is where the scan says. -/
theorem map_rightEnd {value : Except FilterError (StdString × Pos)}
    {g : StdString × Pos → Comparison} (h : ∀ pair, (g pair).rightEnd = pair.2) :
    (value.map g).map Comparison.rightEnd = value.map Prod.snd := by
  cases value with
  | error e => rfl
  | ok pair => exact congrArg Except.ok (h pair)

theorem splitComparison_position {filter : StdString} {position : ℕ}
    (hposition : position ≤ filter.length) :
    (splitComparison filter position).map Comparison.rightEnd =
      (pairEnd filter position).position := by
  have hleft : ∀ count, ∃ left, substr filter position count = some left := by
    intro count
    exact ⟨_, if_pos hposition⟩
  rw [splitComparison, pairEnd]
  cases hsign : findFirstOf filter (str "!=") position with
  | none =>
      obtain ⟨left, hleft⟩ := hleft (Pos.minus none position)
      rw [findFirstOf_sign_none hsign]
      simp only [hleft, decide_true, if_true]
      rw [map_rightEnd fun _ => rfl]
      simp only [cutValue_position, Pos.plus, Nat.sub_self, firstValueEnd_position]
      rfl
  | some sign =>
      obtain ⟨left, hleft⟩ := hleft (Pos.minus (some sign) position)
      by_cases hequal : filter[sign]? = some (ch '=')
      · rw [findFirstOf_sign_equal hsign hequal]
        simp only [Nat.lt_irrefl, if_false, hleft, decide_true, if_true]
        rw [map_rightEnd fun _ => rfl]
        simp only [cutValue_position, Pos.plus, hequal, if_true]
      · cases he : findFirstOf filter (str "=") position with
        | none =>
            simp only [hleft]
            rw [map_rightEnd fun _ => rfl]
            simp [cutValue_position, Pos.plus, hequal]
        | some equal =>
            have hlt := findFirstOf_sign_lt hsign hequal he
            simp only [hlt.not_gt, if_false, hleft]
            rw [map_rightEnd fun _ => rfl]
            simp [cutValue_position, Pos.plus, hequal, hlt.ne]

/-! ## States of the loop -/

/-- The variables of one activation: the filter, `position`, `operation` and `rc`. -/
abbrev LoopState := StdString × Pos × StdString × Bool

/-- The loop with missing fields ignored. -/
def eval (m : Meta) (fuel : ℕ) (s : LoopState) : Option (Except FilterError Bool) :=
  filterLoop true m fuel s.1 s.2.1 s.2.2.1 s.2.2.2

theorem combine_known {operation : StdString} (h : known operation = true) (rc curRc : Bool) :
    ∃ v, combine operation rc curRc = .ok v := by
  simp only [known, Bool.or_eq_true, decide_eq_true_eq] at h
  rcases h with (rfl | rfl) | rfl
  · exact ⟨curRc, rfl⟩
  · exact ⟨rc && curRc, rfl⟩
  · exact ⟨rc || curRc, rfl⟩

theorem combine_unknown {operation : StdString} (h : known operation = false) (rc curRc : Bool) :
    combine operation rc curRc = .error (.unknownOperation operation) := by
  simp only [known, Bool.or_eq_false_iff, decide_eq_false_iff_not] at h
  rw [combine, if_neg h.1.1, if_neg h.1.2, if_neg h.2]

theorem compareField_ignoring (filter : StdString) (m : Meta) (c : Comparison) :
    ∃ v, compareField filter true m c = .ok v := by
  rw [compareField]
  cases m.lookup c.left with
  | none => exact ⟨true, rfl⟩
  | some field => exact ⟨_, rfl⟩

/-! ## One iteration, by the byte it finds -/

section Iteration

variable {m : Meta} {filter : StdString} {position : ℕ} {c : UInt8}

theorem eval_end (h : filter[position]? = none) (n : ℕ) (operation : StdString) (rc : Bool) :
    eval m (n + 1) (filter, some position, operation, rc) = some (.ok rc) := by
  simp only [eval, filterLoop, h]

theorem eval_space (h : filter[position]? = some (ch ' ')) (n : ℕ) (operation : StdString)
    (rc : Bool) :
    eval m (n + 1) (filter, some position, operation, rc) =
      eval m n (filter, some (position + 1), operation, rc) := by
  simp only [eval, filterLoop, h, if_true]

theorem eval_unmatched (h : filter[position]? = some (ch '('))
    (hsub : retrieveSubfilter (filter.drop (position + 1)) = none) (n : ℕ)
    (operation : StdString) (rc : Bool) :
    eval m (n + 1) (filter, some position, operation, rc) =
      some (.error .endOfSubFilterNotFound) := by
  simp only [eval, filterLoop, h, show ch '(' ≠ ch ' ' by decide, if_false, if_true, hsub]

theorem eval_group {temp : StdString} (h : filter[position]? = some (ch '('))
    (hsub : retrieveSubfilter (filter.drop (position + 1)) = some temp) (n : ℕ)
    (operation : StdString) (rc : Bool) :
    eval m (n + 1) (filter, some position, operation, rc) =
      (eval m n (temp, some 0, [], false)).bind (resume fun curRc => resume
        (fun rc => eval m n (filter, some (position + (temp.length + 2)), [], rc))
        (combine operation rc curRc)) := by
  simp only [eval, filterLoop, h, show ch '(' ≠ ch ' ' by decide, if_false, if_true, hsub]
  cases filterLoop true m n temp (some 0) [] false with
  | none => rfl
  | some inner =>
      cases inner with
      | error e => rfl
      | ok curRc => cases hrc : combine operation rc curRc <;> simp [resume, hrc]

theorem eval_operator (h : filter[position]? = some c) (hc : c = ch '&' ∨ c = ch '|') (n : ℕ)
    (operation : StdString) (rc : Bool) :
    eval m (n + 1) (filter, some position, operation, rc) =
      eval m n (filter, findFirstOf filter (str " ") position,
        (filter.drop position).takeWhile (· ≠ ch ' '), rc) := by
  obtain ⟨hlt, _⟩ := List.getElem?_eq_some_iff.mp h
  have hspace : c ≠ ch ' ' := by rcases hc with rfl | rfl <;> decide
  have hopen : c ≠ ch '(' := by rcases hc with rfl | rfl <;> decide
  have htoken : (fun b : UInt8 => decide (b ∉ str " ")) = fun b => decide (b ≠ ch ' ') := by
    funext b
    simp [str]
  simp only [eval, filterLoop, h, hspace, hopen, hc, if_false, if_true,
    substr_findFirstOf filter (str " ") hlt.le, htoken]

/-- A byte that starts a key/value pair. -/
def StartsPair (c : UInt8) : Prop := c ≠ ch ' ' ∧ c ≠ ch '(' ∧ ¬ (c = ch '&' ∨ c = ch '|')

theorem eval_pair_error (h : filter[position]? = some c) (hc : StartsPair c) {e : FilterError}
    (hend : (pairEnd filter position).position = .error e) (n : ℕ) (operation : StdString)
    (rc : Bool) :
    eval m (n + 1) (filter, some position, operation, rc) = some (.error e) := by
  obtain ⟨hlt, _⟩ := List.getElem?_eq_some_iff.mp h
  obtain ⟨hspace, hopen, hoperator⟩ := hc
  have hsplit := splitComparison_position hlt.le
  rw [hend] at hsplit
  cases hcomparison : splitComparison filter position with
  | error e' =>
      rw [hcomparison] at hsplit
      obtain rfl := Except.error.inj hsplit
      simp only [eval, filterLoop, h, hspace, hopen, hoperator, if_false, hcomparison]
  | ok comparison => simp [hcomparison, Except.map] at hsplit

/-- A pair gives some value, whatever the metadata, and leads behind its end. -/
theorem eval_pair (h : filter[position]? = some c) (hc : StartsPair c) {next : Pos}
    (hend : (pairEnd filter position).position = .ok next) :
    ∃ curRc, ∀ n operation rc, eval m (n + 1) (filter, some position, operation, rc) =
      resume (fun rc => eval m n (filter, next, [], rc)) (combine operation rc curRc) := by
  obtain ⟨hlt, _⟩ := List.getElem?_eq_some_iff.mp h
  obtain ⟨hspace, hopen, hoperator⟩ := hc
  have hsplit := splitComparison_position hlt.le
  rw [hend] at hsplit
  cases hcomparison : splitComparison filter position with
  | error e => simp [hcomparison, Except.map] at hsplit
  | ok comparison =>
      rw [hcomparison] at hsplit
      obtain rfl := Except.ok.inj hsplit
      obtain ⟨curRc, hcurRc⟩ := compareField_ignoring filter m comparison
      refine ⟨curRc, ?_⟩
      intro n operation rc
      simp only [eval, filterLoop, h, hspace, hopen, hoperator, if_false, hcomparison, hcurRc]
      cases hrc : combine operation rc curRc <;> simp [resume]

end Iteration

theorem resume_mono {f g : Bool → Option (Except FilterError Bool)} {r : Except FilterError Bool}
    (h : ∀ v, f v = some r → g v = some r) {x : Except FilterError Bool}
    (hx : resume f x = some r) : resume g x = some r := by
  cases x with
  | error e => exact hx
  | ok v => exact h v hx

theorem eval_stable (m : Meta) : Stable (eval m) := by
  intro n
  induction n with
  | zero =>
      intro s r h
      simp [eval, filterLoop] at h
  | succ n ih =>
      intro s r h
      obtain ⟨filter, position, operation, rc⟩ := s
      cases position with
      | none => exact h
      | some position =>
          cases hc : filter[position]? with
          | none =>
              rw [eval_end hc] at h ⊢
              exact h
          | some c =>
              by_cases hspace : c = ch ' '
              · subst hspace
                rw [eval_space hc] at h ⊢
                exact ih _ _ h
              by_cases hopen : c = ch '('
              · subst hopen
                cases hsub : retrieveSubfilter (filter.drop (position + 1)) with
                | none =>
                    rw [eval_unmatched hc hsub] at h ⊢
                    exact h
                | some temp =>
                    rw [eval_group hc hsub] at h ⊢
                    obtain ⟨inner, hinner, hrest⟩ := Option.bind_eq_some_iff.mp h
                    rw [ih _ _ hinner]
                    exact resume_mono (fun v => resume_mono fun rc => ih _ _) hrest
              by_cases hoperator : c = ch '&' ∨ c = ch '|'
              · rw [eval_operator hc hoperator] at h ⊢
                exact ih _ _ h
              have hpair : StartsPair c := ⟨hspace, hopen, hoperator⟩
              cases hend : (pairEnd filter position).position with
              | error e =>
                  rw [eval_pair_error hc hpair hend] at h ⊢
                  exact h
              | ok next =>
                  obtain ⟨curRc, hstep⟩ := eval_pair (m := m) hc hpair hend
                  rw [hstep] at h ⊢
                  exact resume_mono (fun rc => ih _ _) h

/-! ## Every token but a jump back moves on -/

/-- How many bytes there are from a position on. -/
def remaining (filter : StdString) : Pos → ℕ
  | none => 0
  | some position => filter.length - position

theorem remaining_le (filter : StdString) (position : Pos) :
    remaining filter position ≤ filter.length := by
  cases position with
  | none => exact Nat.zero_le _
  | some position => exact Nat.sub_le _ _

theorem remaining_findFirstOf (filter chars : StdString) (start : ℕ) :
    remaining filter (findFirstOf filter chars start) ≤ filter.length - start := by
  cases h : findFirstOf filter chars start with
  | none => exact Nat.zero_le _
  | some n =>
      have hle := (findFirstOf_eq_some_iff.mp h).1
      exact Nat.sub_le_sub_left hle _

/-- A search that starts at another byte moves on. -/
theorem remaining_findFirstOf_lt {filter chars : StdString} {position : ℕ} {c : UInt8}
    (hc : filter[position]? = some c) (hother : c ∉ chars) :
    remaining filter (findFirstOf filter chars position) < filter.length - position := by
  obtain ⟨hlt, _⟩ := List.getElem?_eq_some_iff.mp hc
  cases h : findFirstOf filter chars position with
  | none => exact Nat.sub_pos_of_lt hlt
  | some n =>
      obtain ⟨hle, ⟨b, hb, hmem⟩, _⟩ := findFirstOf_eq_some_iff.mp h
      have hne : n ≠ position := by
        intro heq
        rw [heq, hc] at hb
        exact hother (Option.some.inj hb ▸ hmem)
      rw [remaining]
      omega

theorem remaining_valueEnd {filter : StdString} {start : ℕ} {next : Pos}
    (h : valueEnd filter start = .ahead next) : remaining filter next ≤ filter.length - start := by
  rw [valueEnd] at h
  split at h
  · cases h
  · split at h
    · split at h
      · cases h
      · rename_i dq hdq
        obtain rfl := PairEnd.ahead.inj h
        have hle := (findFirstOf_eq_some_iff.mp hdq).1
        exact Nat.sub_le_sub_left (by omega) _
    · obtain rfl := PairEnd.ahead.inj h
      exact remaining_findFirstOf _ _ _

theorem remaining_pairEnd {filter : StdString} {position : ℕ} {next : Pos}
    (hlt : position < filter.length) (h : pairEnd filter position = .ahead next) :
    remaining filter next < filter.length - position := by
  rw [pairEnd] at h
  cases hsign : findFirstOf filter (str "!=") position with
  | none => simp [hsign] at h
  | some sign =>
      rw [hsign] at h
      have hle := (findFirstOf_eq_some_iff.mp hsign).1
      have hnext := remaining_valueEnd h
      split at hnext <;> omega

theorem valueEnd_back {filter : StdString} {start : ℕ} {next : Pos}
    (h : valueEnd filter start = .back next) : next = some 0 := by
  rw [valueEnd] at h
  split at h
  · cases h
  · split at h
    · split at h
      · exact (PairEnd.back.inj h).symm
      · cases h
    · cases h

/-- A jump back leads to one of two places. -/
theorem pairEnd_back {filter : StdString} {position : ℕ} {next : Pos}
    (h : pairEnd filter position = .back next) :
    next = some 0 ∨ next = firstValueEnd filter := by
  rw [pairEnd] at h
  cases hsign : findFirstOf filter (str "!=") position with
  | none =>
      rw [hsign] at h
      exact Or.inr (PairEnd.back.inj h).symm
  | some sign =>
      rw [hsign] at h
      exact Or.inl (valueEnd_back h)

theorem subfilterLength_lt {string : Bool} {level length : ℕ} {s : StdString}
    (h : subfilterLength string level s = some length) : length < s.length := by
  induction s generalizing string level length with
  | nil => simp [subfilterLength] at h
  | cons c rest ih =>
      have hmore : ∀ {string level}, (subfilterLength string level rest).map (· + 1) = some length →
          length < (c :: rest).length := by
        intro string level hmap
        obtain ⟨k, hk, rfl⟩ := Option.map_eq_some_iff.mp hmap
        exact Nat.succ_lt_succ (ih hk)
      rw [subfilterLength] at h
      split at h
      · split at h
        · obtain rfl := Option.some.inj h
          exact Nat.succ_pos _
        · exact hmore h
      · split at h
        · exact hmore h
        · split at h
          · exact hmore h
          · exact hmore h

theorem length_retrieveSubfilter {input temp : StdString}
    (h : retrieveSubfilter input = some temp) : temp.length < input.length := by
  obtain ⟨length, hlength, rfl⟩ := Option.map_eq_some_iff.mp h
  have hlt := subfilterLength_lt hlength
  rw [List.length_take]
  omega

/-! ## The loop follows the scan -/

/-- What a reading of the text says about the loop at a state. -/
def Meets (m : Meta) (s : LoopState) : Reading → Prop
  | .finished => ∃ v, Answers (eval m) s (.ok v)
  | .failed => ∃ e, Answers (eval m) s (.error e)
  | .back position => ∃ rc, Leads (eval m) s (s.1, position, [], rc)
  | .endless => ∀ n, eval m n s = none

section Follow

variable {m : Meta} {filter : StdString} {position : ℕ} {c : UInt8} {operation : StdString}
  {rc : Bool}

theorem Meets.of_leads {s t : LoopState} (h : Leads (eval m) s t) (hfilter : t.1 = s.1)
    {reading : Reading} (ht : Meets m t reading) : Meets m s reading := by
  cases reading with
  | finished =>
      obtain ⟨v, hv⟩ := ht
      exact ⟨v, h.backward _ hv⟩
  | failed =>
      obtain ⟨e, he⟩ := ht
      exact ⟨e, h.backward _ he⟩
  | back position =>
      obtain ⟨rc, hrc⟩ := ht
      rw [hfilter] at hrc
      exact ⟨rc, h.trans hrc⟩
  | endless => exact h.eq_none ht

theorem leads_of_eval {s t : LoopState} (h : ∀ n, eval m (n + 1) s = eval m n t) :
    Leads (eval m) s t :=
  .of_step rfl h

/-- A sub-filter with a value is passed like a single token. -/
theorem leads_group {temp : StdString} (hc : filter[position]? = some (ch '('))
    (hsub : retrieveSubfilter (filter.drop (position + 1)) = some temp) {v next : Bool}
    (hinner : Answers (eval m) (temp, some 0, [], false) (.ok v))
    (hcombine : combine operation rc v = .ok next) :
    Leads (eval m) (filter, some position, operation, rc)
      (filter, some (position + (temp.length + 2)), [], next) where
  onward n r hn := by
    cases n with
    | zero => simp [eval, filterLoop] at hn
    | succ n =>
        rw [eval_group hc hsub] at hn
        obtain ⟨value, hvalue, hrest⟩ := Option.bind_eq_some_iff.mp hn
        obtain ⟨k, hk⟩ := hinner
        obtain rfl := (eval_stable m).answer_unique hk hvalue
        rw [resume, hcombine] at hrest
        exact ⟨n, Nat.lt_succ_self n, hrest⟩
  backward r hr := by
    obtain ⟨k, hk⟩ := hinner
    obtain ⟨n, hn⟩ := hr
    refine ⟨max k n + 1, ?_⟩
    rw [eval_group hc hsub, (eval_stable m).of_le (Nat.le_max_left k n) hk, Option.bind_some,
      resume, hcombine]
    exact (eval_stable m).of_le (Nat.le_max_right k n) hn

/-- The group at a position, given how its sub-filter is read. -/
theorem meets_group {temp : StdString} (hc : filter[position]? = some (ch '('))
    (hsub : retrieveSubfilter (filter.drop (position + 1)) = some temp) {inner rest : Reading}
    (hback : ∀ p, inner ≠ .back p) (hinner : Meets m (temp, some 0, [], false) inner)
    (hrest : ∀ rc, Meets m (filter, some (position + (temp.length + 2)), [], rc) rest) :
    Meets m (filter, some position, operation, rc) (match inner with
      | .finished => if known operation then rest else .failed
      | other => other) := by
  cases inner with
  | finished =>
      obtain ⟨v, hv⟩ := hinner
      cases hknown : known operation with
      | true =>
          obtain ⟨next, hcombine⟩ := combine_known hknown rc v
          exact .of_leads (leads_group hc hsub hv hcombine) rfl (hrest next)
      | false =>
          obtain ⟨k, hk⟩ := hv
          refine ⟨.unknownOperation operation, k + 1, ?_⟩
          rw [eval_group hc hsub, hk, Option.bind_some, resume, combine_unknown hknown]
          rfl
  | failed =>
      obtain ⟨e, k, hk⟩ := hinner
      refine ⟨e, k + 1, ?_⟩
      rw [eval_group hc hsub, hk]
      rfl
  | back p => exact absurd rfl (hback p)
  | endless =>
      intro n
      cases n with
      | zero => rfl
      | succ n =>
          rw [eval_group hc hsub, hinner n]
          rfl

/-- The pair at a position. -/
theorem meets_pair (hc : filter[position]? = some c) (hpair : StartsPair c) {rest : Pos → Reading}
    (hrest : ∀ next, pairEnd filter position = .ahead next → ∀ rc,
      Meets m (filter, next, [], rc) (rest next)) :
    Meets m (filter, some position, operation, rc) (match pairEnd filter position with
      | .outOfRange => .failed
      | .ahead next => if known operation then rest next else .failed
      | .back next => if known operation then .back next else .failed) := by
  have hknown : ∀ next, (pairEnd filter position).position = .ok next →
      known operation = true → ∃ rc', Leads (eval m) (filter, some position, operation, rc)
        (filter, next, [], rc') := by
    intro next hend hknown
    obtain ⟨curRc, hstep⟩ := eval_pair (m := m) hc hpair hend
    obtain ⟨rc', hcombine⟩ := combine_known hknown rc curRc
    refine ⟨rc', leads_of_eval fun n => ?_⟩
    rw [hstep, hcombine]
    rfl
  have hunknown : ∀ next, (pairEnd filter position).position = .ok next →
      known operation = false → Meets m (filter, some position, operation, rc) .failed := by
    intro next hend hknown
    obtain ⟨curRc, hstep⟩ := eval_pair (m := m) hc hpair hend
    refine ⟨.unknownOperation operation, 1, ?_⟩
    rw [hstep, combine_unknown hknown]
    rfl
  cases hend : pairEnd filter position with
  | outOfRange =>
      refine ⟨.outOfRange, 1, eval_pair_error hc hpair ?_ 0 operation rc⟩
      rw [hend]
      rfl
  | ahead next =>
      cases hop : known operation with
      | true =>
          obtain ⟨rc', hleads⟩ := hknown next (by rw [hend]; rfl) hop
          exact .of_leads hleads rfl (hrest next hend rc')
      | false => exact hunknown next (by rw [hend]; rfl) hop
  | back next =>
      cases hop : known operation with
      | true => exact hknown next (by rw [hend]; rfl) hop
      | false => exact hunknown next (by rw [hend]; rfl) hop

end Follow

theorem readWithin_ne_back (n : ℕ) (filter : StdString) (position : Pos) :
    readWithin n filter ≠ .back position := by
  cases n with
  | zero => simp [readWithin]
  | succ n =>
      rw [readWithin]
      split
      · split
        · simp
        · rename_i h
          exact h position
      · rename_i h
        exact h position

theorem scan_back {n : ℕ} {filter operation : StdString} {start next : Pos}
    (h : scan n filter start operation = .back next) :
    next = some 0 ∨ next = firstValueEnd filter := by
  induction n generalizing start operation with
  | zero => simp [scan] at h
  | succ n ih =>
      cases start with
      | none => simp [scan] at h
      | some position =>
          rw [scan] at h
          split at h
          · cases h
          · split at h
            · exact ih h
            · split at h
              · split at h
                · cases h
                · split at h
                  · split at h
                    · exact ih h
                    · cases h
                  · exact absurd h (readWithin_ne_back n _ next)
              · split at h
                · exact ih h
                · split at h
                  · cases h
                  · split at h
                    · exact ih h
                    · cases h
                  · rename_i hend
                    split at h
                    · obtain rfl := Reading.back.inj h
                      exact pairEnd_back hend
                    · cases h

/-- Going back a second time is going back for ever. -/
theorem eval_eq_none_of_back {m : Meta} {filter : StdString} {n : ℕ} {first second : Pos}
    (hfirst : scan n filter (some 0) [] = .back first)
    (hsecond : scan n filter first [] = .back second)
    (hmeets : ∀ position rc, Meets m (filter, position, [], rc) (scan n filter position []))
    (rc : Bool) (fuel : ℕ) :
    eval m fuel (filter, some 0, [], rc) = none := by
  have hkind : second = some 0 ∨ second = first := by
    rcases scan_back hfirst with rfl | rfl
    · exact Or.inl (Reading.back.inj (hsecond.symm.trans hfirst))
    · exact scan_back hsecond
  refine eq_none_of_leads (P := fun s => ∃ rc, s = (filter, some 0, [], rc) ∨
    s = (filter, first, [], rc)) ?_ fuel _ ⟨rc, Or.inl rfl⟩
  intro s hs
  obtain ⟨rc, rfl | rfl⟩ := hs
  · have hleads := hmeets (some 0) rc
    rw [hfirst] at hleads
    obtain ⟨rc', hleads⟩ := hleads
    exact ⟨_, ⟨rc', Or.inr rfl⟩, hleads⟩
  · have hleads := hmeets first rc
    rw [hsecond] at hleads
    obtain ⟨rc', hleads⟩ := hleads
    rcases hkind with rfl | rfl
    · exact ⟨_, ⟨rc', Or.inl rfl⟩, hleads⟩
    · exact ⟨_, ⟨rc', Or.inr rfl⟩, hleads⟩

/-- A whole filter, given how it is read from any position. -/
theorem meets_readWithin {m : Meta} {filter : StdString} {n : ℕ}
    (hmeets : ∀ position rc, Meets m (filter, position, [], rc) (scan n filter position []))
    (rc : Bool) : Meets m (filter, some 0, [], rc) (readWithin (n + 1) filter) := by
  have hstart := hmeets (some 0) rc
  rw [readWithin]
  cases hfirst : scan n filter (some 0) [] with
  | back first =>
      rw [hfirst] at hstart
      obtain ⟨rc', hleads⟩ := hstart
      have hagain := hmeets first rc'
      simp only
      cases hsecond : scan n filter first [] with
      | back second => exact eval_eq_none_of_back hfirst hsecond hmeets rc
      | finished =>
          rw [hsecond] at hagain
          exact .of_leads hleads rfl hagain
      | failed =>
          rw [hsecond] at hagain
          exact .of_leads hleads rfl hagain
      | endless =>
          rw [hsecond] at hagain
          exact .of_leads hleads rfl hagain
  | finished =>
      rw [hfirst] at hstart
      exact hstart
  | failed =>
      rw [hfirst] at hstart
      exact hstart
  | endless =>
      rw [hfirst] at hstart
      exact hstart

/-- With enough fuel for the scan, the loop does from every state what the scan says, and
so does a whole filter. -/
theorem meets_scan (m : Meta) (n : ℕ) :
    (∀ filter position operation rc, 2 * remaining filter position + 1 ≤ n →
      Meets m (filter, position, operation, rc) (scan n filter position operation)) ∧
    (∀ filter rc, 2 * filter.length + 2 ≤ n →
      Meets m (filter, some 0, [], rc) (readWithin n filter)) := by
  induction n with
  | zero =>
      refine ⟨?_, ?_⟩
      · intro _ _ _ _ h
        omega
      · intro _ _ h
        omega
  | succ n ih =>
      obtain ⟨ihscan, ihread⟩ := ih
      refine ⟨?_, ?_⟩
      · intro filter position operation rc hn
        cases position with
        | none => exact ⟨rc, 1, rfl⟩
        | some position =>
            rw [remaining] at hn
            cases hc : filter[position]? with
            | none =>
                simp only [scan, hc]
                exact ⟨rc, 1, eval_end hc 0 operation rc⟩
            | some c =>
                obtain ⟨hlt, _⟩ := List.getElem?_eq_some_iff.mp hc
                simp only [scan, hc]
                by_cases hspace : c = ch ' '
                · subst hspace
                  rw [if_pos rfl]
                  refine .of_leads (leads_of_eval fun k => eval_space hc k operation rc) rfl ?_
                  exact ihscan _ _ _ _ (by rw [remaining]; omega)
                rw [if_neg hspace]
                by_cases hopen : c = ch '('
                · subst hopen
                  rw [if_pos rfl]
                  cases hsub : retrieveSubfilter (filter.drop (position + 1)) with
                  | none =>
                      exact ⟨.endOfSubFilterNotFound, 1, eval_unmatched hc hsub 0 operation rc⟩
                  | some temp =>
                      have hlength := length_retrieveSubfilter hsub
                      rw [List.length_drop] at hlength
                      refine meets_group hc hsub (readWithin_ne_back n temp) ?_ ?_
                      · exact ihread temp false (by omega)
                      · intro rc
                        exact ihscan _ _ _ _ (by rw [remaining]; omega)
                rw [if_neg hopen]
                by_cases hoperator : c = ch '&' ∨ c = ch '|'
                · rw [if_pos hoperator]
                  refine .of_leads
                    (leads_of_eval fun k => eval_operator hc hoperator k operation rc) rfl ?_
                  have hother : c ∉ str " " := fun hmem => hspace (List.mem_singleton.mp hmem)
                  have hless := remaining_findFirstOf_lt hc hother
                  exact ihscan _ _ _ _ (by omega)
                rw [if_neg hoperator]
                refine meets_pair hc ⟨hspace, hopen, hoperator⟩ ?_
                intro next hend rc
                have hless := remaining_pairEnd hlt hend
                exact ihscan _ _ _ _ (by omega)
      · intro filter rc hn
        have hmeets : ∀ position rc,
            Meets m (filter, position, [], rc) (scan n filter position []) := by
          intro position rc
          have hle := remaining_le filter position
          exact ihscan _ _ _ _ (by omega)
        exact meets_readWithin hmeets rc

/-- What the reading of a filter says about its execution. -/
theorem meets_reading (filter : StdString) (m : Meta) :
    Meets m (filter, some 0, [], false) (reading filter) :=
  (meets_scan m _).2 filter false (Nat.le_refl _)

theorem not_executed_of_endless {filter : StdString} (h : reading filter = .endless) (m : Meta) :
    ¬ ∃ fuel result, executeFilter fuel filter true m = some result := by
  intro hexecuted
  obtain ⟨fuel, result, hresult⟩ := hexecuted
  have hmeets := meets_reading filter m
  rw [h] at hmeets
  have hnone : executeFilter fuel filter true m = none := hmeets fuel
  rw [hnone] at hresult
  cases hresult

/-- With missing fields ignored, the execution of a filter comes to a value or an error
exactly when the filter can be read to an end. -/
theorem executed_iff (filter : StdString) (m : Meta) :
    (∃ fuel result, executeFilter fuel filter true m = some result) ↔
      reading filter ≠ .endless := by
  constructor
  · intro hexecuted hendless
    exact not_executed_of_endless hendless m hexecuted
  · intro hreading
    have hmeets := meets_reading filter m
    cases h : reading filter with
    | finished =>
        rw [h] at hmeets
        obtain ⟨v, fuel, hv⟩ := hmeets
        exact ⟨fuel, _, hv⟩
    | failed =>
        rw [h] at hmeets
        obtain ⟨e, fuel, he⟩ := hmeets
        exact ⟨fuel, _, he⟩
    | back position => exact absurd h (readWithin_ne_back _ _ _)
    | endless => exact absurd h hreading

/-- A closing quote is missing. -/
theorem not_executed_unclosed :
    ¬ ∃ fuel result, executeFilter fuel (str "from=\"PD9FVH") true ∅ = some result :=
  not_executed_of_endless (by decide) ∅

end HamRouter.Filter
