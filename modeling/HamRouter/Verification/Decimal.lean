import HamRouter.Program.Str
import Mathlib.Data.Nat.Digits.Lemmas

/-! # Printing and reading decimal numbers -/

namespace HamRouter

/-- The text behind a number does not go on with a digit. -/
def NoDigit (rest : StdString) : Prop := ∀ c ∈ rest.head?, isDigit c = false

theorem digit_char {d : ℕ} (h : d < 10) :
    isDigit (ch '0' + UInt8.ofNat d) = true ∧
      (ch '0' + UInt8.ofNat d - ch '0').toNat = d ∧ isSpace (ch '0' + UInt8.ofNat d) = false ∧
      ch '0' + UInt8.ofNat d ≠ ch '-' ∧ ch '0' + UInt8.ofNat d ≠ ch '+' ∧
      ch '0' + UInt8.ofNat d ≠ ch '.' := by
  have hall : ∀ d : Fin 10, isDigit (ch '0' + UInt8.ofNat d) = true ∧
      (ch '0' + UInt8.ofNat d - ch '0').toNat = d ∧ isSpace (ch '0' + UInt8.ofNat d) = false ∧
      ch '0' + UInt8.ofNat d ≠ ch '-' ∧ ch '0' + UInt8.ofNat d ≠ ch '+' ∧
      ch '0' + UInt8.ofNat d ≠ ch '.' := by decide
  exact hall ⟨d, h⟩

theorem decimal_eq (n : ℕ) :
    decimal n = ((if n = 0 then [0] else Nat.digits 10 n).map
      fun d => ch '0' + UInt8.ofNat d).reverse := by
  unfold decimal
  split <;> rfl

theorem decimal_digit_lt {n d : ℕ} (h : d ∈ if n = 0 then [0] else Nat.digits 10 n) : d < 10 := by
  split at h
  · obtain rfl := List.mem_singleton.mp h
    decide
  · exact Nat.digits_lt_base (by decide) h

theorem mem_decimal {n : ℕ} {c : UInt8} (h : c ∈ decimal n) :
    ∃ d, d < 10 ∧ c = ch '0' + UInt8.ofNat d := by
  rw [decimal_eq, List.mem_reverse] at h
  obtain ⟨d, hd, rfl⟩ := List.mem_map.mp h
  exact ⟨d, decimal_digit_lt hd, rfl⟩

theorem length_decimal (n : ℕ) : (decimal n).length = max 1 (Nat.digits 10 n).length := by
  rw [decimal_eq, List.length_reverse, List.length_map]
  by_cases hzero : n = 0
  · simp [hzero]
  · have hne : Nat.digits 10 n ≠ [] := Nat.digits_ne_nil_iff_ne_zero.mpr hzero
    have hpos := List.length_pos_of_ne_nil hne
    rw [if_neg hzero]
    exact (Nat.max_eq_right hpos).symm

theorem digitsValue_decimal (n : ℕ) {rest : StdString} (hrest : NoDigit rest) :
    digitsValue (decimal n ++ rest) = n := by
  have hdigits : ∀ c ∈ decimal n, isDigit c = true := by
    intro c hc
    obtain ⟨d, hd, rfl⟩ := mem_decimal hc
    exact (digit_char hd).1
  have hstop : rest.takeWhile isDigit = [] := by
    cases rest with
    | nil => rfl
    | cons c rest => rw [List.takeWhile_cons, hrest c (by simp), if_neg (by simp)]
  have hfold : ∀ ds : List ℕ, (∀ d ∈ ds, d < 10) →
      ((ds.map fun d => ch '0' + UInt8.ofNat d).reverse).foldl
        (fun n c => n * 10 + (c - ch '0').toNat) 0 = Nat.ofDigits 10 ds := by
    intro ds hds
    induction ds with
    | nil => rfl
    | cons d ds ih =>
        have hd := (digit_char (hds d (by simp))).2.1
        rw [List.map_cons, List.reverse_cons, List.foldl_append, ih (fun e he => hds e (by simp [he])),
          Nat.ofDigits_cons, List.foldl_cons, List.foldl_nil, hd]
        omega
  rw [digitsValue, List.takeWhile_append_of_pos hdigits, hstop, List.append_nil, decimal_eq,
    hfold _ (fun d hd => decimal_digit_lt hd)]
  split
  · rename_i hzero
    rw [hzero]
    rfl
  · exact Nat.ofDigits_digits 10 n

/-- `atoll` reads back what `%d` prints. -/
theorem atoll_formatInt {n : ℤ} (hlow : -2 ^ 63 ≤ n) (hhigh : n < 2 ^ 63) {rest : StdString}
    (hrest : NoDigit rest) : atoll (formatInt n ++ rest) = n := by
  unfold formatInt
  split
  · rename_i hneg
    have hvalue := digitsValue_decimal n.natAbs hrest
    have hspace : isSpace (ch '-') = false := by decide
    rw [List.cons_append, atoll, List.dropWhile_cons, hspace]
    simp only [Bool.false_eq_true, if_false, if_true, hvalue]
    omega
  · rename_i hneg
    have hvalue := digitsValue_decimal n.natAbs hrest
    obtain ⟨c, more, hcons⟩ : ∃ c more, decimal n.natAbs = c :: more := by
      apply List.exists_cons_of_ne_nil
      intro hnil
      have hlength := length_decimal n.natAbs
      rw [hnil, List.length_nil] at hlength
      omega
    obtain ⟨d, hd, rfl⟩ := mem_decimal (show c ∈ decimal n.natAbs by simp [hcons])
    obtain ⟨_, _, hspace, hminus, hplus, _⟩ := digit_char hd
    rw [hcons, List.cons_append] at hvalue ⊢
    rw [atoll, List.dropWhile_cons, hspace]
    simp only [Bool.false_eq_true, if_false, hminus, hplus, hvalue]
    omega

theorem dot_not_mem_formatInt (n : ℤ) : ch '.' ∉ formatInt n := by
  have hdecimal : ch '.' ∉ decimal n.natAbs := by
    intro hmem
    obtain ⟨d, hd, hdot⟩ := mem_decimal hmem
    exact (digit_char hd).2.2.2.2.2 hdot.symm
  unfold formatInt
  split
  · intro hmem
    rcases List.mem_cons.mp hmem with hminus | hrest
    · exact absurd hminus (by decide)
    · exact hdecimal hrest
  · exact hdecimal

theorem formatInt_ne_nil (i : ℤ) : formatInt i ≠ [] := by
  have hdecimal : decimal i.natAbs ≠ [] := by
    have hlength := length_decimal i.natAbs
    intro hnil
    rw [hnil, List.length_nil] at hlength
    omega
  unfold formatInt
  split
  · exact List.cons_ne_nil _ _
  · exact hdecimal

theorem decimal_injective {m n : ℕ} (h : decimal m = decimal n) : m = n := by
  have hstop : NoDigit [] := by simp [NoDigit]
  have hm := digitsValue_decimal m hstop
  have hn := digitsValue_decimal n hstop
  rw [List.append_nil] at hm hn
  rw [← hm, h, hn]

theorem minus_not_mem_decimal (n : ℕ) : ch '-' ∉ decimal n := by
  intro hmem
  obtain ⟨d, hd, hminus⟩ := mem_decimal hmem
  exact (digit_char hd).2.2.2.1 hminus.symm

theorem formatInt_injective {i j : ℤ} (h : formatInt i = formatInt j) : i = j := by
  unfold formatInt at h
  split at h
  · split at h
    · have habs := decimal_injective (List.cons.inj h).2
      omega
    · exact absurd (h ▸ List.mem_cons_self) (minus_not_mem_decimal j.natAbs)
  · split at h
    · exact absurd (h ▸ List.mem_cons_self) (minus_not_mem_decimal i.natAbs)
    · have habs := decimal_injective h
      omega

/-- Numbers of 32 bits are read back by `atoi`. -/
theorem atoi_formatInt {i : ℤ} (hlow : -2147483648 ≤ i) (hhigh : i < 2147483648) :
    atoi (formatInt i) = i := by
  have hvalue := atoll_formatInt (show -2 ^ 63 ≤ i by omega) (show i < 2 ^ 63 by omega)
    (show NoDigit [] by simp [NoDigit])
  rw [List.append_nil] at hvalue
  rw [atoi, hvalue]
  exact Int.bmod_eq_of_le (by omega) (by omega)

end HamRouter
