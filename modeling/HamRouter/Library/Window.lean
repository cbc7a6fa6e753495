import Mathlib.Data.List.Basic

/-! # Windows of a list

A list cut at two of its positions, and the elements behind the first of them up to the
second. -/

namespace Window

variable {α : Type*}

/-- Two positions of a list cut it in five. -/
theorem exists_window {xs : List α} {i j : ℕ} {a b : α} (hij : i < j)
    (ha : xs[i]? = some a) (hb : xs[j]? = some b) :
    ∃ earlier between rest, xs = earlier ++ a :: (between ++ b :: rest) ∧
      earlier.length = i ∧ i + 1 + between.length = j := by
  obtain ⟨hi, rfl⟩ := List.getElem?_eq_some_iff.mp ha
  obtain ⟨hj, rfl⟩ := List.getElem?_eq_some_iff.mp hb
  refine ⟨xs.take i, (xs.take j).drop (i + 1), xs.drop (j + 1), ?_, ?_, ?_⟩
  · have htail : (xs.take j).drop (i + 1) ++ xs[j] :: xs.drop (j + 1) = xs.drop (i + 1) := by
      rw [← List.drop_eq_getElem_cons hj, ← List.drop_append_of_le_length (by simp; omega),
        List.take_append_drop]
    rw [htail, ← List.drop_eq_getElem_cons hi, List.take_append_drop]
  · exact List.length_take_of_le (Nat.le_of_lt hi)
  · rw [List.length_drop, List.length_take_of_le (Nat.le_of_lt hj)]
    omega

/-- The elements behind the first position and up to the second. -/
theorem drop_take_window (earlier : List α) (a : α) (between : List α) (b : α) (rest : List α) :
    ((earlier ++ a :: (between ++ b :: rest)).take
      (earlier.length + 1 + between.length + 1)).drop (earlier.length + 1) = between ++ [b] := by
  have hcut : earlier ++ a :: (between ++ b :: rest) =
      (earlier ++ [a]) ++ ((between ++ [b]) ++ rest) := by simp
  have hearlier : (earlier ++ [a]).length = earlier.length + 1 := by simp
  have hlength : earlier.length + 1 + between.length + 1 =
      (earlier ++ [a]).length + (between ++ [b]).length := by
    simp
    omega
  rw [hcut, hlength, List.take_length_add_append, ← hearlier, List.drop_left, List.take_left]

/-- The element at the first position. -/
theorem getElem?_first (earlier : List α) (a : α) (behind : List α) :
    (earlier ++ a :: behind)[earlier.length]? = some a := by
  rw [List.getElem?_append_right (Nat.le_refl _), Nat.sub_self, List.getElem?_cons_zero]

/-- The element at the second position. -/
theorem getElem?_last (earlier : List α) (a : α) (between : List α) (b : α) (rest : List α) :
    (earlier ++ a :: (between ++ b :: rest))[earlier.length + 1 + between.length]? = some b := by
  rw [Nat.add_assoc, List.getElem?_append_right (Nat.le_add_right _ _), Nat.add_sub_cancel_left,
    Nat.add_comm, List.getElem?_cons_succ]
  exact getElem?_first between b rest

end Window
