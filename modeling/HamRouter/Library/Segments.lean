import Mathlib.Data.List.Infix
import Mathlib.Data.List.TakeWhile

/-! # The segments of a stream

A stream cut at a terminator. What follows the last terminator is not a segment yet. -/

namespace Segments

variable {α : Type*} {terminator : α}

/-- A prefix ends within the first segment, or goes on into the rest. -/
theorem prefix_segment {segment rest front : List α}
    (h : front <+: segment ++ terminator :: rest) :
    front <+: segment ∨ ∃ more, more <+: rest ∧ front = segment ++ terminator :: more := by
  rcases List.prefix_or_prefix_of_prefix h (List.prefix_append _ _) with hshort | ⟨tail, rfl⟩
  · exact Or.inl hshort
  · rw [List.prefix_append_right_inj] at h
    cases tail with
    | nil => exact Or.inl (by simp)
    | cons b more =>
        rw [List.cons_prefix_cons] at h
        exact Or.inr ⟨more, h.2, by rw [h.1]⟩

section

variable [DecidableEq α]

variable (terminator) in
def terminated (stream : List α) : List (List α) := (stream.splitOn terminator).dropLast

theorem terminated_of_not_mem {stream : List α} (h : terminator ∉ stream) :
    terminated terminator stream = [] := by
  rw [terminated, List.splitOn_eq_singleton h, List.dropLast_singleton]

theorem terminated_append_cons {segment : List α} (h : terminator ∉ segment) (rest : List α) :
    terminated terminator (segment ++ terminator :: rest) =
      segment :: terminated terminator rest := by
  rw [terminated, List.splitOn_append_cons_self_of_not_mem h,
    List.dropLast_cons_of_ne_nil (List.splitOn_ne_nil _ _), terminated]

variable (terminator) in
/-- Every stream is a last, open segment, or starts with a terminated one. -/
theorem segment_induction {P : List α → Prop} (stream : List α)
    (last : ∀ segment, terminator ∉ segment → P segment)
    (next : ∀ segment rest, terminator ∉ segment → P rest → P (segment ++ terminator :: rest)) :
    P stream := by
  induction h : stream.length using Nat.strong_induction_on generalizing stream with
  | _ n ih =>
      by_cases hmem : terminator ∈ stream
      · obtain ⟨segment, rest, rfl, hsegment⟩ := List.eq_append_cons_of_mem hmem
        apply next segment rest hsegment
        apply ih rest.length _ rest rfl
        simp only [List.length_append, List.length_cons] at h
        omega
      · exact last stream hmem

end

end Segments
