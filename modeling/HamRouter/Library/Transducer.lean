import Mathlib.Data.List.Basic

/-! # Transducers

A state machine that reads one symbol at a time and may answer to each. -/

namespace Transducer

variable {σ α ω : Type*} (step : σ → α → σ × List ω)

/-- The last state, and all answers in order. -/
def feed : σ → List α → σ × List ω
  | s, [] => (s, [])
  | s, a :: rest =>
      let next := step s a
      let last := feed next.1 rest
      (last.1, next.2 ++ last.2)

@[simp] theorem feed_nil (s : σ) : feed step s [] = (s, []) := rfl

theorem feed_cons (s : σ) (a : α) (rest : List α) :
    feed step s (a :: rest) =
      ((feed step (step s a).1 rest).1, (step s a).2 ++ (feed step (step s a).1 rest).2) := rfl

theorem feed_cons_of_step {s t : σ} {a : α} {answers : List ω} (h : step s a = (t, answers))
    (rest : List α) :
    feed step s (a :: rest) = ((feed step t rest).1, answers ++ (feed step t rest).2) := by
  rw [feed_cons, h]

theorem feed_append (s : σ) (xs ys : List α) :
    feed step s (xs ++ ys) =
      ((feed step (feed step s xs).1 ys).1,
        (feed step s xs).2 ++ (feed step (feed step s xs).1 ys).2) := by
  induction xs generalizing s with
  | nil => simp
  | cons a rest ih => simp only [List.cons_append, feed_cons, ih, List.append_assoc]

end Transducer
