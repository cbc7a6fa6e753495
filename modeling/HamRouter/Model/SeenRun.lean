import HamRouter.Library.Transition
import HamRouter.Program.Seen
import Mathlib.Logic.Function.Basic

/-! # Runs of a `seen`

Checks by any threads and passes of the eviction thread, each under `history_lock`, in any
order. -/

namespace HamRouter.Seen

/-- A check, or a pass of the thread that goes by this vector. -/
inductive Event where
  | check (call : Call)
  | evict (vector : List (UInt32 × ℤ))

/-- A history, how many checks of each checksum were accepted, and how often its limiter was
thrown away. -/
structure Counted where
  history : History
  accepted : UInt32 → ℕ
  evicted : UInt32 → ℕ

def Counted.initial : Counted := ⟨∅, fun _ => 0, fun _ => 0⟩

/-- `check` of a content, with what it returns. -/
def Counted.check (pars : SeenPars) (s : Counted) (call : Call) : Counted × (Bool × UInt32) :=
  let checked := Seen.check pars s.history call.p call.nowTs
  let accepted := if checked.2.1 then
    Function.update s.accepted checked.2.2 (s.accepted checked.2.2 + 1) else s.accepted
  (⟨checked.1, accepted, s.evicted⟩, checked.2)

/-- A pass, unless it throws. -/
def Counted.evict (pars : SeenPars) (s : Counted) (vector : List (UInt32 × ℤ)) : Option Counted :=
  (Seen.evict pars s.history vector).map fun history =>
    ⟨history, s.accepted, fun hash =>
      if hash ∈ s.history ∧ hash ∉ history then s.evicted hash + 1 else s.evicted hash⟩

def step (pars : SeenPars) (s : Counted) : Event → Option Counted
  | .check call => some (s.check pars call).1
  | .evict vector => s.evict pars vector

/-- The readings of the clock at the checks of a checksum. -/
def readings (hash : UInt32) : List Event → List ℚ
  | [] => []
  | .check call :: rest =>
      if calcCrc32 call.p = hash then call.nowTs :: readings hash rest else readings hash rest
  | .evict _ :: rest => readings hash rest

/-- What the checks of one content return. -/
def answersTo (pars : SeenPars) (p : List UInt8) : History → List Call → List (Bool × UInt32)
  | _, [] => []
  | history, call :: rest =>
      let checked := Seen.check pars history call.p call.nowTs
      if call.p = p then checked.2 :: answersTo pars p checked.1 rest
      else answersTo pars p checked.1 rest

end HamRouter.Seen
