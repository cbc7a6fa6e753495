import HamRouter.Program.Switchboard
import Mathlib.Logic.Function.Basic

/-! # The queues between the tranceivers and the main thread

`queue_incoming_message` of `tranceiver.cpp` and `process` of `main.cpp`, cut at their
locks. `τ` are the tranceivers, `π` the producing threads and `μ` the messages. -/

namespace HamRouter.WorkQueue

/-- Where a thread is in `queue_incoming_message`: not in it, in front of
`incoming.push`, or between that and `work_list.push`. -/
inductive Producer (τ μ : Type*) where
  | outside
  | called (t : τ) (m : μ)
  | pushed (t : τ) (m : μ)

/-- Where the main thread is in its loop. The last two are the failures of
`assert(t_has_work->peek())` and of `m.value()` on an empty optional. -/
inductive Consumer (τ μ : Type*) where
  | waiting
  | popped (t : τ)
  | peeked (t : τ)
  | forwarding (t : τ) (m : μ)
  | finished
  | assertFailed (t : τ)
  | badOptionalAccess (t : τ)

/-- The two queues, the threads, and three histories: the messages pushed to `incoming`,
those whose call returned `TE_ok`, and those `get_message` handed out. -/
structure State (τ π μ : Type*) where
  incoming : τ → List μ
  workList : List τ
  producer : π → Producer τ μ
  consumer : Consumer τ μ
  accepted : τ → List μ
  confirmed : τ → List μ
  taken : τ → List μ

def State.initial {τ π μ : Type*} : State τ π μ where
  incoming _ := []
  workList := []
  producer _ := .outside
  consumer := .waiting
  accepted _ := []
  confirmed _ := []
  taken _ := []

/-- `peek()`. -/
def peek {τ π μ : Type*} (s : State τ π μ) (t : τ) : Bool := !(s.incoming t).isEmpty

/-- `get_message()`: the oldest message, or nothing once the wait times out. -/
def getMessage {τ π μ : Type*} (s : State τ π μ) (t : τ) : Option μ := (s.incoming t).head?

/-- One lock-protected step of one thread. -/
inductive Action (τ π μ : Type*) where
  | call (p : π) (t : τ) (m : μ)
  | rateLimited (p : π)
  | pushIncoming (p : π)
  | pushWork (p : π)
  | popWork
  | terminate
  | peek
  | getMessage
  | forwarded

/-- What the call of a thread returns in this step, if it returns. -/
def Action.returns {τ π μ : Type*} : Action τ π μ → Option TransmitError
  | .rateLimited _ => some .ratelimiting
  | .pushWork _ => some .ok
  | _ => none

/-- `q[t].push(m)`. -/
def push {τ μ : Type*} [DecidableEq τ] (q : τ → List μ) (t : τ) (m : μ) : τ → List μ :=
  Function.update q t (q t ++ [m])

/-- The steps. The verdict of the rate limiter is left open: a call may go on to
`pushIncoming` or end in `rateLimited`. -/
def step {τ π μ : Type*} [DecidableEq τ] [DecidableEq π] (s : State τ π μ) :
    Action τ π μ → Option (State τ π μ)
  | .call p t m =>
      match s.producer p with
      | .outside => some { s with producer := Function.update s.producer p (.called t m) }
      | _ => none
  | .rateLimited p =>
      match s.producer p with
      | .called _ _ => some { s with producer := Function.update s.producer p .outside }
      | _ => none
  | .pushIncoming p =>
      match s.producer p with
      | .called t m =>
          some { s with
            incoming := push s.incoming t m
            accepted := push s.accepted t m
            producer := Function.update s.producer p (.pushed t m) }
      | _ => none
  | .pushWork p =>
      match s.producer p with
      | .pushed t m =>
          some { s with
            workList := s.workList ++ [t]
            confirmed := push s.confirmed t m
            producer := Function.update s.producer p .outside }
      | _ => none
  | .popWork =>
      match s.consumer, s.workList with
      | .waiting, t :: rest => some { s with workList := rest, consumer := .popped t }
      | _, _ => none
  | .terminate =>
      match s.consumer with
      | .waiting => some { s with consumer := .finished }
      | _ => none
  | .peek =>
      match s.consumer with
      | .popped t =>
          some { s with consumer := if peek s t then .peeked t else .assertFailed t }
      | _ => none
  | .getMessage =>
      match s.consumer with
      | .peeked t =>
          match getMessage s t with
          | some m =>
              some { s with
                incoming := Function.update s.incoming t (s.incoming t).tail
                taken := push s.taken t m
                consumer := .forwarding t m }
          | none => some { s with consumer := .badOptionalAccess t }
      | _ => none
  | .forwarded =>
      match s.consumer with
      | .forwarding _ _ => some { s with consumer := .waiting }
      | _ => none

end HamRouter.WorkQueue
