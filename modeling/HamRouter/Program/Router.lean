import HamRouter.Library.Transition
import HamRouter.Model.SeenRun
import HamRouter.Program.Tranceiver
import HamRouter.Program.WorkQueue

/-! # The whole router

The threads of the tranceivers in `queue_incoming_message`, the loop of `process` in
`main.cpp` with the global repetition filter and the switchboard behind it, and the eviction
threads of all limiters, in any interleaving. -/

namespace HamRouter.Router

open Tranceiver

/-- Where a `seen` is: the `s` of a tranceiver, or `global_repetition_filter`. -/
inductive Site (τ : Type*) where
  | tranceiver (t : τ)
  | main
deriving DecidableEq

/-- What a configuration leaves behind: the limiters, the tables, and the calls that the
switchboard makes on its way to `put_message`. -/
structure Config (ρ τ : Type*) where
  seen : Site τ → Option SeenPars
  sb : Switchboard.Tables ρ τ
  regexec : ρ → StdString → ℤ
  executeFilter : StdString → Bool → Message τ → Bool

/-- The switchboard's calls when the attempts end like this. -/
def Config.env {ρ τ : Type*} (cfg : Config ρ τ) (outcome : List τ → τ → TransmitError) :
    Switchboard.Env ρ τ :=
  ⟨cfg.regexec, cfg.executeFilter, outcome⟩

/-- A message that `process` was done with, and whether the filter let it through. -/
structure Handled (τ : Type*) where
  from_ : τ
  m : Message τ
  ok : Bool

/-- The queues, the limiters, and two histories: the messages handled, and the calls of
`put_message` of a tranceiver. -/
structure State (τ π : Type*) where
  queues : WorkQueue.State τ π (Message τ)
  seen : Site τ → Seen.Counted
  handled : List (Handled τ)
  puts : List (τ × Message τ)

def State.initial {τ π : Type*} : State τ π where
  queues := .initial
  seen _ := .initial
  handled := []
  puts := []

/-- A packet that came in through `t`, with the world around it at that moment. -/
structure Reception (τ : Type*) where
  t : τ
  content : List UInt8
  metadata : Meta
  beyond : ℕ → UInt8
  distance : ℚ → ℚ → Option StdString
  nowTs : ℚ

/-- `check` of a `seen` that may not be there, and its verdict. -/
def check (s : Option SeenPars) (counted : Seen.Counted) (call : Seen.Call) :
    Seen.Counted × Bool :=
  match s with
  | none => (counted, true)
  | some pars => ((counted.check pars call).1, (counted.check pars call).2.1)

section Steps

variable {ρ τ π : Type*} [DecidableEq τ] [DecidableEq π] (cfg : Config ρ τ) (s : State τ π)

/-- What `queue_incoming_message` makes of a packet. -/
def Reception.queued (r : Reception τ) : Seen.History × Option (Message τ) × TransmitError :=
  queueIncomingMessage ⟨cfg.seen (.tranceiver r.t), r.beyond, r.distance⟩
    (s.seen (.tranceiver r.t)).history ⟨some r.t, r.content, r.metadata⟩ r.nowTs

/-- `queue_incoming_message` up to its queues. A refused message enters none of them. -/
def receive (p : π) (r : Reception τ) : Option (State τ π) :=
  let (history, queued, _) := r.queued cfg s
  let site := Site.tranceiver r.t
  let checked := (check (cfg.seen site) (s.seen site) ⟨r.content, r.nowTs⟩).1
  let seen := Function.update s.seen site { checked with history := history }
  match queued with
  | some copy =>
      (WorkQueue.step s.queues (.call p r.t copy)).map fun queues =>
        { s with queues := queues, seen := seen }
  | none =>
      (Transition.run WorkQueue.step
        [.call p r.t ⟨some r.t, r.content, r.metadata⟩, .rateLimited p] s.queues).map
          fun queues => { s with queues := queues, seen := seen }

/-- What `process` does with the message it got. -/
def process (nowTs : ℚ) (outcome : List τ → τ → TransmitError) : Option (State τ π) :=
  match s.queues.consumer with
  | .forwarding t m =>
      let (checked, ok) := check (cfg.seen .main) (s.seen .main) ⟨m.content, nowTs⟩
      let attempts := if ok then (Switchboard.putMessage (cfg.env outcome) cfg.sb t m true).1
        else []
      (WorkQueue.step s.queues .forwarded).map fun queues =>
        { queues := queues
          seen := Function.update s.seen .main checked
          handled := s.handled ++ [⟨t, m, ok⟩]
          puts := s.puts ++ attempts.map (·, m) }
  | _ => none

/-- A step that is one of the queues alone. -/
def onQueues (a : WorkQueue.Action τ π (Message τ)) : Option (State τ π) :=
  (WorkQueue.step s.queues a).map fun queues => { s with queues := queues }

/-- A step of a `seen`, if there is one. -/
def onSeen (site : Site τ) (event : Seen.Event) : Option (State τ π) :=
  (cfg.seen site).bind fun pars =>
    (Seen.step pars (s.seen site) event).map fun counted =>
      { s with seen := Function.update s.seen site counted }

end Steps

/-- One step of one thread. `checkSeen` is a check that a tranceiver makes on its own, as
`put_message_low` of the APRS-IS tranceiver does. -/
inductive Action (τ π : Type*) where
  | receive (p : π) (r : Reception τ)
  | pushIncoming (p : π)
  | pushWork (p : π)
  | popWork
  | terminate
  | peek
  | getMessage
  | process (nowTs : ℚ) (outcome : List τ → τ → TransmitError)
  | checkSeen (t : τ) (call : Seen.Call)
  | evict (site : Site τ) (vector : List (UInt32 × ℤ))

def step {ρ τ π : Type*} [DecidableEq τ] [DecidableEq π] (cfg : Config ρ τ) (s : State τ π) :
    Action τ π → Option (State τ π)
  | .receive p r => receive cfg s p r
  | .pushIncoming p => onQueues s (.pushIncoming p)
  | .pushWork p => onQueues s (.pushWork p)
  | .popWork => onQueues s .popWork
  | .terminate => onQueues s .terminate
  | .peek => onQueues s .peek
  | .getMessage => onQueues s .getMessage
  | .process nowTs outcome => process cfg s nowTs outcome
  | .checkSeen t call => onSeen cfg s (.tranceiver t) (.check call)
  | .evict site vector => onSeen cfg s site (.evict vector)

end HamRouter.Router
