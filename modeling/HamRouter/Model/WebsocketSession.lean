import HamRouter.Library.Transition
import HamRouter.Program.Websockets

/-! # A session and a growing history

Calls of `push_to_websockets` and of the `send_records` of one session, in any order, from where
the session starts. -/

namespace HamRouter.Websockets

/-- A history as `push_to_websockets` leaves it. -/
structure History where
  records : List Record
  short : records.length ≤ maxHistorySize

inductive Call where
  | pushToWebsockets (now : UInt64) (text : StdString)
  | sendRecords

/-- At most 250 calls of `push_to_websockets` between two consecutive ones of `send_records`. -/
def Paced (calls : List Call) : Prop :=
  ∀ before pushes after, calls = before ++ .sendRecords :: (pushes ++ .sendRecords :: after) →
    .sendRecords ∉ pushes → pushes.length ≤ maxHistorySize

/-- `json_data` and the session. The program does not have the other two: the records there
were when the session started or that came since then, up to the last `send_records`, and
behind it. -/
structure State where
  jsonData : List Record
  session : Session
  sent : List Record
  unsent : List Record

def State.start (history : History) : State where
  jsonData := history.records
  session := established
  sent := []
  unsent := history.records

def step (s : State) : Call → State
  | .pushToWebsockets now text =>
      { s with
        jsonData := pushToWebsockets s.jsonData now text
        unsent := s.unsent ++ [⟨now, text⟩] }
  | .sendRecords =>
      { s with
        session := sendRecords s.jsonData s.session
        sent := s.sent ++ s.unsent
        unsent := [] }

/-- Every record there was at the last `send_records` was written, once and in push order. -/
def State.AllWritten (s : State) : Prop := s.session.written = s.sent.map Record.second

instance (s : State) : Decidable s.AllWritten := inferInstanceAs (Decidable (_ = _))

/-- The reading of the last record, at first 0. -/
def lastReading (records : List Record) : UInt64 := (records.getLast?.map Record.first).getD 0

/-- A call of `send_records` comes in time: no record that came since the last one was erased,
and all their readings are above the last one before. -/
structure State.Timely (s : State) : Prop where
  kept : s.unsent.length ≤ maxHistorySize
  newer : ∀ record ∈ s.unsent, lastReading s.sent < record.first

end HamRouter.Websockets
