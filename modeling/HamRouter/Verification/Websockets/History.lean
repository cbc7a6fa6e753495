import HamRouter.Library.MarkedLog
import HamRouter.Model.WebsocketSession

/-! # What a websocket session gets of the history

The history is a log of 250 records, and a session reads it by the mark `ts`. -/

namespace HamRouter.Websockets

open MarkedLog Transition

/-! ## `push_to_websockets` -/

theorem eraseOldest_eq (records : List Record) :
    eraseOldest records = records.rtake maxHistorySize := by
  induction records with
  | nil => rfl
  | cons oldest rest ih =>
      rw [eraseOldest]
      split
      · rename_i hlong
        rw [List.length_cons] at hlong
        rw [ih, List.rtake, List.rtake, List.length_cons,
          show rest.length + 1 - maxHistorySize = rest.length - maxHistorySize + 1 by omega,
          List.drop_succ_cons]
      · rename_i hshort
        exact (rtake_of_length_le (Nat.not_lt.mp hshort)).symm

/-! ## `send_records` -/

theorem scanBack_le (ts : UInt64) (jsonData : List Record) (offset : ℕ)
    (h : offset < jsonData.length) : (scanBack ts jsonData offset h : ℕ) ≤ offset := by
  induction offset with
  | zero => exact Nat.le_refl 0
  | succ offset ih =>
      rw [scanBack]
      split
      · exact (ih (Nat.lt_of_succ_lt h)).trans (Nat.le_succ offset)
      · exact Nat.le_refl _

theorem firstOffset_le (ts : UInt64) (jsonData : List Record) (offset : Fin jsonData.length) :
    firstOffset ts jsonData offset ≤ offset + 1 := by
  rw [firstOffset]
  split <;> omega

theorem firstOffset_of_not_lt {ts : UInt64} {jsonData : List Record} {offset : Fin jsonData.length}
    (h : ¬ ts < (jsonData.get offset).first) : firstOffset ts jsonData offset = offset + 1 :=
  if_pos (UInt64.not_lt.mp h)

theorem firstOffset_of_lt {ts : UInt64} {jsonData : List Record} {offset : Fin jsonData.length}
    (h : ts < (jsonData.get offset).first) : firstOffset ts jsonData offset = offset :=
  if_neg (UInt64.not_le.mpr h)

theorem scanBack_of_not_lt {ts : UInt64} {jsonData : List Record} {offset : ℕ}
    {h : offset < jsonData.length} (hold : ¬ ts < jsonData[offset].first) :
    scanBack ts jsonData offset h = ⟨offset, h⟩ := by
  cases offset with
  | zero => rfl
  | succ offset => exact if_neg hold

/-- Up to an offset, what is behind the record that is found is unread. -/
theorem drop_firstOffset_scanBack (ts : UInt64) (jsonData : List Record) (offset : ℕ)
    (h : offset < jsonData.length) :
    (jsonData.take (offset + 1)).drop
        (firstOffset ts jsonData (scanBack ts jsonData offset h)) =
      unread Record.first ts (jsonData.take (offset + 1)) := by
  induction offset with
  | zero =>
      rw [List.take_succ_eq_append_getElem h]
      by_cases hnewer : ts < jsonData[0].first
      · have hfirst : firstOffset ts jsonData (scanBack ts jsonData 0 h) = 0 :=
          firstOffset_of_lt hnewer
        rw [unread_concat_of_lt _ hnewer, hfirst]
        rfl
      · have hfirst : firstOffset ts jsonData (scanBack ts jsonData 0 h) = 1 :=
          firstOffset_of_not_lt hnewer
        rw [unread_concat_of_not_lt _ hnewer, hfirst]
        rfl
  | succ offset ih =>
      have hlt := Nat.lt_of_succ_lt h
      rw [List.take_succ_eq_append_getElem h]
      by_cases hnewer : ts < jsonData[offset + 1].first
      · have hscan : scanBack ts jsonData (offset + 1) h = scanBack ts jsonData offset hlt :=
          if_pos hnewer
        have hle : firstOffset ts jsonData (scanBack ts jsonData offset hlt) ≤
            (jsonData.take (offset + 1)).length := by
          rw [List.length_take_of_le hlt]
          exact (firstOffset_le _ _ _).trans (Nat.succ_le_succ (scanBack_le _ _ _ _))
        rw [unread_concat_of_lt _ hnewer, hscan, List.drop_append_of_le_length hle, ih hlt]
      · rw [unread_concat_of_not_lt _ hnewer, scanBack_of_not_lt hnewer,
          firstOffset_of_not_lt hnewer]
        exact List.drop_of_length_le (by simp)

theorem sendRecords_eq (jsonData : List Record) (ws : Session) :
    sendRecords jsonData ws = writeItems ws (unread Record.first ws.ts jsonData) := by
  rw [sendRecords]
  split
  · rename_i hempty
    rw [hempty]
    rfl
  · rename_i hne
    have hpos := List.length_pos_of_ne_nil hne
    have hscan := drop_firstOffset_scanBack ws.ts jsonData (jsonData.length - 1) (by omega)
    rw [Nat.sub_add_cancel hpos, List.take_length] at hscan
    rw [← hscan]

theorem written_writeItems (ws : Session) (items : List Record) :
    (writeItems ws items).written = ws.written ++ items.map Record.second := by
  induction items generalizing ws with
  | nil => exact (List.append_nil _).symm
  | cons item rest ih =>
      rw [writeItems, ih, List.map_cons, List.append_assoc]
      rfl

theorem ts_writeItems (ws : Session) (items : List Record) :
    (writeItems ws items).ts = lastMark Record.first ws.ts items := by
  induction items generalizing ws with
  | nil => rfl
  | cons item rest ih =>
      rw [writeItems, ih]
      exact (lastMark_append [item] rest).symm

/-! ## The session as a reader -/

def Call.action : Call → Action Record
  | .pushToWebsockets now text => .append ⟨now, text⟩
  | .sendRecords => .read

/-- The program is at the same place as a reader of a log of 250 records. -/
structure Follows (s : State) (r : Reader Record UInt64) : Prop where
  jsonData_eq : s.jsonData = (r.sent ++ r.unsent).rtake maxHistorySize
  ts_eq : s.session.ts = r.mark
  written_eq : s.session.written = r.received.map Record.second
  sent_eq : s.sent = r.sent
  unsent_eq : s.unsent = r.unsent
  settled : Settled Record.first r.mark r.sent
  received : r.received.Sublist r.sent

theorem follows_start (history : History) :
    Follows (.start history) ⟨0, [], history.records, []⟩ where
  jsonData_eq := (rtake_of_length_le history.short).symm
  ts_eq := rfl
  written_eq := rfl
  sent_eq := rfl
  unsent_eq := rfl
  settled := by simp [Settled]
  received := List.Sublist.refl _

variable {s : State} {r : Reader Record UInt64}

theorem Follows.pushToWebsockets (h : Follows s r) (now : UInt64) (text : StdString) :
    Follows (step s (.pushToWebsockets now text))
      (MarkedLog.step Record.first maxHistorySize r (.append ⟨now, text⟩)) where
  jsonData_eq := by
    change eraseOldest (s.jsonData ++ [_]) = (r.sent ++ (r.unsent ++ [_])).rtake maxHistorySize
    rw [eraseOldest_eq, h.jsonData_eq, rtake_rtake_append, List.append_assoc]
  ts_eq := h.ts_eq
  written_eq := h.written_eq
  sent_eq := h.sent_eq
  unsent_eq := congrArg (· ++ [_]) h.unsent_eq
  settled := h.settled
  received := h.received

/-- The scan finds what the reader reads. -/
theorem Follows.unread_eq (h : Follows s r) :
    unread Record.first s.session.ts s.jsonData = r.readable Record.first maxHistorySize := by
  rw [h.jsonData_eq, h.ts_eq, Reader.readable, unread_rtake, unread_rtake, h.settled.unread_append]

theorem session_sendRecords (s : State) :
    (step s .sendRecords).session =
      writeItems s.session (unread Record.first s.session.ts s.jsonData) :=
  sendRecords_eq s.jsonData s.session

theorem Follows.sendRecords (h : Follows s r) :
    Follows (step s .sendRecords) (MarkedLog.step Record.first maxHistorySize r .read) where
  jsonData_eq := by
    rw [sent_step_read, unsent_step_read, List.append_nil]
    exact h.jsonData_eq
  ts_eq := by
    rw [session_sendRecords, ts_writeItems, h.unread_eq, h.ts_eq, mark_step_read]
  written_eq := by
    rw [session_sendRecords, written_writeItems, h.unread_eq, h.written_eq, received_step_read,
      List.map_append]
  sent_eq := congrArg₂ (· ++ ·) h.sent_eq h.unsent_eq
  unsent_eq := rfl
  settled := by
    have hlast : Settled Record.first (lastMark Record.first s.session.ts
        (unread Record.first s.session.ts s.jsonData)) s.jsonData := settled_lastMark_unread
    rw [h.unread_eq, h.jsonData_eq, settled_rtake_iff (by decide), h.ts_eq] at hlast
    rw [mark_step_read, sent_step_read]
    exact hlast
  received := h.received.append Reader.readable_sublist

theorem simulates : Simulates Follows Call.action step (MarkedLog.step Record.first maxHistorySize) := by
  intro s r call h
  cases call with
  | pushToWebsockets now text => exact h.pushToWebsockets now text
  | sendRecords => exact h.sendRecords

theorem Follows.allWritten_iff (h : Follows s r) : s.AllWritten ↔ r.Complete := by
  rw [State.AllWritten, Reader.Complete, h.written_eq, h.sent_eq]
  constructor
  · intro heq
    have hlength := congrArg List.length heq
    rw [List.length_map, List.length_map] at hlength
    exact h.received.eq_of_length hlength
  · rintro heq
    rw [heq]

theorem Follows.timely_iff (h : Follows s r) :
    s.Timely ↔ r.Timely Record.first maxHistorySize 0 := by
  rw [Reader.Timely, ← h.unsent_eq, ← h.sent_eq]
  exact ⟨fun htimely => ⟨htimely.kept, htimely.newer⟩, fun htimely => ⟨htimely.1, htimely.2⟩⟩

/-- All is written in every state of a run exactly if every call of `send_records` is timely. -/
theorem along_allWritten_iff (history : History) (calls : List Call) :
    Along step State.AllWritten (.start history) calls ↔
      Guarded step (fun s call => call = .sendRecords → s.Timely) (.start history) calls := by
  have hstart := follows_start history
  have hread : ∀ (s : State) (r : Reader Record UInt64) (call : Call), Follows s r →
      ((call = .sendRecords → s.Timely) ↔
        (call.action = .read → r.Timely Record.first maxHistorySize 0)) := by
    intro s r call h
    cases call with
    | pushToWebsockets now text => simp [Call.action]
    | sendRecords => simpa [Call.action] using h.timely_iff
  rw [simulates.along_iff (fun _ _ h => h.allWritten_iff) hstart,
    simulates.guarded_iff (H := fun r action => action = .read →
      r.Timely Record.first maxHistorySize 0) hread hstart]
  exact along_complete_iff (Reader.upToDate_start _ _ _) _

/-- Whatever the clock says, nothing is written twice, and all in push order. -/
theorem written_sublist (history : History) (calls : List Call) :
    Along step (fun s => s.session.written.Sublist (s.sent.map Record.second)) (.start history)
      calls := by
  refine Along.of_invariant (I := fun s => ∃ r, Follows s r) ?_ ?_ ⟨_, follows_start history⟩ calls
  · rintro s ⟨r, h⟩
    rw [h.written_eq, h.sent_eq]
    exact h.received.map _
  · rintro s call ⟨r, h⟩
    exact ⟨_, simulates s r call h⟩

/-! ## Two readings that are the same -/

def emptyHistory : History := ⟨[], Nat.zero_le _⟩

/-- The clock is read twice in the same microsecond, with a `send_records` in between. -/
def sameReading : List Call :=
  [.pushToWebsockets 1000 (str "a"), .sendRecords, .pushToWebsockets 1000 (str "b"), .sendRecords]

theorem paced_sameReading : Paced sameReading := by
  intro before pushes after h _
  have hlength := congrArg List.length h
  simp only [sameReading, List.length_append, List.length_cons, List.length_nil] at hlength
  rw [maxHistorySize]
  omega

theorem not_allWritten_sameReading :
    Paced sameReading ∧ ¬ Along step State.AllWritten (.start emptyHistory) sameReading := by
  refine ⟨paced_sameReading, ?_⟩
  rintro ⟨_, _, _, _, hlast⟩
  exact absurd (show State.AllWritten _ from hlast) (by decide)

end HamRouter.Websockets
