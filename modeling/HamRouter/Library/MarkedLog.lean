import HamRouter.Library.Transition
import Mathlib.Data.List.DropRight

/-! # Reading a log by a mark

A reader of a growing log keeps nothing but the mark of the last record it got. It reads what is
behind the last record that is not newer. Of the log only the last records are kept. -/

namespace MarkedLog

/-! ## The end of a list -/

section Tail

variable {α : Type*} (p : α → Bool)

theorem length_rtake (l : List α) (n : ℕ) : (l.rtake n).length = min n l.length := by
  rw [List.rtake, List.length_drop]
  omega

theorem rtake_of_length_le {l : List α} {n : ℕ} (h : l.length ≤ n) : l.rtake n = l := by
  rw [List.rtake, Nat.sub_eq_zero_of_le h, List.drop_zero]

theorem rtake_rtake_append (l l' : List α) (n : ℕ) : (l.rtake n ++ l').rtake n = (l ++ l').rtake n := by
  have hshorter : min (n - l'.reverse.length) n = n - l'.reverse.length := by omega
  simp only [List.rtake_eq_reverse_take_reverse, List.reverse_append, List.reverse_reverse,
    List.take_append, List.take_take, hshorter]

theorem getLast?_rtake (l : List α) {n : ℕ} (h : 0 < n) : (l.rtake n).getLast? = l.getLast? := by
  rw [List.rtake_eq_reverse_take_reverse, List.getLast?_reverse, List.head?_take,
    if_neg (Nat.ne_of_gt h), List.head?_reverse]

theorem rtakeWhile_rtake (l : List α) (n : ℕ) :
    (l.rtake n).rtakeWhile p = (l.rtakeWhile p).rtake n := by
  rw [List.rtake_eq_reverse_take_reverse, List.rtake_eq_reverse_take_reverse, List.rtakeWhile,
    List.rtakeWhile, List.reverse_reverse, List.reverse_reverse, List.take_takeWhile]

theorem rtakeWhile_append {l : List α} (h : ∀ a ∈ l.getLast?, ¬ p a) (l' : List α) :
    (l ++ l').rtakeWhile p = l'.rtakeWhile p := by
  induction l' using List.reverseRecOn with
  | nil =>
      rw [List.append_nil, List.rtakeWhile_nil, List.rtakeWhile_eq_nil_iff]
      intro hl
      exact h _ (List.getLast?_eq_some_getLast hl)
  | append_singleton l' a ih =>
      rw [← List.append_assoc]
      by_cases ha : p a
      · rw [List.rtakeWhile_concat_pos _ _ _ ha, List.rtakeWhile_concat_pos _ _ _ ha, ih]
      · rw [List.rtakeWhile_concat_neg _ _ _ ha, List.rtakeWhile_concat_neg _ _ _ ha]

end Tail

/-! ## What is read -/

section Read

variable {α β : Type*} [LT β] [DecidableLT β] (mark : α → β) (m : β)

/-- The records behind the last one that is not newer than the mark. -/
def unread (log : List α) : List α := log.rtakeWhile fun a => m < mark a

/-- The mark of the last record, or the old mark. -/
def lastMark (records : List α) : β := (records.getLast?.map mark).getD m

/-- The last record is not newer than the mark. -/
def Settled (log : List α) : Prop := ∀ a ∈ log.getLast?, ¬ m < mark a

variable {mark m} {log : List α}

theorem unread_eq_self_iff : unread mark m log = log ↔ ∀ a ∈ log, m < mark a := by
  simp [unread, List.rtakeWhile_eq_self_iff]

theorem unread_concat_of_lt (front : List α) {a : α} (h : m < mark a) :
    unread mark m (front ++ [a]) = unread mark m front ++ [a] :=
  List.rtakeWhile_concat_pos _ _ _ (by simpa using h)

theorem unread_concat_of_not_lt (front : List α) {a : α} (h : ¬ m < mark a) :
    unread mark m (front ++ [a]) = [] :=
  List.rtakeWhile_concat_neg _ _ _ (by simpa using h)

theorem unread_suffix : unread mark m log <:+ log := List.rtakeWhile_suffix _ _

/-- Behind what was settled only the new records are read. -/
theorem Settled.unread_append (h : Settled mark m log) (new : List α) :
    unread mark m (log ++ new) = unread mark m new :=
  rtakeWhile_append _ (fun a ha => by simpa using h a ha) new

theorem unread_rtake (n : ℕ) : unread mark m (log.rtake n) = (unread mark m log).rtake n :=
  rtakeWhile_rtake _ log n

omit [DecidableLT β] in
theorem settled_rtake_iff {n : ℕ} (hn : 0 < n) :
    Settled mark m (log.rtake n) ↔ Settled mark m log := by
  rw [Settled, Settled, getLast?_rtake log hn]

/-- After a reading everything is settled. -/
theorem settled_lastMark_unread [Std.Irrefl (α := β) (· < ·)] :
    Settled mark (lastMark mark m (unread mark m log)) log := by
  induction log using List.reverseRecOn with
  | nil => simp [Settled]
  | append_singleton front a =>
      intro b hb
      obtain rfl : a = b := by simpa using hb
      by_cases ha : m < mark a
      · rw [unread_concat_of_lt front ha, lastMark, List.getLast?_concat]
        exact Std.Irrefl.irrefl (mark a)
      · rw [unread_concat_of_not_lt front ha]
        exact ha

omit [LT β] [DecidableLT β] in
theorem lastMark_append (records more : List α) :
    lastMark mark m (records ++ more) = lastMark mark (lastMark mark m records) more := by
  simp only [lastMark, List.getLast?_append]
  cases more.getLast? <;> rfl

end Read

/-! ## A reader and its log -/

/-- A reader with the records that were in the log at its last reading, those that came since,
and what it got. -/
structure Reader (α β : Type*) where
  mark : β
  sent : List α
  unsent : List α
  received : List α

inductive Action (α : Type*) where
  | append (a : α)
  | read

section Runs

open Transition

variable {α β : Type*} [LT β] [DecidableLT β] (mark : α → β) (n : ℕ) (start : β)

/-- What the next reading gets, of a log of `n` records. -/
def Reader.readable (s : Reader α β) : List α := unread mark s.mark (s.unsent.rtake n)

def step (s : Reader α β) : Action α → Reader α β
  | .append a => { s with unsent := s.unsent ++ [a] }
  | .read =>
      { mark := lastMark mark s.mark (s.readable mark n)
        sent := s.sent ++ s.unsent
        unsent := []
        received := s.received ++ s.readable mark n }

/-- The reader got everything, once and in order. -/
def Reader.Complete (s : Reader α β) : Prop := s.received = s.sent

/-- Nothing was cut off since the last reading, and all of it is newer than what was there. -/
def Reader.Timely (s : Reader α β) : Prop :=
  s.unsent.length ≤ n ∧ ∀ a ∈ s.unsent, lastMark mark start s.sent < mark a

/-- The reader got everything, and its mark is the one of the last record. -/
structure Reader.UpToDate (s : Reader α β) : Prop where
  complete : s.Complete
  mark_eq : s.mark = lastMark mark start s.sent

omit [LT β] [DecidableLT β] in
theorem Reader.upToDate_start (log : List α) :
    (⟨start, [], log, []⟩ : Reader α β).UpToDate mark start := ⟨rfl, rfl⟩

variable {mark n start} {s : Reader α β}

@[simp] theorem mark_step_read :
    (step mark n s .read).mark = lastMark mark s.mark (s.readable mark n) := rfl

@[simp] theorem sent_step_read : (step mark n s .read).sent = s.sent ++ s.unsent := rfl

@[simp] theorem unsent_step_read : (step mark n s .read).unsent = [] := rfl

@[simp] theorem received_step_read :
    (step mark n s .read).received = s.received ++ s.readable mark n := rfl

theorem Reader.readable_sublist : (s.readable mark n).Sublist s.unsent :=
  (unread_suffix.sublist).trans (List.drop_sublist _ _)

theorem Reader.UpToDate.readable_eq_iff (h : s.UpToDate mark start) :
    s.readable mark n = s.unsent ↔ s.Timely mark n start := by
  rw [Reader.Timely, ← h.mark_eq]
  constructor
  · intro hall
    have hlength : s.unsent.length ≤ n := by
      have hle : (s.readable mark n).length ≤ (s.unsent.rtake n).length :=
        unread_suffix.length_le
      rw [hall, length_rtake] at hle
      omega
    rw [Reader.readable, rtake_of_length_le hlength, unread_eq_self_iff] at hall
    exact ⟨hlength, hall⟩
  · rintro ⟨hlength, hnewer⟩
    rw [Reader.readable, rtake_of_length_le hlength, unread_eq_self_iff]
    exact hnewer

theorem Reader.UpToDate.step_append (h : s.UpToDate mark start) (a : α) :
    (step mark n s (.append a)).UpToDate mark start := ⟨h.complete, h.mark_eq⟩

theorem Reader.UpToDate.complete_read_iff (h : s.UpToDate mark start) :
    (step mark n s .read).Complete ↔ s.Timely mark n start := by
  rw [← h.readable_eq_iff]
  rw [Reader.Complete, received_step_read, sent_step_read, h.complete, List.append_cancel_left_eq]

theorem Reader.UpToDate.step_read (h : s.UpToDate mark start) (htimely : s.Timely mark n start) :
    (step mark n s .read).UpToDate mark start where
  complete := h.complete_read_iff.mpr htimely
  mark_eq := by
    rw [mark_step_read, sent_step_read, h.readable_eq_iff.mpr htimely, h.mark_eq, lastMark_append]

/-- The reader gets everything exactly if every reading is timely. -/
theorem along_complete_iff (h : s.UpToDate mark start) (actions : List (Action α)) :
    Along (step mark n) Reader.Complete s actions ↔
      Guarded (step mark n) (fun s a => a = .read → s.Timely mark n start) s actions := by
  refine along_iff_guarded h (fun s hs => hs.complete) ?_ ?_ actions
  · intro s a hs hguard
    cases a with
    | append a => exact hs.step_append a
    | read => exact hs.step_read (hguard rfl)
  · rintro s a hs hcomplete rfl
    exact hs.complete_read_iff.mp hcomplete

end Runs

end MarkedLog
