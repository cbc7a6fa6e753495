import HamRouter.Program.Dissect
import HamRouter.Verification.Ax25.Frames
import Mathlib.Data.List.GetD

/-! # Which well-formed frames the dissector accepts -/

namespace HamRouter.Ax25

open TracedRead Dissect

/-- The three checks of `parse_ax25`. -/
theorem isSome_parseAx25_iff (r : Region) :
    (parseAx25 r).isSome = true ↔
      16 ≤ r.bytes.length ∧ (∀ b ∈ r.bytes.take 6, b &&& 1 = 0) ∧ r.bytes.getD 14 0 &&& 3 ≠ 2 := by
  rw [parseAx25]
  by_cases hlength : r.bytes.length < 16
  · rw [if_pos hlength]
    simp [hlength]
  · rw [if_neg hlength]
    have hlong : 16 ≤ r.bytes.length := by omega
    by_cases hodd : (r.bytes.take 6).any (· &&& 1 ≠ 0) = true
    · rw [if_pos hodd]
      obtain ⟨b, hb, hbit⟩ := List.any_eq_true.mp hodd
      simp only [Option.isSome_none, Bool.false_eq_true, false_iff, not_and]
      intro _ heven
      exact absurd (heven b hb) (of_decide_eq_true hbit)
    · rw [if_neg hodd]
      have heven : ∀ b ∈ r.bytes.take 6, b &&& 1 = 0 := by simpa using hodd
      by_cases htype : r.bytes.getD 14 0 &&& 3 = 2
      · rw [if_pos htype]
        exact iff_of_false (by decide) fun hchecks => hchecks.2.2 htype
      · rw [if_neg htype]
        refine iff_of_true ?_ ⟨hlong, heven, htype⟩
        dsimp only
        split <;> rfl

namespace WireAddress

variable (a : WireAddress) (endMark : Bool)

theorem take_bytes : (a.bytes endMark).take 6 = a.callsignBytes := by
  rw [bytes, List.take_left' a.length_callsignBytes]

/-- The first byte is the first character of the callsign, or the padding of an empty one. -/
theorem head_bytes : (a.bytes endMark).getD 0 0 = a.callsign.headD (ch ' ') <<< 1 := by
  rw [bytes, callsignBytes]
  cases a.callsign <;> rfl

end WireAddress

namespace Frame

variable (f : Frame)

/-- The dissector returns a result exactly if the frame is of a type that exists. -/
def AcceptedByType : Prop :=
  ∀ beyond, (parseAx25 ⟨f.bytes, beyond⟩).isSome = true ↔ f.control &&& 3 ≠ 2

/-- If there is a first repeater, then the low bit of the first character of its callsign is
set exactly for frames of the type that does not exist. -/
def FirstRepeaterAgrees : Prop :=
  ∀ a ∈ f.repeaters.head?, (a.callsign.headD (ch ' ') &&& 1 = 1 ↔ f.control &&& 3 = 2)

theorem take_six_bytes : f.bytes.take 6 = f.toAddress.callsignBytes := by
  have hto := f.toAddress.length_bytes false
  rw [bytes, header, List.append_assoc, List.append_assoc, List.take_append_of_le_length (by omega),
    f.toAddress.take_bytes]

/-- The byte at the fixed index is the control byte or the start of the first repeater. -/
theorem getD_bytes :
    f.bytes.getD 14 0 =
      match f.repeaters with
      | [] => f.control
      | a :: _ => a.callsign.headD (ch ' ') <<< 1 := by
  have hfront : (f.toAddress.bytes false ++ f.fromAddress.bytes f.repeaters.isEmpty).length = 14 :=
    by rw [List.length_append, WireAddress.length_bytes, WireAddress.length_bytes]
  rw [bytes, header, List.append_assoc, List.getD_append_right _ _ _ _ (by omega), hfront]
  cases f.repeaters with
  | nil => rfl
  | cons a rest =>
      have ha := a.length_bytes rest.isEmpty
      rw [repeaterBytes, List.append_assoc, Nat.sub_self,
        List.getD_append _ _ _ _ (by omega), a.head_bytes]

/-- The check at the fixed index decides by the type exactly when there is no repeater, or
the first one's callsign happens to agree with the type. -/
theorem acceptedByType_iff (h : 16 ≤ f.bytes.length) :
    f.AcceptedByType ↔ f.FirstRepeaterAgrees := by
  have heven : ∀ b ∈ f.bytes.take 6, b &&& 1 = 0 := by
    rw [f.take_six_bytes]
    exact f.toAddress.callsignBytes_even
  have haccepted : ∀ beyond, (parseAx25 ⟨f.bytes, beyond⟩).isSome = true ↔
      f.bytes.getD 14 0 &&& 3 ≠ 2 := by
    intro beyond
    rw [isSome_parseAx25_iff]
    exact ⟨fun hchecks => hchecks.2.2, fun htype => ⟨h, heven, htype⟩⟩
  unfold AcceptedByType FirstRepeaterAgrees
  simp only [haccepted, f.getD_bytes, forall_const, not_iff_not]
  cases hrepeaters : f.repeaters with
  | nil => simp
  | cons a rest => simp [Byte.shiftLeft_one_and_three]

end Frame

/-! ## A frame that is not accepted -/

/-- A UI frame with one repeater. -/
def wideFrame : Frame where
  toAddress := addressIdent
  fromAddress := addressPd9fvh
  repeaters := [addressWide2]
  few := by decide
  control := 3
  msgNr := none
  pid := some 240
  payload := str "Hello"
  msgNr_isSome := oneByteFrame.msgNr_isSome
  pid_isSome := oneByteFrame.pid_isSome

theorem acceptedByType_wideFrame :
    16 ≤ wideFrame.bytes.length ∧ (wideFrame.AcceptedByType ↔ wideFrame.FirstRepeaterAgrees) :=
  ⟨by decide, wideFrame.acceptedByType_iff (by decide)⟩

theorem not_acceptedByType_wideFrame : ¬ wideFrame.AcceptedByType := by
  intro h
  have hrejected : (parseAx25 ⟨wideFrame.bytes, fun _ => 0⟩).isSome = false := by decide
  have haccepted := (h fun _ => 0).mpr (by decide)
  rw [hrejected] at haccepted
  exact Bool.false_ne_true haccepted

end HamRouter.Ax25
