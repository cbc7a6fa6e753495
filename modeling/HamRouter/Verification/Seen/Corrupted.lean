import HamRouter.Model.SeenRun
import HamRouter.Verification.Crc
import HamRouter.Verification.Seen.Limiter

/-! # Corrupted copies of a packet

A copy that differs within 32 successive bits is another packet to a `seen`: neither takes
anything of what the other may have. -/

namespace HamRouter.Seen

open ShiftRegister

variable (pars : SeenPars)

/-- Two histories with the same limiter for a checksum keep one over the same check. -/
theorem limiter_check_congr {history history' : History} {hash : UInt32}
    (h : limiter history hash = limiter history' hash) (p : List UInt8) (nowTs : ℚ) :
    limiter (check pars history p nowTs).1 hash = limiter (check pars history' p nowTs).1 hash := by
  rw [limiter_check, limiter_check, h]

/-- Checks of a content with another checksum may be left out. -/
theorem answersTo_filter {p other : List UInt8} (hne : calcCrc32 other ≠ calcCrc32 p)
    (calls : List Call) {history history' : History}
    (h : limiter history (calcCrc32 p) = limiter history' (calcCrc32 p)) :
    answersTo pars p history calls =
      answersTo pars p history' (calls.filter fun call => call.p ≠ other) := by
  induction calls generalizing history history' with
  | nil => rfl
  | cons call rest ih =>
      by_cases hother : call.p = other
      · have hnot : call.p ≠ p := by
          rintro rfl
          exact hne (congrArg calcCrc32 hother.symm)
        have hkept : limiter (check pars history call.p call.nowTs).1 (calcCrc32 p) =
            limiter history' (calcCrc32 p) := by
          rw [limiter_check, if_neg (by rw [hother]; exact hne), h]
        rw [answersTo, if_neg hnot, List.filter_cons_of_neg (by simpa using hother)]
        exact ih hkept
      · have hnext := limiter_check_congr pars h call.p call.nowTs
        rw [List.filter_cons_of_pos (by simpa using hother), answersTo, answersTo]
        by_cases hp : call.p = p
        · have hsame : (check pars history call.p call.nowTs).2 =
              (check pars history' call.p call.nowTs).2 := by
            rw [hp]
            simp only [check, h]
          rw [if_pos hp, if_pos hp, hsame]
          exact congrArg _ (ih hnext)
        · rw [if_neg hp, if_neg hp]
          exact ih hnext

/-- What is returned for a packet is the same with and without the checks of a copy of it that
was corrupted within 32 successive bits. -/
theorem answersTo_of_burst {p corrupted : List UInt8} (h : Burst 32 p corrupted)
    (history : History) (calls : List Call) :
    answersTo pars p history calls =
      answersTo pars p history (calls.filter fun call => call.p ≠ corrupted) :=
  answersTo_filter pars (calcCrc32_ne_of_burst h).symm calls rfl

/-- A packet of two bytes, and a check of it behind one of a copy with another second byte. -/
theorem answersTo_of_burst_two :
    answersTo ⟨1, 10, 100⟩ [0x41, 0x42] ∅ [⟨[0x41, 0x43], 100⟩, ⟨[0x41, 0x42], 101⟩] =
      answersTo ⟨1, 10, 100⟩ [0x41, 0x42] ∅ [⟨[0x41, 0x42], 101⟩] :=
  answersTo_of_burst ⟨1, 10, 100⟩
    (show Burst 32 [0x41, 0x42] [0x41, 0x43] from ⟨byteBits 0x41, byteBits 0x42, byteBits 0x43, [],
      rfl, rfl, by decide, by decide, by decide⟩) ∅ _

end HamRouter.Seen
