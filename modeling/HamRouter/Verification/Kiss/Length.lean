import HamRouter.Program.Kiss

/-! # The buffer of `send_mkiss`

Every escaped byte takes one byte more. The buffer has room for all bytes of the payload to
be escaped, and none for the command byte. -/

namespace HamRouter.Kiss

/-- The bytes that `escape_put` escapes. -/
def isEscaped (c : UInt8) : Bool := c = fend || c = fesc

theorem length_escapePut (c : UInt8) :
    (escapePut c).length = if isEscaped c then 2 else 1 := by
  unfold escapePut isEscaped
  by_cases hend : c = fend
  · simp [hend]
  · by_cases hesc : c = fesc
    · simp [hesc, fend, fesc]
    · simp [hend, hesc]

theorem length_flatMap_escapePut (p : List UInt8) :
    (p.flatMap escapePut).length = p.length + p.countP isEscaped := by
  induction p with
  | nil => rfl
  | cons c rest ih =>
      rw [List.flatMap_cons, List.length_append, length_escapePut, ih, List.length_cons,
        List.countP_cons]
      split <;> omega

/-- The two pairs of arguments whose command byte is `FEND` or `FESC`. -/
def CommandEscaped (cmd channel : Fin 16) : Prop :=
  channel.val = 12 ∧ cmd.val = 0 ∨ channel.val = 13 ∧ cmd.val = 11

instance (cmd channel : Fin 16) : Decidable (CommandEscaped cmd channel) :=
  inferInstanceAs (Decidable (_ ∨ _))

theorem isEscaped_command (cmd channel : Fin 16) :
    isEscaped ((UInt8.ofNat channel <<< 4) ||| UInt8.ofNat cmd) =
      decide (CommandEscaped cmd channel) := by
  revert cmd channel
  decide +kernel

theorem length_sendMkiss (cmd channel : Fin 16) (p : List UInt8) :
    (sendMkiss cmd channel p).length =
      p.length + p.countP isEscaped + (if CommandEscaped cmd channel then 4 else 3) := by
  simp only [sendMkiss, List.length_append, List.length_singleton, length_flatMap_escapePut,
    length_escapePut, isEscaped_command, decide_eq_true_eq]
  split <;> omega

/-- `send_mkiss` has a buffer, and writes at most as many bytes as there are in it. -/
def Fits (cmd channel : Fin 16) (p : List UInt8) : Prop :=
  ∃ size, maxLen p.length = some size ∧ (sendMkiss cmd channel p).length ≤ size

theorem fits_iff_le (cmd channel : Fin 16) (p : List UInt8) :
    Fits cmd channel p ↔ (p.length : ℤ) * 2 + 3 ≤ Ax25.intMax ∧
      (sendMkiss cmd channel p).length ≤ p.length * 2 + 3 := by
  rw [Fits, maxLen]
  split
  · rename_i hsize
    simp [hsize]
  · rename_i hsize
    simp [hsize]

/-- What `send_mkiss` writes fits in its buffer unless the size of the buffer is beyond `int`, or the
command byte and all bytes of the payload are escaped. -/
theorem sendMkiss_fits_iff (cmd channel : Fin 16) (p : List UInt8) :
    Fits cmd channel p ↔ (p.length : ℤ) * 2 + 3 ≤ Ax25.intMax ∧
      (¬ CommandEscaped cmd channel ∨ ∃ c ∈ p, c ≠ fend ∧ c ≠ fesc) := by
  have hplain : (∃ c ∈ p, c ≠ fend ∧ c ≠ fesc) ↔ p.countP isEscaped ≠ p.length := by
    rw [ne_eq, List.countP_eq_length]
    simp [isEscaped, not_or]
  have hcount : p.countP isEscaped ≤ p.length := List.countP_le_length
  rw [fits_iff_le, hplain, length_sendMkiss]
  refine and_congr_right fun _ => ?_
  by_cases hcommand : CommandEscaped cmd channel
  · simp only [hcommand, if_true, not_true, false_or]
    omega
  · simp only [hcommand, if_false, not_false_iff, true_or, iff_true]
    omega

/-- On channel 12 the command byte of command 0 is `FEND`, and an empty frame takes four
bytes of three. -/
theorem sendMkiss_overflow : ¬ ∀ (cmd channel : Fin 16) (p : List UInt8), Fits cmd channel p := by
  intro h
  have hfour := ((fits_iff_le _ _ _).mp (h ⟨0, by decide⟩ ⟨12, by decide⟩ [])).2
  revert hfour
  decide

end HamRouter.Kiss
