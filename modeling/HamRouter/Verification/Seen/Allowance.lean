import HamRouter.Verification.Seen.Limiter
import Mathlib.Tactic.FieldSimp

/-! # The allowance of a limiter whose clock may be stepped back -/

namespace HamRouter.RateLimiter

open TokenBucket

/-- What a new limiter keeps to over a run: its allowance stays between nothing and the
rate, and a check one interval or more after the previous one is accepted. -/
structure KeepsAllowance (rate : ℤ) (per : ℚ) (readings : List UInt64) : Prop where
  nonneg : ∀ earlier us later, readings = earlier ++ us :: later →
    0 ≤ (fresh.after rate per (earlier ++ [us])).allowance
  le_rate : ∀ earlier us later, readings = earlier ++ us :: later →
    (fresh.after rate per (earlier ++ [us])).allowance ≤ rate
  accepted : ∀ earlier previous us later, readings = earlier ++ previous :: us :: later →
    getUsFloat previous + per ≤ getUsFloat us →
      ((fresh.after rate per (earlier ++ [previous])).check rate per (getUsFloat us)).2 = true

/-- No check finds the clock behind the previous one by more than the time that earned
the allowance at hand. -/
def StepsBackWithin (rate : ℤ) (per : ℚ) (readings : List UInt64) : Prop :=
  ∀ earlier us later, readings = earlier ++ us :: later →
    let r := fresh.after rate per earlier
    (r.lastTs - getUsFloat us) * (rate / per) ≤ r.allowance

variable {rate : ℤ} {per : ℚ}

theorem after_snoc (r : RateLimiter) (readings : List UInt64) (us : UInt64) :
    r.after rate per (readings ++ [us]) =
      ((r.after rate per readings).check rate per (getUsFloat us)).1 := by
  simp [RateLimiter.after]

theorem check_lastTs (r : RateLimiter) (nowTs : ℚ) : (r.check rate per nowTs).1.lastTs = nowTs := by
  have h := congrArg Bucket.stamp (check_bucket rate per r nowTs)
  rw [request_stamp] at h
  exact h

theorem check_allowance_le (r : RateLimiter) (nowTs : ℚ) :
    (r.check rate per nowTs).1.allowance ≤ rate := by
  have h := level_le_cap (rate : ℚ) (rate / per) r.bucket nowTs
  rw [← check_bucket] at h
  exact h

/-- A check leaves a debt exactly when the clock went back further than the allowance. -/
theorem check_allowance_nonneg_iff (hrate : 1 ≤ rate) (r : RateLimiter) (nowTs : ℚ) :
    0 ≤ (r.check rate per nowTs).1.allowance ↔
      (r.lastTs - nowTs) * (rate / per) ≤ r.allowance := by
  have hcap : (0 : ℚ) ≤ rate := by exact_mod_cast (by omega : 0 ≤ rate)
  have h := level_nonneg_iff hcap (rate / per) r.bucket nowTs
  rw [← check_bucket] at h
  refine h.trans ?_
  change 0 ≤ r.allowance + (nowTs - r.lastTs) * (rate / per) ↔ _
  constructor <;> intro h <;> linarith

/-- Without a debt, one interval is enough for the next check. -/
theorem check_accepted (hrate : 1 ≤ rate) (hper : 0 < per) {r : RateLimiter} {nowTs : ℚ}
    (hallowance : 0 ≤ r.allowance) (hlate : r.lastTs + per ≤ nowTs) :
    (r.check rate per nowTs).2 = true := by
  have hcap : (1 : ℚ) ≤ rate := by exact_mod_cast hrate
  rw [check_answer]
  refine taken_of_refilled hcap hallowance ?_
  have hgain : (rate : ℚ) = per * (rate / per) := by field_simp
  have hpositive : (0 : ℚ) ≤ rate / per := div_nonneg (zero_le_one.trans hcap) hper.le
  calc (rate : ℚ) = per * (rate / per) := hgain
    _ ≤ (nowTs - r.bucket.stamp) * (rate / per) :=
      mul_le_mul_of_nonneg_right (le_sub_iff_add_le'.mpr hlate) hpositive

/-- All that can go wrong is a debt. -/
theorem KeepsAllowance.of_nonneg (hrate : 1 ≤ rate) (hper : 0 < per) {readings : List UInt64}
    (h : ∀ earlier us later, readings = earlier ++ us :: later →
      0 ≤ (fresh.after rate per (earlier ++ [us])).allowance) :
    KeepsAllowance rate per readings := by
  refine ⟨h, ?_, ?_⟩
  · intro earlier us later _
    rw [after_snoc]
    exact check_allowance_le _ _
  · intro earlier previous us later hsplit hlate
    refine check_accepted hrate hper (h earlier previous (us :: later) hsplit) ?_
    rw [after_snoc, check_lastTs]
    exact hlate

/-- A limiter keeps its allowance over a run exactly when no step of the clock back is
longer than what the allowance at that moment covers. -/
theorem keepsAllowance_iff (hrate : 1 ≤ rate) (hper : 0 < per) (readings : List UInt64) :
    KeepsAllowance rate per readings ↔ StepsBackWithin rate per readings := by
  have hstep : ∀ earlier us, 0 ≤ (fresh.after rate per (earlier ++ [us])).allowance ↔
      ((fresh.after rate per earlier).lastTs - getUsFloat us) * (rate / per) ≤
        (fresh.after rate per earlier).allowance := by
    intro earlier us
    rw [after_snoc]
    exact check_allowance_nonneg_iff hrate _ _
  constructor
  · intro h earlier us later hsplit
    exact (hstep earlier us).mp (h.nonneg earlier us later hsplit)
  · intro h
    refine .of_nonneg hrate hper ?_
    intro earlier us later hsplit
    exact (hstep earlier us).mpr (h earlier us later hsplit)

/-- A step back by four seconds, which the allowance of one message covers. -/
theorem keepsAllowance_small_step_back : KeepsAllowance 2 10 [100000000, 96000000, 110000000] := by
  refine (keepsAllowance_iff (by decide) (by norm_num) _).mpr ?_
  rintro (_ | ⟨first, _ | ⟨second, _ | ⟨third, _ | ⟨fourth, earlier⟩⟩⟩⟩) us later hsplit
  · obtain ⟨rfl, rfl⟩ := List.cons.inj hsplit
    decide +kernel
  · simp only [List.cons_append, List.nil_append, List.cons.injEq] at hsplit
    obtain ⟨rfl, rfl, rfl⟩ := hsplit
    decide +kernel
  · simp only [List.cons_append, List.nil_append, List.cons.injEq] at hsplit
    obtain ⟨rfl, rfl, rfl, rfl⟩ := hsplit
    decide +kernel
  · simp at hsplit
  · simp at hsplit

/-- A step back by fifty seconds is a debt of five messages: eleven seconds later the
limiter still refuses. -/
theorem not_keepsAllowance_stepped_back :
    ¬ KeepsAllowance 1 10 [100000000, 50000000, 61000000] := by
  intro h
  have haccepted := h.accepted [100000000] 50000000 61000000 [] rfl (by decide +kernel)
  revert haccepted
  decide +kernel

theorem getUsFloat_le {a b : UInt64} (h : a ≤ b) : getUsFloat a ≤ getUsFloat b := by
  have hcast : (a.toNat : ℚ) ≤ b.toNat := by exact_mod_cast UInt64.le_iff_toNat_le.mp h
  exact div_le_div_of_nonneg_right hcast (by norm_num)

theorem after_lastTs_le {readings : List UInt64} {us : UInt64} (h : ∀ a ∈ readings, a ≤ us) :
    (fresh.after rate per readings).lastTs ≤ getUsFloat us := by
  rcases List.eq_nil_or_concat readings with rfl | ⟨rest, last, rfl⟩
  · exact div_nonneg (Nat.cast_nonneg _) (by norm_num)
  · rw [List.concat_eq_append, after_snoc, check_lastTs]
    exact getUsFloat_le (h last (by simp))

/-- A clock that is never stepped back leaves no debt. -/
theorem after_allowance_nonneg (hrate : 1 ≤ rate) (hper : 0 < per) {readings : List UInt64}
    (hmonotone : readings.Pairwise (· ≤ ·)) : 0 ≤ (fresh.after rate per readings).allowance := by
  induction readings using List.reverseRecOn with
  | nil => exact le_refl 0
  | append_singleton rest us ih =>
      obtain ⟨hrest, _, hlast⟩ := List.pairwise_append.mp hmonotone
      have hts : (fresh.after rate per rest).lastTs ≤ getUsFloat us :=
        after_lastTs_le fun a ha => hlast a ha us (by simp)
      have hspeed : (0 : ℚ) ≤ rate / per :=
        div_nonneg (by exact_mod_cast (by omega : 0 ≤ rate)) hper.le
      rw [after_snoc, check_allowance_nonneg_iff hrate]
      calc ((fresh.after rate per rest).lastTs - getUsFloat us) * (rate / per) ≤ 0 :=
            mul_nonpos_of_nonpos_of_nonneg (sub_nonpos.mpr hts) hspeed
        _ ≤ (fresh.after rate per rest).allowance := ih hrest

theorem keepsAllowance_of_monotone (hrate : 1 ≤ rate) (hper : 0 < per) {readings : List UInt64}
    (hmonotone : readings.Pairwise (· ≤ ·)) : KeepsAllowance rate per readings := by
  refine .of_nonneg hrate hper ?_
  intro earlier us later hsplit
  refine after_allowance_nonneg hrate hper (hmonotone.sublist ?_)
  rw [hsplit, List.append_cons earlier us later]
  exact List.sublist_append_left _ _

end HamRouter.RateLimiter
