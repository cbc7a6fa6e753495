import HamRouter.Library.TokenBucket
import HamRouter.Library.Window
import HamRouter.Program.Seen

/-! # Every limiter is a token bucket, and its checks stay within the bound -/

namespace HamRouter

open TokenBucket Window

/-- The token bucket a limiter implements. -/
def RateLimiter.bucket (r : RateLimiter) : Bucket ℚ := ⟨r.allowance, r.lastTs⟩

/-- `check` is one request to the bucket. -/
theorem RateLimiter.check_eq_request (rate : ℤ) (per : ℚ) (r : RateLimiter) (nowTs : ℚ) :
    ((r.check rate per nowTs).1.bucket, (r.check rate per nowTs).2) =
      r.bucket.request (rate : ℚ) (rate / per) nowTs := by
  have hcap : (if r.allowance + (nowTs - r.lastTs) * (rate / per) > rate then (rate : ℚ)
      else r.allowance + (nowTs - r.lastTs) * (rate / per)) =
        r.bucket.filled (rate : ℚ) (rate / per) nowTs := by
    rw [Bucket.filled, min_comm, min_def_lt]
    rfl
  simp only [RateLimiter.check, hcap]
  by_cases h : r.bucket.filled (rate : ℚ) (rate / per) nowTs < 1
  · simp only [h, if_true, Bucket.request]
    rfl
  · simp only [h, if_false, Bucket.request]
    rfl

theorem RateLimiter.check_bucket (rate : ℤ) (per : ℚ) (r : RateLimiter) (nowTs : ℚ) :
    (r.check rate per nowTs).1.bucket = (r.bucket.request (rate : ℚ) (rate / per) nowTs).1 :=
  congrArg Prod.fst (check_eq_request rate per r nowTs)

theorem RateLimiter.check_answer (rate : ℤ) (per : ℚ) (r : RateLimiter) (nowTs : ℚ) :
    (r.check rate per nowTs).2 = (r.bucket.request (rate : ℚ) (rate / per) nowTs).2 :=
  congrArg Prod.snd (check_eq_request rate per r nowTs)

namespace Seen

variable (pars : SeenPars)

/-! ### Limiters of different contents do not touch each other -/

theorem limiter_check (history : History) (p : List UInt8) (nowTs : ℚ) (hash : UInt32) :
    limiter (check pars history p nowTs).1 hash =
      if calcCrc32 p = hash then ((limiter history hash).check pars.maxPerDt pars.dt nowTs).1
      else limiter history hash := by
  by_cases h : calcCrc32 p = hash
  · subst hash
    simp [check, limiter]
  · rw [if_neg h, limiter, check, AList.lookup_insert_ne (Ne.symm h), limiter]

/-- The readings of the clock at the checks of one hash. -/
def readingsOf (hash : UInt32) (calls : List Call) : List ℚ :=
  (calls.filter fun call => calcCrc32 call.p = hash).map Call.nowTs

theorem readingsOf_cons (hash : UInt32) (call : Call) (calls : List Call) :
    readingsOf hash (call :: calls) =
      if calcCrc32 call.p = hash then call.nowTs :: readingsOf hash calls
      else readingsOf hash calls := by
  by_cases h : calcCrc32 call.p = hash
  · simp [readingsOf, h]
  · simp [readingsOf, h]

theorem readingsOf_append (hash : UInt32) (earlier later : List Call) :
    readingsOf hash (earlier ++ later) = readingsOf hash earlier ++ readingsOf hash later := by
  simp [readingsOf]

/-- After a run the limiter of a hash is where its own readings left it. -/
theorem bucket_after (hash : UInt32) (history : History) (calls : List Call) :
    (limiter (after pars history calls) hash).bucket =
      (limiter history hash).bucket.after (pars.maxPerDt : ℚ) (pars.maxPerDt / pars.dt)
        (readingsOf hash calls) := by
  induction calls generalizing history with
  | nil => rfl
  | cons call rest ih =>
      have hrest := ih (check pars history call.p call.nowTs).1
      rw [limiter_check] at hrest
      rw [readingsOf_cons]
      by_cases h : calcCrc32 call.p = hash
      · rw [if_pos h, RateLimiter.check_bucket] at hrest
        rw [if_pos h]
        exact hrest
      · rw [if_neg h] at hrest
        rw [if_neg h]
        exact hrest

/-- The checks of a hash that are accepted are the tokens its bucket hands out. -/
theorem count_outcomes (hash : UInt32) (history : History) (calls : List Call) :
    (outcomes pars history calls).count (true, hash) =
      ((limiter history hash).bucket.answers (pars.maxPerDt : ℚ) (pars.maxPerDt / pars.dt)
        (readingsOf hash calls)).count true := by
  induction calls generalizing history with
  | nil => rfl
  | cons call rest ih =>
      have hrest := ih (check pars history call.p call.nowTs).1
      rw [limiter_check] at hrest
      rw [outcomes, readingsOf_cons, List.count_cons, hrest]
      by_cases h : calcCrc32 call.p = hash
      · subst hash
        rw [if_pos rfl, if_pos rfl, RateLimiter.check_bucket, Bucket.answers, List.count_cons,
          ← RateLimiter.check_answer]
        simp [check]
      · rw [if_neg h, if_neg h]
        simp [check, h]

/-! ### Windows of a run -/

theorem outcomes_append (history : History) (earlier later : List Call) :
    outcomes pars history (earlier ++ later) =
      outcomes pars history earlier ++ outcomes pars (after pars history earlier) later := by
  induction earlier generalizing history with
  | nil => rfl
  | cons call rest ih =>
      rw [List.cons_append, outcomes, ih]
      rfl

theorem outcomes_length (history : History) (calls : List Call) :
    (outcomes pars history calls).length = calls.length := by
  induction calls generalizing history with
  | nil => rfl
  | cons call rest ih => rw [outcomes, List.length_cons, ih, List.length_cons]

/-- The bound over the checks behind one of a hash, up to a later one of it that is
accepted. -/
theorem count_between_le (history : History) (first last : Call) (between : List Call)
    (hsame : calcCrc32 first.p = calcCrc32 last.p)
    (haccepted : (check pars (after pars (check pars history first.p first.nowTs).1 between)
      last.p last.nowTs).2.1 = true) :
    ((outcomes pars (check pars history first.p first.nowTs).1 (between ++ [last])).count
      (true, calcCrc32 last.p) : ℚ) ≤
        pars.maxPerDt + (last.nowTs - first.nowTs) * (pars.maxPerDt / pars.dt) := by
  have hfirst : (limiter (check pars history first.p first.nowTs).1 (calcCrc32 last.p)).bucket =
      ((limiter history (calcCrc32 last.p)).bucket.request (pars.maxPerDt : ℚ)
        (pars.maxPerDt / pars.dt) first.nowTs).1 := by
    rw [limiter_check, if_pos hsame, RateLimiter.check_bucket]
  have hserved := haccepted
  simp only [check] at hserved
  rw [RateLimiter.check_answer] at hserved
  change ((limiter (after pars (check pars history first.p first.nowTs).1 between)
    (calcCrc32 last.p)).bucket.request _ _ _).2 = true at hserved
  rw [bucket_after, hfirst] at hserved
  have hlast : readingsOf (calcCrc32 last.p) [last] = [last.nowTs] := by simp [readingsOf]
  rw [count_outcomes, hfirst, readingsOf_append, hlast]
  exact taken_le_window _ _ _ _ hserved

/-- Of the checks behind the `i`-th one and up to the `j`-th, which is accepted and of the
same checksum, no more are accepted than the bucket holds and gains in between. -/
theorem accepted_le_window (history : History) (calls : List Call) (i j : ℕ) (first last : Call)
    (hij : i < j) (hfirst : calls[i]? = some first) (hlast : calls[j]? = some last)
    (hsame : calcCrc32 first.p = calcCrc32 last.p)
    (haccepted : (outcomes pars history calls)[j]? = some (true, calcCrc32 last.p)) :
    ((((outcomes pars history calls).take (j + 1)).drop (i + 1)).count
      (true, calcCrc32 last.p) : ℚ) ≤
        pars.maxPerDt + pars.maxPerDt / pars.dt * (last.nowTs - first.nowTs) := by
  obtain ⟨earlier, between, rest, rfl, rfl, rfl⟩ := exists_window hij hfirst hlast
  let opened := (check pars (after pars history earlier) first.p first.nowTs).1
  have hearlier := outcomes_length pars history earlier
  have hbetween := outcomes_length pars opened between
  rw [outcomes_append, outcomes, outcomes_append, outcomes, ← hearlier, ← hbetween] at haccepted ⊢
  rw [getElem?_last] at haccepted
  have hserved := Option.some.inj haccepted
  have hbound := count_between_le pars _ first last between hsame (congrArg Prod.fst hserved)
  rw [outcomes_append, outcomes, outcomes] at hbound
  rw [drop_take_window, mul_comm (_ / _)]
  exact hbound

/-- A run in which another content is checked in between. -/
theorem accepted_le_window_interleaved :
    ((((outcomes ⟨2, 10, 100⟩ ∅ [⟨[65], 100⟩, ⟨[66], 101⟩, ⟨[65], 101⟩]).take 3).drop 1).count
      (true, calcCrc32 [65]) : ℚ) ≤ (2 : ℤ) + (2 : ℤ) / 10 * (101 - 100) :=
  accepted_le_window ⟨2, 10, 100⟩ ∅ _ 0 2 ⟨[65], 100⟩ ⟨[65], 101⟩ (by decide) rfl rfl rfl
    (by decide +kernel)

end Seen

end HamRouter
