import HamRouter.Model.SeenRun
import HamRouter.Verification.Seen.Eviction
import HamRouter.Verification.Seen.Limiter

/-! # What evictions cost the rate limit -/

namespace HamRouter.Seen

open TokenBucket

variable (pars : SeenPars) (hash : UInt32)

/-! ## One limiter -/

/-- What a pass leaves of the limiters. -/
theorem lookup_eraseFirst {n : ℕ} {vector : List (UInt32 × ℤ)} {history left : History}
    (h : eraseFirst n vector history = some left) :
    left.lookup hash = none ∨ left.lookup hash = history.lookup hash := by
  induction n generalizing vector history with
  | zero =>
      obtain rfl := Option.some.inj h
      exact Or.inr rfl
  | succ n ih =>
      cases vector with
      | nil => cases h
      | cons entry rest =>
          rcases ih h with hnone | hsame
          · exact Or.inl hnone
          · by_cases hentry : hash = entry.1
            · subst hentry
              rw [AList.lookup_erase] at hsame
              exact Or.inl hsame
            · rw [AList.lookup_erase_ne hentry] at hsame
              exact Or.inr hsame

/-- A limiter is new behind a pass that throws it away, and the same behind any other. -/
theorem limiter_evict {vector : List (UInt32 × ℤ)} {history left : History}
    (h : evict pars history vector = some left) :
    limiter left hash =
      if hash ∈ history ∧ hash ∉ left then RateLimiter.fresh else limiter history hash := by
  rcases lookup_eraseFirst hash h with hnone | hsame
  · have hleft : hash ∉ left := AList.lookup_eq_none.mp hnone
    rw [limiter, hnone]
    by_cases hbefore : hash ∈ history
    · rw [if_pos ⟨hbefore, hleft⟩]
      rfl
    · rw [if_neg (fun hboth => hbefore hboth.1), limiter, AList.lookup_eq_none.mpr hbefore]
  · have hkept : ¬ (hash ∈ history ∧ hash ∉ left) := by
      rintro ⟨hbefore, hleft⟩
      rw [AList.lookup_eq_none.mpr hleft] at hsame
      exact AList.lookup_eq_none.mp hsame.symm hbefore
    rw [if_neg hkept, limiter, hsame, limiter]

/-! ## A run as the events of one bucket -/

def fresh : Bucket ℚ := RateLimiter.fresh.bucket

/-- What a run does to the bucket of a checksum. -/
def bucketEvents : History → List Event → List (TokenBucket.Event ℚ)
  | _, [] => []
  | history, .check call :: rest =>
      let next := (check pars history call.p call.nowTs).1
      if calcCrc32 call.p = hash then .request call.nowTs :: bucketEvents next rest
      else bucketEvents next rest
  | history, .evict vector :: rest =>
      match evict pars history vector with
      | none => []
      | some left =>
          if hash ∈ history ∧ hash ∉ left then .replace fresh :: bucketEvents left rest
          else bucketEvents left rest

/-- An accepted check counts for its own checksum. -/
theorem accepted_check (s : Counted) (call : Call) :
    (s.check pars call).1.accepted hash = s.accepted hash +
      if calcCrc32 call.p = hash ∧ (s.check pars call).2.1 = true then 1 else 0 := by
  by_cases hhash : calcCrc32 call.p = hash
  · subst hhash
    cases hok : (check pars s.history call.p call.nowTs).2.1 with
    | false => simp [Counted.check, hok]
    | true =>
        simp only [Counted.check, hok, if_true, and_self]
        exact Function.update_self _ _ _
  · rw [if_neg (fun hboth => hhash hboth.1), Nat.add_zero]
    cases hok : (check pars s.history call.p call.nowTs).2.1 with
    | false =>
        rw [Counted.check, hok]
        rfl
    | true =>
        rw [Counted.check, hok]
        exact Function.update_of_ne (Ne.symm hhash) _ _

theorem accepted_check_bucket (s : Counted) (call : Call) :
    (s.check pars call).1.accepted hash = s.accepted hash +
      if calcCrc32 call.p = hash ∧ ((limiter s.history hash).bucket.request (pars.maxPerDt : ℚ)
        (pars.maxPerDt / pars.dt) call.nowTs).2 = true then 1 else 0 := by
  rw [accepted_check, ← RateLimiter.check_answer]
  by_cases hhash : calcCrc32 call.p = hash
  · subst hhash
    rfl
  · rw [if_neg (fun hboth => hhash hboth.1), if_neg (fun hboth => hhash hboth.1)]

/-- A run counts what the bucket hands out, and how often it is replaced. -/
theorem counted_run {events : List Event} {s s' : Counted}
    (h : Transition.run (step pars) events s = some s') :
    s'.accepted hash = s.accepted hash +
        (limiter s.history hash).bucket.taken (pars.maxPerDt : ℚ) (pars.maxPerDt / pars.dt)
          (bucketEvents pars hash s.history events) ∧
      s'.evicted hash = s.evicted hash + replacements (bucketEvents pars hash s.history events) := by
  induction events generalizing s with
  | nil =>
      obtain rfl := Option.some.inj h
      exact ⟨rfl, rfl⟩
  | cons event rest ih =>
      obtain ⟨next, hstep, hrest⟩ := Option.bind_eq_some_iff.mp h
      obtain ⟨haccepted, hevicted⟩ := ih hrest
      cases event with
      | check call =>
          obtain rfl := Option.some.inj hstep
          have hlimiter := limiter_check pars s.history call.p call.nowTs hash
          have hone := accepted_check_bucket pars hash s call
          change limiter (s.check pars call).1.history hash = _ at hlimiter
          rw [bucketEvents]
          by_cases hhash : calcCrc32 call.p = hash
          · rw [if_pos hhash] at hlimiter
            rw [hone, hlimiter, RateLimiter.check_bucket] at haccepted
            rw [if_pos hhash, Bucket.taken, replacements, haccepted]
            refine ⟨?_, hevicted⟩
            simp only [hhash, true_and, Nat.add_assoc]
            rfl
          · rw [if_neg hhash] at hlimiter
            rw [hone, hlimiter] at haccepted
            rw [if_neg hhash, haccepted]
            refine ⟨?_, hevicted⟩
            simp only [hhash, false_and, if_false, Nat.add_zero]
            rfl
      | evict vector =>
          obtain ⟨left, hleft, rfl⟩ := Option.map_eq_some_iff.mp hstep
          have hlimiter := limiter_evict pars hash hleft
          rw [bucketEvents, hleft]
          dsimp only at haccepted hevicted ⊢
          by_cases hgone : hash ∈ s.history ∧ hash ∉ left
          · rw [if_pos hgone] at hlimiter hevicted ⊢
            rw [hlimiter] at haccepted
            rw [Bucket.taken, replacements, haccepted, hevicted]
            refine ⟨rfl, ?_⟩
            omega
          · rw [if_neg hgone] at hlimiter hevicted ⊢
            rw [hlimiter] at haccepted
            exact ⟨haccepted, hevicted⟩

theorem ascending_bucketEvents {events : List Event} {s s' : Counted}
    (h : Transition.run (step pars) events s = some s') {first last : ℚ}
    (hreadings : (first :: (readings hash events ++ [last])).IsChain (· ≤ ·)) :
    Ascending first (bucketEvents pars hash s.history events) last := by
  induction events generalizing s first with
  | nil => exact (List.isChain_cons_cons.mp hreadings).1
  | cons event rest ih =>
      obtain ⟨next, hstep, hrest⟩ := Option.bind_eq_some_iff.mp h
      cases event with
      | check call =>
          obtain rfl := Option.some.inj hstep
          rw [readings] at hreadings
          rw [bucketEvents]
          by_cases hhash : calcCrc32 call.p = hash
          · rw [if_pos hhash, List.cons_append, List.isChain_cons_cons] at hreadings
            rw [if_pos hhash]
            exact ⟨hreadings.1, ih hrest hreadings.2⟩
          · rw [if_neg hhash] at hreadings
            rw [if_neg hhash]
            exact ih hrest hreadings
      | evict vector =>
          obtain ⟨left, hleft, rfl⟩ := Option.map_eq_some_iff.mp hstep
          have hlater := ih hrest hreadings
          rw [bucketEvents, hleft]
          dsimp only
          split
          · exact hlater
          · exact hlater

theorem readings_append (hash : UInt32) (front back : List Event) :
    readings hash (front ++ back) = readings hash front ++ readings hash back := by
  induction front with
  | nil => rfl
  | cons event rest ih =>
      cases event with
      | check call =>
          rw [List.cons_append, readings, readings, ih]
          split
          · rfl
          · rfl
      | evict vector => exact ih

/-- In any run in which the clock does not step back, no more checks of a checksum are
accepted than its limiter allows, and once more its rate for each time the limiter was thrown
away. -/
theorem accepted_le_evicted (hrate : 0 ≤ pars.maxPerDt) (hdt : 0 < pars.dt) {events : List Event}
    {s s' : Counted} (h : Transition.run (step pars) events s = some s') {first last : ℚ}
    (hreadings : (first :: (readings hash events ++ [last])).IsChain (· ≤ ·)) :
    (s'.accepted hash - s.accepted hash : ℚ) ≤
      (s'.evicted hash - s.evicted hash + 1) * pars.maxPerDt +
        pars.maxPerDt / pars.dt * (last - first) := by
  obtain ⟨haccepted, hevicted⟩ := counted_run pars hash h
  have hcap : (0 : ℚ) ≤ pars.maxPerDt := Int.cast_nonneg hrate
  have hbound := (taken_le_replacements hcap (div_nonneg hcap hdt.le)
    (ascending_bucketEvents pars hash h hreadings)).2 (limiter s.history hash).bucket
  rw [haccepted, hevicted]
  push_cast
  rw [add_sub_cancel_left, add_sub_cancel_left, mul_comm (_ / _)]
  exact hbound

end HamRouter.Seen
