import HamRouter.Program.Crc
import Mathlib.Data.List.AList
import Mathlib.Data.Rat.Defs

/-! # Duplicate suppression of `seen.cpp` and `rate-limiter.cpp`

Time stamps and allowances are exact rationals. What the program keeps `const` in a
limiter, its rate and its interval, is passed to the functions instead. -/

namespace HamRouter

/-- `get_us_float()`, for what `get_us()` returned. -/
def getUsFloat (us : UInt64) : ℚ := us.toNat / 1000000

/-- The state of a `rate_limiter`. -/
structure RateLimiter where
  lastTs : ℚ
  allowance : ℚ
deriving DecidableEq

/-- `new rate_limiter(max_per_dt, dt)`. -/
def RateLimiter.fresh : RateLimiter := ⟨0, 0⟩

/-- `check()`, when the clock reads `nowTs`. -/
def RateLimiter.check (rate : ℤ) (per : ℚ) (r : RateLimiter) (nowTs : ℚ) : RateLimiter × Bool :=
  let timePassed := nowTs - r.lastTs
  let allowance := r.allowance + timePassed * (rate / per)
  let allowance := if allowance > rate then (rate : ℚ) else allowance
  if allowance < 1 then (⟨nowTs, allowance⟩, false)
  else (⟨nowTs, allowance - 1⟩, true)

/-- The limiter after checks at these values of `get_us()`. -/
def RateLimiter.after (rate : ℤ) (per : ℚ) (r : RateLimiter) (readings : List UInt64) :
    RateLimiter :=
  readings.foldl (fun r us => (r.check rate per (getUsFloat us)).1) r

/-- `get_last_ts()`: a conversion to `time_t` drops the fraction. -/
def RateLimiter.getLastTs (r : RateLimiter) : ℤ := r.lastTs.num.tdiv r.lastTs.den

/-- `seen_t`. -/
structure SeenPars where
  maxPerDt : ℤ
  dt : ℚ
  maxSeenElements : ℤ

namespace Seen

/-- The limiters, by the checksum of what they limit. -/
abbrev History := AList (fun _ : UInt32 => RateLimiter)

/-- The limiter of a hash, a new one if there is none. -/
def limiter (history : History) (hash : UInt32) : RateLimiter :=
  (history.lookup hash).getD .fresh

/-- `check(p, s)`, when the clock reads `nowTs`. -/
def check (pars : SeenPars) (history : History) (p : List UInt8) (nowTs : ℚ) :
    History × (Bool × UInt32) :=
  let hash := calcCrc32 p
  let checked := (limiter history hash).check pars.maxPerDt pars.dt nowTs
  (history.insert hash checked.1, (checked.2, hash))

/-- The contents checked and the clock at that moment. -/
structure Call where
  p : List UInt8
  nowTs : ℚ

/-- The history after a sequence of checks. -/
def after (pars : SeenPars) (history : History) (calls : List Call) : History :=
  calls.foldl (fun history call => (check pars history call.p call.nowTs).1) history

/-- What a sequence of checks returns. -/
def outcomes (pars : SeenPars) : History → List Call → List (Bool × UInt32)
  | _, [] => []
  | history, call :: rest =>
      let checked := check pars history call.p call.nowTs
      checked.2 :: outcomes pars checked.1 rest

/-! ## The eviction thread -/

/-- The vector of hashes and last checks that `operator()` collects. -/
def lastChecks (history : History) : List (UInt32 × ℤ) :=
  history.entries.map fun entry => (entry.1, entry.2.getLastTs)

/-- A result of `std::sort` with the comparison `a.second > b.second`: equal elements
may come out in any order. -/
structure Sorted (entries sorted : List (UInt32 × ℤ)) : Prop where
  perm : sorted.Perm entries
  descending : sorted.Pairwise fun a b => ¬ b.2 > a.2

/-- `int lower_bound`: the sum of `size_t`s wraps and is then narrowed. -/
def lowerBound (pars : SeenPars) (history : History) : ℤ :=
  (history.entries.length - pars.maxSeenElements + pars.maxSeenElements.tdiv 10).bmod 4294967296

/-- The loop that erases; `map.at(i)` throws behind the last element. -/
def eraseFirst : ℕ → List (UInt32 × ℤ) → History → Option History
  | 0, _, history => some history
  | _ + 1, [], _ => none
  | n + 1, entry :: rest, history => eraseFirst n rest (history.erase entry.1)

/-- One pass of `operator()` behind the wait, for the sorted vector. -/
def evict (pars : SeenPars) (history : History) (sorted : List (UInt32 × ℤ)) : Option History :=
  eraseFirst (lowerBound pars history).toNat sorted history

end Seen

end HamRouter
