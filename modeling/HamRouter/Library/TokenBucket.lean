import Mathlib.Algebra.Order.Field.Basic
import Mathlib.Tactic.Ring
import Mathlib.Tactic.Linarith

/-! # Token buckets

A bucket gains `rate` tokens per unit of time up to `cap`, and a request takes one token
if there is one. Readings of the clock are arbitrary, also decreasing. -/

namespace TokenBucket

variable {K : Type*} [Field K] [LinearOrder K]

/-- A bucket and the reading of its last request. -/
structure Bucket (K : Type*) where
  level : K
  stamp : K

/-- The level at a reading of the clock, before a request is served. -/
def Bucket.filled (cap rate : K) (b : Bucket K) (now : K) : K :=
  min (b.level + (now - b.stamp) * rate) cap

/-- One request: the bucket afterwards, and whether a token was taken. -/
def Bucket.request (cap rate : K) (b : Bucket K) (now : K) : Bucket K × Bool :=
  if b.filled cap rate now < 1 then (⟨b.filled cap rate now, now⟩, false)
  else (⟨b.filled cap rate now - 1, now⟩, true)

/-- The bucket after a list of requests. -/
def Bucket.after (cap rate : K) (b : Bucket K) (readings : List K) : Bucket K :=
  readings.foldl (fun b now => (b.request cap rate now).1) b

/-- The answers to a list of requests. -/
def Bucket.answers (cap rate : K) : Bucket K → List K → List Bool
  | _, [] => []
  | b, now :: rest =>
      (b.request cap rate now).2 :: Bucket.answers cap rate (b.request cap rate now).1 rest

section Request

variable (cap rate : K) (b : Bucket K) (now : K)

theorem request_of_lt (h : b.filled cap rate now < 1) :
    b.request cap rate now = (⟨b.filled cap rate now, now⟩, false) := if_pos h

theorem request_of_le (h : 1 ≤ b.filled cap rate now) :
    b.request cap rate now = (⟨b.filled cap rate now - 1, now⟩, true) := if_neg (not_lt.mpr h)

@[simp]
theorem request_stamp : (b.request cap rate now).1.stamp = now := by
  rcases lt_or_ge (b.filled cap rate now) 1 with h | h
  · rw [request_of_lt cap rate b now h]
  · rw [request_of_le cap rate b now h]

/-- A token is taken exactly when a whole one is there. -/
theorem request_taken_iff : (b.request cap rate now).2 = true ↔ 1 ≤ b.filled cap rate now := by
  rcases lt_or_ge (b.filled cap rate now) 1 with h | h
  · simp [request_of_lt cap rate b now h, h]
  · simp [request_of_le cap rate b now h, h]

/-- What one request does to the level, with the token it took on the left. -/
theorem level_add_taken :
    (b.request cap rate now).1.level + (if (b.request cap rate now).2 then 1 else 0) =
      b.filled cap rate now := by
  rcases lt_or_ge (b.filled cap rate now) 1 with h | h
  · simp [request_of_lt cap rate b now h]
  · simp [request_of_le cap rate b now h]

end Request

section Runs

variable {cap rate : K}

@[simp]
theorem after_nil (b : Bucket K) : b.after cap rate [] = b := rfl

@[simp]
theorem after_cons (b : Bucket K) (now : K) (rest : List K) :
    b.after cap rate (now :: rest) = (b.request cap rate now).1.after cap rate rest := rfl

theorem after_append (b : Bucket K) (earlier later : List K) :
    b.after cap rate (earlier ++ later) = (b.after cap rate earlier).after cap rate later :=
  List.foldl_append

end Runs

section Ordered

variable [IsStrictOrderedRing K] {cap rate : K}

theorem level_le_cap (cap rate : K) (b : Bucket K) (now : K) :
    (b.request cap rate now).1.level ≤ cap := by
  have hsum := level_add_taken cap rate b now
  have hcap : b.filled cap rate now ≤ cap := min_le_right _ _
  have htaken : (0 : K) ≤ if (b.request cap rate now).2 then 1 else 0 := by
    split
    · exact zero_le_one
    · exact le_refl 0
  linarith

theorem level_nonneg_of_taken {b : Bucket K} {now : K} (h : (b.request cap rate now).2 = true) :
    0 ≤ (b.request cap rate now).1.level := by
  have hfilled := (request_taken_iff cap rate b now).mp h
  rw [request_of_le cap rate b now hfilled]
  exact sub_nonneg.mpr hfilled

/-- A request keeps the level out of the negative exactly when the bucket is not drained
below zero by the clock. -/
theorem level_nonneg_iff (hcap : 0 ≤ cap) (rate : K) (b : Bucket K) (now : K) :
    0 ≤ (b.request cap rate now).1.level ↔ 0 ≤ b.level + (now - b.stamp) * rate := by
  have hfilled : 0 ≤ b.filled cap rate now ↔ 0 ≤ b.level + (now - b.stamp) * rate := by
    simp [Bucket.filled, hcap]
  rcases lt_or_ge (b.filled cap rate now) 1 with h | h
  · rw [request_of_lt cap rate b now h]
    exact hfilled
  · rw [request_of_le cap rate b now h]
    exact ⟨fun _ => hfilled.mp (zero_le_one.trans h), fun _ => sub_nonneg.mpr h⟩

/-- A bucket that is not in debt gives a token once enough time for one cap has passed. -/
theorem taken_of_refilled (hcap : 1 ≤ cap) {b : Bucket K} {now : K} (hlevel : 0 ≤ b.level)
    (hpassed : cap ≤ (now - b.stamp) * rate) : (b.request cap rate now).2 = true := by
  rw [request_taken_iff]
  exact le_min (by linarith) hcap

/-! ### Runs -/

/-- The tokens taken and the level together never gain more than `rate` allows. -/
theorem taken_add_level_le (cap rate : K) (b : Bucket K) (readings : List K) :
    ((b.answers cap rate readings).count true : K) + (b.after cap rate readings).level ≤
      b.level + ((b.after cap rate readings).stamp - b.stamp) * rate := by
  induction readings generalizing b with
  | nil => simp [Bucket.answers]
  | cons now rest ih =>
      have hrest := ih (b.request cap rate now).1
      have hsum := level_add_taken cap rate b now
      have hfilled : b.filled cap rate now ≤ b.level + (now - b.stamp) * rate := min_le_left _ _
      rw [request_stamp] at hrest
      rw [after_cons, Bucket.answers, List.count_cons]
      push_cast
      simp only [beq_iff_eq]
      linarith

/-- The window bound: from a request on, up to one that is served, no more tokens are
taken than the cap and the time passed allow. -/
theorem taken_le_window (b : Bucket K) (first last : K) (between : List K)
    (hserved : (((b.request cap rate first).1.after cap rate between).request cap rate last).2 =
      true) :
    (((b.request cap rate first).1.answers cap rate (between ++ [last])).count true : K) ≤
      cap + (last - first) * rate := by
  have hbound := taken_add_level_le cap rate (b.request cap rate first).1
    (between ++ [last])
  have hcap := level_le_cap cap rate b first
  have hend := level_nonneg_of_taken hserved
  rw [after_append, after_cons, after_nil, request_stamp, request_stamp] at hbound
  linarith

end Ordered

/-! ## Buckets that are replaced -/

/-- A request, or a bucket that takes the place of the old one. -/
inductive Event (K : Type*) where
  | request (now : K)
  | replace (b : Bucket K)

/-- The tokens taken in a sequence of events. -/
def Bucket.taken (cap rate : K) : Bucket K → List (Event K) → ℕ
  | _, [] => 0
  | b, .request now :: rest =>
      (if (b.request cap rate now).2 then 1 else 0) +
        Bucket.taken cap rate (b.request cap rate now).1 rest
  | _, .replace b :: rest => Bucket.taken cap rate b rest

def replacements : List (Event K) → ℕ
  | [] => 0
  | .request _ :: rest => replacements rest
  | .replace _ :: rest => replacements rest + 1

/-- The readings go up from one to another. -/
def Ascending : K → List (Event K) → K → Prop
  | now, [], last => now ≤ last
  | now, .request next :: rest, last => now ≤ next ∧ Ascending next rest last
  | now, .replace _ :: rest, last => Ascending now rest last

section Replaced

variable [IsStrictOrderedRing K] {cap rate : K}

/-- What a request takes and leaves is there before it, or is gained since the last one. -/
theorem taken_add_level_le_of_stamp (cap : K) (hrate : 0 ≤ rate) {b : Bucket K} {now : K}
    (h : b.stamp ≤ now) :
    ((if (b.request cap rate now).2 then 1 else 0 : ℕ) : K) +
        max (b.request cap rate now).1.level 0 ≤
      max b.level 0 + (now - b.stamp) * rate := by
  have hgain : 0 ≤ (now - b.stamp) * rate := mul_nonneg (sub_nonneg.mpr h) hrate
  have hfilled : b.filled cap rate now ≤ b.level + (now - b.stamp) * rate := min_le_left _ _
  have hlevel : b.level ≤ max b.level 0 := le_max_left _ _
  have hzero : 0 ≤ max b.level 0 := le_max_right _ _
  rcases lt_or_ge (b.filled cap rate now) 1 with hless | hone
  · rw [request_of_lt cap rate b now hless]
    simp only [Bool.false_eq_true, if_false, Nat.cast_zero, zero_add]
    exact max_le (by linarith) (by linarith)
  · rw [request_of_le cap rate b now hone]
    simp only [if_true, Nat.cast_one, max_eq_left (sub_nonneg.mpr hone)]
    linarith

/-- No request takes and leaves more than the cap. -/
theorem taken_add_level_le_cap (hcap : 0 ≤ cap) (rate : K) (b : Bucket K) (now : K) :
    ((if (b.request cap rate now).2 then 1 else 0 : ℕ) : K) +
        max (b.request cap rate now).1.level 0 ≤ cap := by
  have hfilled : b.filled cap rate now ≤ cap := min_le_right _ _
  rcases lt_or_ge (b.filled cap rate now) 1 with hless | hone
  · rw [request_of_lt cap rate b now hless]
    simp only [Bool.false_eq_true, if_false, Nat.cast_zero, zero_add]
    exact max_le hfilled hcap
  · rw [request_of_le cap rate b now hone]
    simp only [if_true, Nat.cast_one, max_eq_left (sub_nonneg.mpr hone)]
    linarith

/-- The bound from a bucket that was just requested, and from one that was just put in
place: each replacement gives one more cap. -/
theorem taken_le_replacements (hcap : 0 ≤ cap) (hrate : 0 ≤ rate) {events : List (Event K)}
    {now last : K} (h : Ascending now events last) :
    (∀ b : Bucket K, b.stamp = now →
      (b.taken cap rate events : K) ≤
        replacements events * cap + max b.level 0 + (last - now) * rate) ∧
    ∀ b : Bucket K, (b.taken cap rate events : K) ≤
      (replacements events + 1) * cap + (last - now) * rate := by
  induction events generalizing now with
  | nil =>
      have hgain : 0 ≤ (last - now) * rate := mul_nonneg (sub_nonneg.mpr h) hrate
      refine ⟨?_, ?_⟩
      · intro b _
        have hzero : 0 ≤ max b.level 0 := le_max_right _ _
        simp only [Bucket.taken, replacements, Nat.cast_zero, zero_mul, zero_add]
        linarith
      · intro b
        simp only [Bucket.taken, replacements, Nat.cast_zero, zero_add, one_mul]
        linarith
  | cons event rest ih =>
      cases event with
      | request next =>
          obtain ⟨hnext, hrest⟩ := h
          have hgain : 0 ≤ (next - now) * rate := mul_nonneg (sub_nonneg.mpr hnext) hrate
          refine ⟨?_, ?_⟩
          · rintro b rfl
            have hlater := (ih hrest).1 (b.request cap rate next).1 (request_stamp cap rate b next)
            have hone := taken_add_level_le_of_stamp cap hrate hnext
            rw [Bucket.taken, replacements, Nat.cast_add]
            linarith
          · intro b
            have hlater := (ih hrest).1 (b.request cap rate next).1 (request_stamp cap rate b next)
            have hone := taken_add_level_le_cap hcap rate b next
            rw [Bucket.taken, replacements, Nat.cast_add]
            linarith
      | replace b' =>
          have hlater := (ih h).2 b'
          refine ⟨?_, ?_⟩
          · intro b _
            have hzero : 0 ≤ max b.level 0 := le_max_right _ _
            rw [Bucket.taken, replacements, Nat.cast_add, Nat.cast_one]
            linarith
          · intro b
            rw [Bucket.taken, replacements, Nat.cast_add, Nat.cast_one]
            linarith

end Replaced

end TokenBucket
