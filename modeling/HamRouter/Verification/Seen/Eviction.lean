import HamRouter.Program.Ax25
import HamRouter.Program.Seen
import Mathlib.Data.Fintype.Card

/-! # What one eviction pass removes -/

namespace HamRouter.Seen

open List

/-- What a pass is for: fewer than `max_n` entries stay, and none of those is older than
one that went. -/
structure EvictsOldest (pars : SeenPars) (history left : History) : Prop where
  fewer : (left.entries.length : ℤ) < pars.maxSeenElements
  oldest : ∀ gone r kept k, history.lookup gone = some r → left.lookup gone = none →
    left.lookup kept = some k → r.getLastTs ≤ k.getLastTs

/-! ### Erasing a prefix of the vector -/

theorem length_erase (history : History) {hash : UInt32} (h : hash ∈ history) :
    (history.erase hash).entries.length + 1 = history.entries.length := by
  have hmem : hash ∈ history.keys := AList.mem_keys.mp h
  have hpos := List.length_pos_of_mem hmem
  have herase := List.length_erase_of_mem hmem
  rw [← AList.keys_erase] at herase
  simp only [AList.keys, List.keys, List.length_map] at herase hpos
  omega

/-- The loop erases what it is told to and nothing else. -/
theorem eraseFirst_spec (n : ℕ) (sorted : List (UInt32 × ℤ)) (history : History)
    (hn : n ≤ sorted.length) (hkeys : ∀ entry ∈ sorted, entry.1 ∈ history)
    (hnodup : (sorted.map Prod.fst).Nodup) :
    ∃ left, eraseFirst n sorted history = some left ∧
      left.entries.length + n = history.entries.length ∧
      ∀ hash, left.lookup hash =
        if hash ∈ (sorted.take n).map Prod.fst then none else history.lookup hash := by
  induction n generalizing sorted history with
  | zero => exact ⟨history, rfl, rfl, fun hash => by simp⟩
  | succ n ih =>
      cases sorted with
      | nil => simp at hn
      | cons entry rest =>
          obtain ⟨hentry, hrest⟩ := List.nodup_cons.mp hnodup
          have hstill : ∀ other ∈ rest, other.1 ∈ history.erase entry.1 := by
            intro other hother
            rw [AList.mem_erase]
            refine ⟨?_, hkeys other (List.mem_cons_of_mem _ hother)⟩
            intro hsame
            exact hentry (hsame ▸ List.mem_map_of_mem hother)
          obtain ⟨left, hleft, hlength, hlookup⟩ :=
            ih rest (history.erase entry.1) (by simpa using hn) hstill hrest
          have hone := length_erase history (hkeys entry List.mem_cons_self)
          refine ⟨left, hleft, by omega, ?_⟩
          intro hash
          rw [hlookup hash]
          by_cases hhash : hash = entry.1
          · subst hhash
            simp
          · simp [hhash]

/-! ### The vector against the history -/

variable {pars : SeenPars} {history : History} {sorted : List (UInt32 × ℤ)}

theorem mem_lastChecks {hash : UInt32} {ts : ℤ} :
    (hash, ts) ∈ lastChecks history ↔ ∃ r, history.lookup hash = some r ∧ r.getLastTs = ts := by
  constructor
  · intro h
    obtain ⟨⟨key, r⟩, hentry, heq⟩ := List.mem_map.mp h
    obtain ⟨rfl, rfl⟩ := Prod.mk.inj heq
    exact ⟨r, AList.mem_lookup_iff.mpr hentry, rfl⟩
  · intro h
    obtain ⟨r, hlookup, rfl⟩ := h
    exact List.mem_map.mpr ⟨⟨hash, r⟩, AList.mem_lookup_iff.mp hlookup, rfl⟩

theorem Sorted.length_eq (h : Sorted (lastChecks history) sorted) :
    sorted.length = history.entries.length := by
  rw [h.perm.length_eq, lastChecks, List.length_map]

theorem Sorted.nodup (h : Sorted (lastChecks history) sorted) : (sorted.map Prod.fst).Nodup := by
  rw [(h.perm.map Prod.fst).nodup_iff, lastChecks, List.map_map]
  exact history.keys_nodup

theorem Sorted.mem_history (h : Sorted (lastChecks history) sorted) :
    ∀ entry ∈ sorted, entry.1 ∈ history := by
  intro entry hentry
  obtain ⟨r, hlookup, _⟩ := mem_lastChecks.mp (h.perm.mem_iff.mp hentry)
  rw [← AList.lookup_isSome, hlookup]
  rfl

/-- There are no more entries than checksums. -/
theorem length_le (history : History) : history.entries.length ≤ 4294967296 := by
  have hnodup : (history.keys.map UInt32.toFin).Nodup :=
    history.keys_nodup.map fun _ _ h => UInt32.toFin_inj.mp h
  have hcard := hnodup.length_le_card
  rw [List.length_map, Fintype.card_fin] at hcard
  simpa [AList.keys, List.keys] using hcard

/-- The bound as the comment of the source has it, unless it does not fit an `int`: then it
is negative and nothing is erased. -/
theorem lowerBound_toNat (hmin : 1 ≤ pars.maxSeenElements)
    (hsize : pars.maxSeenElements ≤ history.entries.length) :
    (lowerBound pars history).toNat =
      if history.entries.length - pars.maxSeenElements + pars.maxSeenElements / 10 ≤ Ax25.intMax
      then (history.entries.length - pars.maxSeenElements + pars.maxSeenElements / 10).toNat
      else 0 := by
  have hlength := length_le history
  rw [lowerBound, Int.tdiv_eq_ediv_of_nonneg (by omega), Int.bmod_def]
  unfold Ax25.intMax
  split <;> split <;> omega

/-- One pass, whatever order the sort chose for equal times. -/
theorem evict_spec (hmin : 1 ≤ pars.maxSeenElements)
    (hsize : pars.maxSeenElements ≤ history.entries.length)
    (h : Sorted (lastChecks history) sorted) :
    ∃ left, evict pars history sorted = some left ∧
      left.entries.length + (lowerBound pars history).toNat = history.entries.length ∧
      ∀ hash, left.lookup hash =
        if hash ∈ (sorted.take (lowerBound pars history).toNat).map Prod.fst then none
        else history.lookup hash := by
  refine eraseFirst_spec _ sorted history ?_ h.mem_history h.nodup
  rw [h.length_eq, lowerBound_toNat hmin hsize]
  split <;> omega

/-- Elements in front in the sorted vector are not older. -/
theorem Sorted.take_drop (h : Sorted (lastChecks history) sorted) (n : ℕ) :
    ∀ gone ∈ sorted.take n, ∀ kept ∈ sorted.drop n, kept.2 ≤ gone.2 := by
  have hpairs := h.descending
  rw [← List.take_append_drop n sorted] at hpairs
  intro gone hgone kept hkept
  exact not_lt.mp ((List.pairwise_append.mp hpairs).2.2 gone hgone kept hkept)

/-- Two parts that agree everywhere across agree within. -/
theorem eq_of_eq_across {xs ys : List (UInt32 × ℤ)} (hxs : xs ≠ []) (hys : ys ≠ [])
    (h : ∀ x ∈ xs, ∀ y ∈ ys, x.2 = y.2) : ∀ a ∈ xs ++ ys, ∀ b ∈ xs ++ ys, a.2 = b.2 := by
  obtain ⟨x, hx⟩ := List.exists_mem_of_ne_nil xs hxs
  obtain ⟨y, hy⟩ := List.exists_mem_of_ne_nil ys hys
  have hall : ∀ a ∈ xs ++ ys, a.2 = y.2 := by
    intro a ha
    rcases List.mem_append.mp ha with ha | ha
    · exact h a ha y hy
    · exact (h x hx a ha).symm.trans (h x hx y hy)
  intro a ha b hb
  exact (hall a ha).trans (hall b hb).symm

/-- When nothing that went is later than what stays, the two parts of the vector agree: it
is sorted the other way. -/
theorem Sorted.eq_across (h : Sorted (lastChecks history) sorted) {left : History} {n : ℕ}
    (hlookup : ∀ hash, left.lookup hash =
      if hash ∈ (sorted.take n).map Prod.fst then none else history.lookup hash)
    (hleft : EvictsOldest pars history left) :
    ∀ gone ∈ sorted.take n, ∀ kept ∈ sorted.drop n, gone.2 = kept.2 := by
  intro gone hgone kept hkept
  obtain ⟨r, hr, hrts⟩ := mem_lastChecks.mp (h.perm.mem_iff.mp (List.mem_of_mem_take hgone))
  obtain ⟨k, hk, hkts⟩ := mem_lastChecks.mp (h.perm.mem_iff.mp (List.mem_of_mem_drop hkept))
  have hgone' : left.lookup gone.1 = none := by
    rw [hlookup, if_pos (List.mem_map_of_mem hgone)]
  have hkept' : left.lookup kept.1 = some k := by
    rw [hlookup, if_neg, hk]
    intro hboth
    have hnodup := h.nodup
    rw [← List.take_append_drop n sorted, List.map_append] at hnodup
    exact (List.nodup_append.mp hnodup).2.2 _ hboth _ (List.mem_map_of_mem hkept) rfl
  have hle := hleft.oldest gone.1 r kept.1 k hr hgone' hkept'
  rw [hrts, hkts] at hle
  exact le_antisymm hle (h.take_drop n gone hgone kept hkept)

/-- A pass does what it is for exactly when a tenth of the limit is at least one entry,
the bound fits an `int`, and the times of all entries are equal, so that their order does
not matter. -/
theorem evictsOldest_iff (hmin : 1 ≤ pars.maxSeenElements)
    (hsize : pars.maxSeenElements ≤ history.entries.length)
    (h : Sorted (lastChecks history) sorted) :
    (∃ left, evict pars history sorted = some left ∧ EvictsOldest pars history left) ↔
      10 ≤ pars.maxSeenElements ∧
      history.entries.length - pars.maxSeenElements + pars.maxSeenElements / 10 ≤ Ax25.intMax ∧
      ∀ a r b k, history.lookup a = some r → history.lookup b = some k →
        r.getLastTs = k.getLastTs := by
  obtain ⟨left, hleft, hlength, hlookup⟩ := evict_spec hmin hsize h
  have hbound := lowerBound_toNat hmin hsize
  constructor
  · intro hproperty
    obtain ⟨left', hleft', hkeeps⟩ := hproperty
    obtain rfl := Option.some.inj (hleft.symm.trans hleft')
    have hfewer := hkeeps.fewer
    have hfits : history.entries.length - pars.maxSeenElements + pars.maxSeenElements / 10 ≤
        Ax25.intMax := by
      by_contra hover
      rw [if_neg hover] at hbound
      omega
    rw [if_pos hfits] at hbound
    have hten : 10 ≤ pars.maxSeenElements := by omega
    refine ⟨hten, hfits, ?_⟩
    generalize (lowerBound pars history).toNat = n at hbound hlength hlookup
    have hsame := h.eq_across hlookup hkeeps
    have hfront : sorted.take n ≠ [] := by
      rw [← List.length_pos_iff, List.length_take, h.length_eq]
      omega
    have hback : sorted.drop n ≠ [] := by
      rw [← List.length_pos_iff, List.length_drop, h.length_eq]
      omega
    have hall := eq_of_eq_across hfront hback hsame
    rw [List.take_append_drop] at hall
    intro a r b k ha hb
    exact hall (a, r.getLastTs) (h.perm.mem_iff.mpr (mem_lastChecks.mpr ⟨r, ha, rfl⟩))
      (b, k.getLastTs) (h.perm.mem_iff.mpr (mem_lastChecks.mpr ⟨k, hb, rfl⟩))
  · intro hcondition
    obtain ⟨hten, hfits, hequal⟩ := hcondition
    refine ⟨left, hleft, ?_, ?_⟩
    · rw [if_pos hfits] at hbound
      omega
    · intro gone r kept k hgone _ hkept
      rw [hlookup] at hkept
      split at hkept
      · simp at hkept
      · exact (hequal gone r kept k hgone hkept).le

/-- Ten contents, each last checked one second after the one before. -/
def tenChecks : History :=
  (List.range 10).foldl (fun history (i : ℕ) => history.insert i.toUInt32 ⟨i, 0⟩) ∅

theorem tenChecks_sorted : Sorted (lastChecks tenChecks) (lastChecks tenChecks) where
  perm := .refl _
  descending := by decide +kernel

theorem evictsOldest_iff_tenChecks :
    (∃ left, evict ⟨1, 1, 10⟩ tenChecks (lastChecks tenChecks) = some left ∧
      EvictsOldest ⟨1, 1, 10⟩ tenChecks left) ↔
      (10 : ℤ) ≤ 10 ∧ (tenChecks.entries.length : ℤ) - 10 + 10 / 10 ≤ Ax25.intMax ∧
      ∀ a r b k, tenChecks.lookup a = some r → tenChecks.lookup b = some k →
        r.getLastTs = k.getLastTs :=
  evictsOldest_iff (by decide) (by decide) tenChecks_sorted

/-- With a limit of ten the entry that goes is the one checked last. -/
theorem not_evictsOldest_tenChecks :
    ¬ ∃ left, evict ⟨1, 1, 10⟩ tenChecks (lastChecks tenChecks) = some left ∧
      EvictsOldest ⟨1, 1, 10⟩ tenChecks left := by
  intro h
  obtain ⟨left, hleft, _, holdest⟩ := h
  have hgone : (evict ⟨1, 1, 10⟩ tenChecks (lastChecks tenChecks)).map (·.lookup 9) =
      some none := by decide +kernel
  have hkept : (evict ⟨1, 1, 10⟩ tenChecks (lastChecks tenChecks)).map (·.lookup 0) =
      some (some ⟨0, 0⟩) := by decide +kernel
  rw [hleft] at hgone hkept
  have hle := holdest 9 ⟨9, 0⟩ 0 ⟨0, 0⟩ (by decide +kernel) (Option.some.inj hgone)
    (Option.some.inj hkept)
  revert hle
  decide +kernel

end HamRouter.Seen
