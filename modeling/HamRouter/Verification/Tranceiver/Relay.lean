import HamRouter.Verification.Seen.Limiter
import HamRouter.Verification.Tranceiver.Receive

/-! # What is sent again stays within the bound of the limiter

First for any path, then for the AXUDP loop and the LoRa callback, which are paths. -/

namespace HamRouter.Tranceiver

open Seen Window

namespace Path

variable {ι : Type*} (path : Path ι) (s : Option SeenPars) (pars : SeenPars)

/-! ## Runs -/

theorem run_append (history : History) (xs ys : List ι) :
    path.run s history (xs ++ ys) =
      path.run s history xs ++ path.run s (xs.foldl (path.next s) history) ys := by
  induction xs generalizing history with
  | nil => rfl
  | cons x xs ih =>
      rw [List.cons_append, run, ih]
      rfl

theorem length_run (history : History) (inputs : List ι) :
    (path.run s history inputs).length = inputs.length := by
  induction inputs generalizing history with
  | nil => rfl
  | cons input rest ih => rw [run, List.length_cons, ih, List.length_cons]

theorem calls_cons (input : ι) (rest : List ι) :
    path.calls (input :: rest) =
      if path.checks input then ⟨path.content input, path.nowTs input⟩ :: path.calls rest
      else path.calls rest := by
  by_cases h : path.checks input = true
  · simp [calls, h]
  · simp [calls, h]

theorem foldl_next (history : History) (inputs : List ι) :
    inputs.foldl (path.next (some pars)) history = after pars history (path.calls inputs) := by
  induction inputs generalizing history with
  | nil => rfl
  | cons input rest ih =>
      rw [List.foldl_cons, ih, calls_cons, next]
      by_cases h : path.checks input = true
      · rw [if_pos h, if_pos h]
        rfl
      · rw [if_neg h, if_neg h]

theorem calls_append (xs ys : List ι) : path.calls (xs ++ ys) = path.calls xs ++ path.calls ys := by
  simp [calls]

theorem handle_content (history : History) (input : ι) :
    (path.handle s history input).content = path.content input := by
  rw [handle]
  split
  · rfl
  · rfl

theorem handle_nowTs (history : History) (input : ι) :
    (path.handle s history input).nowTs = path.nowTs input := by
  rw [handle]
  split
  · rfl
  · rfl

theorem handle_checked_iff (history : History) (input : ι) :
    (path.handle s history input).rc.isSome = true ↔ path.checks input = true := by
  rw [handle]
  by_cases h : path.checks input = true
  · simp [h]
  · simp [h]

/-! ## Refused packets -/

theorem handle_refused_iff (history : History) (input : ι) :
    (path.handle s history input).rc = some .ratelimiting ↔
      path.checks input = true ∧
        (rateLimit s history (path.content input) (path.nowTs input)).2.1 = false := by
  rw [handle]
  by_cases h : path.checks input = true
  · cases hok : (rateLimit s history (path.content input) (path.nowTs input)).2.1 with
    | false => simp [h]
    | true => simp [h]
  · simp [h]

theorem refusedStay_cons {packet : Handled} {packets : List Handled} :
    RefusedStay (packet :: packets) ↔
      (packet.rc = some .ratelimiting → packet.resent = false) ∧ RefusedStay packets :=
  List.forall_mem_cons

/-- A path that sends nothing with a refusal keeps to the verdicts. -/
theorem refusedStay_of_resends (h : ∀ input, path.resends input false = false)
    (history : History) (inputs : List ι) : RefusedStay (path.run s history inputs) := by
  induction inputs generalizing history with
  | nil => simp [RefusedStay, run]
  | cons input rest ih =>
      refine refusedStay_cons.mpr ⟨?_, ih _⟩
      intro hrefused
      obtain ⟨hchecks, hok⟩ := (path.handle_refused_iff s history input).mp hrefused
      rw [handle, hok, if_pos hchecks]
      exact h input

/-- Of a packet that is sent again the check was accepted. -/
theorem accepted_of_resent {history : History} {input : ι}
    (hstay : (path.handle (some pars) history input).rc = some .ratelimiting →
      (path.handle (some pars) history input).resent = false)
    (hresent : (path.handle (some pars) history input).resent = true) :
    path.checks input = true ∧
      (check pars history (path.content input) (path.nowTs input)).2.1 = true := by
  have hchecks : path.checks input = true := by
    by_contra hnot
    rw [handle, if_neg hnot] at hresent
    exact absurd hresent (by simp)
  refine ⟨hchecks, ?_⟩
  by_contra hnot
  have hrefused := (path.handle_refused_iff (some pars) history input).mpr
    ⟨hchecks, Bool.eq_false_iff.mpr hnot⟩
  rw [hstay hrefused] at hresent
  exact absurd hresent (by simp)

/-! ## The bound -/

/-- What is sent again of a checksum was accepted. -/
theorem countP_resent_le (hash : UInt32) (history : History) (inputs : List ι)
    (hstay : RefusedStay (path.run (some pars) history inputs)) :
    (path.run (some pars) history inputs).countP
        (fun packet => packet.resent && calcCrc32 packet.content = hash) ≤
      (outcomes pars history (path.calls inputs)).count (true, hash) := by
  induction inputs generalizing history with
  | nil => simp [run]
  | cons input rest ih =>
      obtain ⟨hfirst, hrest⟩ := refusedStay_cons.mp hstay
      have htail := ih _ hrest
      rw [run, List.countP_cons, calls_cons]
      by_cases hchecks : path.checks input = true
      · rw [next, if_pos hchecks] at htail
        rw [if_pos hchecks, outcomes, List.count_cons, next, if_pos hchecks]
        refine Nat.add_le_add htail ?_
        by_cases hcounted : (path.handle (some pars) history input).resent = true ∧
            calcCrc32 (path.content input) = hash
        · have hok := (path.accepted_of_resent pars hfirst hcounted.1).2
          have houtcome : (check pars history (path.content input) (path.nowTs input)).2 =
              (true, hash) := Prod.ext hok hcounted.2
          simp [houtcome, apply_ite (· ≤ 1)]
        · have hnot : ((path.handle (some pars) history input).resent &&
              calcCrc32 (path.handle (some pars) history input).content = hash) = false := by
            simpa [handle_content] using hcounted
          simp [hnot]
      · rw [next, if_neg hchecks] at htail
        rw [if_neg hchecks, next, if_neg hchecks]
        have hresent : (path.handle (some pars) history input).resent = false := by
          rw [handle, if_neg hchecks]
        simpa [hresent] using htail

/-- The bound for two inputs of a run and those between them. -/
theorem countP_between_le (history : History) (a b : ι) (between : List ι)
    (hstay : RefusedStay (path.run (some pars) (path.next (some pars) history a)
      (between ++ [b])))
    (ha : path.checks a = true)
    (hb : (path.handle (some pars)
      (between.foldl (path.next (some pars)) (path.next (some pars) history a)) b).resent = true)
    (hsame : calcCrc32 (path.content a) = calcCrc32 (path.content b)) :
    ((path.run (some pars) (path.next (some pars) history a) (between ++ [b])).countP
        (fun packet => packet.resent && calcCrc32 packet.content = calcCrc32 (path.content b)) :
          ℚ) ≤
      pars.maxPerDt + pars.maxPerDt / pars.dt * (path.nowTs b - path.nowTs a) := by
  have hnext : path.next (some pars) history a =
      (check pars history (path.content a) (path.nowTs a)).1 := if_pos ha
  have hcount := path.countP_resent_le pars (calcCrc32 (path.content b)) _ _ hstay
  rw [run_append] at hstay
  have hlast : RefusedStay (path.run (some pars)
      (between.foldl (path.next (some pars)) (path.next (some pars) history a)) [b]) :=
    fun packet hpacket => hstay packet (List.mem_append_right _ hpacket)
  have haccepted := path.accepted_of_resent pars (refusedStay_cons.mp hlast).1 hb
  rw [foldl_next, hnext] at haccepted
  have hbound := count_between_le pars history ⟨path.content a, path.nowTs a⟩
    ⟨path.content b, path.nowTs b⟩ (path.calls between) hsame haccepted.2
  rw [hnext, calls_append, calls_cons, if_pos haccepted.1] at hcount
  rw [mul_comm, hnext]
  exact (Nat.cast_le.mpr hcount).trans hbound

/-- A path that keeps to the verdicts stays within the bound. -/
theorem withinBound_of_refusedStay (history : History) (inputs : List ι)
    (hstay : RefusedStay (path.run (some pars) history inputs)) :
    WithinBound pars (path.run (some pars) history inputs) := by
  intro i j first last hij hi hj hchecked hresent hsame
  have hlength := path.length_run (some pars) history inputs
  have hj' : j < inputs.length := hlength ▸ (List.getElem?_eq_some_iff.mp hj).1
  obtain ⟨a, ha⟩ : ∃ a, inputs[i]? = some a := ⟨_, List.getElem?_eq_getElem (hij.trans hj')⟩
  obtain ⟨b, hb⟩ : ∃ b, inputs[j]? = some b := ⟨_, List.getElem?_eq_getElem hj'⟩
  obtain ⟨earlier, between, rest, rfl, rfl, rfl⟩ := exists_window hij ha hb
  have hearlier := path.length_run (some pars) history earlier
  have hbetween := path.length_run (some pars)
    (path.next (some pars) (earlier.foldl (path.next (some pars)) history) a) between
  rw [run_append, run, ← hearlier, getElem?_first] at hi
  obtain rfl := Option.some.inj hi
  rw [run_append, run, run_append, run] at hj hstay ⊢
  rw [← hearlier, ← hbetween] at hj ⊢
  rw [getElem?_last] at hj
  obtain rfl := Option.some.inj hj
  rw [drop_take_window]
  have hwindow := path.run_append (some pars)
    (path.next (some pars) (earlier.foldl (path.next (some pars)) history) a) between [b]
  have hkept : RefusedStay (path.run (some pars)
      (path.next (some pars) (earlier.foldl (path.next (some pars)) history) a)
      (between ++ [b])) := by
    intro packet hpacket
    rw [hwindow] at hpacket
    refine hstay packet (List.mem_append_right _ (List.mem_cons_of_mem _ ?_))
    rcases List.mem_append.mp hpacket with hmem | hmem
    · exact List.mem_append_left _ hmem
    · obtain rfl := List.mem_singleton.mp hmem
      exact List.mem_append_right _ List.mem_cons_self
  have hbound := path.countP_between_le pars _ a b between hkept
    ((path.handle_checked_iff (some pars) _ a).mp hchecked) hresent
    (by simpa only [handle_content] using hsame)
  rw [hwindow, run, run] at hbound
  simpa only [handle_content, handle_nowTs] using hbound

/-- A path that keeps to the verdicts of its limiter is limited. -/
theorem limited_iff (history : History) (inputs : List ι) :
    Limited s (path.run s history inputs) ↔ RefusedStay (path.run s history inputs) := by
  constructor
  · exact fun h => h.refused
  · intro h
    refine ⟨h, ?_⟩
    rintro pars rfl
    exact path.withinBound_of_refusedStay pars history inputs h

end Path

end HamRouter.Tranceiver

/-! ## The two paths -/

namespace HamRouter.Axudp

open Tranceiver

variable {τ : Type*} (cfg : Config) (t : Station) (this : τ)

/-- The loop of `operator()` is a path. -/
theorem run_eq (history : Seen.History) (rs : List Reception) :
    run cfg t this history rs = (path cfg this).run t.s history rs := by
  induction rs generalizing history with
  | nil => rfl
  | cons r rs ih =>
      obtain ⟨hhistory, hrc⟩ := receive_eq t this history r.nowTs r.env cfg r.datagram
      have hnext : (receive r.env cfg t this history r.datagram r.nowTs).history =
          (path cfg this).next t.s history r := by
        rw [hhistory, Path.next]
        simp [path]
      have hhandle : handle cfg t this history r = (path cfg this).handle t.s history r := by
        rw [handle, Path.handle, hrc, receive_sent]
        by_cases hlength : r.datagram.buffer.length > 2
        · cases hok : (rateLimit t.s history r.datagram.content r.nowTs).2.1 with
          | false => simp [path, Relayed, hlength, hok]
          | true =>
              cases hdistribute : cfg.distribute with
              | false => simp [path, Relayed, hlength, hok, hdistribute]
              | true => simp [path, Relayed, hlength, hok, hdistribute]
        · simp [path, Relayed, hlength]
      rw [run, Path.run, ih, hnext, hhandle]

theorem limited_run (history : Seen.History) (rs : List Reception) :
    Limited t.s (run cfg t this history rs) := by
  rw [run_eq, Path.limited_iff]
  exact Path.refusedStay_of_resends _ _ (fun r => by simp [path]) history rs

end HamRouter.Axudp

namespace HamRouter.Lora

open Tranceiver

variable {τ : Type*} (isDigipeater : Bool) (t : Station) (this : τ)

/-- The callback is a path. -/
theorem run_eq (history : Seen.History) (rs : List Reception) :
    run isDigipeater t this history rs = (path isDigipeater).run t.s history rs := by
  induction rs generalizing history with
  | nil => rfl
  | cons r rs ih =>
      obtain ⟨hhistory, hrc, hput⟩ := rxF_eq t this history r.nowTs isDigipeater r.rx
      have hnext : (rxF isDigipeater t this history r.rx r.nowTs).history =
          (path isDigipeater).next t.s history r := by
        rw [hhistory, Path.next]
        simp [path]
      have hhandle : handle isDigipeater t this history r =
          (path isDigipeater).handle t.s history r := by
        rw [handle, Path.handle, hrc, hput]
        by_cases hvalid : r.rx.Valid
        · simp [path, hvalid]
          rfl
        · simp [path, hvalid]
      rw [run, Path.run, ih, hnext, hhandle]

theorem allAccepted_cons (pars : SeenPars) (history : Seen.History) (r : Reception)
    (rs : List Reception) :
    AllAccepted isDigipeater (some pars) history (r :: rs) ↔
      (isDigipeater = true → r.rx.Valid →
        (Seen.check pars history r.rx.content r.nowTs).2.1 = true) ∧
      AllAccepted isDigipeater (some pars) ((path isDigipeater).next (some pars) history r) rs := by
  simp only [AllAccepted, Option.some.injEq, forall_eq']
  rw [← forall_and]
  refine forall_congr' fun _ => ?_
  by_cases hvalid : r.rx.Valid
  · have hnext : (path isDigipeater).next (some pars) history r =
        (Seen.check pars history r.rx.content r.nowTs).1 := by
      rw [Path.next, if_pos (by simpa [path] using hvalid)]
      rfl
    rw [List.filter_cons_of_pos (by simpa using hvalid), List.map_cons, Seen.outcomes,
      List.forall_mem_cons, hnext]
    simp [hvalid]
  · have hnext : (path isDigipeater).next (some pars) history r = history := by
      rw [Path.next, if_neg (by simpa [path] using hvalid)]
    rw [List.filter_cons_of_neg (by simpa using hvalid), hnext]
    simp [hvalid]

/-- A digipeater keeps to the verdicts exactly when there is nothing to refuse. -/
theorem refusedStay_run_iff (s : Option SeenPars) (history : Seen.History)
    (rs : List Reception) :
    RefusedStay ((path isDigipeater).run s history rs) ↔
      AllAccepted isDigipeater s history rs := by
  induction rs generalizing history with
  | nil => simp [RefusedStay, Path.run, AllAccepted, Seen.outcomes]
  | cons r rs ih =>
      rw [Path.run, Path.refusedStay_cons, ih, Path.handle_refused_iff]
      cases s with
      | none => simp [AllAccepted, rateLimit]
      | some pars =>
          rw [allAccepted_cons]
          refine and_congr_left fun _ => ?_
          have hresent : ((path isDigipeater).handle (some pars) history r).resent =
              (decide r.rx.Valid && isDigipeater) := by
            rw [Path.handle]
            by_cases hvalid : r.rx.Valid
            · simp [path, hvalid]
            · simp [path, hvalid]
          have hchecks : (path isDigipeater).checks r = decide r.rx.Valid := rfl
          have hok : (rateLimit (some pars) history ((path isDigipeater).content r)
              ((path isDigipeater).nowTs r)).2.1 =
                (Seen.check pars history r.rx.content r.nowTs).2.1 := rfl
          rw [hresent, hchecks, hok]
          cases isDigipeater with
          | false => simp
          | true => simp [imp_not_comm]

end HamRouter.Lora

namespace HamRouter.Tranceiver

/-- Both receive paths keep to the verdicts of their limiters, and within their bounds, exactly
when the limiter of a digipeater refuses nothing that it receives. -/
theorem paths_limited_iff {τ : Type*} (cfg : Axudp.Config) (t : Station) (this : τ)
    (history : Seen.History) (rs : List Axudp.Reception) (isDigipeater : Bool) (t' : Station)
    (this' : τ) (history' : Seen.History) (rs' : List Lora.Reception) :
    (Limited t.s (Axudp.run cfg t this history rs) ∧
        Limited t'.s (Lora.run isDigipeater t' this' history' rs')) ↔
      Lora.AllAccepted isDigipeater t'.s history' rs' := by
  rw [and_iff_right (Axudp.limited_run cfg t this history rs), Lora.run_eq, Path.limited_iff,
    Lora.refusedStay_run_iff]

/-- A digipeater with one packet of a kind in sixty seconds. -/
def sampleDigipeater : Station where
  s := some ⟨1, 60, 100⟩
  beyond _ := 0
  distance _ _ := none

/-- A reception of one byte. -/
def sampleReception (nowTs : ℚ) : Lora.Reception := ⟨⟨[65], 1, -80, false⟩, nowTs⟩

/-- A packet that comes back after a second is refused and sent again. -/
theorem not_limited_sampleDigipeater :
    ¬ Limited sampleDigipeater.s
      (Lora.run true sampleDigipeater () ∅ [sampleReception 100, sampleReception 101]) := by
  intro h
  have hsecond : ∃ packet ∈ Lora.run true sampleDigipeater () ∅
      [sampleReception 100, sampleReception 101],
        packet.rc = some .ratelimiting ∧ packet.resent = true := by decide +kernel
  obtain ⟨packet, hmem, hrefused, hresent⟩ := hsecond
  rw [h.refused packet hmem hrefused] at hresent
  exact absurd hresent (by decide)

end HamRouter.Tranceiver
