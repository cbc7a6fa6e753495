import HamRouter.Model.AxudpNetwork
import HamRouter.Verification.Axudp.Checksum
import HamRouter.Verification.Seen.Evicted
import HamRouter.Verification.Tranceiver.Receive
import Mathlib.Algebra.BigOperators.Ring.Finset
import Mathlib.Algebra.Order.BigOperators.Group.Finset
import Mathlib.Data.Nat.Cast.Order.Ring
import Mathlib.Tactic.Linarith

/-! # What tunnels make of each other's datagrams

Nothing is queued that was not put into a tunnel, and however the tunnels are connected, no
packet goes around more often than their limiters let it. -/

namespace HamRouter

namespace Axudp

open Tranceiver

/-! ## Sendings -/

theorem bytes_of_mem_sendings {bytes : List UInt8} {sent : Sent} {d : Sending}
    (h : d ∈ Network.sendings bytes sent) : d.bytes = bytes := by
  obtain ⟨attempt, -, rfl⟩ := List.mem_map.mp h
  rfl

/-- The first bytes of a datagram with a checksum hold the first bytes of its content. -/
theorem content_take_withCrc (host : StdString) (c : List UInt8) :
    (Sending.mk host ((withCrc c).take maxPktLen)).content = c.take (maxPktLen - 2) := by
  have hlength : ((withCrc c).take maxPktLen).length - 2 = min (maxPktLen - 2) c.length := by
    rw [List.length_take, length_withCrc]
    omega
  have hprefix : (withCrc c).take (min (maxPktLen - 2) c.length) =
      c.take (min (maxPktLen - 2) c.length) := by
    rw [withCrc, List.take_append_of_le_length (Nat.min_le_right _ _)]
  rw [Sending.content, hlength, List.take_take, Nat.min_eq_left (by omega), hprefix,
    ← List.take_take, List.take_length]

variable {ι : Type*}

/-- What is queued of a datagram is its content. -/
theorem receive_queued {env : Env} {cfg : Config} {t : Station} {i : ι} {history : Seen.History}
    {d : Datagram} {nowTs : ℚ} {m : Message ι}
    (h : (receive env cfg t i history d nowTs).queued = some m) : m.content = d.content := by
  have hqueue : ∀ copy, (queueIncomingMessage t history (⟨some i, d.content, ∅⟩ : Message ι)
      nowTs).2.1 = some copy → copy.content = d.content := by
    intro copy hcopy
    simp only [queueIncomingMessage] at hcopy
    split at hcopy
    · simp at hcopy
    · obtain rfl := Option.some.inj hcopy
      rfl
  simp only [receive] at h
  split at h
  · split at h
    · exact hqueue m h
    · exact hqueue m h
  · simp at h

namespace Network

variable [DecidableEq ι] {net : Network ι} {s s' : State ι}

/-! ## Where the contents come from -/

/-- The bytes are a content that was put into a tunnel, with its checksum, or as much of that as
a receive buffer holds. -/
def State.Genuine (s : State ι) (bytes : List UInt8) : Prop :=
  ∃ c ∈ s.originated, bytes = withCrc c ∨ bytes = (withCrc c).take maxPktLen

/-- Everything on the network and in the queues was put into a tunnel. -/
structure State.NothingMadeUp (s : State ι) : Prop where
  flight : ∀ d ∈ s.flight, s.Genuine d.bytes
  queued : ∀ i, ∀ content ∈ s.queued i, ∃ c ∈ s.originated, content = c.take (maxPktLen - 2)

omit [DecidableEq ι] in
theorem genuine_datagram {a : Arrival ι} (h : s.Genuine a.sending.bytes) :
    ∃ c ∈ s.originated, a.datagram.buffer = (withCrc c).take maxPktLen := by
  obtain ⟨c, hc, hbytes⟩ := h
  refine ⟨c, hc, ?_⟩
  rw [Arrival.datagram, recvfrom]
  rcases hbytes with hwhole | hpart
  · rw [hwhole]
  · rw [hpart, List.take_take, Nat.min_self]

theorem State.NothingMadeUp.step {a : Action ι} (h : s.NothingMadeUp)
    (hstep : net.step s a = some s') : s'.NothingMadeUp := by
  cases a with
  | put i env content =>
      obtain rfl := Option.some.inj hstep
      have hlater : ∀ c ∈ s.originated, c ∈ s.originated ++ [content] :=
        fun c hc => List.mem_append_left _ hc
      constructor
      · intro d hd
        rcases List.mem_append.mp hd with hold | hnew
        · obtain ⟨c, hc, hbytes⟩ := h.flight d hold
          exact ⟨c, hlater c hc, hbytes⟩
        · exact ⟨content, List.mem_append_right _ (List.mem_singleton_self _),
            Or.inl (bytes_of_mem_sendings hnew)⟩
      · intro j content' hcontent
        obtain ⟨c, hc, heq⟩ := h.queued j content' hcontent
        exact ⟨c, hlater c hc, heq⟩
  | deliver a =>
      rw [Network.step, deliver] at hstep
      split at hstep
      · rename_i harrives
        obtain rfl := Option.some.inj hstep
        obtain ⟨c, hc, hbuffer⟩ := genuine_datagram (h.flight _ harrives.1)
        constructor
        · intro d hd
          rcases List.mem_append.mp hd with hold | hnew
          · exact h.flight d hold
          · exact ⟨c, hc, Or.inr ((bytes_of_mem_sendings hnew).trans hbuffer)⟩
        · intro j content hcontent
          by_cases hj : j = a.i
          · subst hj
            dsimp only at hcontent
            rw [Function.update_self] at hcontent
            rcases List.mem_append.mp hcontent with hold | hnew
            · exact h.queued _ content hold
            · obtain ⟨m, hm, rfl⟩ := Option.map_eq_some_iff.mp (Option.mem_toList.mp hnew)
              refine ⟨c, hc, ?_⟩
              rw [receive_queued hm, ← content_take_withCrc [], ← hbuffer]
              rfl
          · dsimp only at hcontent
            rw [Function.update_of_ne hj] at hcontent
            exact h.queued j content hcontent
      · cases hstep
  | evict i vector =>
      obtain ⟨pars, -, hcounted⟩ := Option.bind_eq_some_iff.mp hstep
      obtain ⟨counted, -, rfl⟩ := Option.map_eq_some_iff.mp hcounted
      exact ⟨h.flight, h.queued⟩

/-- However datagrams are lost, repeated and reordered, and sent on from tunnel to tunnel, a
tunnel queues only contents that were put into one, up to the size of the receive buffer. -/
theorem nothingMadeUp (h : net.Reachable s) : s.NothingMadeUp := by
  refine Transition.Reachable.invariant h ?_ fun _ _ _ hs hstep => hs.step hstep
  constructor
  · intro d hd
    simp [State.initial] at hd
  · intro i content hcontent
    simp [State.initial] at hcontent

/-! ## How often a packet is sent -/

/-- The datagrams with a content of this checksum. -/
def sent (hash : UInt32) (flight : List Sending) : ℕ :=
  flight.countP fun d => calcCrc32 d.content = hash

/-- The datagrams that messages of this checksum put onto the network at most. -/
def puts (net : Network ι) (hash : UInt32) (actions : List (Action ι)) : ℕ :=
  (actions.map fun
    | .put i _ content => if calcCrc32 content = hash then (net.node i).cfg.peers.length else 0
    | _ => 0).sum

/-- The peers that a tunnel sends datagrams on to. -/
def relays (net : Network ι) (i : ι) : ℕ :=
  if (net.node i).cfg.distribute then (net.node i).cfg.peers.length else 0

/-- The readings of a tunnel's clock. -/
def clock (i : ι) (actions : List (Action ι)) : List ℚ :=
  actions.filterMap fun
    | .deliver a => if a.i = i then some a.nowTs else none
    | _ => none

theorem length_sendings_le (bytes : List UInt8) (attempts : Sent) :
    (sendings bytes attempts).length ≤ attempts.1.length := by
  rw [sendings, List.length_map]
  exact List.length_filter_le _ _

theorem sent_sendings_le (hash : UInt32) (bytes : List UInt8) {attempts : Sent} {n : ℕ}
    (hn : attempts.1.length ≤ n) :
    sent hash (sendings bytes attempts) ≤
      if calcCrc32 (bytes.take (bytes.length - 2)) = hash then n else 0 := by
  split
  · exact (List.countP_le_length).trans ((length_sendings_le bytes attempts).trans hn)
  · rename_i hother
    refine Nat.le_of_eq (List.countP_eq_zero.mpr fun d hd => ?_)
    rw [Sending.content, bytes_of_mem_sendings hd]
    simpa using hother

omit [DecidableEq ι] in
/-- The round makes the check that the limiter counts. -/
theorem history_checked (a : Arrival ι) :
    (a.checked net s).history = (a.received net s).history := by
  have hhistory := (receive_eq ⟨(net.node a.i).s, a.beyond, a.distance⟩ a.i
    (s.seen a.i).history a.nowTs a.env (net.node a.i).cfg a.datagram).1
  rw [Arrival.received, hhistory, Arrival.checked]
  cases hs : (net.node a.i).s with
  | none => simp [rateLimit]
  | some pars =>
      dsimp only
      split
      · rfl
      · rfl

theorem seen_deliver {a : Arrival ι} (h : net.step s (.deliver a) = some s') :
    s'.seen = Function.update s.seen a.i (a.checked net s) := by
  rw [Network.step, deliver] at h
  split at h
  · obtain rfl := Option.some.inj h
    dsimp only
    rw [← history_checked]
  · cases h

/-- What a step does to the limiter of a tunnel. -/
theorem step_seen {i : ι} {pars : SeenPars} (hpars : (net.node i).s = some pars) {a : Action ι}
    (h : net.step s a = some s') :
    ∃ events, Transition.run (Seen.step pars) events (s.seen i) = some (s'.seen i) ∧
      ∀ hash, (Seen.readings hash events).Sublist (clock i [a]) := by
  cases a with
  | put j env content =>
      obtain rfl := Option.some.inj h
      exact ⟨[], rfl, fun _ => List.nil_sublist _⟩
  | deliver a =>
      have hseen := seen_deliver h
      by_cases hi : i = a.i
      · subst hi
        rw [hseen, Function.update_self, Arrival.checked, hpars]
        dsimp only
        split
        · refine ⟨[.check ⟨a.datagram.content, a.nowTs⟩], rfl, fun hash => ?_⟩
          have hclock : clock a.i [.deliver a] = [a.nowTs] := by simp [clock]
          rw [hclock, Seen.readings, Seen.readings]
          split
          · exact List.Sublist.refl _
          · exact List.nil_sublist _
        · exact ⟨[], rfl, fun _ => List.nil_sublist _⟩
      · rw [hseen, Function.update_of_ne hi]
        exact ⟨[], rfl, fun _ => List.nil_sublist _⟩
  | evict j vector =>
      obtain ⟨pars', hpars', hcounted⟩ := Option.bind_eq_some_iff.mp h
      obtain ⟨counted, hevict, rfl⟩ := Option.map_eq_some_iff.mp hcounted
      by_cases hi : i = j
      · subst hi
        obtain rfl := Option.some.inj (hpars.symm.trans hpars')
        refine ⟨[.evict vector], ?_, fun _ => List.nil_sublist _⟩
        dsimp only
        rw [Function.update_self, Transition.run, Seen.step, hevict]
        rfl
      · dsimp only
        rw [Function.update_of_ne hi]
        exact ⟨[], rfl, fun _ => List.nil_sublist _⟩

theorem clock_cons (i : ι) (a : Action ι) (rest : List (Action ι)) :
    clock i (a :: rest) = clock i [a] ++ clock i rest := by
  rw [clock, ← List.singleton_append, List.filterMap_append]
  rfl

theorem run_seen {i : ι} {pars : SeenPars} (hpars : (net.node i).s = some pars)
    {actions : List (Action ι)} (h : Transition.run net.step actions s = some s') :
    ∃ events, Transition.run (Seen.step pars) events (s.seen i) = some (s'.seen i) ∧
      ∀ hash, (Seen.readings hash events).Sublist (clock i actions) := by
  induction actions generalizing s with
  | nil =>
      obtain rfl := Option.some.inj h
      exact ⟨[], rfl, fun _ => List.nil_sublist _⟩
  | cons a rest ih =>
      obtain ⟨next, hstep, hrest⟩ := Option.bind_eq_some_iff.mp h
      obtain ⟨front, hfront, hread⟩ := step_seen hpars hstep
      obtain ⟨back, hback, hreads⟩ := ih hrest
      refine ⟨front ++ back, ?_, fun hash => ?_⟩
      · rw [Transition.run_append, hfront]
        exact hback
      · rw [Seen.readings_append, clock_cons]
        exact (hread hash).append (hreads hash)

omit [DecidableEq ι] in
theorem length_putMessageLow_le (env : Env) (cfg : Config) (m : Message ι) :
    (putMessageLow env cfg m).1.length ≤ cfg.peers.length :=
  Attempts.length_pass_le _ _

omit [DecidableEq ι] in
theorem length_relay_le (env : Env) (cfg : Config) (i : ι) (d : Datagram) :
    (relay env cfg i d).1.length ≤ cfg.peers.length :=
  Attempts.length_pass_le _ _

/-- A datagram is sent on once for each check that its content passes. -/
theorem sent_deliver (hlimited : ∀ i, (net.node i).cfg.distribute = true → (net.node i).s.isSome)
    (hash : UInt32) {a : Arrival ι} (h : net.step s (.deliver a) = some s') :
    sent hash s'.flight + relays net a.i * (s.seen a.i).accepted hash ≤
      sent hash s.flight + relays net a.i * (s'.seen a.i).accepted hash := by
  have hseen := seen_deliver h
  have hflight : s'.flight = s.flight ++ sendings a.datagram.buffer (a.received net s).sent := by
    rw [Network.step, deliver] at h
    split at h
    · obtain rfl := Option.some.inj h
      rfl
    · cases h
  have hsent := receive_sent ⟨(net.node a.i).s, a.beyond, a.distance⟩ a.i (s.seen a.i).history
    a.nowTs a.env (net.node a.i).cfg a.datagram
  have hcount : sent hash s'.flight = sent hash s.flight +
      sent hash (sendings a.datagram.buffer (a.received net s).sent) := by
    rw [hflight, sent, List.countP_append]
    rfl
  have hmono : (s.seen a.i).accepted hash ≤ (s'.seen a.i).accepted hash := by
    rw [hseen, Function.update_self, Arrival.checked]
    cases (net.node a.i).s with
    | none => exact Nat.le_refl _
    | some pars =>
        dsimp only
        split
        · rw [Seen.accepted_check]
          exact Nat.le_add_right _ _
        · exact Nat.le_refl _
  rw [hcount, Arrival.received, hsent]
  split
  · rename_i hrelayed
    obtain ⟨hlong, hdistribute, hok⟩ := hrelayed
    obtain ⟨pars, hpars⟩ := Option.isSome_iff_exists.mp (hlimited a.i hdistribute)
    have haccepted : (s'.seen a.i).accepted hash = (s.seen a.i).accepted hash +
        if calcCrc32 a.datagram.content = hash then 1 else 0 := by
      rw [hseen, Function.update_self, Arrival.checked, hpars]
      dsimp only
      rw [if_pos hlong, Seen.accepted_check]
      simp only [rateLimit, hpars] at hok
      simp only [Seen.Counted.check, hok, and_true]
    have hpeers : relays net a.i = (net.node a.i).cfg.peers.length := if_pos hdistribute
    have hnew := sent_sendings_le hash a.datagram.buffer
      (length_relay_le a.env (net.node a.i).cfg a.i a.datagram)
    rw [haccepted, hpeers, Nat.mul_add, mul_ite, Nat.mul_one, Nat.mul_zero]
    have hcontent : a.datagram.buffer.take (a.datagram.buffer.length - 2) = a.datagram.content := rfl
    rw [hcontent] at hnew
    omega
  · have hnone : sent hash (sendings a.datagram.buffer ([], .finished)) = 0 := rfl
    rw [hnone, Nat.add_zero]
    exact Nat.add_le_add_left (Nat.mul_le_mul_left _ hmono) _

variable [Fintype ι]

theorem step_sent (hlimited : ∀ i, (net.node i).cfg.distribute = true → (net.node i).s.isSome)
    (hash : UInt32) {a : Action ι} (h : net.step s a = some s') :
    sent hash s'.flight + ∑ i, relays net i * (s.seen i).accepted hash ≤
      sent hash s.flight + puts net hash [a] +
        ∑ i, relays net i * (s'.seen i).accepted hash := by
  cases a with
  | put i env content =>
      obtain rfl := Option.some.inj h
      have hnew := sent_sendings_le hash (withCrc content)
        (length_putMessageLow_le env (net.node i).cfg (⟨none, content, ∅⟩ : Message ι))
      rw [take_withCrc] at hnew
      have hputs : puts net hash [.put i env content] =
          if calcCrc32 content = hash then (net.node i).cfg.peers.length else 0 := by
        simp [puts]
      have hcount : sent hash (put net s i env content).flight = sent hash s.flight +
          sent hash (sendings (withCrc content)
            (putMessageLow env (net.node i).cfg (⟨none, content, ∅⟩ : Message ι))) :=
        List.countP_append
      rw [hcount, hputs]
      refine Nat.add_le_add_right (Nat.add_le_add_left hnew _) _
  | deliver a =>
      have hone := sent_deliver hlimited hash h
      have hseen := seen_deliver h
      have hputs : puts net hash [.deliver a] = 0 := rfl
      have hold := Finset.add_sum_erase Finset.univ
        (fun i => relays net i * (s.seen i).accepted hash) (Finset.mem_univ a.i)
      have hnew := Finset.add_sum_erase Finset.univ
        (fun i => relays net i * (s'.seen i).accepted hash) (Finset.mem_univ a.i)
      have hothers : ∑ i ∈ Finset.univ.erase a.i, relays net i * (s'.seen i).accepted hash =
          ∑ i ∈ Finset.univ.erase a.i, relays net i * (s.seen i).accepted hash := by
        refine Finset.sum_congr rfl fun i hi => ?_
        rw [hseen, Function.update_of_ne (Finset.ne_of_mem_erase hi)]
      rw [hothers] at hnew
      omega
  | evict i vector =>
      obtain ⟨pars, -, hcounted⟩ := Option.bind_eq_some_iff.mp h
      obtain ⟨counted, hevict, rfl⟩ := Option.map_eq_some_iff.mp hcounted
      obtain ⟨left, -, rfl⟩ := Option.map_eq_some_iff.mp hevict
      refine Nat.le_of_eq (congrArg _ (Finset.sum_congr rfl fun j _ => ?_))
      by_cases hj : j = i
      · subst hj
        dsimp only
        rw [Function.update_self]
      · dsimp only
        rw [Function.update_of_ne hj]

theorem run_sent (hlimited : ∀ i, (net.node i).cfg.distribute = true → (net.node i).s.isSome)
    (hash : UInt32) {actions : List (Action ι)}
    (h : Transition.run net.step actions s = some s') :
    sent hash s'.flight + ∑ i, relays net i * (s.seen i).accepted hash ≤
      sent hash s.flight + puts net hash actions +
        ∑ i, relays net i * (s'.seen i).accepted hash := by
  induction actions generalizing s with
  | nil =>
      obtain rfl := Option.some.inj h
      exact Nat.le_refl _
  | cons a rest ih =>
      obtain ⟨next, hstep, hrest⟩ := Option.bind_eq_some_iff.mp h
      have hfirst := step_sent hlimited hash hstep
      have hothers := ih hrest
      have hputs : puts net hash (a :: rest) = puts net hash [a] + puts net hash rest := by
        simp [puts]
      omega

/-- In any run, the datagrams of a packet are at most those that were put, and for each tunnel
that distributes the peers it has times what its limiter lets through: whatever loops there
are between the tunnels, and however often the network repeats a datagram. -/
theorem storm_bounded {pars : ι → SeenPars}
    (hlimited : ∀ i, (net.node i).cfg.distribute = true →
      (net.node i).s = some (pars i) ∧ 0 ≤ (pars i).maxPerDt ∧ 0 < (pars i).dt)
    {actions : List (Action ι)} (h : Transition.run net.step actions s = some s')
    {first last : ℚ} (hclock : ∀ i, (first :: (clock i actions ++ [last])).IsChain (· ≤ ·))
    (hash : UInt32) :
    (sent hash s'.flight - sent hash s.flight : ℚ) ≤ puts net hash actions +
      ∑ i, relays net i *
        (((s'.seen i).evicted hash - (s.seen i).evicted hash + 1) * (pars i).maxPerDt +
          (pars i).maxPerDt / (pars i).dt * (last - first)) := by
  have hsome : ∀ i, (net.node i).cfg.distribute = true → (net.node i).s.isSome := by
    intro i hi
    rw [(hlimited i hi).1]
    rfl
  have hsent : (sent hash s'.flight : ℚ) +
        ∑ i, (relays net i : ℚ) * ((s.seen i).accepted hash : ℚ) ≤
      sent hash s.flight + puts net hash actions +
        ∑ i, (relays net i : ℚ) * ((s'.seen i).accepted hash : ℚ) := by
    exact_mod_cast run_sent hsome hash h
  have hsum : (∑ i, relays net i * ((s'.seen i).accepted hash - (s.seen i).accepted hash : ℚ)) ≤
      ∑ i, relays net i *
        (((s'.seen i).evicted hash - (s.seen i).evicted hash + 1) * (pars i).maxPerDt +
          (pars i).maxPerDt / (pars i).dt * (last - first)) := by
    refine Finset.sum_le_sum fun i _ => ?_
    by_cases hi : (net.node i).cfg.distribute = true
    · obtain ⟨hpars, hrate, hdt⟩ := hlimited i hi
      obtain ⟨events, hevents, hread⟩ := run_seen hpars h
      have hreadings : (first :: (Seen.readings hash events ++ [last])).IsChain (· ≤ ·) :=
        (hclock i).sublist (((hread hash).append (List.Sublist.refl _)).cons_cons first)
      exact mul_le_mul_of_nonneg_left
        (Seen.accepted_le_evicted (pars i) hash hrate hdt hevents hreadings) (Nat.cast_nonneg _)
    · have hnone : relays net i = 0 := if_neg hi
      rw [hnone]
      simp
  have hsplit : ∑ i, (relays net i : ℚ) *
        (((s'.seen i).accepted hash : ℚ) - ((s.seen i).accepted hash : ℚ)) =
      ∑ i, (relays net i : ℚ) * ((s'.seen i).accepted hash : ℚ) -
        ∑ i, (relays net i : ℚ) * ((s.seen i).accepted hash : ℚ) := by
    simp only [mul_sub, Finset.sum_sub_distrib]
  rw [hsplit] at hsum
  linarith

/-! ## Two tunnels that send to each other -/

def sampleNetwork : Network Bool where
  node
    | false => ⟨⟨[⟨str "right:2", none⟩], true, true⟩, some ⟨1, 10, 100⟩⟩
    | true => ⟨⟨[⟨str "left:1", none⟩], true, true⟩, some ⟨1, 10, 100⟩⟩
  listens host :=
    if host = str "left:1" then some false
    else if host = str "right:2" then some true
    else none

def sampleEnv : Env := ⟨fun _ _ _ => true, fun _ _ => none⟩

def sampleArrival (i : Bool) (host : StdString) : Arrival Bool :=
  ⟨i, ⟨host, withCrc [1, 2, 3]⟩, ⟨⟨10, 0, 0, 1⟩, 1⟩, sampleEnv, fun _ => 0, fun _ _ => none, 100⟩

/-- A packet that goes around once. -/
def sampleActions : List (Action Bool) :=
  [.put false sampleEnv [1, 2, 3], .deliver (sampleArrival true (str "right:2")),
    .deliver (sampleArrival false (str "left:1")), .deliver (sampleArrival true (str "right:2"))]

def sampleState : State Bool :=
  (Transition.run sampleNetwork.step sampleActions .initial).getD .initial

theorem run_sampleActions :
    Transition.run sampleNetwork.step sampleActions .initial = some sampleState := by
  have hsome : (Transition.run sampleNetwork.step sampleActions .initial).isSome := by
    decide +kernel
  obtain ⟨s, hs⟩ := Option.isSome_iff_exists.mp hsome
  rw [sampleState, hs]
  rfl

theorem nothingMadeUp_sampleState : sampleState.NothingMadeUp :=
  nothingMadeUp (Transition.Reachable.of_run sampleActions
    (show sampleNetwork.Reachable .initial from .start) run_sampleActions)

def samplePars (_ : Bool) : SeenPars := ⟨1, 10, 100⟩

theorem limited_sampleNetwork (i : Bool) (_ : (sampleNetwork.node i).cfg.distribute = true) :
    (sampleNetwork.node i).s = some (samplePars i) ∧ 0 ≤ (samplePars i).maxPerDt ∧
      0 < (samplePars i).dt := by
  cases i with
  | false => exact ⟨rfl, by decide, by norm_num [samplePars]⟩
  | true => exact ⟨rfl, by decide, by norm_num [samplePars]⟩

theorem clock_sampleActions (i : Bool) :
    ((100 : ℚ) :: (clock i sampleActions ++ [100])).IsChain (· ≤ ·) := by
  cases i <;> simp [clock, sampleActions, sampleArrival]

/-- The checksum is that of the packet that went around. -/
theorem storm_bounded_sampleState :
    (sent 0x55bc801d sampleState.flight -
        sent 0x55bc801d (State.initial : State Bool).flight : ℚ) ≤
      puts sampleNetwork 0x55bc801d sampleActions + ∑ i, relays sampleNetwork i *
        (((sampleState.seen i).evicted 0x55bc801d -
          ((State.initial : State Bool).seen i).evicted 0x55bc801d + 1) * (samplePars i).maxPerDt +
            (samplePars i).maxPerDt / (samplePars i).dt * (100 - 100)) :=
  storm_bounded limited_sampleNetwork run_sampleActions clock_sampleActions 0x55bc801d

end Network

end Axudp

end HamRouter
