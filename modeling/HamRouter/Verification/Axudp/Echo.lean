import HamRouter.Verification.Axudp.Filters
import HamRouter.Verification.Decimal

/-! # Recognising the sender of a datagram

The peers are compared with a text made from the port field of the socket address, which is
in network byte order. -/

namespace HamRouter.Axudp

open Attempts

/-! ## The text of the sender -/

theorem formatInt_natCast (n : ℕ) : formatInt n = decimal n := by
  rw [formatInt, if_neg (by omega), Int.natAbs_natCast]

/-- The sender is written with the bytes of its port number swapped. -/
theorem cameFrom_eq (e : Endpoint) : cameFrom e = (Endpoint.mk e.addr (htons e.port)).text := by
  rw [cameFrom, formatInt_natCast]
  rfl

/-- Its own text is that of an endpoint with equal bytes in its port number. -/
theorem text_eq_cameFrom_iff (e : Endpoint) : e.text = cameFrom e ↔ htons e.port = e.port := by
  rw [cameFrom_eq]
  constructor
  · intro h
    have hport := List.append_cancel_left h
    have hdecimal := decimal_injective (List.cons.inj hport).2
    exact (UInt16.toNat_inj.mp hdecimal).symm
  · intro h
    rw [h]

variable {τ : Type*} {env : Env} {cfg : Config} {this : τ} {d : Datagram}

/-! ## The sender -/

/-- Nothing is sent to the sender exactly when its text is the one looked for, or none of its
entries is sent to. -/
theorem not_sent_back_iff :
    (∀ x ∈ (relay env cfg this d).1, x.1.host ≠ d.source.text) ↔
      htons d.source.port = d.source.port ∨
        ∀ p, RelayReaches env cfg d p → p.host = d.source.text →
          ∃ f, p.filter = some f ∧ env.executeFilter f ∅ ≠ some true := by
  rw [← text_eq_cameFrom_iff]
  constructor
  · intro h
    refine or_iff_not_imp_left.mpr fun hname p hreaches hhost => ?_
    by_contra hall
    have haccepts : ∀ f, p.filter = some f → env.executeFilter f ∅ = some true := by
      intro f hf
      by_contra hnot
      exact hall ⟨f, hf, hnot⟩
    obtain ⟨ok, hmem⟩ := (exists_mem_relay_iff this).mpr
      ⟨⟨fun hcame => hname (hhost.symm.trans hcame), haccepts⟩, hreaches⟩
    exact h (p, ok) hmem hhost
  · rintro h ⟨p, ok⟩ hmem hhost
    obtain ⟨⟨hcame, haccepts⟩, hreaches⟩ := (exists_mem_relay_iff this).mp ⟨ok, hmem⟩
    rcases h with hname | hkept
    · exact hcame (hhost.trans hname)
    · obtain ⟨f, hf, hnot⟩ := hkept p hreaches hhost
      exact hnot (haccepts f hf)

/-! ## The other peers -/

theorem wanted_ne_none_iff {p : Peer} :
    wanted env (cameFrom d.source) ∅ p ≠ none ↔ Answers env d p := by
  rw [wanted, Answers]
  by_cases hhost : p.host = cameFrom d.source
  · simp [hhost]
  · cases hfilter : p.filter with
    | none => simp [hhost]
    | some f => simp [hhost]

/-- When no failure ends the loop, a peer without a filter is sent to exactly when it is not
taken for the sender and all filters in front of it answer. -/
theorem exists_mem_relay_of_succeeds (this : τ) {p : Peer} (hfilter : p.filter = none)
    (h : cfg.continueOnError = true ∨ Succeeds (wanted env (cameFrom d.source) ∅)
      (fun earlier p => env.transmitUdp earlier p.host d.buffer) cfg.continueOnError cfg.peers) :
    (∃ ok, (p, ok) ∈ (relay env cfg this d).1) ↔
      p.host ≠ cameFrom d.source ∧
        ∃ front back, cfg.peers = front ++ p :: back ∧ ∀ q ∈ front, Answers env d q := by
  rw [exists_mem_relay_iff, RelayReaches]
  simp only [hfilter, reduceCtorEq, false_implies, implies_true, and_true]
  refine and_congr_right fun _ => exists_congr fun front => exists_congr fun back =>
    and_congr_right fun hsplit => ?_
  rw [hsplit] at h
  rw [passes_iff_of_succeeds h]
  exact forall₂_congr fun q _ => wanted_ne_none_iff

/-- A datagram is not echoed and reaches the other peers exactly when its sender is
recognised. -/
theorem notEchoed_iff : NotEchoed env cfg this d ↔ SenderRecognised env cfg d := by
  have hsucceeds : (∀ x ∈ (relay env cfg this d).1, x.2 = true) ↔
      Succeeds (wanted env (cameFrom d.source) ∅)
        (fun earlier p => env.transmitUdp earlier p.host d.buffer) cfg.continueOnError cfg.peers :=
    succeeds_iff.symm
  rw [NotEchoed, SenderRecognised, not_sent_back_iff, hsucceeds]
  refine and_congr_right fun _ => imp_congr_right fun hpremise => ?_
  refine forall₂_congr fun p _ => imp_congr_right fun hfilter => imp_congr_right fun _ => ?_
  rw [exists_mem_relay_of_succeeds this hfilter hpremise, cameFrom_eq]

/-- The first peer of the sample configuration. -/
def samplePeer : Endpoint := ⟨⟨10, 208, 30, 222⟩, 10093⟩

def samplePeerConfig : Config where
  peers := [⟨samplePeer.text, none⟩]
  continueOnError := false
  distribute := true

/-- Its packets go back to it: 10093 is looked for as 27943. -/
theorem not_notEchoed_samplePeer :
    ¬ NotEchoed calmEnv samplePeerConfig () ⟨samplePeer, [1, 2, 3]⟩ := by
  intro h
  have hother : samplePeer.text ≠ cameFrom samplePeer := by decide +kernel
  have hsent : (⟨samplePeer.text, none⟩, true) ∈
      (relay calmEnv samplePeerConfig () ⟨samplePeer, [1, 2, 3]⟩).1 := by
    simp [relay, sendToOtherAxudpTargets, samplePeerConfig, Attempts.pass, wanted, hother, calmEnv]
  exact h.1 _ hsent rfl

end HamRouter.Axudp
