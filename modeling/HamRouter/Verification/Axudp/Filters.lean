import HamRouter.Model.AxudpPeers
import HamRouter.Verification.Tranceiver.Receive

/-! # Filters on the two paths to the peers -/

namespace HamRouter.Axudp

open Attempts Tranceiver

variable {τ : Type*} {env : Env} {cfg : Config} {t : Station} {this : τ} {history : Seen.History}
  {m : Message τ} {d : Datagram} {nowTs : ℚ}

/-! ## Who is sent to -/

theorem exists_mem_pass_iff {wanted : Peer → Option Bool} {attempt : List Peer → Peer → Bool}
    {goOn : Bool} {peers : List Peer} {p : Peer} :
    (∃ ok, (p, ok) ∈ (pass wanted attempt goOn peers []).1) ↔
      wanted p = some true ∧
        ∃ front back, peers = front ++ p :: back ∧ Passes wanted attempt goOn front [] := by
  simp only [mem_pass_iff]
  constructor
  · rintro ⟨ok, front, back, hsplit, hwanted, hpasses, _⟩
    exact ⟨hwanted, front, back, hsplit, hpasses⟩
  · rintro ⟨hwanted, front, back, hsplit, hpasses⟩
    exact ⟨_, front, back, hsplit, hwanted, hpasses, rfl⟩

/-- `put_message_low` sends to every peer it comes to. -/
theorem exists_mem_put_iff {p : Peer} :
    (∃ ok, (p, ok) ∈ (putMessageLow env cfg m).1) ↔ PutReaches env cfg m p := by
  rw [putMessageLow, exists_mem_pass_iff]
  exact and_iff_right rfl

theorem wanted_eq_some_true_iff {name : StdString} {fields : Meta} {p : Peer} :
    wanted env name fields p = some true ↔
      p.host ≠ name ∧ ∀ f, p.filter = some f → env.executeFilter f fields = some true := by
  rw [wanted]
  by_cases hhost : p.host = name
  · simp [hhost]
  · cases hfilter : p.filter with
    | none => simp [hhost]
    | some f => simp [hhost]

/-- `send_to_other_axudp_targets` sends to the peers it comes to that are not the sender and
whose filters accept a message without metadata. -/
theorem exists_mem_relay_iff (this : τ) {p : Peer} :
    (∃ ok, (p, ok) ∈ (relay env cfg this d).1) ↔
      (p.host ≠ cameFrom d.source ∧
        ∀ f, p.filter = some f → env.executeFilter f ∅ = some true) ∧
          RelayReaches env cfg d p := by
  rw [relay, sendToOtherAxudpTargets, exists_mem_pass_iff, wanted_eq_some_true_iff]
  rfl

/-! ## The two paths -/

theorem onlyAccepted_put_iff {fields : Meta} :
    OnlyAccepted env fields (putMessageLow env cfg m) ↔
      ∀ p f, PutReaches env cfg m p → p.filter = some f →
        env.executeFilter f fields = some true := by
  constructor
  · intro h p f hreaches hfilter
    obtain ⟨ok, hmem⟩ := exists_mem_put_iff.mpr hreaches
    exact h (p, ok) hmem f hfilter
  · intro h x hx f hfilter
    exact h x.1 f (exists_mem_put_iff.mp ⟨x.2, hx⟩) hfilter

theorem onlyAccepted_relay_iff {fields : Meta} :
    OnlyAccepted env fields (relay env cfg this d) ↔
      ∀ p f, RelayReaches env cfg d p → p.filter = some f → p.host ≠ cameFrom d.source →
        env.executeFilter f ∅ = some true → env.executeFilter f fields = some true := by
  constructor
  · intro h p f hreaches hfilter hhost haccepts
    have hwanted : ∀ g, p.filter = some g → env.executeFilter g ∅ = some true := by
      intro g hg
      obtain rfl := Option.some.inj (hfilter.symm.trans hg)
      exact haccepts
    obtain ⟨ok, hmem⟩ :=
      (exists_mem_relay_iff this).mpr ⟨⟨hhost, hwanted⟩, hreaches⟩
    exact h (p, ok) hmem f hfilter
  · intro h x hx f hfilter
    obtain ⟨⟨hhost, hwanted⟩, hreaches⟩ := (exists_mem_relay_iff this).mp ⟨x.2, hx⟩
    exact h x.1 f hreaches hfilter hhost (hwanted f hfilter)

/-- Filters decide by the content of a packet exactly when those that are not asked, or asked
without metadata, would accept it. -/
theorem filtersDecide_iff :
    FiltersDecide env cfg t this history m d nowTs ↔
      FiltersAgree env cfg t history m d nowTs := by
  rw [FiltersDecide, FiltersAgree, onlyAccepted_put_iff, receive_sent]
  refine and_congr_right fun _ => ?_
  by_cases hrelayed : Relayed cfg t history d nowTs
  · rw [if_pos hrelayed, onlyAccepted_relay_iff]
    exact (true_imp_iff.symm.trans (by simp [hrelayed]))
  · rw [if_neg hrelayed]
    exact iff_of_true (fun x hx => by cases hx) fun h => absurd h hrelayed

/-- One peer, for packets of one sender only. -/
def oneSenderConfig : Config where
  peers := [⟨str "172.29.0.107:10093", some ⟨true, str "from=\"PD9FVH\""⟩⟩]
  continueOnError := true
  distribute := true

/-- All transmissions succeed, and filters are interpreted. -/
def calmEnv : Env where
  transmitUdp _ _ _ := true
  executeFilter := interpreter 100

def calmStation : Station where
  s := none
  beyond _ := 0
  distance _ _ := none

/-- An APRS packet of another sender. -/
def otherSender : Message Unit := ⟨none, [ch '<', 0xff, 0x01] ++ str "PA1AA>APRS:hello", ∅⟩

/-- The packet is put to the peer, whose filter does not accept its fields. -/
theorem not_filtersDecide_otherSender : ¬ FiltersDecide calmEnv oneSenderConfig calmStation ()
    ∅ otherSender ⟨⟨⟨172, 29, 0, 107⟩, 10093⟩, []⟩ 0 := by
  intro h
  have hsent : (⟨str "172.29.0.107:10093", some ⟨true, str "from=\"PD9FVH\""⟩⟩, true) ∈
      (putMessageLow calmEnv oneSenderConfig otherSender).1 := by
    simp [putMessageLow, oneSenderConfig, Attempts.pass, calmEnv]
  have hrefused : interpreter 100 ⟨true, str "from=\"PD9FVH\""⟩
      (derived calmStation otherSender.content) = some false := by decide +kernel
  have haccepts := h.1 _ hsent _ rfl
  exact absurd (hrefused.symm.trans haccepts) (by decide)

end HamRouter.Axudp
