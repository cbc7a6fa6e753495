import HamRouter.Model.Relay

/-! # What the receive paths do with a packet -/

namespace HamRouter

open Tranceiver

variable {τ : Type*} (t : Station) (this : τ) (history : Seen.History) (nowTs : ℚ)

namespace Tranceiver

variable (m : Message τ)

/-- The limiters are those that the check left, and its verdict is what is returned. -/
theorem queueIncomingMessage_eq :
    (queueIncomingMessage t history m nowTs).1 = (rateLimit t.s history m.content nowTs).1 ∧
      (queueIncomingMessage t history m nowTs).2.2 =
        if (rateLimit t.s history m.content nowTs).2.1 = true then .ok else .ratelimiting := by
  rw [queueIncomingMessage]
  split
  rename_i checked ok hash hcheck
  rw [hcheck]
  cases ok with
  | false => exact ⟨rfl, rfl⟩
  | true => exact ⟨rfl, rfl⟩

end Tranceiver

namespace Axudp

variable (env : Env) (cfg : Config) (d : Datagram)

/-- A datagram is sent on by `send_to_other_axudp_targets`, or not at all. -/
theorem receive_sent : (receive env cfg t this history d nowTs).sent =
    if Relayed cfg t history d nowTs then relay env cfg this d else ([], .finished) := by
  have hrc := (queueIncomingMessage_eq t history nowTs (⟨some this, d.content, ∅⟩ : Message τ)).2
  have hcontent : d.buffer.take (d.buffer.length - 2) = d.content := rfl
  rw [receive]
  by_cases hlength : d.buffer.length > 2
  · simp only [hlength, if_true, hcontent, hrc, Relayed, true_and]
    cases hok : (rateLimit t.s history d.content nowTs).2.1 with
    | false => simp
    | true =>
        cases hdistribute : cfg.distribute with
        | false => simp
        | true => simp [relay]
  · simp [hlength, Relayed]

/-- What a datagram does to the limiters, and what is returned for it. -/
theorem receive_eq : (receive env cfg t this history d nowTs).history =
      (if d.buffer.length > 2 then (rateLimit t.s history d.content nowTs).1 else history) ∧
    (receive env cfg t this history d nowTs).rc =
      if d.buffer.length > 2 then
        some (if (rateLimit t.s history d.content nowTs).2.1 = true then .ok else .ratelimiting)
      else none := by
  obtain ⟨hhistory, hrc⟩ :=
    queueIncomingMessage_eq t history nowTs (⟨some this, d.content, ∅⟩ : Message τ)
  have hcontent : d.buffer.take (d.buffer.length - 2) = d.content := rfl
  rw [receive]
  by_cases hlength : d.buffer.length > 2
  · simp only [hlength, if_true, hcontent]
    split
    · exact ⟨hhistory, congrArg some hrc⟩
    · exact ⟨hhistory, congrArg some hrc⟩
  · simp [hlength]

end Axudp

namespace Lora

variable (isDigipeater : Bool) (rx : RxData)

/-- What a reception does to the limiters, what is returned for it, and whether it is put
out again. -/
theorem rxF_eq :
    (rxF isDigipeater t this history rx nowTs).history =
        (if rx.Valid then (rateLimit t.s history rx.content nowTs).1 else history) ∧
      (rxF isDigipeater t this history rx nowTs).rc =
        (if rx.Valid then
          some (if (rateLimit t.s history rx.content nowTs).2.1 = true then .ok
            else .ratelimiting)
        else none) ∧
      (rxF isDigipeater t this history rx nowTs).put.isSome =
        (decide rx.Valid && isDigipeater) := by
  obtain ⟨hhistory, hrc⟩ :=
    queueIncomingMessage_eq t history nowTs (⟨some this, rx.content, rxMeta rx⟩ : Message τ)
  have hcontent : rx.buf.take rx.size.toNat = rx.content := rfl
  rw [rxF]
  by_cases hvalid : rx.Valid
  · rw [if_neg hvalid, if_pos hvalid, if_pos hvalid, hcontent]
    refine ⟨hhistory, congrArg some hrc, ?_⟩
    cases isDigipeater <;> simp [hvalid]
  · have hdrop := not_not.mp hvalid
    rw [if_pos hdrop, if_neg hvalid, if_neg hvalid]
    exact ⟨rfl, rfl, by simp [hvalid]⟩

end Lora

end HamRouter
