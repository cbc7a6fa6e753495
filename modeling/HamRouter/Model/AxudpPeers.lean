import HamRouter.Program.Axudp

/-! # Which peers a packet is for -/

namespace HamRouter.Axudp

open Attempts Tranceiver

/-! ## Filters -/

/-- The metadata that `dissect_packet` derives from a content. -/
def derived (t : Station) (content : List UInt8) : Meta :=
  match Dissect.dissectPacket ⟨content, t.beyond⟩ with
  | none => ∅
  | some (fields, _) => Dissect.toMeta fields

/-- Of the peers with a filter, only those whose filter accepts the fields were sent to. -/
def OnlyAccepted (env : Env) (fields : Meta) (sent : Sent) : Prop :=
  ∀ x ∈ sent.1, ∀ f, x.1.filter = some f → env.executeFilter f fields = some true

section Packet

variable {τ : Type*} (env : Env) (cfg : Config) (t : Station) (this : τ)
  (history : Seen.History) (m : Message τ) (d : Datagram) (nowTs : ℚ)

/-- The content of a received packet, without its checksum. -/
def Datagram.content : List UInt8 := d.buffer.take (d.buffer.length - 2)

/-- On both paths the filters of the peers decide by the content of the packet: for a
message that is put, and for a datagram that is received. -/
def FiltersDecide : Prop :=
  OnlyAccepted env (derived t m.content) (putMessageLow env cfg m) ∧
    OnlyAccepted env (derived t d.content) (receive env cfg t this history d nowTs).sent

/-- `put_message_low` comes to a peer: no transmission to one in front of it ends the
loop. -/
def PutReaches (p : Peer) : Prop :=
  ∃ front back, cfg.peers = front ++ p :: back ∧
    Passes (fun _ => some true) (fun earlier p => env.transmitUdp earlier p.host (withCrc m.content))
      cfg.continueOnError front []

/-- `send_to_other_axudp_targets` comes to a peer: no filter and no transmission in front of
it ends the loop. -/
def RelayReaches (p : Peer) : Prop :=
  ∃ front back, cfg.peers = front ++ p :: back ∧
    Passes (wanted env (cameFrom d.source) ∅)
      (fun earlier p => env.transmitUdp earlier p.host d.buffer) cfg.continueOnError front []

/-- A datagram is sent on to other peers. -/
def Relayed : Prop :=
  d.buffer.length > 2 ∧ cfg.distribute = true ∧ (rateLimit t.s history d.content nowTs).2.1 = true

instance : Decidable (Relayed cfg t history d nowTs) := by
  unfold Relayed
  infer_instance

/-- Every peer with a filter that `put_message_low` comes to accepts the message; and of a
datagram that is sent on, every peer but the sender that the loop comes to and whose filter
accepts a message without metadata accepts it with its metadata. -/
def FiltersAgree : Prop :=
  (∀ p f, PutReaches env cfg m p → p.filter = some f →
      env.executeFilter f (derived t m.content) = some true) ∧
    (Relayed cfg t history d nowTs → ∀ p f, RelayReaches env cfg d p → p.filter = some f →
      p.host ≠ cameFrom d.source → env.executeFilter f ∅ = some true →
        env.executeFilter f (derived t d.content) = some true)

end Packet

/-! ## Endpoints -/

/-- An endpoint as it is written in the configuration. -/
def Endpoint.text (e : Endpoint) : StdString :=
  inetNtoa e.addr ++ ch ':' :: decimal e.port.toNat

section Relay

variable {τ : Type*} (env : Env) (cfg : Config) (this : τ) (d : Datagram)

/-- The transmissions of `send_to_other_axudp_targets` for a received datagram. -/
def relay : Sent :=
  sendToOtherAxudpTargets env cfg (⟨some this, d.buffer, ∅⟩ : Message τ) (cameFrom d.source)

/-- A datagram is not sent back to the peer it came from, and goes to every other peer
without a filter if no failure ends the loop. -/
def NotEchoed : Prop :=
  (∀ x ∈ (relay env cfg this d).1, x.1.host ≠ d.source.text) ∧
    ((cfg.continueOnError = true ∨ ∀ x ∈ (relay env cfg this d).1, x.2 = true) →
      ∀ p ∈ cfg.peers, p.filter = none → p.host ≠ d.source.text →
        ∃ ok, (p, ok) ∈ (relay env cfg this d).1)

/-- A peer is known by its host, or its filter has an answer for a message without
metadata. -/
def Answers (p : Peer) : Prop :=
  p.host ≠ cameFrom d.source → ∀ f, p.filter = some f → env.executeFilter f ∅ ≠ none

/-- The two bytes of the sender's port number are the same, or its own entries are not come
to or kept back by their filters; and if no failure ends the loop, no other peer without a
filter has the sender's address with the bytes of the port number swapped, and each is come
to with all filters in front of it answering. -/
def SenderRecognised : Prop :=
  (htons d.source.port = d.source.port ∨
      ∀ p, RelayReaches env cfg d p → p.host = d.source.text →
        ∃ f, p.filter = some f ∧ env.executeFilter f ∅ ≠ some true) ∧
    ((cfg.continueOnError = true ∨ Succeeds (wanted env (cameFrom d.source) ∅)
        (fun earlier p => env.transmitUdp earlier p.host d.buffer) cfg.continueOnError cfg.peers) →
      ∀ p ∈ cfg.peers, p.filter = none → p.host ≠ d.source.text →
        p.host ≠ (Endpoint.mk d.source.addr (htons d.source.port)).text ∧
          ∃ front back, cfg.peers = front ++ p :: back ∧ ∀ q ∈ front, Answers env d q)

end Relay

end HamRouter.Axudp
