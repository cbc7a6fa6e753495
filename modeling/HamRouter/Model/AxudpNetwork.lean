import HamRouter.Library.Transition
import HamRouter.Model.AxudpPeers
import HamRouter.Model.SeenRun
import Mathlib.Logic.Function.Basic

/-! # A network of AXUDP tunnels

Routers that put messages into their tunnels, send datagrams on to other peers, and evict from
their limiters, over a network that may lose, repeat and reorder datagrams. -/

namespace HamRouter.Axudp

open Tranceiver

/-- A tunnel: its configuration, and its `s` if it has one. -/
structure Node where
  cfg : Config
  s : Option SeenPars

/-- The tunnels, and the one that listens at the host of a peer. -/
structure Network (ι : Type*) where
  node : ι → Node
  listens : StdString → Option ι

/-- Bytes that were sent to a host. -/
structure Sending where
  host : StdString
  bytes : List UInt8
deriving DecidableEq

/-- The content that a receiver takes out of them. -/
def Sending.content (d : Sending) : List UInt8 := d.bytes.take (d.bytes.length - 2)

namespace Network

/-- The limiters, all that was sent, and two histories: the contents that were put into a
tunnel, and those that were queued behind one. -/
structure State (ι : Type*) where
  seen : ι → Seen.Counted
  flight : List Sending
  originated : List (List UInt8)
  queued : ι → List (List UInt8)

def State.initial {ι : Type*} : State ι where
  seen _ := .initial
  flight := []
  originated := []
  queued _ := []

/-- A datagram that arrives at a tunnel, with the world around it at that moment. -/
structure Arrival (ι : Type*) where
  i : ι
  sending : Sending
  source : Endpoint
  env : Env
  beyond : ℕ → UInt8
  distance : ℚ → ℚ → Option StdString
  nowTs : ℚ

/-- One step of one router. -/
inductive Action (ι : Type*) where
  | put (i : ι) (env : Env) (content : List UInt8)
  | deliver (arrival : Arrival ι)
  | evict (i : ι) (vector : List (UInt32 × ℤ))

/-- What the attempts to send these bytes brought onto the network. -/
def sendings (bytes : List UInt8) (sent : Sent) : List Sending :=
  (sent.1.filter (·.2)).map fun attempt => ⟨attempt.1.host, bytes⟩

section Steps

variable {ι : Type*} [DecidableEq ι] (net : Network ι) (s : State ι)

/-- `put_message_low` of a tunnel. -/
def put (i : ι) (env : Env) (content : List UInt8) : State ι :=
  let sent := putMessageLow env (net.node i).cfg (⟨none, content, ∅⟩ : Message ι)
  { s with
    flight := s.flight ++ sendings (withCrc content) sent
    originated := s.originated ++ [content] }

/-- What `recvfrom` gives for an arrival. -/
def Arrival.datagram (a : Arrival ι) : Datagram := recvfrom a.source a.sending.bytes

/-- One round of the loop of the tunnel. -/
def Arrival.received (a : Arrival ι) : Received ι :=
  receive a.env (net.node a.i).cfg ⟨(net.node a.i).s, a.beyond, a.distance⟩ a.i
    (s.seen a.i).history a.datagram a.nowTs

/-- The limiter of the tunnel counts the check that the round makes. -/
def Arrival.checked (a : Arrival ι) : Seen.Counted :=
  let counted := s.seen a.i
  match (net.node a.i).s with
  | none => counted
  | some pars =>
      if a.datagram.buffer.length > 2 then
        (counted.check pars ⟨a.datagram.content, a.nowTs⟩).1
      else counted

/-- A datagram that was sent to the host of a tunnel arrives there. It stays on the network,
and may arrive again or never. -/
def deliver (a : Arrival ι) : Option (State ι) :=
  if a.sending ∈ s.flight ∧ net.listens a.sending.host = some a.i then
    let received := a.received net s
    some
      { s with
        seen := Function.update s.seen a.i
          { a.checked net s with history := received.history }
        flight := s.flight ++ sendings a.datagram.buffer received.sent
        queued := Function.update s.queued a.i
          (s.queued a.i ++ (received.queued.map (·.content)).toList) }
  else none

def step : Action ι → Option (State ι)
  | .put i env content => some (put net s i env content)
  | .deliver arrival => deliver net s arrival
  | .evict i vector =>
      (net.node i).s.bind fun pars =>
        ((s.seen i).evict pars vector).map fun counted =>
          { s with seen := Function.update s.seen i counted }

abbrev Reachable : State ι → Prop := Transition.Reachable net.step .initial

end Steps

end Network

end HamRouter.Axudp
