import HamRouter.Library.Attempts
import HamRouter.Program.Tranceiver

/-! # The AXUDP tunnel of `tranceiver-axudp.cpp` -/

namespace HamRouter.Axudp

open Attempts Tranceiver

/-- A peer as it is configured: its host with the port, and its filter. -/
structure Peer where
  host : StdString
  filter : Option FilterT
deriving DecidableEq

/-- What `instantiate` reads from the configuration. -/
structure Config where
  peers : List Peer
  continueOnError : Bool
  distribute : Bool

/-- The calls that leave the tunnel. `transmit_udp` depends on the peers it was called for
before. `execute_filter` may also end the program, throw, or not end at all; then there is
no answer. -/
structure Env where
  transmitUdp : List Peer → StdString → List UInt8 → Bool
  executeFilter : FilterT → Meta → Option Bool

/-- The interpreter of filters, run for a number of steps. -/
def interpreter (fuel : ℕ) (f : FilterT) (m : Meta) : Option Bool :=
  match Filter.executeFilter fuel f.pattern f.ignoreIfFieldIsMissing m with
  | some (.ok rc) => some rc
  | _ => none

/-- The transmissions of a loop over the peers, and how it ended: `TE_ok` when it is
finished, `TE_hardware` when one failed. -/
abbrev Sent := List (Peer × Bool) × Ending

/-- `temp`: the content and its checksum, the low byte first. -/
def withCrc (content : List UInt8) : List UInt8 :=
  let crc := computeCrc content
  content ++ [crc.toUInt8, (crc >>> 8).toUInt8]

/-- `put_message_low(m)`. -/
def putMessageLow {τ : Type*} (env : Env) (cfg : Config) (m : Message τ) : Sent :=
  let temp := withCrc m.content
  pass (fun _ => some true) (fun earlier p => env.transmitUdp earlier p.host temp)
    cfg.continueOnError cfg.peers []

/-- The two tests of `send_to_other_axudp_targets`. -/
def wanted (env : Env) (cameFrom : StdString) (m : Meta) (p : Peer) : Option Bool :=
  if p.host = cameFrom then some false
  else
    match p.filter with
    | none => some true
    | some f => env.executeFilter f m

/-- `send_to_other_axudp_targets(m, came_from)`. -/
def sendToOtherAxudpTargets {τ : Type*} (env : Env) (cfg : Config) (m : Message τ)
    (cameFrom : StdString) : Sent :=
  pass (wanted env cameFrom m.metadata)
    (fun earlier p => env.transmitUdp earlier p.host m.content) cfg.continueOnError cfg.peers []

/-! ## Receiving -/

/-- An IPv4 address. -/
structure Ipv4 where
  a : UInt8
  b : UInt8
  c : UInt8
  d : UInt8
deriving DecidableEq

/-- `inet_ntoa`. -/
def inetNtoa (i : Ipv4) : StdString :=
  decimal i.a.toNat ++ ch '.' :: (decimal i.b.toNat ++ ch '.' :: (decimal i.c.toNat ++
    ch '.' :: decimal i.d.toNat))

/-- An address and a UDP port number. -/
structure Endpoint where
  addr : Ipv4
  port : UInt16
deriving DecidableEq

/-- The value that a little-endian host has in `sin_port` for a port number. -/
def htons (port : UInt16) : UInt16 := (port <<< 8) ||| (port >>> 8)

/-- `came_from`, which takes `sin_port` as it is. -/
def cameFrom (e : Endpoint) : StdString :=
  inetNtoa e.addr ++ ch ':' :: formatInt (htons e.port).toNat

/-- A datagram and the endpoint it was sent from. -/
structure Datagram where
  source : Endpoint
  buffer : List UInt8

/-- `max_pkt_len`. -/
def maxPktLen : ℕ := 1600

/-- What `recvfrom` stores in the buffer of the loop. -/
def recvfrom (source : Endpoint) (sent : List UInt8) : Datagram := ⟨source, sent.take maxPktLen⟩

/-- What one round of the loop of `operator()` does: the limiters behind it, what
`queue_incoming_message` pushed and returned, and what was sent to other peers. -/
structure Received (τ : Type*) where
  history : Seen.History
  queued : Option (Message τ)
  rc : Option TransmitError
  sent : Sent

/-- One round of the loop of `operator()` with a datagram. The last two bytes are taken for
a checksum and left out of the message that is queued, not of the one that is sent on. -/
def receive {τ : Type*} (env : Env) (cfg : Config) (t : Station) (this : τ)
    (history : Seen.History) (d : Datagram) (nowTs : ℚ) : Received τ :=
  let n := d.buffer.length
  if n > 2 then
    let m : Message τ := ⟨some this, d.buffer.take (n - 2), ∅⟩
    let (history, queued, rc) := queueIncomingMessage t history m nowTs
    if cfg.distribute ∧ rc ≠ .ratelimiting then
      let mFull : Message τ := ⟨some this, d.buffer, ∅⟩
      ⟨history, queued, some rc, sendToOtherAxudpTargets env cfg mFull (cameFrom d.source)⟩
    else ⟨history, queued, some rc, ([], .finished)⟩
  else ⟨history, none, none, ([], .finished)⟩

end HamRouter.Axudp
