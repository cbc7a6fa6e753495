import HamRouter.Model.AxudpPeers
import HamRouter.Program.Lora

/-! # Receive paths that send packets again

Over a run of received packets. A packet that the limiter of its tranceiver refused is not
to be sent again. -/

namespace HamRouter.Tranceiver

/-- What became of a received packet: its content, the time, what
`queue_incoming_message` returned if it was called, and whether it was sent again. -/
structure Handled where
  content : List UInt8
  nowTs : ℚ
  rc : Option TransmitError
  resent : Bool

def RefusedStay (packets : List Handled) : Prop :=
  ∀ packet ∈ packets, packet.rc = some .ratelimiting → packet.resent = false

/-- Behind a checked packet and up to a later one with its checksum that is sent again, no
more of that checksum are sent again than a limiter holds and gains in between. -/
def WithinBound (pars : SeenPars) (packets : List Handled) : Prop :=
  ∀ i j first last, i < j → packets[i]? = some first → packets[j]? = some last →
    first.rc.isSome = true → last.resent = true →
      calcCrc32 first.content = calcCrc32 last.content →
        (((packets.take (j + 1)).drop (i + 1)).countP fun packet =>
            packet.resent && calcCrc32 packet.content = calcCrc32 last.content : ℕ) ≤
          (pars.maxPerDt : ℚ) + pars.maxPerDt / pars.dt * (last.nowTs - first.nowTs)

/-- Refused packets are not sent again, and what is sent again stays within the bound of the
limiter. -/
structure Limited (s : Option SeenPars) (packets : List Handled) : Prop where
  refused : RefusedStay packets
  bounded : ∀ pars, s = some pars → WithinBound pars packets

/-! ## Paths -/

/-- A receive path as its limiter sees it: the content and the time of an input, whether it
is checked, and whether it is sent again with a given verdict. -/
structure Path (ι : Type*) where
  content : ι → List UInt8
  nowTs : ι → ℚ
  checks : ι → Bool
  resends : ι → Bool → Bool

namespace Path

variable {ι : Type*} (path : Path ι) (s : Option SeenPars)

/-- The limiters behind an input. -/
def next (history : Seen.History) (input : ι) : Seen.History :=
  if path.checks input then (rateLimit s history (path.content input) (path.nowTs input)).1
  else history

/-- What becomes of an input. -/
def handle (history : Seen.History) (input : ι) : Handled :=
  let ok := (rateLimit s history (path.content input) (path.nowTs input)).2.1
  if path.checks input then
    ⟨path.content input, path.nowTs input, some (if ok = true then .ok else .ratelimiting),
      path.resends input ok⟩
  else ⟨path.content input, path.nowTs input, none, false⟩

def run : Seen.History → List ι → List Handled
  | _, [] => []
  | history, input :: rest =>
      path.handle s history input :: run (path.next s history input) rest

/-- The checks of a run. -/
def calls (inputs : List ι) : List Seen.Call :=
  (inputs.filter (path.checks ·)).map fun input => ⟨path.content input, path.nowTs input⟩

end Path

end HamRouter.Tranceiver

namespace HamRouter.Axudp

open Tranceiver

/-- A datagram that is received, with the outside world at that moment. -/
structure Reception where
  env : Env
  datagram : Datagram
  nowTs : ℚ

section Run

variable {τ : Type*} (cfg : Config) (t : Station) (this : τ)

def handle (history : Seen.History) (r : Reception) : Handled :=
  let received := receive r.env cfg t this history r.datagram r.nowTs
  ⟨r.datagram.content, r.nowTs, received.rc, !received.sent.1.isEmpty⟩

/-- The rounds of the loop of `operator()`. -/
def run : Seen.History → List Reception → List Handled
  | _, [] => []
  | history, r :: rest =>
      handle cfg t this history r ::
        run (receive r.env cfg t this history r.datagram r.nowTs).history rest

/-- The loop as a path: what is accepted goes to the other peers. -/
def path : Path Reception where
  content r := r.datagram.content
  nowTs r := r.nowTs
  checks r := r.datagram.buffer.length > 2
  resends r ok := cfg.distribute && ok && !(relay r.env cfg this r.datagram).1.isEmpty

end Run

end HamRouter.Axudp

namespace HamRouter.Lora

open Tranceiver

/-- The content of a reception. -/
def RxData.content (rx : RxData) : List UInt8 := rx.buf.take rx.size.toNat

/-- A reception that is not dropped at once. -/
def RxData.Valid (rx : RxData) : Prop := ¬ (rx.size = 0 ∨ rx.crc = true)

instance (rx : RxData) : Decidable rx.Valid := by
  unfold RxData.Valid
  infer_instance

structure Reception where
  rx : RxData
  nowTs : ℚ

section Run

variable {τ : Type*} (isDigipeater : Bool) (t : Station) (this : τ)

def handle (history : Seen.History) (r : Reception) : Handled :=
  let received := rxF isDigipeater t this history r.rx r.nowTs
  ⟨r.rx.content, r.nowTs, received.rc, received.put.isSome⟩

/-- The calls of the callback. -/
def run : Seen.History → List Reception → List Handled
  | _, [] => []
  | history, r :: rest =>
      handle isDigipeater t this history r ::
        run (rxF isDigipeater t this history r.rx r.nowTs).history rest

/-- The callback as a path: a digipeater sends whatever the verdict is. -/
def path : Path Reception where
  content r := r.rx.content
  nowTs r := r.nowTs
  checks r := decide r.rx.Valid
  resends _ _ := isDigipeater

/-- The limiter, if a digipeater has one, accepts every valid reception of a run. -/
def AllAccepted (s : Option SeenPars) (history : Seen.History) (rs : List Reception) : Prop :=
  isDigipeater = true → ∀ pars, s = some pars →
    ∀ outcome ∈ Seen.outcomes pars history
      ((rs.filter (·.rx.Valid)).map fun r => ⟨r.rx.content, r.nowTs⟩), outcome.1 = true

end Run

end HamRouter.Lora
