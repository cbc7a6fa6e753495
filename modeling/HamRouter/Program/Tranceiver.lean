import HamRouter.Program.Dissect
import HamRouter.Program.Seen
import HamRouter.Program.Switchboard

/-! # What `tranceiver.cpp` does with a message that came in

The queues it is pushed to are those of the work queue. -/

namespace HamRouter.Tranceiver

open TracedRead

/-- A tranceiver, with its `s` if it has one, and what `queue_incoming_message` finds
outside: the memory behind the copy that is dissected, and the distance to a position as
`"%.2f"` prints it, when the GPS has a position. -/
structure Station where
  s : Option SeenPars
  beyond : ℕ → UInt8
  distance : ℚ → ℚ → Option StdString

/-- A hexadecimal digit. -/
def hexDigit (n : ℕ) : UInt8 :=
  if n < 10 then ch '0' + UInt8.ofNat n else ch 'a' + UInt8.ofNat (n - 10)

/-- `myformat("%08x", v)`. -/
def formatHex8 (v : UInt32) : StdString :=
  ((List.range 8).map fun i => hexDigit (v.toNat / 16 ^ i % 16)).reverse

/-- `set_meta(m)` of a message with this metadata. -/
def setMeta (metadata m : Meta) : Meta :=
  m.entries.foldl (fun metadata entry => metadata.insert entry.1 entry.2) metadata

/-- The verdict of the limiter and the checksum. -/
def rateLimit (s : Option SeenPars) (history : Seen.History) (content : List UInt8)
    (nowTs : ℚ) : Seen.History × (Bool × UInt32) :=
  match s with
  | none => (history, (true, calcCrc32 content))
  | some pars => Seen.check pars history content nowTs

/-- The fields of a packet, with the distance when there is a position to measure it from. -/
def dissected (t : Station) (content : List UInt8) : Option Meta :=
  (Dissect.dissectPacket ⟨content, t.beyond⟩).map fun (fields, _) =>
    let lat := fields.find? (·.name = str "latitude")
    let lng := fields.find? (·.name = str "longitude")
    let m := Dissect.toMeta fields
    match lat, lng with
    | some lat, some lng =>
        match t.distance lat.dValue lng.dValue with
        | some distance => if str "distance" ∈ m then m else m.insert (str "distance") ⟨distance⟩
        | none => m
    | _, _ => m

/-- `queue_incoming_message(m_in)`: the limiters, the message pushed to the queues, and
what is returned. -/
def queueIncomingMessage {τ : Type*} (t : Station) (history : Seen.History) (m : Message τ)
    (nowTs : ℚ) : Seen.History × Option (Message τ) × TransmitError :=
  let (history, ok, hash) := rateLimit t.s history m.content nowTs
  let metadata := setMeta m.metadata ((∅ : Meta).insert (str "pkt-crc") ⟨formatHex8 hash⟩)
  if ok = false then (history, none, .ratelimiting)
  else
    let metadata := match dissected t m.content with
      | none => metadata
      | some fields => setMeta metadata fields
    (history, some { m with metadata := metadata }, .ok)

end HamRouter.Tranceiver
