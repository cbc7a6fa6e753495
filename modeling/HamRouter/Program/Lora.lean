import HamRouter.Program.Tranceiver

/-! # The receive callback of `tranceiver-lora-sx1278.cpp` -/

namespace HamRouter.Lora

open Tranceiver

/-- An `rxData`. -/
structure RxData where
  buf : List UInt8
  size : UInt8
  rssi : ℤ
  crc : Bool

/-- What `rx_f` does: the limiters behind it, what `queue_incoming_message` pushed and
returned, and the message that is put out again. -/
structure Received (τ : Type*) where
  history : Seen.History
  queued : Option (Message τ)
  rc : Option TransmitError
  put : Option (Message τ)

/-- The metadata of a reception. The text of the air time is empty. -/
def rxMeta (rx : RxData) : Meta :=
  ((∅ : Meta).insert (str "rssi") ⟨formatInt rx.rssi ++ str "dBm"⟩).insert (str "air-time") ⟨[]⟩

/-- `rx_f(in)`. A digipeater puts the message whatever `queue_incoming_message` returns. -/
def rxF {τ : Type*} (isDigipeater : Bool) (t : Station) (this : τ) (history : Seen.History)
    (rx : RxData) (nowTs : ℚ) : Received τ :=
  if rx.size = 0 ∨ rx.crc = true then ⟨history, none, none, none⟩
  else
    let m : Message τ := ⟨some this, rx.buf.take rx.size.toNat, rxMeta rx⟩
    let (history, queued, rc) := queueIncomingMessage t history m nowTs
    ⟨history, queued, some rc, if isDigipeater then some m else none⟩

end HamRouter.Lora
