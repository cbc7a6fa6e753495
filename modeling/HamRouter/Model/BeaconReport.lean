import HamRouter.Program.Beacon
import HamRouter.Program.Dissect

/-! # What a beacon is to be read as -/

namespace HamRouter.Beacon

open Dissect

/-- A beacon at a position on earth. -/
structure Report extends Config where
  latitude : ℚ
  longitude : ℚ
  latitude_le : |latitude| ≤ 90
  longitude_le : |longitude| ≤ 180
  callsign_clean : ch '>' ∉ callsign ∧ ch ':' ∉ callsign
  text_clean : 0 ∉ beaconText

namespace Report

variable (b : Report)

def output : StdString := Beacon.output b.toConfig b.latitude b.longitude

/-- The sender, the receiver, and the position within a hundredth of a minute. -/
structure Yields (fields : List Field) : Prop where
  sender : ⟨str "from", b.callsign ++ str "-L", 0⟩ ∈ fields
  receiver : ⟨str "to", str "APLG01", 0⟩ ∈ fields
  latitude : ∃ v, ⟨str "latitude", [], v⟩ ∈ fields ∧ |v - b.latitude| ≤ 1 / 6000
  longitude : ∃ v, ⟨str "longitude", [], v⟩ ∈ fields ∧ |v - b.longitude| ≤ 1 / 6000

/-- The dissector finds all of it, with this memory behind the beacon. -/
def ReadBack (beyond : ℕ → UInt8) : Prop :=
  ∃ fields packet, dissectPacket ⟨b.output, beyond⟩ = some (fields, packet) ∧ b.Yields fields

end Report

end HamRouter.Beacon
