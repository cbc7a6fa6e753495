import HamRouter.Program.Gps

/-! # The beacon of `tranceiver-beacon.cpp` in its APRS mode -/

namespace HamRouter.Beacon

/-- The members of `tranceiver_beacon` that an APRS beacon is made of. -/
structure Config where
  beaconText : StdString
  callsign : StdString
  aprsSymbolTable : UInt8
  aprsSymbol : StdString

/-- `output` at a position. -/
def output (c : Config) (latitude longitude : ℚ) : StdString :=
  let aprsText := str "=" ++ Gps.gpsDoubleToAprs latitude longitude c.aprsSymbolTable ++ c.aprsSymbol
  [ch '<', 0xff, 0x01] ++ c.callsign ++ str "-L>APLG01,TCPIP*,qAC:" ++ aprsText ++ c.beaconText

end HamRouter.Beacon
