import HamRouter.Program.Ax25
import HamRouter.Program.Gps
import HamRouter.Program.Message

/-! # The fields `dissect-packet.cpp` finds in a packet -/

namespace HamRouter

namespace Dissect

open StdString TracedRead

/-- An entry of the map `fields`: its key, and the text or number it was made from. -/
structure Field where
  name : StdString
  sValue : StdString := []
  dValue : ℚ := 0
deriving DecidableEq

/-- `fields.insert({ name, data })`: an entry with the key stays as it is. -/
def insert (fields : List Field) (f : Field) : List Field :=
  if f.name ∈ fields.map Field.name then fields else fields ++ [f]

/-! ## APRS -/

/-- The sender and the receiver, in front of the first colon behind a `>`. -/
def aprsAddresses (work : StdString) (fields : List Field) : List Field :=
  match find work (str ">") with
  | none => fields
  | some gt =>
      match (find (work.drop gt) (str ":")).map (gt + ·) with
      | none => fields
      | some colon =>
          let toFull := (work.drop (gt + 1)).take (colon - gt - 1)
          let to_ := match find toFull (str ",") with
            | some delimiter => toFull.take delimiter
            | none => toFull
          let from_ := (work.drop 3).take (gt - 3)
          insert (insert fields ⟨str "from", from_, 0⟩) ⟨str "to", to_, 0⟩

/-- The station types by symbol table and symbol, without the one that looks at a third
character. -/
def symbols : List ((UInt8 × UInt8) × StdString) := [
  ((ch '/', ch '#'), str "Digi"), ((ch '/', ch '%'), str "DX cluster"),
  ((ch '/', ch '&'), str "HF gateway"),
  ((ch '/', ch '('), str "Mobile satellite groundstation"),
  ((ch '/', ch 'I'), str "TCP/IP"), ((ch '/', ch 'M'), str "MacAPRS"),
  ((ch '/', ch 'O'), str "Balloon"), ((ch '/', ch 'S'), str "Space shuttle"),
  ((ch '/', ch 'Z'), str "WinAPRS"), ((ch '/', 0x60), str "Dish antenna"),
  ((ch '/', ch 'n'), str "Node"), ((ch '/', ch 'x'), str "X-APRS"),
  ((ch '\\', ch 'K'), str "Kenwood"), ((ch 'A', ch 'a'), str "ARES"),
  ((ch 'D', ch 'a'), str "DSTAR"), ((ch 'W', ch 'a'), str "WinLink"),
  ((ch 'Y', ch 'a'), str "C4FM Yaesu repeaters")]

/-- The two nested `switch` statements; no symbol is the empty text. -/
def symbolOf (selector sub1 sub2 : UInt8) : StdString :=
  if selector = ch 'L' then (if sub1 = ch '&' ∧ sub2 = ch 'L' then str "LoRa" else [])
  else (symbols.lookup (selector, sub1)).getD []

/-- The position and the station type of the text behind the colon. -/
def aprsPosition (nmea : StdString) (charsLeft : ℕ) (fields : List Field) : List Field :=
  let fields := match Gps.parseNmeaPos nmea.cStr with
    | none => fields
    | some (lat, lng) =>
        insert (insert fields ⟨str "latitude", [], lat⟩) ⟨str "longitude", [], lng⟩
  if charsLeft ≥ 20 then
    let sub2 := if charsLeft ≥ 21 then Gps.charAt nmea 20 else 0
    let symbol := symbolOf (Gps.charAt nmea 9) (Gps.charAt nmea 19) sub2
    if symbol = [] then fields else insert fields ⟨str "station-type", symbol, 0⟩
  else fields

/-- `parse_aprs(data, len)`. -/
def parseAprs (data : List UInt8) : Option (List Field) :=
  if data.length < 6 then none
  else if data.take 3 ≠ [ch '<', 0xff, 0x01] then none
  else
    let fields := aprsAddresses data []
    match find data (str ":") with
    | none => none
    | some colon =>
        let charsLeft := data.length - colon
        if charsLeft = 0 then none
        else
          let command := Gps.charAt data (colon + 1)
          let fields :=
            if (command = ch '!' ∨ command = ch '=') ∧ charsLeft ≥ 19 then
              aprsPosition (data.drop (colon + 1)) charsLeft fields
            else if command = ch '$' then
              insert (insert fields ⟨str "payload", data.drop (colon + 2), 0⟩)
                ⟨str "payload-protocol", str "NMEA", 0⟩
            else fields
          let fields := match find data (str "[") with
            | some bracket => insert fields ⟨str "payload", data.drop (bracket + 1), 0⟩
            | none => fields
          some (insert fields ⟨str "protocol", str "APRS-OE", 0⟩)

/-! ## AX.25 -/

/-- `dump_replace(p, len)`. -/
def dumpReplace (p : List UInt8) : StdString :=
  p.map fun c => if c > 32 ∧ c < 127 then c else ch '.'

/-- What the PID says about the payload. -/
def payloadProtocol (pid : UInt8) : Option StdString :=
  match pid with
  | 0x01 => some (str "X.25")
  | 0x06 => some (str "compressed TCP/IP")
  | 0x07 => some (str "uncompressed TCP/IP")
  | 0x08 => some (str "segmentation fragment")
  | 0xc3 => some (str "TEXNET")
  | 0xc4 => some (str "LQP")
  | 0xca => some (str "Appletalk")
  | 0xcb => some (str "Appletalk ARP")
  | 0xcc => some (str "IP")
  | 0xcd => some (str "ARP")
  | 0xce => some (str "FlexNet")
  | 0xcf => some (str "NET/ROM")
  | 0xf0 => some (str "NMEA")
  | _ => none

/-- `parse_ax25(data, len)`, which copies the packet into a vector of its own. -/
def parseAx25 (r : Region) : Option (List Field × Ax25.Packet) :=
  if r.bytes.length < 16 then none
  else if (r.bytes.take 6).any (· &&& 1 ≠ 0) then none
  else if r.bytes.getD 14 0 &&& 3 = 2 then none
  else
    let packet := (Ax25.ofVector r).val
    let fields := insert [] ⟨str "protocol", str "AX.25", 0⟩
    let fields := insert fields ⟨str "from", packet.fromAddress.address, 0⟩
    let fields := insert fields ⟨str "to", packet.toAddress.address, 0⟩
    let payload := dumpReplace (packet.data.bytes.take packet.data.size.toNat)
    let fields := insert fields ⟨str "payload", payload, 0⟩
    match packet.pid.bind payloadProtocol with
    | none => some (fields, packet)
    | some protocol => some (insert fields ⟨str "payload-protocol", protocol, 0⟩, packet)

/-- `dissect_packet(data, len)`. -/
def dissectPacket (r : Region) : Option (List Field × Option Ax25.Packet) :=
  match parseAprs r.bytes with
  | some fields => some (fields, none)
  | none => (parseAx25 r).map fun (fields, packet) => (fields, some packet)

/-- The fields as metadata: they end up in the `s_value` of their records. -/
def toMeta (fields : List Field) : Meta :=
  fields.foldl (fun m f => m.insert f.name ⟨f.sValue⟩) ∅

end Dissect

end HamRouter
