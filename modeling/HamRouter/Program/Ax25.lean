import HamRouter.Library.TracedRead
import HamRouter.Program.Str

/-! # AX.25 frames: `ax25_address` and `ax25`

The constructor from a vector records every index of the vector it reads; nothing in
it but the first comparison keeps an index below `in.size()`. -/

namespace HamRouter.Ax25

open TracedRead

/-- `ax25_address`; the default values are those of the default constructor. -/
structure Address where
  valid : Bool := false
  address : StdString := []
  ssid : UInt8 := ch '0'
  endMark : Bool := false
  repeated : Bool := false
deriving DecidableEq

namespace Address

/-- The loop over the six callsign bytes with `end` and `address`. It stops at a byte
with bit 0 set, and then the flag returned is `false`. -/
def scanCallsign : Bool → StdString → List UInt8 → StdString × Bool
  | _, address, [] => (address, true)
  | ended, address, b :: rest =>
      if b &&& 1 ≠ 0 then (address, false)
      else
        let c := b >>> 1
        if c = 0 ∨ c = 32 ∨ ended then scanCallsign true address rest
        else scanCallsign false (address ++ [c]) rest

/-- `ax25_address(const std::vector<uint8_t> &)`. -/
def ofBytes (input : List UInt8) : Address :=
  if input.length < 7 then {}
  else
    match scanCallsign false [] (input.take 6) with
    | (address, false) => { address := address }
    | (address, true) =>
        let last := input.getD 6 0
        { valid := true
          address := address
          ssid := ch '0' + ((last >>> 1) &&& 0x0f)
          endMark := last &&& 1 ≠ 0
          repeated := last &&& 128 ≠ 0 }

/-- `ax25_address(a, ssid, end_mark, repeated)`, which stores `true` for the SSID. -/
def ofParts (a : StdString) (_ssid : UInt8) (endMark repeated : Bool) : Address :=
  { valid := true, address := a, ssid := 1, endMark := endMark, repeated := repeated }

/-- `operator=`, which makes the target valid whatever the source is. -/
def assign (input : Address) : Address := { input with valid := true }

/-- `generate_address()`. -/
def generateAddress (a : Address) : List UInt8 :=
  (a.address.take 6).map (fun c : UInt8 => c <<< 1) ++
    List.replicate (6 - min 6 a.address.length) (ch ' ' <<< 1) ++
    [(a.ssid <<< 1) ||| (if a.endMark then 1 else 0) ||| (if a.repeated then 128 else 0)]

end Address

/-- `INT_MAX`. -/
def intMax : ℤ := 2147483647

/-- The `int` a size is passed as. -/
def intSize (n : ℕ) : ℤ := (n : ℤ).bmod 4294967296

/-- `buffer`: the bytes it holds a copy of, and its size. -/
structure Buffer where
  bytes : List UInt8 := []
  size : ℤ := 0
deriving DecidableEq

/-- `buffer(p, size)`. No memory is found for a negative size, and nothing is copied. -/
def Buffer.ofPointer (p : List UInt8) (size : ℤ) : Buffer := ⟨p.take size.toNat, size⟩

/-- `ax25`. -/
structure Packet where
  valid : Bool := false
  fromAddress : Address := {}
  toAddress : Address := {}
  seenBy : List Address := []
  control : UInt8 := 0
  msgNr : Option UInt8 := none
  pid : Option UInt8 := none
  data : Buffer := {}
deriving DecidableEq

/-- One indexed read `in[i]`. -/
def readByte (r : Region) (i : ℕ) : Traced ℕ UInt8 := ⟨r.get i, [i]⟩

/-- A copy of `n` bytes from index `start` on. -/
def readBytes (r : Region) (start n : ℕ) : Traced ℕ (List UInt8) :=
  ⟨r.slice start n, List.range' start n⟩

def readIf (wanted : Bool) (r : Region) (i : ℕ) : Traced ℕ (Option UInt8) :=
  if wanted then some <$> readByte r i else pure none

/-- The payload from `offset` on, or an empty buffer. -/
def readData (r : Region) (offset : ℕ) : Traced ℕ Buffer :=
  if offset < r.bytes.length - 1 then do
    let size := intSize (r.bytes.length - offset)
    let copy ← readBytes r offset size.toNat
    pure (Buffer.ofPointer copy size)
  else pure {}

/-- The loop over at most two repeaters; without an offset the constructor returned. -/
def readRepeaters (r : Region) :
    ℕ → Bool → ℕ → List Address → Traced ℕ (List Address × Option ℕ)
  | 0, _, offset, seenBy => pure (seenBy, some offset)
  | n + 1, endMark, offset, seenBy =>
      if endMark then pure (seenBy, some offset)
      else do
        let a := Address.ofBytes (← readBytes r offset 7)
        if a.valid then readRepeaters r n a.endMark (offset + 7) (seenBy ++ [a])
        else pure (seenBy, none)

/-- The control byte, what its type asks for, and the payload. The control byte is kept
in a local variable, not in the member of that name. -/
def readBody (r : Region) (packet : Packet) (offset : ℕ) : Traced ℕ Packet := do
  let control ← readByte r offset
  let type := control &&& 3
  let msgNr ← readIf (type = 0 || type = 1) r (offset + 1)
  let offset := offset + 1 + msgNr.toList.length
  let pid ← readIf (type = 0 || type = 3) r offset
  let offset := offset + pid.toList.length
  let data ← readData r offset
  pure { packet with valid := true, msgNr := msgNr, pid := pid, data := data }

/-- `ax25(const std::vector<uint8_t> & in)`. -/
def ofVector (r : Region) : Traced ℕ Packet :=
  if r.bytes.length < 14 then pure {}
  else do
    let toAddress := (Address.ofBytes (← readBytes r 0 7)).assign
    if toAddress.valid then
      let fromAddress := (Address.ofBytes (← readBytes r 7 7)).assign
      if fromAddress.valid then
        let (seenBy, offset) ← readRepeaters r 2 fromAddress.endMark 14 []
        let packet : Packet :=
          { toAddress := toAddress, fromAddress := fromAddress, seenBy := seenBy }
        match offset with
        | none => pure packet
        | some offset => readBody r packet offset
      else pure { toAddress := toAddress, fromAddress := fromAddress }
    else pure { toAddress := toAddress }

def setFrom (p : Packet) (callsign : StdString) (ssid : UInt8) (endMark repeated : Bool) : Packet :=
  { p with fromAddress := (Address.ofParts callsign ssid endMark repeated).assign }

def setTo (p : Packet) (callsign : StdString) (ssid : UInt8) (endMark repeated : Bool) : Packet :=
  { p with toAddress := (Address.ofParts callsign ssid endMark repeated).assign }

def setData (p : Packet) (data : List UInt8) : Packet :=
  { p with data := Buffer.ofPointer data (intSize data.length) }

def setControl (p : Packet) (control : UInt8) : Packet := { p with control := control }

def setPid (p : Packet) (pid : UInt8) : Packet := { p with pid := some pid }

/-- `generate_packet()`. It has no repeaters in its output, and `value()` throws where
the type asks for a message number or pid that is not there. There is no result either
for a negative `data_size`, or one for which `data_size + 1024` overflows. -/
def generatePacket (p : Packet) : Option (List UInt8) :=
  let dataSize := p.data.size
  if dataSize < 0 ∨ intMax < dataSize + 1024 then none
  else do
    let type := p.control &&& 3
    let msgNr ← if type = 0 ∨ type = 1 then p.msgNr.map ([·]) else some []
    let pid ← if type = 0 ∨ type = 3 then p.pid.map ([·]) else some []
    some (p.toAddress.generateAddress ++ p.fromAddress.generateAddress ++ [p.control] ++ msgNr ++
      pid ++ p.data.bytes.take dataSize.toNat)

end HamRouter.Ax25
