import HamRouter.Program.Ax25

/-! # KISS framing: `recv_mkiss` and `send_mkiss` of `tranceiver-kiss.cpp` -/

namespace HamRouter.Kiss

/-- `MAX_PACKET_SIZE` of `net.h`. -/
def maxPacketSize : ℕ := 254

def fend : UInt8 := 0xc0

def fesc : UInt8 := 0xdb

def tfend : UInt8 := 0xdc

def tfesc : UInt8 := 0xdd

/-! ## The receiver -/

/-- What a `read` of one byte comes to: the byte, `EINTR`, or another error. -/
inductive ReadResult where
  | byte (b : UInt8)
  | interrupted
  | failed

/-- `escape`, and the first `*len` bytes of `*p`. -/
structure Receiver where
  escape : Bool := false
  packet : List UInt8 := []
deriving DecidableEq

/-- How the loop goes on after a byte. -/
inductive Iteration where
  | next (s : Receiver)
  | leave (ok : Bool) (packet : List UInt8)

/-- The body of the loop once a byte is there. Where the packet is full the loop is left
with `ok == false`, except at `FEND` and `FESC` outside an escape. -/
def onByte (s : Receiver) (buffer : UInt8) : Iteration :=
  if s.escape then
    if s.packet.length = maxPacketSize then .leave false s.packet
    else if buffer = tfend then .next { packet := s.packet ++ [fend] }
    else if buffer = tfesc then .next { packet := s.packet ++ [fesc] }
    else .next { packet := s.packet }
  else if buffer = fend then
    if s.packet.length = 0 then .next s else .leave true s.packet
  else if buffer = fesc then .next { s with escape := true }
  else if s.packet.length = maxPacketSize then .leave false s.packet
  else .next { s with packet := s.packet ++ [buffer] }

/-- After the loop: the first byte of a packet is the command, and the rest moves down. The `memcpy`
that does this overlaps, which is not defined; it is taken to move the bytes. -/
def finish (ok : Bool) (packet : List UInt8) : Option (List UInt8) :=
  if packet.length = 0 then none
  else if ok then some packet.tail
  else none

/-- A call returns `false` (`none`) or a packet, and leaves reads for later; or it waits
for the next byte. -/
inductive Call where
  | returned (result : Option (List UInt8)) (unread : List ReadResult)
  | waiting (s : Receiver)

/-- The loop of `recv_mkiss`, from a state of its variables. -/
def recvLoop : Receiver → List ReadResult → Call
  | s, [] => .waiting s
  | s, .interrupted :: rest => recvLoop s rest
  | _, .failed :: rest => .returned none rest
  | s, .byte buffer :: rest =>
      match onByte s buffer with
      | .next s => recvLoop s rest
      | .leave ok packet => .returned (finish ok packet) rest

/-- `recv_mkiss`. -/
def recvMkiss (reads : List ReadResult) : Call := recvLoop {} reads

theorem recvLoop_unread_lt {s : Receiver} {reads unread : List ReadResult}
    {result : Option (List UInt8)} (h : recvLoop s reads = .returned result unread) :
    unread.length < reads.length := by
  induction reads generalizing s with
  | nil => simp [recvLoop] at h
  | cons r rest ih =>
      rw [List.length_cons]
      cases r with
      | interrupted => exact Nat.lt_succ_of_lt (ih h)
      | failed =>
          simp only [recvLoop, Call.returned.injEq] at h
          simp [h.2]
      | byte buffer =>
          rw [recvLoop] at h
          split at h
          · exact Nat.lt_succ_of_lt (ih h)
          · simp only [Call.returned.injEq] at h
            simp [h.2]

/-- The results of successive calls of `recv_mkiss`, and the variables of the last call,
which waits for a byte. -/
def recvCalls (reads : List ReadResult) : List (Option (List UInt8)) × Receiver :=
  match _h : recvMkiss reads with
  | .waiting s => ([], s)
  | .returned result unread =>
      let later := recvCalls unread
      (result :: later.1, later.2)
termination_by reads.length
decreasing_by exact recvLoop_unread_lt _h

/-! ## The sender -/

/-- `escape_put`: the bytes it appends. -/
def escapePut (c : UInt8) : List UInt8 :=
  if c = fend then [fesc, tfend]
  else if c = fesc then [fesc, tfesc]
  else [c]

/-- `int max_len`: the size of the buffer that `send_mkiss` allocates. There is none where it would be
beyond `int`. -/
def maxLen (len : ℕ) : Option ℕ :=
  if (len : ℤ) * 2 + 3 ≤ Ax25.intMax then some (len * 2 + 3) else none

/-- `send_mkiss`: the bytes it writes. The assertions keep both arguments below 16. -/
def sendMkiss (cmd channel : Fin 16) (p : List UInt8) : List UInt8 :=
  [fend] ++ escapePut ((UInt8.ofNat channel <<< 4) ||| UInt8.ofNat cmd) ++ p.flatMap escapePut ++
    [fend]

end HamRouter.Kiss
