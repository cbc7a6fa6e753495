import HamRouter.Library.TracedRead
import HamRouter.Program.Ax25
import HamRouter.Program.Seen
import HamRouter.Program.Switchboard

/-! # The APRS-IS uplink of `tranceiver-aprs-si.cpp`

What the network does is an argument of the functions, and what they do with their sockets
is recorded. A descriptor is known by how many were opened before it. -/

namespace HamRouter.AprsSi

open TracedRead StdString

/-! ## `net.cpp` -/

/-- What a `write` comes to. A connection that is gone raises `SIGPIPE`, which ends the
process. -/
inductive WriteResult where
  | accepted (n : ℕ)
  | failed
  | sigpipe
deriving DecidableEq

/-- `WRITE(fd, whereto, len)` when `cnt` bytes were written: the bytes that go out, and what
is returned, if anything is. The count is returned as an `int`. -/
def WRITE : List WriteResult → ℕ → List UInt8 → List UInt8 × Option ℤ
  | _, cnt, [] => ([], some (Ax25.intSize cnt))
  | [], _, _ :: _ => ([], some (-1))
  | .failed :: _, _, _ :: _ => ([], some (-1))
  | .sigpipe :: _, _, _ :: _ => ([], none)
  | .accepted n :: results, cnt, c :: whereto =>
      let rc := min n (c :: whereto).length
      if rc = 0 then ([], some 0)
      else
        let behind := WRITE results (cnt + rc) ((c :: whereto).drop rc)
        ((c :: whereto).take rc ++ behind.1, behind.2)

/-- What becomes of an address `getaddrinfo` found, and of `TCP_NODELAY` on its socket. -/
inductive Attempt where
  | noSocket
  | refused
  | connected (nodelay : Bool)
deriving DecidableEq

/-- What is done with a descriptor. The lines are those passed to `WRITE`, together with the
bytes that went out. -/
inductive Event where
  | opened (fd : ℕ)
  | login (fd : ℕ) (line written : StdString)
  | reply (fd : ℕ) (text : StdString)
  | packet (fd : ℕ) (line written : StdString)
  | closed (fd : ℕ)
deriving DecidableEq

def record (e : Event) : Traced Event Unit := ⟨(), [e]⟩

/-- The loop of `connect_to`: the number of descriptors opened, and the one that is
returned. Without `TCP_NODELAY` the process ends. -/
def connectLoop : List Attempt → ℕ → Traced Event (Option (ℕ × Option ℕ))
  | [], next => pure (some (next, none))
  | .noSocket :: rest, next => connectLoop rest next
  | .refused :: rest, next => do
      record (.opened next)
      record (.closed next)
      connectLoop rest (next + 1)
  | .connected nodelay :: _, next => do
      record (.opened next)
      pure (if nodelay then some (next + 1, some next) else none)

/-- `connect_to(host, portnr)`. A host that is not found ends the process. -/
def connectTo (resolved : Option (List Attempt)) (next : ℕ) :
    Traced Event (Option (ℕ × Option ℕ)) :=
  match resolved with
  | none => pure none
  | some attempts => connectLoop attempts next

/-! ## `tranceiver_aprs_si` -/

/-- The members that are set once. -/
structure Config where
  s : Option SeenPars
  aprsUser : StdString
  aprsPass : StdString
  localCallsign : StdString

/-- The limiters, `fd`, and the number of descriptors opened. -/
structure State where
  history : Seen.History
  fd : Option ℕ
  next : ℕ

/-- A new `tranceiver_aprs_si`. -/
def State.initial : State := ⟨∅, none, 0⟩

/-- What the network does during a call: the addresses, if there is an answer, what becomes
of the writes of the login and of the packet, and the bytes that can be read before a read
fails. -/
structure Outcomes where
  resolved : Option (List Attempt)
  loginWrites : List WriteResult
  reads : List UInt8
  packetWrites : List WriteResult

/-- `receive_string(fd)`. -/
def receiveString : List UInt8 → Option StdString
  | [] => none
  | c :: rest => if c = 10 then some [] else (receiveString rest).map (c :: ·)

/-- The outer `content_out`, as it is rewritten in front of the lock. -/
def rewrite (localCallsign contentOut : StdString) : StdString :=
  match find contentOut (str ">") with
  | none => contentOut
  | some gt =>
      match (find (contentOut.drop gt) (str ":")).map (gt + ·) with
      | none => contentOut
      | some colon =>
          let toFull := (contentOut.drop (gt + 1)).take (colon - gt - 1)
          let from_ := contentOut.take gt
          from_ ++ str ">" ++ toFull ++ str ",qAO," ++ localCallsign ++ contentOut.drop colon

/-- `login`. -/
def loginLine (c : Config) : StdString :=
  str "user " ++ c.aprsUser ++ str " pass " ++ c.aprsPass ++
    str " vers MyAprsGw softwarevers 0.2\r\n"

/-- The login on a new connection; `fd` behind it, unless the process ended. -/
def handshake (c : Config) (fd : ℕ) (o : Outcomes) : Traced Event (Option (Option ℕ)) := do
  let login := loginLine c
  let sent := WRITE o.loginWrites 0 login
  record (.login fd login sent.1)
  match sent.2 with
  | none => pure none
  | some rc =>
      if rc ≠ login.length then do
        record (.closed fd)
        pure (some none)
      else
        match receiveString o.reads with
        | none => do
            record (.closed fd)
            pure (some none)
        | some reply => do
            record (.reply fd reply)
            pure (some (some fd))

/-- The block `if (fd == -1)`. -/
def reconnect (c : Config) (st : State) (o : Outcomes) : Traced Event (Option State) :=
  match st.fd with
  | some _ => pure (some st)
  | none => do
      match ← connectTo o.resolved st.next with
      | none => pure none
      | some (next, none) => pure (some { st with next := next })
      | some (next, some fd) =>
          match ← handshake c fd o with
          | none => pure none
          | some fd => pure (some { st with fd := fd, next := next })

/-- The block `if (fd != -1)`, whose own `content_out` hides the rewritten one. -/
def transmit (st : State) (content : List UInt8) (o : Outcomes) :
    Traced Event (Option State) :=
  match st.fd with
  | none => pure (some st)
  | some fd => do
      let contentOut := content.drop 3
      let payload := contentOut ++ str "\r\n"
      let sent := WRITE o.packetWrites 0 payload
      record (.packet fd payload sent.1)
      match sent.2 with
      | none => pure none
      | some rc =>
          if rc ≠ payload.length then do
            record (.closed fd)
            pure (some { st with fd := none })
          else pure (some st)

/-- `put_message_low(m)`: the state behind it and what is returned, unless the process
ended. Nothing keeps `s` from being a null pointer. -/
def putMessageLow (c : Config) (st : State) (content : List UInt8) (nowTs : ℚ) (o : Outcomes) :
    Traced Event (Option (State × TransmitError)) :=
  if content.length < 5 then pure (some (st, .hardware))
  else if content.take 3 ≠ [ch '<', 0xff, 0x01] then pure (some (st, .ok))
  else
    match c.s with
    | none => pure none
    | some pars =>
        let checked := Seen.check pars st.history content nowTs
        let st := { st with history := checked.1 }
        if checked.2.1 = false then pure (some (st, .ratelimiting))
        else do
          let _contentOut := rewrite c.localCallsign (content.drop 3)
          match ← reconnect c st o with
          | none => pure none
          | some st =>
              match ← transmit st content o with
              | none => pure none
              | some st => pure (some (st, if st.fd ≠ none then .ok else .hardware))

end HamRouter.AprsSi
