import HamRouter.Program.AprsSi

/-! # The lines the APRS-IS uplink sends, and its connections over many calls -/

namespace HamRouter.AprsSi

open TracedRead StdString

/-! ## Lines -/

/-- The parts of a packet. -/
structure Packet where
  sender : StdString
  receivers : StdString
  text : StdString
  sender_clean : ch '>' ∉ sender ∧ ch ':' ∉ sender
  receivers_clean : ch ':' ∉ receivers

def Packet.content (p : Packet) : List UInt8 :=
  [ch '<', 0xff, 0x01] ++ (p.sender ++ ch '>' :: (p.receivers ++ ch ':' :: p.text))

/-- The packet as APRS-IS is to be told about it. -/
def Packet.gated (p : Packet) (localCallsign : StdString) : StdString :=
  p.sender ++ str ">" ++ p.receivers ++ str ",qAO," ++ localCallsign ++ ch ':' :: p.text

/-- The bytes that go out of packets. -/
def packetBytes (log : List Event) : List UInt8 :=
  log.flatMap fun
    | .packet _ _ written => written
    | _ => []

/-- A call that sends a packet. -/
structure Sending extends Packet where
  config : Config
  state : State
  nowTs : ℚ
  outcomes : Outcomes
  sends : (putMessageLow config state toPacket.content nowTs outcomes).val.map Prod.snd = some .ok

/-- What goes out is the gated packet, as one line. -/
def Sending.OneLine (s : Sending) : Prop :=
  packetBytes (putMessageLow s.config s.state s.content s.nowTs s.outcomes).log =
      s.gated s.config.localCallsign ++ str "\r\n" ∧
    ∀ b ∈ s.gated s.config.localCallsign, b ≠ 13 ∧ b ≠ 10

/-! ## Calls -/

/-- A call of `put_message_low`. The buffer of a message holds at most `INT_MAX` bytes. -/
structure Call where
  content : List UInt8
  nowTs : ℚ
  outcomes : Outcomes
  length_le : (content.length : ℤ) ≤ Ax25.intMax

namespace Call

variable (k : Call)

def put (c : Config) (st : State) : Traced Event (Option (State × TransmitError)) :=
  putMessageLow c st k.content k.nowTs k.outcomes

/-- The line the call is to send. -/
def line : StdString := k.content.drop 3 ++ str "\r\n"

/-- What the limiter sees of it. -/
def seen : Seen.Call := ⟨k.content, k.nowTs⟩

end Call

/-- A connection that is open, with all of the login sent and a reply read. -/
def LoggedIn (c : Config) (log : List Event) (fd : ℕ) : Prop :=
  .login fd (loginLine c) (loginLine c) ∈ log ∧ (∃ text, .reply fd text ∈ log) ∧
    .closed fd ∉ log

/-- What is expected of a call behind these events. -/
structure Call.Correct (k : Call) (c : Config) (before : List Event) (st : State) : Prop where
  goesOn : (k.put c st).val ≠ none
  loggedIn : ∀ front fd line written back,
    (k.put c st).log = front ++ .packet fd line written :: back → LoggedIn c (before ++ front) fd
  ok_iff : ∀ behind rc, (k.put c st).val = some (behind, rc) →
    (rc = .ok ↔ ∃ fd, .packet fd k.line k.line ∈ (k.put c st).log)
  closes : ∀ behind rc, (k.put c st).val = some (behind, rc) → rc ≠ .ok →
    behind.fd = none ∧ ∀ fd, .opened fd ∈ before ++ (k.put c st).log →
      (before ++ (k.put c st).log).count (.closed fd) = 1

/-! ## What the network may do -/

/-- The first writes take some bytes, each of them one or more, and leave these results. -/
inductive Taken : List WriteResult → ℕ → List WriteResult → Prop where
  | nothing (results : List WriteResult) : Taken results 0 results
  | more {n sum : ℕ} {results rest : List WriteResult} (hn : n ≠ 0)
      (h : Taken results sum rest) : Taken (.accepted n :: results) (n + sum) rest

/-- The writes take a line of this length. -/
def Takes (results : List WriteResult) (len : ℕ) : Prop :=
  ∃ sum rest, Taken results sum rest ∧ len ≤ sum

/-- A write of a line of this length raises `SIGPIPE`. -/
def Breaks (results : List WriteResult) (len : ℕ) : Prop :=
  ∃ sum rest, Taken results sum (.sigpipe :: rest) ∧ sum < len

/-- The first connection that is made, by whether `TCP_NODELAY` can be set on it. -/
def connection (attempts : List Attempt) : Option Bool :=
  attempts.findSome? fun
    | .connected nodelay => some nodelay
    | _ => none

/-- The login goes out, and a reply comes. -/
structure Outcomes.Answers (o : Outcomes) (c : Config) : Prop where
  takes : Takes o.loginWrites (loginLine c).length
  fits : Ax25.intSize (loginLine c).length = (loginLine c).length
  replies : 10 ∈ o.reads

/-- A new connection gets as far as the reply. -/
def Outcomes.LogsIn (o : Outcomes) (c : Config) : Prop :=
  (∃ attempts, o.resolved = some attempts ∧ connection attempts = some true) ∧ o.Answers c

/-- A connection is tried without ending the process: the host is found, `TCP_NODELAY` can be
set, and no write of the login raises `SIGPIPE`. -/
def Outcomes.Connects (o : Outcomes) (c : Config) : Prop :=
  ∃ attempts, o.resolved = some attempts ∧ connection attempts ≠ some false ∧
    (connection attempts = some true → ¬ Breaks o.loginWrites (loginLine c).length)

/-- Nothing that ends the process happens, be it on the way to a connection or when the packet
is written to one. -/
structure Call.Harmless (k : Call) (c : Config) (st : State) : Prop where
  connects : st.fd = none → k.outcomes.Connects c
  transmits : st.fd ≠ none ∨ k.outcomes.LogsIn c →
    ¬ Breaks k.outcomes.packetWrites k.line.length

/-! ## Sessions -/

/-- The next call, if the process is still there. -/
def step (c : Config) (t : Traced Event (Option State)) (k : Call) :
    Traced Event (Option State) := do
  match ← t with
  | none => pure none
  | some st => do
      let result ← k.put c st
      pure (result.map Prod.fst)

/-- Calls of a new uplink. -/
def run (c : Config) (calls : List Call) : Traced Event (Option State) :=
  calls.foldl (step c) (pure (some .initial))

/-- The calls for APRS packets that pass the limiter. -/
structure Session where
  config : Config
  pars : SeenPars
  calls : List Call
  config_s : config.s = some pars
  aprs : ∀ k ∈ calls, 5 ≤ k.content.length ∧ k.content.take 3 = [ch '<', 0xff, 0x01]
  passes : ∀ outcome ∈ Seen.outcomes pars ∅ (calls.map Call.seen), outcome.1 = true

namespace Session

variable (s : Session)

/-- Every call is made, and each of them is correct. -/
def Correct : Prop :=
  ∀ front k back, s.calls = front ++ k :: back →
    ∃ st, (run s.config front).val = some st ∧ k.Correct s.config (run s.config front).log st

/-- No call that is made meets what ends the process. -/
def Harmless : Prop :=
  ∀ front k back, s.calls = front ++ k :: back →
    ∀ st, (run s.config front).val = some st → k.Harmless s.config st

end Session

end HamRouter.AprsSi
