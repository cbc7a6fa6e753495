import HamRouter.Program.Str

/-! # The history of the websocket sessions

`push_to_websockets` and `send_records` of `websockets.cpp`, each under the lock. -/

namespace HamRouter.Websockets

def maxHistorySize : ℕ := 250

/-- An entry of `json_data`: a reading of `get_us()` and a text. -/
structure Record where
  first : UInt64
  second : StdString
deriving DecidableEq

/-- The loop that erases the oldest record while there are too many. -/
def eraseOldest : List Record → List Record
  | [] => []
  | oldest :: rest =>
      if maxHistorySize < (oldest :: rest).length then eraseOldest rest else oldest :: rest

/-- `push_to_websockets`, where `now` is what `get_us()` returns. -/
def pushToWebsockets (jsonData : List Record) (now : UInt64) (text : StdString) : List Record :=
  eraseOldest (jsonData ++ [⟨now, text⟩])

/-- A session: `ws_session_data` and the texts that were given to `lws_write`. -/
structure Session where
  ts : UInt64
  written : List StdString

/-- The loop that goes back while the record is newer than the session. -/
def scanBack (ts : UInt64) (jsonData : List Record) :
    (offset : ℕ) → offset < jsonData.length → Fin jsonData.length
  | 0, h => ⟨0, h⟩
  | offset + 1, h =>
      if ts < jsonData[offset + 1].first then scanBack ts jsonData offset (Nat.lt_of_succ_lt h)
      else ⟨offset + 1, h⟩

/-- The offset of the first record to be written. -/
def firstOffset (ts : UInt64) (jsonData : List Record) (offset : Fin jsonData.length) : ℕ :=
  if (jsonData.get offset).first ≤ ts then offset + 1 else offset

/-- The loop that writes the records. -/
def writeItems (ws : Session) : List Record → Session
  | [] => ws
  | item :: rest => writeItems { ts := item.first, written := ws.written ++ [item.second] } rest

/-- `send_records`. -/
def sendRecords (jsonData : List Record) (ws : Session) : Session :=
  if h : jsonData = [] then ws
  else
    let last := jsonData.length - 1
    let offset := scanBack ws.ts jsonData last
      (Nat.sub_one_lt (Nat.ne_of_gt (List.length_pos_of_ne_nil h)))
    writeItems ws (jsonData.drop (firstOffset ws.ts jsonData offset))

/-- A session as `LWS_CALLBACK_ESTABLISHED` sets it up. -/
def established : Session := ⟨0, []⟩

end HamRouter.Websockets
