import HamRouter.Program.Ax25

/-! # The header a frame announces

How far the header of a frame reaches is decided by the end marks of its addresses and
by the low bits of its control byte. -/

namespace HamRouter.Ax25

/-- A header is complete, is given up at a malformed address, or runs past the frame. -/
inductive HeaderVerdict where
  | complete
  | rejected
  | truncated
deriving DecidableEq

/-- I and S frames have a message number, I and U frames a pid. -/
def bodyHeader : List UInt8 → HeaderVerdict
  | [] => .truncated
  | control :: rest =>
      let type := control &&& 3
      let msgNr := if type = 0 || type = 1 then 1 else 0
      let pid := if type = 0 || type = 3 then 1 else 0
      if rest.length < msgNr + pid then .truncated else .complete

/-- At most `n` repeaters of seven bytes, until an end mark. -/
def repeaterHeader : ℕ → Bool → List UInt8 → HeaderVerdict
  | 0, _, rest => bodyHeader rest
  | n + 1, endMark, rest =>
      if endMark then bodyHeader rest
      else if rest.length < 7 then .truncated
      else
        let a := Address.ofBytes (rest.take 7)
        if a.valid then repeaterHeader n a.endMark (rest.drop 7) else .rejected

/-- The first two addresses are only asked for their end mark. -/
def headerVerdict (bytes : List UInt8) : HeaderVerdict :=
  if bytes.length < 14 then .rejected
  else repeaterHeader 2 (Address.ofBytes ((bytes.drop 7).take 7)).endMark (bytes.drop 14)

/-- The frame ends before its header does. -/
def TooShort (bytes : List UInt8) : Prop :=
  bytes.length < 14 ∨ headerVerdict bytes = .truncated

end HamRouter.Ax25
