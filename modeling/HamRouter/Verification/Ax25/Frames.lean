import HamRouter.Verification.Ax25.Addresses

/-! # The decoder on well-formed frames -/

namespace HamRouter.Ax25

open TracedRead

@[simp] theorem WireAddress.endMark_decoded (a : WireAddress) (endMark : Bool) :
    (a.decoded endMark).endMark = endMark := rfl

@[simp] theorem WireAddress.valid_decoded (a : WireAddress) (endMark : Bool) :
    (a.decoded endMark).valid = true := rfl

/-- The loop takes all repeaters of a frame and stops behind them. -/
theorem val_readRepeaters (r : Region) (n : ℕ) (front : List UInt8) (repeaters : List WireAddress)
    (rest : List UInt8) (seenBy : List Address) (hn : repeaters.length ≤ n)
    (hbytes : r.bytes = front ++ repeaterBytes repeaters ++ rest) :
    (readRepeaters r n repeaters.isEmpty front.length seenBy).val =
      (seenBy ++ decodedRepeaters repeaters,
        some (front.length + (repeaterBytes repeaters).length)) := by
  induction repeaters generalizing n front seenBy with
  | nil =>
      rw [decodedRepeaters, List.append_nil]
      cases n <;> rfl
  | cons a others ih =>
      cases n with
      | zero => simp at hn
      | succ n =>
          have hslice : r.slice front.length 7 = a.bytes others.isEmpty := by
            have h := r.slice_append front (a.bytes others.isEmpty)
              (repeaterBytes others ++ rest) (by simp [hbytes, repeaterBytes])
            rwa [a.length_bytes] at h
          have hfront : (front ++ a.bytes others.isEmpty).length = front.length + 7 := by
            rw [List.length_append, a.length_bytes]
          have hothers := ih n (front ++ a.bytes others.isEmpty)
            (seenBy ++ [a.decoded others.isEmpty]) (by simpa using hn)
            (by simp [hbytes, repeaterBytes])
          have hall : front.length + 7 + (repeaterBytes others).length =
              front.length + (repeaterBytes (a :: others)).length := by
            rw [repeaterBytes, List.length_append, a.length_bytes, Nat.add_assoc]
          rw [hfront, hall, List.append_assoc] at hothers
          rw [readRepeaters, List.isEmpty_cons, if_neg (by decide)]
          simp only [Traced.val_bind, val_readBytes, hslice, a.ofBytes_bytes,
            WireAddress.valid_decoded, WireAddress.endMark_decoded, if_true]
          exact hothers

/-- The decoder on two addresses, repeaters and a body. -/
theorem ofVector_parts (r : Region) (toBytes fromBytes : List UInt8)
    (repeaters : List WireAddress) (control : UInt8) (msgNr pid : Option UInt8)
    (payload : List UInt8) (hto : toBytes.length = 7) (hfrom : fromBytes.length = 7)
    (hend : (Address.ofBytes fromBytes).endMark = repeaters.isEmpty) (hfew : repeaters.length ≤ 2)
    (hbytes : r.bytes = toBytes ++ fromBytes ++ repeaterBytes repeaters ++
      control :: (msgNr.toList ++ pid.toList ++ payload))
    (hmsg : msgNr.isSome = (control &&& 3 = 0 || control &&& 3 = 1))
    (hpid : pid.isSome = (control &&& 3 = 0 || control &&& 3 = 3)) :
    (ofVector r).val =
      { valid := true
        toAddress := (Address.ofBytes toBytes).assign
        fromAddress := (Address.ofBytes fromBytes).assign
        seenBy := decodedRepeaters repeaters
        msgNr := msgNr
        pid := pid
        data := if payload.length = 1 then {}
          else Buffer.ofPointer payload (intSize payload.length) } := by
  have hfront : (toBytes ++ fromBytes).length = 14 := by rw [List.length_append, hto, hfrom]
  obtain ⟨rest, hrest⟩ : ∃ rest, r.bytes = toBytes ++ fromBytes ++ rest :=
    ⟨_, by rw [hbytes, List.append_assoc]⟩
  have hlength : 14 ≤ r.bytes.length := by
    rw [hrest, List.length_append, hfront]
    omega
  have hsliceTo : r.slice 0 7 = toBytes := by
    simpa [hto] using r.slice_append [] toBytes (fromBytes ++ rest) (by simp [hrest])
  have hsliceFrom : r.slice 7 7 = fromBytes := by
    simpa [hto, hfrom] using r.slice_append toBytes fromBytes rest hrest
  have hrepeaters := val_readRepeaters r 2 (toBytes ++ fromBytes) repeaters _ [] hfew hbytes
  rw [List.nil_append, ← List.length_append, hfront] at hrepeaters
  have hdecoded := congrArg Traced.val (ofVector_of_length r hlength)
  simp only [Traced.val_bind, val_readBytes, hsliceTo, hsliceFrom, Address.endMark_assign, hend,
    hrepeaters] at hdecoded
  rw [hdecoded]
  exact val_readBody r _ _ control msgNr pid payload hbytes hmsg hpid

namespace Frame

variable (f : Frame)

theorem ofVector_bytes (beyond : ℕ → UInt8) :
    (ofVector ⟨f.bytes, beyond⟩).val =
      { valid := true
        toAddress := f.toAddress.decoded false
        fromAddress := f.fromAddress.decoded f.repeaters.isEmpty
        seenBy := decodedRepeaters f.repeaters
        msgNr := f.msgNr
        pid := f.pid
        data := if f.payload.length = 1 then {}
          else Buffer.ofPointer f.payload (intSize f.payload.length) } := by
  have h := ofVector_parts ⟨f.bytes, beyond⟩ (f.toAddress.bytes false)
    (f.fromAddress.bytes f.repeaters.isEmpty) f.repeaters f.control f.msgNr f.pid f.payload
    (f.toAddress.length_bytes _) (f.fromAddress.length_bytes _)
    (by rw [WireAddress.ofBytes_bytes]; rfl) f.few rfl f.msgNr_isSome f.pid_isSome
  rw [h, WireAddress.ofBytes_bytes, WireAddress.ofBytes_bytes]
  rfl

/-- A frame decodes to its parts exactly when its payload is not a single byte and its
length is an `int`. -/
theorem decodesExactly_iff :
    f.DecodesExactly ↔ f.payload.length ≠ 1 ∧ f.payload.length ≤ intMax := by
  constructor
  · intro h
    have hdata := (h fun _ => 0).data
    rw [ofVector_bytes] at hdata
    by_cases hone : f.payload.length = 1
    · simp only [if_pos hone] at hdata
      have hempty := congrArg (fun b => b.bytes.length) hdata
      simp [hone] at hempty
    · simp only [if_neg hone] at hdata
      exact ⟨hone, (Buffer.ofPointer_eq_iff f.payload).mp hdata⟩
  · rintro ⟨hone, hint⟩ beyond
    rw [ofVector_bytes]
    exact ⟨rfl, rfl, rfl, rfl, rfl, (if_neg hone).trans (Buffer.ofPointer_of_le hint)⟩

end Frame

/-! ## A frame that loses its payload -/

theorem length_ident : (str "IDENT").length ≤ 6 := by decide

theorem length_pd9fvh : (str "PD9FVH").length ≤ 6 := by decide

def addressIdent : WireAddress := ⟨str "IDENT", length_ident, by decide, 0, 3, false⟩

def addressPd9fvh : WireAddress := ⟨str "PD9FVH", length_pd9fvh, by decide, 7, 3, false⟩

def addressWide2 : WireAddress := ⟨str "WIDE2", by decide, by decide, 2, 3, false⟩

/-- A UI frame with one byte of payload. -/
def oneByteFrame : Frame where
  toAddress := addressIdent
  fromAddress := addressPd9fvh
  repeaters := []
  few := by decide
  control := 3
  msgNr := none
  pid := some 240
  payload := str "!"
  msgNr_isSome := rfl
  pid_isSome := rfl

theorem not_decodesExactly_oneByteFrame : ¬ oneByteFrame.DecodesExactly := by
  intro h
  have hdata := (h fun _ => 0).data
  rw [Frame.ofVector_bytes] at hdata
  exact absurd hdata (by decide)

end HamRouter.Ax25
