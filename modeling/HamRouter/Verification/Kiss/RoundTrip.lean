import HamRouter.Verification.Kiss.Machine

/-! # What is sent is received

The receiver is followed through an escaped byte, an escaped packet, a frame, and a
stream of frames. -/

namespace HamRouter.Kiss

/-- A payload that fits in a packet next to its command byte. -/
structure Payload where
  bytes : List UInt8
  length_lt : bytes.length < maxPacketSize

theorem receiveBytes_escapePut {packet : List UInt8} (h : packet.length < maxPacketSize)
    (c : UInt8) (rest : List UInt8) :
    receiveBytes { packet := packet } (escapePut c ++ rest) =
      receiveBytes { packet := packet ++ [c] } rest := by
  have hroom : packet.length ≠ maxPacketSize := Nat.ne_of_lt h
  have hescape : onByte { packet := packet } fesc = .next { escape := true, packet := packet } := by
    simp [onByte, fesc, fend]
  unfold escapePut
  by_cases hend : c = fend
  · have hbyte : onByte { escape := true, packet := packet } tfend =
        .next { packet := packet ++ [fend] } := by
      simp [onByte, hroom]
    rw [if_pos hend, hend]
    exact (receiveBytes_cons_next hescape _).trans (receiveBytes_cons_next hbyte _)
  · by_cases hesc : c = fesc
    · have hbyte : onByte { escape := true, packet := packet } tfesc =
          .next { packet := packet ++ [fesc] } := by
        simp [onByte, hroom, tfesc, tfend]
      rw [if_neg hend, if_pos hesc, hesc]
      exact (receiveBytes_cons_next hescape _).trans (receiveBytes_cons_next hbyte _)
    · have hbyte : onByte { packet := packet } c = .next { packet := packet ++ [c] } := by
        simp [onByte, hend, hesc, hroom]
      rw [if_neg hend, if_neg hesc]
      exact receiveBytes_cons_next hbyte _

theorem receiveBytes_escaped (p : List UInt8) {packet : List UInt8}
    (h : packet.length + p.length ≤ maxPacketSize) (rest : List UInt8) :
    receiveBytes { packet := packet } (p.flatMap escapePut ++ rest) =
      receiveBytes { packet := packet ++ p } rest := by
  induction p generalizing packet with
  | nil => simp
  | cons c p ih =>
      rw [List.length_cons] at h
      have hnext : (packet ++ [c]).length + p.length ≤ maxPacketSize := by
        rw [List.length_append, List.length_singleton]
        omega
      rw [List.flatMap_cons, List.append_assoc, receiveBytes_escapePut (by omega), ih hnext,
        List.append_assoc, List.singleton_append]

theorem receiveBytes_fend {packet : List UInt8} (h : packet ≠ []) (rest : List UInt8) :
    receiveBytes { packet := packet } (fend :: rest) =
      ((receiveBytes {} rest).1, some packet.tail :: (receiveBytes {} rest).2) := by
  have hlength : packet.length ≠ 0 := by simpa using h
  have hleave : onByte { packet := packet } fend = .leave true packet := by simp [onByte, hlength]
  have hfinish : finish true packet = some packet.tail := by simp [finish, hlength]
  rw [receiveBytes_cons_leave hleave, hfinish]

/-- A frame is one call that returns its payload. -/
theorem receiveBytes_sendMkiss (cmd channel : Fin 16) (p : Payload) (rest : List UInt8) :
    receiveBytes {} (sendMkiss cmd channel p.bytes ++ rest) =
      ((receiveBytes {} rest).1, some p.bytes :: (receiveBytes {} rest).2) := by
  have hfirst : onByte {} fend = .next {} := by simp [onByte]
  have hfit : ([] ++ [(UInt8.ofNat channel <<< 4) ||| UInt8.ofNat cmd]).length + p.bytes.length ≤
      maxPacketSize := by
    have h := p.length_lt
    simp only [List.nil_append, List.length_singleton]
    omega
  simp only [sendMkiss, List.append_assoc, List.cons_append, List.nil_append]
  rw [receiveBytes_cons_next hfirst, receiveBytes_escapePut (by decide),
    receiveBytes_escaped p.bytes hfit, receiveBytes_fend (by simp)]
  rfl

/-- The frames of a list of payloads make the calls return these payloads, one each, and
leave the last call as it started. -/
theorem recvCalls_sendMkiss (payloads : List Payload) :
    recvCalls ((payloads.flatMap fun p => sendMkiss 0 0 p.bytes).map .byte) =
      (payloads.map fun p => some p.bytes, {}) := by
  rw [recvCalls_eq_feed, ← receiveBytes]
  induction payloads with
  | nil => rfl
  | cons p payloads ih =>
      rw [List.flatMap_cons, receiveBytes_sendMkiss, List.map_cons]
      rw [Prod.mk.injEq] at ih
      rw [ih.1, ih.2]

end HamRouter.Kiss
