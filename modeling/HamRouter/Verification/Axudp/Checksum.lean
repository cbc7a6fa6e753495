import HamRouter.Program.Axudp

/-! # From one tunnel to another

The checksum register after a frame and its checksum does not depend on the frame, and what
the receiving loop strips is what the sender appended. -/

namespace HamRouter

/-! ## The register -/

/-- The register of `pppfcs` after a byte. -/
def fcsStep (fcs : UInt16) (c : UInt8) : UInt16 :=
  (fcs >>> 8) ^^^ fcstab.getD (fcs.toUInt8 ^^^ c).toNat 0

theorem and_ff_eq (x : UInt16) : x &&& 0xff = x.toUInt8.toUInt16 := by
  apply UInt16.toNat_inj.mp
  rw [UInt16.toNat_and, UInt8.toNat_toUInt16, UInt16.toNat_toUInt8]
  exact Nat.and_two_pow_sub_one_eq_mod x.toNat 8

/-- The table is indexed with the low byte of the register and the byte that is added. -/
theorem fcstab_index (fcs : UInt16) (c : UInt8) :
    ((fcs ^^^ c.toUInt16) &&& 0xff).toNat = (fcs.toUInt8 ^^^ c).toNat := by
  rw [and_ff_eq, UInt16.toUInt8_xor, UInt8.toUInt8_toUInt16, UInt8.toNat_toUInt16]

theorem pppfcs_eq (fcs : UInt16) (cp : List UInt8) : pppfcs fcs cp = cp.foldl fcsStep fcs := by
  simp only [pppfcs, fcstab_index]
  rfl

theorem shiftRight_eight_twice (fcs : UInt16) : (fcs >>> 8) >>> 8 = 0 := by
  apply UInt16.toNat_inj.mp
  have h := fcs.toNat_lt
  rw [UInt16.toNat_shiftRight, UInt16.toNat_shiftRight, Nat.shiftRight_eq_div_pow,
    Nat.shiftRight_eq_div_pow]
  exact Nat.div_eq_of_lt (Nat.div_lt_of_lt_mul h)

/-- The low byte of the checksum leaves the high byte of the register, and a constant. -/
theorem fcsStep_low (fcs : UInt16) :
    fcsStep fcs (fcs ^^^ 0xffff).toUInt8 = (fcs >>> 8) ^^^ 0x0f78 := by
  have hindex : fcs.toUInt8 ^^^ (fcs ^^^ 0xffff).toUInt8 = 0xff := by
    rw [UInt16.toUInt8_xor, ← UInt8.xor_assoc, UInt8.xor_self, UInt8.zero_xor]
    rfl
  rw [fcsStep, hindex]
  rfl

/-- The high byte of the checksum then leaves a constant. -/
theorem fcsStep_high (fcs : UInt16) :
    fcsStep ((fcs >>> 8) ^^^ 0x0f78) ((fcs ^^^ 0xffff) >>> 8).toUInt8 = pppGoodFcs := by
  have hindex : ((fcs >>> 8) ^^^ 0x0f78).toUInt8 ^^^ ((fcs ^^^ 0xffff) >>> 8).toUInt8 = 0x87 := by
    rw [UInt16.shiftRight_xor, UInt16.toUInt8_xor, UInt16.toUInt8_xor, UInt8.xor_comm,
      UInt8.xor_comm (fcs >>> 8).toUInt8, UInt8.xor_assoc, ← UInt8.xor_assoc (fcs >>> 8).toUInt8,
      UInt8.xor_self, UInt8.zero_xor]
    rfl
  rw [fcsStep, hindex, UInt16.shiftRight_xor, shiftRight_eight_twice, UInt16.zero_xor]
  rfl

/-- Content followed by its checksum leaves the good register. -/
theorem okCrc_withCrc (content : List UInt8) : okCrc (Axudp.withCrc content) = true := by
  have hregister : pppfcs 0xffff (Axudp.withCrc content) = pppGoodFcs := by
    rw [Axudp.withCrc, computeCrc, pppfcs_eq, pppfcs_eq, List.foldl_append, List.foldl_cons,
      List.foldl_cons, List.foldl_nil, fcsStep_low, fcsStep_high]
  exact decide_eq_true hregister

/-! ## The tunnel -/

namespace Axudp

open Attempts Tranceiver

theorem length_withCrc (content : List UInt8) : (withCrc content).length = content.length + 2 := by
  simp [withCrc]

theorem recvfrom_withCrc {content : List UInt8} (h : content.length ≤ 1598) (source : Endpoint) :
    recvfrom source (withCrc content) = ⟨source, withCrc content⟩ := by
  rw [recvfrom, List.take_of_length_le]
  rw [length_withCrc, maxPktLen]
  omega

theorem take_withCrc (content : List UInt8) :
    (withCrc content).take ((withCrc content).length - 2) = content := by
  rw [length_withCrc, Nat.add_sub_cancel, withCrc, List.take_left]

/-- What a round queues of a datagram with a checksum is what is queued of its content. -/
theorem receive_withCrc {τ : Type*} {content : List UInt8} (h : content ≠ []) (env : Env)
    (cfg : Config) (t : Station) (this : τ) (history : Seen.History) (source : Endpoint)
    (nowTs : ℚ) :
    let round := receive env cfg t this history ⟨source, withCrc content⟩ nowTs
    let queued := queueIncomingMessage t history ⟨some this, content, ∅⟩ nowTs
    round.history = queued.1 ∧ round.queued = queued.2.1 ∧ round.rc = some queued.2.2 := by
  have hlong : (withCrc content).length > 2 := by
    have hpos := List.length_pos_of_ne_nil h
    rw [length_withCrc]
    omega
  simp only [receive, if_pos hlong, take_withCrc]
  split <;> exact ⟨rfl, rfl, rfl⟩

/-- What `put_message_low` transmits passes `ok_crc`, and another tunnel that receives it
queues a message with its content. -/
theorem receive_putMessageLow {τ σ : Type*} (m : Message τ) (hpos : 1 ≤ m.content.length)
    (hlong : m.content.length ≤ 1598) :
    okCrc (withCrc m.content) = true ∧
      (∀ env cfg, putMessageLow env cfg m =
        pass (fun _ => some true)
          (fun earlier p => env.transmitUdp earlier p.host (withCrc m.content))
          cfg.continueOnError cfg.peers []) ∧
      ∀ (env : Env) (cfg : Config) (t : Station) (this : σ) (history : Seen.History)
        (source : Endpoint) (nowTs : ℚ),
        let round := receive env cfg t this history (recvfrom source (withCrc m.content)) nowTs
        let queued := queueIncomingMessage t history ⟨some this, m.content, ∅⟩ nowTs
        round.history = queued.1 ∧ round.queued = queued.2.1 ∧ round.rc = some queued.2.2 := by
  refine ⟨okCrc_withCrc m.content, fun env cfg => rfl, ?_⟩
  intro env cfg t this history source nowTs
  rw [recvfrom_withCrc hlong]
  exact receive_withCrc (List.ne_nil_of_length_pos hpos) env cfg t this history source nowTs

/-- A message of five bytes. -/
theorem receive_putMessageLow_hello :
    let m : Message ℕ := ⟨none, str "Hello", ∅⟩
    okCrc (withCrc m.content) = true ∧
      (∀ env cfg, putMessageLow env cfg m =
        pass (fun _ => some true)
          (fun earlier p => env.transmitUdp earlier p.host (withCrc m.content))
          cfg.continueOnError cfg.peers []) ∧
      ∀ (env : Env) (cfg : Config) (t : Station) (this : ℕ) (history : Seen.History)
        (source : Endpoint) (nowTs : ℚ),
        let round := receive env cfg t this history (recvfrom source (withCrc m.content)) nowTs
        let queued := queueIncomingMessage t history ⟨some this, m.content, ∅⟩ nowTs
        round.history = queued.1 ∧ round.queued = queued.2.1 ∧ round.rc = some queued.2.2 :=
  receive_putMessageLow ⟨none, str "Hello", ∅⟩ (by decide) (by decide)

end Axudp

end HamRouter
