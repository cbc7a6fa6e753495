import HamRouter.Library.Byte
import HamRouter.Library.ShiftRegister
import HamRouter.Verification.Axudp.Checksum

/-! # The checksums are remainders

The tables of `crc_32.c` and `crc_ppp.cpp` are those of their polynomials, and what such a
register is known to find it finds here. -/

namespace HamRouter

open ShiftRegister

/-- The polynomial of `crc_32.c`. -/
def crc32Polynomial : BitVec 32 :=
  polynomial 32 [26, 23, 22, 16, 12, 11, 10, 8, 7, 5, 4, 2, 1, 0]

/-- "The HDLC polynomial: x**0 + x**5 + x**12 + x**16". -/
def hdlcPolynomial : BitVec 16 := polynomial 16 [12, 5, 0]

/-! ## The tables -/

theorem crc32Tab_eq (i : UInt8) :
    (crc32Tab.getD i.toNat 0).toBitVec = feed crc32Polynomial 0#32 (byteBits i) :=
  Byte.forall_of_fin
    (P := fun i => (crc32Tab.getD i.toNat 0).toBitVec = feed crc32Polynomial 0#32 (byteBits i))
    (by decide +kernel) i

theorem fcstab_eq (i : UInt8) :
    (fcstab.getD i.toNat 0).toBitVec = feed hdlcPolynomial 0#16 (byteBits i) :=
  Byte.forall_of_fin
    (P := fun i => (fcstab.getD i.toNat 0).toBitVec = feed hdlcPolynomial 0#16 (byteBits i))
    (by decide +kernel) i

theorem fcsStep_toBitVec (fcs : UInt16) (c : UInt8) :
    (fcsStep fcs c).toBitVec = feed hdlcPolynomial fcs.toBitVec (byteBits c) := by
  rw [feed_byteBits, fcsStep, UInt16.toBitVec_xor, fcstab_eq]
  rfl

theorem pppfcs_toBitVec (fcs : UInt16) (cp : List UInt8) :
    (pppfcs fcs cp).toBitVec = feed hdlcPolynomial fcs.toBitVec (bitsOf cp) := by
  rw [pppfcs_eq]
  induction cp generalizing fcs with
  | nil => rfl
  | cons c rest ih =>
      rw [List.foldl_cons, ih, fcsStep_toBitVec, bitsOf_cons, feed_append]

/-- The table is indexed with the low byte of the register and the octet. -/
theorem crc32Tab_index (crc : UInt32) (octet : UInt8) :
    ((crc ^^^ octet.toUInt32) &&& 0xff).toNat = (crc.toUInt8 ^^^ octet).toNat := by
  have hlow : ∀ x : UInt32, (x &&& 0xff).toNat = x.toUInt8.toNat := by
    intro x
    rw [UInt32.toNat_and, UInt32.toNat_toUInt8]
    exact Nat.and_two_pow_sub_one_eq_mod x.toNat 8
  rw [hlow, UInt32.toUInt8_xor, UInt8.toUInt8_toUInt32]

theorem updc32_toBitVec (octet : UInt8) (crc : UInt32) :
    (updc32 octet crc).toBitVec = feed crc32Polynomial crc.toBitVec (byteBits octet) := by
  rw [feed_byteBits, updc32, UInt32.toBitVec_xor, crc32Tab_index, crc32Tab_eq, BitVec.xor_comm]
  rfl

theorem calcCrc32_toBitVec (p : List UInt8) :
    (calcCrc32 p).toBitVec = ~~~ feed crc32Polynomial (BitVec.allOnes 32) (bitsOf p) := by
  have hfold : ∀ crc : UInt32, (p.foldl (fun oldcrc32 octet => updc32 octet oldcrc32) crc).toBitVec =
      feed crc32Polynomial crc.toBitVec (bitsOf p) := by
    induction p with
    | nil => exact fun _ => rfl
    | cons octet rest ih =>
        intro crc
        rw [List.foldl_cons, ih, updc32_toBitVec, bitsOf_cons, feed_append]
  rw [calcCrc32, crc32buf, UInt32.toBitVec_not, hfold]
  rfl

/-- The tables give what a register makes of the bits one after the other. -/
theorem checksums_serial (buf : List UInt8) :
    (calcCrc32 buf).toBitVec =
        ~~~ feed crc32Polynomial (BitVec.allOnes 32) (bitsOf buf) ∧
      (computeCrc buf).toBitVec =
        ~~~ feed hdlcPolynomial (BitVec.allOnes 16) (bitsOf buf) := by
  refine ⟨calcCrc32_toBitVec buf, ?_⟩
  have hones : (0xffff : UInt16).toBitVec = BitVec.allOnes 16 := by decide
  rw [computeCrc, UInt16.toBitVec_xor, pppfcs_toBitVec, hones, BitVec.xor_allOnes]

/-! ## Bursts -/

/-- A datagram of a tunnel that was changed within sixteen successive bits fails `ok_crc`. -/
theorem okCrc_of_burst {content received : List UInt8}
    (h : Burst 16 (Axudp.withCrc content) received) : okCrc received = false := by
  have hsent : pppfcs 0xffff (Axudp.withCrc content) = pppGoodFcs :=
    of_decide_eq_true (okCrc_withCrc content)
  apply decide_eq_false
  intro hreceived
  have hpoly : hdlcPolynomial.getLsbD (16 - 1) = true := by decide
  refine feed_ne_of_burst hpoly (by decide) (0xffff : UInt16).toBitVec h ?_
  rw [← pppfcs_toBitVec, ← pppfcs_toBitVec, hsent, hreceived]

theorem okCrc_of_burst_one :
    okCrc (0x42 :: (Axudp.withCrc [0x41]).drop 1) = false :=
  okCrc_of_burst
    (show Burst 16 (Axudp.withCrc [0x41]) _ from ⟨[], byteBits 0x41, byteBits 0x42,
      bitsOf ((Axudp.withCrc [0x41]).drop 1), rfl, rfl, by decide, by decide, by decide⟩)

theorem calcCrc32_ne_of_burst {p p' : List UInt8} (h : Burst 32 p p') :
    calcCrc32 p ≠ calcCrc32 p' := by
  intro heq
  have hbits := congrArg UInt32.toBitVec heq
  rw [calcCrc32_toBitVec, calcCrc32_toBitVec, BitVec.not_inj] at hbits
  have hpoly : crc32Polynomial.getLsbD (32 - 1) = true := by decide
  exact feed_ne_of_burst hpoly (by decide) _ h hbits

end HamRouter
