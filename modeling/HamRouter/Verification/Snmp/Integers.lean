import HamRouter.Model.SnmpIntegers
import HamRouter.Verification.Snmp.Payload
import HamRouter.Verification.Snmp.Request

/-! # Integers of 64 bits in four or eight bytes

What is read has no sign, and the width of what is written is chosen by its magnitude. -/

namespace HamRouter.Snmp

open BigEndian

/-! ## Reading and writing -/

/-- `get_INTEGER` computes the unsigned value modulo 2^64. -/
theorem integerOf_eq (bytes : List UInt8) : integerOf bytes = UInt64.ofNat (unsigned bytes) :=
  foldl_shiftLeft_or bytes

theorem bigEndian_eq {len : ℕ} (h : len ≤ 8) (v : UInt64) :
    bigEndian len v = BigEndian.ofNat len v.toNat := by
  apply List.map_congr_left
  intro i hi
  have hi := List.mem_range.mp hi
  apply UInt8.toNat_inj.mp
  have hexponent : len * 8 - (i + 1) * 8 = 8 * (len - 1 - i) := by omega
  have hshift : (UInt64.ofNat (8 * (len - 1 - i))).toNat % 64 = 8 * (len - 1 - i) := by
    rw [UInt64.toNat_ofNat']
    omega
  rw [hexponent, UInt64.toNat_toUInt8, UInt64.toNat_shiftRight, hshift, UInt8.toNat_ofNat',
    Nat.shiftRight_eq_div_pow, Nat.pow_mul]

/-- The width of the content of an integer. -/
def width (v : UInt64) : ℕ := if v.toNat < 2 ^ 32 then 4 else 8

theorem integerLen_eq (v : UInt64) : integerLen v = UInt8.ofNat (width v) := by
  have hle : v ≤ 0xffffffff ↔ v.toNat < 2 ^ 32 := by
    rw [UInt64.le_iff_toNat_le]
    exact Nat.lt_succ_iff.symm
  simp only [integerLen, hle, width]
  split <;> rfl

/-- An integer is put out in four or eight bytes. -/
theorem bytes_integerPayload (type : IntegerType) (v : UInt64) :
    (Elem.integer type v).getPayload.out.bytes =
      element type.snmpType (BigEndian.ofNat (width v) v.toNat) := by
  have hwidth : width v ≤ 8 := by
    unfold width
    split <;> decide
  have hlen : (integerLen v).toNat = width v := by
    rw [integerLen_eq, UInt8.toNat_ofNat']
    exact Nat.mod_eq_of_lt (by omega)
  rw [Elem.getPayload, out_integerPayload, hlen, bigEndian_eq hwidth, element, length_ofNat,
    integerLen_eq]
  rfl

theorem unsigned_written (v : UInt64) : unsigned (BigEndian.ofNat (width v) v.toNat) = v.toNat := by
  have hlt := v.toNat_lt
  rw [unsigned_ofNat, width]
  split
  · rename_i hsmall
    exact Nat.mod_eq_of_lt hsmall
  · exact Nat.mod_eq_of_lt hlt

/-- The two's-complement value of what is written. -/
theorem signed_written (v : UInt64) :
    signed (BigEndian.ofNat (width v) v.toNat) =
      if v.toNat < 2 ^ 31 then (v.toNat : ℤ)
      else if v.toNat < 2 ^ 32 then v.toNat - 2 ^ 32
      else if v.toNat < 2 ^ 63 then (v.toNat : ℤ)
      else v.toNat - 2 ^ 64 := by
  have hlt := v.toNat_lt
  have hne : BigEndian.ofNat (width v) v.toNat ≠ [] := by
    apply List.ne_nil_of_length_pos
    rw [length_ofNat, width]
    split <;> decide
  rw [signed_eq hne, unsigned_written, length_ofNat, width]
  split
  · norm_num
    split <;> split <;> omega
  · norm_num
    split <;> split <;> omega

/-! ## The request-id -/

/-- The sign is lost or invented for all but these contents. -/
theorem signed_written_iff {content : List UInt8} (hpos : 1 ≤ content.length)
    (hlen : content.length ≤ 8) :
    signed (BigEndian.ofNat (width (integerOf content)) (integerOf content).toNat) =
        signed content ↔
      KeepsSign content := by
  have hne : content ≠ [] := List.ne_nil_of_length_pos hpos
  have hlt := unsigned_lt content
  have hpow : 256 ^ content.length ≤ 256 ^ 8 := Nat.pow_le_pow_right (by decide) hlen
  have hvalue : (integerOf content).toNat = unsigned content := by
    rw [integerOf_eq, UInt64.toNat_ofNat']
    omega
  rw [signed_written, signed_eq hne, hvalue, KeepsSign]
  simp only [le_head_iff hne]
  generalize unsigned content = n at *
  generalize content.length = len at *
  interval_cases len <;> norm_num at * <;> split_ifs <;> omega

theorem element_injective {type : UInt8} {a b : List UInt8} (h : element type a = element type b) :
    a = b :=
  (List.cons.inj (List.cons.inj h).2).2

theorem sameId_iff {content : List UInt8} (hpos : 1 ≤ content.length) (hlen : content.length ≤ 8)
    {reply : Elem} (h : reply.requestId = some (.integer .integer (integerOf content))) :
    SameId reply content ↔ KeepsSign content := by
  rw [← signed_written_iff hpos hlen]
  constructor
  · rintro ⟨reqId, written, hreqId, hbytes, hsigned⟩
    obtain rfl := Option.some.inj (hreqId.symm.trans h)
    rw [bytes_integerPayload] at hbytes
    obtain rfl := element_injective hbytes
    exact hsigned
  · intro hsigned
    exact ⟨_, _, h, bytes_integerPayload _ _, hsigned⟩

theorem reqId_addOids (findNextOid : StdString → StdString) (isGetnext : Bool)
    (oids : List AcceptedOid) (req : OidReq) :
    (addOids findNextOid isGetnext oids req).reqId = req.reqId := by
  have hstep : ∀ (req : OidReq) oid, (addOid findNextOid isGetnext req oid).reqId = req.reqId := by
    intro req oid
    rw [addOid]
    split
    · dsimp only
      split <;> rfl
    · rfl
  induction oids generalizing req with
  | nil => rfl
  | cons o oids ih => exact (ih _).trans (hstep req o.text)

/-- The request-id of one to eight bytes comes back with its value exactly when its sign is
kept: from `gen_reply`, and from a whole request. -/
theorem requestId_kept_iff (content : List UInt8) (hpos : 1 ≤ content.length)
    (hlen : content.length ≤ 8) :
    (∀ (findByOid : StdString → Option (Option Elem)) (req : OidReq),
        SameId (genReply findByOid { req with reqId := integerOf content }) content ↔
          KeepsSign content) ∧
      ∀ (q : Request) (findNextOid : StdString → StdString)
        (findByOid : StdString → Option (Option Elem)) (beyond : ℕ → UInt8) (fuel : ℕ),
        q.reqId = content → q.bytes.length + 2 ≤ fuel →
          ((∃ req, (parseDatagram ⟨q.bytes, beyond⟩ findNextOid fuel).val = some (true, req) ∧
              SameId (genReply findByOid req) content) ↔
            KeepsSign content) := by
  constructor
  · intro findByOid req
    exact sameId_iff hpos hlen rfl
  · intro q findNextOid findByOid beyond fuel hcontent hfuel
    have hreqId : (addOids findNextOid q.getNext q.oids q.start).reqId = integerOf content := by
      rw [reqId_addOids, ← hcontent]
      rfl
    have hreply : (genReply findByOid (addOids findNextOid q.getNext q.oids q.start)).requestId =
        some (.integer .integer (integerOf content)) := by
      rw [← hreqId]
      rfl
    rw [← sameId_iff hpos hlen hreply, q.val_parseDatagram beyond hfuel]
    constructor
    · rintro ⟨req, hreq, hsame⟩
      obtain rfl := (Prod.mk.inj (Option.some.inj hreq)).2
      exact hsame
    · intro hsame
      exact ⟨_, rfl, hsame⟩

/-- The id -1 in four bytes. -/
theorem requestId_kept_four :
    SameId (genReply (fun _ => none) { reqId := integerOf [0xff, 0xff, 0xff, 0xff] })
      [0xff, 0xff, 0xff, 0xff] :=
  ((requestId_kept_iff [0xff, 0xff, 0xff, 0xff] (by decide) (by decide)).1 (fun _ => none) {}).mpr
    (by decide)

/-- The id -1 in one byte is answered with 255. -/
theorem not_requestId_kept :
    ¬ ∀ (content : List UInt8), 1 ≤ content.length → content.length ≤ 8 →
      ∀ (findByOid : StdString → Option (Option Elem)) (req : OidReq),
        SameId (genReply findByOid { req with reqId := integerOf content }) content := by
  intro h
  have hsame := h [0xff] (by decide) (by decide) (fun _ => none) {}
  have hkeeps : KeepsSign [0xff] :=
    (sameId_iff (by decide) (by decide) rfl).mp hsame
  exact absurd hkeeps (by decide)

/-! ## Quantities of 32 bits -/

theorem toNat_ofInt (n : ℤ) : ((UInt64.ofInt n).toNat : ℤ) = n % 2 ^ 64 := by
  have hnonneg := Int.emod_nonneg n (show (2 : ℤ) ^ 64 ≠ 0 by decide)
  have hlt := Int.emod_lt_of_pos n (show (0 : ℤ) < 2 ^ 64 by decide)
  rw [UInt64.ofInt, UInt64.toNat_ofNat']
  omega

theorem putsOut32_iff (value : List UInt8 → ℤ) (type : IntegerType) (n : ℤ) :
    PutsOut32 value (.integer type (UInt64.ofInt n)) type.snmpType n ↔
      n % 2 ^ 64 < 2 ^ 32 ∧
        value (BigEndian.ofNat 4 (UInt64.ofInt n).toNat) = (UInt64.ofInt n).toNat := by
  have hvalue := toNat_ofInt n
  have hdvd : n % 2 ^ 64 % 2 ^ 32 = n % 2 ^ 32 := Int.emod_emod_of_dvd n (by decide)
  have hbytes := bytes_integerPayload type (UInt64.ofInt n)
  constructor
  · rintro ⟨content, hcontent, hshort, heq⟩
    rw [hbytes] at hcontent
    obtain rfl := element_injective hcontent
    rw [length_ofNat] at hshort
    have hsmall : (UInt64.ofInt n).toNat < 2 ^ 32 := by
      by_contra hlarge
      rw [width, if_neg hlarge] at hshort
      omega
    rw [width, if_pos hsmall] at heq
    refine ⟨by omega, heq.trans ?_⟩
    omega
  · rintro ⟨hsmall, heq⟩
    have hsmall' : (UInt64.ofInt n).toNat < 2 ^ 32 := by omega
    rw [width, if_pos hsmall'] at hbytes
    refine ⟨_, hbytes, by rw [length_ofNat]; decide, heq.trans ?_⟩
    omega

theorem putsOut32_unsigned_iff (type : IntegerType) (n : ℤ) :
    PutsOut32 (fun content => unsigned content) (.integer type (UInt64.ofInt n)) type.snmpType n ↔
      n % 2 ^ 64 < 2 ^ 32 := by
  rw [putsOut32_iff, and_iff_left_iff_imp]
  intro hsmall
  have hvalue := toNat_ofInt n
  rw [unsigned_ofNat, Nat.mod_eq_of_lt (by omega)]

theorem putsOut32_signed_iff (type : IntegerType) (n : ℤ) :
    PutsOut32 signed (.integer type (UInt64.ofInt n)) type.snmpType n ↔ n % 2 ^ 64 < 2 ^ 31 := by
  have hvalue := toNat_ofInt n
  have hsigned := signed_written (UInt64.ofInt n)
  rw [putsOut32_iff]
  constructor
  · rintro ⟨hsmall, heq⟩
    rw [width, if_pos (by omega), heq] at hsigned
    split at hsigned <;> omega
  · intro hsmall
    rw [width, if_pos (by omega), if_pos (by omega)] at hsigned
    exact ⟨by omega, hsigned⟩

theorem counterAfter_eq (calls : List CounterCall) :
    counterAfter calls = UInt64.ofInt (accumulated calls) := by
  have hfold : ∀ n : ℕ, calls.foldl CounterCall.apply (UInt64.ofNat n) =
      UInt64.ofNat (n + accumulated calls) := by
    intro n
    induction calls generalizing n with
    | nil => rfl
    | cons call calls ih =>
        have hstep : CounterCall.apply (UInt64.ofNat n) call = UInt64.ofNat (n + call.amount) := by
          cases call with
          | inc => exact (UInt64.ofNat_add n 1).symm
          | add value =>
              rw [CounterCall.apply, statsAddCounter, CounterCall.amount, UInt64.ofNat_add,
                UInt64.ofNat_toNat]
        rw [List.foldl_cons, hstep, ih, accumulated, accumulated, List.map_cons, List.sum_cons,
          Nat.add_assoc]
  have h := hfold 0
  rw [Nat.zero_add] at h
  refine h.trans ?_
  apply UInt64.toNat_inj.mp
  have hvalue := toNat_ofInt (accumulated calls)
  rw [UInt64.toNat_ofNat']
  omega

theorem ticks_eq (since now : UInt64) :
    now / 10000 - runningSince since = UInt64.ofInt (ticksBetween since now) := by
  apply UInt64.toNat_inj.mp
  have hvalue := toNat_ofInt (ticksBetween since now)
  have hdiff : (now / 10000 - runningSince since).toNat =
      (18446744073709551616 - since.toNat / 10000 + now.toNat / 10000) % 18446744073709551616 :=
    UInt64.toNat_sub _ _
  have hsince := since.toNat_lt
  rw [ticksBetween] at hvalue ⊢
  omega

/-- A counter of 32 bits after any run, and the running time at any reading of the clock, are
put out as 32 bits exactly as long as the value of 64 bits is below 2^32; where the content
is read with a sign, below 2^31. -/
theorem quantities32_iff (calls : List CounterCall) (since now : UInt64) :
    ((PutsOut32 (fun content => unsigned content) (statsGetData .counter32 (counterAfter calls))
          0x41 (accumulated calls) ↔
        accumulated calls % 2 ^ 64 < 2 ^ 32) ∧
      (PutsOut32 signed (statsGetData .counter32 (counterAfter calls)) 0x41 (accumulated calls) ↔
        accumulated calls % 2 ^ 64 < 2 ^ 31)) ∧
    (PutsOut32 (fun content => unsigned content) (runningSinceGetData (runningSince since) now)
          0x43 (ticksBetween since now) ↔
        ticksBetween since now % 2 ^ 64 < 2 ^ 32) ∧
      (PutsOut32 signed (runningSinceGetData (runningSince since) now) 0x43
          (ticksBetween since now) ↔
        ticksBetween since now % 2 ^ 64 < 2 ^ 31) := by
  constructor
  · have hunsigned := putsOut32_unsigned_iff .counter32 (accumulated calls)
    have hsigned := putsOut32_signed_iff .counter32 (accumulated calls)
    rw [statsGetData, counterAfter_eq]
    exact ⟨hunsigned.trans (by omega), hsigned.trans (by omega)⟩
  · rw [runningSinceGetData, ticks_eq]
    exact ⟨putsOut32_unsigned_iff .ticks _, putsOut32_signed_iff .ticks _⟩

/-- A counter at 2^32 takes eight bytes. -/
theorem not_quantities32 :
    ¬ ∀ calls : List CounterCall,
      PutsOut32 (fun content => unsigned content) (statsGetData .counter32 (counterAfter calls))
        0x41 (accumulated calls) := by
  intro h
  have hsmall := (putsOut32_unsigned_iff .counter32 (accumulated [.add 0xffffffff, .inc])).mp
    (counterAfter_eq _ ▸ h [.add 0xffffffff, .inc])
  exact absurd hsmall (by decide)

end HamRouter.Snmp
