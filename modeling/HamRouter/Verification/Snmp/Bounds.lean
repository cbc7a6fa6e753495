import HamRouter.Model.SnmpScan

/-! # Which offsets the SNMP parsers read

The parsers and the scan are followed together. They agree on every region until a byte
is needed that is not there. -/

namespace HamRouter.Snmp

open TracedRead

variable (r : Region)

/-- A read inside the datagram and inside all regions it lies in. -/
def Read.Inside (read : Read) : Prop := read.offset < read.stop ∧ read.offset < r.bytes.length

/-- What a parser returns on a verdict. -/
def Verdict.result : Verdict → Option Bool
  | .accepted => some true
  | .rejected => some false
  | .short => none
  | .unfinished => none

/-- The reads are inside unless the verdict is `short`, and then the result is that of the
verdict. -/
structure Agrees (x : Traced Read Parsed) (verdict : Verdict) : Prop where
  inside : x.All (Read.Inside r) ↔ verdict ≠ .short
  result : verdict ≠ .short → x.val.map Prod.fst = verdict.result

/-! ## Rules -/

theorem inside_readByte {stop : ℕ} (hstop : stop ≤ r.bytes.length) (i : ℕ) :
    (readByte r stop i).All (Read.Inside r) ↔ i < stop := by
  simp only [Traced.All, readByte, List.mem_singleton, forall_eq, Read.Inside]
  omega

theorem inside_readBytes {stop : ℕ} (hstop : stop ≤ r.bytes.length) (start n : ℕ) :
    (readBytes r stop start n).All (Read.Inside r) ↔ n ≤ stop - start := by
  simp only [Traced.All, readBytes, List.mem_map, List.mem_range'_1, Read.Inside]
  constructor
  · intro h
    by_cases hzero : n = 0
    · omega
    · have hlast := h ⟨start + n - 1, stop⟩ ⟨start + n - 1, by omega, rfl⟩
      simp only at hlast
      omega
  · rintro h read ⟨i, hi, rfl⟩
    simp only
    omega

variable {r}

theorem agrees_pure (result : Parsed) (verdict : Verdict) (hshort : verdict ≠ .short)
    (h : result.map Prod.fst = verdict.result) : Agrees r (pure result) verdict where
  inside := by simp [hshort]
  result := fun _ => h

theorem agrees_rejected (req : OidReq) : Agrees r (pure (some (false, req))) .rejected :=
  agrees_pure _ _ (by decide) rfl

theorem agrees_accepted (req : OidReq) : Agrees r (pure (some (true, req))) .accepted :=
  agrees_pure _ _ (by decide) rfl

theorem agrees_unfinished : Agrees r (pure none) .unfinished :=
  agrees_pure _ _ (by decide) rfl

/-- A first part that reads outside settles the matter. -/
theorem agrees_short {α : Type} {x : Traced Read α} (f : α → Traced Read Parsed)
    (h : ¬ x.All (Read.Inside r)) : Agrees r (x >>= f) .short where
  inside := by
    rw [Traced.all_bind]
    simp [h]
  result := fun hshort => absurd rfl hshort

/-- A first part that reads inside does not change the verdict. -/
theorem agrees_bind {α : Type} {x : Traced Read α} {f : α → Traced Read Parsed} {verdict : Verdict}
    (hx : x.All (Read.Inside r)) (hf : Agrees r (f x.val) verdict) : Agrees r (x >>= f) verdict where
  inside := by
    rw [Traced.all_bind, hf.inside]
    simp [hx]
  result := hf.result

theorem agrees_header {stop p : ℕ} (hstop : stop ≤ r.bytes.length)
    (f : UInt8 → UInt8 → Traced Read Parsed) {next : UInt8 → UInt8 → List UInt8 → Verdict}
    (h : ∀ type length, Agrees r (f type length) (next type length (r.window (p + 2) stop))) :
    Agrees r (readByte r stop p >>= fun type => readByte r stop (p + 1) >>= f type)
      (headerScan next (r.window p stop)) := by
  by_cases hfirst : p < stop
  · have hp := (inside_readByte r hstop p).mpr hfirst
    by_cases hsecond : p + 1 < stop
    · have hnext := (inside_readByte r hstop (p + 1)).mpr hsecond
      rw [r.window_cons hfirst hstop, r.window_cons hsecond hstop]
      exact agrees_bind hp (agrees_bind hnext (h _ _))
    · have hnext : ¬ (readByte r stop (p + 1)).All (Read.Inside r) := by
        rw [inside_readByte r hstop]
        exact hsecond
      rw [r.window_cons hfirst hstop, r.window_of_le (Nat.le_of_not_lt hsecond)]
      exact agrees_bind hp (agrees_short _ hnext)
  · have hp : ¬ (readByte r stop p).All (Read.Inside r) := by
      rw [inside_readByte r hstop]
      exact hfirst
    rw [r.window_of_le (Nat.le_of_not_lt hfirst)]
    exact agrees_short _ hp

theorem agrees_bytes {stop p : ℕ} (hstop : stop ≤ r.bytes.length) (n : ℕ)
    (f : List UInt8 → Traced Read Parsed) {verdict : Verdict}
    (h : Agrees r (f ((r.window p stop).take n)) verdict) :
    Agrees r (readBytes r stop p n >>= f)
      (if (r.window p stop).length < n then .short else verdict) := by
  rw [r.length_window hstop]
  by_cases hshort : stop - p < n
  · have hbytes : ¬ (readBytes r stop p n).All (Read.Inside r) := by
      rw [inside_readBytes r hstop]
      omega
    rw [if_pos hshort]
    exact agrees_short _ hbytes
  · have hbytes := (inside_readBytes r hstop p n).mpr (Nat.le_of_not_lt hshort)
    rw [if_neg hshort]
    apply agrees_bind hbytes
    by_cases hzero : n = 0
    · rw [hzero] at h ⊢
      exact h
    · have hslice : (readBytes r stop p n).val = (r.window p stop).take n :=
        r.slice_window (by omega) hstop
      rw [hslice]
      exact h

/-- A call of a parser whose result decides how to go on. -/
theorem agrees_call {x : Traced Read Parsed} {verdict : Verdict} (hx : Agrees r x verdict)
    (f : Parsed → Traced Read Parsed) (combine : Verdict → Verdict)
    (hshort : combine .short = .short) (hnone : Agrees r (f none) (combine .unfinished))
    (hfalse : ∀ req, Agrees r (f (some (false, req))) (combine .rejected))
    (htrue : ∀ req, Agrees r (f (some (true, req))) (combine .accepted)) :
    Agrees r (x >>= f) (combine verdict) := by
  cases verdict with
  | accepted =>
      apply agrees_bind (hx.inside.mpr (by simp))
      obtain ⟨⟨ok, req⟩, hval, rfl⟩ := Option.map_eq_some_iff.mp (hx.result (by simp))
      rw [hval]
      exact htrue req
  | rejected =>
      apply agrees_bind (hx.inside.mpr (by simp))
      obtain ⟨⟨ok, req⟩, hval, rfl⟩ := Option.map_eq_some_iff.mp (hx.result (by simp))
      rw [hval]
      exact hfalse req
  | short =>
      rw [hshort]
      exact agrees_short f (fun hall => hx.inside.mp hall rfl)
  | unfinished =>
      apply agrees_bind (hx.inside.mpr (by simp))
      rw [Option.map_eq_none_iff.mp (hx.result (by simp))]
      exact hnone

theorem agrees_andThen {x : Traced Read Parsed} {verdict next : Verdict} (hx : Agrees r x verdict)
    (f : Parsed → Traced Read Parsed) (hnone : Agrees r (f none) .unfinished)
    (hfalse : ∀ req, Agrees r (f (some (false, req))) .rejected)
    (htrue : ∀ req, Agrees r (f (some (true, req))) next) :
    Agrees r (x >>= f) (verdict.andThen next) :=
  agrees_call hx f (fun v => v.andThen next) rfl hnone hfalse htrue

theorem agrees_regardless {x : Traced Read Parsed} {verdict next : Verdict}
    (hx : Agrees r x verdict) (f : Parsed → Traced Read Parsed)
    (hnone : Agrees r (f none) .unfinished)
    (hsome : ∀ ok req, Agrees r (f (some (ok, req))) next) :
    Agrees r (x >>= f) (verdict.regardless next) :=
  agrees_call hx f (fun v => v.regardless next) rfl hnone (hsome false) (hsome true)

/-! ## The parts of a PDU -/

theorem pduInteger_of_le {len : ℕ} (hlen : ¬ len < 2) (stop p : ℕ) :
    pduInteger r stop p len =
      readByte r stop p >>= fun type => readByte r stop (p + 1) >>= fun length =>
        if type ≠ 0x02 then pure none
        else readBytes r stop (p + 2) length.toNat >>= fun bytes =>
          pure (some (integerOf bytes, p + 2 + length.toNat)) := by
  rw [pduInteger, getTypeLength, if_neg hlen]
  simp only [Traced.bind_assoc, Traced.pure_bind]

theorem agrees_pduInteger {stop p len : ℕ} (hstop : stop ≤ r.bytes.length) (hlen : ¬ len < 2)
    (f : Option (UInt64 × ℕ) → Traced Read Parsed) {next : List UInt8 → Verdict}
    (hnone : Agrees r (f none) .rejected)
    (hsome : ∀ v p, Agrees r (f (some (v, p))) (next (r.window p stop))) :
    Agrees r (pduInteger r stop p len >>= f) (integerScan next (r.window p stop)) := by
  rw [pduInteger_of_le hlen, integerScan]
  simp only [Traced.bind_assoc]
  apply agrees_header hstop
  intro type length
  by_cases htype : type ≠ 0x02
  · rw [if_pos htype, if_pos htype]
    exact hnone
  · rw [if_neg htype, if_neg htype, r.window_drop, Traced.bind_assoc]
    apply agrees_bytes hstop
    exact hsome _ _

theorem agrees_list {stop p : ℕ} (hstop : stop ≤ r.bytes.length)
    (f : UInt8 → Traced Read Parsed) (req : OidReq) {next : ℕ → List UInt8 → Verdict}
    (h : ∀ length : UInt8, Agrees r (f length)
      (next length.toNat (r.window (p + 2) (min stop (p + 2 + length.toNat))))) :
    Agrees r (readByte r stop p >>= fun type =>
        if type ≠ 0x30 then pure (some (false, req)) else readByte r stop (p + 1) >>= f)
      (listScan next (r.window p stop)) := by
  by_cases hfirst : p < stop
  · have hp := (inside_readByte r hstop p).mpr hfirst
    rw [r.window_cons hfirst hstop, listScan]
    apply agrees_bind hp
    by_cases htype : (readByte r stop p).val ≠ 0x30
    · have htype' : r.get p ≠ 0x30 := htype
      rw [if_pos htype, if_pos htype']
      exact agrees_rejected req
    · have htype' : ¬ r.get p ≠ 0x30 := htype
      rw [if_neg htype, if_neg htype']
      by_cases hsecond : p + 1 < stop
      · have hnext := (inside_readByte r hstop (p + 1)).mpr hsecond
        rw [r.window_cons hsecond hstop, lengthScan, r.window_take]
        exact agrees_bind hnext (h _)
      · have hnext : ¬ (readByte r stop (p + 1)).All (Read.Inside r) := by
          rw [inside_readByte r hstop]
          exact hsecond
        rw [r.window_of_le (Nat.le_of_not_lt hsecond)]
        exact agrees_short _ hnext
  · have hp : ¬ (readByte r stop p).All (Read.Inside r) := by
      rw [inside_readByte r hstop]
      exact hfirst
    rw [r.window_of_le (Nat.le_of_not_lt hfirst)]
    exact agrees_short _ hp

/-! ## The parsers -/

variable (r) (findNextOid : StdString → StdString)

/-- All four parsers agree with their scans at some fuel. -/
structure AgreeAt (fuel : ℕ) : Prop where
  pdu : ∀ stop p len isGetnext req, stop ≤ r.bytes.length →
    Agrees r (processPDU r findNextOid fuel stop p len isGetnext req)
      (pduScan fuel len (r.window p (min stop (p + len))))
  varbind : ∀ stop pnt last isGetnext req, stop ≤ r.bytes.length →
    Agrees r (varbindLoop r findNextOid fuel stop pnt last isGetnext req)
      (varbindScan fuel (last - pnt) (r.window pnt stop))
  ber : ∀ stop p len isGetnext isTop req, stop ≤ r.bytes.length →
    Agrees r (processBER r findNextOid fuel stop p len isGetnext isTop req)
      (berScan fuel len isTop (r.window p (min stop (p + len))))
  element : ∀ stop pnt last isGetnext isTop firstInteger firstOctetStr req,
    stop ≤ r.bytes.length →
    Agrees r (berLoop r findNextOid fuel stop pnt last isGetnext isTop firstInteger firstOctetStr
        req)
      (elementScan fuel (last - pnt) isTop firstInteger (r.window pnt stop))

variable {r findNextOid}

theorem agreeAt_zero : AgreeAt r findNextOid 0 where
  pdu _ _ _ _ _ _ := by
    rw [processPDU, pduScan]
    exact agrees_unfinished
  varbind _ _ _ _ _ _ := by
    rw [varbindLoop, varbindScan]
    exact agrees_unfinished
  ber _ _ _ _ _ _ _ := by
    rw [processBER, berScan]
    exact agrees_unfinished
  element _ _ _ _ _ _ _ _ _ := by
    rw [berLoop, elementScan]
    exact agrees_unfinished

theorem AgreeAt.succ_ber {fuel : ℕ} (ih : AgreeAt r findNextOid fuel) (stop p len : ℕ)
    (isGetnext : Bool) (isTop : ℤ) (req : OidReq) (hstop : stop ≤ r.bytes.length) :
    Agrees r (processBER r findNextOid (fuel + 1) stop p len isGetnext isTop req)
      (berScan (fuel + 1) len isTop (r.window p (min stop (p + len)))) := by
  rw [processBER, berScan]
  split
  · exact agrees_rejected req
  · have h := ih.element (min stop (p + len)) p (p + len) isGetnext isTop true true req (by omega)
    rw [Nat.add_sub_cancel_left] at h
    exact h

theorem AgreeAt.succ_pdu {fuel : ℕ} (ih : AgreeAt r findNextOid fuel) (stop p len : ℕ)
    (isGetnext : Bool) (req : OidReq) (hstop : stop ≤ r.bytes.length) :
    Agrees r (processPDU r findNextOid (fuel + 1) stop p len isGetnext req)
      (pduScan (fuel + 1) len (r.window p (min stop (p + len)))) := by
  have hend : min stop (p + len) ≤ r.bytes.length := by omega
  rw [processPDU, pduScan]
  simp only
  generalize min stop (p + len) = inner at hend ⊢
  by_cases hlen : len < 2
  · rw [if_pos hlen, pduInteger, getTypeLength, if_pos hlen]
    exact agrees_rejected req
  · rw [if_neg hlen]
    apply agrees_pduInteger hend hlen
    · exact agrees_rejected req
    · intro reqId p
      apply agrees_pduInteger hend hlen
      · exact agrees_rejected _
      · intro _ p
        apply agrees_pduInteger hend hlen
        · exact agrees_rejected _
        · intro _ p
          apply agrees_list hend
          intro length
          have h := ih.varbind (min inner (p + 2 + length.toNat)) (p + 2)
            (p + 2 + length.toNat) isGetnext { req with reqId := reqId } (by omega)
          rw [Nat.add_sub_cancel_left] at h
          exact h

theorem AgreeAt.succ_varbind {fuel : ℕ} (ih : AgreeAt r findNextOid fuel) (stop pnt last : ℕ)
    (isGetnext : Bool) (req : OidReq) (hstop : stop ≤ r.bytes.length) :
    Agrees r (varbindLoop r findNextOid (fuel + 1) stop pnt last isGetnext req)
      (varbindScan (fuel + 1) (last - pnt) (r.window pnt stop)) := by
  rw [varbindLoop, varbindScan]
  by_cases hend : pnt < last
  · rw [if_pos hend, if_neg (show ¬ last - pnt = 0 by omega)]
    apply agrees_header hstop
    intro type length
    by_cases hlength : last < pnt + 2 + length.toNat
    · rw [if_pos hlength, if_pos (show last - pnt < 2 + length.toNat by omega)]
      exact agrees_rejected req
    · rw [if_neg hlength, if_neg (show ¬ last - pnt < 2 + length.toNat by omega)]
      by_cases htype : type = 0x30
      · rw [if_pos htype, if_pos htype, r.window_take, r.window_drop]
        apply agrees_regardless (ih.ber stop (pnt + 2) length.toNat isGetnext 0 req hstop)
        · exact agrees_unfinished
        · intro ok req
          have h := ih.varbind stop (pnt + 2 + length.toNat) last isGetnext req hstop
          rw [Nat.add_assoc, ← Nat.sub_sub, ← Nat.add_assoc] at h
          exact h
      · rw [if_neg htype, if_neg htype]
        exact agrees_rejected req
  · rw [if_neg hend, if_pos (show last - pnt = 0 by omega)]
    exact agrees_accepted req

theorem AgreeAt.succ_element {fuel : ℕ} (ih : AgreeAt r findNextOid fuel) (stop pnt last : ℕ)
    (isGetnext : Bool) (isTop : ℤ) (firstInteger firstOctetStr : Bool) (req : OidReq)
    (hstop : stop ≤ r.bytes.length) :
    Agrees r (berLoop r findNextOid (fuel + 1) stop pnt last isGetnext isTop firstInteger
        firstOctetStr req)
      (elementScan (fuel + 1) (last - pnt) isTop firstInteger (r.window pnt stop)) := by
  rw [berLoop, elementScan]
  by_cases hend : pnt + 1 < last
  · rw [if_pos hend, if_neg (show ¬ last - pnt < 2 by omega)]
    apply agrees_header hstop
    intro type length
    simp only [r.window_take, r.window_drop]
    by_cases hlength : last < pnt + 2 + length.toNat
    · rw [if_pos hlength, if_pos (show last - pnt < 2 + length.toNat by omega)]
      exact agrees_rejected req
    · rw [if_neg hlength, if_neg (show ¬ last - pnt < 2 + length.toNat by omega)]
      have hleft : last - pnt - (2 + length.toNat) = last - (pnt + 2 + length.toNat) := by omega
      have hnext := fun isGetnext firstInteger firstOctetStr req =>
        ih.element stop (pnt + 2 + length.toNat) last isGetnext isTop firstInteger firstOctetStr
          req hstop
      rw [hleft]
      by_cases hinteger : type = 0x02
      · rw [if_pos hinteger, if_pos hinteger]
        by_cases htop : isTop ≠ 0 ∧ firstInteger = true
        · rw [if_pos htop, if_pos htop]
          apply agrees_bytes hstop
          exact hnext _ _ _ _
        · rw [if_neg htop, if_neg htop]
          exact hnext _ _ _ _
      · rw [if_neg hinteger, if_neg hinteger]
        by_cases hoctets : type = 0x04
        · rw [if_pos hoctets, if_pos hoctets]
          apply agrees_bytes hstop
          exact hnext _ _ _ _
        · rw [if_neg hoctets, if_neg hoctets]
          by_cases hnull : type = 0x05
          · rw [if_pos hnull, if_pos hnull]
            exact hnext _ _ _ _
          · rw [if_neg hnull, if_neg hnull]
            by_cases hoid : type = 0x06
            · rw [if_pos hoid, if_pos hoid]
              apply agrees_bytes hstop
              rw [r.window_take]
              cases getOid (r.window (pnt + 2) (min stop (pnt + 2 + length.toNat))) with
              | none => exact agrees_rejected req
              | some oid => exact hnext _ _ _ _
            · rw [if_neg hoid, if_neg hoid]
              by_cases hsequence : type = 0x30
              · rw [if_pos hsequence, if_pos hsequence]
                apply agrees_andThen
                  (ih.ber stop (pnt + 2) length.toNat isGetnext (isTop - 1) req hstop)
                · exact agrees_unfinished
                · exact agrees_rejected
                · exact hnext _ _ _
              · rw [if_neg hsequence, if_neg hsequence]
                by_cases hpdu : type = 0xa0 ∨ type = 0xa1 ∨ type = 0xa3
                · rw [if_pos hpdu, if_pos hpdu]
                  apply agrees_andThen
                    (ih.pdu stop (pnt + 2) length.toNat (isGetnext || type == 0xa1) req hstop)
                  · exact agrees_unfinished
                  · exact agrees_rejected
                  · exact hnext _ _ _
                · rw [if_neg hpdu, if_neg hpdu]
                  exact agrees_rejected req
  · rw [if_neg hend, if_pos (show last - pnt < 2 by omega)]
    exact agrees_accepted req

theorem agreeAt (fuel : ℕ) : AgreeAt r findNextOid fuel := by
  induction fuel with
  | zero => exact agreeAt_zero
  | succ fuel ih => exact ⟨ih.succ_pdu, ih.succ_varbind, ih.succ_ber, ih.succ_element⟩

/-! ## The fuel -/

theorem Verdict.andThen_ne {verdict next : Verdict} (h : verdict ≠ .unfinished)
    (hnext : next ≠ .unfinished) : verdict.andThen next ≠ .unfinished := by
  cases verdict with
  | accepted => exact hnext
  | rejected => exact h
  | short => exact h
  | unfinished => exact h

theorem Verdict.regardless_ne {verdict next : Verdict} (h : verdict ≠ .unfinished)
    (hnext : next ≠ .unfinished) : verdict.regardless next ≠ .unfinished := by
  cases verdict with
  | accepted => exact hnext
  | rejected => exact hnext
  | short => exact h
  | unfinished => exact h

theorem headerScan_ne {next : UInt8 → UInt8 → List UInt8 → Verdict} {bytes : List UInt8}
    (h : ∀ type length rest, rest.length + 2 = bytes.length →
      next type length rest ≠ .unfinished) : headerScan next bytes ≠ .unfinished := by
  match bytes with
  | [] => simp [headerScan]
  | [_] => simp [headerScan]
  | type :: length :: rest => exact h type length rest rfl

theorem integerScan_ne {next : List UInt8 → Verdict} {bytes : List UInt8}
    (h : ∀ rest : List UInt8, rest.length < bytes.length → next rest ≠ .unfinished) :
    integerScan next bytes ≠ .unfinished := by
  apply headerScan_ne
  intro type length rest hrest
  split
  · decide
  · split
    · decide
    · apply h
      rw [List.length_drop]
      omega

theorem listScan_ne {next : ℕ → List UInt8 → Verdict} {bytes : List UInt8}
    (h : ∀ length, ∀ rest : List UInt8, rest.length < bytes.length →
      next length rest ≠ .unfinished) : listScan next bytes ≠ .unfinished := by
  match bytes with
  | [] => simp [listScan]
  | [_] =>
      rw [listScan]
      split <;> simp [lengthScan]
  | type :: length :: rest =>
      rw [listScan]
      split
      · decide
      · apply h
        simp only [List.length_take, List.length_cons]
        omega

/-- The scans come to an end with one fuel for each byte. -/
structure FinishAt (fuel : ℕ) : Prop where
  pdu : ∀ len bytes, bytes.length < fuel → pduScan fuel len bytes ≠ .unfinished
  varbind : ∀ len bytes, bytes.length < fuel → varbindScan fuel len bytes ≠ .unfinished
  ber : ∀ len isTop bytes, bytes.length + 1 < fuel → berScan fuel len isTop bytes ≠ .unfinished
  element : ∀ len isTop firstInteger bytes, bytes.length < fuel →
    elementScan fuel len isTop firstInteger bytes ≠ .unfinished

theorem FinishAt.succ_pdu {fuel : ℕ} (ih : FinishAt fuel) (len : ℕ) (bytes : List UInt8)
    (h : bytes.length < fuel + 1) : pduScan (fuel + 1) len bytes ≠ .unfinished := by
  rw [pduScan]
  split
  · decide
  · apply integerScan_ne
    intro first hfirst
    apply integerScan_ne
    intro second hsecond
    apply integerScan_ne
    intro third hthird
    apply listScan_ne
    intro length rest hrest
    exact ih.varbind length rest (by omega)

theorem FinishAt.succ_varbind {fuel : ℕ} (ih : FinishAt fuel) (len : ℕ) (bytes : List UInt8)
    (h : bytes.length < fuel + 1) : varbindScan (fuel + 1) len bytes ≠ .unfinished := by
  rw [varbindScan]
  split
  · decide
  · apply headerScan_ne
    intro type length rest hrest
    split
    · decide
    · split
      · apply Verdict.regardless_ne
        · apply ih.ber
          rw [List.length_take]
          omega
        · apply ih.varbind
          rw [List.length_drop]
          omega
      · decide

theorem FinishAt.succ_ber {fuel : ℕ} (ih : FinishAt fuel) (len : ℕ) (isTop : ℤ)
    (bytes : List UInt8) (h : bytes.length + 1 < fuel + 1) :
    berScan (fuel + 1) len isTop bytes ≠ .unfinished := by
  rw [berScan]
  split
  · decide
  · exact ih.element _ _ _ _ (by omega)

theorem FinishAt.succ_element {fuel : ℕ} (ih : FinishAt fuel) (len : ℕ) (isTop : ℤ)
    (firstInteger : Bool) (bytes : List UInt8) (h : bytes.length < fuel + 1) :
    elementScan (fuel + 1) len isTop firstInteger bytes ≠ .unfinished := by
  rw [elementScan]
  split
  · decide
  · apply headerScan_ne
    intro type length rest hrest
    have hnext : ∀ left firstInteger,
        elementScan fuel left isTop firstInteger (rest.drop length.toNat) ≠ .unfinished := by
      intro left firstInteger
      apply ih.element
      rw [List.length_drop]
      omega
    have htake : (rest.take length.toNat).length + 1 < fuel := by
      rw [List.length_take]
      omega
    have hber := ih.ber length.toNat (isTop - 1) _ htake
    have hpdu := ih.pdu length.toNat (rest.take length.toNat) (by omega)
    simp only
    split_ifs
    · decide
    · decide
    · exact hnext _ _
    · exact hnext _ _
    · decide
    · exact hnext _ _
    · exact hnext _ _
    · decide
    · decide
    · exact hnext _ _
    · exact Verdict.andThen_ne hber (hnext _ _)
    · exact Verdict.andThen_ne hpdu (hnext _ _)
    · decide

theorem finishAt (fuel : ℕ) : FinishAt fuel := by
  induction fuel with
  | zero =>
      refine ⟨?_, ?_, ?_, ?_⟩
      · intro len bytes h
        omega
      · intro len bytes h
        omega
      · intro len isTop bytes h
        omega
      · intro len isTop firstInteger bytes h
        omega
  | succ fuel ih => exact ⟨ih.succ_pdu, ih.succ_varbind, ih.succ_ber, ih.succ_element⟩

/-! ## Datagrams -/

theorem agrees_datagram (r : Region) (findNextOid : StdString → StdString) :
    Agrees r (parseDatagram r findNextOid (r.bytes.length + 2)) (datagramScan r.bytes) := by
  have hall : AgreeAt r findNextOid (r.bytes.length + 2) := agreeAt _
  have h := hall.ber r.bytes.length 0 r.bytes.length false 2 {} (Nat.le_refl _)
  have hwindow : r.window 0 (min r.bytes.length (0 + r.bytes.length)) = r.bytes := by
    rw [Region.window, Nat.zero_add, Nat.min_self, List.drop_zero, Nat.sub_zero, List.take_length]
  rw [hwindow] at h
  exact h

/-- The parse of a datagram comes to an end and reads inside the datagram and inside every
region in it. -/
def SafeParse (r : Region) (findNextOid : StdString → StdString) : Prop :=
  (parseDatagram r findNextOid (r.bytes.length + 2)).val.isSome = true ∧
    (parseDatagram r findNextOid (r.bytes.length + 2)).All (Read.Inside r)

/-- A datagram is parsed within its bounds exactly when no byte of it is missing where the
scan needs one. -/
theorem safeParse_iff (r : Region) (findNextOid : StdString → StdString) :
    SafeParse r findNextOid ↔ datagramScan r.bytes ≠ .short := by
  have hagrees := agrees_datagram r findNextOid
  constructor
  · intro hsafe
    rcases hsafe with ⟨_, hinside⟩
    exact hagrees.inside.mp hinside
  · intro hshort
    have hfinished : datagramScan r.bytes ≠ .unfinished :=
      (finishAt _).ber _ _ _ (Nat.lt_succ_self _)
    have hresult := hagrees.result hshort
    refine ⟨?_, hagrees.inside.mpr hshort⟩
    cases hverdict : datagramScan r.bytes with
    | accepted =>
        rw [hverdict] at hresult
        obtain ⟨_, hval, _⟩ := Option.map_eq_some_iff.mp hresult
        rw [hval]
        rfl
    | rejected =>
        rw [hverdict] at hresult
        obtain ⟨_, hval, _⟩ := Option.map_eq_some_iff.mp hresult
        rw [hval]
        rfl
    | short => exact absurd hverdict hshort
    | unfinished => exact absurd hverdict hfinished

/-- A GetRequest of two bytes, the header of an integer whose content is not there. -/
def headerOnlyRequest : List UInt8 := [0xa0, 0x02, 0x02, 0xff]

theorem not_safeParse_headerOnlyRequest :
    ¬ SafeParse ⟨headerOnlyRequest, fun _ => 0⟩ (fun _ => []) := by
  intro h
  have hinside := (agrees_datagram _ _).inside.mp h.2
  exact hinside (by decide)

end HamRouter.Snmp
