import HamRouter.Model.SnmpOid
import HamRouter.Verification.Decimal
import HamRouter.Verification.Str

/-! # Encoding an OID that was decoded

The text of an accepted OID is split again at its dots. Each number then takes as many
octets as its 64-bit value has groups of seven bits. -/

namespace HamRouter.Snmp

/-! ## The text of an accepted OID -/

theorem oidPart_false (v : UInt32) : oidPart false v = dotted v := by
  simp [oidPart, dotted]

theorem oidLoop_false (v : UInt32) (oidOut : StdString) (octets : List UInt8) :
    oidLoop false v oidOut octets =
      if (subIdentifiers v octets).2 = 0 then
        some (oidOut ++ (subIdentifiers v octets).1.flatMap dotted)
      else none := by
  induction octets generalizing v oidOut with
  | nil => simp [oidLoop, subIdentifiers]
  | cons b rest ih =>
      rw [oidLoop, subIdentifiers]
      split
      · rw [ih, oidPart_false, List.flatMap_cons, List.append_assoc]
      · exact ih _ _

theorem getOid_iso {octets : List UInt8} (h : isIso octets) :
    getOid octets = if (subIdentifiers 0 octets.tail).2 = 0 then
      some (str "1.3" ++ (dottedIds octets).flatMap dotted) else none := by
  obtain ⟨rest, rfl⟩ : ∃ rest, octets = 43 :: rest := by
    cases octets with
    | nil => exact absurd h (by decide)
    | cons b rest => exact ⟨rest, by rw [Option.some.inj h]⟩
  have hpart : oidPart true (((0 : UInt32) <<< 7) ||| (43 : UInt8).toUInt32) = str "1.3" := by
    decide
  rw [getOid, oidLoop, if_pos (by decide), hpart, oidLoop_false, dottedIds, if_pos h]
  rfl

theorem getOid_not_iso {octets : List UInt8} (h : ¬ isIso octets) :
    getOid octets = if (subIdentifiers 0 octets).2 = 0 then
      some ((dottedIds octets).flatMap dotted) else none := by
  have hloop : getOid octets = oidLoop false 0 [] octets := by
    cases octets with
    | nil => rfl
    | cons b rest =>
        have hb : ((0 : UInt32) <<< 7) ||| b.toUInt32 ≠ 43 := by
          intro heq
          apply h
          have hvalue : b.toUInt32 = 43 := by simpa using heq
          have hbyte : b = 43 := by
            have hback := congrArg UInt32.toUInt8 hvalue
            simpa using hback
          rw [isIso, hbyte]
          rfl
        have hpart : oidPart true (((0 : UInt32) <<< 7) ||| b.toUInt32) =
            oidPart false (((0 : UInt32) <<< 7) ||| b.toUInt32) := by
          rw [oidPart, oidPart, if_neg (fun hand => hb hand.2), if_neg (by simp)]
        rw [getOid, oidLoop, oidLoop, hpart]
  rw [hloop, oidLoop_false, dottedIds, if_neg h, List.nil_append]

theorem AcceptedOid.text_eq (o : AcceptedOid) :
    o.text = (if isIso o.octets then str "1.3" else []) ++ (dottedIds o.octets).flatMap dotted := by
  have haccepted := o.accepted
  by_cases h : isIso o.octets
  · rw [getOid_iso h] at haccepted
    rw [if_pos h]
    split at haccepted
    · exact (Option.some.inj haccepted).symm
    · simp at haccepted
  · rw [getOid_not_iso h] at haccepted
    rw [if_neg h, List.nil_append]
    split at haccepted
    · exact (Option.some.inj haccepted).symm
    · simp at haccepted

/-! ## The length of a printed number -/

theorem toInt_of_lt {v : UInt32} (h : v < 0x80000000) : v.toInt32.toInt = v.toNat := by
  have hlt : v.toNat < 0x80000000 := UInt32.lt_iff_toNat_lt.mp h
  show v.toBitVec.toInt = v.toNat
  rw [BitVec.toInt_eq_toNat_cond, if_pos (by rw [UInt32.toNat_toBitVec]; omega),
    UInt32.toNat_toBitVec]

theorem toInt_of_not_lt {v : UInt32} (h : ¬ v < 0x80000000) :
    v.toInt32.toInt = v.toNat - 2 ^ 32 := by
  have hge : ¬ v.toNat < 0x80000000 := fun hlt => h (UInt32.lt_iff_toNat_lt.mpr hlt)
  show v.toBitVec.toInt = v.toNat - 2 ^ 32
  rw [BitVec.toInt_eq_toNat_cond, if_neg (by rw [UInt32.toNat_toBitVec]; omega),
    UInt32.toNat_toBitVec]
  rfl

theorem length_dotted (v : UInt32) : (dotted v).length = printedLength v := by
  rw [dotted, List.length_cons, formatInt, printedLength]
  by_cases h : v < 0x80000000
  · have hnonneg : ¬ (v.toNat : ℤ) < 0 := by omega
    rw [toInt_of_lt h, if_neg hnonneg, if_pos h, length_decimal, Int.natAbs_natCast]
    omega
  · have hlt := v.toNat_lt
    have hneg : (v.toNat : ℤ) - 2 ^ 32 < 0 := by omega
    have habs : ((v.toNat : ℤ) - 2 ^ 32).natAbs = 2 ^ 32 - v.toNat := by omega
    rw [toInt_of_not_lt h, if_pos hneg, if_neg h, List.length_cons, length_decimal, habs]
    omega

/-! ## The octets of a number -/

theorem length_groups (w : UInt64) : (groups w).length = (Nat.digits 128 w.toNat).length := by
  fun_induction groups w with
  | case1 => rfl
  | case2 w hne ih =>
      have hzero : w.toNat ≠ 0 := fun h => hne (UInt64.toNat_inj.mp h)
      have hshift : (w >>> 7).toNat = w.toNat / 128 := by
        simp [UInt64.toNat_shiftRight, Nat.shiftRight_eq_div_pow]
      have hdigits := Nat.digits_def' (show 1 < 128 by decide) (Nat.pos_of_ne_zero hzero)
      rw [List.length_cons, ih, hshift, hdigits, List.length_cons]

theorem length_temp (w : UInt64) : (temp w).length = max 1 (Nat.digits 128 w.toNat).length := by
  unfold temp
  split
  · rename_i hzero
    rw [hzero]
    rfl
  · rename_i hne
    have hzero : w.toNat ≠ 0 := fun h => hne (UInt64.toNat_inj.mp h)
    have hnil : Nat.digits 128 w.toNat ≠ [] := Nat.digits_ne_nil_iff_ne_zero.mpr hzero
    have hpos := List.length_pos_of_ne_nil hnil
    rw [length_groups]
    omega

/-- Sixty-four bits are at most ten groups of seven. -/
theorem length_temp_le (w : UInt64) : (temp w).length ≤ 10 := by
  have hlt := w.toNat_lt
  have hgroups : (Nat.digits 128 w.toNat).length ≤ 10 := by
    rw [Nat.digits_length_le_iff (by decide)]
    exact Nat.lt_of_lt_of_le hlt (by decide)
  rw [length_temp]
  omega

/-- The round of a printed sub-identifier. -/
def round (v : UInt32) : List UInt8 := temp (UInt64.ofInt v.toInt32.toInt)

theorem length_round (v : UInt32) : (round v).length = groupCount v := by
  rw [round, length_temp, groupCount]
  by_cases h : v < 0x80000000
  · have hlt := v.toNat_lt
    have hvalue : (UInt64.ofInt v.toInt32.toInt).toNat = v.toNat := by
      rw [toInt_of_lt h, UInt64.ofInt, UInt64.toNat_ofNat']
      omega
    rw [hvalue, if_pos h]
  · have hlt := v.toNat_lt
    have hge : ¬ v.toNat < 0x80000000 := fun hsmall => h (UInt32.lt_iff_toNat_lt.mpr hsmall)
    have hvalue : (UInt64.ofInt v.toInt32.toInt).toNat = 2 ^ 64 - (2 ^ 32 - v.toNat) := by
      rw [toInt_of_not_lt h, UInt64.ofInt, UInt64.toNat_ofNat']
      omega
    have hten : (Nat.digits 128 (2 ^ 64 - (2 ^ 32 - v.toNat))).length ≤ 10 := by
      rw [Nat.digits_length_le_iff (by decide)]
      omega
    have hnine : ¬ (Nat.digits 128 (2 ^ 64 - (2 ^ 32 - v.toNat))).length ≤ 9 := by
      rw [Nat.digits_length_le_iff (by decide)]
      omega
    rw [hvalue, if_neg h]
    omega

/-! ## The rounds of a text -/

theorem oidRounds_last {work : StdString} (hne : work ≠ []) (h : ch '.' ∉ work) :
    oidRounds work = [temp (UInt64.ofInt (atoll work))] := by
  have hidx : work.idxOf? (ch '.') = none := List.idxOf?_eq_none_iff.mpr h
  rw [oidRounds, if_neg hne]
  split
  · rfl
  · rename_i dot hdot
    rw [hidx] at hdot
    simp at hdot

theorem oidRounds_next {front : StdString} (h : ch '.' ∉ front) (rest : StdString) :
    oidRounds (front ++ ch '.' :: rest) =
      temp (UInt64.ofInt (atoll (front ++ ch '.' :: rest))) :: oidRounds rest := by
  have hidx := StdString.idxOf?_append_cons h rest
  rw [oidRounds, if_neg (by simp)]
  split
  · rename_i hdot
    rw [hidx] at hdot
    simp at hdot
  · rename_i dot hdot
    rw [hidx] at hdot
    obtain rfl := Option.some.inj hdot
    rw [← List.drop_drop, List.drop_left, List.drop_one, List.tail_cons]

theorem noDigit_dotted (ids : List UInt32) : NoDigit (ids.flatMap dotted) := by
  cases ids with
  | nil =>
      intro c hc
      simp at hc
  | cons v ids =>
      intro c hc
      obtain rfl : ch '.' = c := by simpa [dotted] using hc
      decide

theorem atoll_id (v : UInt32) (ids : List UInt32) :
    atoll (formatInt v.toInt32.toInt ++ ids.flatMap dotted) = v.toInt32.toInt := by
  have hlow := v.toInt32.le_toInt
  have hhigh := v.toInt32.toInt_lt
  exact atoll_formatInt (by omega) (by omega) (noDigit_dotted ids)

theorem oidRounds_ids (v : UInt32) (ids : List UInt32) :
    oidRounds (formatInt v.toInt32.toInt ++ ids.flatMap dotted) = (v :: ids).map round := by
  have hdot := dot_not_mem_formatInt v.toInt32.toInt
  have hvalue := atoll_id v ids
  induction ids generalizing v with
  | nil =>
      rw [List.flatMap_nil, List.append_nil] at hvalue ⊢
      rw [oidRounds_last (formatInt_ne_nil _) hdot, hvalue]
      rfl
  | cons w ids ih =>
      rw [List.flatMap_cons, dotted, List.cons_append] at hvalue ⊢
      rw [oidRounds_next hdot, hvalue,
        ih w (dot_not_mem_formatInt _) (atoll_id w ids)]
      rfl

/-! ## The constructor -/

theorem length_emit (round : List UInt8) : (emit round).length = round.length := by
  cases round with
  | nil => rfl
  | cons first rest => simp [emit]

theorem length_flatMap_emit (rounds : List (List UInt8)) :
    (rounds.flatMap emit).length = (rounds.map List.length).sum := by
  induction rounds with
  | nil => rfl
  | cons round rounds ih =>
      rw [List.flatMap_cons, List.length_append, ih, length_emit, List.map_cons, List.sum_cons]

theorem length_flatMap_dotted (ids : List UInt32) :
    (ids.flatMap dotted).length = (ids.map printedLength).sum := by
  induction ids with
  | nil => rfl
  | cons v ids ih =>
      rw [List.flatMap_cons, List.length_append, ih, length_dotted, List.map_cons, List.sum_cons]

theorem sum_length_round (ids : List UInt32) :
    ((ids.map round).map List.length).sum = (ids.map groupCount).sum := by
  rw [List.map_map]
  congr 1
  apply List.map_congr_left
  intro v _
  exact length_round v

/-- No text makes the constructor leave its ten bytes `temp`. -/
theorem length_oidRounds_le (work : StdString) : ∀ round ∈ oidRounds work, round.length ≤ 10 := by
  fun_induction oidRounds work with
  | case1 => simp
  | case2 work hne ih =>
      intro round hround
      rcases List.mem_cons.mp hround with rfl | hrest
      · exact length_temp_le _
      · split at hrest
        · simp at hrest
        · rename_i dot hdot
          exact ih dot round hrest

theorem written_eq (oid : StdString) :
    (snmpOid oid).written =
      (if oid.take 4 = str "1.3." then [43] else []) ++ (snmpOid oid).rounds.flatMap emit := rfl

theorem written_nil : (snmpOid []).written = [] := by
  simp [snmpOid, oidRounds, show str "1.3." ≠ [] by decide]

theorem length_written (oid : StdString) :
    (snmpOid oid).written.length =
      (if oid.take 4 = str "1.3." then 1 else 0) + ((snmpOid oid).rounds.map List.length).sum := by
  rw [written_eq, List.length_append, length_flatMap_emit]
  split <;> rfl

/-- `1.3` and at least one more number. -/
theorem rounds_iso (v : UInt32) (ids : List UInt32) :
    (snmpOid (str "1.3" ++ (v :: ids).flatMap dotted)).rounds = (v :: ids).map round := by
  have hstart : (str "1.3" ++ (v :: ids).flatMap dotted).take 4 = str "1.3." := rfl
  have hdrop : (str "1.3" ++ (v :: ids).flatMap dotted).drop 4 =
      formatInt v.toInt32.toInt ++ ids.flatMap dotted := rfl
  rw [snmpOid]
  simp only [hstart, if_true, hdrop, oidRounds_ids]

theorem length_snmpOid_iso (v : UInt32) (ids : List UInt32) :
    (snmpOid (str "1.3" ++ (v :: ids).flatMap dotted)).written.length =
      1 + ((v :: ids).map groupCount).sum := by
  have hstart : (str "1.3" ++ (v :: ids).flatMap dotted).take 4 = str "1.3." := rfl
  rw [length_written, hstart, if_pos rfl, rounds_iso, sum_length_round]

theorem take_dotted_ne (v : UInt32) (ids : List UInt32) :
    ((v :: ids).flatMap dotted).take 4 ≠ str "1.3." := by
  intro h
  have hfirst := congrArg List.head? h
  simp only [List.flatMap_cons, dotted, List.cons_append, List.take_succ_cons,
    List.head?_cons] at hfirst
  exact absurd hfirst (by decide)

/-- Numbers behind a leading dot; the empty component in front of it is a zero. -/
theorem rounds_dotted (v : UInt32) (ids : List UInt32) :
    (snmpOid ((v :: ids).flatMap dotted)).rounds = [0] :: (v :: ids).map round := by
  have hnext := oidRounds_next (show ch '.' ∉ ([] : StdString) by simp)
    (formatInt v.toInt32.toInt ++ ids.flatMap dotted)
  have hzero : ∀ rest, atoll (ch '.' :: rest) = 0 := by
    intro rest
    rfl
  rw [snmpOid]
  simp only [take_dotted_ne, if_false]
  rw [List.nil_append, hzero, oidRounds_ids] at hnext
  exact hnext

theorem length_snmpOid_dotted (v : UInt32) (ids : List UInt32) :
    (snmpOid ((v :: ids).flatMap dotted)).written.length =
      1 + ((v :: ids).map groupCount).sum := by
  rw [length_written, if_neg (take_dotted_ne v ids), rounds_dotted, List.map_cons, List.sum_cons,
    sum_length_round, List.length_singleton]
  omega

theorem length_snmpOid_13 : (snmpOid (str "1.3")).written.length = 2 := by
  have hlast := oidRounds_last (show str "3" ≠ [] by decide) (show ch '.' ∉ str "3" by decide)
  have hnext := oidRounds_next (show ch '.' ∉ str "1" by decide) (str "3")
  have hrounds : (snmpOid (str "1.3")).rounds = oidRounds (str "1" ++ ch '.' :: str "3") := rfl
  have hone : (temp (UInt64.ofInt (atoll (str "1" ++ ch '.' :: str "3")))).length = 1 := by
    rw [length_temp]
    decide
  have hthree : (temp (UInt64.ofInt (atoll (str "3")))).length = 1 := by
    rw [length_temp]
    decide
  rw [length_written, hrounds, hnext, hlast, if_neg (by decide)]
  rw [List.map_cons, List.map_cons, List.map_nil, List.sum_cons, List.sum_cons, List.sum_nil, hone,
    hthree]
  rfl

/-- Below bit 31 a number has more characters, with its dot, than octets. -/
theorem groupCount_lt_printedLength {v : UInt32} (h : v < 0x80000000) :
    groupCount v < printedLength v := by
  have hdigits : (Nat.digits 128 v.toNat).length ≤ (Nat.digits 10 v.toNat).length := by
    rw [Nat.digits_length_le_iff (by decide)]
    have hten : v.toNat < 10 ^ (Nat.digits 10 v.toNat).length :=
      Nat.lt_base_pow_length_digits (by decide)
    exact Nat.lt_of_lt_of_le hten (Nat.pow_le_pow_left (by decide) _)
  rw [groupCount, printedLength, if_pos h, if_pos h]
  omega

/-- Nothing is overrun as long as no sub-identifier is printed as a negative number. -/
theorem roomy_of_lt {octets : List UInt8} (h : ∀ v ∈ dottedIds octets, v < 0x80000000) :
    Roomy octets := by
  have hsum : ∀ ids : List UInt32, (∀ v ∈ ids, v < 0x80000000) →
      ids.length + (ids.map groupCount).sum ≤ (ids.map printedLength).sum := by
    intro ids hids
    induction ids with
    | nil => exact Nat.le_refl 0
    | cons v ids ih =>
        have hv := groupCount_lt_printedLength (hids v (by simp))
        have hrest := ih (fun w hw => hids w (by simp [hw]))
        rw [List.map_cons, List.map_cons, List.sum_cons, List.sum_cons, List.length_cons]
        omega
  rw [Roomy]
  by_cases hnil : dottedIds octets = []
  · exact Or.inl hnil
  · have hpos := List.length_pos_of_ne_nil hnil
    have hle := hsum _ h
    exact Or.inr (by omega)

/-- The octets that an accepted OID is encoded to are at most the characters of its text exactly
when the text is long enough. -/
theorem AcceptedOid.length_written_le_iff (o : AcceptedOid) :
    (snmpOid o.text).written.length ≤ o.text.length ↔ Roomy o.octets := by
  rw [o.text_eq, Roomy]
  by_cases hiso : isIso o.octets
  · rw [if_pos hiso, if_pos hiso]
    cases hids : dottedIds o.octets with
    | nil =>
        rw [List.flatMap_nil, List.append_nil, length_snmpOid_13]
        simp [str]
    | cons v ids =>
        rw [length_snmpOid_iso, List.length_append, length_flatMap_dotted]
        simp [str]
  · rw [if_neg hiso, if_neg hiso, List.nil_append, Nat.zero_add]
    cases hids : dottedIds o.octets with
    | nil =>
        rw [List.flatMap_nil, written_nil]
        simp
    | cons v ids =>
        rw [length_snmpOid_dotted, length_flatMap_dotted]
        simp

/-- An accepted OID is encoded again inside its buffers exactly when its text is long
enough for its octets. -/
theorem AcceptedOid.staysInside_iff (o : AcceptedOid) : o.StaysInside ↔ Roomy o.octets := by
  rw [← o.length_written_le_iff]
  constructor
  · intro h
    exact h.1
  · intro h
    exact ⟨h, length_oidRounds_le _⟩

/-- `1.3` and a sub-identifier with all 32 bits set, printed as -1. -/
def minusOneOid : AcceptedOid where
  octets := [0x2b, 0x8f, 0xff, 0xff, 0xff, 0x7f]
  text := str "1.3.-1"
  accepted := by decide

/-- Eleven octets are written to six bytes. -/
theorem not_staysInside_minusOneOid : ¬ minusOneOid.StaysInside := by
  have htext : minusOneOid.text = str "1.3" ++ [0xffffffff].flatMap dotted := by decide
  have hwritten : (snmpOid minusOneOid.text).written.length = 11 := by
    rw [htext, length_snmpOid_iso]
    decide
  have hsize : (snmpOid minusOneOid.text).newSize = 6 := rfl
  intro h
  have hle := h.1
  rw [hwritten, hsize] at hle
  exact absurd hle (by decide)

end HamRouter.Snmp
