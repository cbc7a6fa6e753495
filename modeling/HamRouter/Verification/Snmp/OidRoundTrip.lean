import HamRouter.Library.Base128
import HamRouter.Verification.Snmp.Oid
import HamRouter.Verification.Snmp.Request

/-! # OIDs between their text and their octets -/

namespace HamRouter.Snmp

/-! ## From the text -/

theorem groups_eq (w : UInt64) : groups w = (Nat.digits 128 w.toNat).map UInt8.ofNat := by
  fun_induction groups w with
  | case1 => rfl
  | case2 w hne ih =>
      have hzero : w.toNat ≠ 0 := fun h => hne (UInt64.toNat_inj.mp h)
      have hshift : (w >>> 7).toNat = w.toNat / 128 := by
        simp [UInt64.toNat_shiftRight, Nat.shiftRight_eq_div_pow]
      have hlow : (w &&& 127).toUInt8 = UInt8.ofNat (w.toNat % 128) := by
        apply UInt8.toNat_inj.mp
        have hmask : w.toNat &&& 127 = w.toNat % 128 := Nat.and_two_pow_sub_one_eq_mod _ 7
        rw [UInt64.toNat_toUInt8, UInt64.toNat_and, UInt8.toNat_ofNat']
        exact congrArg (· % 2 ^ 8) hmask
      rw [Base128.digits_eq_cons hzero, List.map_cons, ih, hlow, hshift]

/-- What is put out for a number is its encoding. -/
theorem emit_temp (w : UInt64) : emit (temp w) = Base128.encode w.toNat := by
  unfold temp
  split
  · rename_i hzero
    rw [hzero]
    rfl
  · rename_i hne
    have hzero : w.toNat ≠ 0 := fun h => hne (UInt64.toNat_inj.mp h)
    rw [groups_eq, Base128.digits_eq_cons hzero, List.map_cons, emit, Base128.encode,
      ← List.map_reverse, List.map_map]
    congr 1
    apply List.map_congr_left
    intro d hd
    exact Base128.ofNat_or_128 (Nat.digits_lt_base (by decide) (List.mem_reverse.mp hd))

theorem emit_round {v : UInt32} (h : v < 0x80000000) :
    emit (round v) = Base128.encode v.toNat := by
  have hlt := v.toNat_lt
  have hvalue : (UInt64.ofInt v.toInt32.toInt).toNat = v.toNat := by
    rw [toInt_of_lt h, UInt64.ofInt, UInt64.toNat_ofNat']
    omega
  rw [round, emit_temp, hvalue]

/-! ## From the octets -/

theorem subIdentifiers_high (v : UInt32) {d : ℕ} (h : d < 128) (rest : List UInt8) :
    subIdentifiers v (Base128.high d :: rest) =
      subIdentifiers ((v <<< 7) ||| UInt32.ofNat d) rest := by
  have hbyte : (UInt8.ofNat d).toUInt32 = UInt32.ofNat d := by
    apply UInt32.toNat_inj.mp
    rw [UInt8.toNat_toUInt32, UInt8.toNat_ofNat', UInt32.toNat_ofNat']
    omega
  rw [subIdentifiers, if_neg (Base128.high_ge h), Base128.high_and_127 h, hbyte]

/-- A group goes below what was read, modulo 2^32. -/
theorem append_group (a : ℕ) {d : ℕ} (h : d < 128) :
    (UInt32.ofNat a <<< 7) ||| UInt32.ofNat d = UInt32.ofNat (a * 128 + d) := by
  have hshift : UInt32.ofNat a <<< 7 = UInt32.ofNat (a <<< 7) :=
    (UInt32.ofNat_shiftLeft a 7 (by decide)).symm
  rw [hshift, ← UInt32.ofNat_or, ← Nat.shiftLeft_add_eq_or_of_lt h, Nat.shiftLeft_eq]

theorem subIdentifiers_groups (a : ℕ) (ds : List ℕ) (h : ∀ d ∈ ds, d < 128) (rest : List UInt8) :
    subIdentifiers (UInt32.ofNat a) (ds.map Base128.high ++ rest) =
      subIdentifiers (UInt32.ofNat (ds.foldl (fun a d => a * 128 + d) a)) rest := by
  induction ds generalizing a with
  | nil => rfl
  | cons d ds ih =>
      have hd := h d (by simp)
      rw [List.map_cons, List.cons_append, subIdentifiers_high _ hd, append_group a hd,
        ih _ (fun e he => h e (by simp [he])), List.foldl_cons]

theorem subIdentifiers_encode (n : ℕ) (rest : List UInt8) :
    subIdentifiers 0 (Base128.encode n ++ rest) =
      (UInt32.ofNat n :: (subIdentifiers 0 rest).1, (subIdentifiers 0 rest).2) := by
  have hlow : n % 128 < 128 := Nat.mod_lt n (by decide)
  have hlast : UInt8.ofNat (n % 128) < 128 := by
    rw [UInt8.lt_iff_toNat_lt, UInt8.toNat_ofNat']
    exact Nat.lt_of_le_of_lt (Nat.mod_le _ _) hlow
  have hbyte : (UInt8.ofNat (n % 128)).toUInt32 = UInt32.ofNat (n % 128) := by
    apply UInt32.toNat_inj.mp
    rw [UInt8.toNat_toUInt32, UInt8.toNat_ofNat', UInt32.toNat_ofNat']
    omega
  have hdigits : ∀ d ∈ (Nat.digits 128 (n / 128)).reverse, d < 128 := by
    intro d hd
    exact Nat.digits_lt_base (by decide) (List.mem_reverse.mp hd)
  have hopen := subIdentifiers_groups 0 _ hdigits ([UInt8.ofNat (n % 128)] ++ rest)
  rw [Base128.foldl_digits] at hopen
  rw [Base128.encode, List.append_assoc]
  refine hopen.trans ?_
  rw [List.singleton_append, subIdentifiers, if_pos hlast, hbyte, append_group _ hlow,
    Nat.mul_comm, Nat.div_add_mod]

theorem subIdentifiers_flatMap_encode (ids : List ℕ) :
    subIdentifiers 0 (ids.flatMap Base128.encode) = (ids.map UInt32.ofNat, 0) := by
  induction ids with
  | nil => rfl
  | cons n ids ih => rw [List.flatMap_cons, subIdentifiers_encode, ih, List.map_cons]

/-! ## Round trips -/

theorem ofNat_lt {a : ℕ} (h : a < 2 ^ 31) : UInt32.ofNat a < 0x80000000 := by
  rw [UInt32.lt_iff_toNat_lt, UInt32.toNat_ofNat']
  exact Nat.lt_of_le_of_lt (Nat.mod_le _ _) h

theorem toNat_ofNat {a : ℕ} (h : a < 2 ^ 31) : (UInt32.ofNat a).toNat = a := by
  rw [UInt32.toNat_ofNat']
  omega

theorem dotted_ofNat {a : ℕ} (h : a < 2 ^ 31) : dotted (UInt32.ofNat a) = ch '.' :: decimal a := by
  rw [dotted, toInt_of_lt (ofNat_lt h), toNat_ofNat h, formatInt, if_neg (by omega),
    Int.natAbs_natCast]

theorem isoText_eq {ids : List ℕ} (h : ∀ a ∈ ids, a < 2 ^ 31) :
    isoText ids = str "1.3" ++ (ids.map UInt32.ofNat).flatMap dotted := by
  rw [isoText, List.flatMap_map]
  congr 1
  apply List.flatMap_congr
  intro a ha
  exact (dotted_ofNat (h a ha)).symm

theorem flatMap_emit_round {ids : List ℕ} (h : ∀ a ∈ ids, a < 2 ^ 31) :
    ((ids.map UInt32.ofNat).map round).flatMap emit = ids.flatMap Base128.encode := by
  rw [List.map_map, List.flatMap_map]
  apply List.flatMap_congr
  intro a ha
  exact (emit_round (ofNat_lt (h a ha))).trans (congrArg _ (toNat_ofNat (h a ha)))

theorem written_isoText {ids : List ℕ} (hne : ids ≠ []) (h : ∀ a ∈ ids, a < 2 ^ 31) :
    (snmpOid (isoText ids)).written = 43 :: ids.flatMap Base128.encode := by
  cases ids with
  | nil => exact absurd rfl hne
  | cons a ids =>
      have hrounds := rounds_iso (UInt32.ofNat a) (ids.map UInt32.ofNat)
      have hstart : (str "1.3" ++ ((a :: ids).map UInt32.ofNat).flatMap dotted).take 4 =
          str "1.3." := rfl
      rw [← List.map_cons] at hrounds
      rw [isoText_eq h, ← flatMap_emit_round h, written_eq, hrounds, hstart, if_pos rfl,
        List.singleton_append]

theorem getOid_encoded {ids : List ℕ} (h : ∀ a ∈ ids, a < 2 ^ 31) :
    getOid (43 :: ids.flatMap Base128.encode) = some (isoText ids) := by
  have hiso : isIso (43 :: ids.flatMap Base128.encode) := rfl
  rw [getOid_iso hiso, dottedIds, if_pos hiso, List.tail_cons, subIdentifiers_flatMap_encode,
    if_pos rfl, isoText_eq h]

/-- Numbers below 2^31 behind `1.3` are encoded as 43 and their groups, inside the buffer,
and the octets are read back as the same text. -/
theorem snmpOid_isoText (ids : List ℕ) (hne : ids ≠ []) (h : ∀ a ∈ ids, a < 2 ^ 31) :
    (snmpOid (isoText ids)).written = 43 :: ids.flatMap Base128.encode ∧
      (snmpOid (isoText ids)).written.length ≤ (snmpOid (isoText ids)).newSize ∧
      getOid (snmpOid (isoText ids)).written = some (isoText ids) := by
  have hwritten := written_isoText hne h
  have haccepted := getOid_encoded h
  let o : AcceptedOid := ⟨_, _, haccepted⟩
  have hroomy : Roomy o.octets := by
    apply roomy_of_lt
    intro v hv
    have hids : dottedIds o.octets = ids.map UInt32.ofNat := by
      have hiso : isIso o.octets := rfl
      rw [dottedIds, if_pos hiso]
      exact congrArg Prod.fst (subIdentifiers_flatMap_encode ids)
    rw [hids] at hv
    obtain ⟨a, ha, rfl⟩ := List.mem_map.mp hv
    exact ofNat_lt (h a ha)
  exact ⟨hwritten, o.length_written_le_iff.mpr hroomy, hwritten ▸ haccepted⟩

/-- Two numbers, the first with two groups. -/
theorem snmpOid_isoText_two :
    (snmpOid (isoText [128, 0])).written = [43, 0x81, 0x00, 0x00] ∧
      (snmpOid (isoText [128, 0])).written.length ≤ (snmpOid (isoText [128, 0])).newSize ∧
      getOid (snmpOid (isoText [128, 0])).written = some (isoText [128, 0]) := by
  have h := snmpOid_isoText [128, 0] (by decide) (by decide)
  have hoctets : 43 :: [128, 0].flatMap Base128.encode = [43, 0x81, 0x00, 0x00] := by
    simp [Base128.encode, Base128.high]
  rwa [hoctets] at h

/-! ## Octets that come back -/

theorem subIdentifiers_cons_of_lt {b : UInt8} (h : b < 128) (rest : List UInt8) :
    subIdentifiers 0 (b :: rest) = (b.toUInt32 :: (subIdentifiers 0 rest).1,
      (subIdentifiers 0 rest).2) := by
  rw [subIdentifiers, if_pos h]
  congr 2
  exact UInt32.zero_or

namespace MinimalOid

variable (o : MinimalOid)

/-- Behind a first octet below 128 come the encodings of small numbers. -/
theorem tail_eq {b : UInt8} {tail : List UInt8} (hb : b < 128) (h : o.octets = b :: tail) :
    ∃ ids : List ℕ, (∀ a ∈ ids, a < 2 ^ 31) ∧ tail = ids.flatMap Base128.encode := by
  have hsmall := o.small
  rcases o.minimal with hids | ⟨first, hfirst⟩
  · rw [h] at hids
    cases hcase : o.ids with
    | nil =>
        rw [hcase] at hids
        simp at hids
    | cons a ids =>
        rw [hcase, List.flatMap_cons] at hids
        rw [hcase] at hsmall
        exact ⟨ids, fun c hc => hsmall c (by simp [hc]),
          (Base128.encode_append_eq_cons hb hids.symm).symm⟩
  · rw [h] at hfirst
    exact ⟨o.ids, hsmall, (List.cons.inj hfirst).2⟩

/-- Behind 43 the octets come back when there are any. -/
theorem written_iso {tail : List UInt8} (h : o.octets = 43 :: tail) :
    (snmpOid o.text).written = o.octets ↔ tail ≠ [] := by
  obtain ⟨ids, hsmall, rfl⟩ := o.tail_eq (by decide) h
  have haccepted := o.accepted
  rw [h, getOid_encoded hsmall] at haccepted
  have htext := Option.some.inj haccepted
  rw [← htext, h]
  by_cases hids : ids = []
  · subst hids
    have hlength := length_snmpOid_13
    constructor
    · intro heq
      have htwo := congrArg List.length heq
      rw [show isoText [] = str "1.3" from rfl, hlength] at htwo
      simp at htwo
    · intro hne
      exact absurd rfl hne
  · have htail : ids.flatMap Base128.encode ≠ [] := by
      intro hnil
      obtain ⟨a, ids, rfl⟩ := List.exists_cons_of_ne_nil hids
      rw [List.flatMap_cons, List.append_eq_nil_iff] at hnil
      exact Base128.encode_ne_nil a hnil.1
    simp only [written_isoText hids hsmall, htail, ne_eq, not_false_eq_true]

/-- The text of other octets begins with a dot, and is encoded with a zero more. -/
theorem written_ne (hne : o.octets ≠ []) (h : ¬ isIso o.octets) :
    (snmpOid o.text).written ≠ o.octets := by
  intro heq
  have htext := o.text_eq
  rw [if_neg h, List.nil_append, dottedIds, if_neg h] at htext
  cases hids : (subIdentifiers 0 o.octets).1 with
  | nil =>
      rw [hids, List.flatMap_nil] at htext
      rw [htext, written_nil] at heq
      exact hne heq.symm
  | cons v vs =>
      rw [hids] at htext
      rw [htext, written_eq, if_neg (take_dotted_ne v vs), rounds_dotted, List.nil_append,
        List.flatMap_cons] at heq
      have hcons : o.octets = 0 :: ((v :: vs).map round).flatMap emit := heq.symm
      obtain ⟨ids, hsmall, htail⟩ := o.tail_eq (by decide) hcons
      have hoctets : o.octets = 0 :: ids.flatMap Base128.encode := by rw [hcons, htail]
      have hnumbers : v :: vs = 0 :: ids.map UInt32.ofNat := by
        rw [← hids, hoctets, subIdentifiers_cons_of_lt (by decide), subIdentifiers_flatMap_encode]
        rfl
      obtain ⟨rfl, rfl⟩ := List.cons.inj hnumbers
      rw [List.map_cons, List.flatMap_cons, flatMap_emit_round hsmall,
        List.append_left_eq_self, emit_round (by decide)] at htail
      exact Base128.encode_ne_nil _ htail

/-- The octets come back exactly when there are none, or 43 and at least one more. -/
theorem written_iff : (snmpOid o.text).written = o.octets ↔ Rooted o.octets := by
  cases hcase : o.octets with
  | nil =>
      have htext := o.text_eq
      rw [hcase] at htext
      have hnil : o.text = [] := htext
      simp [hnil, written_nil, Rooted]
  | cons b tail =>
      by_cases hb : b = 43
      · subst hb
        rw [← hcase, o.written_iso hcase, hcase]
        simp [Rooted]
      · have hiso : ¬ isIso o.octets := by
          rw [hcase]
          exact fun h => hb (Option.some.inj h)
        have hne := o.written_ne (by simp [hcase]) hiso
        rw [hcase] at hne
        simp [hne, Rooted, hb]

end MinimalOid

theorem varbindNames_genReply (findByOid : StdString → Option (Option Elem)) (req : OidReq) :
    varbindNames (genReply findByOid req) = req.oids.map fun e => (snmpOid e).written := by
  rw [genReply, varbindNames, List.filterMap_map]
  exact congrFun List.filterMap_eq_map _

theorem written_eq_octets_iff (os : List MinimalOid) :
    (os.map fun o => (snmpOid o.text).written) = os.map (·.octets) ↔ ∀ o ∈ os, Rooted o.octets := by
  rw [List.map_inj_left]
  exact forall₂_congr fun o _ => o.written_iff

/-- A Get request is parsed to the texts of its OIDs. -/
theorem GetRequest.oids_addOids (q : GetRequest) (findNextOid : StdString → StdString) :
    (addOids findNextOid q.getNext q.oids q.start).oids = q.names.map (·.text) := by
  have hstart : q.start.oids = [] := rfl
  have hanswered : ∀ o, q.answered findNextOid o = o.text := fun o => by
    rw [Request.answered, q.get]
    rfl
  have hexhausted : ∀ o, ¬ q.Exhausted findNextOid o := fun o h => by
    rw [Request.Exhausted, q.get] at h
    exact Bool.false_ne_true h.1
  have hall : (q.oids.filter fun o => ¬ q.Exhausted findNextOid o) = q.oids :=
    List.filter_eq_self.mpr fun o _ => by simp [hexhausted o]
  rw [q.toRequest.oids_addOids, hstart, List.nil_append, hall, List.map_congr_left fun o _ =>
    hanswered o, q.oids_eq, List.map_map]
  rfl

theorem GetRequest.namesKept_iff (q : GetRequest) :
    q.NamesKept ↔ ∀ o ∈ q.names, Rooted o.octets := by
  have hreply : ∀ findNextOid findByOid,
      varbindNames (genReply findByOid (addOids findNextOid q.getNext q.oids q.start)) =
        q.names.map fun o => (snmpOid o.text).written := by
    intro findNextOid findByOid
    rw [varbindNames_genReply, q.oids_addOids, List.map_map]
    rfl
  constructor
  · intro h
    obtain ⟨req, hparsed, hnames⟩ := h id (fun _ => none) (fun _ => 0) _ (Nat.le_refl _)
    rw [q.val_parseDatagram _ (Nat.le_refl _)] at hparsed
    obtain rfl := (Prod.mk.inj (Option.some.inj hparsed)).2
    rw [hreply] at hnames
    exact (written_eq_octets_iff q.names).mp hnames
  · intro h findNextOid findByOid beyond fuel hfuel
    refine ⟨_, q.val_parseDatagram beyond hfuel, ?_⟩
    rw [hreply]
    exact (written_eq_octets_iff q.names).mpr h

/-- The content of an OID comes back from its text exactly when it is rooted; a reply with such
OIDs, and the reply to a Get request for them, repeat their names exactly when they all are. -/
theorem reply_names_iff (o : MinimalOid) (findByOid : StdString → Option (Option Elem))
    (req : OidReq) (os : List MinimalOid) (q : GetRequest) :
    ((snmpOid o.text).written = o.octets ↔ Rooted o.octets) ∧
      (varbindNames (genReply findByOid { req with oids := os.map (·.text) }) =
          os.map (·.octets) ↔
        ∀ o ∈ os, Rooted o.octets) ∧
      (q.NamesKept ↔ ∀ o ∈ q.names, Rooted o.octets) := by
  refine ⟨o.written_iff, ?_, q.namesKept_iff⟩
  rw [varbindNames_genReply, List.map_map]
  exact written_eq_octets_iff os

/-- The octet 43 alone. -/
def isoOid : MinimalOid where
  octets := [43]
  text := str "1.3"
  accepted := by decide
  ids := []
  small := by simp
  minimal := Or.inr ⟨43, rfl⟩

/-- A name of the single octet 43 is answered with the octets 1 and 3. -/
theorem not_reply_names :
    ¬ ∀ o : MinimalOid, (snmpOid o.text).written = o.octets := by
  intro h
  obtain ⟨rest, hne, hrest⟩ := ((isoOid.written_iff).mp (h isoOid)).resolve_left (by decide)
  exact hne (List.cons.inj hrest).2.symm

end HamRouter.Snmp
