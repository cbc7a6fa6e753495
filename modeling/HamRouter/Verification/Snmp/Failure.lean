import HamRouter.Model.SnmpFailure
import HamRouter.Verification.Snmp.Bounds

/-! # Which failures drop a datagram

Outside the variable bindings the scan rejects exactly what holds an element that fails. What
is inside a variable binding it passes over. -/

namespace HamRouter.Snmp

open TracedRead

/-! ## Verdicts -/

theorem Verdict.andThen_eq_accepted {verdict next : Verdict} :
    verdict.andThen next = .accepted ↔ verdict = .accepted ∧ next = .accepted := by
  cases verdict <;> simp [Verdict.andThen]

theorem Verdict.andThen_eq_rejected {verdict next : Verdict} :
    verdict.andThen next = .rejected ↔
      verdict = .rejected ∨ verdict = .accepted ∧ next = .rejected := by
  cases verdict <;> simp [Verdict.andThen]

theorem Verdict.of_regardless {verdict next : Verdict} {result : Verdict}
    (h : verdict.regardless next = result) (hresult : result = .accepted ∨ result = .rejected) :
    next = result := by
  cases verdict with
  | accepted => exact h
  | rejected => exact h
  | short => rcases hresult with rfl | rfl <;> simp [Verdict.regardless] at h
  | unfinished => rcases hresult with rfl | rfl <;> simp [Verdict.regardless] at h

/-! ## Steps of the scans -/

/-- The content of an element. -/
def contentScan (fuel : ℕ) (isTop : ℤ) (type : UInt8) (content : List UInt8) : Verdict :=
  if type = 0x02 ∨ type = 0x04 ∨ type = 0x05 then .accepted
  else if type = 0x06 then if getOid content = none then .rejected else .accepted
  else if type = 0x30 then berScan fuel content.length (isTop - 1) content
  else if isPdu type then pduScan fuel content.length content
  else .rejected

variable (fuel : ℕ) (isTop : ℤ) (firstInteger : Bool) (type : UInt8) {length : UInt8}
  {rest : List UInt8}

theorem elementScan_out (h : rest.length < length.toNat) :
    elementScan (fuel + 1) (type :: length :: rest).length isTop firstInteger
      (type :: length :: rest) = .rejected := by
  rw [elementScan, if_neg (by simp), headerScan]
  simp only [List.length_cons]
  rw [if_pos (by omega)]

/-- An element that is all there is scanned before what is behind it. -/
theorem elementScan_cons (h : length.toNat ≤ rest.length) :
    ∃ firstInteger', elementScan (fuel + 1) (type :: length :: rest).length isTop firstInteger
        (type :: length :: rest) =
      (contentScan fuel isTop type (rest.take length.toNat)).andThen
        (elementScan fuel (rest.drop length.toNat).length isTop firstInteger'
          (rest.drop length.toNat)) := by
  have htake : (rest.take length.toNat).length = length.toNat :=
    List.length_take_of_le h
  have hleft : rest.length + 1 + 1 - (2 + length.toNat) = (rest.drop length.toNat).length := by
    rw [List.length_drop]
    omega
  have hpresent : ¬ rest.length < length.toNat := Nat.not_lt.mpr h
  rw [elementScan, if_neg (by simp), headerScan]
  simp only [List.length_cons, hleft, contentScan, htake, hpresent, if_false]
  rw [if_neg (by omega)]
  by_cases hinteger : type = 0x02
  · refine ⟨false, ?_⟩
    rw [if_pos hinteger, if_pos (Or.inl hinteger)]
    split <;> rfl
  · refine ⟨firstInteger, ?_⟩
    rw [if_neg hinteger]
    by_cases hstring : type = 0x04
    · rw [if_pos hstring, if_pos (Or.inr (Or.inl hstring))]
      rfl
    · rw [if_neg hstring]
      by_cases hnull : type = 0x05
      · rw [if_pos hnull, if_pos (Or.inr (Or.inr hnull))]
        rfl
      · have hplain : ¬ (type = 0x02 ∨ type = 0x04 ∨ type = 0x05) := by
          simp [hinteger, hstring, hnull]
        rw [if_neg hnull, if_neg hplain]
        by_cases hoid : type = 0x06
        · rw [if_pos hoid, if_pos hoid]
          simp only [Option.isNone_iff_eq_none]
          split <;> rfl
        · rw [if_neg hoid, if_neg hoid]
          by_cases hsequence : type = 0x30
          · rw [if_pos hsequence, if_pos hsequence]
          · rw [if_neg hsequence, if_neg hsequence]
            by_cases hpdu : isPdu type
            · rw [if_pos hpdu]
              exact if_pos hpdu
            · rw [if_neg hpdu]
              exact if_neg hpdu

theorem contentScan_pdu (htype : isPdu type) (content : List UInt8) :
    contentScan fuel isTop type content = pduScan fuel content.length content := by
  have hother : ¬ (type = 0x02 ∨ type = 0x04 ∨ type = 0x05) ∧ type ≠ 0x06 ∧ type ≠ 0x30 := by
    rcases htype with rfl | rfl | rfl <;> decide
  rw [contentScan, if_neg hother.1, if_neg hother.2.1, if_neg hother.2.2, if_pos htype]

theorem varbindScan_cons {announced : ℕ} (hpos : announced ≠ 0) :
    varbindScan (fuel + 1) announced (type :: length :: rest) =
      if announced < 2 + length.toNat then .rejected
      else if type = 0x30 then
        (berScan fuel length.toNat 0 (rest.take length.toNat)).regardless
          (varbindScan fuel (announced - (2 + length.toNat)) (rest.drop length.toNat))
      else .rejected := by
  rw [varbindScan, if_neg hpos]
  rfl

/-- The rest of a PDU. -/
def partsScan (fuel : ℕ) : ℕ → List UInt8 → Verdict
  | 0 => listScan (varbindScan fuel)
  | n + 1 => integerScan (partsScan fuel n)

theorem pduScan_succ (bytes : List UInt8) :
    pduScan (fuel + 1) bytes.length bytes =
      if bytes.length < 2 then .rejected else partsScan fuel 3 bytes := by
  rw [pduScan]
  rfl

/-! ## What fails is not accepted -/

/-- The scan of a place accepts. -/
def Place.Accepts : Place → List UInt8 → Prop
  | .sequence, bytes => ∃ fuel isTop, berScan fuel bytes.length isTop bytes = .accepted
  | .elements, bytes =>
      ∃ fuel isTop firstInteger,
        elementScan fuel bytes.length isTop firstInteger bytes = .accepted
  | .parts n, bytes => ∃ fuel, partsScan fuel n bytes = .accepted
  | .varbinds announced, bytes => ∃ fuel, varbindScan fuel announced bytes = .accepted

variable {type}

/-- An accepted element is all there, its content is accepted and so is what is behind it. -/
theorem accepts_elements_cons (h : Place.Accepts .elements (type :: length :: rest)) :
    length.toNat ≤ rest.length ∧
      (∃ fuel isTop, contentScan fuel isTop type (rest.take length.toNat) = .accepted) ∧
      Place.Accepts .elements (rest.drop length.toNat) := by
  obtain ⟨fuel, isTop, firstInteger, haccepted⟩ := h
  cases fuel with
  | zero => exact absurd haccepted (by simp [elementScan])
  | succ fuel =>
      by_cases hin : length.toNat ≤ rest.length
      · obtain ⟨firstInteger', hcons⟩ := elementScan_cons fuel isTop firstInteger type hin
        rw [hcons, Verdict.andThen_eq_accepted] at haccepted
        exact ⟨hin, ⟨fuel, isTop, haccepted.1⟩, ⟨fuel, isTop, firstInteger', haccepted.2⟩⟩
      · rw [elementScan_out _ _ _ _ (Nat.lt_of_not_le hin)] at haccepted
        exact absurd haccepted (by decide)

theorem accepts_varbinds_cons {announced : ℕ} (hpos : announced ≠ 0)
    (h : Place.Accepts (.varbinds announced) (type :: length :: rest)) :
    2 + length.toNat ≤ announced ∧ type = 0x30 ∧
      Place.Accepts (.varbinds (announced - (2 + length.toNat))) (rest.drop length.toNat) := by
  obtain ⟨fuel, haccepted⟩ := h
  cases fuel with
  | zero => exact absurd haccepted (by simp [varbindScan])
  | succ fuel =>
      rw [varbindScan_cons _ _ hpos] at haccepted
      split at haccepted
      · exact absurd haccepted (by decide)
      · rename_i hin
        split at haccepted
        · rename_i htype
          exact ⟨Nat.le_of_not_lt hin, htype, fuel,
            Verdict.of_regardless haccepted (Or.inl rfl)⟩
        · exact absurd haccepted (by decide)

theorem headerScan_of_length {next : UInt8 → UInt8 → List UInt8 → Verdict} {bytes : List UInt8}
    (h : bytes.length < 2) : headerScan next bytes = .short := by
  match bytes with
  | [] => rfl
  | [_] => rfl
  | _ :: _ :: _ => exact absurd h (by simp)

theorem partsScan_ne_of_length {n : ℕ} {bytes : List UInt8} (h : bytes.length < 2) :
    partsScan fuel n bytes ≠ .accepted := by
  cases n with
  | zero =>
      match bytes with
      | [] => simp [partsScan, listScan]
      | [_] =>
          rw [partsScan, listScan]
          split <;> simp [lengthScan]
      | _ :: _ :: _ => exact absurd h (by simp)
  | succ n =>
      rw [partsScan, integerScan, headerScan_of_length h]
      decide

theorem partsScan_succ {n : ℕ} (hin : length.toNat ≤ rest.length) :
    partsScan fuel (n + 1) (0x02 :: length :: rest) =
      partsScan fuel n (rest.drop length.toNat) := by
  rw [partsScan, integerScan, headerScan, if_neg (by decide), if_neg (Nat.not_lt.mpr hin)]

/-- What fails outside the variable bindings is not accepted. -/
theorem not_accepts_of_fails {place : Place} {bytes : List UInt8} (h : Fails false place bytes) :
    ¬ place.Accepts bytes := by
  induction h with
  | small h =>
      rintro ⟨fuel, isTop, haccepted⟩
      cases fuel with
      | zero => simp [berScan] at haccepted
      | succ fuel => simp [berScan, h] at haccepted
  | sequence _ ih =>
      rintro ⟨fuel, isTop, haccepted⟩
      cases fuel with
      | zero => simp [berScan] at haccepted
      | succ fuel =>
          rw [berScan] at haccepted
          split at haccepted
          · exact absurd haccepted (by decide)
          · exact ih ⟨fuel, isTop, true, haccepted⟩
  | unknown h =>
      intro haccepts
      obtain ⟨_, ⟨fuel, isTop, hcontent⟩, _⟩ := accepts_elements_cons haccepts
      simp only [isKnown, not_or] at h
      simp [contentScan, h] at hcontent
  | outOfSequence h =>
      intro haccepts
      exact Nat.not_le.mpr h (accepts_elements_cons haccepts).1
  | oid _ h =>
      intro haccepts
      obtain ⟨_, ⟨fuel, isTop, hcontent⟩, _⟩ := accepts_elements_cons haccepts
      simp [contentScan, h] at hcontent
  | nested _ _ ih =>
      intro haccepts
      obtain ⟨_, ⟨fuel, isTop, hcontent⟩, _⟩ := accepts_elements_cons haccepts
      exact ih ⟨fuel, isTop - 1, by simpa [contentScan] using hcontent⟩
  | pdu htype _ _ ih =>
      intro haccepts
      obtain ⟨_, ⟨fuel, isTop, hcontent⟩, _⟩ := accepts_elements_cons haccepts
      rw [contentScan_pdu _ _ _ htype] at hcontent
      cases fuel with
      | zero => simp [pduScan] at hcontent
      | succ fuel =>
          rw [pduScan_succ] at hcontent
          split at hcontent
          · exact absurd hcontent (by decide)
          · exact ih ⟨fuel, hcontent⟩
  | later _ _ ih =>
      intro haccepts
      exact ih (accepts_elements_cons haccepts).2.2
  | noPart h =>
      rintro ⟨fuel, haccepted⟩
      exact partsScan_ne_of_length fuel h haccepted
  | outOfPdu hall => exact absurd hall Bool.false_ne_true
  | notInteger h =>
      rintro ⟨fuel, haccepted⟩
      simp [partsScan, integerScan, headerScan, h] at haccepted
  | laterPart hin _ ih =>
      rintro ⟨fuel, haccepted⟩
      rw [partsScan_succ fuel hin] at haccepted
      exact ih ⟨fuel, haccepted⟩
  | notList h =>
      rintro ⟨fuel, haccepted⟩
      simp [partsScan, listScan, h] at haccepted
  | list _ ih =>
      rintro ⟨fuel, haccepted⟩
      exact ih ⟨fuel, haccepted⟩
  | noVarbind hpos h =>
      rintro ⟨fuel, haccepted⟩
      cases fuel with
      | zero => simp [varbindScan] at haccepted
      | succ fuel =>
          rw [varbindScan, if_neg hpos, headerScan_of_length h] at haccepted
          exact absurd haccepted (by decide)
  | outOfList hpos h =>
      intro haccepts
      exact Nat.not_le.mpr h (accepts_varbinds_cons hpos haccepts).1
  | notVarbind hpos h =>
      intro haccepts
      exact h (accepts_varbinds_cons hpos haccepts).2.1
  | varbind hall => exact absurd hall Bool.false_ne_true
  | laterVarbind hin _ ih =>
      intro haccepts
      exact ih (accepts_varbinds_cons (by omega) haccepts).2.2

/-! ## What is rejected fails -/

/-- The scans of some fuel reject only what fails outside the variable bindings. -/
structure RejectAt (fuel : ℕ) : Prop where
  sequence : ∀ isTop content, berScan fuel content.length isTop content = .rejected →
    Fails false .sequence content
  elements : ∀ isTop firstInteger bytes,
    elementScan fuel bytes.length isTop firstInteger bytes = .rejected → Fails false .elements bytes
  pdu : ∀ content, pduScan fuel content.length content = .rejected → Fails false (.parts 3) content
  varbinds : ∀ announced bytes, varbindScan fuel announced bytes = .rejected →
    Fails false (.varbinds announced) bytes

theorem RejectAt.content {fuel : ℕ} (ih : RejectAt fuel) (isTop : ℤ)
    (hin : length.toNat ≤ rest.length)
    (h : contentScan fuel isTop type (rest.take length.toNat) = .rejected) :
    Fails false .elements (type :: length :: rest) := by
  unfold contentScan at h
  split at h
  · exact absurd h (by decide)
  · split at h
    · rename_i htype
      subst htype
      split at h
      · rename_i hoid
        exact .oid hin hoid
      · exact absurd h (by decide)
    · split at h
      · rename_i htype
        subst htype
        exact .nested hin (ih.sequence _ _ h)
      · split at h
        · rename_i htype
          exact .pdu htype hin (ih.pdu _ h)
        · rename_i hplain hoid hsequence hpdu
          apply Fails.unknown
          rintro (hknown | hknown | hknown | hknown | hknown | hknown) <;> tauto

theorem RejectAt.succ_elements {fuel : ℕ} (ih : RejectAt fuel) (isTop : ℤ) (firstInteger : Bool)
    (bytes : List UInt8)
    (h : elementScan (fuel + 1) bytes.length isTop firstInteger bytes = .rejected) :
    Fails false .elements bytes := by
  match bytes, h with
  | [], h => simp [elementScan] at h
  | [_], h => simp [elementScan] at h
  | type :: length :: rest, h =>
      by_cases hin : length.toNat ≤ rest.length
      · obtain ⟨firstInteger', hcons⟩ := elementScan_cons fuel isTop firstInteger type hin
        rw [hcons, Verdict.andThen_eq_rejected] at h
        rcases h with hcontent | ⟨_, hrest⟩
        · exact ih.content isTop hin hcontent
        · exact .later hin (ih.elements _ _ _ hrest)
      · exact .outOfSequence (Nat.lt_of_not_le hin)

theorem RejectAt.parts {fuel : ℕ} (ih : RejectAt fuel) (n : ℕ) (bytes : List UInt8)
    (h : partsScan fuel n bytes = .rejected) : Fails false (.parts n) bytes := by
  induction n generalizing bytes with
  | zero =>
      match bytes, h with
      | [], _ => exact .noPart (by simp)
      | [_], _ => exact .noPart (by simp)
      | type :: length :: rest, h =>
          by_cases htype : type = 0x30
          · subst htype
            exact .list (ih.varbinds _ _ h)
          · exact .notList htype
  | succ n ihn =>
      match bytes, h with
      | [], _ => exact .noPart (by simp)
      | [_], _ => exact .noPart (by simp)
      | type :: length :: rest, h =>
          by_cases htype : type = 0x02
          · subst htype
            by_cases hin : length.toNat ≤ rest.length
            · rw [partsScan_succ fuel hin] at h
              exact .laterPart hin (ihn _ h)
            · simp [partsScan, integerScan, headerScan, Nat.lt_of_not_le hin] at h
          · exact .notInteger htype

theorem RejectAt.succ_pdu {fuel : ℕ} (ih : RejectAt fuel) (content : List UInt8)
    (h : pduScan (fuel + 1) content.length content = .rejected) :
    Fails false (.parts 3) content := by
  rw [pduScan_succ] at h
  split at h
  · rename_i hsmall
    exact .noPart hsmall
  · exact ih.parts 3 content h

theorem RejectAt.succ_varbinds {fuel : ℕ} (ih : RejectAt fuel) (announced : ℕ)
    (bytes : List UInt8) (h : varbindScan (fuel + 1) announced bytes = .rejected) :
    Fails false (.varbinds announced) bytes := by
  by_cases hpos : announced = 0
  · simp [varbindScan, hpos] at h
  · rcases bytes with _ | ⟨type, _ | ⟨length, rest⟩⟩
    · exact .noVarbind hpos (by simp)
    · exact .noVarbind hpos (by simp)
    · rw [varbindScan_cons _ _ hpos] at h
      split at h
      · rename_i hout
        exact .outOfList hpos hout
      · rename_i hin
        split at h
        · exact .laterVarbind (Nat.le_of_not_lt hin)
            (ih.varbinds _ _ (Verdict.of_regardless h (Or.inr rfl)))
        · rename_i htype
          exact .notVarbind hpos htype

theorem RejectAt.succ_sequence {fuel : ℕ} (ih : RejectAt fuel) (isTop : ℤ) (content : List UInt8)
    (h : berScan (fuel + 1) content.length isTop content = .rejected) :
    Fails false .sequence content := by
  rw [berScan] at h
  split at h
  · rename_i hsmall
    exact .small hsmall
  · exact .sequence (ih.elements _ _ _ h)

theorem rejectAt (fuel : ℕ) : RejectAt fuel := by
  induction fuel with
  | zero =>
      refine ⟨?_, ?_, ?_, ?_⟩
      · intro isTop content h
        simp [berScan] at h
      · intro isTop firstInteger bytes h
        simp [elementScan] at h
      · intro content h
        simp [pduScan] at h
      · intro announced bytes h
        simp [varbindScan] at h
  | succ fuel ih => exact ⟨ih.succ_sequence, ih.succ_elements, ih.succ_pdu, ih.succ_varbinds⟩

/-! ## Datagrams -/

/-- The scan of a datagram rejects exactly what fails outside the variable bindings. -/
theorem rejected_iff {bytes : List UInt8} (h : datagramScan bytes ≠ .short) :
    datagramScan bytes = .rejected ↔ FailsOutside bytes := by
  have hfinished : datagramScan bytes ≠ .unfinished :=
    (finishAt _).ber _ _ _ (Nat.lt_succ_self _)
  constructor
  · exact (rejectAt _).sequence _ _
  · intro hfails
    cases hverdict : datagramScan bytes with
    | accepted => exact absurd ⟨_, _, hverdict⟩ (not_accepts_of_fails hfails)
    | rejected => rfl
    | short => exact absurd hverdict h
    | unfinished => exact absurd hverdict hfinished

theorem dropped_iff {bytes : List UInt8} (h : datagramScan bytes ≠ .short) :
    Dropped bytes ↔ FailsOutside bytes := by
  rw [← rejected_iff h]
  constructor
  · intro hdropped
    obtain ⟨⟨req, hval⟩, _⟩ := hdropped (fun _ => 0) (fun _ => []) (fun _ => none)
    have hresult := (agrees_datagram ⟨bytes, fun _ => 0⟩ (fun _ => [])).result h
    rw [hval] at hresult
    cases hverdict : datagramScan bytes <;> rw [hverdict] at hresult <;>
      simp [Verdict.result] at hresult
  · intro hrejected beyond findNextOid findByOid
    have hresult := (agrees_datagram ⟨bytes, beyond⟩ findNextOid).result h
    rw [hrejected] at hresult
    obtain ⟨⟨ok, req⟩, hval, rfl⟩ := Option.map_eq_some_iff.mp hresult
    refine ⟨⟨req, hval⟩, ?_⟩
    rw [input, hval]
    simp

/-- An element that fails makes a datagram be dropped, if no byte of a PDU is missing and then
some element outside the variable bindings fails too, other than by running out of its PDU.
Where no byte is missing this is also necessary. -/
theorem dropped_of_someFails (bytes : List UInt8) :
    (datagramScan bytes ≠ .short ∧ (SomeFails bytes → FailsOutside bytes) →
        (SomeFails bytes → Dropped bytes)) ∧
      (datagramScan bytes ≠ .short → (SomeFails bytes → Dropped bytes) →
        (SomeFails bytes → FailsOutside bytes)) := by
  constructor
  · rintro ⟨hshort, hcondition⟩ hfails
    exact (dropped_iff hshort).mpr (hcondition hfails)
  · intro hshort hproperty hfails
    exact (dropped_iff hshort).mp (hproperty hfails)

/-- A GetRequest whose variable binding holds an element of the unknown type 0xff. -/
def unknownInVarbind : List UInt8 :=
  [0x30, 0x1c, 0x02, 0x01, 0x00, 0x04, 0x06, 0x70, 0x75, 0x62, 0x6c, 0x69, 0x63,
    0xa0, 0x0f, 0x02, 0x01, 0x01, 0x02, 0x01, 0x00, 0x02, 0x01, 0x00,
    0x30, 0x04, 0x30, 0x02, 0xff, 0x00]

theorem someFails_unknownInVarbind : SomeFails unknownInVarbind := by
  have hvarbind : Fails true .sequence [0xff, 0x00] := .sequence (.unknown (by decide))
  have hlist : Fails true (.varbinds 4) [0x30, 0x02, 0xff, 0x00] :=
    .varbind rfl (by decide) hvarbind
  have hparts : Fails true (.parts 3) [0x02, 0x01, 0x01, 0x02, 0x01, 0x00, 0x02, 0x01, 0x00,
      0x30, 0x04, 0x30, 0x02, 0xff, 0x00] :=
    .laterPart (by decide) (.laterPart (by decide) (.laterPart (by decide) (.list hlist)))
  have hpdu : Fails true .elements [0xa0, 0x0f, 0x02, 0x01, 0x01, 0x02, 0x01, 0x00, 0x02, 0x01,
      0x00, 0x30, 0x04, 0x30, 0x02, 0xff, 0x00] := .pdu (by decide) (by decide) hparts
  exact .sequence (.nested (by decide) (.sequence (.later (by decide) (.later (by decide) hpdu))))

/-- It is answered. -/
theorem not_dropped_unknownInVarbind : ¬ ∀ bytes, SomeFails bytes → Dropped bytes := by
  intro h
  have hdropped := h unknownInVarbind someFails_unknownInVarbind
  have hrejected := (rejected_iff (by decide)).mpr ((dropped_iff (by decide)).mp hdropped)
  exact absurd hrejected (by decide)

end HamRouter.Snmp
