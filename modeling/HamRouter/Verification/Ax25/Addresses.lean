import HamRouter.Library.Byte
import HamRouter.Model.Ax25Frame
import HamRouter.Verification.Ax25.Equations

/-! # Addresses between their bytes and `ax25_address` -/

namespace HamRouter.Ax25

open TracedRead

/-! ## The scan of a callsign -/

theorem scanCallsign_padding (ended : Bool) (address : StdString) (n : ℕ) :
    Address.scanCallsign ended address (List.replicate n (ch ' ' <<< 1)) = (address, true) := by
  induction n generalizing ended with
  | zero => rfl
  | succ n ih =>
      rw [List.replicate_succ, Address.scanCallsign, if_neg (by decide)]
      exact ih true

/-- Shifted callsign characters come back, and the padding ends the callsign. -/
theorem scanCallsign_shifted (address text : StdString) (n : ℕ)
    (h : ∀ c ∈ text, c < 128 ∧ c ≠ 0 ∧ c ≠ 32) :
    Address.scanCallsign false address
      (text.map (fun c : UInt8 => c <<< 1) ++ List.replicate n (ch ' ' <<< 1)) =
        (address ++ text, true) := by
  induction text generalizing address with
  | nil => simpa using scanCallsign_padding false address n
  | cons c rest ih =>
      obtain ⟨hseven, hzero, hspace⟩ := h c (by simp)
      have hback : (c <<< 1) >>> 1 = c := Byte.shiftLeft_one_shiftRight_one c hseven
      rw [List.map_cons, List.cons_append, Address.scanCallsign]
      simp only [Byte.shiftLeft_one_and_one, hback, hzero, hspace, ne_eq, not_true_eq_false,
        if_false, or_false, Bool.false_eq_true]
      rw [ih (address ++ [c]) (fun d hd => h d (by simp [hd]))]
      simp

/-- The scan accepts exactly bytes with bit 0 clear. -/
theorem scanCallsign_snd (ended : Bool) (address : StdString) (bytes : List UInt8) :
    (Address.scanCallsign ended address bytes).2 = true ↔ ∀ b ∈ bytes, b &&& 1 = 0 := by
  induction bytes generalizing ended address with
  | nil => simp [Address.scanCallsign]
  | cons b rest ih =>
      rw [Address.scanCallsign, List.forall_mem_cons]
      by_cases hodd : b &&& 1 = 0
      · rw [if_neg (not_not.mpr hodd)]
        simp only [hodd, true_and]
        split
        · exact ih true address
        · exact ih false _
      · simp [hodd]

/-- What the scan collects are characters of seven bits without spaces. -/
theorem scanCallsign_clean (ended : Bool) (address : StdString) (bytes : List UInt8)
    (h : ∀ c ∈ address, c < 128 ∧ c ≠ 0 ∧ c ≠ 32) :
    ∀ c ∈ (Address.scanCallsign ended address bytes).1, c < 128 ∧ c ≠ 0 ∧ c ≠ 32 := by
  induction bytes generalizing ended address with
  | nil => exact h
  | cons b rest ih =>
      rw [Address.scanCallsign]
      split
      · exact h
      · dsimp only
        split
        · exact ih _ _ h
        · rename_i hshown
          refine ih _ _ fun c hc => ?_
          rcases List.mem_append.mp hc with hc | hc
          · exact h c hc
          · obtain rfl := List.mem_singleton.mp hc
            exact ⟨Byte.shiftRight_one_lt b, fun hzero => hshown (Or.inl hzero),
              fun hspace => hshown (Or.inr (Or.inl hspace))⟩

theorem length_scanCallsign_le (ended : Bool) (address : StdString) (bytes : List UInt8) :
    (Address.scanCallsign ended address bytes).1.length ≤ address.length + bytes.length := by
  induction bytes generalizing ended address with
  | nil => exact Nat.le_refl _
  | cons b rest ih =>
      rw [Address.scanCallsign, List.length_cons]
      split
      · exact Nat.le_add_right _ _
      · dsimp only
        split
        · have h := ih true address
          omega
        · have h := ih false (address ++ [b >>> 1])
          rw [List.length_append, List.length_singleton] at h
          omega

/-! ## From the bytes -/

theorem ofBytes_padded {text : StdString} (hshort : text.length ≤ 6)
    (hclean : ∀ c ∈ text, c < 128 ∧ c ≠ 0 ∧ c ≠ 32) (last : UInt8) :
    Address.ofBytes (text.map (fun c : UInt8 => c <<< 1) ++
        List.replicate (6 - text.length) (ch ' ' <<< 1) ++ [last]) =
      { valid := true
        address := text
        ssid := ch '0' + ((last >>> 1) &&& 0x0f)
        endMark := last &&& 1 ≠ 0
        repeated := last &&& 128 ≠ 0 } := by
  have hsix : (text.map (fun c : UInt8 => c <<< 1) ++
      List.replicate (6 - text.length) (ch ' ' <<< 1)).length = 6 := by
    simp only [List.length_append, List.length_map, List.length_replicate]
    omega
  have hlast : ((text.map (fun c : UInt8 => c <<< 1) ++
      List.replicate (6 - text.length) (ch ' ' <<< 1)) ++ [last]).getD 6 0 = last := by
    rw [List.getD_eq_getElem?_getD, List.getElem?_append_right (by omega), hsix]
    rfl
  have hseven : ¬ ((text.map (fun c : UInt8 => c <<< 1) ++
      List.replicate (6 - text.length) (ch ' ' <<< 1)) ++ [last]).length < 7 := by
    rw [List.length_append, hsix, List.length_singleton]
    decide
  rw [Address.ofBytes, if_neg hseven, List.take_left' hsix, scanCallsign_shifted _ _ _ hclean]
  simp only [hlast]
  rfl

/-- The valid flag and the end mark of seven bytes. -/
theorem valid_ofBytes {bytes : List UInt8} (h : bytes.length = 7) :
    (Address.ofBytes bytes).valid = true ↔ ∀ b ∈ bytes.take 6, b &&& 1 = 0 := by
  rw [Address.ofBytes, if_neg (by omega), ← scanCallsign_snd false []]
  split <;> rename_i hscan <;> simp [hscan]

theorem endMark_ofBytes {bytes : List UInt8} (h : bytes.length = 7) :
    (Address.ofBytes bytes).endMark = true ↔
      (∀ b ∈ bytes.take 6, b &&& 1 = 0) ∧ bytes.getD 6 0 &&& 1 ≠ 0 := by
  rw [Address.ofBytes, if_neg (by omega), ← scanCallsign_snd false []]
  split <;> rename_i hscan <;> simp [hscan]

/-- What an address made of bytes may hold. -/
structure Address.Scanned (a : Address) : Prop where
  short : a.address.length ≤ 6
  clean : ∀ c ∈ a.address, c < 128 ∧ c ≠ 0 ∧ c ≠ 32
  ssid : a.ssid &&& 64 = 0 ∧ ch '0' + (a.ssid &&& 0x0f) = a.ssid

theorem scanned_ofBytes (bytes : List UInt8) : (Address.ofBytes bytes).Scanned := by
  have hclean := scanCallsign_clean false [] (bytes.take 6) (by simp)
  have hlength := length_scanCallsign_le false [] (bytes.take 6)
  rw [List.length_take, List.length_nil, Nat.zero_add] at hlength
  rw [Address.ofBytes]
  split
  · exact ⟨by simp, by simp, by decide⟩
  · split
    · rename_i address hscan
      rw [hscan] at hclean hlength
      have hssid : ch '0' &&& 64 = 0 ∧ ch '0' + (ch '0' &&& 0x0f) = ch '0' := by decide
      exact ⟨by simp only at hlength ⊢; omega, hclean, hssid⟩
    · rename_i address hscan
      rw [hscan] at hclean hlength
      exact ⟨by simp only at hlength ⊢; omega, hclean, Byte.digit_of_nibble _⟩

/-! ## Generated again -/

theorem length_generateAddress (a : Address) : a.generateAddress.length = 7 := by
  simp only [Address.generateAddress, List.length_append, List.length_map, List.length_take,
    List.length_replicate, List.length_singleton]
  omega

/-- The decoder inverts `generate_address` up to the bits of the SSID it keeps. -/
theorem ofBytes_generateAddress (a : Address) (hshort : a.address.length ≤ 6)
    (hclean : ∀ c ∈ a.address, c < 128 ∧ c ≠ 0 ∧ c ≠ 32) (hssid : a.ssid &&& 64 = 0) :
    Address.ofBytes a.generateAddress =
      { a with valid := true, ssid := ch '0' + (a.ssid &&& 0x0f) } := by
  rw [Address.generateAddress, List.take_of_length_le hshort, Nat.min_eq_right hshort,
    ofBytes_padded hshort hclean]
  simp only [Byte.flags_middle, Byte.flags_low, Byte.flags_high _ _ _ hssid]
  cases a.endMark <;> cases a.repeated <;> rfl

/-- An address that was made of bytes is generated as it is. -/
theorem Address.Scanned.ofBytes_generateAddress_assign {a : Address} (h : a.Scanned) :
    (Address.ofBytes a.assign.generateAddress).assign = a.assign := by
  rw [ofBytes_generateAddress a.assign h.short h.clean h.ssid.1]
  simp only [Address.assign, h.ssid.2]

/-- Bytes of a padded callsign and a last byte with bits 5 and 6 set are generated again. -/
theorem generateAddress_padded {text : StdString} (hshort : text.length ≤ 6)
    (hclean : ∀ c ∈ text, c < 128 ∧ c ≠ 0 ∧ c ≠ 32) {last : UInt8} (hlast : last &&& 0x60 = 0x60) :
    (Address.ofBytes (text.map (fun c : UInt8 => c <<< 1) ++
        List.replicate (6 - text.length) (ch ' ' <<< 1) ++ [last])).generateAddress =
      text.map (fun c : UInt8 => c <<< 1) ++
        List.replicate (6 - text.length) (ch ' ' <<< 1) ++ [last] := by
  rw [ofBytes_padded hshort hclean, Address.generateAddress, List.take_of_length_le hshort,
    Nat.min_eq_right hshort]
  exact congrArg (fun b => _ ++ [b]) (Byte.assemble_digit last hlast)

/-- Only the first seven bytes are read. -/
theorem ofBytes_take (bytes : List UInt8) :
    Address.ofBytes (bytes.take 7) = Address.ofBytes bytes := by
  have hlength : (bytes.take 7).length < 7 ↔ bytes.length < 7 := by
    rw [List.length_take]
    omega
  have hsix : (bytes.take 7).take 6 = bytes.take 6 := by rw [List.take_take]; rfl
  have hlast : (bytes.take 7).getD 6 0 = bytes.getD 6 0 := by
    rw [List.getD_eq_getElem?_getD, List.getElem?_take_of_lt (by decide),
      List.getD_eq_getElem?_getD]
  simp only [Address.ofBytes, hlength, hsix, hlast]

theorem take_seven {bytes : List UInt8} (h : 7 ≤ bytes.length) :
    bytes.take 7 = bytes.take 6 ++ [bytes.getD 6 0] := by
  rw [List.take_add_one, List.getD_eq_getElem?_getD, List.getElem?_eq_getElem h]
  rfl

/-- A valid address comes back from what is generated for it; and where the callsign is
padded and bits 5 and 6 of the last byte are set, its bytes are generated again. -/
theorem generateAddress_ofBytes (bytes : List UInt8) (h : (Address.ofBytes bytes).valid = true) :
    Address.ofBytes (Address.ofBytes bytes).generateAddress = Address.ofBytes bytes ∧
      (PaddedCallsign (bytes.take 6) → bytes.getD 6 0 &&& 0x60 = 0x60 →
        (Address.ofBytes bytes).generateAddress = bytes.take 7) := by
  have hseven : 7 ≤ bytes.length := by
    by_contra hshort
    rw [Address.ofBytes, if_pos (by omega)] at h
    exact Bool.false_ne_true h
  constructor
  · have hscanned := scanned_ofBytes bytes
    rw [Ax25.ofBytes_generateAddress _ hscanned.short hscanned.clean hscanned.ssid.1,
      hscanned.ssid.2, ← h]
  · rintro ⟨text, spaces, hclean, hsix⟩ hlast
    have hlength : text.length + spaces = 6 := by
      have hlength := congrArg List.length hsix
      simp only [List.length_take, List.length_append, List.length_map,
        List.length_replicate] at hlength
      omega
    obtain rfl : spaces = 6 - text.length := by omega
    rw [← ofBytes_take, take_seven hseven, hsix]
    exact generateAddress_padded (by omega) hclean hlast

/-- A callsign of four characters with the SSID 7, read from nine bytes. -/
theorem generateAddress_ofBytes_short :
    let bytes : List UInt8 := [0xa0, 0x8a, 0x62, 0x9e, 0x40, 0x40, 0xee, 0x03, 0xf0]
    Address.ofBytes (Address.ofBytes bytes).generateAddress = Address.ofBytes bytes ∧
      (Address.ofBytes bytes).generateAddress = bytes.take 7 := by
  have h := generateAddress_ofBytes [0xa0, 0x8a, 0x62, 0x9e, 0x40, 0x40, 0xee, 0x03, 0xf0]
    (by decide)
  have hpadded : PaddedCallsign [0xa0, 0x8a, 0x62, 0x9e, 0x40, 0x40] :=
    ⟨[0x50, 0x45, 0x31, 0x4f], 2, by decide, by decide⟩
  exact ⟨h.1, h.2 hpadded (by decide)⟩

/-! ## Well-formed addresses -/

namespace WireAddress

variable (a : WireAddress) (endMark : Bool)

theorem length_callsignBytes : a.callsignBytes.length = 6 := by
  have hshort := a.short
  simp only [callsignBytes, List.length_append, List.length_map, List.length_replicate]
  omega

theorem length_bytes : (a.bytes endMark).length = 7 := by
  rw [bytes, List.length_append, length_callsignBytes, List.length_singleton]

theorem callsignBytes_even : ∀ b ∈ a.callsignBytes, b &&& 1 = 0 := by
  intro b hb
  rcases List.mem_append.mp hb with hb | hb
  · obtain ⟨c, _, rfl⟩ := List.mem_map.mp hb
    exact Byte.shiftLeft_one_and_one c
  · obtain rfl := List.eq_of_mem_replicate hb
    decide

/-- The fields of the byte behind the callsign do not overlap. -/
theorem lastByte_fields (ssid : Fin 16) (reserved : Fin 4) (endMark repeated : Bool) :
    let last := (UInt8.ofNat ssid <<< 1) ||| (UInt8.ofNat reserved <<< 5) |||
      (if endMark then 1 else 0) ||| (if repeated then 128 else 0)
    (last >>> 1) &&& 0x0f = UInt8.ofNat ssid ∧ decide (last &&& 1 ≠ 0) = endMark ∧
      decide (last &&& 128 ≠ 0) = repeated := by
  revert ssid reserved endMark repeated
  decide +kernel

theorem ofBytes_bytes : Address.ofBytes (a.bytes endMark) = a.decoded endMark := by
  obtain ⟨hssid, hend, hrepeated⟩ := lastByte_fields a.ssid a.reserved endMark a.repeated
  rw [bytes, callsignBytes, ofBytes_padded a.short a.clean, lastByte, hssid, hend, hrepeated]
  rfl

end WireAddress

end HamRouter.Ax25
