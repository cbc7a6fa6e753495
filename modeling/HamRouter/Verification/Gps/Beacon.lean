import HamRouter.Model.BeaconReport
import HamRouter.Verification.Str

/-! # Dissecting the router's own beacon -/

namespace HamRouter

open StdString

namespace Dissect

/-! ## Fields -/

theorem mem_insert {fields : List Field} {f g : Field} :
    g ∈ insert fields f ↔ g ∈ fields ∨ (f.name ∉ fields.map Field.name ∧ g = f) := by
  rw [insert]
  by_cases h : f.name ∈ fields.map Field.name
  · simp [h]
  · simp [h]

theorem insert_keeps {fields : List Field} {g : Field} (h : g ∈ fields) (f : Field) :
    g ∈ insert fields f := mem_insert.mpr (Or.inl h)

/-- A field is one of these. -/
theorem name_mem_insert {fields : List Field} {f : Field} {names : List StdString}
    (h : ∀ g ∈ fields, g.name ∈ names) (hf : f.name ∈ names) :
    ∀ g ∈ insert fields f, g.name ∈ names := by
  intro g hg
  rcases mem_insert.mp hg with hg | ⟨_, rfl⟩
  · exact h g hg
  · exact hf

/-! ## The addresses -/

/-- A sender and receivers between a header, `>` and `:` are found. -/
theorem aprsAddresses_append {header sender receivers : StdString} (hheader : header.length = 3)
    (hsender : ch '>' ∉ header ++ sender) (hreceivers : ch ':' ∉ receivers) (text : StdString) :
    aprsAddresses (header ++ sender ++ ch '>' :: (receivers ++ ch ':' :: text)) [] =
      [⟨str "from", sender, 0⟩,
        ⟨str "to", match find receivers (str ",") with
          | some delimiter => receivers.take delimiter
          | none => receivers, 0⟩] := by
  obtain ⟨hgt, hcolon, hto, _⟩ := find_between (show ch ':' ≠ ch '>' by decide) hsender
    hreceivers text rfl
  have hfrom : ((header ++ sender ++ ch '>' :: (receivers ++ ch ':' :: text)).drop 3).take
      ((header ++ sender).length - 3) = sender := by
    rw [← hheader, List.length_append, Nat.add_sub_cancel_left, List.append_assoc,
      List.drop_left, List.take_left]
  have hgt : find (header ++ sender ++ ch '>' :: (receivers ++ ch ':' :: text)) (str ">") =
      some (header ++ sender).length := hgt
  have hcolon : (find ((header ++ sender ++ ch '>' :: (receivers ++ ch ':' :: text)).drop
      (header ++ sender).length) (str ":")).map ((header ++ sender).length + ·) =
        some ((header ++ sender).length + (receivers.length + 1)) := hcolon
  rw [aprsAddresses, hgt]
  simp only [hcolon, hto, hfrom]
  rfl

/-! ## A position without its `!` -/

theorem parseNmeaPos_eq_none {what : StdString} (h : what.head? ≠ some (ch '!')) :
    Gps.parseNmeaPos what = none := by
  rw [Gps.parseNmeaPos]
  split
  · rfl
  · have hfirst : Gps.charAt what 0 ≠ ch '!' := by
      cases what with
      | nil => decide
      | cons c rest => exact fun hc => h (congrArg some hc)
    rw [if_neg fun hboth => hfirst hboth.1]

/-- The fields of a packet without a position. -/
def plainNames : List StdString :=
  [str "from", str "to", str "station-type", str "payload", str "payload-protocol", str "protocol"]

/-- The fields are still there, and all that there are have plain names. -/
structure Grows (fields grown : List Field) : Prop where
  kept : ∀ f ∈ fields, f ∈ grown
  plain : ∀ f ∈ grown, f.name ∈ plainNames

theorem Grows.insert {fields grown : List Field} (h : Grows fields grown) {g : Field}
    (hg : g.name ∈ plainNames) : Grows fields (insert grown g) :=
  ⟨fun f hf => insert_keeps (h.kept f hf) g, name_mem_insert h.plain hg⟩

theorem Grows.aprsPosition {nmea : StdString} (hnmea : nmea.cStr.head? ≠ some (ch '!'))
    (charsLeft : ℕ) {fields grown : List Field} (h : Grows fields grown) :
    Grows fields (aprsPosition nmea charsLeft grown) := by
  rw [Dissect.aprsPosition, parseNmeaPos_eq_none hnmea]
  simp only
  generalize (if charsLeft ≥ 21 then Gps.charAt nmea 20 else 0) = sub2
  by_cases hleft : charsLeft ≥ 20
  · rw [if_pos hleft]
    by_cases hsymbol : symbolOf (Gps.charAt nmea 9) (Gps.charAt nmea 19) sub2 = []
    · rwa [if_pos hsymbol]
    · rw [if_neg hsymbol]
      have hname : str "station-type" ∈ plainNames := by decide
      exact h.insert hname
  · rwa [if_neg hleft]

/-! ## The data type `=` -/

/-- Behind the first colon and an `=`, the addresses are kept and no position is found. -/
theorem parseAprs_of_equals {front text data : StdString}
    (hdata : data = front ++ ch ':' :: ch '=' :: text) (hclean : ch ':' ∉ front)
    (hheader : data.take 3 = [ch '<', 0xff, 0x01]) (hfour : 4 ≤ front.length)
    (haddresses : ∀ f ∈ aprsAddresses data [], f.name ∈ plainNames) :
    ∃ fields, parseAprs data = some fields ∧ Grows (aprsAddresses data []) fields := by
  have hcolon : find data (str ":") = some front.length := by
    rw [hdata]
    exact find_byte hclean _
  have hlength : data.length = front.length + (text.length + 2) := by
    rw [hdata, List.length_append]
    rfl
  have hcommand : Gps.charAt data (front.length + 1) = ch '=' := by
    rw [hdata, Gps.charAt]
    simp
  have hnmea : data.drop (front.length + 1) = ch '=' :: text := by
    rw [hdata, ← List.drop_drop, List.drop_left]
    rfl
  have hposition : (cStr (ch '=' :: text)).head? ≠ some (ch '!') := by
    rw [cStr, List.takeWhile_cons_of_pos (by decide), List.head?_cons]
    decide
  have hbase : Grows (aprsAddresses data []) (aprsAddresses data []) :=
    ⟨fun f hf => hf, haddresses⟩
  rw [parseAprs, if_neg (by omega), if_neg (not_not.mpr hheader), hcolon]
  simp only [hcommand, hnmea]
  rw [if_neg (by omega), if_neg (show ch '=' ≠ ch '$' by decide)]
  generalize hreported : (if (ch '=' = ch '!' ∨ True) ∧ data.length - front.length ≥ 19 then
    aprsPosition (ch '=' :: text) (data.length - front.length) (aprsAddresses data [])
    else aprsAddresses data []) = reported
  have hspec : Grows (aprsAddresses data []) reported := by
    rw [← hreported]
    by_cases hlong : (ch '=' = ch '!' ∨ True) ∧ data.length - front.length ≥ 19
    · rw [if_pos hlong]
      exact hbase.aprsPosition hposition _
    · rwa [if_neg hlong]
  have hpayload : str "payload" ∈ plainNames := by decide
  have hprotocol : str "protocol" ∈ plainNames := by decide
  cases find data (str "[") with
  | none => exact ⟨_, rfl, hspec.insert hprotocol⟩
  | some bracket => exact ⟨_, rfl, (hspec.insert hpayload).insert hprotocol⟩

/-- A report whose data type is `=` has its addresses but no position among its fields. -/
theorem parseAprs_equals {sender receivers : StdString}
    (hsender : ch '>' ∉ sender ∧ ch ':' ∉ sender) (hreceivers : ch ':' ∉ receivers)
    (text : StdString) :
    ∃ fields, parseAprs ([ch '<', 0xff, 0x01] ++ sender ++
        ch '>' :: (receivers ++ ch ':' :: ch '=' :: text)) = some fields ∧
      ⟨str "from", sender, 0⟩ ∈ fields ∧
      ⟨str "to", match find receivers (str ",") with
          | some delimiter => receivers.take delimiter
          | none => receivers, 0⟩ ∈ fields ∧
      ∀ f ∈ fields, f.name ∈ plainNames := by
  have hstart : ch '>' ∉ [ch '<', 0xff, 0x01] ++ sender := by
    rw [List.mem_append, not_or]
    exact ⟨by decide, hsender.1⟩
  have haddresses := aprsAddresses_append (show [ch '<', 0xff, 0x01].length = 3 from rfl)
    hstart hreceivers (ch '=' :: text)
  generalize hdata : [ch '<', 0xff, 0x01] ++ sender ++
    ch '>' :: (receivers ++ ch ':' :: ch '=' :: text) = data at haddresses ⊢
  have hplain : ∀ f ∈ aprsAddresses data [], f.name ∈ plainNames := by
    rw [haddresses]
    simp only [List.forall_mem_cons]
    exact ⟨by decide, by decide, by simp⟩
  have hsplit : data = ([ch '<', 0xff, 0x01] ++ sender ++ ch '>' :: receivers) ++
      ch ':' :: ch '=' :: text := by
    rw [← hdata]
    simp
  have hclean : ch ':' ∉ [ch '<', 0xff, 0x01] ++ sender ++ ch '>' :: receivers := by
    rw [List.mem_append, List.mem_append, not_or, not_or]
    exact ⟨⟨by decide, hsender.2⟩, List.not_mem_cons_of_ne_of_not_mem (by decide) hreceivers⟩
  have hheader : data.take 3 = [ch '<', 0xff, 0x01] := by
    rw [← hdata]
    rfl
  have hfour : 4 ≤ ([ch '<', 0xff, 0x01] ++ sender ++ ch '>' :: receivers).length := by
    simp only [List.length_append, List.length_cons, List.length_nil]
    omega
  obtain ⟨fields, hfields, hgrows⟩ := parseAprs_of_equals hsplit hclean hheader hfour hplain
  rw [haddresses] at hgrows
  exact ⟨fields, hfields, hgrows.kept _ (by simp), hgrows.kept _ (by simp), hgrows.plain⟩

end Dissect

namespace Beacon

open Dissect

namespace Report

variable (b : Report)

/-- The beacon as its sender, its receivers and its text. -/
theorem output_eq : ∃ text, b.output = [ch '<', 0xff, 0x01] ++ (b.callsign ++ str "-L") ++
    ch '>' :: (str "APLG01,TCPIP*,qAC" ++ ch ':' :: ch '=' :: text) := by
  have hmiddle : str "-L>APLG01,TCPIP*,qAC:" =
      str "-L" ++ ch '>' :: (str "APLG01,TCPIP*,qAC" ++ [ch ':']) := by decide
  have hequals : str "=" = [ch '='] := by decide
  refine ⟨Gps.gpsDoubleToAprs b.latitude b.longitude b.aprsSymbolTable ++ b.aprsSymbol ++
    b.beaconText, ?_⟩
  rw [Report.output, Beacon.output, hmiddle, hequals]
  simp only [List.append_assoc, List.cons_append, List.nil_append]

/-- The sender and the receiver are found, and nothing but them and the plain fields. -/
theorem dissectPacket_output (beyond : ℕ → UInt8) :
    ∃ fields, dissectPacket ⟨b.output, beyond⟩ = some (fields, none) ∧
      ⟨str "from", b.callsign ++ str "-L", 0⟩ ∈ fields ∧
      ⟨str "to", str "APLG01", 0⟩ ∈ fields ∧ ∀ f ∈ fields, f.name ∈ plainNames := by
  obtain ⟨text, htext⟩ := b.output_eq
  have hsender : ch '>' ∉ b.callsign ++ str "-L" ∧ ch ':' ∉ b.callsign ++ str "-L" := by
    rw [List.mem_append, List.mem_append, not_or, not_or]
    exact ⟨⟨b.callsign_clean.1, by decide⟩, ⟨b.callsign_clean.2, by decide⟩⟩
  obtain ⟨fields, hfields, hfrom, hto, hnames⟩ :=
    parseAprs_equals hsender (show ch ':' ∉ str "APLG01,TCPIP*,qAC" by decide) text
  have hreceiver : (match find (str "APLG01,TCPIP*,qAC") (str ",") with
      | some delimiter => (str "APLG01,TCPIP*,qAC").take delimiter
      | none => str "APLG01,TCPIP*,qAC") = str "APLG01" := by decide
  rw [hreceiver] at hto
  rw [← htext] at hfields
  refine ⟨fields, ?_, hfrom, hto, hnames⟩
  rw [dissectPacket, hfields]

/-- No position is found. -/
theorem not_yields (beyond : ℕ → UInt8) {fields : List Field} {packet : Option Ax25.Packet}
    (h : dissectPacket ⟨b.output, beyond⟩ = some (fields, packet)) : ¬ b.Yields fields := by
  obtain ⟨found, hfound, _, _, hnames⟩ := b.dissectPacket_output beyond
  obtain ⟨rfl, _⟩ := Prod.mk.inj (Option.some.inj (hfound.symm.trans h))
  intro hyields
  obtain ⟨v, hv, _⟩ := hyields.latitude
  have hname : str "latitude" ∈ plainNames := hnames _ hv
  exact absurd hname (by decide)

/-- The data type `=` of a beacon is one whose position the dissector does not read. -/
theorem not_readBack (beyond : ℕ → UInt8) : ¬ b.ReadBack beyond := by
  rintro ⟨fields, packet, hdissect, hyields⟩
  exact b.not_yields beyond hdissect hyields

end Report

/-- A beacon in the Netherlands. -/
def sampleReport : Report where
  beaconText := str " hello"
  callsign := str "PD9FVH"
  aprsSymbolTable := ch '/'
  aprsSymbol := str "&"
  latitude := 52
  longitude := 5
  latitude_le := by norm_num
  longitude_le := by norm_num
  callsign_clean := by decide
  text_clean := by decide

theorem not_readBack_sampleReport : ¬ sampleReport.ReadBack fun _ => 0 := by
  rintro ⟨fields, packet, hdissect, hyields⟩
  exact sampleReport.not_yields _ hdissect hyields

end Beacon

end HamRouter
