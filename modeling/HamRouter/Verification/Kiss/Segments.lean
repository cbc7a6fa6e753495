import HamRouter.Model.KissSegments
import HamRouter.Verification.Kiss.Machine

/-! # Which streams the receiver reads as segments

The receiver collects the items of a segment and starts again where the packet is full.
At the `FEND` it has either the decoding of the segment, or a rest of it. -/

namespace HamRouter.Kiss

open Segments

/-! ## Within a segment -/

/-- The packet buffer after some items, emptied at each item that finds it full. -/
def collect : List UInt8 → List Item → List UInt8
  | packet, [] => packet
  | packet, item :: rest =>
      collect (if packet.length = maxPacketSize then [] else packet ++ item.bytes) rest

theorem length_collect (packet : List UInt8) (items : List Item) :
    (collect packet items).length = leftOver packet.length items := by
  induction items generalizing packet with
  | nil => rfl
  | cons item rest ih =>
      rw [collect, leftOver, ih]
      split
      · rfl
      · rw [List.length_append]

/-- Each restart forgets bytes, so the buffer holds all of them only without one. -/
theorem collect_eq_or_lt (packet : List UInt8) (items : List Item) :
    collect packet items = packet ++ items.flatMap Item.bytes ∨
      (collect packet items).length < packet.length + (items.flatMap Item.bytes).length := by
  induction items generalizing packet with
  | nil => exact Or.inl (List.append_nil packet).symm
  | cons item rest ih =>
      rw [collect, List.flatMap_cons, List.length_append]
      by_cases hfull : packet.length = maxPacketSize
      · right
        rw [if_pos hfull]
        rcases ih [] with heq | hlt
        · rw [heq, hfull, List.nil_append, maxPacketSize]
          omega
        · rw [hfull, maxPacketSize]
          rw [List.length_nil] at hlt
          omega
      · rw [if_neg hfull]
        rcases ih (packet ++ item.bytes) with heq | hlt
        · left
          rw [heq, List.append_assoc]
        · right
          rw [List.length_append] at hlt
          omega

theorem onByte_escape (packet : List UInt8) (c : UInt8) :
    onByte { escape := true, packet := packet } c =
      if packet.length = maxPacketSize then .leave false packet
      else .next { packet := packet ++ (resolve c).bytes } := by
  by_cases hend : c = tfend
  · simp [onByte, resolve, hend, Item.bytes]
  · by_cases hesc : c = tfesc
    · simp [onByte, resolve, hesc, tfesc, tfend, Item.bytes]
    · simp [onByte, resolve, hend, hesc, Item.bytes]

theorem finish_false (packet : List UInt8) : finish false packet = none := by
  simp [finish]

/-- Bytes that end no segment make no packet, and leave the collected items. -/
theorem receiveBytes_segment (segment : List UInt8) (h : fend ∉ segment) (escape : Bool)
    (packet : List UInt8) :
    (receiveBytes { escape := escape, packet := packet } segment).1 =
        { escape := (scan escape segment).2
          packet := collect packet (scan escape segment).1 } ∧
      (receiveBytes { escape := escape, packet := packet } segment).2.reduceOption = [] := by
  induction segment generalizing escape packet with
  | nil => cases escape <;> exact ⟨rfl, rfl⟩
  | cons c rest ih =>
      have hc : c ≠ fend := fun heq => h (by simp [heq])
      have hrest : fend ∉ rest := fun hmem => h (by simp [hmem])
      cases escape with
      | true =>
          rw [scan, collect]
          by_cases hfull : packet.length = maxPacketSize
          · have hleave := onByte_escape packet c
            rw [if_pos hfull] at hleave
            rw [if_pos hfull, receiveBytes_cons_leave hleave, finish_false]
            exact ih hrest false []
          · have hnext := onByte_escape packet c
            rw [if_neg hfull] at hnext
            rw [if_neg hfull, receiveBytes_cons_next hnext]
            exact ih hrest false (packet ++ (resolve c).bytes)
      | false =>
          rw [scan]
          by_cases hesc : c = fesc
          · have hnext : onByte { escape := false, packet := packet } c =
                .next { escape := true, packet := packet } := by
              simp [onByte, hesc, fesc, fend]
            rw [if_pos hesc, receiveBytes_cons_next hnext]
            exact ih hrest true packet
          · rw [if_neg hesc, collect]
            by_cases hfull : packet.length = maxPacketSize
            · have hleave : onByte { escape := false, packet := packet } c =
                  .leave false packet := by
                simp [onByte, hc, hesc, hfull]
              rw [if_pos hfull, receiveBytes_cons_leave hleave, finish_false]
              exact ih hrest false []
            · have hnext : onByte { escape := false, packet := packet } c =
                  .next { packet := packet ++ [c] } := by
                simp [onByte, hc, hesc, hfull]
              rw [if_neg hfull, receiveBytes_cons_next hnext]
              exact ih hrest false (packet ++ [c])

/-! ## At the end of a segment -/

/-- The packet handed over at a `FEND`, and the variables after it. -/
theorem receiveBytes_terminator (s : Receiver) :
    receiveBytes s [fend] =
      if s.escape then
        if s.packet.length = maxPacketSize then ({}, [none]) else ({ packet := s.packet }, [])
      else if s.packet.length = 0 then (s, []) else ({}, [some s.packet.tail]) := by
  obtain ⟨escape, packet⟩ := s
  cases escape with
  | true =>
      have hbyte := onByte_escape packet fend
      have hbroken : (resolve fend).bytes = [] := by decide
      rw [hbroken, List.append_nil] at hbyte
      by_cases hfull : packet.length = maxPacketSize
      · rw [if_pos hfull] at hbyte
        simp [receiveBytes_cons_leave hbyte, finish_false, hfull]
      · rw [if_neg hfull] at hbyte
        simp [receiveBytes_cons_next hbyte, hfull]
  | false =>
      by_cases hempty : packet.length = 0
      · have hbyte : onByte { packet := packet } fend = .next { packet := packet } := by
          simp [onByte, hempty]
        rw [receiveBytes_cons_next hbyte]
        simp [hempty]
      · have hbyte : onByte { packet := packet } fend = .leave true packet := by
          simp [onByte, hempty]
        rw [receiveBytes_cons_leave hbyte]
        simp [hempty, finish]

theorem leftOver_append (n : ℕ) (xs ys : List Item) :
    leftOver n (xs ++ ys) = leftOver (leftOver n xs) ys := by
  induction xs generalizing n with
  | nil => rfl
  | cons item rest ih => exact ih _

theorem collect_eq_decode {segment : List UInt8}
    (h : leftOver 0 (scan false segment).1 = (decode segment).length) :
    collect [] (scan false segment).1 = decode segment := by
  rcases collect_eq_or_lt [] (scan false segment).1 with heq | hlt
  · exact heq
  · rw [length_collect, List.length_nil, h, Nat.zero_add] at hlt
    exact absurd hlt (Nat.lt_irrefl _)

/-- A segment and its `FEND`, from a fresh start. -/
theorem received_segment {segment : List UInt8} (h : fend ∉ segment) :
    delivered (segment ++ [fend]) =
        (receiveBytes { escape := (scan false segment).2
                        packet := collect [] (scan false segment).1 } [fend]).2.reduceOption ∧
      waiting (segment ++ [fend]) =
        (receiveBytes { escape := (scan false segment).2
                        packet := collect [] (scan false segment).1 } [fend]).1 := by
  obtain ⟨hstate, hquiet⟩ := receiveBytes_segment segment h false []
  rw [delivered_eq, waiting_eq, receiveBytes_append, hstate]
  simp only [List.reduceOption_append, hquiet, List.nil_append, and_self]

/-- A safe segment is delivered as it reads and leaves nothing behind, and no other is. -/
theorem segment_iff {segment : List UInt8} (h : fend ∉ segment) :
    delivered (segment ++ [fend]) = (packetOf segment).toList ∧
        waiting (segment ++ [fend]) = {} ↔ SegmentSafe segment := by
  obtain ⟨hdelivered, hwaiting⟩ := received_segment h
  have hcount : (collect [] (scan false segment).1).length = leftOver 0 (scan false segment).1 :=
    length_collect [] _
  have hdecode := @collect_eq_decode segment
  rw [hdelivered, hwaiting, receiveBytes_terminator, SegmentSafe, closedItems]
  generalize collect [] (scan false segment).1 = packet at *
  cases hopen : (scan false segment).2 with
  | true =>
      simp only [if_true, leftOver_append, leftOver, ← hcount]
      by_cases hfull : packet.length = maxPacketSize
      · cases hpacket : packetOf segment <;> simp [hfull, List.reduceOption]
      · cases hpacket : packetOf segment <;> simp [hfull, List.reduceOption, Item.bytes]
  | false =>
      simp only [Bool.false_eq_true, if_false, List.append_nil, ← hcount]
      by_cases hempty : packet.length = 0
      · have hnil : packet = [] := List.length_eq_zero_iff.mp hempty
        by_cases hfit : 1 ≤ (decode segment).length ∧ (decode segment).length ≤ maxPacketSize
        · have hne : 0 ≠ (decode segment).length := by omega
          simp [packetOf, hfit, hnil, List.reduceOption, hne]
        · simp [packetOf, hfit, hnil, List.reduceOption]
      · by_cases hfit : 1 ≤ (decode segment).length ∧ (decode segment).length ≤ maxPacketSize
        · have htail : packet.tail = (decode segment).tail ↔
              packet.length = (decode segment).length := by
            constructor
            · intro heq
              have hlength := congrArg List.length heq
              rw [List.length_tail, List.length_tail] at hlength
              omega
            · intro hlength
              rw [hdecode (hcount ▸ hlength)]
          simp [packetOf, hfit, hempty, List.reduceOption, htail]
        · simp [packetOf, hfit, hempty, List.reduceOption]

/-! ## Whole streams -/

/-- At every moment the packets so far are those of the segments so far, and after a
`FEND` nothing is kept of the segment it ends. -/
def Resynchronises (stream : List UInt8) : Prop :=
  ∀ front, front <+: stream →
    delivered front = packets front ∧ (front.getLast? = some fend → waiting front = {})

theorem delivered_append {xs : List UInt8} (h : waiting xs = {}) (ys : List UInt8) :
    delivered (xs ++ ys) = delivered xs ++ delivered ys := by
  rw [waiting_eq] at h
  simp only [delivered_eq, receiveBytes_append, h, List.reduceOption_append]

theorem waiting_append {xs : List UInt8} (h : waiting xs = {}) (ys : List UInt8) :
    waiting (xs ++ ys) = waiting ys := by
  rw [waiting_eq] at h
  simp only [waiting_eq, receiveBytes_append, h]

theorem packets_append {segment : List UInt8} (h : fend ∉ segment) (rest : List UInt8) :
    packets (segment ++ fend :: rest) = (packetOf segment).toList ++ packets rest := by
  rw [packets, terminated_append_cons h, packets]
  cases hpacket : packetOf segment <;> simp [hpacket]

theorem resynchronises_last {segment : List UInt8} (h : fend ∉ segment) :
    Resynchronises segment := by
  intro front hfront
  have hfree : fend ∉ front := fun hmem => h (hfront.subset hmem)
  constructor
  · rw [delivered_eq, packets, terminated_of_not_mem hfree]
    exact (receiveBytes_segment front hfree false []).2
  · intro hlast
    exact absurd (List.mem_of_getLast? hlast) hfree

theorem resynchronises_next {segment : List UInt8} (h : fend ∉ segment) (rest : List UInt8) :
    Resynchronises (segment ++ fend :: rest) ↔ SegmentSafe segment ∧ Resynchronises rest := by
  have hcut : ∀ more, segment ++ fend :: more = segment ++ [fend] ++ more := by simp
  have hnil : packets [] = [] := rfl
  have hsegment : packets (segment ++ [fend]) = (packetOf segment).toList := by
    rw [packets_append h, hnil, List.append_nil]
  constructor
  · intro hall
    have hstart : delivered (segment ++ [fend]) = (packetOf segment).toList ∧
        waiting (segment ++ [fend]) = {} := by
      obtain ⟨hdelivered, hwaiting⟩ := hall (segment ++ [fend]) (by simp)
      exact ⟨hdelivered.trans hsegment, hwaiting (by simp)⟩
    refine ⟨(segment_iff h).mp hstart, ?_⟩
    intro front hfront
    have hlong : segment ++ fend :: front <+: segment ++ fend :: rest := by simpa using hfront
    obtain ⟨hdelivered, hwaiting⟩ := hall _ hlong
    rw [packets_append h, hcut, delivered_append hstart.2, hstart.1] at hdelivered
    rw [hcut, waiting_append hstart.2] at hwaiting
    refine ⟨List.append_cancel_left hdelivered, ?_⟩
    intro hlast
    apply hwaiting
    rw [List.getLast?_append, hlast]
    rfl
  · intro hparts front hfront
    rcases hparts with ⟨hsafe, hrest⟩
    have hstart := (segment_iff h).mpr hsafe
    rcases prefix_segment hfront with hshort | ⟨more, hmore, rfl⟩
    · exact resynchronises_last h front hshort
    · obtain ⟨hdelivered, hwaiting⟩ := hrest more hmore
      rw [packets_append h, hcut, delivered_append hstart.2, waiting_append hstart.2, hstart.1,
        hdelivered]
      refine ⟨rfl, ?_⟩
      intro hlast
      cases more with
      | nil =>
          rw [waiting_eq]
          rfl
      | cons b more =>
          apply hwaiting
          simpa [List.getLast?_append, List.getLast?_cons] using hlast

theorem resynchronises_iff (stream : List UInt8) :
    Resynchronises stream ↔ ∀ segment ∈ terminated fend stream, SegmentSafe segment := by
  apply segment_induction fend stream
  · intro segment h
    simp [terminated_of_not_mem h, resynchronises_last h]
  · intro segment rest h ih
    simp [terminated_append_cons h, resynchronises_next h, ih]

/-- A frame cut off in an escape is lost with its `FEND`. -/
theorem delivered_cutOffFrame :
    delivered [0x00, 0x41, 0xdb, 0xc0] ≠ packets [0x00, 0x41, 0xdb, 0xc0] := by
  rw [delivered_eq]
  decide

end HamRouter.Kiss
