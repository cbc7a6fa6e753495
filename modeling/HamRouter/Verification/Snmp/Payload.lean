import HamRouter.Model.SnmpTree
import HamRouter.Program.Snmp

/-! # Which trees of elements are put out as they should

All sizes are known modulo 256. A block of the wrapped size is overrun as soon as the
content does not fit, and otherwise filled to its end. -/

namespace HamRouter.Snmp

open Memory

/-! ## Sizes -/

mutual

theorem Elem.getSize_eq (e : Elem) : e.getSize = UInt8.ofNat e.contentLength := by
  cases e with
  | integer type v =>
      rw [Elem.getSize, Elem.contentLength, integerLen]
      split <;> rfl
  | octetString v => exact UInt8.ofNat_mod_size.symm
  | oid v => exact UInt8.ofNat_mod_size.symm
  | null => rfl
  | sequence es =>
      rw [Elem.getSize, Elem.contentLength]
      exact sumSizes_add es
  | pdu type es =>
      rw [Elem.getSize, Elem.contentLength]
      exact sumSizes_add es

theorem sumSizes_add (es : List Elem) :
    sumSizes es + UInt8.ofNat (es.length * 2) = UInt8.ofNat (contentLengths es) := by
  cases es with
  | nil => rfl
  | cons e es =>
      have hrest := sumSizes_add es
      have hlength : (e :: es).length * 2 = 2 + es.length * 2 := by
        rw [List.length_cons]
        omega
      rw [sumSizes, contentLengths, e.getSize_eq, hlength, UInt8.ofNat_add, UInt8.ofNat_add,
        UInt8.ofNat_add, ← hrest]
      ac_rfl

end

theorem length_copyPayloads (out : Block) (o : UInt8) (ps : List Payload) :
    (copyPayloads out o ps).1.bytes.length = out.bytes.length := by
  induction ps generalizing out o with
  | nil => rfl
  | cons pl rest ih => rw [copyPayloads, ih, Block.length_memcpy]

theorem size_bytesPayload (type : UInt8) (v : List UInt8) :
    (bytesPayload type v).size = UInt8.ofNat (v.length % 256 + 2) := by
  rw [UInt8.ofNat_add, UInt8.ofNat_mod_size]
  rfl

theorem Elem.size_getPayload (e : Elem) :
    e.getPayload.size = UInt8.ofNat (e.contentLength + 2) := by
  have hsequence : ∀ n ps, (sequencePayload n ps).size = n + 2 := fun _ _ => rfl
  cases e with
  | integer type v =>
      rw [Elem.getPayload, integerPayload, Elem.contentLength, integerLen]
      split <;> rfl
  | octetString v => exact size_bytesPayload _ v
  | oid v => exact size_bytesPayload _ v
  | null => rfl
  | sequence es =>
      rw [Elem.getPayload, hsequence, Elem.getSize_eq, Elem.contentLength, UInt8.ofNat_add]
      rfl
  | pdu type es =>
      rw [Elem.getPayload, Elem.contentLength, UInt8.ofNat_add]
      simp only [hsequence, Elem.getSize_eq, Elem.contentLength]
      rfl

/-- A block is as long as the size returned with it. -/
theorem Elem.length_getPayload (e : Elem) :
    e.getPayload.out.bytes.length = e.getPayload.size.toNat := by
  cases e with
  | integer type v => simp [Elem.getPayload, integerPayload]
  | octetString v => simp [Elem.getPayload, bytesPayload]
  | oid v => simp [Elem.getPayload, bytesPayload]
  | null => rfl
  | sequence es => simp [Elem.getPayload, sequencePayload, length_copyPayloads]
  | pdu type es => simp [Elem.getPayload, sequencePayload, length_copyPayloads]

theorem mem_payloads {pl : Payload} {es : List Elem} (h : pl ∈ payloads es) :
    ∃ e ∈ es, pl = e.getPayload := by
  induction es with
  | nil => simp [payloads] at h
  | cons e es ih =>
      rw [payloads] at h
      rcases List.mem_cons.mp h with rfl | hrest
      · exact ⟨e, by simp, rfl⟩
      · obtain ⟨d, hd, hpl⟩ := ih hrest
        exact ⟨d, by simp [hd], hpl⟩

/-! ## The assertion -/

theorem snd_copyPayloads (out : Block) (o : UInt8) (es : List Elem) :
    (copyPayloads out o (payloads es)).2 = o + UInt8.ofNat (contentLengths es) := by
  induction es generalizing out o with
  | nil =>
      rw [payloads, copyPayloads, contentLengths]
      exact (UInt8.add_zero o).symm
  | cons e es ih =>
      rw [payloads, copyPayloads, ih, contentLengths, e.size_getPayload, UInt8.ofNat_add,
        UInt8.ofNat_add, UInt8.ofNat_add]
      ac_rfl

mutual

/-- `assert(o == out_size)` compares two sums modulo 256 of the same lengths. -/
theorem Elem.asserted_getPayload (e : Elem) : e.getPayload.asserted = true := by
  cases e with
  | integer type v => rfl
  | octetString v => rfl
  | oid v => rfl
  | null => rfl
  | sequence es =>
      simp only [Elem.getPayload, sequencePayload, asserted_payloads es, Bool.true_and,
        snd_copyPayloads, Elem.getSize_eq, Elem.contentLength, beq_iff_eq]
      exact UInt8.add_comm _ _
  | pdu type es =>
      simp only [Elem.getPayload, sequencePayload, asserted_payloads es, Bool.true_and,
        snd_copyPayloads, Elem.getSize_eq, Elem.contentLength, beq_iff_eq]
      exact UInt8.add_comm _ _

theorem asserted_payloads (es : List Elem) : (payloads es).all (·.asserted) = true := by
  cases es with
  | nil => rfl
  | cons e es =>
      rw [payloads, List.all_cons, e.asserted_getPayload, asserted_payloads es]
      rfl

end

/-! ## The blocks of single elements -/

theorem malloc_write_two (n : ℕ) (a b : UInt8) :
    ((Block.malloc (n + 2)).write 0 a).write 1 b = ⟨[a, b] ++ List.replicate n 0, false⟩ := by
  simp [Block.malloc, Block.write, List.replicate_succ]

theorem memcpy_to_end (front back src : List UInt8) (overrun : Bool)
    (h : src.length = back.length) :
    (Block.mk (front ++ back) overrun).memcpy front.length src = ⟨front ++ src, overrun⟩ := by
  simpa using Block.memcpy_append front back [] src overrun h

theorem out_integerPayload (type : IntegerType) (v : UInt64) :
    (integerPayload type v).out =
      ⟨[type.snmpType, integerLen v] ++ bigEndian (integerLen v).toNat v, false⟩ := by
  have hsize : (integerLen v + 2).toNat = (integerLen v).toNat + 2 := by
    rw [integerLen]
    split <;> rfl
  have hlength : (bigEndian (integerLen v).toNat v).length =
      (List.replicate (integerLen v).toNat (0 : UInt8)).length := by
    simp [bigEndian]
  rw [integerPayload, hsize]
  simp only [malloc_write_two]
  exact memcpy_to_end [_, _] _ _ false hlength

theorem out_bytesPayload (type : UInt8) {v : List UInt8} (h : v.length % 256 ≤ 253) :
    (bytesPayload type v).out =
      ⟨[type, UInt8.ofNat v.length] ++ v.take (v.length % 256), false⟩ := by
  have hlen : (UInt8.ofNat v.length).toNat = v.length % 256 := UInt8.toNat_ofNat'
  have hsize : (UInt8.ofNat v.length + 2).toNat = v.length % 256 + 2 := by
    rw [UInt8.toNat_add, hlen]
    exact Nat.mod_eq_of_lt (by have : (2 : UInt8).toNat = 2 := rfl; omega)
  have hmalloc : Block.malloc (v.length % 256 + 2) =
      ⟨[0, 0] ++ List.replicate (v.length % 256) 0, false⟩ := by
    simp [Block.malloc, List.replicate_succ]
  have hcopy : (v.take (v.length % 256)).length =
      (List.replicate (v.length % 256) (0 : UInt8)).length := by
    rw [List.length_take, List.length_replicate]
    exact Nat.min_eq_left (Nat.mod_le _ _)
  have hfill := memcpy_to_end [0, 0] _ _ false hcopy
  simp only [bytesPayload, hsize, hlen, hmalloc]
  rw [show ([0, 0] : List UInt8).length = 2 from rfl] at hfill
  rw [hfill]
  simp [Block.write]

theorem overrun_bytesPayload (type : UInt8) {v : List UInt8} (h : 253 < v.length % 256) :
    (bytesPayload type v).out.overrun = true := by
  have hlen : (UInt8.ofNat v.length).toNat = v.length % 256 := UInt8.toNat_ofNat'
  have hsize : (UInt8.ofNat v.length + 2).toNat < 2 := by
    rw [UInt8.toNat_add, hlen]
    have htwo : (2 : UInt8).toNat = 2 := rfl
    omega
  have hne : v.take (UInt8.ofNat v.length).toNat ≠ [] := by
    rw [hlen]
    intro hnil
    have hlength := congrArg List.length hnil
    rw [List.length_take, List.length_nil] at hlength
    have hle := Nat.mod_le v.length 256
    omega
  have hcopy : ((Block.malloc (UInt8.ofNat v.length + 2).toNat).memcpy 2
      (v.take (UInt8.ofNat v.length).toNat)).overrun = true := by
    rw [Block.overrun_memcpy _ _ hne, Block.length_malloc]
    simp only [Block.overrun_malloc, Bool.false_or, decide_eq_true_eq]
    omega
  simp only [bytesPayload, Block.overrun_write, hcopy, Bool.true_or]

/-! ## The blocks of sequences -/

/-- The bytes of all payloads, one after the other. -/
def contents (ps : List Payload) : List UInt8 := ps.flatMap (·.out.bytes)

theorem copyPayloads_fill (ps : List Payload) (hclean : ∀ pl ∈ ps, pl.out.overrun = false)
    (hsize : ∀ pl ∈ ps, pl.out.bytes.length = pl.size.toNat) (front back : List UInt8) (o : UInt8)
    (ho : o.toNat = front.length) (hroom : back.length = (contents ps).length)
    (hsmall : front.length + back.length < 256) :
    (copyPayloads ⟨front ++ back, false⟩ o ps).1 = ⟨front ++ contents ps, false⟩ := by
  induction ps generalizing front back o with
  | nil =>
      rw [contents, List.flatMap_nil, List.length_nil, List.length_eq_zero_iff] at hroom
      rw [hroom]
      rfl
  | cons pl ps ih =>
      have hlength := hsize pl (by simp)
      have hcons : contents (pl :: ps) = pl.out.bytes ++ contents ps := rfl
      rw [hcons, List.length_append] at hroom
      have hmiddle : pl.out.bytes.length = (back.take pl.out.bytes.length).length := by
        rw [List.length_take]
        omega
      have hcopy := Block.memcpy_append front _ (back.drop pl.out.bytes.length) _ false hmiddle
      rw [List.append_assoc, List.take_append_drop] at hcopy
      have hoffset : (o + pl.size).toNat = (front ++ pl.out.bytes).length := by
        rw [UInt8.toNat_add, List.length_append, ho, ← hlength]
        exact Nat.mod_eq_of_lt (by omega)
      rw [copyPayloads, ho, hcopy]
      simp only [hclean pl (by simp), Bool.or_self]
      rw [ih (fun q hq => hclean q (by simp [hq])) (fun q hq => hsize q (by simp [hq]))
        (front ++ pl.out.bytes) _ _ hoffset]
      · rw [hcons, List.append_assoc]
      · rw [List.length_drop]
        omega
      · rw [List.length_append, List.length_drop]
        omega

theorem copyPayloads_of_overrun {out : Block} (h : out.overrun = true) (o : UInt8)
    (ps : List Payload) : (copyPayloads out o ps).1.overrun = true := by
  induction ps generalizing out o with
  | nil => exact h
  | cons pl ps ih =>
      rw [copyPayloads]
      apply ih
      simp only [Block.overrun_memcpy_of_overrun h, Bool.true_or]

theorem copyPayloads_of_child {pl : Payload} {ps : List Payload} (hmem : pl ∈ ps)
    (h : pl.out.overrun = true) (out : Block) (o : UInt8) :
    (copyPayloads out o ps).1.overrun = true := by
  induction ps generalizing out o with
  | nil => simp at hmem
  | cons q ps ih =>
      rw [copyPayloads]
      rcases List.mem_cons.mp hmem with rfl | hrest
      · exact copyPayloads_of_overrun (by simp [h]) _ ps
      · exact ih hrest _ _

/-- Too many bytes are noticed at the payload that crosses the end of the block, where
the offset has not wrapped yet. -/
theorem copyPayloads_of_long (ps : List Payload)
    (hsize : ∀ pl ∈ ps, pl.out.bytes.length = pl.size.toNat) (out : Block) (o : UInt8)
    (ho : o.toNat ≤ out.bytes.length) (hsmall : out.bytes.length < 256)
    (hlong : out.bytes.length < o.toNat + (contents ps).length) :
    (copyPayloads out o ps).1.overrun = true := by
  induction ps generalizing out o with
  | nil =>
      rw [contents, List.flatMap_nil, List.length_nil] at hlong
      omega
  | cons pl ps ih =>
      have hlength := hsize pl (by simp)
      have hcons : contents (pl :: ps) = pl.out.bytes ++ contents ps := rfl
      rw [hcons, List.length_append] at hlong
      rw [copyPayloads]
      by_cases hcross : out.bytes.length < o.toNat + pl.out.bytes.length
      · have hne : pl.out.bytes ≠ [] := by
          intro hnil
          rw [hnil, List.length_nil] at hcross
          omega
        apply copyPayloads_of_overrun
        simp [Block.overrun_memcpy _ _ hne, hcross]
      · have hoffset : (o + pl.size).toNat = o.toNat + pl.out.bytes.length := by
          rw [UInt8.toNat_add, ← hlength]
          exact Nat.mod_eq_of_lt (by omega)
        apply ih (fun q hq => hsize q (by simp [hq]))
        · rw [hoffset, Block.length_memcpy]
          omega
        · rw [Block.length_memcpy]
          exact hsmall
        · rw [hoffset, Block.length_memcpy]
          omega

theorem payloads_sized (es : List Elem) :
    ∀ pl ∈ payloads es, pl.out.bytes.length = pl.size.toNat := by
  intro pl hpl
  obtain ⟨e, _, rfl⟩ := mem_payloads hpl
  exact e.length_getPayload

theorem Elem.contentLength_le_of_fits {e : Elem} (h : e.Fits) : e.contentLength ≤ 253 := by
  cases e with
  | integer type v =>
      rw [Elem.contentLength]
      split <;> decide
  | octetString v => exact h
  | oid v => exact h
  | null => exact Nat.zero_le _
  | sequence es => exact h.1
  | pdu type es => exact h.1

theorem length_contents {es : List Elem} (h : AllFit es) :
    (contents (payloads es)).length = contentLengths es := by
  induction es with
  | nil => rfl
  | cons e es ih =>
      have he : e.getPayload.out.bytes.length = e.contentLength + 2 := by
        have hle := e.contentLength_le_of_fits h.1
        rw [e.length_getPayload, e.size_getPayload, UInt8.toNat_ofNat']
        exact Nat.mod_eq_of_lt (by omega)
      rw [payloads, contentLengths, ← ih h.2, contents, List.flatMap_cons, List.length_append, he,
        contents]
      omega

theorem out_sequencePayload {es : List Elem} (hfit : AllFit es) (hle : contentLengths es ≤ 253)
    (hclean : ∀ pl ∈ payloads es, pl.out.overrun = false) :
    (sequencePayload (UInt8.ofNat (contentLengths es)) (payloads es)).out =
      ⟨[0x30, UInt8.ofNat (contentLengths es)] ++ contents (payloads es), false⟩ := by
  have hsize : (UInt8.ofNat (contentLengths es) + 2).toNat = contentLengths es + 2 := by
    rw [UInt8.toNat_add, UInt8.toNat_ofNat']
    have htwo : (2 : UInt8).toNat = 2 := rfl
    omega
  have hlen : UInt8.ofNat (contentLengths es) + 2 - 2 = UInt8.ofNat (contentLengths es) :=
    UInt8.add_sub_cancel _ _
  rw [sequencePayload, hsize, hlen]
  simp only [malloc_write_two]
  apply copyPayloads_fill _ hclean (payloads_sized es)
  · rfl
  · rw [List.length_replicate, length_contents hfit]
  · rw [List.length_replicate, List.length_cons, List.length_singleton]
    omega

theorem overrun_sequencePayload {es : List Elem} (hfit : AllFit es)
    (hlong : 253 < contentLengths es) :
    (sequencePayload (UInt8.ofNat (contentLengths es)) (payloads es)).out.overrun = true := by
  have hsize : (UInt8.ofNat (contentLengths es) + 2).toNat = (contentLengths es + 2) % 256 := by
    rw [UInt8.toNat_add, UInt8.toNat_ofNat']
    have htwo : (2 : UInt8).toNat = 2 := rfl
    omega
  have hcontents := length_contents hfit
  rw [sequencePayload]
  simp only
  generalize UInt8.ofNat (contentLengths es) + 2 = outSize at *
  by_cases hheader : outSize.toNat < 2
  · apply copyPayloads_of_overrun
    rw [Block.overrun_write, Block.length_write, Block.length_malloc]
    simp only [Bool.or_eq_true, decide_eq_true_eq]
    exact Or.inr (by omega)
  · have htwo : (2 : UInt8).toNat = 2 := rfl
    apply copyPayloads_of_long _ (payloads_sized es)
    · rw [Block.length_write, Block.length_write, Block.length_malloc]
      omega
    · rw [Block.length_write, Block.length_write, Block.length_malloc]
      exact outSize.toNat_lt
    · rw [Block.length_write, Block.length_write, Block.length_malloc]
      omega

/-! ## Whole trees -/

theorem bytesPayload_inside_iff (type : UInt8) (v : List UInt8) :
    (bytesPayload type v).out.overrun = false ↔ v.length % 256 ≤ 253 := by
  by_cases h : v.length % 256 ≤ 253
  · simp only [out_bytesPayload type h, h]
  · simp [overrun_bytesPayload type (Nat.lt_of_not_le h), h]

theorem sequencePayload_inside_iff {es : List Elem}
    (hchildren : (∀ pl ∈ payloads es, pl.out.overrun = false) ↔ AllFit es) :
    (sequencePayload (UInt8.ofNat (contentLengths es)) (payloads es)).out.overrun = false ↔
      contentLengths es ≤ 253 ∧ AllFit es := by
  constructor
  · intro hinside
    have hclean : ∀ pl ∈ payloads es, pl.out.overrun = false := by
      intro pl hpl
      by_contra hoverrun
      have hmark := copyPayloads_of_child hpl (by simpa using hoverrun)
      rw [sequencePayload] at hinside
      simp only [hmark] at hinside
      exact absurd hinside (by decide)
    have hfit := hchildren.mp hclean
    refine ⟨?_, hfit⟩
    by_contra hlong
    rw [overrun_sequencePayload hfit (Nat.lt_of_not_le hlong)] at hinside
    exact absurd hinside (by decide)
  · intro hfits
    rcases hfits with ⟨hle, hfit⟩
    rw [out_sequencePayload hfit hle (hchildren.mpr hfit)]

theorem pduPayload_inside_iff (type : UInt8) {es : List Elem}
    (hchildren : (∀ pl ∈ payloads es, pl.out.overrun = false) ↔ AllFit es) :
    (((sequencePayload (UInt8.ofNat (contentLengths es)) (payloads es)).out.write 0
      type).overrun = false) ↔ contentLengths es ≤ 253 ∧ AllFit es := by
  rw [← sequencePayload_inside_iff hchildren, Block.overrun_write]
  constructor
  · intro h
    exact (Bool.or_eq_false_iff.mp h).1
  · intro h
    obtain ⟨hle, hfit⟩ := (sequencePayload_inside_iff hchildren).mp h
    rw [out_sequencePayload hfit hle (hchildren.mpr hfit)]
    rfl

mutual

/-- A tree is put out within its blocks exactly when all of it fits. -/
theorem Elem.inside_iff_fits (e : Elem) : e.getPayload.out.overrun = false ↔ e.Fits := by
  cases e with
  | integer type v => simp [Elem.getPayload, out_integerPayload, Elem.Fits]
  | octetString v => exact bytesPayload_inside_iff 0x04 v
  | oid v => exact bytesPayload_inside_iff 0x06 v
  | null => simp [Elem.getPayload, nullPayload, Block.malloc, Block.write, Elem.Fits]
  | sequence es =>
      rw [Elem.getPayload, Elem.getSize_eq, Elem.contentLength, Elem.Fits]
      exact sequencePayload_inside_iff (payloads_inside_iff es)
  | pdu type es =>
      rw [Elem.getPayload, Elem.getSize_eq, Elem.contentLength, Elem.Fits]
      exact pduPayload_inside_iff type (payloads_inside_iff es)

theorem payloads_inside_iff (es : List Elem) :
    (∀ pl ∈ payloads es, pl.out.overrun = false) ↔ AllFit es := by
  cases es with
  | nil => simp [payloads, AllFit]
  | cons e es =>
      rw [payloads, List.forall_mem_cons, AllFit, e.inside_iff_fits, payloads_inside_iff es]

end

theorem contents_payloads (es : List Elem) :
    contents (payloads es) = es.flatMap fun e => e.getPayload.out.bytes := by
  induction es with
  | nil => rfl
  | cons e es ih => rw [payloads, List.flatMap_cons, ← ih, contents, List.flatMap_cons, contents]

theorem toNat_ofNat_of_le {n : ℕ} (h : n ≤ 253) : (UInt8.ofNat n).toNat = n := by
  rw [UInt8.toNat_ofNat']
  exact Nat.mod_eq_of_lt (by omega)

theorem Elem.framed_of_fits {e : Elem} (h : e.Fits) :
    ∃ type length content, e.getPayload.out.bytes = type :: length :: content ∧
      length.toNat = content.length ∧
      ∀ es, e.children = some es → content = es.flatMap fun e => e.getPayload.out.bytes := by
  cases e with
  | integer type v =>
      refine ⟨type.snmpType, integerLen v, bigEndian (integerLen v).toNat v, ?_, ?_, ?_⟩
      · exact congrArg Block.bytes (out_integerPayload type v)
      · simp [bigEndian]
      · simp [Elem.children]
  | octetString v =>
      refine ⟨0x04, UInt8.ofNat v.length, v.take (v.length % 256), ?_, ?_, ?_⟩
      · exact congrArg Block.bytes (out_bytesPayload 0x04 h)
      · rw [List.length_take, Nat.min_eq_left (Nat.mod_le _ _)]
        exact UInt8.toNat_ofNat'
      · simp [Elem.children]
  | oid v =>
      refine ⟨0x06, UInt8.ofNat v.length, v.take (v.length % 256), ?_, ?_, ?_⟩
      · exact congrArg Block.bytes (out_bytesPayload 0x06 h)
      · rw [List.length_take, Nat.min_eq_left (Nat.mod_le _ _)]
        exact UInt8.toNat_ofNat'
      · simp [Elem.children]
  | null => exact ⟨0x05, 0x00, [], rfl, rfl, by simp [Elem.children]⟩
  | sequence es =>
      have hout := out_sequencePayload h.2 h.1 ((payloads_inside_iff es).mpr h.2)
      refine ⟨0x30, UInt8.ofNat (contentLengths es), contents (payloads es), ?_, ?_, ?_⟩
      · rw [Elem.getPayload, Elem.getSize_eq, Elem.contentLength, hout]
        rfl
      · rw [length_contents h.2, toNat_ofNat_of_le h.1]
      · intro ds hds
        obtain rfl := Option.some.inj hds
        exact contents_payloads es
  | pdu type es =>
      have hout := out_sequencePayload h.2 h.1 ((payloads_inside_iff es).mpr h.2)
      refine ⟨type, UInt8.ofNat (contentLengths es), contents (payloads es), ?_, ?_, ?_⟩
      · rw [Elem.getPayload, Elem.getSize_eq, Elem.contentLength]
        simp only [hout]
        rfl
      · rw [length_contents h.2, toNat_ofNat_of_le h.1]
      · intro ds hds
        obtain rfl := Option.some.inj hds
        exact contents_payloads es

/-- A tree is put out as it should exactly when all of it fits. -/
theorem Elem.encodes_iff (e : Elem) : e.Encodes ↔ e.Fits := by
  constructor
  · intro h
    exact e.inside_iff_fits.mp h.inside
  · intro h
    exact ⟨e.inside_iff_fits.mpr h, e.asserted_getPayload, e.framed_of_fits h⟩

/-- A request with a community string of 230 bytes and no OID. -/
def longCommunity : OidReq := { community := List.replicate 230 (ch 'a') }

/-- Its reply has 260 content bytes, for which six bytes are allocated. -/
theorem not_encodes_longCommunity : ¬ (genReply (fun _ => none) longCommunity).Encodes := by
  intro h
  have hfits := (genReply (fun _ => none) longCommunity).inside_iff_fits.mp h.inside
  have hle := Elem.contentLength_le_of_fits hfits
  have hlength : (genReply (fun _ => none) longCommunity).contentLength = 260 := by
    decide +kernel
  omega

end HamRouter.Snmp
