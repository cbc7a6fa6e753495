import HamRouter.Model.StatsTable
import HamRouter.Verification.Snmp.Lookup

/-! # The segment of shared memory always holds the statistics

Each call changes the table as it should, the segment is the records of the table and zeros, and
nothing is written behind its end. -/

namespace HamRouter.Stats

open Memory Snmp

variable {base : List (StdString × SnmpDataType)} {size : ℕ} {table : Table} {s : Store}

/-! ## Records -/

theorem length_bytes (e : Entry) : e.bytes.length = 48 := by
  have hname : (e.name.take 31).length = min e.name.length 31 := by
    rw [List.length_take, Nat.min_comm]
  rw [Entry.bytes, Entry.nameField, List.length_append, List.length_append, List.length_append,
    length_wordBytes, length_wordBytes, hname, List.length_replicate]
  omega

/-- A name is in the table once, or not at all. -/
theorem exists_split (hnodup : (table.map Entry.name).Nodup) (name : StdString) :
    (name ∉ table.map Entry.name) ∨
      ∃ front e back, table = front ++ e :: back ∧ e.name = name ∧
        name ∉ front.map Entry.name ∧ name ∉ back.map Entry.name := by
  by_cases hmem : name ∈ table.map Entry.name
  · obtain ⟨e, he, rfl⟩ := List.mem_map.mp hmem
    obtain ⟨front, back, rfl⟩ := List.append_of_mem he
    rw [List.map_append, List.map_cons, List.nodup_append, List.nodup_cons] at hnodup
    refine Or.inr ⟨front, e, back, rfl, rfl, ?_, hnodup.2.1.1⟩
    intro hfront
    exact hnodup.2.2 _ hfront _ List.mem_cons_self rfl
  · exact Or.inl hmem

theorem lookup_places_of_not_mem {name : StdString} {k : ℕ} (h : name ∉ table.map Entry.name) :
    ((table.zipIdx k).map fun e => (e.1.name, StatsT.mk (48 * e.2) e.1.oid)).lookup name =
      none := by
  rw [List.lookup_eq_none_iff]
  intro place hplace
  obtain ⟨⟨e, i⟩, hmem, rfl⟩ := List.mem_map.mp hplace
  have hne : name ≠ e.name := by
    rintro rfl
    exact h (List.mem_map_of_mem (List.fst_mem_of_mem_zipIdx hmem))
  simpa using hne

/-- The place of a statistic is that of its record. -/
theorem lookup_places_split {front back : Table} {e : Entry} (h : e.name ∉ front.map Entry.name) :
    (Table.places (front ++ e :: back)).lookup e.name = some ⟨48 * front.length, e.oid⟩ := by
  rw [Table.places, List.zipIdx_append, List.map_append, List.lookup_append,
    lookup_places_of_not_mem h, List.zipIdx_cons, List.map_cons, List.lookup_cons_self]
  simp

theorem update_of_not_mem {name : StdString} (g : Entry → Entry)
    (h : name ∉ table.map Entry.name) : table.update name g = table := by
  have hsame : ∀ e ∈ table, (if e.name = name then g e else e) = e := by
    intro e he
    have hne : e.name ≠ name := by
      rintro rfl
      exact h (List.mem_map_of_mem he)
    rw [if_neg hne]
  exact (List.map_congr_left hsame).trans (List.map_id _)

theorem update_split {front back : Table} {e : Entry} (g : Entry → Entry)
    (hfront : e.name ∉ front.map Entry.name) (hback : e.name ∉ back.map Entry.name) :
    (front ++ e :: back : Table).update e.name g = front ++ g e :: back := by
  have hmap : (front ++ e :: back : Table).update e.name g =
      front.update e.name g ++ g e :: back.update e.name g := by
    simp [Table.update]
  rw [hmap, update_of_not_mem g hfront, update_of_not_mem g hback]

/-! ## Counters -/

/-- An entry changed in one word, `offset` bytes behind its beginning. -/
structure Edits (offset : ℕ) (f : UInt64 → UInt64) (g : Entry → Entry) : Prop where
  name : ∀ e, (g e).name = e.name
  oid : ∀ e, (g e).oid = e.oid
  type : ∀ e, (g e).type = e.type
  word : ∀ e, ∃ start v finish, start.length = offset ∧
    e.bytes = start ++ wordBytes v ++ finish ∧ (g e).bytes = start ++ wordBytes (f v) ++ finish

theorem edits_value (f : UInt64 → UInt64) : Edits 0 f fun e => { e with value := f e.value } := by
  refine ⟨fun _ => rfl, fun _ => rfl, fun _ => rfl, fun e =>
    ⟨[], e.value, wordBytes e.count ++ e.nameField, rfl, ?_, ?_⟩⟩
  · exact List.append_assoc _ _ _
  · exact List.append_assoc _ _ _

theorem edits_count (f : UInt64 → UInt64) : Edits 8 f fun e => { e with count := f e.count } :=
  ⟨fun _ => rfl, fun _ => rfl, fun _ => rfl, fun e =>
    ⟨wordBytes e.value, e.count, e.nameField, length_wordBytes _, rfl, rfl⟩⟩

variable {offset : ℕ} {f : UInt64 → UInt64} {g : Entry → Entry}

theorem Edits.map_zipIdx (hg : Edits offset f g) (table : Table) (name : StdString)
    {γ : Type*} (look : StdString → StdString → IntegerType → ℕ → γ) :
    (table.update name g).zipIdx.map (fun e => look e.1.name e.1.oid e.1.type e.2) =
      table.zipIdx.map fun e => look e.1.name e.1.oid e.1.type e.2 := by
  rw [Table.update, List.zipIdx_map, List.map_map]
  refine List.map_congr_left fun e _ => ?_
  simp only [Function.comp_apply, Prod.map_fst, Prod.map_snd, id_eq]
  split
  · rw [hg.name, hg.oid, hg.type]
  · rfl

theorem Edits.names (hg : Edits offset f g) (table : Table) (name : StdString) :
    (table.update name g).map Entry.name = table.map Entry.name := by
  rw [Table.update, List.map_map]
  refine List.map_congr_left fun e _ => ?_
  rw [Function.comp_apply]
  split
  · exact hg.name e
  · rfl

/-- A word changed through the pointer of a name changes the statistic of that name, and
nothing else; the null pointer changes nothing. -/
theorem Represents.changed (h : Represents base size table s) (hg : Edits offset f g)
    (name : StdString) :
    Represents base size (table.update name g) (s.changed ((s.findStat name).map (· + offset)) f) := by
  have hplaces : (table.update name g).places = table.places :=
    hg.map_zipIdx table name fun name oid _ i => (name, StatsT.mk (48 * i) oid)
  have hregistrations : (table.update name g).registrations = table.registrations := by
    rw [Table.registrations, Table.registrations,
      hg.map_zipIdx table name fun _ oid type i => (oid, SnmpDataType.stats type (48 * i))]
  have hlength : (table.update name g).length = table.length := List.length_map _
  rcases exists_split h.names name with hnot | ⟨front, e, back, rfl, rfl, hfront, hback⟩
  · have hnull : s.findStat name = none := by
      rw [Store.findStat, h.lut, Table.places, lookup_places_of_not_mem hnot]
      rfl
    rw [hnull, update_of_not_mem g hnot]
    exact h
  · obtain ⟨start, v, finish, hstart, hbytes, hbytes'⟩ := hg.word e
    have hpointer : s.findStat e.name = some (48 * front.length) := by
      rw [Store.findStat, h.lut, lookup_places_split hfront]
      rfl
    have hword := Block.word_record length_bytes front back hbytes
      (List.replicate (size - 48 * (front ++ e :: back).length) 0) false
    have hedit := Block.memcpy_record length_bytes front back hbytes hbytes'
      ((length_wordBytes (f v)).trans (length_wordBytes v).symm)
      (List.replicate (size - 48 * (front ++ e :: back).length) 0) false
    rw [hstart] at hword hedit
    rw [hpointer, Option.map_some, Store.changed, h.segment, hword, Block.setWord, hedit]
    constructor
    · exact h.size_eq
    · rw [hlength]
      exact h.fits
    · rw [hlength, update_split g hfront hback]
    · rw [hlength]
      exact h.len
    · rw [hg.names]
      exact h.names
    · rw [hplaces]
      exact h.lut
    · rw [hregistrations]
      exact h.tree

/-! ## Registrations -/

theorem mem_lut_iff (h : Represents base size table s) (name : StdString) :
    name ∈ s.lut ↔ name ∈ table.map Entry.name := by
  rw [← AList.lookup_isSome, h.lut]
  rcases exists_split h.names name with hnot | ⟨front, e, back, rfl, rfl, hfront, -⟩
  · rw [Table.places, lookup_places_of_not_mem hnot]
    simp [hnot]
  · rw [lookup_places_split hfront]
    simp

theorem wordBytes_zero : wordBytes 0 = List.replicate 8 0 := by decide

/-- The record of a statistic that is not there yet. -/
def blank (type : IntegerType) : Entry := .fresh [] [] type

theorem bytes_blank (type : IntegerType) : (blank type).bytes = List.replicate 48 0 := by
  change wordBytes 0 ++ wordBytes 0 ++ List.replicate 32 0 = _
  rw [wordBytes_zero, List.replicate_append_replicate, List.replicate_append_replicate]

theorem segment_blank (type : IntegerType) (hfits : 48 * (table.length + 1) ≤ size) :
    table.flatMap Entry.bytes ++ List.replicate (size - 48 * table.length) 0 =
      (table ++ [blank type]).flatMap Entry.bytes ++
        List.replicate (size - 48 * (table.length + 1)) 0 := by
  have hsize : size - 48 * table.length = 48 + (size - 48 * (table.length + 1)) := by omega
  rw [hsize, List.flatMap_append, List.flatMap_singleton, bytes_blank, List.append_assoc,
    List.replicate_append_replicate]

/-- The writes of `register_stat` make the cleared record that of the statistic. -/
theorem segment_register (front : Table) (name oid : StdString) (type : IntegerType)
    (rest : List UInt8) :
    (((((Block.mk ((front ++ [blank type]).flatMap Entry.bytes ++ rest) false).setWord
        (48 * front.length) 0).setWord (48 * front.length + 8) 0).memcpy
          (48 * front.length + 16) (name.take (min name.length 31))).write
            (48 * front.length + 16 + min name.length 31) 0) =
      ⟨(front ++ [Entry.fresh name oid type]).flatMap Entry.bytes ++ rest, false⟩ := by
  have hcopy : name.take (min name.length 31) = name.take 31 := by
    rw [Nat.min_comm, ← List.take_take, List.take_length]
  have hlength : (name.take 31).length = min name.length 31 := by
    rw [List.length_take, Nat.min_comm]
  have hle : min name.length 31 ≤ 31 := Nat.min_le_right _ _
  have hvalue : (blank type).bytes = [] ++ wordBytes 0 ++ List.replicate 40 0 := by
    rw [bytes_blank, wordBytes_zero, List.nil_append, List.replicate_append_replicate]
  have hcount : (blank type).bytes = wordBytes 0 ++ wordBytes 0 ++ List.replicate 32 0 := by
    rw [bytes_blank, wordBytes_zero, List.replicate_append_replicate,
      List.replicate_append_replicate]
  have hname : (blank type).bytes = (wordBytes 0 ++ wordBytes 0) ++
      List.replicate (min name.length 31) 0 ++ List.replicate (32 - min name.length 31) 0 := by
    rw [hcount, List.append_assoc _ (List.replicate _ _), List.replicate_append_replicate,
      Nat.add_sub_of_le (hle.trans (by decide))]
  have hnamed : (Entry.fresh name oid type).bytes = (wordBytes 0 ++ wordBytes 0) ++ name.take 31 ++
      List.replicate (32 - min name.length 31) 0 := (List.append_assoc _ _ _).symm
  have hclosed : (Entry.fresh name oid type).bytes =
      (wordBytes 0 ++ wordBytes 0 ++ name.take 31) ++ [0] ++
        List.replicate (31 - min name.length 31) 0 := by
    have hzeros : 32 - min name.length 31 = 31 - min name.length 31 + 1 := by omega
    rw [hnamed, hzeros, List.replicate_succ, List.append_assoc _ [0]]
    rfl
  have hone := Block.memcpy_record length_bytes front [] hvalue hvalue rfl rest false
  have htwo := Block.memcpy_record length_bytes front [] hcount hcount rfl rest false
  have hthree := Block.memcpy_record length_bytes front [] hname hnamed
    (by rw [hlength, List.length_replicate]) rest false
  have hfour := Block.memcpy_record length_bytes front [] hclosed hclosed rfl rest false
  rw [List.length_nil, Nat.add_zero] at hone
  rw [length_wordBytes] at htwo
  rw [List.length_append, length_wordBytes] at hthree
  rw [List.length_append, List.length_append, length_wordBytes, hlength, ← Nat.add_assoc] at hfour
  rw [Block.setWord, Block.setWord, hone, htwo, hcopy]
  exact (congrArg (Block.write · _ 0) hthree).trans hfour

theorem registrations_snoc (table : Table) (name oid : StdString) (type : IntegerType) :
    Table.registrations (table ++ [.fresh name oid type]) = table.registrations ++
      if oid = [] then [] else [(oid, .stats type (48 * table.length))] := by
  rw [Table.registrations, List.zipIdx_append, List.map_append, List.filter_append,
    ← Table.registrations]
  congr 1
  by_cases hoid : oid = []
  · simp [Entry.fresh, hoid]
  · simp [Entry.fresh, hoid]

theorem Represents.registerStat (h : Represents base size table s) (name oid : StdString)
    (type : IntegerType) (hfits : 48 * (table.length + 1) ≤ size)
    (hnew : name ∉ table.map Entry.name) :
    ∃ s', s.registerStat name oid type = .ok (s', 48 * table.length) ∧
      Represents base size (table ++ [.fresh name oid type]) s' := by
  have hroom : ¬ s.len + 48 > s.size := by
    rw [h.len, h.size_eq]
    omega
  have hlut : name ∉ s.lut := by rwa [mem_lut_iff h]
  rw [Store.registerStat, if_neg hroom, if_neg hlut, h.len]
  refine ⟨_, rfl, h.size_eq, ?_, ?_, ?_, ?_, ?_, ?_⟩
  · rwa [List.length_append]
  · dsimp only
    rw [h.segment, segment_blank type hfits, segment_register, List.length_append]
    rfl
  · dsimp only
    rw [List.length_append]
    rfl
  · rw [List.map_append, List.nodup_append]
    refine ⟨h.names, List.nodup_singleton _, ?_⟩
    rintro old hold new hnew' rfl
    obtain rfl := List.mem_singleton.mp hnew'
    exact hnew hold
  · intro other
    dsimp only
    by_cases hother : other = name
    · subst hother
      rw [AList.lookup_insert]
      exact (lookup_places_split (e := .fresh other oid type) hnew).symm
    · rw [AList.lookup_insert_ne hother, h.lut, Table.places, Table.places, List.zipIdx_append,
        List.map_append, List.lookup_append]
      have hlast : List.lookup other [(name, StatsT.mk (48 * table.length) oid)] = none := by
        rw [List.lookup_cons, beq_eq_false_iff_ne.mpr hother]
        rfl
      have hone : (List.zipIdx [Entry.fresh name oid type] (0 + table.length)).map
          (fun e => (e.1.name, StatsT.mk (48 * e.2) e.1.oid)) =
            [(name, StatsT.mk (48 * table.length) oid)] := by
        rw [Nat.zero_add]
        rfl
      rw [hone, hlast, Option.or_none]
  · dsimp only
    rw [registrations_snoc, h.tree]
    by_cases hoid : oid = []
    · rw [if_pos hoid, if_pos hoid, List.append_nil]
    · rw [if_neg hoid, if_neg hoid, ← List.append_assoc]
      rw [SnmpData.registered, SnmpData.registered, List.foldl_append (l := base ++ _)]
      rfl

/-! ## Runs -/

theorem Represents.new (base : List (StdString × SnmpDataType)) (size : ℕ) :
    Represents base size [] (Store.new size (SnmpData.registered base)) :=
  ⟨rfl, Nat.zero_le _, rfl, rfl, List.nodup_nil, fun _ => rfl, by
    rw [Table.registrations, List.zipIdx_nil, List.map_nil, List.filter_nil, List.append_nil]
    rfl⟩

theorem Represents.counted (h : Represents base size table s) (f : UInt64 → UInt64)
    (name : StdString) :
    Represents base size (table.update name fun e => { e with value := f e.value })
      (s.changed (s.findStat name) f) := by
  have hchanged := h.changed (edits_value f) name
  have hid : (s.findStat name).map (· + 0) = s.findStat name := by simp
  rw [hid] at hchanged
  exact hchanged

theorem findStat_changed (p : Option ℕ) (f : UInt64 → UInt64) (name : StdString) :
    (s.changed p f).findStat name = s.findStat name := by
  cases p with
  | none => rfl
  | some p => simp only [Store.findStat, Store.changed]

theorem Represents.averaged (h : Represents base size table s) (val : UInt64)
    (name : StdString) :
    Represents base size
      (table.update name fun e => { e with value := e.value + val, count := e.count + 1 })
      ((s.changed ((s.findStat name).map (· + 8)) statsIncCounter).changed (s.findStat name)
        (statsAddCounter · val)) := by
  have hcount := h.changed (edits_count statsIncCounter) name
  have hboth := hcount.counted (statsAddCounter · val) name
  have hupdate : (table.update name fun e => { e with count := statsIncCounter e.count }).update
      name (fun e => { e with value := statsAddCounter e.value val }) =
        table.update name fun e => { e with value := e.value + val, count := e.count + 1 } := by
    rw [Table.update, Table.update, List.map_map]
    refine List.map_congr_left fun e _ => ?_
    rw [Function.comp_apply]
    by_cases he : e.name = name
    · rw [if_pos he, if_pos he, if_pos he]
      rfl
    · rw [if_neg he, if_neg he, if_neg he]
  rwa [findStat_changed, hupdate] at hboth

/-- Every call does to the store what it does to the table. -/
theorem Represents.follows_call (h : Represents base size table s) (c : Call) :
    Follows base size (table.call size c) (s.call c) := by
  cases c with
  | registerStat name oid type =>
      by_cases hfull : size < 48 * (table.length + 1)
      · have hroom : s.len + 48 > s.size := by
          rw [h.len, h.size_eq]
          omega
        rw [Table.call, if_pos hfull, Store.call, Store.registerStat, if_pos hroom]
        exact rfl
      · have hany : table.any (·.name = name) ↔ name ∈ table.map Entry.name := by simp
        by_cases hthere : name ∈ table.map Entry.name
        · have hroom : ¬ s.len + 48 > s.size := by
            rw [h.len, h.size_eq]
            omega
          rw [Table.call, if_neg hfull, if_pos (hany.mpr hthere), Store.call, Store.registerStat,
            if_neg hroom, if_pos ((mem_lut_iff h name).mpr hthere)]
          exact rfl
        · obtain ⟨s', hs', hrepresents⟩ :=
            h.registerStat name oid type (Nat.le_of_not_lt hfull) hthere
          rw [Table.call, if_neg hfull, if_neg (mt hany.mp hthere), Store.call, hs']
          exact hrepresents
  | incCounter name => exact h.counted statsIncCounter name
  | addCounter name value => exact h.counted (statsAddCounter · value) name
  | set name value => exact h.counted (fun _ => value) name
  | addAverage name val => exact h.averaged (UInt64.ofInt val) name

theorem Represents.follows_run (h : Represents base size table s) (calls : List Call) :
    Follows base size (table.run size calls) (s.run calls) := by
  induction calls generalizing table s with
  | nil => exact h
  | cons c rest ih =>
      have hcall := h.follows_call c
      rw [Table.run, Store.run, List.foldlM_cons, List.foldlM_cons]
      cases htable : table.call size c with
      | error e =>
          cases hstore : s.call c with
          | error e' =>
              rw [htable, hstore] at hcall
              exact hcall
          | ok s' =>
              rw [htable, hstore] at hcall
              exact hcall.elim
      | ok table' =>
          cases hstore : s.call c with
          | error e =>
              rw [htable, hstore] at hcall
              exact hcall.elim
          | ok s' =>
              rw [htable, hstore] at hcall
              exact ih hcall

/-- Any sequence of calls on a new store ends in the error that the table says, or leaves the
segment with the records of the table, zeros behind them and nothing written behind its end. -/
theorem store_follows (base : List (StdString × SnmpDataType)) (size : ℕ) (calls : List Call) :
    Follows base size (Table.run size [] calls)
      ((Store.new size (SnmpData.registered base)).run calls) :=
  (Represents.new base size).follows_run calls

/-! ## What is read -/

/-- The counter of a statistic is at its place. -/
theorem Represents.word {front back : Table} {e : Entry}
    (h : Represents base size (front ++ e :: back) s) :
    s.p.word (48 * front.length) = e.value := by
  have hbytes : e.bytes = [] ++ wordBytes e.value ++ (wordBytes e.count ++ e.nameField) :=
    List.append_assoc _ _ _
  rw [h.segment]
  exact Block.word_record length_bytes front back hbytes _ false

theorem lookup_snapshot (s : Store) (name : StdString) :
    s.snapshot.lookup name =
      (s.lut.lookup name).map fun place => decimal (s.p.word place.p).toNat := by
  have hfold : ∀ (entries : List (Sigma fun _ : StdString => StatsT))
      (out : AList fun _ : StdString => StdString),
      (entries.foldl (fun out entry => if entry.1 ∈ out then out
        else out.insert entry.1 (decimal (s.p.word entry.2.p).toNat)) out).lookup name =
          (out.lookup name).or
            ((entries.dlookup name).map fun place => decimal (s.p.word place.p).toNat) := by
    intro entries
    induction entries with
    | nil =>
        intro out
        exact (Option.or_none).symm
    | cons entry rest ih =>
        intro out
        rw [List.foldl_cons, ih]
        by_cases hname : name = entry.1
        · subst hname
          rw [List.dlookup_cons_eq]
          by_cases hthere : entry.1 ∈ out
          · obtain ⟨text, htext⟩ := Option.isSome_iff_exists.mp (AList.lookup_isSome.mpr hthere)
            rw [if_pos hthere, htext]
            rfl
          · rw [if_neg hthere, AList.lookup_insert, AList.lookup_eq_none.mpr hthere]
            rfl
        · rw [List.dlookup_cons_ne _ _ hname]
          split
          · rfl
          · rw [AList.lookup_insert_ne hname]
  exact (hfold s.lut.entries ∅).trans rfl

theorem Represents.snapshot (h : Represents base size table s) {e : Entry} (he : e ∈ table) :
    s.snapshot.lookup e.name = some (decimal e.value.toNat) := by
  rcases exists_split h.names e.name with hnot | ⟨front, e', back, rfl, hname, hfront, hback⟩
  · exact absurd (List.mem_map_of_mem he) hnot
  · have hsame : e' = e := by
      rcases List.mem_append.mp he with hmem | hmem
      · exact absurd (List.mem_map_of_mem hmem) hfront
      · rcases List.mem_cons.mp hmem with heq | hmem
        · exact heq.symm
        · exact absurd (List.mem_map_of_mem hmem) hback
    subst hsame
    rw [lookup_snapshot, h.lut, lookup_places_split hfront, Option.map_some, h.word]

/-- The OID of a statistic is answered with its counter. -/
theorem Represents.answers (h : Represents base size table s)
    {entries : List (SnmpData.DottedOid × SnmpDataType)}
    (hentries : entries.map (fun entry => (entry.1.text, entry.2)) = base ++ table.registrations)
    (hdistinct : (entries.map (·.1.ids)).Nodup) (hunshadowed : SnmpData.Unshadowed entries)
    {e : Entry} (he : e ∈ table) (hoid : e.oid ≠ []) (us : UInt64) :
    (SnmpData.findByOid s.sd e.oid).map (·.map (s.getData us)) =
      some (some (.integer e.type e.value)) := by
  obtain ⟨front, back, rfl⟩ := List.append_of_mem he
  have hregistered : (e.oid, SnmpDataType.stats e.type (48 * front.length)) ∈
      base ++ Table.registrations (front ++ e :: back) := by
    refine List.mem_append_right _ (List.mem_filter.mpr ⟨?_, by simpa using hoid⟩)
    refine List.mem_map.mpr ⟨(e, front.length), ?_, rfl⟩
    rw [List.zipIdx_append, List.zipIdx_cons, Nat.zero_add]
    exact List.mem_append_right _ List.mem_cons_self
  rw [← hentries] at hregistered
  obtain ⟨entry, hentry, heq⟩ := List.mem_map.mp hregistered
  obtain ⟨htext, hdata⟩ := Prod.mk.inj heq
  have hfound := (SnmpData.allFound_iff_unshadowed hdistinct).mpr hunshadowed entry hentry
  have htree : s.sd = SnmpData.dottedTree entries := by
    rw [h.tree, SnmpData.dottedTree, hentries]
  rw [htree, ← htext, hfound, hdata, Option.map_some, Option.map_some, Store.getData, h.word]
  rfl

/-- Whatever was called, the web interface and the SNMP agent report the counters of the
table. -/
theorem reported (base : List (StdString × SnmpDataType)) (size : ℕ) (calls : List Call)
    (hrun : Table.run size [] calls = .ok table)
    {entries : List (SnmpData.DottedOid × SnmpDataType)}
    (hentries : entries.map (fun entry => (entry.1.text, entry.2)) = base ++ table.registrations)
    (hdistinct : (entries.map (·.1.ids)).Nodup) (hunshadowed : SnmpData.Unshadowed entries) :
    ∃ s, (Store.new size (SnmpData.registered base)).run calls = .ok s ∧
      ∀ e ∈ table, s.snapshot.lookup e.name = some (decimal e.value.toNat) ∧
        (e.oid ≠ [] → ∀ us, (SnmpData.findByOid s.sd e.oid).map (·.map (s.getData us)) =
          some (some (.integer e.type e.value))) := by
  have hfollows := (Represents.new base size).follows_run calls
  rw [hrun] at hfollows
  cases hstore : (Store.new size (SnmpData.registered base)).run calls with
  | error e =>
      rw [hstore] at hfollows
      exact hfollows.elim
  | ok s =>
      rw [hstore] at hfollows
      refine ⟨s, rfl, fun e he => ⟨hfollows.snapshot he, fun hoid us => ?_⟩⟩
      exact hfollows.answers hentries hdistinct hunshadowed he hoid us

/-- A counter with an OID, and an average without one. -/
def sampleCalls : List Call :=
  [.registerStat (str "frames") (str "1.3.6.1.2.1.2.2.1.11.1") .counter32,
    .incCounter (str "frames"),
    .registerStat (str "load") [] .integer, .addAverage (str "load") (-3),
    .addCounter (str "frames") 41, .incCounter (str "other")]

def sampleTable : Table :=
  [⟨str "frames", str "1.3.6.1.2.1.2.2.1.11.1", .counter32, 42, 0⟩,
    ⟨str "load", [], .integer, 18446744073709551613, 1⟩]

def sampleEntries : List (SnmpData.DottedOid × SnmpDataType) :=
  [(⟨[1, 3, 6, 1, 2, 1, 2, 2, 1, 11, 1], List.cons_ne_nil _ _⟩, .stats .counter32 0)]

theorem reported_sampleCalls :
    ∃ s, (Store.new 8192 (SnmpData.registered [])).run sampleCalls = .ok s ∧
      ∀ e ∈ sampleTable, s.snapshot.lookup e.name = some (decimal e.value.toNat) ∧
        (e.oid ≠ [] → ∀ us, (SnmpData.findByOid s.sd e.oid).map (·.map (s.getData us)) =
          some (some (.integer e.type e.value))) :=
  reported [] 8192 sampleCalls rfl
    (show sampleEntries.map (fun entry => (entry.1.text, entry.2)) = _ from rfl)
    (by decide) (List.pairwise_singleton _ _)

end HamRouter.Stats
