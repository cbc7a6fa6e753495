import HamRouter.Verification.Snmp.Exchange
import HamRouter.Verification.Snmp.OidRoundTrip
import HamRouter.Verification.Snmp.Successor

/-! # A manager that walks over the agent

With each name of a reply in its next request, a manager gets every registered OID, as octets
and in ascending order, and is told when there is no more. -/

namespace HamRouter.Snmp

open SnmpData

/-! ## OIDs as octets -/

/-- The sub-identifiers behind 1.3. -/
def behindIso (o : Oid) : List ℕ := (o.ids.drop 2).map Int.toNat

theorem behindIso_lt (o : Oid) : ∀ i ∈ behindIso o, i < 2 ^ 31 := by
  intro i hi
  obtain ⟨z, hz, rfl⟩ := List.mem_map.mp hi
  have hbounded := o.bounded z (List.mem_of_mem_drop hz)
  omega

theorem octetsOf_eq (o : Oid) : octetsOf o = 43 :: (behindIso o).flatMap Base128.encode := by
  rw [octetsOf, behindIso, List.flatMap_map]

theorem ids_eq {o : Oid} (h : [1, 3] <+: o.ids) :
    o.ids = [1, 3] ++ (behindIso o).map fun i : ℕ => (i : ℤ) := by
  obtain ⟨rest, hrest⟩ := h
  have hdrop : o.ids.drop 2 = rest := by
    rw [← hrest]
    rfl
  have hcast : (behindIso o).map (fun i : ℕ => (i : ℤ)) = rest := by
    rw [behindIso, hdrop, List.map_map]
    refine (List.map_congr_left fun z hz => ?_).trans (List.map_id rest)
    have hbounded := o.bounded z (by rw [← hrest]; exact List.mem_append_right _ hz)
    exact Int.toNat_of_nonneg hbounded.1
  rw [hcast, hrest]

theorem text_eq_isoText {o : Oid} (h : [1, 3] <+: o.ids) : o.text = isoText (behindIso o) := by
  have hsmall := behindIso_lt o
  have hids : o.ids = [1, 3] ++ ((behindIso o).map UInt32.ofNat).map (·.toInt32.toInt) := by
    rw [ids_eq h, List.map_map]
    congr 1
    refine List.map_congr_left fun i hi => ?_
    exact ((toInt_of_lt (ofNat_lt (hsmall i hi))).trans
      (congrArg _ (toNat_ofNat (hsmall i hi)))).symm
  have htop : oidText [1, 3] = str "1.3" := by decide
  rw [Oid.text, hids, oidText_append (by simp), htop, isoText_eq hsmall]

/-- The octets of an OID are accepted, as its text. -/
theorem getOid_octetsOf {o : Oid} (h : [1, 3] <+: o.ids) : getOid (octetsOf o) = some o.text := by
  rw [octetsOf_eq, getOid_encoded (behindIso_lt o), text_eq_isoText h]

/-- The name in a reply are the octets of the OID. -/
theorem written_text {o : Oid} (h : [1, 3] <+: o.ids) (hne : [1, 3] ≠ o.ids) :
    (snmpOid o.text).written = octetsOf o := by
  have hbehind : behindIso o ≠ [] := by
    intro hnil
    have hids := ids_eq h
    rw [hnil] at hids
    exact hne hids.symm
  rw [text_eq_isoText h, written_isoText hbehind (behindIso_lt o), octetsOf_eq]

/-! ## What the agent finds -/

namespace Agent

variable {δ : Type*} (a : Agent δ)

theorem iso_of_asked {o : Oid} (h : o ∈ a.asked) : [1, 3] <+: o.ids := by
  rcases List.mem_cons.mp h with rfl | hentry
  · exact a.iso
  · obtain ⟨entry, hmem, rfl⟩ := List.mem_map.mp hentry
    exact a.iso.trans (a.below entry hmem).1

theorem iso_ne {entry : Oid × δ} (h : entry ∈ a.entries) : [1, 3] ≠ entry.1.ids := by
  intro heq
  obtain ⟨hbegins, hne⟩ := a.below entry h
  refine hne (hbegins.eq_of_length_le ?_)
  rw [← heq]
  exact a.iso.length_le

theorem findNextOid_text (o : Oid) :
    findNextOid (treeOf a.entries) o.text =
      .returned (oidText (((forestOf a.entries).nextUnder o.ids).getD [])) :=
  findNextOid_forestOf a.registered o.ids

theorem findNext_text (o : Oid) :
    a.findNext o.text = oidText (((forestOf a.entries).nextUnder o.ids).getD []) := by
  rw [findNext, nextName, a.findNextOid_text]

theorem replyValue_text (n : ℕ) {entry : Oid × δ} (h : entry ∈ a.entries) :
    replyValue (a.findAt n) entry.1.text = a.getData n entry.2 := by
  have hfound : a.findAt n entry.1.text = some (some (a.getData n entry.2)) := by
    rw [findAt, treeOf_eq, Oid.text, findByOid_render,
      valueAt_forestOf a.distinct a.unnested entry h]
    rfl
  simp only [replyValue, hfound]

end Agent

/-! ## One exchange -/

namespace Manager

variable {δ : Type*} {m : Manager} {a : Agent δ}

/-- The request for the OID behind another. -/
def requestParts (m : Manager) (n : ℕ) {o : Oid} (ho : [1, 3] <+: o.ids) : RequestParts where
  version := m.version
  community := m.community
  getNext := true
  reqId := m.reqId n
  error := [0]
  errorIndex := [0]
  oids := [⟨octetsOf o, o.text, getOid_octetsOf ho⟩]

theorem datagram_eq (n : ℕ) {o : Oid} (ho : [1, 3] <+: o.ids) :
    m.datagram n (octetsOf o) = element 0x30 (m.requestParts n ho).content := by
  have hlist : (m.requestParts n ho).oids.flatMap varbind =
      element 0x30 (element 0x06 (octetsOf o) ++ element 0x05 []) := List.flatMap_singleton _ _
  rw [RequestParts.content, RequestParts.pduContent, hlist]
  rfl

def request (hsuits : m.Suits a) (n : ℕ) {o : Oid} (ho : o ∈ a.asked) : Request where
  toRequestParts := m.requestParts n (a.iso_of_asked ho)
  short := by
    have hshort := hsuits.short n o ho
    rw [datagram_eq n (a.iso_of_asked ho), length_element] at hshort
    omega

theorem answer_datagram (hsuits : m.Suits a) (beyond : ℕ → ℕ → UInt8) (n : ℕ) {o : Oid}
    (ho : o ∈ a.asked)
    (hroom : (request hsuits n ho).HasRoom a.findNext (a.findAt n)) :
    (a.answer beyond n (m.datagram n (octetsOf o))).bind readReply =
      some ((request hsuits n ho).reply a.findNext (a.findAt n)) := by
  have hinput := (request hsuits n ho).input_bytes (beyond n) (Nat.le_refl _) hroom
  have hbytes : m.datagram n (octetsOf o) = (request hsuits n ho).bytes :=
    datagram_eq n (a.iso_of_asked ho)
  rw [Agent.answer, hbytes, hinput, Option.bind_some, id_eq, Option.map_some, Option.bind_some]
  exact (request hsuits n ho).readReply_genReply hroom

theorem answeredOids_request (hsuits : m.Suits a) (n : ℕ) {o : Oid} (ho : o ∈ a.asked) :
    (request hsuits n ho).answeredOids a.findNext =
      if a.findNext o.text = [] then [] else [a.findNext o.text] := by
  rw [Request.answeredOids]
  by_cases h : a.findNext o.text = [] <;>
    simp [request, requestParts, Request.Exhausted, Request.answered, h]

theorem someExhausted_request (hsuits : m.Suits a) (n : ℕ) {o : Oid} (ho : o ∈ a.asked) :
    (request hsuits n ho).SomeExhausted a.findNext ↔ a.findNext o.text = [] := by
  simp [request, requestParts, Request.SomeExhausted, Request.Exhausted]

/-- Behind the last OID the agent says so. -/
theorem reply_last (hsuits : m.Suits a) (n : ℕ) {o : Oid} (ho : o ∈ a.asked)
    (hlast : a.findNext o.text = []) :
    (request hsuits n ho).HasRoom a.findNext (a.findAt n) ∧
      ((request hsuits n ho).reply a.findNext (a.findAt n)).err = 2 := by
  have hanswered := answeredOids_request hsuits n ho
  rw [if_pos hlast] at hanswered
  refine ⟨⟨by simp [hanswered], ?_⟩, if_pos ((someExhausted_request hsuits n ho).mpr hlast)⟩
  obtain ⟨entry, hentry⟩ := List.exists_mem_of_ne_nil _ a.registered
  have hroom := hsuits.room n entry hentry
  rw [replyLength] at hroom
  rw [Request.replyLength, hanswered, Request.varbindsLength, List.map_nil, List.sum_nil]
  simp only [Request.reply, request, requestParts]
  omega

/-- Otherwise the next one is in the reply, with its value. -/
theorem reply_next (hsuits : m.Suits a) (n : ℕ) {o : Oid} (ho : o ∈ a.asked)
    {entry : Oid × δ} (hentry : entry ∈ a.entries) (hnext : a.findNext o.text = entry.1.text) :
    (request hsuits n ho).HasRoom a.findNext (a.findAt n) ∧
      ((request hsuits n ho).reply a.findNext (a.findAt n)).err = 0 ∧
      ((request hsuits n ho).reply a.findNext (a.findAt n)).bindings =
        [(octetsOf entry.1, (a.getData n entry.2).getPayload.out.bytes)] := by
  have hne : a.findNext o.text ≠ [] := by
    rw [hnext]
    exact oidText_ne_nil entry.1.ne_nil
  have hanswered := answeredOids_request hsuits n ho
  rw [if_neg hne, hnext] at hanswered
  have hvalue := a.replyValue_text n hentry
  have hiso := a.iso_of_asked (List.mem_cons_of_mem _ (List.mem_map_of_mem hentry))
  have hwritten := written_text hiso (a.iso_ne hentry)
  refine ⟨⟨?_, ?_⟩, if_neg (mt (someExhausted_request hsuits n ho).mp hne), ?_⟩
  · intro e he
    rw [hanswered] at he
    obtain rfl := List.mem_singleton.mp he
    rw [hvalue]
    exact hsuits.values n entry hentry
  · have hroom := hsuits.room n entry hentry
    rw [replyLength] at hroom
    rw [Request.replyLength, hanswered, Request.varbindsLength, List.map_singleton,
      List.sum_singleton, hvalue, hwritten]
    simp only [Request.reply, request, requestParts]
    omega
  · rw [Request.reply, hanswered, List.map_singleton, hvalue, hwritten]

/-! ## The walk -/

/-- From an OID on, a manager gets the OIDs that the agent goes to, with the value that each
has when it is asked for. -/
theorem walk_of_isChain (hsuits : m.Suits a) (beyond : ℕ → ℕ → UInt8) (spare : ℕ)
    {walked : List (Oid × δ)} (hmem : ∀ entry ∈ walked, entry ∈ a.entries) (n : ℕ) {o : Oid}
    (ho : o ∈ a.asked)
    (hchain : (o.ids :: walked.map (fun entry : Oid × δ => entry.1.ids) ++ [[]]).IsChain
      fun ids ids' => ((forestOf a.entries).nextUnder ids).getD [] = ids') :
    m.walk (a.answer beyond) (walked.length + 1 + spare) n (octetsOf o) =
      some ((walked.zipIdx n).map fun e =>
        (octetsOf e.1.1, (a.getData e.2 e.1.2).getPayload.out.bytes)) := by
  induction walked generalizing n o with
  | nil =>
      have hlast : a.findNext o.text = [] := by
        rw [a.findNext_text, (List.isChain_cons_cons.mp hchain).1]
        rfl
      obtain ⟨hroom, herr⟩ := reply_last hsuits n ho hlast
      have hreqId : ((request hsuits n ho).reply a.findNext (a.findAt n)).reqId =
          number (m.reqId n) := rfl
      rw [List.length_nil, Nat.zero_add, Nat.add_comm, walk,
        answer_datagram hsuits beyond n ho hroom, Option.bind_some, if_neg (by simp [hreqId]),
        if_pos herr]
      rfl
  | cons entry walked ih =>
      have hentry := hmem entry List.mem_cons_self
      have hnext : a.findNext o.text = entry.1.text := by
        rw [a.findNext_text, (List.isChain_cons_cons.mp hchain).1]
        rfl
      obtain ⟨hroom, herr, hbindings⟩ := reply_next hsuits n ho hentry hnext
      have hreqId : ((request hsuits n ho).reply a.findNext (a.findAt n)).reqId =
          number (m.reqId n) := rfl
      have hrest := ih (fun e he => hmem e (List.mem_cons_of_mem _ he)) (n + 1)
        (List.mem_cons_of_mem _ (List.mem_map_of_mem hentry))
        (List.isChain_cons_cons.mp hchain).2
      have hrounds : (entry :: walked).length + 1 + spare = walked.length + 1 + spare + 1 := by
        rw [List.length_cons]
        omega
      rw [hrounds, walk, answer_datagram hsuits beyond n ho hroom, Option.bind_some,
        if_neg (by simp [hreqId]), if_neg (by simp [herr]), hbindings]
      simp only [hrest, List.zipIdx_cons]
      rfl

/-- From the root on, these are all registered OIDs in ascending order. -/
theorem walk_ascending (hsuits : m.Suits a) (beyond : ℕ → ℕ → UInt8) {rounds : ℕ}
    (hrounds : a.entries.length < rounds) :
    m.walk (a.answer beyond) rounds 0 (octetsOf a.root) =
      some (a.ascending.zipIdx.map fun e =>
        (octetsOf e.1.1, (a.getData e.2 e.1.2).getPayload.out.bytes)) := by
  have hperm := a.ascending_perm
  have hmem : ∀ ids, ids ∈ a.ascending.map (·.1.ids) ↔ ids ∈ a.entries.map (·.1.ids) :=
    fun ids => (hperm.map _).mem_iff
  have hsorted : (a.root.ids :: a.ascending.map (·.1.ids)).Pairwise (· < ·) := by
    refine List.pairwise_cons.mpr ⟨?_, List.pairwise_map.mpr a.ascending_pairwise⟩
    exact fun ids hids => a.root_lt ((hmem ids).mp hids)
  have hchain := Trie.Forest.isChain_of_isNext hsorted
    (fun ids => ⟨fun hids => ⟨(hmem ids).mp hids, a.root_lt ((hmem ids).mp hids)⟩,
      fun hids => (hmem ids).mpr hids.1⟩)
    (fun ids hids => a.isNext_nextUnder a.registered
      ((List.mem_cons.mp hids).imp_right (hmem ids).mp))
  obtain ⟨spare, hspare⟩ := Nat.exists_eq_add_of_le hrounds
  have hlength : rounds = a.ascending.length + 1 + spare := by
    rw [hperm.length_eq, hspare]
  rw [hlength]
  exact walk_of_isChain hsuits beyond spare (fun entry hentry => hperm.mem_iff.mp hentry) 0
    List.mem_cons_self hchain

/-- A manager that begins at the root and asks often enough gets every registered OID once, in
ascending order, with the value it has at that time, and then is told that there is no more; and
no question goes through the null pointer. -/
theorem walk_collects (hsuits : m.Suits a) (beyond : ℕ → ℕ → UInt8) {rounds : ℕ}
    (hrounds : a.entries.length < rounds) :
    (∀ o ∈ a.asked, findNextOid (treeOf a.entries) o.text = .returned (a.findNext o.text)) ∧
      ∃ walked : List (Oid × δ), walked.Perm a.entries ∧
        walked.Pairwise (fun entry entry' => entry.1.ids < entry'.1.ids) ∧
        m.walk (a.answer beyond) rounds 0 (octetsOf a.root) =
          some (walked.zipIdx.map fun e =>
            (octetsOf e.1.1, (a.getData e.2 e.1.2).getPayload.out.bytes)) :=
  ⟨fun o _ => by rw [a.findNextOid_text, a.findNext_text],
    a.ascending, a.ascending_perm, a.ascending_pairwise, walk_ascending hsuits beyond hrounds⟩

/-- Two objects whose values grow with each request. -/
def growingAgent : Agent ℕ where
  root := ⟨[1, 3, 6], by decide, by decide⟩
  entries := [(⟨[1, 3, 6, 2, 200], by decide, by decide⟩, 7),
    (⟨[1, 3, 6, 1], by decide, by decide⟩, 40)]
  below := by decide
  distinct := by decide
  unnested := by decide
  iso := by decide
  registered := by decide
  getData n d := .integer .counter32 (UInt64.ofNat (n + d))

/-- A manager that counts its requests. -/
def countingManager : Manager where
  version := [0]
  community := []
  reqId n := [UInt8.ofNat n]

theorem suits_growingAgent : countingManager.Suits growingAgent where
  short := by
    intro n o ho
    have hoctets : (octetsOf o).length ≤ 5 := by
      revert o
      simp [growingAgent, Agent.asked, octetsOf, Base128.encode]
    simp only [datagram, length_element, List.length_append, countingManager, List.length_cons,
      List.length_nil]
    omega
  values _ _ _ := trivial
  room := by
    intro n entry hentry
    have hoctets : (octetsOf entry.1).length ≤ 5 := by
      revert entry
      simp [growingAgent, octetsOf, Base128.encode]
    have hwidth : ∀ type v, (Elem.integer type v).contentLength ≤ 8 := by
      intro type v
      rw [Elem.contentLength]
      split <;> decide
    have hversion := hwidth .integer (number [0]).toUInt32.toInt32.toInt64.toUInt64
    have hreqId := hwidth .integer (number [UInt8.ofNat n])
    have hvalue := hwidth .counter32 (UInt64.ofNat (n + entry.2))
    have hcommunity : (communityOf []).length = 6 := rfl
    simp only [replyLength, countingManager, growingAgent, hcommunity]
    omega

theorem walk_collects_growingAgent :
    (∀ o ∈ growingAgent.asked, findNextOid (treeOf growingAgent.entries) o.text =
        .returned (growingAgent.findNext o.text)) ∧
      ∃ walked : List (Oid × ℕ), walked.Perm growingAgent.entries ∧
        walked.Pairwise (fun entry entry' => entry.1.ids < entry'.1.ids) ∧
        countingManager.walk (growingAgent.answer fun _ _ => 0) 3 0 (octetsOf growingAgent.root) =
          some (walked.zipIdx.map fun e =>
            (octetsOf e.1.1, (growingAgent.getData e.2 e.1.2).getPayload.out.bytes)) :=
  walk_collects suits_growingAgent (fun _ _ => 0) (by decide)

end Manager

end HamRouter.Snmp
