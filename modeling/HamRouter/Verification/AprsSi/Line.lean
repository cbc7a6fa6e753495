import HamRouter.Model.AprsSession
import HamRouter.Verification.Ax25.Equations
import HamRouter.Verification.Str

/-! # What the APRS-IS uplink writes -/

namespace HamRouter.AprsSi

open TracedRead StdString

/-! ## The writes of a line -/

theorem Breaks.pos {results : List WriteResult} {len : ℕ} (h : Breaks results len) : 0 < len := by
  obtain ⟨sum, rest, _, hlt⟩ := h
  exact Nat.zero_lt_of_lt hlt

theorem takes_zero (results : List WriteResult) : Takes results 0 :=
  ⟨0, results, .nothing results, Nat.le_refl 0⟩

theorem breaks_sigpipe (results : List WriteResult) {len : ℕ} (hlen : 0 < len) :
    Breaks (.sigpipe :: results) len :=
  ⟨0, results, .nothing _, hlen⟩

theorem takes_accepted {n : ℕ} {results : List WriteResult} {len : ℕ} (hlen : 0 < len) :
    Takes (.accepted n :: results) len ↔ n ≠ 0 ∧ Takes results (len - n) := by
  constructor
  · rintro ⟨sum, rest, htaken, hle⟩
    cases htaken with
    | nothing => exact absurd hle (Nat.not_le.mpr hlen)
    | more hn h => exact ⟨hn, _, rest, h, by omega⟩
  · rintro ⟨hn, sum, rest, h, hle⟩
    exact ⟨n + sum, rest, .more hn h, by omega⟩

theorem breaks_accepted {n : ℕ} {results : List WriteResult} {len : ℕ} :
    Breaks (.accepted n :: results) len ↔ n ≠ 0 ∧ Breaks results (len - n) := by
  constructor
  · rintro ⟨sum, rest, htaken, hlt⟩
    cases htaken with
    | more hn h => exact ⟨hn, _, rest, h, by omega⟩
  · rintro ⟨hn, sum, rest, h, hlt⟩
    exact ⟨n + sum, rest, .more hn h, by omega⟩

/-- A first result that is no success is the end of a line. -/
theorem not_takes_cons {result : WriteResult} {results : List WriteResult} {len : ℕ}
    (h : ∀ n, result ≠ .accepted n) (hlen : 0 < len) : ¬ Takes (result :: results) len := by
  rintro ⟨sum, rest, htaken, hle⟩
  cases htaken with
  | nothing => exact absurd hle (Nat.not_le.mpr hlen)
  | more => exact h _ rfl

theorem not_takes_nil {len : ℕ} (hlen : 0 < len) : ¬ Takes [] len := by
  rintro ⟨sum, rest, htaken, hle⟩
  cases htaken with
  | nothing => exact absurd hle (Nat.not_le.mpr hlen)

theorem not_breaks_failed (results : List WriteResult) (len : ℕ) :
    ¬ Breaks (.failed :: results) len := by
  rintro ⟨sum, rest, htaken, _⟩
  cases htaken

theorem not_breaks_nil (len : ℕ) : ¬ Breaks [] len := by
  rintro ⟨sum, rest, htaken, _⟩
  cases htaken

/-- A write that takes some of a line, and what the rest of it comes to. -/
theorem WRITE_accepted {n : ℕ} (hn : n ≠ 0) (results : List WriteResult) (cnt : ℕ)
    {line : List UInt8} (hline : line ≠ []) :
    WRITE (.accepted n :: results) cnt line =
      (line.take n ++ (WRITE results (cnt + min n line.length) (line.drop n)).1,
        (WRITE results (cnt + min n line.length) (line.drop n)).2) := by
  cases line with
  | nil => exact absurd rfl hline
  | cons c line =>
      have hrc : min n (c :: line).length ≠ 0 := by
        rw [List.length_cons]
        omega
      rw [WRITE]
      simp only [if_neg hrc, ← List.take_eq_take_min, ← List.drop_eq_drop_min]

/-- What `WRITE` comes to: the line goes out as a whole, the count is not that of the line,
or a write raises `SIGPIPE`. -/
inductive Written (results : List WriteResult) (cnt : ℕ) (line : List UInt8) :
    List UInt8 × Option ℤ → Prop where
  | whole (htakes : Takes results line.length) (hbreaks : ¬ Breaks results line.length) :
      Written results cnt line (line, some (Ax25.intSize (cnt + line.length)))
  | part {written : List UInt8} {rc : ℤ} (htakes : ¬ Takes results line.length)
      (hbreaks : ¬ Breaks results line.length) (hfirst : written <+: line) (hne : written ≠ line)
      (hrc : rc ≤ 0) : Written results cnt line (written, some rc)
  | broken {written : List UInt8} (hbreaks : Breaks results line.length)
      (hfirst : written <+: line) (hne : written ≠ line) : Written results cnt line (written, none)

/-- A write that takes some of the line leaves the rest to the next ones. -/
theorem Written.accepted {n : ℕ} (hn : n ≠ 0) {results : List WriteResult} {cnt : ℕ}
    {line : List UInt8} (hline : line ≠ []) {sent : List UInt8 × Option ℤ}
    (h : Written results (cnt + min n line.length) (line.drop n) sent) :
    Written (.accepted n :: results) cnt line (line.take n ++ sent.1, sent.2) := by
  have hlen := List.length_pos_of_ne_nil hline
  have hsplit : line.take n ++ line.drop n = line := List.take_append_drop n line
  have hfirsts : ∀ {written}, written <+: line.drop n → line.take n ++ written <+: line := by
    intro written hfirst
    rw [← (List.prefix_append_right_inj (line.take n)), hsplit] at hfirst
    exact hfirst
  have hnes : ∀ {written}, written ≠ line.drop n → line.take n ++ written ≠ line :=
    fun hne hwhole => hne (List.append_cancel_left (hwhole.trans hsplit.symm))
  cases h with
  | whole htakes hbreaks =>
      rw [List.length_drop] at htakes hbreaks
      have hcount : cnt + min n line.length + (line.drop n).length = cnt + line.length := by
        rw [List.length_drop]
        omega
      rw [hsplit, hcount]
      exact .whole ((takes_accepted hlen).mpr ⟨hn, htakes⟩) fun h => hbreaks (breaks_accepted.mp h).2
  | part htakes hbreaks hfirst hne hrc =>
      rw [List.length_drop] at htakes hbreaks
      exact .part (fun h => htakes ((takes_accepted hlen).mp h).2)
        (fun h => hbreaks (breaks_accepted.mp h).2) (hfirsts hfirst) (hnes hne) hrc
  | broken hbreaks hfirst hne =>
      rw [List.length_drop] at hbreaks
      exact .broken (breaks_accepted.mpr ⟨hn, hbreaks⟩) (hfirsts hfirst) (hnes hne)

theorem written_WRITE (results : List WriteResult) (cnt : ℕ) (line : List UInt8) :
    Written results cnt line (WRITE results cnt line) := by
  induction results generalizing cnt line with
  | nil =>
      cases line with
      | nil => exact .whole (takes_zero []) (not_breaks_nil 0)
      | cons c rest =>
          exact .part (not_takes_nil (by simp)) (not_breaks_nil _) List.nil_prefix (by simp)
            (by simp)
  | cons result results ih =>
      by_cases hline : line = []
      · subst hline
        exact .whole (takes_zero _) fun h => absurd h.pos (by simp)
      have hlen := List.length_pos_of_ne_nil hline
      have hnil : [] ≠ line := Ne.symm hline
      obtain ⟨c, rest, rfl⟩ := List.exists_cons_of_ne_nil hline
      cases result with
      | failed =>
          exact .part (not_takes_cons (by simp) hlen) (not_breaks_failed _ _) List.nil_prefix hnil
            (by simp)
      | sigpipe => exact .broken (breaks_sigpipe results hlen) List.nil_prefix hnil
      | accepted n =>
          by_cases hn : n = 0
          · subst hn
            exact .part (fun h => ((takes_accepted hlen).mp h).1 rfl)
              (fun h => (breaks_accepted.mp h).1 rfl) List.nil_prefix hnil (le_refl 0)
          · rw [WRITE_accepted hn _ _ hline]
            exact (ih _ _).accepted hn hline

/-- What goes out is a first part of the line. -/
theorem WRITE_fst_prefix (results : List WriteResult) (cnt : ℕ) (line : List UInt8) :
    (WRITE results cnt line).1 <+: line := by
  have hwritten := written_WRITE results cnt line
  generalize WRITE results cnt line = sent at hwritten ⊢
  cases hwritten with
  | whole => exact List.prefix_rfl
  | part _ _ hfirst => exact hfirst
  | broken _ hfirst => exact hfirst

/-! ## The blocks of a call -/

/-- Nothing of a packet is written. -/
def Quiet (log : List Event) : Prop := ∀ fd line written, .packet fd line written ∉ log

theorem quiet_nil : Quiet [] := fun _ _ _ => List.not_mem_nil

theorem Quiet.append {front back : List Event} (hfront : Quiet front) (hback : Quiet back) :
    Quiet (front ++ back) := by
  intro fd line written h
  rcases List.mem_append.mp h with h | h
  · exact hfront fd line written h
  · exact hback fd line written h

theorem packetBytes_append (front back : List Event) :
    packetBytes (front ++ back) = packetBytes front ++ packetBytes back := List.flatMap_append

theorem packetBytes_of_quiet {log : List Event} (h : Quiet log) : packetBytes log = [] := by
  rw [packetBytes, List.flatMap_eq_nil_iff]
  intro e he
  cases e with
  | packet fd line written => exact absurd he (h fd line written)
  | opened => rfl
  | login => rfl
  | reply => rfl
  | closed => rfl

theorem quiet_connectLoop (attempts : List Attempt) (next : ℕ) :
    Quiet (connectLoop attempts next).log := by
  induction attempts generalizing next with
  | nil => exact quiet_nil
  | cons attempt attempts ih =>
      cases attempt with
      | noSocket => exact ih next
      | refused =>
          have hfront : Quiet [.opened next, .closed next] := by simp [Quiet]
          exact hfront.append (ih (next + 1))
      | connected nodelay => simp [Quiet, connectLoop, record]

theorem quiet_connectTo (resolved : Option (List Attempt)) (next : ℕ) :
    Quiet (connectTo resolved next).log := by
  cases resolved with
  | none => exact quiet_nil
  | some attempts => exact quiet_connectLoop attempts next

theorem receiveString_eq_none_iff (reads : List UInt8) :
    receiveString reads = none ↔ 10 ∉ reads := by
  induction reads with
  | nil => simp [receiveString]
  | cons c reads ih =>
      by_cases hc : c = 10
      · simp [receiveString, hc]
      · simp [receiveString, hc, Ne.symm hc, ih]

/-- A login that is sent and answered, one that is not, and one that ends the process. -/
theorem handshake_cases (c : Config) (fd : ℕ) (o : Outcomes) :
    (¬ Breaks o.loginWrites (loginLine c).length ∧ o.Answers c ∧ ∃ text, handshake c fd o =
      ⟨some (some fd), [.login fd (loginLine c) (loginLine c), .reply fd text]⟩) ∨
    (¬ Breaks o.loginWrites (loginLine c).length ∧ ¬ o.Answers c ∧ ∃ written,
      handshake c fd o = ⟨some none, [.login fd (loginLine c) written, .closed fd]⟩) ∨
    (Breaks o.loginWrites (loginLine c).length ∧ ∃ written,
      handshake c fd o = ⟨none, [.login fd (loginLine c) written]⟩) := by
  have hpos : 0 < (loginLine c).length := by
    simp only [loginLine, List.length_append]
    have huser : (str "user ").length = 5 := rfl
    omega
  have hwritten := written_WRITE o.loginWrites 0 (loginLine c)
  generalize hsent : WRITE o.loginWrites 0 (loginLine c) = sent at hwritten
  cases hwritten with
  | whole htakes hbreaks =>
      rw [Nat.zero_add] at hsent
      by_cases hfits : Ax25.intSize (loginLine c).length = (loginLine c).length
      · cases hreply : receiveString o.reads with
        | none =>
            have hreads : 10 ∉ o.reads := (receiveString_eq_none_iff o.reads).mp hreply
            refine Or.inr (Or.inl ⟨hbreaks, fun h => hreads h.replies, loginLine c, ?_⟩)
            rw [handshake, hsent]
            simp only [hfits, hreply, ne_eq, not_true_eq_false, if_false]
            rfl
        | some text =>
            have hreads : 10 ∈ o.reads := by
              by_contra hreads
              rw [(receiveString_eq_none_iff o.reads).mpr hreads] at hreply
              exact absurd hreply (by simp)
            refine Or.inl ⟨hbreaks, ⟨htakes, hfits, hreads⟩, text, ?_⟩
            rw [handshake, hsent]
            simp only [hfits, hreply, ne_eq, not_true_eq_false, if_false]
            rfl
      · refine Or.inr (Or.inl ⟨hbreaks, fun h => hfits h.fits, loginLine c, ?_⟩)
        rw [handshake, hsent]
        simp only [if_pos hfits]
        rfl
  | @part written rc htakes hbreaks hfirst hne hrc =>
      have hshort : rc ≠ (loginLine c).length := by omega
      refine Or.inr (Or.inl ⟨hbreaks, fun h => htakes h.takes, written, ?_⟩)
      rw [handshake, hsent]
      simp only [if_pos hshort]
      rfl
  | @broken written hbreaks =>
      refine Or.inr (Or.inr ⟨hbreaks, written, ?_⟩)
      rw [handshake, hsent]
      rfl

theorem quiet_handshake (c : Config) (fd : ℕ) (o : Outcomes) : Quiet (handshake c fd o).log := by
  rcases handshake_cases c fd o with
    ⟨_, _, text, h⟩ | ⟨_, _, written, h⟩ | ⟨_, written, h⟩
  · simp [h, Quiet]
  · simp [h, Quiet]
  · simp [h, Quiet]

section Reconnect

variable {c : Config} {st : State} {o : Outcomes}

theorem reconnect_of_open {fd : ℕ} (hfd : st.fd = some fd) : reconnect c st o = ⟨some st, []⟩ := by
  rw [reconnect, hfd]
  rfl

theorem reconnect_of_ended (hfd : st.fd = none) (h : (connectTo o.resolved st.next).val = none) :
    reconnect c st o = ⟨none, (connectTo o.resolved st.next).log⟩ := by
  rw [reconnect, hfd]
  simp only [Bind.bind, h]
  exact congrArg _ (List.append_nil _)

theorem reconnect_of_refused (hfd : st.fd = none) {next : ℕ}
    (h : (connectTo o.resolved st.next).val = some (next, none)) :
    reconnect c st o = ⟨some { st with next := next }, (connectTo o.resolved st.next).log⟩ := by
  rw [reconnect, hfd]
  simp only [Bind.bind, h]
  exact congrArg _ (List.append_nil _)

theorem reconnect_of_connected (hfd : st.fd = none) {next fd : ℕ}
    (h : (connectTo o.resolved st.next).val = some (next, some fd)) :
    reconnect c st o =
      ⟨(handshake c fd o).val.map fun fd => { st with fd := fd, next := next },
        (connectTo o.resolved st.next).log ++ (handshake c fd o).log⟩ := by
  rw [reconnect, hfd]
  simp only [Bind.bind, h]
  cases (handshake c fd o).val with
  | none => exact congrArg _ (congrArg _ (List.append_nil _))
  | some fd => exact congrArg _ (congrArg _ (List.append_nil _))

end Reconnect

theorem quiet_reconnect (c : Config) (st : State) (o : Outcomes) :
    Quiet (reconnect c st o).log := by
  cases hfd : st.fd with
  | some fd => rw [reconnect_of_open hfd]; exact quiet_nil
  | none =>
      have hconnect := quiet_connectTo o.resolved st.next
      cases hval : (connectTo o.resolved st.next).val with
      | none => rw [reconnect_of_ended hfd hval]; exact hconnect
      | some result =>
          obtain ⟨next, fd⟩ := result
          cases fd with
          | none => rw [reconnect_of_refused hfd hval]; exact hconnect
          | some fd =>
              rw [reconnect_of_connected hfd hval]
              exact hconnect.append (quiet_handshake c fd o)

/-- A packet that is sent, one that is not, and one that ends the process. -/
theorem transmit_cases {st : State} {fd : ℕ} (hfd : st.fd = some fd) {content : List UInt8}
    (hlength : (content.length : ℤ) ≤ Ax25.intMax) (o : Outcomes) {line : StdString}
    (hline : line = content.drop 3 ++ str "\r\n") :
    (¬ Breaks o.packetWrites line.length ∧
      transmit st content o = ⟨some st, [.packet fd line line]⟩) ∨
    (¬ Breaks o.packetWrites line.length ∧ ∃ written, written ≠ line ∧
      transmit st content o =
        ⟨some { st with fd := none }, [.packet fd line written, .closed fd]⟩) ∨
    (Breaks o.packetWrites line.length ∧ ∃ written,
      transmit st content o = ⟨none, [.packet fd line written]⟩) := by
  have hlen : line.length = content.length - 3 + 2 := by
    rw [hline, List.length_append, List.length_drop]
    rfl
  have hwritten := written_WRITE o.packetWrites 0 line
  generalize hsent : WRITE o.packetWrites 0 line = sent at hwritten
  cases hwritten with
  | whole htakes hbreaks =>
      have hfits : Ax25.intSize (0 + line.length) = line.length := by
        unfold Ax25.intMax at hlength
        rw [Nat.zero_add]
        refine Ax25.intSize_of_le ?_
        unfold Ax25.intMax
        omega
      refine Or.inl ⟨hbreaks, ?_⟩
      rw [transmit, hfd]
      simp only [← hline, hsent, hfits, ne_eq, not_true_eq_false, if_false]
      rfl
  | @part written rc htakes hbreaks hfirst hne hrc =>
      have hshort : rc ≠ line.length := by omega
      refine Or.inr (Or.inl ⟨hbreaks, written, hne, ?_⟩)
      rw [transmit, hfd]
      simp only [← hline, hsent, if_pos hshort]
      rfl
  | @broken written hbreaks =>
      refine Or.inr (Or.inr ⟨hbreaks, written, ?_⟩)
      rw [transmit, hfd]
      simp only [← hline, hsent]
      rfl

theorem transmit_of_closed {st : State} (hfd : st.fd = none) (content : List UInt8)
    (o : Outcomes) : transmit st content o = ⟨some st, []⟩ := by
  rw [transmit, hfd]
  rfl

/-- What goes out of a packet is a first part of its content and a line end. -/
theorem packetBytes_transmit (st : State) (content : List UInt8) (o : Outcomes) :
    packetBytes (transmit st content o).log <+: content.drop 3 ++ str "\r\n" := by
  cases hfd : st.fd with
  | none => rw [transmit_of_closed hfd]; exact List.nil_prefix
  | some fd =>
      have hprefix := WRITE_fst_prefix o.packetWrites 0 (content.drop 3 ++ str "\r\n")
      rw [transmit, hfd]
      simp only
      generalize content.drop 3 ++ str "\r\n" = line at hprefix ⊢
      generalize WRITE o.packetWrites 0 line = sent at hprefix ⊢
      obtain ⟨written, rc⟩ := sent
      cases rc with
      | none => simpa [packetBytes, record] using hprefix
      | some rc =>
          by_cases hrc : rc ≠ line.length
          · simpa [packetBytes, record, hrc] using hprefix
          · simpa [packetBytes, record, hrc] using hprefix

/-! ## A whole call -/

/-- A call for an APRS packet that passes the limiter. -/
theorem putMessageLow_of_passed {c : Config} {pars : SeenPars} (hs : c.s = some pars)
    (st : State) {content : List UInt8} (hlong : 5 ≤ content.length)
    (hheader : content.take 3 = [ch '<', 0xff, 0x01]) {nowTs : ℚ}
    (hpass : (Seen.check pars st.history content nowTs).2.1 = true) (o : Outcomes)
    {checked : State}
    (hchecked : checked = { st with history := (Seen.check pars st.history content nowTs).1 }) :
    putMessageLow c st content nowTs o =
      match (reconnect c checked o).val with
      | none => ⟨none, (reconnect c checked o).log⟩
      | some mid =>
          ⟨(transmit mid content o).val.map fun st =>
              (st, if st.fd ≠ none then .ok else .hardware),
            (reconnect c checked o).log ++ (transmit mid content o).log⟩ := by
  rw [putMessageLow, if_neg (Nat.not_lt.mpr hlong), if_neg (not_not.mpr hheader), hs]
  simp only [hpass, Bool.true_eq_false, if_false, ← hchecked, Bind.bind]
  cases (reconnect c checked o).val with
  | none => exact congrArg _ (List.append_nil _)
  | some mid =>
      simp only
      cases (transmit mid content o).val with
      | none => exact congrArg _ (congrArg _ (List.append_nil _))
      | some behind => exact congrArg _ (congrArg _ (List.append_nil _))

/-- Of the packet goes out what the content says, and never more. -/
theorem packetBytes_put (c : Config) (st : State) {content : List UInt8}
    (hlong : 5 ≤ content.length) (hheader : content.take 3 = [ch '<', 0xff, 0x01]) (nowTs : ℚ)
    (o : Outcomes) :
    packetBytes (putMessageLow c st content nowTs o).log <+: content.drop 3 ++ str "\r\n" := by
  cases hs : c.s with
  | none =>
      rw [putMessageLow, if_neg (Nat.not_lt.mpr hlong), if_neg (not_not.mpr hheader), hs]
      exact List.nil_prefix
  | some pars =>
      cases hpass : (Seen.check pars st.history content nowTs).2.1 with
      | false =>
          rw [putMessageLow, if_neg (Nat.not_lt.mpr hlong), if_neg (not_not.mpr hheader), hs]
          simp only [hpass, if_true]
          exact List.nil_prefix
      | true =>
          rw [putMessageLow_of_passed hs st hlong hheader hpass o rfl]
          generalize ({ st with history := (Seen.check pars st.history content nowTs).1 } :
            State) = checked
          have hquiet := packetBytes_of_quiet (quiet_reconnect c checked o)
          cases (reconnect c checked o).val with
          | none => exact hquiet ▸ List.nil_prefix
          | some mid =>
              simp only [packetBytes_append, hquiet, List.nil_append]
              exact packetBytes_transmit mid content o

/-! ## The line of a packet -/

namespace Packet

variable (p : Packet)

theorem drop_content : p.content.drop 3 = p.sender ++ ch '>' :: (p.receivers ++ ch ':' :: p.text) :=
  rfl

theorem length_content :
    p.content.length = 3 + (p.sender.length + (p.receivers.length + (p.text.length + 1) + 1)) := by
  simp only [content, List.length_append, List.length_cons, List.length_nil]

/-- What the block in front of the lock makes of the content is the gated packet. -/
theorem rewrite_content (localCallsign : StdString) :
    rewrite localCallsign (p.content.drop 3) = p.gated localCallsign := by
  obtain ⟨hgt, hcolon, hto, hrest⟩ := find_between (show ch ':' ≠ ch '>' by decide)
    p.sender_clean.1 p.receivers_clean p.text p.drop_content
  have hgt : find (p.content.drop 3) (str ">") = some p.sender.length := hgt
  have hcolon : (find ((p.content.drop 3).drop p.sender.length) (str ":")).map
      (p.sender.length + ·) = some (p.sender.length + (p.receivers.length + 1)) := hcolon
  have hfrom : (p.content.drop 3).take p.sender.length = p.sender := by
    rw [drop_content, List.take_left]
  rw [rewrite, hgt]
  simp only [hcolon, hto, hrest, hfrom]
  rfl

end Packet

/-- The line that goes out lacks `,qAO,` and the callsign. -/
theorem Sending.packetBytes_ne (s : Sending) :
    packetBytes (putMessageLow s.config s.state s.content s.nowTs s.outcomes).log ≠
      s.gated s.config.localCallsign ++ str "\r\n" := by
  intro h
  have hcontent := s.length_content
  have hlong : 5 ≤ s.content.length := by omega
  have hprefix := (packetBytes_put s.config s.state hlong rfl s.nowTs s.outcomes).length_le
  have hroute : (str ",qAO,").length = 5 := rfl
  rw [h] at hprefix
  simp only [Packet.gated, List.length_append, List.length_cons, List.length_drop] at hprefix
  omega

theorem Sending.not_oneLine (s : Sending) : ¬ s.OneLine := fun h => s.packetBytes_ne h.1

/-- The uplink of a station. -/
def sampleConfig : Config := ⟨some ⟨1, 1, 10⟩, str "PD9FVH", str "1", str "PD9FVH-1"⟩

/-- A packet on a connection that is there already. -/
def sampleSending : Sending where
  sender := str "PD9FVH-7"
  receivers := str "APLG01"
  text := str "hi"
  sender_clean := by decide
  receivers_clean := by decide
  config := sampleConfig
  state := ⟨∅, some 0, 1⟩
  nowTs := 1
  outcomes := ⟨none, [], [], [.accepted 100]⟩
  sends := by
    rw [putMessageLow_of_passed rfl _ (by decide) rfl ?_ _ rfl]
    · rfl
    · decide +kernel

theorem not_oneLine_sampleSending : ¬ sampleSending.OneLine :=
  fun h => sampleSending.packetBytes_ne h.1

end HamRouter.AprsSi
