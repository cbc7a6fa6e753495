import HamRouter.Verification.AprsSi.Line
import HamRouter.Verification.Seen.Limiter

/-! # The connections of the APRS-IS uplink -/

namespace HamRouter.AprsSi

open TracedRead StdString

/-! ## The books -/

/-- The descriptors below `next` were opened, and all of them closed once but for `fd`. -/
structure Ledger (log : List Event) (next : ℕ) (fd : Option ℕ) : Prop where
  opened_iff : ∀ d, .opened d ∈ log ↔ d < next
  count_closed : ∀ d, log.count (.closed d) = if d < next ∧ fd ≠ some d then 1 else 0
  fd_lt : ∀ d, fd = some d → d < next

namespace Ledger

variable {log : List Event} {next : ℕ}

theorem initial : Ledger [] 0 none := by
  constructor <;> simp

theorem opened (h : Ledger log next none) :
    Ledger (log ++ [.opened next]) (next + 1) (some next) := by
  constructor
  · intro d
    rw [List.mem_append, h.opened_iff, List.mem_singleton, Event.opened.injEq]
    omega
  · intro d
    rw [List.count_append, h.count_closed]
    by_cases hd : d = next
    · subst hd
      simp
    · have hlt : d < next + 1 ↔ d < next := by omega
      simp [hlt, Ne.symm hd]
  · rintro d ⟨rfl⟩
    exact Nat.lt_succ_self _

theorem closed {fd : ℕ} (h : Ledger log next (some fd)) :
    Ledger (log ++ [.closed fd]) next none := by
  have hlt := h.fd_lt fd rfl
  constructor
  · intro d
    rw [List.mem_append, h.opened_iff, List.mem_singleton]
    simp
  · intro d
    rw [List.count_append, h.count_closed]
    by_cases hd : fd = d
    · subst hd
      simp [hlt]
    · simp [hd]
  · simp

/-- An event that neither opens nor closes anything. -/
theorem other {fd : Option ℕ} (h : Ledger log next fd) {e : Event}
    (he : ∀ d, e ≠ .opened d ∧ e ≠ .closed d) : Ledger (log ++ [e]) next fd := by
  constructor
  · intro d
    rw [List.mem_append, h.opened_iff, List.mem_singleton]
    simp [Ne.symm (he d).1]
  · intro d
    rw [List.count_append, h.count_closed, List.count_singleton]
    simp [(he d).2]
  · exact h.fd_lt

/-- A failure leaves nothing open. -/
theorem closed_once (h : Ledger log next none) {fd : ℕ} (hopened : .opened fd ∈ log) :
    log.count (.closed fd) = 1 := by
  rw [h.count_closed, if_pos ⟨(h.opened_iff fd).mp hopened, by simp⟩]

theorem not_closed {fd : ℕ} (h : Ledger log next (some fd)) : .closed fd ∉ log := by
  rw [← List.count_eq_zero, h.count_closed]
  simp

end Ledger

theorem ledger_connectLoop (attempts : List Attempt) {log : List Event} {next : ℕ}
    (h : Ledger log next none) {next' : ℕ} {fd : Option ℕ}
    (hval : (connectLoop attempts next).val = some (next', fd)) :
    Ledger (log ++ (connectLoop attempts next).log) next' fd := by
  induction attempts generalizing log next with
  | nil =>
      obtain ⟨rfl, rfl⟩ := Prod.mk.inj (Option.some.inj hval)
      simpa [connectLoop] using h
  | cons attempt attempts ih =>
      cases attempt with
      | noSocket => exact ih h hval
      | refused =>
          have hboth := ih h.opened.closed hval
          simpa [connectLoop, record] using hboth
      | connected nodelay =>
          cases nodelay with
          | false => exact absurd hval (by simp [connectLoop, record])
          | true =>
              obtain ⟨rfl, rfl⟩ := Prod.mk.inj (Option.some.inj hval)
              exact h.opened

/-- The loop ends as the first connection has it. -/
theorem val_connectLoop (attempts : List Attempt) (next : ℕ) :
    (connection attempts = some false ∧ (connectLoop attempts next).val = none) ∨
    (connection attempts = none ∧ ∃ next', (connectLoop attempts next).val = some (next', none)) ∨
    (connection attempts = some true ∧
      ∃ next' fd, (connectLoop attempts next).val = some (next', some fd)) := by
  induction attempts generalizing next with
  | nil => exact Or.inr (Or.inl ⟨rfl, next, rfl⟩)
  | cons attempt attempts ih =>
      cases attempt with
      | noSocket => exact ih next
      | refused => exact ih (next + 1)
      | connected nodelay =>
          cases nodelay with
          | false => exact Or.inl ⟨rfl, rfl⟩
          | true => exact Or.inr (Or.inr ⟨rfl, next + 1, next, rfl⟩)

theorem ledger_connectTo (resolved : Option (List Attempt)) {log : List Event} {next : ℕ}
    (h : Ledger log next none) {next' : ℕ} {fd : Option ℕ}
    (hval : (connectTo resolved next).val = some (next', fd)) :
    Ledger (log ++ (connectTo resolved next).log) next' fd := by
  cases resolved with
  | none => exact absurd hval (by simp [connectTo])
  | some attempts => exact ledger_connectLoop attempts h hval

/-- No connection is returned because the process ended or nothing accepts one; what becomes of
a connection is up to the login. -/
theorem connectTo_cases (c : Config) (o : Outcomes) (next : ℕ) :
    (¬ o.Connects c ∧ (connectTo o.resolved next).val = none) ∨
    (o.Connects c ∧ ¬ o.LogsIn c ∧
      ∃ next', (connectTo o.resolved next).val = some (next', none)) ∨
    ((o.Connects c ↔ ¬ Breaks o.loginWrites (loginLine c).length) ∧ (o.LogsIn c ↔ o.Answers c) ∧
      ∃ next' fd, (connectTo o.resolved next).val = some (next', some fd)) := by
  cases hresolved : o.resolved with
  | none => exact Or.inl ⟨by simp [Outcomes.Connects, hresolved], rfl⟩
  | some attempts =>
      rcases val_connectLoop attempts next with
        ⟨hconnection, hval⟩ | ⟨hconnection, hval⟩ | ⟨hconnection, hval⟩
      · exact Or.inl ⟨by simp [Outcomes.Connects, hresolved, hconnection], hval⟩
      · refine Or.inr (Or.inl ⟨?_, ?_, hval⟩)
        · simp [Outcomes.Connects, hresolved, hconnection]
        · simp [Outcomes.LogsIn, hresolved, hconnection]
      · refine Or.inr (Or.inr ⟨?_, ?_, hval⟩)
        · simp [Outcomes.Connects, hresolved, hconnection]
        · simp [Outcomes.LogsIn, hresolved, hconnection]

/-! ## What holds between the calls -/

/-- The books are in order, and a connection that is there is logged in. -/
structure Kept (c : Config) (log : List Event) (st : State) : Prop where
  ledger : Ledger log st.next st.fd
  loggedIn : ∀ fd, st.fd = some fd → LoggedIn c log fd

theorem kept_initial (c : Config) : Kept c [] .initial := ⟨.initial, by simp [State.initial]⟩

/-- A connection that is made is logged in, closed again, or the end of the process. -/
theorem handshake_spec {c : Config} {log : List Event} {next fd : ℕ}
    (h : Ledger log next (some fd)) (o : Outcomes) :
    (Breaks o.loginWrites (loginLine c).length ∧ (handshake c fd o).val = none) ∨
    (¬ Breaks o.loginWrites (loginLine c).length ∧ ∃ fd', (handshake c fd o).val = some fd' ∧
      (fd' ≠ none ↔ o.Answers c) ∧ Ledger (log ++ (handshake c fd o).log) next fd' ∧
      ∀ d, fd' = some d → LoggedIn c (log ++ (handshake c fd o).log) d) := by
  have hlogin : ∀ written, Ledger (log ++ [.login fd (loginLine c) written]) next (some fd) :=
    fun written => h.other (by simp)
  rcases handshake_cases c fd o with
    ⟨hbreaks, hanswers, text, hshake⟩ | ⟨hbreaks, hanswers, written, hshake⟩ |
      ⟨hbreaks, written, hshake⟩
  · have hreply : Ledger (log ++ [.login fd (loginLine c) (loginLine c), .reply fd text]) next
        (some fd) := by
      simpa using (hlogin (loginLine c)).other (e := .reply fd text) (by simp)
    rw [hshake]
    refine Or.inr ⟨hbreaks, some fd, rfl, by simp [hanswers], hreply, ?_⟩
    rintro d ⟨rfl⟩
    exact ⟨by simp, ⟨text, by simp⟩, hreply.not_closed⟩
  · have hclosed := (hlogin written).closed
    rw [List.append_assoc] at hclosed
    rw [hshake]
    exact Or.inr ⟨hbreaks, none, rfl, by simp [hanswers], hclosed, by simp⟩
  · exact Or.inl ⟨hbreaks, by rw [hshake]⟩

/-- `if (fd == -1)` ends with a connection that is logged in, without one, or not at all. -/
theorem reconnect_cases {c : Config} {log : List Event} {st : State} (h : Kept c log st)
    (o : Outcomes) :
    (¬ (st.fd = none → o.Connects c) ∧ (reconnect c st o).val = none) ∨
    ((st.fd = none → o.Connects c) ∧ ∃ mid, (reconnect c st o).val = some mid ∧
      mid.history = st.history ∧ (mid.fd ≠ none ↔ st.fd ≠ none ∨ o.LogsIn c) ∧
      Kept c (log ++ (reconnect c st o).log) mid) := by
  cases hfd : st.fd with
  | some fd =>
      rw [reconnect_of_open hfd]
      refine Or.inr ⟨by simp, st, rfl, rfl, by simp [hfd], ?_⟩
      rwa [List.append_nil]
  | none =>
      have hledger := h.ledger
      rw [hfd] at hledger
      rcases connectTo_cases c o st.next with
        ⟨hconnects, hval⟩ | ⟨hconnects, hlogsIn, next, hval⟩ |
          ⟨hconnects, hlogsIn, next, fd, hval⟩
      · refine Or.inl ⟨fun h => hconnects (h rfl), ?_⟩
        rw [reconnect_of_ended hfd hval]
      · have hbooks := ledger_connectTo o.resolved hledger hval
        rw [reconnect_of_refused hfd hval]
        refine Or.inr ⟨fun _ => hconnects, _, rfl, rfl, by simp [hfd, hlogsIn], ?_⟩
        rw [← hfd] at hbooks
        exact ⟨hbooks, fun d hd => absurd (hfd.symm.trans hd) (by simp)⟩
      · have hbooks := ledger_connectTo o.resolved hledger hval
        rw [reconnect_of_connected hfd hval, ← List.append_assoc, hconnects, hlogsIn]
        rcases handshake_spec hbooks o with
          ⟨hbreaks, hshake⟩ | ⟨hbreaks, fd', hshake, hanswers, hafter, hloggedIn⟩
        · refine Or.inl ⟨fun h => h rfl hbreaks, ?_⟩
          rw [hshake]
          rfl
        · refine Or.inr ⟨fun _ => hbreaks, { st with fd := fd', next := next }, ?_, rfl, ?_, ?_⟩
          · rw [hshake]
            rfl
          · simpa using hanswers
          · exact ⟨hafter, hloggedIn⟩

/-- What a call that goes on comes to, behind the events of its first block. -/
inductive Ends (k : Call) (front : List Event) (mid : State) :
    Traced Event (Option (State × TransmitError)) → Prop where
  | unconnected (hfd : mid.fd = none) : Ends k front mid ⟨some (mid, .hardware), front⟩
  | sent {fd : ℕ} (hfd : mid.fd = some fd) :
      Ends k front mid ⟨some (mid, .ok), front ++ [.packet fd k.line k.line]⟩
  | failed {fd : ℕ} {written : StdString} (hfd : mid.fd = some fd) (hne : written ≠ k.line) :
      Ends k front mid ⟨some ({ mid with fd := none }, .hardware),
        front ++ [.packet fd k.line written, .closed fd]⟩

/-- A call for an APRS packet that passes the limiter. -/
theorem put_cases {c : Config} {pars : SeenPars} (hs : c.s = some pars) {k : Call}
    (hlong : 5 ≤ k.content.length) (hheader : k.content.take 3 = [ch '<', 0xff, 0x01])
    {log : List Event} {st : State} (h : Kept c log st)
    (hpass : (Seen.check pars st.history k.content k.nowTs).2.1 = true) :
    (¬ k.Harmless c st ∧ (k.put c st).val = none) ∨
    (k.Harmless c st ∧ ∃ front mid, Quiet front ∧ Kept c (log ++ front) mid ∧
      mid.history = (Seen.check pars st.history k.content k.nowTs).1 ∧
      Ends k front mid (k.put c st)) := by
  have hput := putMessageLow_of_passed hs st hlong hheader hpass k.outcomes rfl
  have hchecked : Kept c log { st with history := (Seen.check pars st.history k.content
    k.nowTs).1 } := ⟨h.ledger, h.loggedIn⟩
  rw [Call.put, hput]
  rcases reconnect_cases hchecked k.outcomes with
    ⟨hconnects, hval⟩ | ⟨hconnects, mid, hval, hhistory, hfd, hkept⟩
  · rw [hval]
    exact Or.inl ⟨fun hharmless => hconnects hharmless.connects, rfl⟩
  have hquiet := quiet_reconnect c { st with history := (Seen.check pars st.history k.content
    k.nowTs).1 } k.outcomes
  rw [hval]
  generalize (reconnect c { st with history := (Seen.check pars st.history k.content
    k.nowTs).1 } k.outcomes).log = front at hkept hquiet
  simp only
  cases hmid : mid.fd with
  | none =>
      have hnone : ¬ (st.fd ≠ none ∨ k.outcomes.LogsIn c) := fun hboth => hfd.mpr hboth hmid
      rw [transmit_of_closed hmid]
      have hends : Ends k front mid ⟨some (mid, .hardware), front⟩ := .unconnected hmid
      refine Or.inr ⟨⟨hconnects, fun hboth => absurd hboth hnone⟩, front, mid, hquiet, hkept,
        hhistory, ?_⟩
      simpa [hmid] using hends
  | some fd =>
      have hsome : st.fd ≠ none ∨ k.outcomes.LogsIn c := hfd.mp (by simp [hmid])
      have hline : k.line = k.content.drop 3 ++ str "\r\n" := rfl
      rcases transmit_cases hmid k.length_le k.outcomes hline with
        ⟨hbreaks, htransmit⟩ | ⟨hbreaks, written, hne, htransmit⟩ | ⟨hbreaks, written, htransmit⟩
      · have hends : Ends k front mid ⟨some (mid, .ok), front ++ [.packet fd k.line k.line]⟩ :=
          .sent hmid
        rw [htransmit]
        refine Or.inr ⟨⟨hconnects, fun _ => hbreaks⟩, front, mid, hquiet, hkept, hhistory, ?_⟩
        simpa [hmid] using hends
      · rw [htransmit]
        refine Or.inr ⟨⟨hconnects, fun _ => hbreaks⟩, front, mid, hquiet, hkept, hhistory, ?_⟩
        exact Ends.failed hmid hne
      · rw [htransmit]
        exact Or.inl ⟨fun hharmless => hharmless.transmits hsome hbreaks, rfl⟩

section Ended

variable {c : Config} {k : Call} {log front : List Event} {mid : State}

/-- The books behind a call. -/
theorem Ends.kept {result : Traced Event (Option (State × TransmitError))}
    (h : Ends k front mid result) (hkept : Kept c (log ++ front) mid) :
    ∃ behind rc, result.val = some (behind, rc) ∧ behind.history = mid.history ∧
      Kept c (log ++ result.log) behind := by
  cases h with
  | unconnected hfd => exact ⟨mid, _, rfl, rfl, hkept⟩
  | @sent fd hfd =>
      have hledger : Ledger (log ++ front ++ [.packet fd k.line k.line]) mid.next mid.fd :=
        hkept.ledger.other (by simp)
      rw [List.append_assoc] at hledger
      refine ⟨mid, _, rfl, rfl, hledger, ?_⟩
      intro d hd
      obtain ⟨hlogin, ⟨text, hreply⟩, hclosed⟩ := hkept.loggedIn d hd
      rw [← List.append_assoc]
      exact ⟨List.mem_append_left _ hlogin, ⟨text, List.mem_append_left _ hreply⟩,
        by simpa using hclosed⟩
  | @failed fd written hfd hne =>
      have hledger := hkept.ledger
      rw [hfd] at hledger
      have hpacket : Ledger (log ++ front ++ [.packet fd k.line written]) mid.next (some fd) :=
        hledger.other (by simp)
      refine ⟨_, _, rfl, rfl, by simpa using hpacket.closed, by simp⟩

/-- The only packet that is written is the one behind the first block. -/
theorem Ends.split {result : Traced Event (Option (State × TransmitError))}
    (h : Ends k front mid result) (hquiet : Quiet front) {earlier back : List Event} {fd : ℕ}
    {line written : StdString} (hsplit : result.log = earlier ++ .packet fd line written :: back) :
    earlier = front ∧ mid.fd = some fd := by
  have hfront : .packet fd line written ∉ front := hquiet fd line written
  cases h with
  | unconnected hfd =>
      have hlog : front = earlier ++ .packet fd line written :: back := hsplit
      exact absurd (by simp [hlog]) hfront
  | sent hfd =>
      obtain ⟨rfl, hpacket, _⟩ := (List.append_cons_inj_of_notMem hfront (by simp)).mp hsplit
      obtain ⟨rfl, _⟩ := Event.packet.inj hpacket
      exact ⟨rfl, hfd⟩
  | failed hfd hne =>
      obtain ⟨rfl, hpacket, _⟩ := (List.append_cons_inj_of_notMem hfront (by simp)).mp hsplit
      obtain ⟨rfl, _⟩ := Event.packet.inj hpacket
      exact ⟨rfl, hfd⟩

theorem Ends.ok_iff {result : Traced Event (Option (State × TransmitError))}
    (h : Ends k front mid result) (hquiet : Quiet front) {behind : State} {rc : TransmitError}
    (hval : result.val = some (behind, rc)) :
    (rc = .ok ↔ ∃ fd, .packet fd k.line k.line ∈ result.log) ∧ (rc ≠ .ok → behind.fd = none) := by
  cases h with
  | unconnected hfd =>
      obtain ⟨rfl, rfl⟩ := Prod.mk.inj (Option.some.inj hval)
      exact ⟨by simp [hquiet _ k.line k.line], fun _ => hfd⟩
  | sent hfd =>
      obtain ⟨rfl, rfl⟩ := Prod.mk.inj (Option.some.inj hval)
      exact ⟨iff_of_true rfl ⟨_, List.mem_append_right _ (List.mem_singleton_self _)⟩,
        fun hrc => absurd rfl hrc⟩
  | failed hfd hne =>
      obtain ⟨rfl, rfl⟩ := Prod.mk.inj (Option.some.inj hval)
      exact ⟨by simp [hquiet _ k.line k.line, Ne.symm hne], fun _ => rfl⟩

/-- A call that goes on is correct. -/
theorem Ends.correct {st : State} (h : Ends k front mid (k.put c st)) (hquiet : Quiet front)
    (hkept : Kept c (log ++ front) mid) : k.Correct c log st := by
  obtain ⟨behind, rc, hval, _, hbehind⟩ := h.kept hkept
  constructor
  · rw [hval]
    simp
  · intro earlier fd line written back hsplit
    obtain ⟨rfl, hfd⟩ := h.split hquiet hsplit
    exact hkept.loggedIn fd hfd
  · intro behind rc hval
    exact (h.ok_iff hquiet hval).1
  · intro behind' rc' hval' hrc
    obtain ⟨rfl, rfl⟩ := Prod.mk.inj (Option.some.inj (hval.symm.trans hval'))
    have hfd := (h.ok_iff hquiet hval).2 hrc
    have hledger := hbehind.ledger
    rw [hfd] at hledger
    exact ⟨hfd, fun fd hopened => hledger.closed_once hopened⟩

end Ended

/-! ## Sessions -/

theorem run_append (c : Config) (calls : List Call) (k : Call) :
    run c (calls ++ [k]) = step c (run c calls) k := by
  rw [run, List.foldl_append]
  rfl

theorem step_of_some {c : Config} {t : Traced Event (Option State)} {st : State}
    (h : t.val = some st) (k : Call) :
    step c t k = ⟨(k.put c st).val.map Prod.fst, t.log ++ (k.put c st).log⟩ := by
  rw [step]
  simp only [Bind.bind, h]
  exact congrArg _ (congrArg _ (List.append_nil _))

namespace Session

variable (s : Session)

/-- What the calls in front of one leave behind. -/
structure Reached (front : List Call) (st : State) : Prop where
  val : (run s.config front).val = some st
  history : st.history = Seen.after s.pars ∅ (front.map Call.seen)
  kept : Kept s.config (run s.config front).log st

variable {s}

/-- The limiter lets a call through. -/
theorem Reached.passes {front back : List Call} {k : Call} {st : State} (h : s.Reached front st)
    (hsplit : s.calls = front ++ k :: back) :
    (Seen.check s.pars st.history k.content k.nowTs).2.1 = true := by
  have hpasses := s.passes
  rw [hsplit, List.map_append, List.map_cons, Seen.outcomes_append, Seen.outcomes] at hpasses
  rw [h.history]
  exact hpasses _ (List.mem_append_right _ List.mem_cons_self)

theorem Reached.cases {front back : List Call} {k : Call} {st : State} (h : s.Reached front st)
    (hsplit : s.calls = front ++ k :: back) :
    (¬ k.Harmless s.config st ∧ (k.put s.config st).val = none) ∨
    (k.Harmless s.config st ∧ k.Correct s.config (run s.config front).log st ∧
      ∃ behind, s.Reached (front ++ [k]) behind) := by
  have hmem : k ∈ s.calls := by simp [hsplit]
  obtain ⟨hlong, hheader⟩ := s.aprs k hmem
  rcases put_cases s.config_s hlong hheader h.kept (h.passes hsplit) with
    hended | ⟨hharmless, earlier, mid, hquiet, hkept, hhistory, hends⟩
  · exact Or.inl hended
  obtain ⟨behind, rc, hval, hsame, hbehind⟩ := hends.kept hkept
  refine Or.inr ⟨hharmless, hends.correct hquiet hkept, behind, ?_⟩
  constructor
  · rw [run_append, step_of_some h.val, hval]
    rfl
  · rw [hsame, hhistory, h.history, List.map_append, Seen.after, Seen.after, List.foldl_append]
    rfl
  · rw [run_append, step_of_some h.val]
    exact hbehind

/-- Calls that all go on are all made. -/
theorem exists_reached
    (hgoesOn : ∀ front k back st, s.calls = front ++ k :: back → s.Reached front st →
      (k.put s.config st).val ≠ none)
    {front back : List Call} (hsplit : s.calls = front ++ back) : ∃ st, s.Reached front st := by
  induction front using List.reverseRecOn generalizing back with
  | nil => exact ⟨.initial, rfl, rfl, kept_initial s.config⟩
  | append_singleton front k ih =>
      rw [List.append_assoc] at hsplit
      obtain ⟨st, hreached⟩ := ih hsplit
      rcases hreached.cases hsplit with ⟨_, hended⟩ | ⟨_, _, hbehind⟩
      · exact absurd hended (hgoesOn front k back st hsplit hreached)
      · exact hbehind

theorem Correct.goesOn (h : s.Correct) {front back : List Call} {k : Call} {st : State}
    (hsplit : s.calls = front ++ k :: back) (hreached : s.Reached front st) :
    (k.put s.config st).val ≠ none := by
  obtain ⟨st', hval, hk⟩ := h front k back hsplit
  obtain rfl := Option.some.inj (hreached.val.symm.trans hval)
  exact hk.goesOn

theorem Harmless.correct (h : s.Harmless) {front back : List Call} {k : Call} {st : State}
    (hsplit : s.calls = front ++ k :: back) (hreached : s.Reached front st) :
    k.Correct s.config (run s.config front).log st := by
  rcases hreached.cases hsplit with ⟨hharm, _⟩ | ⟨_, hk, _⟩
  · exact absurd (h front k back hsplit st hreached.val) hharm
  · exact hk

/-- A session is correct if and only if nothing that ends the process happens in it. -/
theorem correct_iff (s : Session) : s.Correct ↔ s.Harmless := by
  constructor
  · intro hcorrect front k back hsplit st hval
    obtain ⟨st', hreached⟩ :=
      exists_reached (fun _ _ _ _ hsplit hreached => hcorrect.goesOn hsplit hreached) hsplit
    obtain rfl := Option.some.inj (hreached.val.symm.trans hval)
    rcases hreached.cases hsplit with ⟨_, hended⟩ | ⟨hharmless, _⟩
    · exact absurd hended (hcorrect.goesOn hsplit hreached)
    · exact hharmless
  · intro hharmless front k back hsplit
    obtain ⟨st, hreached⟩ :=
      exists_reached (fun _ _ _ _ hsplit hreached => (hharmless.correct hsplit hreached).goesOn)
        hsplit
    exact ⟨st, hreached.val, hharmless.correct hsplit hreached⟩

end Session

/-- A call for `PD9FVH>APLG01:hi`. -/
def sampleCall (nowTs : ℚ) (o : Outcomes) : Call where
  content := [ch '<', 0xff, 0x01] ++ str "PD9FVH>APLG01:hi"
  nowTs := nowTs
  outcomes := o
  length_le := by decide

/-- A reply that does not come, and a new connection for the next packet. -/
example : (run sampleConfig [
    sampleCall 1 ⟨some [.connected true], [.accepted 100], [], []⟩,
    sampleCall 2 ⟨some [.refused, .connected true], [.accepted 100], [35, 10], [.accepted 9,
      .accepted 9]⟩]).log =
    let login := loginLine sampleConfig
    let line := str "PD9FVH>APLG01:hi\r\n"
    [.opened 0, .login 0 login login, .closed 0, .opened 1, .closed 1, .opened 2,
      .login 2 login login, .reply 2 [35], .packet 2 line line] := by
  decide +kernel

/-- A packet while the host is not found. -/
def lonelyCall : Call := sampleCall 1 ⟨none, [], [], []⟩

theorem aprs_lonelyCall :
    ∀ k ∈ [lonelyCall], 5 ≤ k.content.length ∧ k.content.take 3 = [ch '<', 0xff, 0x01] := by
  rw [List.forall_mem_singleton]
  exact ⟨by decide, rfl⟩

theorem passes_lonelyCall :
    ∀ outcome ∈ Seen.outcomes ⟨1, 1, 10⟩ ∅ ([lonelyCall].map Call.seen), outcome.1 = true := by
  simp only [List.map_cons, List.map_nil, Seen.outcomes, List.forall_mem_singleton]
  decide +kernel

def sampleSession : Session where
  config := sampleConfig
  pars := ⟨1, 1, 10⟩
  calls := [lonelyCall]
  config_s := rfl
  aprs := aprs_lonelyCall
  passes := passes_lonelyCall

theorem not_correct_sampleSession : ¬ sampleSession.Correct := by
  intro h
  obtain ⟨st, hval, hk⟩ := h [] lonelyCall [] rfl
  have hreached : sampleSession.Reached [] .initial := ⟨rfl, rfl, kept_initial sampleConfig⟩
  obtain rfl := Option.some.inj (hreached.val.symm.trans hval)
  rcases hreached.cases rfl with ⟨_, hended⟩ | ⟨hharmless, _⟩
  · exact hk.goesOn hended
  · obtain ⟨attempts, hresolved, _⟩ := hharmless.connects rfl
    exact absurd hresolved (by simp [lonelyCall, sampleCall])

end HamRouter.AprsSi
