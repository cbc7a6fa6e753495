import HamRouter.Model.AcceptedConfiguration
import HamRouter.Verification.Configuration.Capacity
import HamRouter.Verification.Configuration.Mappings

/-! # Which configurations are accepted

Each function that loads a part of a section succeeds under the rule for that part. What a section
finds is what those in front of it have named. -/

namespace HamRouter.Configuration

open Switchboard Fallible

/-! ## Settings -/

theorem Setting.text_eq_ok {e : Setting} {s : StdString} : e.text = .ok s ↔ e.value = .text s := by
  rw [Setting.text]
  cases e.value with
  | text s => simp
  | flag b => simp
  | number n => simp
  | other => simp

theorem Setting.flag_eq_ok {e : Setting} {b : Bool} : e.flag = .ok b ↔ e.value = .flag b := by
  rw [Setting.flag]
  cases e.value with
  | text s => simp
  | flag b => simp
  | number n => simp
  | other => simp

theorem Setting.number_eq_ok {e : Setting} {n : ℤ} : e.number = .ok n ↔ e.value = .number n := by
  rw [Setting.number]
  cases e.value with
  | text s => simp
  | flag b => simp
  | number n => simp
  | other => simp

theorem Setting.exists_text_iff (e : Setting) : (∃ s, e.text = .ok s) ↔ e.IsText :=
  exists_congr fun _ => Setting.text_eq_ok

/-! ## Filters -/

theorem givenText_snoc (settings : List Setting) (e : Setting) (name : StdString) :
    givenText (settings ++ [e]) name =
      match e.value with
      | .text s => if e.name = name then s else givenText settings name
      | _ => givenText settings name := by
  rw [givenText, List.foldl_append]
  rfl

theorem exists_setting_iff (d : FilterDraft) (e : Setting) :
    (∃ d', d.setting e = .ok d') ↔ e.OfFilter := by
  rw [FilterDraft.setting, Setting.OfFilter]
  split
  · rename_i hname
    rw [exists_map_iff, e.exists_text_iff]
    simp [hname, show str "name" ≠ str "ignore-if-field-is-missing" by decide]
  split
  · rename_i hpattern
    rw [exists_map_iff, e.exists_text_iff]
    simp [hpattern, show str "pattern" ≠ str "ignore-if-field-is-missing" by decide]
  split
  · rename_i hname hpattern hignore
    simp only [exists_map_iff, Setting.flag_eq_ok]
    constructor
    · exact fun hflag => Or.inr ⟨hignore, hflag⟩
    · exact fun h => h.elim (fun h => absurd h.1 (not_or.mpr ⟨hname, hpattern⟩)) And.right
  · rename_i hname hpattern hignore
    simp [hname, hpattern, hignore]

/-- The loop over the settings of a filter keeps the last name and the last pattern. -/
theorem setting_keeps {done : List Setting} {e : Setting} {d d' : FilterDraft}
    (hname : d.name = givenText done (str "name"))
    (hpattern : d.pattern = givenText done (str "pattern")) (h : d.setting e = .ok d') :
    d'.name = givenText (done ++ [e]) (str "name") ∧
      d'.pattern = givenText (done ++ [e]) (str "pattern") := by
  rw [FilterDraft.setting] at h
  rw [givenText_snoc, givenText_snoc]
  split at h
  · rename_i he
    obtain ⟨s, hs, rfl⟩ := map_eq_ok.mp h
    rw [Setting.text_eq_ok.mp hs, he]
    exact ⟨rfl, hpattern⟩
  split at h
  · rename_i he
    obtain ⟨s, hs, rfl⟩ := map_eq_ok.mp h
    rw [Setting.text_eq_ok.mp hs, he]
    exact ⟨hname, rfl⟩
  split at h
  · rename_i he
    obtain ⟨b, hb, rfl⟩ := map_eq_ok.mp h
    rw [Setting.flag_eq_ok.mp hb]
    exact ⟨hname, hpattern⟩
  · cases h

theorem foldlM_setting {settings : List Setting} {d : FilterDraft}
    (h : settings.foldlM FilterDraft.setting ⟨[], true, []⟩ = .ok d) :
    d.name = givenText settings (str "name") ∧ d.pattern = givenText settings (str "pattern") :=
  foldlM_induction (P := fun done (d : FilterDraft) =>
    d.name = givenText done (str "name") ∧ d.pattern = givenText done (str "pattern")) []
    ⟨rfl, rfl⟩ (fun _ _ _ _ _ hdone hstep => setting_keeps hdone.1 hdone.2 hstep) h

theorem exists_foldlM_setting_iff (settings : List Setting) :
    (∃ d, settings.foldlM FilterDraft.setting ⟨[], true, []⟩ = .ok d) ↔
      ∀ e ∈ settings, e.OfFilter :=
  exists_foldlM_iff_forall exists_setting_iff

theorem exists_loadFilter_iff (line : ℕ) (filters : Filters) (node : Group) :
    (∃ filters', loadFilter line filters node = .ok filters') ↔ node.IsFilter := by
  rw [loadFilter, exists_bind_iff]
  constructor
  · rintro ⟨d, hd, filters', h⟩
    obtain ⟨hname, hpattern⟩ := foldlM_setting hd
    refine ⟨(exists_foldlM_setting_iff _).mp ⟨d, hd⟩, ?_, ?_⟩
    · rintro hnil
      rw [if_pos (hname.trans hnil)] at h
      cases h
    · rintro hnil
      split at h
      · cases h
      · rw [if_pos (hpattern.trans hnil)] at h
        cases h
  · intro h
    obtain ⟨d, hd⟩ := (exists_foldlM_setting_iff _).mpr h.known
    obtain ⟨hname, hpattern⟩ := foldlM_setting hd
    refine ⟨d, hd, ?_⟩
    rw [if_neg (hname ▸ h.name), if_neg (hpattern ▸ h.pattern)]
    split
    · exact ⟨filters, rfl⟩
    · exact ⟨_, rfl⟩

/-- A filter adds its name. -/
theorem mem_loadFilter {line : ℕ} {filters filters' : Filters} {node : Group}
    (h : loadFilter line filters node = .ok filters') (name : StdString) :
    name ∈ filters' ↔ name ∈ filters ∨ name = givenText node.settings (str "name") := by
  obtain ⟨d, hd, h⟩ := bind_eq_ok.mp h
  rw [← (foldlM_setting hd).1]
  split at h
  · cases h
  split at h
  · cases h
  split at h
  · rename_i hmem
    obtain rfl := Except.ok.inj h
    exact ⟨Or.inl, fun hname => hname.elim id fun heq => heq ▸ hmem⟩
  · obtain rfl := Except.ok.inj h
    rw [AList.mem_insert]
    exact or_comm

theorem mem_foldlM_loadFilter {line : ℕ} {filters filters' : Filters} {nodes : List Group}
    (h : nodes.foldlM (loadFilter line) filters = .ok filters') (name : StdString) :
    name ∈ filters' ↔
      name ∈ filters ∨ name ∈ nodes.map fun node => givenText node.settings (str "name") := by
  refine foldlM_induction (P := fun done filters' => name ∈ filters' ↔
    name ∈ filters ∨ name ∈ done.map fun node => givenText node.settings (str "name")) []
    (by simp) ?_ h
  intro done node filters₁ filters₂ _ hdone hnode
  rw [mem_loadFilter hnode, hdone, List.map_append, List.mem_append, List.map_singleton,
    List.mem_singleton, or_assoc]

/-! ## The general section -/

/-- What the loop of `load_general` has set behind some settings. -/
structure General.After (settings : List Setting) (g : General) : Prop where
  gps : g.gps = true ↔ ∃ e ∈ settings, e.name = str "gps"
  once : settings.countP (·.name = str "repetition-rate-limiting") =
    if g.globalRepetitionFilter then 1 else 0

theorem general_keeps {done : List Setting} {e : Setting} {g g' : General} (hg : g.After done)
    (h : g.setting e = .ok g') : g'.After (done ++ [e]) := by
  obtain ⟨hgps, honce⟩ := hg
  rw [General.setting] at h
  split at h
  · rename_i he
    obtain rfl := Except.ok.inj h
    refine ⟨iff_of_true rfl ⟨e, by simp, he⟩, ?_⟩
    rw [List.countP_append, honce, List.countP_singleton, he]
    rfl
  split at h
  · rename_i hne he
    obtain ⟨s, -, rfl⟩ := map_eq_ok.mp h
    refine ⟨hgps.trans ?_, ?_⟩
    · simp [hne]
    · rw [List.countP_append, honce, List.countP_singleton, he]
      rfl
  split at h
  · rename_i hne _ he
    split at h
    · cases h
    · rename_i hnot
      obtain rfl := Except.ok.inj h
      refine ⟨hgps.trans ?_, ?_⟩
      · simp [hne]
      · rw [List.countP_append, honce, if_neg hnot, List.countP_singleton, he]
        rfl
  · cases h

theorem after_foldlM {settings : List Setting} {g : General}
    (h : settings.foldlM General.setting ⟨false, false⟩ = .ok g) : g.After settings :=
  foldlM_induction [] ⟨by simp, rfl⟩ (fun _ _ _ _ _ hg hnext => general_keeps hg hnext) h

theorem exists_general_iff {done : List Setting} {g : General} (hg : g.After done) (e : Setting) :
    (∃ g', g.setting e = .ok g') ↔
      e.OfGeneral ∧ (done ++ [e]).countP (·.name = str "repetition-rate-limiting") ≤ 1 := by
  have hcount : ∀ name, e.name = name → (done ++ [e]).countP
      (·.name = str "repetition-rate-limiting") = (if g.globalRepetitionFilter then 1 else 0) +
        if name = str "repetition-rate-limiting" then 1 else 0 := by
    rintro name rfl
    rw [List.countP_append, hg.once, List.countP_singleton]
    simp
  rw [General.setting, Setting.OfGeneral]
  split
  · rename_i he
    rw [hcount _ he]
    refine iff_of_true ⟨_, rfl⟩ ⟨Or.inl he, ?_⟩
    rw [if_neg (show str "gps" ≠ str "repetition-rate-limiting" by decide)]
    split <;> decide
  split
  · rename_i hne he
    rw [exists_map_iff, e.exists_text_iff, hcount _ he,
      if_neg (show str "logfile" ≠ str "repetition-rate-limiting" by decide)]
    constructor
    · exact fun htext => ⟨Or.inr (Or.inl ⟨he, htext⟩), by split <;> decide⟩
    · rintro ⟨hgps | ⟨-, htext⟩ | hlimit, -⟩
      · exact absurd hgps hne
      · exact htext
      · exact absurd (he.symm.trans hlimit) (by decide)
  split
  · rename_i hne hlog he
    rw [hcount _ he, if_pos rfl]
    split
    · simp
    · simp [he]
  · rename_i hne hlog hlimit
    simp [hne, hlog, hlimit]

theorem exists_loadGeneral_iff (line : ℕ) (settings : List Setting) :
    (∃ g, loadGeneral line settings = .ok g) ↔ IsGeneral settings := by
  have hloop : (∃ g, settings.foldlM General.setting ⟨false, false⟩ = .ok g) ↔ _ :=
    exists_foldlM_iff (fun _ _ _ _ hg hnext => general_keeps hg hnext)
      (fun _ e g hg => exists_general_iff hg e) [] ⟨by simp, rfl⟩
  rw [loadGeneral, exists_bind_iff]
  constructor
  · rintro ⟨g, hg, g', h⟩
    have hafter := after_foldlM hg
    have hpasses := hloop.mp ⟨g, hg⟩
    refine ⟨?_, ?_, ?_⟩
    · intro e he
      obtain ⟨front, back, hsplit⟩ := List.append_of_mem he
      exact (hpasses front e back hsplit).1
    · split at h
      · rename_i hgps
        exact hafter.gps.mp hgps
      · cases h
    · refine hafter.once.trans_le ?_
      split <;> decide
  · intro h
    have hpasses : ∀ front e back, settings = front ++ e :: back → e.OfGeneral ∧
        (front ++ [e]).countP (·.name = str "repetition-rate-limiting") ≤ 1 := by
      intro front e back hsplit
      refine ⟨h.known e (by simp [hsplit]), ?_⟩
      have honce := h.once
      rw [hsplit, List.append_cons, List.countP_append] at honce
      exact (Nat.le_add_right _ _).trans honce
    obtain ⟨g, hg⟩ := hloop.mpr hpasses
    have hafter := after_foldlM hg
    refine ⟨g, hg, g, ?_⟩
    rw [if_pos (hafter.gps.mpr h.gps)]

/-! ## The SNMP section -/

theorem exists_snmpSetting_iff (port : ℤ) (e : Setting) :
    (∃ port', snmpSetting port e = .ok port') ↔ e.OfSnmp := by
  rw [snmpSetting, Setting.OfSnmp]
  split
  · rename_i hname
    simp only [Setting.number_eq_ok, hname, true_and]
  · rename_i hname
    simp [hname]

theorem exists_snmpPort_iff (settings : List Setting) :
    (∃ port, snmpPort settings = .ok port) ↔ ∀ e ∈ settings, e.OfSnmp :=
  exists_foldlM_iff_forall exists_snmpSetting_iff

/-! ## Mappings -/

variable {ρ : Type} {regcomp : StdString → Option ρ} {c c' : Mappings ρ}

namespace Mappings

theorem exists_tranceiver_iff {line : ℕ} {text id : StdString} :
    (∃ t, c.tranceiver line text id = .ok t) ↔ id ∈ c.tranceivers := by
  simp only [tranceiver_eq_ok, findTranceiver, ← Option.isSome_iff_exists, List.findIdx?_isSome,
    List.any_eq_true, decide_eq_true_eq, exists_eq_right]

theorem exists_tranceivers_iff {line : ℕ} {text : StdString → StdString} {ids : List StdString} :
    (∃ ts, ids.mapM (fun id => c.tranceiver line (text id) id) = .ok ts) ↔
      ∀ id ∈ ids, id ∈ c.tranceivers := by
  rw [exists_mapM_iff]
  exact forall₂_congr fun id _ => exists_tranceiver_iff

theorem exists_filter_iff {node : Group} :
    (∃ f, c.filter node = .ok f) ↔
      ∀ e, node.find (str "filter") = some e → ∃ name, e.value = .text name ∧ name ∈ c.filters := by
  rw [filter]
  cases node.find (str "filter") with
  | none => simp
  | some e =>
      simp only [exists_bind_iff, Setting.text_eq_ok, Option.some.injEq, forall_eq']
      refine exists_congr fun name => and_congr_right fun _ => ?_
      rw [← AList.lookup_isSome]
      cases c.filters.lookup name with
      | none => simp
      | some f => simp

theorem exists_incomingVia_iff {line : ℕ} {id : StdString} :
    (∃ via, c.incomingVia line id = .ok via) ↔ id = [] ∨ id ∈ c.tranceivers := by
  rw [incomingVia]
  split
  · rename_i hid
    simp [hid]
  · rename_i hid
    rw [exists_map_iff, exists_tranceiver_iff]
    simp [hid]

theorem exists_compiled_iff {line : ℕ} {name re : StdString} :
    (∃ r, compiled regcomp line name re = .ok r) ↔ (regcomp re).isSome := by
  simp only [compiled_eq_ok, Option.isSome_iff_exists]

theorem exists_bridgeCalls_iff {node : Group} :
    (∃ calls, c.bridgeCalls node = .ok calls) ↔
      (∃ source, node.text (str "from") = .ok source ∧ source ∈ c.tranceivers) ∧
        (∃ tos, node.text (str "to") = .ok tos ∧ ∀ target ∈ words tos, target ∈ c.tranceivers) ∧
        ∀ e, node.find (str "filter") = some e →
          ∃ name, e.value = .text name ∧ name ∈ c.filters := by
  have hparts : ∀ (tos : StdString) (t : ℕ) (f : Option FilterT),
      (∃ calls, (words tos).mapM (c.bridgeCall node.line t f) = .ok calls) ↔
        ∀ target ∈ words tos, target ∈ c.tranceivers := by
    intro tos t f
    rw [exists_mapM_iff]
    refine forall₂_congr fun target _ => ?_
    rw [bridgeCall, exists_bind_iff]
    simpa using exists_tranceiver_iff
  simp only [bridgeCalls, exists_bind_iff, hparts]
  constructor
  · rintro ⟨source, hsource, tos, htos, f, hf, t, ht, hwords⟩
    exact ⟨⟨source, hsource, exists_tranceiver_iff.mp ⟨t, ht⟩⟩, ⟨tos, htos, hwords⟩,
      exists_filter_iff.mp ⟨f, hf⟩⟩
  · rintro ⟨⟨source, hsource, hid⟩, ⟨tos, htos, hwords⟩, hfilter⟩
    obtain ⟨f, hf⟩ := exists_filter_iff.mpr hfilter
    obtain ⟨t, ht⟩ := exists_tranceiver_iff.mpr hid
    exact ⟨source, hsource, tos, htos, f, hf, t, ht, hwords⟩

theorem exists_routeCall_iff {node : Group} :
    (∃ r, c.routeCall regcomp node = .ok r) ↔
      (∃ re, node.text (str "from-callsign") = .ok re ∧ (regcomp re).isSome) ∧
        (∃ re, node.text (str "to-callsign") = .ok re ∧ (regcomp re).isSome) ∧
        (∃ id, node.text (str "incoming-via") = .ok id ∧ (id = [] ∨ id ∈ c.tranceivers)) ∧
        ∃ tos, node.text (str "outgoing-via") = .ok tos ∧
          ∀ target ∈ words tos, target ∈ c.tranceivers := by
  simp only [routeCall, exists_bind_iff]
  constructor
  · rintro ⟨fromCallsign, hfrom, toCallsign, hto, incoming, hincoming, via, hvia, outgoing,
      houtgoing, targets, htargets, reFrom, hreFrom, reTo, hreTo, -⟩
    exact ⟨⟨fromCallsign, hfrom, exists_compiled_iff.mp ⟨reFrom, hreFrom⟩⟩,
      ⟨toCallsign, hto, exists_compiled_iff.mp ⟨reTo, hreTo⟩⟩,
      ⟨incoming, hincoming, exists_incomingVia_iff.mp ⟨via, hvia⟩⟩,
      outgoing, houtgoing, exists_tranceivers_iff.mp ⟨targets, htargets⟩⟩
  · rintro ⟨⟨fromCallsign, hfrom, hreFrom⟩, ⟨toCallsign, hto, hreTo⟩, ⟨incoming, hincoming, hvia⟩,
      outgoing, houtgoing, htargets⟩
    obtain ⟨via, hvia⟩ := exists_incomingVia_iff.mpr hvia
    obtain ⟨targets, htargets⟩ := exists_tranceivers_iff.mpr htargets
    obtain ⟨reFrom, hreFrom⟩ := exists_compiled_iff.mpr hreFrom
    obtain ⟨reTo, hreTo⟩ := exists_compiled_iff.mpr hreTo
    exact ⟨fromCallsign, hfrom, toCallsign, hto, incoming, hincoming, via, hvia, outgoing,
      houtgoing, targets, htargets, reFrom, hreFrom, reTo, hreTo, _, rfl⟩

theorem exists_calls_iff {filters : List StdString}
    (hfilters : ∀ name, name ∈ c.filters ↔ name ∈ filters) (mapping : Mapping) :
    (∃ calls, c.calls regcomp mapping = .ok calls) ↔
      mapping.Resolves regcomp c.tranceivers filters := by
  cases mapping with
  | bridge node =>
      simp only [Mapping.Resolves, ← hfilters]
      exact exists_bridgeCalls_iff
  | route node => exact exists_map_iff.trans exists_routeCall_iff

end Mappings

/-! ## Sections -/

/-- What the sections in front have named. -/
structure Named (front : List Section) (c : Mappings ρ) : Prop where
  tranceivers : c.tranceivers = (front.flatMap Section.instances).map Tranceiver.id
  filters : ∀ name, name ∈ c.filters ↔ name ∈ front.flatMap Section.filterNames

theorem exists_on_of_foldlM_load {mappings : List Mapping} {sb : Tables ρ ℕ}
    (h : mappings.foldlM (Mapping.load regcomp) (on c sb) = .ok c') : ∃ sb', c' = on c sb' := by
  rw [foldlM_load] at h
  obtain ⟨lists, -, rfl⟩ := map_eq_ok.mp h
  exact ⟨_, rfl⟩

theorem mem_filters_mapSection {sec : Section} (h : mapSection regcomp c sec = .ok c')
    (name : StdString) :
    name ∈ c'.filters ↔ name ∈ c.filters ∨ name ∈ sec.filterNames := by
  have hsame : c'.filters = c.filters → sec.filterNames = [] →
      (name ∈ c'.filters ↔ name ∈ c.filters ∨ name ∈ sec.filterNames) := by
    intro hfilters hnone
    simp [hfilters, hnone]
  cases sec with
  | filters line nodes =>
      obtain ⟨filters, hfilters, rfl⟩ := map_eq_ok.mp h
      exact mem_foldlM_loadFilter hfilters name
  | tranceivers ts =>
      obtain rfl := Except.ok.inj h
      exact hsame rfl rfl
  | bridgeMappings nodes =>
      obtain ⟨sb, rfl⟩ :=
        exists_on_of_foldlM_load ((loadBridgeSwitchboard_eq regcomp c nodes).symm.trans h)
      exact hsame rfl rfl
  | routingMappings nodes =>
      obtain ⟨sb, rfl⟩ :=
        exists_on_of_foldlM_load ((loadRoutingSwitchboard_eq regcomp c nodes).symm.trans h)
      exact hsame rfl rfl
  | snmp settings runningSince =>
      obtain ⟨port, -, rfl⟩ := map_eq_ok.mp h
      exact hsame rfl rfl
  | general line settings =>
      obtain ⟨g, -, rfl⟩ := map_eq_ok.mp h
      exact hsame rfl rfl
  | other line name => cases h

theorem Named.snoc {front : List Section} {sec : Section} (hc : Named front c)
    (h : mapSection regcomp c sec = .ok c') : Named (front ++ [sec]) c' := by
  refine ⟨?_, fun name => ?_⟩
  · rw [(maps_mapSection h).tranceivers, hc.tranceivers, List.flatMap_append,
      List.flatMap_singleton, List.map_append]
  · rw [mem_filters_mapSection h, hc.filters, List.flatMap_append, List.flatMap_singleton,
      List.mem_append]

theorem exists_mappings_iff {filters : List StdString}
    (hfilters : ∀ name, name ∈ c.filters ↔ name ∈ filters) (mappings : List Mapping)
    (sb : Tables ρ ℕ) :
    (∃ c', mappings.foldlM (Mapping.load regcomp) (on c sb) = .ok c') ↔
      ∀ mapping ∈ mappings, mapping.Resolves regcomp c.tranceivers filters := by
  rw [foldlM_load, exists_map_iff, exists_mapM_iff]
  exact forall₂_congr fun mapping _ => Mappings.exists_calls_iff hfilters mapping

theorem exists_mapSection_iff {front : List Section} (hc : Named front c) (sec : Section) :
    (∃ c', mapSection regcomp c sec = .ok c') ↔
      sec.InOrder regcomp ((front.flatMap Section.instances).map Tranceiver.id)
        (front.flatMap Section.filterNames) := by
  rw [← hc.tranceivers]
  cases sec with
  | filters line nodes =>
      exact exists_map_iff.trans (exists_foldlM_iff_forall (exists_loadFilter_iff line))
  | tranceivers ts => exact iff_of_true ⟨_, rfl⟩ fun _ hmapping => (by cases hmapping)
  | bridgeMappings nodes =>
      rw [mapSection, loadBridgeSwitchboard_eq regcomp]
      exact exists_mappings_iff hc.filters _ _
  | routingMappings nodes =>
      rw [mapSection, loadRoutingSwitchboard_eq regcomp]
      exact exists_mappings_iff hc.filters _ _
  | snmp settings runningSince => exact exists_map_iff.trans (exists_snmpPort_iff settings)
  | general line settings => exact exists_map_iff.trans (exists_loadGeneral_iff line settings)
  | other line name => exact iff_of_false (fun ⟨_, h⟩ => (by cases h)) id

/-- The constructor gets through a file exactly when the file is in order; otherwise one of its
sections ends the program. -/
theorem File.accepted_iff (f : File) (regcomp : StdString → Option ρ) :
    (∃ s c, configuration regcomp f.sections = .ok (s, c)) ↔ f.InOrder regcomp := by
  have hstart : Named [] (⟨∅, [], none⟩ : Mappings ρ) := ⟨rfl, fun name => by simp⟩
  have hmap : (∃ c, f.sections.foldlM (mapSection regcomp) ⟨∅, [], none⟩ = .ok c) ↔ _ :=
    exists_foldlM_iff (fun _ _ _ _ hc hnext => Named.snoc hc hnext)
      (fun _ sec c hc => exists_mapSection_iff hc sec) [] hstart
  have hload := f.loaded_iff
  constructor
  · rintro ⟨s, c, h⟩
    obtain ⟨hs, hc⟩ := foldlM_configure.mp h
    obtain ⟨hids, hstatistics⟩ := hload.mp ⟨s, hs⟩
    exact ⟨hids, hstatistics, hmap.mp ⟨c, hc⟩⟩
  · intro h
    obtain ⟨s, hs⟩ := hload.mpr ⟨h.ids, h.statistics⟩
    obtain ⟨c, hc⟩ := hmap.mpr h.sections
    exact ⟨s, c, foldlM_configure.mpr ⟨hs, hc⟩⟩

end HamRouter.Configuration
