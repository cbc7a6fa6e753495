import HamRouter.Library.Fallible
import HamRouter.Model.NamedMappings

/-! # The registrations of a configuration

Each mapping is registered with what its names stand for there. Sections behind it may only add
names, so in the end these still stand for the same. -/

namespace HamRouter.Configuration

open Switchboard Fallible

variable {ρ : Type} {regcomp : StdString → Option ρ} {c c' : Mappings ρ}

/-! ## Names -/

/-- What a name stands for it still stands for. -/
structure Keeps (c c' : Mappings ρ) : Prop where
  tranceiver : ∀ id t, c.findTranceiver id = some t → c'.findTranceiver id = some t
  filter : ∀ name f, c.filters.lookup name = some f → c'.filters.lookup name = some f

namespace Keeps

theorem tranceiver_extends (h : Keeps c c') (line : ℕ) (text id : StdString) :
    Extends (c.tranceiver line text id) (c'.tranceiver line text id) := by
  intro t ht
  rw [Mappings.tranceiver] at ht ⊢
  cases hfind : c.findTranceiver id with
  | none =>
      rw [hfind] at ht
      cases ht
  | some found =>
      rw [hfind] at ht
      rw [h.tranceiver id found hfind]
      exact ht

theorem filter_extends (h : Keeps c c') (node : Group) :
    Extends (c.filter node) (c'.filter node) := by
  rw [Mappings.filter, Mappings.filter]
  cases node.find (str "filter") with
  | none => exact .refl _
  | some e =>
      refine (Extends.refl e.text).bind fun filterName f hf => ?_
      cases hlookup : c.filters.lookup filterName with
      | none =>
          rw [hlookup] at hf
          cases hf
      | some found =>
          rw [hlookup] at hf
          rw [h.filter filterName found hlookup]
          exact hf

theorem incomingVia_extends (h : Keeps c c') (line : ℕ) (id : StdString) :
    Extends (c.incomingVia line id) (c'.incomingVia line id) := by
  rw [Mappings.incomingVia, Mappings.incomingVia]
  split
  · exact .refl _
  · exact (h.tranceiver_extends _ _ _).map some

theorem calls_extends (h : Keeps c c') (regcomp : StdString → Option ρ) (mapping : Mapping) :
    Extends (c.calls regcomp mapping) (c'.calls regcomp mapping) := by
  cases mapping with
  | bridge node =>
      refine (Extends.refl _).bind fun from_ => (Extends.refl _).bind fun tos => ?_
      refine (h.filter_extends node).bind fun f => (h.tranceiver_extends _ _ _).bind fun fromT => ?_
      exact .mapM (fun part => (h.tranceiver_extends _ _ _).bind fun toT => .refl _) _
  | route node =>
      refine Extends.map ?_ _
      refine (Extends.refl _).bind fun fromCallsign => (Extends.refl _).bind fun toCallsign => ?_
      refine (Extends.refl _).bind fun incoming => (h.incomingVia_extends _ _).bind fun via => ?_
      refine (Extends.refl _).bind fun outgoing => ?_
      exact (Extends.mapM (fun part => h.tranceiver_extends _ _ _) _).bind fun _ => .refl _

end Keeps

/-! ## Registering -/

/-- With a switchboard. -/
def on (c : Mappings ρ) (sb : Tables ρ ℕ) : Mappings ρ := { c with sb := some sb }

theorem foldlM_bridgeTo (line fromT : ℕ) (f : Option FilterT) (c : Mappings ρ) (sb : Tables ρ ℕ)
    (parts : List StdString) :
    parts.foldlM (Mappings.bridgeTo line fromT f) (on c sb) =
      (parts.mapM (c.bridgeCall line fromT f)).map fun calls =>
        on c (calls.foldl register sb) := by
  induction parts generalizing sb with
  | nil => rfl
  | cons part parts ih =>
      rw [List.foldlM_cons, List.mapM_cons, Mappings.bridgeTo, Mappings.bridgeCall]
      change ((c.tranceiver line _ part).bind _).bind _ = _
      cases c.tranceiver line (str "Mapping: " ++ quoted part) part with
      | error e => rfl
      | ok toT =>
          refine (ih (addBridgeMapping sb fromT toT f)).trans ?_
          cases List.mapM (m := Except Failure) _ parts with
          | error e => rfl
          | ok calls => rfl

def Mapping.load (regcomp : StdString → Option ρ) (c : Mappings ρ) :
    Mapping → Except Failure (Mappings ρ)
  | .bridge node => c.bridge node
  | .route node => Mappings.route regcomp c node

/-- A mapping is registered with what its names stand for. -/
theorem load_on (c : Mappings ρ) (sb : Tables ρ ℕ) (mapping : Mapping) :
    mapping.load regcomp (on c sb) =
      (c.calls regcomp mapping).map fun calls => on c (calls.foldl register sb) := by
  cases mapping with
  | bridge node =>
      have hparts := fun fromT f tos => foldlM_bridgeTo node.line fromT f c sb (words tos)
      simp only [Mapping.load, Mappings.bridge, Mappings.calls, Mappings.bridgeCalls, map_bind,
        ← hparts]
      rfl
  | route node =>
      simp only [Mapping.load, Mappings.route, Mappings.calls, Mappings.routeCall, map_bind]
      rfl

theorem foldlM_load (c : Mappings ρ) (sb : Tables ρ ℕ) (mappings : List Mapping) :
    mappings.foldlM (Mapping.load regcomp) (on c sb) =
      (mappings.mapM (c.calls regcomp)).map fun calls =>
        on c (calls.flatten.foldl register sb) := by
  induction mappings generalizing sb with
  | nil => rfl
  | cons mapping mappings ih =>
      rw [List.foldlM_cons, List.mapM_cons, load_on]
      cases c.calls regcomp mapping with
      | error e => rfl
      | ok calls =>
          refine (ih (calls.foldl register sb)).trans ?_
          cases List.mapM (m := Except Failure) _ mappings with
          | error e => rfl
          | ok rest =>
              refine congrArg (fun sb => Except.ok (on c sb)) ?_
              rw [List.flatten_cons, List.foldl_append]

/-! ## Sections -/

theorem loadBridgeSwitchboard_eq (regcomp : StdString → Option ρ) (c : Mappings ρ)
    (nodes : List Group) :
    c.loadBridgeSwitchboard nodes =
      (nodes.map .bridge).foldlM (Mapping.load regcomp) (on c c.switchboard) := by
  rw [List.foldlM_map]
  rfl

theorem loadRoutingSwitchboard_eq (regcomp : StdString → Option ρ) (c : Mappings ρ)
    (nodes : List Group) :
    c.loadRoutingSwitchboard regcomp nodes =
      (nodes.map .route).foldlM (Mapping.load regcomp) (on c c.switchboard) := by
  rw [List.foldlM_map]
  rfl

theorem keeps_loadFilter {line : ℕ} {filters filters' : Filters} {node : Group}
    (h : loadFilter line filters node = .ok filters') {name : StdString} {f : FilterT}
    (hf : filters.lookup name = some f) : filters'.lookup name = some f := by
  obtain ⟨d, -, hd⟩ := bind_eq_ok.mp h
  split at hd
  · cases hd
  split at hd
  · cases hd
  split at hd
  · obtain rfl := Except.ok.inj hd
    exact hf
  · rename_i hmem
    obtain rfl := Except.ok.inj hd
    have hne : name ≠ d.name := by
      rintro rfl
      exact hmem (AList.lookup_isSome.mp (by rw [hf]; rfl))
    rwa [AList.lookup_insert_ne hne]

/-- What a section does: names stay, its tranceivers get theirs, and its mappings are registered. -/
structure Maps (regcomp : StdString → Option ρ) (sec : Section) (c c' : Mappings ρ) : Prop where
  keeps : Keeps c c'
  tranceivers : c'.tranceivers = c.tranceivers ++ sec.instances.map Tranceiver.id
  registers : ∃ lists, sec.mappings.mapM (c'.calls regcomp) = .ok lists ∧
    c'.switchboard = lists.flatten.foldl register c.switchboard

theorem maps_of_foldlM {sec : Section} (mappings : List Mapping)
    (hmappings : sec.mappings = mappings) (hinstances : sec.instances = [])
    (h : mappings.foldlM (Mapping.load regcomp) (on c c.switchboard) = .ok c') :
    Maps regcomp sec c c' := by
  rw [foldlM_load] at h
  obtain ⟨lists, hlists, rfl⟩ := map_eq_ok.mp h
  refine ⟨⟨fun _ _ h => h, fun _ _ h => h⟩, ?_, lists, hmappings ▸ hlists, rfl⟩
  rw [hinstances]
  exact (List.append_nil _).symm

theorem maps_mapSection {sec : Section} (h : mapSection regcomp c sec = .ok c') :
    Maps regcomp sec c c' := by
  cases sec with
  | filters line nodes =>
      obtain ⟨filters, hfilters, rfl⟩ := map_eq_ok.mp h
      refine ⟨⟨fun _ _ h => h, ?_⟩, (List.append_nil _).symm, [], rfl, rfl⟩
      intro name f hf
      exact foldlM_induction (P := fun _ filters => filters.lookup name = some f) [] hf
        (fun _ _ _ _ _ hold hnew => keeps_loadFilter hnew hold) hfilters
  | tranceivers ts =>
      obtain rfl := Except.ok.inj h
      refine ⟨⟨?_, fun _ _ h => h⟩, rfl, [], rfl, rfl⟩
      intro id t ht
      rw [Mappings.findTranceiver] at ht ⊢
      rw [List.findIdx?_append, ht]
      rfl
  | bridgeMappings nodes =>
      exact maps_of_foldlM _ rfl rfl ((loadBridgeSwitchboard_eq regcomp c nodes).symm.trans h)
  | routingMappings nodes =>
      exact maps_of_foldlM _ rfl rfl ((loadRoutingSwitchboard_eq regcomp c nodes).symm.trans h)
  | snmp settings runningSince =>
      obtain ⟨port, -, rfl⟩ := map_eq_ok.mp h
      exact ⟨⟨fun _ _ h => h, fun _ _ h => h⟩, (List.append_nil _).symm, [], rfl, rfl⟩
  | general line settings =>
      obtain ⟨g, -, rfl⟩ := map_eq_ok.mp h
      exact ⟨⟨fun _ _ h => h, fun _ _ h => h⟩, (List.append_nil _).symm, [], rfl, rfl⟩
  | other line name => cases h

/-- The switchboard of a file has the registrations of all its mappings, with what the names stand
for in the end. -/
structure Registered (regcomp : StdString → Option ρ) (sections : List Section)
    (c : Mappings ρ) : Prop where
  tranceivers : c.tranceivers = (sections.flatMap Section.instances).map Tranceiver.id
  registrations : ∃ lists, (sections.flatMap Section.mappings).mapM (c.calls regcomp) = .ok lists ∧
    c.switchboard = configured lists.flatten

theorem registered_mapSection {sections : List Section}
    (h : sections.foldlM (mapSection regcomp) ⟨∅, [], none⟩ = .ok c) :
    Registered regcomp sections c := by
  refine foldlM_induction (P := Registered regcomp) [] ⟨rfl, [], rfl, rfl⟩ ?_ h
  rintro done sec c c' - ⟨htranceivers, lists, hlists, hconfigured⟩ hsec
  obtain ⟨hkeeps, hnew, added, hadded, hsb⟩ := maps_mapSection hsec
  have hold := Extends.mapM (fun mapping => hkeeps.calls_extends regcomp mapping) _ lists hlists
  refine ⟨?_, lists ++ added, ?_, ?_⟩
  · rw [hnew, htranceivers, List.flatMap_append, List.flatMap_singleton, List.map_append]
  · rw [List.flatMap_append, List.flatMap_singleton, List.mapM_append, hold, hadded]
    rfl
  · rw [hsb, hconfigured, List.flatten_append, configured, configured, List.foldl_append]

/-- Statistics and mappings are loaded next to each other. -/
theorem foldlM_configure {sections : List Section} {s s' : Stats.Store} :
    sections.foldlM (configure regcomp) (s, c) = .ok (s', c') ↔
      sections.foldlM loadSection s = .ok s' ∧
        sections.foldlM (mapSection regcomp) c = .ok c' := by
  induction sections generalizing s c with
  | nil =>
      rw [List.foldlM_nil, List.foldlM_nil, List.foldlM_nil]
      simp [pure, Except.pure]
  | cons sec sections ih =>
      rw [List.foldlM_cons, List.foldlM_cons, List.foldlM_cons, configure]
      cases loadSection s sec with
      | error e => exact ⟨fun h => (by cases h), fun h => (by cases h.1)⟩
      | ok next =>
          cases mapSection regcomp c sec with
          | error e => exact ⟨fun h => (by cases h), fun h => (by cases h.2)⟩
          | ok c' => exact ih

/-! ## What is registered -/

namespace Mappings

theorem tranceiver_eq_ok {line : ℕ} {text id : StdString} {t : ℕ} :
    c.tranceiver line text id = .ok t ↔ c.findTranceiver id = some t := by
  rw [tranceiver]
  cases c.findTranceiver id with
  | none => simp
  | some found => simp

theorem findTranceiver_inj {id id' : StdString} {t : ℕ} (h : c.findTranceiver id = some t)
    (h' : c.findTranceiver id' = some t) : id = id' := by
  obtain ⟨_, hid, -⟩ := List.findIdx?_eq_some_iff_getElem.mp h
  obtain ⟨_, hid', -⟩ := List.findIdx?_eq_some_iff_getElem.mp h'
  exact (of_decide_eq_true hid).symm.trans (of_decide_eq_true hid')

theorem compiled_eq_ok {line : ℕ} {name re : StdString} {r : ρ} :
    compiled regcomp line name re = .ok r ↔ regcomp re = some r := by
  rw [compiled]
  cases regcomp re with
  | none => simp
  | some r' => simp

theorem incoming_iff {line : ℕ} {id : StdString} {via : Option ℕ}
    (h : c.incomingVia line id = .ok via) (source : Option ℕ) :
    (∀ i, via = some i → source = some i) ↔ id = [] ∨ source = c.findTranceiver id := by
  rw [incomingVia] at h
  split at h
  · rename_i hempty
    obtain rfl := Except.ok.inj h
    simp [hempty]
  · rename_i hid
    obtain ⟨t, ht, rfl⟩ := map_eq_ok.mp h
    rw [tranceiver_eq_ok.mp ht]
    simp [hid]

/-- The registrations of a bridge mapping, in its own words. -/
theorem mem_bridgeCalls {node : Group} {calls : List (Registration ρ ℕ)}
    (h : c.bridgeCalls node = .ok calls) (call : Registration ρ ℕ) :
    call ∈ calls ↔ ∃ source target f t x, node.text (str "from") = .ok source ∧
      node.HasWord (str "to") target ∧ c.filter node = .ok f ∧
      c.findTranceiver source = some t ∧ c.findTranceiver target = some x ∧
      call = .bridge t x f := by
  obtain ⟨source, hsource, h⟩ := bind_eq_ok.mp h
  obtain ⟨tos, htos, h⟩ := bind_eq_ok.mp h
  obtain ⟨f, hf, h⟩ := bind_eq_ok.mp h
  obtain ⟨t, ht, h⟩ := bind_eq_ok.mp h
  rw [mem_mapM h]
  constructor
  · rintro ⟨target, hword, hcall⟩
    obtain ⟨x, hx, hcall⟩ := bind_eq_ok.mp hcall
    exact ⟨source, target, f, t, x, hsource, ⟨tos, htos, hword⟩, hf, tranceiver_eq_ok.mp ht,
      tranceiver_eq_ok.mp hx, (Except.ok.inj hcall).symm⟩
  · rintro ⟨source', target, f', t', x, hsource', ⟨tos', htos', hword⟩, hf', ht', hx, rfl⟩
    obtain rfl := Except.ok.inj (hsource.symm.trans hsource')
    obtain rfl := Except.ok.inj (htos.symm.trans htos')
    obtain rfl := Except.ok.inj (hf.symm.trans hf')
    obtain rfl := Option.some.inj ((tranceiver_eq_ok.mp ht).symm.trans ht')
    exact ⟨target, hword, bind_eq_ok.mpr ⟨x, tranceiver_eq_ok.mpr hx, rfl⟩⟩

/-- The registration of a routing mapping, in its own words. -/
theorem routeCall_spec {node : Group} {r : RoutingMapping ρ ℕ}
    (h : c.routeCall regcomp node = .ok r) (env : Env ρ ℕ) (m : Message ℕ) :
    (RouteApplies env r m ↔
      node.ExpressionMatches regcomp env m (str "from-callsign") (str "from") ∧
        node.ExpressionMatches regcomp env m (str "to-callsign") (str "to") ∧
        ∃ id, node.text (str "incoming-via") = .ok id ∧
          (id = [] ∨ m.source = c.findTranceiver id)) ∧
      ∀ x, x ∈ r.tOutgoingVia ↔
        ∃ target, node.HasWord (str "outgoing-via") target ∧ c.findTranceiver target = some x := by
  obtain ⟨fromCallsign, hfrom, h⟩ := bind_eq_ok.mp h
  obtain ⟨toCallsign, hto, h⟩ := bind_eq_ok.mp h
  obtain ⟨incoming, hincoming, h⟩ := bind_eq_ok.mp h
  obtain ⟨via, hvia, h⟩ := bind_eq_ok.mp h
  obtain ⟨outgoing, houtgoing, h⟩ := bind_eq_ok.mp h
  obtain ⟨targets, htargets, h⟩ := bind_eq_ok.mp h
  obtain ⟨reFrom, hreFrom, h⟩ := bind_eq_ok.mp h
  obtain ⟨reTo, hreTo, h⟩ := bind_eq_ok.mp h
  obtain rfl := Except.ok.inj h
  have hexpression : ∀ (field : StdString) {setting re : StdString} {r : ρ},
      node.text setting = .ok re → regcomp re = some r →
        (CallsignMatches env r field m ↔ node.ExpressionMatches regcomp env m setting field) := by
    intro field setting re r hre hr
    constructor
    · exact fun hmatches => ⟨re, r, hre, hr, hmatches⟩
    · rintro ⟨re', r', hre', hr', hmatches⟩
      obtain rfl := Except.ok.inj (hre.symm.trans hre')
      obtain rfl := Option.some.inj (hr.symm.trans hr')
      exact hmatches
  have hfroms := hexpression (str "from") hfrom (compiled_eq_ok.mp hreFrom)
  have htos := hexpression (str "to") hto (compiled_eq_ok.mp hreTo)
  refine ⟨?_, ?_⟩
  · constructor
    · rintro ⟨hfromMatches, htoMatches, hsource⟩
      exact ⟨hfroms.mp hfromMatches, htos.mp htoMatches, incoming, hincoming,
        (incoming_iff hvia _).mp hsource⟩
    · rintro ⟨hfromMatches, htoMatches, id, hid, hsource⟩
      obtain rfl := Except.ok.inj (hincoming.symm.trans hid)
      exact ⟨hfroms.mpr hfromMatches, htos.mpr htoMatches, (incoming_iff hvia _).mpr hsource⟩
  · intro x
    rw [mem_mapM htargets]
    constructor
    · rintro ⟨target, hword, hx⟩
      exact ⟨target, ⟨outgoing, houtgoing, hword⟩, tranceiver_eq_ok.mp hx⟩
    · rintro ⟨target, ⟨outgoing', houtgoing', hword⟩, hx⟩
      obtain rfl := Except.ok.inj (houtgoing.symm.trans houtgoing')
      exact ⟨target, hword, tranceiver_eq_ok.mpr hx⟩

end Mappings

end HamRouter.Configuration
