import HamRouter.Verification.Configuration.Capacity
import HamRouter.Verification.Configuration.Mappings
import HamRouter.Verification.Router.Handled

/-! # What a configuration asks for and the router does

The registrations of a file ask for what its mappings ask for, with positions instead of ids. So the
router puts out nothing else, and all of it where the bridge mappings agree on their filter. -/

namespace HamRouter.Configuration

open Switchboard Fallible

namespace File

variable {ρ : Type} {regcomp : StdString → Option ρ} {f : File} {c : Mappings ρ}
  {lists : List (List (Registration ρ ℕ))}

/-! ## Registrations -/

theorem mem_registrations (h : f.mappings.mapM (c.calls regcomp) = .ok lists)
    (call : Registration ρ ℕ) :
    call ∈ lists.flatten ↔
      ∃ mapping ∈ f.mappings, ∃ calls, c.calls regcomp mapping = .ok calls ∧ call ∈ calls := by
  rw [List.mem_flatten]
  constructor
  · rintro ⟨calls, hcalls, hcall⟩
    obtain ⟨mapping, hmapping, hok⟩ := (mem_mapM h calls).mp hcalls
    exact ⟨mapping, hmapping, calls, hok, hcall⟩
  · rintro ⟨mapping, hmapping, calls, hok, hcall⟩
    exact ⟨calls, (mem_mapM h calls).mpr ⟨mapping, hmapping, hok⟩, hcall⟩

theorem bridge_registered (h : f.mappings.mapM (c.calls regcomp) = .ok lists) {t x : ℕ}
    {g : Option FilterT} :
    .bridge t x g ∈ lists.flatten ↔ ∃ node source target, .bridge node ∈ f.mappings ∧
      node.text (str "from") = .ok source ∧ node.HasWord (str "to") target ∧
      c.filter node = .ok g ∧ c.findTranceiver source = some t ∧
      c.findTranceiver target = some x := by
  rw [mem_registrations h]
  constructor
  · rintro ⟨_ | _, hmapping, calls, hok, hcall⟩
    · obtain ⟨source, target, g', t', x', hsource, hto, hfilter, ht, hx, heq⟩ :=
        (Mappings.mem_bridgeCalls hok _).mp hcall
      obtain ⟨rfl, rfl, rfl⟩ := Registration.bridge.inj heq
      exact ⟨_, source, target, hmapping, hsource, hto, hfilter, ht, hx⟩
    · obtain ⟨r, -, rfl⟩ := map_eq_ok.mp hok
      cases List.mem_singleton.mp hcall
  · rintro ⟨node, source, target, hmapping, hsource, hto, hfilter, ht, hx⟩
    obtain ⟨calls, hok⟩ := exists_mapM_iff.mp ⟨lists, h⟩ _ hmapping
    exact ⟨_, hmapping, calls, hok, (Mappings.mem_bridgeCalls hok _).mpr
      ⟨source, target, g, t, x, hsource, hto, hfilter, ht, hx, rfl⟩⟩

theorem route_registered (h : f.mappings.mapM (c.calls regcomp) = .ok lists)
    {r : RoutingMapping ρ ℕ} :
    .routing r ∈ lists.flatten ↔
      ∃ node, .route node ∈ f.mappings ∧ c.routeCall regcomp node = .ok r := by
  rw [mem_registrations h]
  constructor
  · rintro ⟨_ | node, hmapping, calls, hok, hcall⟩
    · obtain ⟨_, _, _, _, _, -, -, -, -, -, heq⟩ := (Mappings.mem_bridgeCalls hok _).mp hcall
      cases heq
    · obtain ⟨r', hr', rfl⟩ := map_eq_ok.mp hok
      obtain rfl := Registration.routing.inj (List.mem_singleton.mp hcall)
      exact ⟨node, hmapping, hr'⟩
  · rintro ⟨node, hmapping, hr⟩
    exact ⟨_, hmapping, [.routing r], map_eq_ok.mpr ⟨r, hr, rfl⟩, List.mem_singleton_self _⟩

/-- The registrations request what the mappings ask for. -/
theorem requested_iff (h : f.mappings.mapM (c.calls regcomp) = .ok lists) (env : Env ρ ℕ)
    {m : Message ℕ} {t : ℕ} (hm : m.source = some t) (x : ℕ) :
    Requested env lists.flatten t m x ↔
      ∃ target, c.findTranceiver target = some x ∧ f.Asks regcomp c env m target := by
  constructor
  · rintro (⟨g, hcall, hne, hpass⟩ | ⟨r, hcall, happlies, hx⟩)
    · obtain ⟨node, source, target, hmapping, hsource, hto, hfilter, ht, hx⟩ :=
        (bridge_registered h).mp hcall
      refine ⟨target, hx, .bridge node source hmapping hsource (hm.trans ht.symm) hto ?_
        ⟨g, hfilter, hpass⟩⟩
      rintro rfl
      exact hne (Option.some.inj (ht.symm.trans hx))
    · obtain ⟨node, hmapping, hr⟩ := (route_registered h).mp hcall
      obtain ⟨happlies_iff, htargets⟩ := Mappings.routeCall_spec hr env m
      obtain ⟨hfrom, hto, id, hid, hincoming⟩ := happlies_iff.mp happlies
      obtain ⟨target, hword, htarget⟩ := (htargets x).mp hx
      exact ⟨target, htarget, .route node id hmapping hfrom hto hid hincoming hword⟩
  · rintro ⟨target, hx, hasks⟩
    cases hasks with
    | bridge node source hmapping hsource hincoming hto hne hfilter =>
        obtain ⟨g, hg, hpass⟩ := hfilter
        have ht : c.findTranceiver source = some t := hincoming.symm.trans hm
        refine Or.inl ⟨g, (bridge_registered h).mpr
          ⟨node, source, target, hmapping, hsource, hto, hg, ht, hx⟩, ?_, hpass⟩
        rintro rfl
        exact hne (Mappings.findTranceiver_inj ht hx)
    | route node id hmapping hfrom hto hid hincoming hword =>
        obtain ⟨calls, hok⟩ := exists_mapM_iff.mp ⟨lists, h⟩ _ hmapping
        obtain ⟨r, hr, rfl⟩ := map_eq_ok.mp hok
        obtain ⟨happlies_iff, htargets⟩ := Mappings.routeCall_spec hr env m
        exact Or.inr ⟨r, (route_registered h).mpr ⟨node, hmapping, hr⟩,
          happlies_iff.mpr ⟨hfrom, hto, id, hid, hincoming⟩,
          (htargets x).mpr ⟨target, hword, hx⟩⟩

/-- Where the bridge mappings from a tranceiver have one filter nothing is lost. -/
theorem nothingLost (h : f.mappings.mapM (c.calls regcomp) = .ok lists) (env : Env ρ ℕ)
    (m : Message ℕ) {t : ℕ}
    (hone : ∀ source, c.findTranceiver source = some t → f.OneFilter c source) :
    NothingLost env lists.flatten t m := by
  intro x g hmem hpass
  left
  have hsame : ∀ y g', (y, g') ∈ bridgesOf lists.flatten t → g' = g := by
    intro y g' hmem'
    obtain ⟨node, source, -, hmapping, hsource, -, hg, ht, -⟩ :=
      (bridge_registered h).mp ((mem_bridgesOf _ t x g).mp hmem).1
    obtain ⟨node', source', -, hmapping', hsource', -, hg', ht', -⟩ :=
      (bridge_registered h).mp ((mem_bridgesOf _ t y g').mp hmem').1
    obtain rfl := Mappings.findTranceiver_inj ht ht'
    have hfilters := hone source ht node' node hmapping' hmapping hsource' hsource
    exact Except.ok.inj (hg'.symm.trans (hfilters.trans hg))
  rw [firstFilter]
  cases hbridges : bridgesOf lists.flatten t with
  | nil =>
      rw [hbridges] at hmem
      cases hmem
  | cons first rest =>
      have hfirst : first ∈ bridgesOf lists.flatten t := by
        rw [hbridges]
        exact List.mem_cons_self
      exact congrArg some (hsame first.1 first.2 hfirst)

/-! ## The router -/

/-- What a router with the mappings of a file does: nothing is put out that they do not ask for, and
for a handled message all that they ask for, if the bridge mappings from its tranceiver agree on
their filter. -/
structure Followed (f : File) (regcomp : StdString → Option ρ) (c : Mappings ρ)
    (cfg : Router.Config ρ ℕ) {π : Type*} (s : Router.State ℕ π) : Prop where
  names : c.tranceivers = f.tranceivers.map Tranceiver.id
  asked : ∀ put ∈ s.puts, ∃ t target, put.2 ∈ s.queues.accepted t ∧
    c.findTranceiver target = some put.1 ∧
    f.Asks regcomp c (cfg.env fun _ _ => .ok) put.2 target
  complete : ∀ e ∈ s.handled, e.ok = true →
    (∀ source, c.findTranceiver source = some e.from_ → f.OneFilter c source) →
      ∀ target x, c.findTranceiver target = some x →
        f.Asks regcomp c (cfg.env fun _ _ => .ok) e.m target → (x, e.m) ∈ s.puts

/-- In any interleaving of its threads, a router does what the mappings of its configuration file
ask for. -/
theorem followed (f : File) {π : Type*} [DecidableEq π] [Fintype π] {store : Stats.Store}
    (hloaded : configuration regcomp f.sections = .ok (store, c)) {cfg : Router.Config ρ ℕ}
    (hsb : c.sb = some cfg.sb) {s : Router.State ℕ π} (h : Router.Reachable cfg s) :
    f.Followed regcomp c cfg s := by
  obtain ⟨hnames, lists, hlists, hconfigured⟩ :=
    registered_mapSection (foldlM_configure.mp hloaded).2
  have htables : cfg.sb = configured lists.flatten := by
    rw [← hconfigured, Mappings.switchboard, hsb]
    rfl
  refine ⟨hnames, ?_, ?_⟩
  · rintro ⟨x, m⟩ hput
    obtain ⟨t, haccepted, hsource, hrequested⟩ := h.requested_of_put htables hput
    obtain ⟨target, htarget, hasks⟩ := (requested_iff hlists _ hsource x).mp hrequested
    exact ⟨t, target, haccepted, htarget, hasks⟩
  · intro e he hok hone target x htarget hasks
    have hsource := h.sourced.accepted _ _ (h.handled_accepted he)
    exact h.put_of_requested htables he hok (nothingLost hlists _ _ hone)
      ((requested_iff hlists _ hsource x).mpr ⟨target, htarget, hasks⟩)

end File

/-- A bridge from one tranceiver to another one. -/
def bridgedFile : File where
  sections := [.tranceivers [⟨str "radio", str "kiss", .other, true⟩,
      ⟨str "tunnel", str "axudp", .other, false⟩],
    .bridgeMappings
      [⟨3, [⟨str "from", .text (str "radio"), 4⟩, ⟨str "to", .text (str "tunnel"), 5⟩]⟩]]
  distinct := by decide

def bridgedMappings : Mappings Unit :=
  ⟨∅, [str "radio", str "tunnel"], some Router.sampleConfig.sb⟩

theorem followed_bridgedFile :
    Router.sampleState.handled.length = 1 ∧
      bridgedFile.Followed (fun _ => some ()) bridgedMappings Router.sampleConfig
        Router.sampleState := by
  have hroom : Room bridgedFile.objects := bridgedFile.room_iff.mpr (by decide)
  obtain ⟨store, hload⟩ := (reaches_load bridgedFile.sections).exists_ok_iff.mpr hroom
  exact ⟨rfl, bridgedFile.followed (foldlM_configure.mpr ⟨hload, rfl⟩) rfl
    Router.reachable_sampleState⟩

end HamRouter.Configuration
