import HamRouter.Verification.Configuration.Objects

/-! # What is read of the objects

Counting changes the segment alone. What is read of an object then is what the table of the
statistics says. -/

namespace HamRouter.Configuration

open Snmp SnmpData Stats Memory

/-! ## Counting -/

/-- The store with another segment and another tree. -/
def replaced (s : Store) (p : Block) (sd : List (Node SnmpDataType)) : Store :=
  { s with p := p, sd := sd }

theorem changed_replaced (s : Store) (p : Block) (place : Option ℕ) (f : UInt64 → UInt64) :
    ∃ p', ∀ sd, (replaced s p sd).changed place f = replaced s p' sd := by
  cases place with
  | none => exact ⟨p, fun _ => rfl⟩
  | some place => exact ⟨p.setWord place (f (p.word place)), fun _ => rfl⟩

/-- A call that counts does the same to the segment with every tree. -/
theorem call_replaced {c : Call} (hc : Counting c) (s : Store) (p : Block) :
    ∃ p', ∀ sd, (replaced s p sd).call c = .ok (replaced s p' sd) := by
  cases c with
  | registerStat name oid type => exact hc.elim
  | incCounter name =>
      obtain ⟨p', hp'⟩ := changed_replaced s p (s.findStat name) statsIncCounter
      exact ⟨p', fun sd => congrArg Except.ok (hp' sd)⟩
  | addCounter name value =>
      obtain ⟨p', hp'⟩ := changed_replaced s p (s.findStat name) (statsAddCounter · value)
      exact ⟨p', fun sd => congrArg Except.ok (hp' sd)⟩
  | set name value =>
      obtain ⟨p', hp'⟩ := changed_replaced s p (s.findStat name) fun _ => value
      exact ⟨p', fun sd => congrArg Except.ok (hp' sd)⟩
  | addAverage name val =>
      obtain ⟨p', hp'⟩ := changed_replaced s p ((s.findStat name).map (· + 8)) statsIncCounter
      obtain ⟨p'', hp''⟩ :=
        changed_replaced s p' (s.findStat name) (statsAddCounter · (UInt64.ofInt val))
      refine ⟨p'', fun sd => congrArg Except.ok ?_⟩
      change ((replaced s p sd).changed ((s.findStat name).map (· + 8)) statsIncCounter).changed
        (s.findStat name) (statsAddCounter · (UInt64.ofInt val)) = _
      rw [hp', hp'']

theorem run_replaced {calls : List Call} (hcalls : ∀ c ∈ calls, Counting c) (s : Store)
    (p : Block) : ∃ p', ∀ sd, (replaced s p sd).run calls = .ok (replaced s p' sd) := by
  induction calls generalizing p with
  | nil => exact ⟨p, fun _ => rfl⟩
  | cons c calls ih =>
      obtain ⟨next, hnext⟩ := call_replaced (hcalls c List.mem_cons_self) s p
      obtain ⟨p', hp'⟩ := ih (fun c' hc' => hcalls c' (List.mem_cons_of_mem _ hc')) next
      refine ⟨p', fun sd => ?_⟩
      rw [Store.run, List.foldlM_cons, hnext]
      exact hp' sd

/-! ## Reading -/

/-- A statistic of a table is read as its entry says. -/
theorem find?_of_split {front back : Table} {e : Entry} (hfront : e.name ∉ front.map Entry.name) :
    (front ++ e :: back).find? (fun entry => entry.name = e.name) = some e := by
  have hskip : front.find? (fun entry => entry.name = e.name) = none := by
    rw [List.find?_eq_none]
    intro entry hentry heq
    exact hfront (List.mem_map.mpr ⟨entry, hentry, of_decide_eq_true heq⟩)
  rw [List.find?_append, hskip]
  simp

/-- After calls that count, the tree is the same one, and what is read of each object is what the
table says that follows the calls. -/
theorem read_of_holds {s s' : Store} {objects : List Object} (h : Holds s objects)
    {calls : List Call} (hcalls : ∀ c ∈ calls, Counting c) (hrun : s.run calls = .ok s')
    {table : Table} (htable : Table.run 8192 (tableOf objects) calls = .ok table) :
    s'.sd = s.sd ∧
      ∀ x ∈ objects, ∀ us, s'.getData us (x.data s) = x.value table us := by
  obtain ⟨p, hp⟩ := run_replaced hcalls s s.p
  have hs' : s' = replaced s p s.sd := Except.ok.inj (hrun.symm.trans (hp s.sd))
  have hfollows := h.table.follows_run calls
  have hother := hp (registered (tableOf objects).registrations)
  rw [htable] at hfollows
  change Follows [] 8192 _
    ((replaced s s.p (registered (tableOf objects).registrations)).run calls) at hfollows
  rw [hother] at hfollows
  have hrepresents : Represents [] 8192 table
    (replaced s p (registered (tableOf objects).registrations)) := hfollows
  refine ⟨by rw [hs']; rfl, ?_⟩
  rintro ⟨k, item⟩ hx us
  cases item with
  | static e => rfl
  | runningSince since => rfl
  | statistic name =>
      have hregistered : name ∈ (tableOf objects).map Entry.name :=
        List.mem_map.mpr ⟨_, List.mem_filterMap.mpr ⟨_, hx, rfl⟩, rfl⟩
      have hmem : name ∈ table.map Entry.name :=
        (mem_lut_iff hrepresents name).mp ((mem_lut_of_holds h name).mpr hregistered)
      rcases exists_split hrepresents.names name with hnot | ⟨front, e, back, rfl, rfl, hfront, -⟩
      · exact (hnot hmem).elim
      · have hplace : s.findStat e.name = some (48 * front.length) := by
          have hlookup := hrepresents.lut e.name
          rw [lookup_places_split hfront] at hlookup
          exact congrArg (Option.map StatsT.p) hlookup
        have hword : p.word (48 * front.length) = e.value := hrepresents.word
        rw [hs']
        simp only [Object.data, Object.value, hplace, find?_of_split hfront, Option.elim_some]
        change statsGetData k.1.type (p.word (48 * front.length)) = _
        rw [hword]

end HamRouter.Configuration
