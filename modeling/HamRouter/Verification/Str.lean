import HamRouter.Program.Str

/-! # Searching and cutting byte strings

A string is given as the part before a position and the part from there on. -/

namespace HamRouter.StdString

theorem idxOf?_append_cons {c : UInt8} {s : StdString} (h : c ∉ s) (rest : StdString) :
    (s ++ c :: rest).idxOf? c = some s.length := by
  induction s with
  | nil => simp [List.idxOf?_cons]
  | cons b s ih =>
      obtain ⟨hb, hs⟩ := not_or.mp (mt List.mem_cons.mpr h)
      simp [List.idxOf?_cons, Ne.symm hb, ih hs]

theorem findFirstOf_append {chars clean : StdString} {c : UInt8}
    (hclean : ∀ b ∈ clean, b ∉ chars) (hc : c ∈ chars) (front rest : StdString) :
    findFirstOf (front ++ (clean ++ c :: rest)) chars front.length =
      some (front.length + clean.length) := by
  have hidx : (clean ++ c :: rest).findIdx? (· ∈ chars) = some clean.length := by
    induction clean with
    | nil => simp [List.findIdx?_cons, hc]
    | cons b clean ih =>
        have hb : b ∉ chars := hclean b (by simp)
        have hrest := ih (fun d hd => hclean d (by simp [hd]))
        simp [List.findIdx?_cons, hb, hrest]
  rw [findFirstOf, List.drop_left, hidx, Option.map_some]

theorem findFirstOf_none {chars clean : StdString} (hclean : ∀ b ∈ clean, b ∉ chars)
    (front : StdString) : findFirstOf (front ++ clean) chars front.length = none := by
  have hidx : clean.findIdx? (· ∈ chars) = none := by
    rw [List.findIdx?_eq_none_iff]
    intro b hb
    simpa using hclean b hb
  rw [findFirstOf, List.drop_left, hidx, Option.map_none]

theorem substr_append (front middle rest : StdString) :
    substr (front ++ (middle ++ rest)) front.length (some middle.length) = some middle := by
  simp [substr]

theorem substr_append_npos (front middle : StdString) :
    substr (front ++ middle) front.length none = some middle := by
  simp [substr]

/-- A cut up to a byte of `chars` starts with the first byte, if that is none of them. -/
theorem substr_findFirstOf_cons {chars : StdString} {c : UInt8} (hc : c ∉ chars)
    (front rest : StdString) :
    ∃ more, substr (front ++ c :: rest) front.length
      (Pos.minus (findFirstOf (front ++ c :: rest) chars front.length) front.length) =
        some (c :: more) := by
  rw [findFirstOf, List.drop_left, List.findIdx?_cons]
  cases rest.findIdx? (· ∈ chars) with
  | none => exact ⟨rest, by simp [Pos.minus, substr, hc]⟩
  | some n => exact ⟨rest.take n, by simp [Pos.minus, substr, hc]⟩

/-- A cut up to a byte of `chars` gives the bytes before the first of those. -/
theorem substr_findFirstOf (s chars : StdString) {pos : ℕ} (h : pos ≤ s.length) :
    substr s pos (Pos.minus (findFirstOf s chars pos) pos) =
      some ((s.drop pos).takeWhile (· ∉ chars)) := by
  have htake : (s.drop pos).takeWhile (· ∉ chars) =
      (s.drop pos).take ((s.drop pos).findIdx (· ∈ chars)) := by
    rw [List.takeWhile_eq_take_findIdx_not]
    simp
  rw [htake]
  unfold substr
  rw [if_pos h, findFirstOf]
  cases hidx : (s.drop pos).findIdx? (· ∈ chars) with
  | none =>
      have hnone : ∀ c ∈ s.drop pos, decide (c ∈ chars) = false := by
        simpa [List.findIdx?_eq_none_iff] using hidx
      simp only [Option.map_none, Pos.minus, List.findIdx_eq_length_of_false hnone,
        List.take_length]
  | some k =>
      have hend := (List.findIdx?_eq_some_iff_findIdx_eq.mp hidx).2
      simp [Pos.minus, hend]

/-- A search ends at the first byte it looks for. -/
theorem findFirstOf_eq_some_iff {s chars : StdString} {pos n : ℕ} :
    findFirstOf s chars pos = some n ↔
      pos ≤ n ∧ (∃ c, s[n]? = some c ∧ c ∈ chars) ∧
        ∀ k c, pos ≤ k → k < n → s[k]? = some c → c ∉ chars := by
  constructor
  · intro h
    obtain ⟨k, hk, rfl⟩ := Option.map_eq_some_iff.mp h
    obtain ⟨hlt, hmem, hbefore⟩ := List.findIdx?_eq_some_iff_getElem.mp hk
    refine ⟨Nat.le_add_right _ _, ⟨_, ?_, of_decide_eq_true hmem⟩, ?_⟩
    · rw [← List.getElem?_drop, List.getElem?_eq_getElem hlt]
    · intro j c hj hjk hc
      have hclean := hbefore (j - pos) (by omega)
      rw [List.getElem_drop] at hclean
      obtain ⟨_, rfl⟩ := List.getElem?_eq_some_iff.mp hc
      simpa [Nat.add_sub_cancel' hj] using hclean
  · intro h
    obtain ⟨hle, ⟨c, hc, hmem⟩, hbefore⟩ := h
    obtain ⟨hlt, rfl⟩ := List.getElem?_eq_some_iff.mp hc
    refine Option.map_eq_some_iff.mpr ⟨n - pos, ?_, Nat.add_sub_cancel' hle⟩
    rw [List.findIdx?_eq_some_iff_getElem]
    refine ⟨by rw [List.length_drop]; omega, ?_, ?_⟩
    · simpa [List.getElem_drop, Nat.add_sub_cancel' hle] using hmem
    · intro j hj
      have hclean := hbefore (pos + j) s[pos + j] (by omega) (by omega)
        (List.getElem?_eq_getElem (by omega))
      simpa [List.getElem_drop] using hclean

theorem findFirstOf_eq_none_iff {s chars : StdString} {pos : ℕ} :
    findFirstOf s chars pos = none ↔ ∀ k c, pos ≤ k → s[k]? = some c → c ∉ chars := by
  rw [findFirstOf, Option.map_eq_none_iff, List.findIdx?_eq_none_iff]
  constructor
  · intro h k c hk hc
    have hmem : c ∈ s.drop pos := by
      rw [List.mem_iff_getElem?]
      exact ⟨k - pos, by rw [List.getElem?_drop, Nat.add_sub_cancel' hk, hc]⟩
    simpa using h c hmem
  · intro h c hmem
    obtain ⟨j, hj⟩ := List.mem_iff_getElem?.mp hmem
    rw [List.getElem?_drop] at hj
    simpa using h (pos + j) c (Nat.le_add_right _ _) hj

theorem trim_of_forall_ne {s : StdString} (h : ∀ b ∈ s, b ≠ ch ' ') : trim s = s := by
  have hright : s.rdropWhile (· == ch ' ') = s := by
    rw [List.rdropWhile_eq_self_iff]
    intro hne
    simpa using h _ (List.getLast_mem hne)
  rw [trim, hright]
  cases s with
  | nil => rfl
  | cons b rest =>
      have hb : (b == ch ' ') = false := by simpa using h b (by simp)
      rw [List.dropWhile_cons, hb]
      rfl

theorem head?_trim_cons {b : UInt8} (h : b ≠ ch ' ') (rest : StdString) :
    (trim (b :: rest)).head? = some b := by
  have hb : (b == ch ' ') = false := by simpa using h
  have hright : ∃ more, (b :: rest).rdropWhile (· == ch ' ') = b :: more := by
    rw [List.rdropWhile, List.reverse_cons, List.dropWhile_append]
    split
    · exact ⟨[], by simp [hb]⟩
    · exact ⟨(rest.reverse.dropWhile (· == ch ' ')).reverse, by simp⟩
  obtain ⟨more, hmore⟩ := hright
  rw [trim, hmore, List.dropWhile_cons, hb]
  rfl

/-! ## Finding a byte -/

theorem find_byte_none {c : UInt8} {s : StdString} (h : c ∉ s) : find s [c] = none := by
  induction s with
  | nil => simp [find]
  | cons b s ih =>
      obtain ⟨hb, hs⟩ := not_or.mp (mt List.mem_cons.mpr h)
      simp [find, hb, ih hs]

theorem find_byte {c : UInt8} {s : StdString} (h : c ∉ s) (rest : StdString) :
    find (s ++ c :: rest) [c] = some s.length := by
  induction s with
  | nil => simp [find]
  | cons b s ih =>
      obtain ⟨hb, hs⟩ := not_or.mp (mt List.mem_cons.mpr h)
      simp [find, hb, ih hs]

/-- What stands between a byte and the first of another byte behind it is found there. -/
theorem find_between {b c : UInt8} (hne : c ≠ b) {front middle : StdString} (hfront : b ∉ front)
    (hmiddle : c ∉ middle) (rest : StdString) {s : StdString}
    (hs : s = front ++ b :: (middle ++ c :: rest)) :
    find s [b] = some front.length ∧
      (find (s.drop front.length) [c]).map (front.length + ·) =
        some (front.length + (middle.length + 1)) ∧
      (s.drop (front.length + 1)).take (front.length + (middle.length + 1) - front.length - 1) =
        middle ∧
      s.drop (front.length + (middle.length + 1)) = c :: rest := by
  have hbehind : s.drop front.length = b :: middle ++ c :: rest := by
    rw [hs, List.drop_left]
    rfl
  have hskip : s.drop (front.length + 1) = middle ++ c :: rest := by
    rw [← List.drop_drop, hbehind]
    rfl
  refine ⟨?_, ?_, ?_, ?_⟩
  · rw [hs]
    exact find_byte hfront _
  · rw [hbehind, find_byte (List.not_mem_cons_of_ne_of_not_mem hne hmiddle)]
    rfl
  · rw [hskip, Nat.add_sub_cancel_left, Nat.add_sub_cancel, List.take_left]
  · rw [Nat.add_comm middle.length 1, ← Nat.add_assoc, ← List.drop_drop, hskip, List.drop_left]

end HamRouter.StdString
