import Mathlib.Data.List.Basic

/-! # Reading a buffer, with a record of the reads

A region is a buffer together with the memory behind it, so that a read past the end
has a value too. A traced computation remembers what it read. -/

namespace TracedRead

/-- The bytes of a buffer, and the bytes found at any other offset from its start. -/
structure Region where
  bytes : List UInt8
  beyond : ℕ → UInt8

def Region.get (r : Region) (i : ℕ) : UInt8 := r.bytes[i]?.getD (r.beyond i)

def Region.slice (r : Region) (start n : ℕ) : List UInt8 :=
  (List.range' start n).map r.get

theorem Region.get_of_lt (r : Region) {i : ℕ} (h : i < r.bytes.length) : r.get i = r.bytes[i] := by
  simp [Region.get, h]

@[simp] theorem Region.length_slice (r : Region) (start n : ℕ) : (r.slice start n).length = n := by
  simp [Region.slice]

theorem Region.take_slice (r : Region) (start : ℕ) {m n : ℕ} (h : m ≤ n) :
    (r.slice start n).take m = r.slice start m := by
  rw [Region.slice, Region.slice, ← List.map_take, List.take_range'_of_length_ge h]

theorem Region.getD_slice (r : Region) (start : ℕ) {i n : ℕ} (h : i < n) (b : UInt8) :
    (r.slice start n).getD i b = r.get (start + i) := by
  simp [Region.slice, h]

/-- Inside the buffer a slice is the corresponding part of it. -/
theorem Region.slice_of_le (r : Region) {start n : ℕ} (h : start + n ≤ r.bytes.length) :
    r.slice start n = (r.bytes.drop start).take n := by
  apply List.ext_getElem
  · simp only [Region.length_slice, List.length_take, List.length_drop]
    omega
  · intro i hi _
    have hin : i < n := by simpa using hi
    have hlt : start + i < r.bytes.length := by omega
    simp [Region.slice, r.get_of_lt hlt]

theorem Region.get_append (r : Region) (front rest : List UInt8) {b : UInt8}
    (h : r.bytes = front ++ b :: rest) : r.get front.length = b := by
  simp [Region.get, h]

theorem Region.slice_append (r : Region) (front middle rest : List UInt8)
    (h : r.bytes = front ++ middle ++ rest) : r.slice front.length middle.length = middle := by
  rw [r.slice_of_le (by simp [h])]
  simp [h]

/-- A result with the list of what was done to compute it. -/
structure Traced (ε α : Type*) where
  val : α
  log : List ε

instance {ε : Type*} : Monad (Traced ε) where
  pure a := ⟨a, []⟩
  bind x f := ⟨(f x.val).val, x.log ++ (f x.val).log⟩

section

variable {ε : Type*} {α β : Type _}

@[simp] theorem Traced.val_pure (a : α) : (pure a : Traced ε α).val = a := rfl

@[simp] theorem Traced.log_pure (a : α) : (pure a : Traced ε α).log = [] := rfl

@[simp] theorem Traced.val_bind (x : Traced ε α) (f : α → Traced ε β) :
    (x >>= f).val = (f x.val).val := rfl

@[simp] theorem Traced.log_bind (x : Traced ε α) (f : α → Traced ε β) :
    (x >>= f).log = x.log ++ (f x.val).log := rfl

theorem Traced.pure_bind (a : α) (f : α → Traced ε β) : pure a >>= f = f a := rfl

theorem Traced.bind_assoc {γ : Type _} (x : Traced ε α) (f : α → Traced ε β)
    (g : β → Traced ε γ) : x >>= f >>= g = x >>= fun a => f a >>= g := by
  simp only [Bind.bind, List.append_assoc]

end

/-- Every recorded event has a property. -/
def Traced.All {ε α : Type*} (P : ε → Prop) (x : Traced ε α) : Prop := ∀ e ∈ x.log, P e

section

variable {ε : Type*} {α β : Type _} (P : ε → Prop)

@[simp] theorem Traced.all_pure (a : α) : (pure a : Traced ε α).All P := by
  simp [Traced.All]

theorem Traced.all_bind (x : Traced ε α) (f : α → Traced ε β) :
    (x >>= f).All P ↔ x.All P ∧ (f x.val).All P := by
  simp only [Traced.All, Traced.log_bind, List.mem_append]
  constructor
  · intro h
    exact ⟨fun e he => h e (Or.inl he), fun e he => h e (Or.inr he)⟩
  · rintro ⟨hx, hf⟩ e (he | he)
    · exact hx e he
    · exact hf e he

end

/-- Every recorded index lies in the buffer. -/
def Region.Within (r : Region) {α : Type*} (x : Traced ℕ α) : Prop := x.All (· < r.bytes.length)

section

variable {α β : Type _} (r : Region)

@[simp] theorem Region.within_pure (a : α) : r.Within (pure a) := Traced.all_pure _ a

theorem Region.within_bind (x : Traced ℕ α) (f : α → Traced ℕ β) :
    r.Within (x >>= f) ↔ r.Within x ∧ r.Within (f x.val) := Traced.all_bind _ x f

end

/-! ## Windows -/

/-- The bytes from `start` up to `stop`, as far as there are any. -/
def Region.window (r : Region) (start stop : ℕ) : List UInt8 :=
  (r.bytes.drop start).take (stop - start)

section

variable (r : Region) {start stop : ℕ}

theorem Region.length_window (h : stop ≤ r.bytes.length) :
    (r.window start stop).length = stop - start := by
  rw [Region.window, List.length_take, List.length_drop]
  omega

theorem Region.window_of_le (h : stop ≤ start) : r.window start stop = [] := by
  rw [Region.window, Nat.sub_eq_zero_of_le h, List.take_zero]

theorem Region.window_cons (hlt : start < stop) (h : stop ≤ r.bytes.length) :
    r.window start stop = r.get start :: r.window (start + 1) stop := by
  have hin : start < r.bytes.length := by omega
  have hcount : stop - start = stop - (start + 1) + 1 := by omega
  rw [Region.window, Region.window, List.drop_eq_getElem_cons hin, hcount, List.take_succ_cons,
    r.get_of_lt hin]

theorem Region.window_drop (n : ℕ) : (r.window start stop).drop n = r.window (start + n) stop := by
  rw [Region.window, Region.window, List.drop_take, List.drop_drop, Nat.sub_sub]

theorem Region.window_take (n : ℕ) :
    (r.window start stop).take n = r.window start (min stop (start + n)) := by
  have hcount : min n (stop - start) = min stop (start + n) - start := by omega
  rw [Region.window, Region.window, List.take_take, hcount]

theorem Region.slice_window {n : ℕ} (hn : start + n ≤ stop) (h : stop ≤ r.bytes.length) :
    r.slice start n = (r.window start stop).take n := by
  have hcount : min n (stop - start) = n := by omega
  rw [r.slice_of_le (by omega), Region.window, List.take_take, hcount]

end

end TracedRead
