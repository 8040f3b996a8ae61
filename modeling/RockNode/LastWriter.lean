import RockNode.SortedMap

/-!
The last writer wins.

A write gives a key a value or takes it away. After a sequence of writes a key has what the last
write to it said, and what it had before if there is none.
-/

namespace RockNode

variable {K V K' V' : Type}

section

variable [DecidableEq K]

/-- What the last write to the key says, if there is one. -/
def lastWrite : List (K × Option V) → K → Option (Option V)
  | [], _ => none
  | w :: writes, k => (lastWrite writes k).or (if w.1 = k then some w.2 else none)

/-- Writes to other keys say nothing about this one. -/
lemma lastWrite_of_forall_ne {writes : List (K × Option V)} {k : K}
    (h : ∀ w ∈ writes, w.1 ≠ k) : lastWrite writes k = none := by
  induction writes with
  | nil => rfl
  | cons w writes ih =>
    rw [lastWrite, ih fun w hw => h w (List.mem_cons_of_mem _ hw),
      if_neg (h w List.mem_cons_self)]
    rfl

lemma lastWrite_append (writes writes' : List (K × Option V)) (k : K) :
    lastWrite (writes ++ writes') k = (lastWrite writes' k).or (lastWrite writes k) := by
  induction writes with
  | nil => simp [lastWrite]
  | cons w writes ih => rw [List.cons_append, lastWrite, ih, lastWrite, Option.or_assoc]

/-- Only the writes to the key matter. -/
lemma lastWrite_filter {p : K × Option V → Bool} {k : K} (hp : ∀ w, w.1 = k → p w = true)
    (writes : List (K × Option V)) : lastWrite (writes.filter p) k = lastWrite writes k := by
  induction writes with
  | nil => rfl
  | cons w writes ih =>
    rw [List.filter_cons, lastWrite]
    split_ifs with hw hk hk
    · rw [lastWrite, ih, if_pos hk]
    · rw [lastWrite, ih, if_neg hk]
    · exact absurd (hp w hk) hw
    · rw [ih, Option.or_none]

/-- Writes to one key. -/
lemma lastWrite_const (k : K) (values : List V) :
    lastWrite (values.map fun v => (k, some v)) k = values.getLast?.map some := by
  induction values with
  | nil => rfl
  | cons v values ih =>
    rw [List.map_cons, lastWrite, ih, if_pos rfl, List.getLast?_cons]
    rcases values.getLast? with _ | last <;> rfl

/-- Another spelling of keys and values, different for different keys. -/
lemma lastWrite_map [DecidableEq K'] {f : K → K'} (hf : f.Injective) (g : V → V')
    (writes : List (K × Option V)) (k : K) :
    lastWrite (writes.map fun w => (f w.1, w.2.map g)) (f k) =
      (lastWrite writes k).map (Option.map g) := by
  induction writes with
  | nil => rfl
  | cons w writes ih =>
    rw [List.map_cons, lastWrite, ih, lastWrite, Option.map_or]
    by_cases hk : w.1 = k
    · simp [hk]
    · simp [hk, hf.eq_iff]

end

namespace SortedMap

variable [LinearOrder K]

/-- A write to a sorted map. -/
def write (m : SortedMap K V) (w : K × Option V) : SortedMap K V :=
  match w.2 with
  | some v => m.put w.1 v
  | none => m.erase w.1

lemma get_write (m : SortedMap K V) (w : K × Option V) (k : K) :
    (m.write w).get k = if w.1 = k then w.2 else m.get k := by
  obtain ⟨j, _ | v⟩ := w
  · simp only [write, get_erase, eq_comm]
  · simp only [write, get_put, eq_comm]

/-- **The last writer wins.** -/
theorem get_foldl_write (writes : List (K × Option V)) (m : SortedMap K V) (k : K) :
    (writes.foldl write m).get k = (lastWrite writes k).getD (m.get k) := by
  induction writes generalizing m with
  | nil => rfl
  | cons w writes ih =>
    rw [List.foldl_cons, ih, get_write, lastWrite]
    rcases lastWrite writes k with _ | v
    · by_cases hk : w.1 = k <;> simp [hk]
    · rfl

/-- The same for writes in another spelling. -/
theorem get_foldl_write_map [DecidableEq K'] {f : K' → K} (hf : f.Injective) (g : V' → V)
    (writes : List (K' × Option V')) (m : SortedMap K V) (k : K') :
    ((writes.map fun w => (f w.1, w.2.map g)).foldl write m).get (f k) =
      ((lastWrite writes k).map (Option.map g)).getD (m.get (f k)) := by
  rw [get_foldl_write, lastWrite_map hf]

end SortedMap

end RockNode
