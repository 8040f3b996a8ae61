import RockNode.SortedMap

/-!
Tables of ranges of one length that follow one another.

The table is kept by the first numbers of the ranges. It grows at its end, by a range that begins
where the last one stops, and a range may be put in the place of another with the same numbers.
So the ranges cover what lies between the two ends, each number once, and the range of a number is
found by looking for the greatest first number.
-/

namespace RockNode

variable {V : Type*}

/-- The ranges of the table cover the numbers from `first` up to `stop`, one after the other and
each of them `size` numbers long; `last` tells where a range ends. -/
inductive Tiles (last : V → ℕ) (size first : ℕ) : SortedMap ℕ V → ℕ → Prop
  | nil : Tiles last size first .empty first
  | snoc {m : SortedMap ℕ V} {stop : ℕ} {v : V} (h : Tiles last size first m stop)
    (hv : last v + 1 = stop + size) : Tiles last size first (m.put stop v) (stop + size)

namespace Tiles

variable {last : V → ℕ} {size first stop : ℕ} {m : SortedMap ℕ V}

lemma first_le (h : Tiles last size first m stop) : first ≤ stop := by
  induction h with
  | nil => exact le_rfl
  | snoc _ _ ih => omega

/-- A range lies between the two ends. -/
lemma bounds (h : Tiles last size first m stop) {k : ℕ} {v : V} (hk : m.get k = some v) :
    first ≤ k ∧ k + size ≤ stop ∧ last v + 1 = k + size := by
  induction h with
  | nil => simp at hk
  | snoc h hv ih =>
    rw [SortedMap.get_put] at hk
    split at hk
    · next heq =>
      cases hk
      subst heq
      exact ⟨h.first_le, le_rfl, hv⟩
    · obtain ⟨h1, h2, h3⟩ := ih hk
      exact ⟨h1, by omega, h3⟩

/-- Of two ranges the later one begins after the other has ended. -/
lemma follows (h : Tiles last size first m stop) {j k : ℕ} {u v : V} (hj : m.get j = some u)
    (hk : m.get k = some v) (hlt : j < k) : j + size ≤ k := by
  induction h with
  | nil => simp at hj
  | snoc h hv ih =>
    rw [SortedMap.get_put] at hj hk
    split at hk
    · next heq =>
      rw [if_neg (by omega)] at hj
      exact heq ▸ (h.bounds hj).2.1
    · split at hj
      · next heq =>
        have := (h.bounds hk).2.1
        omega
      · exact ih hj hk

/-- **The ranges cover what lies between the two ends.** -/
theorem covers_iff (h : Tiles last size first m stop) (n : ℕ) :
    (∃ k v, m.get k = some v ∧ k ≤ n ∧ n ≤ last v) ↔ first ≤ n ∧ n < stop := by
  constructor
  · rintro ⟨k, v, hk, h1, h2⟩
    obtain ⟨h3, h4, h5⟩ := h.bounds hk
    omega
  · rintro ⟨h1, h2⟩
    induction h with
    | nil => omega
    | @snoc m stop v h hv ih =>
      rcases Nat.lt_or_ge n stop with hlt | hge
      · obtain ⟨k, u, hk, h3, h4⟩ := ih hlt
        refine ⟨k, u, ?_, h3, h4⟩
        rw [SortedMap.get_put_of_ne _ _ (by omega)]
        exact hk
      · exact ⟨stop, v, SortedMap.get_put_self _ _ _, hge, by omega⟩

/-- **A number has one range**, and that is the one with the greatest first number not above it. -/
theorem seekLE (h : Tiles last size first m stop) {k n : ℕ} {v : V} (hk : m.get k = some v)
    (h1 : k ≤ n) (h2 : n ≤ last v) : m.seekLE n = some (k, v) := by
  refine SortedMap.seekLE_eq_some.mpr ⟨hk, h1, fun j u hj hle => ?_⟩
  by_contra hlt
  have hafter := h.follows hk hj (by omega)
  have hend := (h.bounds hk).2.2
  omega

lemma get_stop (h : Tiles last size first m stop) (hsize : 0 < size) : m.get stop = none := by
  by_contra hsome
  obtain ⟨v, hv⟩ := Option.ne_none_iff_exists'.mp hsome
  have := (h.bounds hv).2.1
  omega

/-- A range gives way to another one of the same numbers. -/
lemma replace (h : Tiles last size first m stop) {k : ℕ} {u v : V} (hk : m.get k = some u)
    (hv : last v + 1 = k + size) : Tiles last size first (m.put k v) stop := by
  induction h with
  | nil => simp at hk
  | @snoc m stop w h hw ih =>
    by_cases heq : k = stop
    · subst heq
      rw [SortedMap.put_put]
      exact .snoc h hv
    · rw [SortedMap.get_put_of_ne _ _ heq] at hk
      rw [SortedMap.put_comm _ _ _ (Ne.symm heq)]
      exact .snoc (ih hk) hw

end Tiles

end RockNode
