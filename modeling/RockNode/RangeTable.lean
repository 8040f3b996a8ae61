import RockNode.SortedMap

/-!
Sets of numbers kept as a table of ranges: the entry `a ↦ b` stands for `a, a + 1, …, b`.

A table is canonical when its ranges are nonempty, disjoint and not adjacent. A canonical
table is determined by the set it stands for, and the range around a number is found by
looking at one entry only.
-/

namespace RockNode

abbrev RangeTable := SortedMap ℕ ℕ

namespace RangeTable

/-- The number lies in a range of the table. -/
def Covers (m : RangeTable) (n : ℕ) : Prop := ∃ a b, m.get a = some b ∧ a ≤ n ∧ n ≤ b

structure Canonical (m : RangeTable) : Prop where
  nonempty : ∀ {a b}, m.get a = some b → a ≤ b
  apart : ∀ {a b a' b'}, m.get a = some b → m.get a' = some b' → a < a' → b + 1 < a'

lemma not_covers_empty (n : ℕ) : ¬ Covers .empty n := by
  rintro ⟨a, b, h, -⟩
  simp at h

lemma canonical_empty : Canonical .empty := ⟨by simp, by simp⟩

variable {m m' : RangeTable}

/-- Two ranges that share or nearly share a number are one range. -/
lemma Canonical.eq_of_touch (hm : Canonical m) {a b a' b' : ℕ} (h : m.get a = some b)
    (h' : m.get a' = some b') (hl : a ≤ b' + 1) (hr : a' ≤ b + 1) : a = a' ∧ b = b' := by
  rcases lt_trichotomy a a' with hlt | rfl | hlt
  · have := hm.apart h h' hlt; omega
  · rw [h] at h'; exact ⟨rfl, Option.some.inj h'⟩
  · have := hm.apart h' h hlt; omega

lemma Canonical.seekLE (hm : Canonical m) {a b n : ℕ} (h : m.get a = some b) (ha : a ≤ n)
    (hb : n ≤ b) : m.seekLE n = some (a, b) := by
  refine SortedMap.seekLE_eq_some.mpr ⟨h, ha, fun j v hj hle => ?_⟩
  by_contra hlt
  have := hm.apart h hj (by omega)
  omega

/-- **A canonical table is determined by its set.** -/
theorem Canonical.ext (hm : Canonical m) (hm' : Canonical m')
    (h : ∀ n, Covers m n ↔ Covers m' n) : m = m' := by
  -- a range of one table is a range of the other: neither end can move
  have key : ∀ {t t' : RangeTable}, Canonical t → Canonical t' →
      (∀ n, Covers t n ↔ Covers t' n) → ∀ {a b}, t.get a = some b → t'.get a = some b := by
    intro t t' ht ht' hc a b hab
    have hle := ht.nonempty hab
    obtain ⟨a', b', hab', ha', hb'⟩ := (hc a).mp ⟨a, b, hab, le_rfl, hle⟩
    have hstart : a' = a := by
      by_contra hne
      obtain ⟨c, d, hcd, h1, h2⟩ := (hc (a - 1)).mpr ⟨a', b', hab', by omega, by omega⟩
      have := ht.apart hcd hab (by omega)
      omega
    subst hstart
    have hend : b' = b := by
      rcases lt_trichotomy b' b with hlt | heq | hlt
      · obtain ⟨c, d, hcd, h1, h2⟩ := (hc (b' + 1)).mp ⟨a', b, hab, by omega, by omega⟩
        have := ht'.eq_of_touch hcd hab' (by omega) (by omega)
        omega
      · exact heq
      · obtain ⟨c, d, hcd, h1, h2⟩ := (hc (b + 1)).mpr ⟨a', b', hab', by omega, by omega⟩
        have := ht.eq_of_touch hcd hab (by omega) (by omega)
        omega
    rw [← hend]; exact hab'
  refine SortedMap.ext_get fun k => Option.ext fun v => ⟨?_, ?_⟩
  · exact key hm hm' h
  · exact key hm' hm fun n => (h n).symm

/-! ### Replacing a stretch by one range -/

/-- `m'` is `m` with everything that starts in `s … e + 1` replaced by the range `s … e`. -/
structure Merged (m m' : RangeTable) (s e : ℕ) : Prop where
  start : m'.get s = some e
  inside : ∀ {k}, k ≠ s → s ≤ k → k ≤ e + 1 → m'.get k = none
  outside : ∀ {k}, k < s ∨ e + 1 < k → m'.get k = m.get k

lemma Merged.canonical {s e : ℕ} (h : Merged m m' s e) (hm : Canonical m) (hse : s ≤ e)
    (hleft : ∀ {a b}, m.get a = some b → a < s → b + 1 < s) : Canonical m' := by
  -- a range of the new table is the new one, or an old one on one side of it
  have hcase : ∀ {a b}, m'.get a = some b →
      (a = s ∧ b = e) ∨ (a < s ∧ m.get a = some b) ∨ (e + 1 < a ∧ m.get a = some b) := by
    intro a b hab
    by_cases ha : a = s
    · subst ha; rw [h.start] at hab; exact Or.inl ⟨rfl, (Option.some.inj hab).symm⟩
    · by_cases hin : s ≤ a ∧ a ≤ e + 1
      · rw [h.inside ha hin.1 hin.2] at hab; cases hab
      · rcases (by omega : a < s ∨ e + 1 < a) with hlt | hlt
        · rw [h.outside (Or.inl hlt)] at hab; exact Or.inr (Or.inl ⟨hlt, hab⟩)
        · rw [h.outside (Or.inr hlt)] at hab; exact Or.inr (Or.inr ⟨hlt, hab⟩)
  constructor
  · intro a b hab
    rcases hcase hab with ⟨rfl, rfl⟩ | ⟨-, hab⟩ | ⟨-, hab⟩
    · exact hse
    · exact hm.nonempty hab
    · exact hm.nonempty hab
  · intro a b a' b' hab hab' hlt
    rcases hcase hab with ⟨rfl, rfl⟩ | ⟨h1, hab⟩ | ⟨h1, hab⟩ <;>
      rcases hcase hab' with ⟨rfl, rfl⟩ | ⟨h2, hab'⟩ | ⟨h2, hab'⟩
    · omega
    · omega
    · exact h2
    · exact hleft hab h1
    · exact hm.apart hab hab' hlt
    · exact hm.apart hab hab' hlt
    · omega
    · omega
    · exact hm.apart hab hab' hlt

lemma Merged.covers {s e : ℕ} (h : Merged m m' s e)
    (hin : ∀ {a b}, m.get a = some b → s ≤ a → a ≤ e + 1 → b ≤ e) (n : ℕ) :
    Covers m' n ↔ Covers m n ∨ (s ≤ n ∧ n ≤ e) := by
  constructor
  · rintro ⟨a, b, hab, ha, hb⟩
    by_cases has : a = s
    · subst has
      rw [h.start] at hab
      cases hab
      exact Or.inr ⟨ha, hb⟩
    · by_cases hmid : s ≤ a ∧ a ≤ e + 1
      · rw [h.inside has hmid.1 hmid.2] at hab; cases hab
      · rw [h.outside (by omega)] at hab
        exact Or.inl ⟨a, b, hab, ha, hb⟩
  · rintro (⟨a, b, hab, ha, hb⟩ | ⟨h1, h2⟩)
    · by_cases hmid : s ≤ a ∧ a ≤ e + 1
      · have := hin hab hmid.1 hmid.2
        exact ⟨s, e, h.start, by omega, by omega⟩
      · exact ⟨a, b, by rw [h.outside (by omega)]; exact hab, ha, hb⟩
    · exact ⟨s, e, h.start, h1, h2⟩

/-! ### Taking one number out of its range -/

/-- `m'` is `m` with `n` taken out of the range `a … b` that contains it. -/
structure Split (m m' : RangeTable) (a b n : ℕ) : Prop where
  left : m'.get a = if a < n then some (n - 1) else none
  right : m'.get (n + 1) = if n < b then some b else m.get (n + 1)
  other : ∀ {k}, k ≠ a → k ≠ n + 1 → m'.get k = m.get k

lemma Split.get_cases {a b n : ℕ} (h : Split m m' a b n) {k v : ℕ} (hk : m'.get k = some v) :
    (k = a ∧ v + 1 = n ∧ a < n) ∨ (k = n + 1 ∧ v = b ∧ n < b) ∨ (k ≠ a ∧ m.get k = some v) := by
  by_cases hka : k = a
  · subst hka
    rw [h.left] at hk
    split at hk
    · have := Option.some.inj hk; exact Or.inl ⟨rfl, by omega, by assumption⟩
    · cases hk
  · by_cases hkn : k = n + 1
    · subst hkn
      rw [h.right] at hk
      split at hk
      · exact Or.inr (Or.inl ⟨rfl, (Option.some.inj hk).symm, by assumption⟩)
      · exact Or.inr (Or.inr ⟨hka, hk⟩)
    · rw [h.other hka hkn] at hk
      exact Or.inr (Or.inr ⟨hka, hk⟩)

lemma Split.canonical {a b n : ℕ} (h : Split m m' a b n) (hm : Canonical m)
    (hab : m.get a = some b) (ha : a ≤ n) (hb : n ≤ b) : Canonical m' := by
  constructor
  · intro k v hk
    rcases h.get_cases hk with h1 | h1 | ⟨-, h1⟩
    · omega
    · omega
    · exact hm.nonempty h1
  · intro k v k' v' hk hk' hlt
    rcases h.get_cases hk with h1 | h1 | ⟨hne, h1⟩ <;>
      rcases h.get_cases hk' with h2 | h2 | ⟨hne', h2⟩
    · omega
    · omega
    · have := hm.apart hab h2 (by omega); omega
    · omega
    · omega
    · have := hm.apart hab h2 (by omega); omega
    · have := hm.apart h1 hab (by omega); omega
    · rcases lt_or_gt_of_ne hne with hka | hka
      · have := hm.apart h1 hab hka; omega
      · have := hm.apart hab h1 hka; omega
    · exact hm.apart h1 h2 hlt

lemma Split.covers {a b n : ℕ} (h : Split m m' a b n) (hm : Canonical m)
    (hab : m.get a = some b) (ha : a ≤ n) (hb : n ≤ b) (i : ℕ) :
    Covers m' i ↔ Covers m i ∧ i ≠ n := by
  constructor
  · rintro ⟨k, v, hk, h1, h2⟩
    rcases h.get_cases hk with h3 | h3 | ⟨hne, h3⟩
    · exact ⟨⟨a, b, hab, by omega, by omega⟩, by omega⟩
    · exact ⟨⟨a, b, hab, by omega, by omega⟩, by omega⟩
    · refine ⟨⟨k, v, h3, h1, h2⟩, ?_⟩
      rintro rfl
      have := hm.eq_of_touch h3 hab (by omega) (by omega)
      exact hne this.1
  · rintro ⟨⟨k, v, hk, h1, h2⟩, hne⟩
    by_cases hka : k = a
    · subst hka
      rw [hab] at hk
      cases hk
      rcases lt_or_gt_of_ne hne with hlt | hlt
      · exact ⟨k, n - 1, by rw [h.left, if_pos (by omega)], h1, by omega⟩
      · exact ⟨n + 1, b, by rw [h.right, if_pos (by omega)], by omega, h2⟩
    · have hkn : k ≠ n + 1 ∨ ¬ n < b := by
        by_contra hc
        have := hm.eq_of_touch hk hab (by omega) (by omega)
        exact hka this.1
      by_cases hk1 : k = n + 1
      · subst hk1
        exact ⟨n + 1, v, by rw [h.right, if_neg (by omega)]; exact hk, h1, h2⟩
      · exact ⟨k, v, by rw [h.other hka hk1]; exact hk, h1, h2⟩

end RangeTable

end RockNode
