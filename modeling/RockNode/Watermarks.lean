import RockNode.WriteSpec

/-!
The watermarks and the gap table as numbers and sets.

`Marks` says what the metadata stand for: the contiguous frontier, the largest number known,
the recorded gaps and the committed numbers. One call of `write_block` on the database is one
`write` on the marks, and the marks keep an invariant that ties the four together: above the
frontier the recorded gaps are exactly the numbers below the largest one.
-/

namespace RockNode

open RangeTable

structure Marks where
  highest : ℕ
  latest : ℕ
  gaps : Set ℕ
  committed : Set ℕ

namespace Marks

/-- Where the walk ends when `n` extends the contiguous sequence. -/
def reach (w : Marks) (n : ℕ) : ℕ := if n + 1 = w.latest then w.latest else n

/-- One committed block. There is no result when the walk runs past the last `u64`. -/
def write (w : Marks) (n : ℕ) : Option Marks :=
  if w.highest + 1 < n then
    some { w with
      latest := max w.latest n
      gaps := w.gaps ∪ {m | w.highest < m ∧ m < n}
      committed := insert n w.committed }
  else if n = w.highest + 1 then
    if w.reach n = u64Max then none
    else some { w with
      highest := w.reach n
      latest := max w.latest n
      committed := insert n w.committed }
  else
    some { w with gaps := w.gaps \ {n}, committed := insert n w.committed }

/-- The invariant of the marks of a node that starts at `seed + 1`. -/
structure Ok (seed : ℕ) (w : Marks) : Prop where
  seed_le : seed ≤ w.highest
  highest_le : w.highest ≤ w.latest
  highest_lt : w.highest < u64Max
  latest_le : w.latest ≤ u64Max
  latest_ne : w.latest ≠ w.highest + 1
  above : ∀ {m}, w.highest < m → (m ∈ w.gaps ↔ m < w.latest)
  low : ∀ {m}, m ∈ w.gaps → seed < m
  sound : ∀ {m}, seed < m → m ≤ w.highest → m ∈ w.committed
  top : w.latest = seed ∨ w.latest ∈ w.committed
  bound : ∀ {m}, m ∈ w.committed → m ≤ w.latest

/-- What a write does, by the branch it takes. -/
lemma write_cases {w w' : Marks} {n : ℕ} (h : w.write n = some w') :
    (w.highest + 1 < n ∧ w' = ⟨w.highest, max w.latest n, w.gaps ∪ {m | w.highest < m ∧ m < n},
      insert n w.committed⟩) ∨
    (n = w.highest + 1 ∧ w.reach n ≠ u64Max ∧
      w' = ⟨w.reach n, max w.latest n, w.gaps, insert n w.committed⟩) ∨
    (n ≤ w.highest ∧ w' = ⟨w.highest, w.latest, w.gaps \ {n}, insert n w.committed⟩) := by
  unfold write at h
  split at h
  · next h1 => exact Or.inl ⟨h1, (Option.some.inj h).symm⟩
  · split at h
    · next h2 =>
      split at h
      · cases h
      · next h3 => exact Or.inr (Or.inl ⟨h2, h3, (Option.some.inj h).symm⟩)
    · next h1 h2 => exact Or.inr (Or.inr ⟨by omega, (Option.some.inj h).symm⟩)

/-- The frontier never goes back, nor does the largest number. -/
lemma write_mono {seed : ℕ} {w w' : Marks} {n : ℕ} (hw : w.Ok seed) (h : w.write n = some w') :
    w.highest ≤ w'.highest ∧ w.latest ≤ w'.latest ∧ w'.committed = insert n w.committed := by
  rcases write_cases h with ⟨-, rfl⟩ | ⟨hn, -, rfl⟩ | ⟨-, rfl⟩
  · exact ⟨le_rfl, le_max_left _ _, rfl⟩
  · have := hw.highest_le
    refine ⟨?_, le_max_left _ _, rfl⟩
    simp only [reach]
    split <;> omega
  · exact ⟨le_rfl, le_rfl, rfl⟩

/-- **The invariant is kept by every write.** -/
theorem write_ok {seed : ℕ} {w w' : Marks} {n : ℕ} (hw : w.Ok seed) (hn : n ≤ u64Max)
    (h : w.write n = some w') : w'.Ok seed := by
  obtain ⟨hseed, hhl, hhm, hlm, hne, habove, hlow, hsound, htop, hbound⟩ := hw
  rcases write_cases h with ⟨hbr, rfl⟩ | ⟨hbr, hreach, rfl⟩ | ⟨hbr, rfl⟩
  · -- a jump: everything between the frontier and the block is recorded as missing
    refine ⟨hseed, ?_, hhm, ?_, ?_, ?_, ?_, ?_, ?_, ?_⟩
    · simp only; omega
    · simp only; omega
    · simp only; omega
    · intro m hm
      have := habove hm
      simp only [Set.mem_union, Set.mem_ofPred_eq, this]
      simp only at hm
      omega
    · intro m hm
      rcases hm with hm | hm
      · exact hlow hm
      · simp only [Set.mem_ofPred_eq] at hm; omega
    · intro m h1 h2
      exact Set.mem_insert_of_mem _ (hsound h1 h2)
    · rcases Nat.lt_or_ge w.latest n with hlt | hge
      · exact Or.inr (by simp [max_eq_right hlt.le])
      · rcases htop with ht | ht
        · simp only; omega
        · exact Or.inr (by simp [max_eq_left hge, ht])
    · intro m hm
      rcases hm with rfl | hm
      · exact le_max_right _ _
      · exact (hbound hm).trans (le_max_left _ _)
  · -- the next block: the walk passes at most the largest number, all else is recorded
    have hr : w.reach n = if n + 1 = w.latest then w.latest else n := rfl
    by_cases hadj : n + 1 = w.latest
    · rw [if_pos hadj] at hr
      have hlc : w.latest ∈ w.committed := htop.resolve_left (by omega)
      refine ⟨by simp only; omega, by simp only; omega, by simp only; omega, by simp only; omega,
        by simp only; omega, ?_, ?_, ?_, ?_, ?_⟩
      · intro m hm
        simp only at hm
        simp only [habove (show w.highest < m by omega)]
        omega
      · exact fun hm => hlow hm
      · intro m h1 h2
        simp only at h2
        rcases (by omega : m ≤ w.highest ∨ m = n ∨ m = w.latest) with h3 | rfl | rfl
        · exact Set.mem_insert_of_mem _ (hsound h1 h3)
        · exact Set.mem_insert _ _
        · exact Set.mem_insert_of_mem _ hlc
      · exact Or.inr (by simp [max_eq_left (show n ≤ w.latest by omega), hlc])
      · intro m hm
        rcases hm with rfl | hm
        · exact le_max_right _ _
        · exact (hbound hm).trans (le_max_left _ _)
    · rw [if_neg hadj] at hr
      refine ⟨by simp only; omega, by simp only; omega, by simp only; omega, by simp only; omega,
        by simp only; omega, ?_, ?_, ?_, ?_, ?_⟩
      · intro m hm
        simp only at hm
        simp only [habove (show w.highest < m by omega)]
        omega
      · exact fun hm => hlow hm
      · intro m h1 h2
        simp only at h2
        rcases (by omega : m ≤ w.highest ∨ m = n) with h3 | rfl
        · exact Set.mem_insert_of_mem _ (hsound h1 h3)
        · exact Set.mem_insert _ _
      · rcases Nat.lt_or_ge w.latest n with hlt | hge
        · exact Or.inr (by simp [max_eq_right hlt.le])
        · exact Or.inr (by simp [max_eq_left hge, htop.resolve_left (by omega)])
      · intro m hm
        rcases hm with rfl | hm
        · exact le_max_right _ _
        · exact (hbound hm).trans (le_max_left _ _)
  · -- at or below the frontier: only the block's own entry in the gap table goes
    refine ⟨hseed, hhl, hhm, hlm, hne, ?_, ?_, ?_, ?_, ?_⟩
    · intro m hm
      simp only at hm
      rw [← habove hm]
      simp only [Set.mem_sdiff, Set.mem_singleton_iff]
      exact ⟨fun h => h.1, fun h => ⟨h, by omega⟩⟩
    · exact fun hm => hlow hm.1
    · intro m h1 h2
      exact Set.mem_insert_of_mem _ (hsound h1 h2)
    · exact htop.imp id (Set.mem_insert_of_mem _)
    · intro m hm
      rcases hm with rfl | hm
      · simp only; omega
      · exact hbound hm

/-! ### Gaps recorded over committed numbers -/

/-- No committed number is recorded as missing. -/
def NoFalseGap (w : Marks) : Prop := ∀ {m}, m ∈ w.committed → m ∉ w.gaps

/-- The call runs past the last `u64`: nothing is written. -/
def Overflows (w : Marks) (n : ℕ) : Prop := n = w.highest + 1 ∧ w.reach n = u64Max

lemma write_eq_none {w : Marks} {n : ℕ} : w.write n = none ↔ w.Overflows n := by
  unfold write Overflows
  split
  · simp only [reduceCtorEq, false_iff]
    omega
  · split
    · next h => split <;> simp_all
    · simp_all

/-- The number lies at or below the frontier; or it is in no recorded gap, and nothing between
the frontier and it has been committed. -/
def Clean (w : Marks) (n : ℕ) : Prop :=
  n ≤ w.highest ∨ (n ∉ w.gaps ∧ ∀ m ∈ w.committed, m ≤ w.highest ∨ n ≤ m)

/-- A write leaves no false gap exactly when it is clean: above the frontier nothing is ever
taken out of the gap table, and a jump records everything below it. -/
lemma write_noFalseGap {w w' : Marks} {n : ℕ} (hw : w.NoFalseGap) (h : w.write n = some w') :
    w'.NoFalseGap ↔ w.Clean n := by
  rcases write_cases h with ⟨hbr, rfl⟩ | ⟨hbr, -, rfl⟩ | ⟨hbr, rfl⟩
  · refine ⟨fun hno => Or.inr ⟨fun hn => ?_, fun m hm => ?_⟩, ?_⟩
    · exact hno (Set.mem_insert _ _) (Or.inl hn)
    · by_contra hbetween
      refine hno (Set.mem_insert_of_mem _ hm) (Or.inr ?_)
      simp only [Set.mem_ofPred_eq]
      omega
    · rintro (hle | ⟨hn, hbetween⟩) m hm hgap
      · omega
      · rcases hm with rfl | hm
        · rcases hgap with hgap | hgap
          · exact hn hgap
          · simp only [Set.mem_ofPred_eq] at hgap
            omega
        · rcases hgap with hgap | hgap
          · exact hw hm hgap
          · simp only [Set.mem_ofPred_eq] at hgap
            rcases hbetween m hm with h1 | h1 <;> omega
  · refine ⟨fun hno => Or.inr ⟨fun hn => hno (Set.mem_insert _ _) hn, fun m _ => by omega⟩, ?_⟩
    rintro (hle | ⟨hn, -⟩) m hm hgap
    · omega
    · rcases hm with rfl | hm
      · exact hn hgap
      · exact hw hm hgap
  · refine ⟨fun _ => Or.inl hbr, fun _ m hm hgap => ?_⟩
    rcases hm with rfl | hm
    · exact hgap.2 rfl
    · exact hw hm hgap.1

/-! ### Missing numbers -/

/-- Every missing number above the seed and below a committed one is recorded. -/
lemma Ok.recorded {seed : ℕ} {w : Marks} (hw : w.Ok seed) {m n : ℕ} (hm : seed < m)
    (hn : n ∈ w.committed) (hmn : m ≤ n) (hmiss : m ∉ w.committed) : m ∈ w.gaps := by
  have hhigh : w.highest < m := by
    by_contra hle
    exact hmiss (hw.sound hm (Nat.le_of_not_lt hle))
  rw [hw.above hhigh]
  have hlat := hw.bound hn
  rcases Nat.lt_or_ge m w.latest with hlt | hge
  · exact hlt
  · -- the largest number itself is committed
    obtain rfl : m = w.latest := by omega
    rcases hw.top with h | h
    · omega
    · exact absurd h hmiss

/-! ### The true frontier -/

/-- The frontier as the committed numbers have it. -/
def IsFrontier (seed : ℕ) (committed : Set ℕ) (h : ℕ) : Prop :=
  seed ≤ h ∧ (∀ m, seed < m → m ≤ h → m ∈ committed) ∧ h + 1 ∉ committed

/-- The number is the first missing one. -/
def Fills (seed : ℕ) (committed : Set ℕ) (n : ℕ) : Prop :=
  seed < n ∧ (∀ m, seed < m → m < n → m ∈ committed) ∧ n ∉ committed

lemma IsFrontier.fills_iff {seed h n : ℕ} {committed : Set ℕ} (hf : IsFrontier seed committed h) :
    Fills seed committed n ↔ n = h + 1 := by
  obtain ⟨h1, h2, h3⟩ := hf
  refine ⟨fun ⟨hn1, hn2, hn3⟩ => ?_, ?_⟩
  · rcases Nat.lt_trichotomy n (h + 1) with hlt | heq | hgt
    · exact absurd (h2 n hn1 (by omega)) hn3
    · exact heq
    · exact absurd (hn2 (h + 1) (by omega) (by omega)) h3
  · rintro rfl
    exact ⟨by omega, fun m hm1 hm2 => h2 m hm1 (by omega), h3⟩

/-- When the number is the first missing one and the next one is there, nothing larger may
be: the walk passes one recorded number only, the largest. -/
def Catches (seed : ℕ) (committed : Set ℕ) (n : ℕ) : Prop :=
  Fills seed committed n → n + 1 ∈ committed → ∀ m ∈ committed, m ≤ n + 1

lemma write_isFrontier {seed : ℕ} {w w' : Marks} {n : ℕ} (hw : w.Ok seed)
    (hf : IsFrontier seed w.committed w.highest) (h : w.write n = some w') :
    IsFrontier seed w'.committed w'.highest ↔ Catches seed w.committed n := by
  obtain ⟨hf1, hf2, hf3⟩ := id hf
  have hbound : ∀ {m}, m ∈ w.committed → m ≤ w.latest := hw.bound
  rcases write_cases h with ⟨hbr, rfl⟩ | ⟨hbr, -, rfl⟩ | ⟨hbr, rfl⟩
  · refine ⟨fun _ hfill => ?_, fun _ => ⟨hf1, fun m h1 h2 => Or.inr (hf2 m h1 h2), ?_⟩⟩
    · rw [hf.fills_iff] at hfill
      omega
    · rintro (heq | hmem)
      · simp only at heq
        omega
      · exact hf3 hmem
  · have hr : w.reach n = if n + 1 = w.latest then w.latest else n := rfl
    by_cases hadj : n + 1 = w.latest
    · -- the next one is the largest: the walk passes it
      rw [if_pos hadj] at hr
      have hlc : w.latest ∈ w.committed := hw.top.resolve_left (by omega)
      refine ⟨fun _ _ _ m hm => ?_, fun _ => ⟨?_, ?_, ?_⟩⟩
      · rw [hadj]
        exact hbound hm
      · simp only
        omega
      · intro m h1 h2
        simp only at h2
        rcases (by omega : m ≤ w.highest ∨ m = n ∨ m = w.latest) with h3 | rfl | rfl
        · exact Or.inr (hf2 m h1 h3)
        · exact Or.inl rfl
        · exact Or.inr hlc
      · rintro (heq | hmem)
        · simp only at heq
          omega
        · have := hbound hmem
          simp only at this
          omega
    · rw [if_neg hadj] at hr
      have hnot : IsFrontier seed (insert n w.committed) n ↔ n + 1 ∉ w.committed := by
        refine ⟨fun hf' hmem => hf'.2.2 (Or.inr hmem), fun hmem => ⟨by omega, ?_, ?_⟩⟩
        · intro m h1 h2
          rcases (by omega : m ≤ w.highest ∨ m = n) with h3 | rfl
          · exact Or.inr (hf2 m h1 h3)
          · exact Or.inl rfl
        · rintro (heq | hmem')
          · omega
          · exact hmem hmem'
      simp only [hr, hnot]
      refine ⟨fun hmem _ hmem' => absurd hmem' hmem, fun hcatch hmem => ?_⟩
      -- the largest number is beyond the next one
      have hle := hbound hmem
      have hlc : w.latest ∈ w.committed := hw.top.resolve_left (by omega)
      have := hcatch (hf.fills_iff.mpr hbr) hmem w.latest hlc
      omega
  · refine ⟨fun _ hfill => ?_, fun _ => ⟨hf1, fun m h1 h2 => Or.inr (hf2 m h1 h2), ?_⟩⟩
    · rw [hf.fills_iff] at hfill
      omega
    · rintro (heq | hmem)
      · simp only at heq
        omega
      · exact hf3 hmem

end Marks

end RockNode
