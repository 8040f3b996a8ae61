import RockNode.Frontier

/-!
What the order of arrival does to the gap table and to `highest_contiguous`.

Only a write at or below the watermark takes its number out of the gap table, a jump records
everything below it, and the walk stops in front of every recorded number. So some orders of
arrival leave committed numbers recorded as missing, and some leave the watermark behind. The
conditions below say which writes these are; on a node that starts at block 0, block 0 is a
case of its own.
-/

namespace RockNode

open RangeTable

/-- The states of a sequence of `write_block` calls. -/
def Store.step (cfg : Config) (codec : Codec) (s : Store) (block : Block) : Option Store :=
  some (s.write cfg codec block)

lemma Store.writes_concat (cfg : Config) (codec : Codec) (s : Store) (blocks : List Block)
    (block : Block) :
    s.writes cfg codec (blocks ++ [block]) = (s.writes cfg codec blocks).write cfg codec block := by
  simp only [Store.writes, List.foldl_append, List.foldl_cons, List.foldl_nil]

/-- A write that nothing comes of: the next number is the last `u64`, or the one before it and
the last `u64` is stored. -/
def Store.AtEnd (cfg : Config) (s : Store) (n : ℕ) : Prop :=
  n = highestContiguous s.db + 1 ∧
    (n = u64Max ∨ (n + 1 = u64Max ∧ latestOrSeed cfg s.db = u64Max))

instance Store.AtEnd.decidable (cfg : Config) (s : Store) (n : ℕ) : Decidable (s.AtEnd cfg n) :=
  inferInstanceAs (Decidable (_ ∧ _))

lemma Store.overflows_iff {cfg : Config} {s : Store} (hg : s.Good cfg) {n : ℕ} :
    (s.marks cfg).Overflows n ↔ s.AtEnd cfg n := by
  have hle : latestOrSeed cfg s.db ≤ u64Max := hg.ok.latest_le
  have hreach : (s.marks cfg).reach n =
      if n + 1 = latestOrSeed cfg s.db then latestOrSeed cfg s.db else n := rfl
  unfold Marks.Overflows Store.AtEnd
  rw [hreach]
  refine and_congr_right fun _ => ?_
  split <;> omega

/-- There `write_block` has no batch to commit, and only there. -/
lemma prepareBatch_eq_none_iff {cfg : Config} {s : Store} (hg : s.Good cfg) (codec : Codec)
    (block : Block) (n : ℕ) :
    (prepareBatch cfg codec block n).run s.db = none ↔ s.AtEnd cfg n := by
  rw [← Store.overflows_iff hg, prepareBatch_run, Option.map_eq_none_iff]
  rcases Nat.lt_trichotomy n (highestContiguous s.db + 1) with hbelow | hnext | habove
  · rw [contiguousOps_below hg (by omega)]
    exact iff_of_false (Option.some_ne_none _) fun h => hbelow.ne h.1
  · rw [contiguousOps_next hg hnext]
    split
    · next hmax => exact iff_of_true rfl ⟨hnext, hmax⟩
    · next hmax => exact iff_of_false (Option.some_ne_none _) fun h => hmax h.2
  · rw [contiguousOps_jump hg habove]
    exact iff_of_false (Option.some_ne_none _) fun h => habove.ne' h.1

/-- A call whose block has a number: at the end nothing, otherwise a write on the marks. -/
lemma Store.write_of_number {cfg : Config} {s : Store} (hg : s.Good cfg) (codec : Codec)
    {block : Block} {n : ℕ} (hn : getBlockNumber block = some n) :
    (s.AtEnd cfg n ∧ s.write cfg codec block = s) ∨
      (¬ s.AtEnd cfg n ∧
        (s.marks cfg).write n = some ((s.write cfg codec block).marks cfg)) := by
  have h := Store.write_refines hg codec hn
  rw [← Store.overflows_iff hg, ← Marks.write_eq_none]
  rcases hw : (s.marks cfg).write n with _ | w
  · rw [hw] at h
    exact Or.inl ⟨rfl, h⟩
  · rw [hw] at h
    exact Or.inr ⟨by simp, by rw [h.2]⟩

lemma Store.write_of_none (cfg : Config) (codec : Codec) (s : Store) {block : Block}
    (hn : getBlockNumber block = none) : s.write cfg codec block = s := by
  simp only [Store.write, hn]

/-! ### No false gaps -/

/-- `find_containing_gap` finds nothing for a committed number. -/
def Store.NoFalseGap (s : Store) : Prop := ∀ n, s.Committed n → gapAt s.db.gaps n = none

/-- The block's number lies at or below the watermark, or is in no recorded gap with nothing
committed between the watermark and it, or the call comes to nothing. -/
def Store.Clean (cfg : Config) (s : Store) (block : Block) : Prop :=
  ∀ n ∈ getBlockNumber block, n ≤ highestContiguous s.db ∨ s.AtEnd cfg n ∨
    (gapAt s.db.gaps n = none ∧ ∀ m, highestContiguous s.db < m → m < n → ¬ s.Committed m)

lemma Store.noFalseGap_iff {cfg : Config} {s : Store} (hg : s.Good cfg) :
    s.NoFalseGap ↔ (s.marks cfg).NoFalseGap := by
  unfold Store.NoFalseGap Marks.NoFalseGap
  refine forall_congr' fun n => imp_congr_right fun _ => ?_
  exact gapAt_eq_none hg.canonical n

lemma Store.write_noFalseGap {cfg : Config} {s : Store} (hg : s.Good cfg) (hs : s.NoFalseGap)
    (codec : Codec) (block : Block) :
    (s.write cfg codec block).NoFalseGap ↔ s.Clean cfg block := by
  rcases hn : getBlockNumber block with _ | n
  · rw [Store.write_of_none cfg codec s hn]
    refine ⟨fun _ n hmem => ?_, fun _ => hs⟩
    rw [hn] at hmem
    cases hmem
  have hclean : s.Clean cfg block ↔ s.AtEnd cfg n ∨ (s.marks cfg).Clean n := by
    have hmarks : (s.marks cfg).Clean n ↔ n ≤ highestContiguous s.db ∨
        (gapAt s.db.gaps n = none ∧
          ∀ m, highestContiguous s.db < m → m < n → ¬ s.Committed m) := by
      rw [gapAt_eq_none hg.canonical n]
      refine or_congr_right (and_congr_right fun _ => forall_congr' fun m => ?_)
      refine ⟨fun h h1 h2 hm => ?_, fun h hm => ?_⟩
      · have := h hm
        simp only [Store.marks] at this
        omega
      · by_contra hbetween
        simp only [Store.marks] at hbetween
        exact h (by omega) (by omega) hm
    rw [hmarks]
    unfold Store.Clean
    rw [hn]
    simp only [Option.mem_some_iff, forall_eq']
    tauto
  rw [hclean]
  rcases Store.write_of_number hg codec hn with ⟨hend, hsame⟩ | ⟨hend, hwrite⟩
  · rw [hsame]
    exact ⟨fun _ => Or.inl hend, fun _ => hs⟩
  · rw [Store.noFalseGap_iff (Store.write_good hg codec block),
      Marks.write_noFalseGap ((Store.noFalseGap_iff hg).mp hs) hwrite]
    exact ⟨Or.inr, fun h => h.resolve_left hend⟩

/-- **No false gaps.** All states of a sequence of writes are without false gaps exactly when
every write of it is clean. -/
theorem noFalseGap_iff_clean (cfg : Config) (codec : Codec) (blocks : List Block) :
    (∀ k, ((Store.init cfg).writes cfg codec (blocks.take k)).NoFalseGap) ↔
      Along (Store.step cfg codec) (Store.Clean cfg) (Store.init cfg) blocks := by
  have hinit : (Store.init cfg).NoFalseGap := by
    rintro n ⟨block, h⟩
    cases h
  exact along_iff (f := Store.write cfg codec) (I := Store.Good cfg) (Q := Store.NoFalseGap)
    (C := Store.Clean cfg) (fun block hg => Store.write_good hg codec block)
    (fun block hg hs => Store.write_noFalseGap hg hs codec block) (Store.init_good cfg) hinit blocks

/-- Block 2 and then block 1 on a node that starts at block 1: block 1 stays recorded. -/
theorem falseGap_swapped : ¬ ∀ (cfg : Config) (codec : Codec) (blocks : List Block),
    ((Store.init cfg).writes cfg codec blocks).NoFalseGap := by
  intro h
  have hone := h firstConfig plainCodec [headerBlock 2 [], headerBlock 1 []] 1
    ⟨headerBlock 1 [], List.mem_cons_self⟩
  revert hone
  decide +kernel

/-! ### No missing gaps -/

/-- Every missing number from the start block on, up to a committed one, is recorded. -/
def Store.NoMissingGap (cfg : Config) (s : Store) : Prop :=
  ∀ n m, cfg.startBlockNumber ≤ n → n ≤ m → s.Committed m → ¬ s.Committed n →
    gapAt s.db.gaps n ≠ none

/-- On a node that starts at block 0, nothing is missed exactly when block 0 has been committed
or nothing has. -/
lemma Store.noMissingGap_iff {cfg : Config} {s : Store} (hg : s.Good cfg) :
    s.NoMissingGap cfg ↔ 1 ≤ cfg.startBlockNumber ∨ s.Committed 0 ∨ ∀ m, ¬ s.Committed m := by
  have hgap : ∀ n, gapAt s.db.gaps n ≠ none ↔ n ∈ (s.marks cfg).gaps := by
    intro n
    rw [Ne, gapAt_eq_none hg.canonical n, not_not]
    rfl
  constructor
  · intro hno
    by_contra hcases
    simp only [not_or, not_forall, not_not] at hcases
    obtain ⟨hstart, hzero, m, hm⟩ := hcases
    have := hno 0 m (by omega) (Nat.zero_le _) hm hzero
    rw [hgap] at this
    exact absurd (hg.ok.low this) (Nat.not_lt_zero _)
  · intro hcases n m hstart hnm hm hmiss
    rw [hgap]
    refine hg.ok.recorded ?_ hm hnm hmiss
    -- the seed is below `n`, unless `n` is block 0
    have hn : n ≠ 0 ∨ 1 ≤ cfg.startBlockNumber := by
      rcases hcases with h | h | h
      · exact Or.inr h
      · refine Or.inl ?_
        rintro rfl
        exact hmiss h
      · exact absurd hm (h m)
    simp only [Config.seed]
    omega

/-- What a call adds to the committed numbers. -/
lemma Store.committed_write {cfg : Config} {s : Store} (hg : s.Good cfg) (codec : Codec)
    {block : Block} {n : ℕ} (hn : getBlockNumber block = some n) (hend : ¬ s.AtEnd cfg n) (m : ℕ) :
    (s.write cfg codec block).Committed m ↔ m = n ∨ s.Committed m := by
  rcases Store.write_of_number hg codec hn with ⟨h, -⟩ | ⟨-, hwrite⟩
  · exact absurd h hend
  · have hset := (Marks.write_mono hg.ok hwrite).2.2
    exact (Set.ext_iff.mp hset) m

lemma Store.committed_zero_iff (cfg : Config) (codec : Codec) (blocks : List Block) :
    ((Store.init cfg).writes cfg codec blocks).Committed 0 ↔
      ∃ block ∈ blocks, getBlockNumber block = some 0 := by
  induction blocks using List.reverseRecOn with
  | nil =>
    refine ⟨fun ⟨block, h⟩ => ?_, fun ⟨block, h, _⟩ => ?_⟩ <;> cases h
  | append_singleton blocks block ih =>
    have hg := Store.writes_good cfg codec blocks
    rw [Store.writes_concat]
    simp only [List.mem_append, List.mem_singleton, or_and_right, exists_or, exists_eq_left, ← ih]
    rcases hn : getBlockNumber block with _ | n
    · rw [Store.write_of_none cfg codec _ hn]
      simp
    · by_cases hend : ((Store.init cfg).writes cfg codec blocks).AtEnd cfg n
      · have hsame := (Store.write_of_number hg codec hn).resolve_right fun h => h.1 hend
        have hpos : n ≠ 0 := by
          have := hend.1
          omega
        rw [hsame.2]
        simp [hpos]
      · rw [Store.committed_write hg codec hn hend, or_comm, eq_comm, Option.some.injEq]

/-- On a node that starts at block 0, any block with a number leaves something committed. -/
lemma Store.nothing_committed_iff {cfg : Config} (hstart : cfg.startBlockNumber = 0)
    (codec : Codec) (blocks : List Block) :
    (∀ m, ¬ ((Store.init cfg).writes cfg codec blocks).Committed m) ↔
      ∀ block ∈ blocks, getBlockNumber block = none := by
  induction blocks using List.reverseRecOn with
  | nil =>
    refine ⟨fun _ block h => ?_, fun _ m ⟨block, h⟩ => ?_⟩ <;> cases h
  | append_singleton blocks block ih =>
    have hg := Store.writes_good cfg codec blocks
    rw [Store.writes_concat]
    simp only [List.mem_append, List.mem_singleton, or_imp, forall_and, forall_eq, ← ih]
    rcases hn : getBlockNumber block with _ | n
    · rw [Store.write_of_none cfg codec _ hn]
      simp
    · simp only [reduceCtorEq, and_false, iff_false, not_forall, not_not]
      by_cases hend : ((Store.init cfg).writes cfg codec blocks).AtEnd cfg n
      · -- the watermark is close to the last `u64`, far above the seed
        have hsame := (Store.write_of_number hg codec hn).resolve_right fun h => h.1 hend
        rw [hsame.2]
        refine ⟨highestContiguous ((Store.init cfg).writes cfg codec blocks).db,
          hg.ok.sound ?_ le_rfl⟩
        obtain ⟨h1, h2⟩ := hend
        have hmax : u64Max = 18446744073709551615 := rfl
        simp only [Config.seed]
        omega
      · exact ⟨n, (Store.committed_write hg codec hn hend n).mpr (Or.inl rfl)⟩

/-- **No missing gaps.** Nothing is missed on a node that starts above block 0; on one that
starts at 0, nothing is missed exactly when block 0 is among the blocks or no block has a
number. -/
theorem noMissingGap_iff_zero_written (cfg : Config) (codec : Codec) (blocks : List Block) :
    ((Store.init cfg).writes cfg codec blocks).NoMissingGap cfg ↔
      1 ≤ cfg.startBlockNumber ∨ (∃ block ∈ blocks, getBlockNumber block = some 0) ∨
        ∀ block ∈ blocks, getBlockNumber block = none := by
  rw [Store.noMissingGap_iff (Store.writes_good cfg codec blocks), Store.committed_zero_iff]
  by_cases hstart : cfg.startBlockNumber = 0
  · rw [Store.nothing_committed_iff hstart]
  · have hpos : 1 ≤ cfg.startBlockNumber := by omega
    simp [hpos]

/-- Block 5 alone on a node that starts at block 0: block 0 is missed. -/
theorem missingGap_zero : ¬ ∀ (cfg : Config) (codec : Codec) (blocks : List Block),
    ((Store.init cfg).writes cfg codec blocks).NoMissingGap cfg := by
  intro h
  have hlog : ((Store.init zeroConfig).writes zeroConfig plainCodec [headerBlock 5 []]).log =
      [(5, headerBlock 5 [])] := by decide +kernel
  have hmiss : ¬ ((Store.init zeroConfig).writes zeroConfig plainCodec
      [headerBlock 5 []]).Committed 0 := by
    rintro ⟨block, hmem⟩
    rw [hlog] at hmem
    simp at hmem
  have hzero := h zeroConfig plainCodec [headerBlock 5 []] 0 5 (by decide) (by decide)
    ⟨headerBlock 5 [], by rw [hlog]; exact List.mem_cons_self⟩ hmiss
  revert hzero
  decide +kernel

/-! ### The watermark and the true frontier -/

/-- `highest_contiguous` is the greatest number up to which everything from the start block on
has been committed. -/
def Store.Contiguous (cfg : Config) (s : Store) : Prop :=
  IsGreatest {m | cfg.startBlockNumber ≤ m + 1 ∧
    ∀ n, cfg.startBlockNumber ≤ n → n ≤ m → s.Committed n} (highestContiguous s.db)

/-- When the block is the first missing one and the next one has been committed, nothing
beyond that one has. -/
def Store.Catches (cfg : Config) (s : Store) (block : Block) : Prop :=
  ∀ n ∈ getBlockNumber block, cfg.startBlockNumber ≤ n → ¬ s.Committed n →
    (∀ m, cfg.startBlockNumber ≤ m → m < n → s.Committed m) → s.Committed (n + 1) →
      ∀ m, s.Committed m → m ≤ n + 1

section Frontier

variable {cfg : Config} (hstart : 1 ≤ cfg.startBlockNumber)

include hstart

lemma Store.contiguous_iff (s : Store) : s.Contiguous cfg ↔
    Marks.IsFrontier cfg.seed (s.marks cfg).committed (s.marks cfg).highest := by
  have hseed : ∀ m, cfg.startBlockNumber ≤ m ↔ cfg.seed < m := by
    intro m
    simp only [Config.seed]
    omega
  unfold Store.Contiguous Marks.IsFrontier
  simp only [hseed]
  constructor
  · rintro ⟨⟨h1, h2⟩, hmax⟩
    refine ⟨Nat.lt_succ_iff.mp h1, h2, fun hnext => ?_⟩
    -- one more committed number would make a greater bound
    have hall : ∀ n, cfg.seed < n → n ≤ highestContiguous s.db + 1 → s.Committed n := by
      intro n hn1 hn2
      rcases Nat.lt_or_ge n (highestContiguous s.db + 1) with hlt | hge
      · exact h2 n hn1 (by omega)
      · obtain rfl : n = highestContiguous s.db + 1 := by omega
        exact hnext
    have hle := hmax (a := highestContiguous s.db + 1) ⟨by omega, hall⟩
    omega
  · rintro ⟨h1, h2, hnext⟩
    refine ⟨⟨Nat.lt_succ_of_le h1, h2⟩, fun m hm => ?_⟩
    by_contra hgt
    simp only [Store.marks] at hnext h1
    exact hnext (hm.2 _ (by omega) (by omega))

lemma Store.write_contiguous {s : Store} (hg : s.Good cfg) (hs : s.Contiguous cfg)
    (codec : Codec) (block : Block) :
    (s.write cfg codec block).Contiguous cfg ↔ s.Catches cfg block := by
  rcases hn : getBlockNumber block with _ | n
  · rw [Store.write_of_none cfg codec s hn]
    refine ⟨fun _ n hmem => ?_, fun _ => hs⟩
    rw [hn] at hmem
    cases hmem
  have hfront := (Store.contiguous_iff hstart s).mp hs
  have hcatch : s.Catches cfg block ↔ Marks.Catches cfg.seed (s.marks cfg).committed n := by
    have hseed : ∀ m, cfg.startBlockNumber ≤ m ↔ cfg.seed < m := by
      intro m
      simp only [Config.seed]
      omega
    unfold Store.Catches Marks.Catches Marks.Fills
    rw [hn]
    simp only [Option.mem_some_iff, forall_eq', hseed]
    refine ⟨fun h hfill => h hfill.1 hfill.2.2 hfill.2.1, fun h h1 h2 h3 => h ⟨h1, h3, h2⟩⟩
  rw [hcatch]
  rcases Store.write_of_number hg codec hn with ⟨hend, hsame⟩ | ⟨-, hwrite⟩
  · -- at the last `u64` there is nothing beyond the next number
    rw [hsame]
    refine ⟨fun _ _ _ m hm => ?_, fun _ => hs⟩
    have hle := hg.ok.bound hm
    have hmax := hg.ok.latest_le
    obtain ⟨-, h | h⟩ := hend <;> omega
  · rw [Store.contiguous_iff hstart, Marks.write_isFrontier hg.ok hfront hwrite]

/-- **`highest_contiguous` is complete** in all states of a sequence of writes exactly when
every write of it that closes the first hole finds no hole right behind the next number. -/
theorem contiguous_iff_catches (codec : Codec) (blocks : List Block) :
    (∀ k, ((Store.init cfg).writes cfg codec (blocks.take k)).Contiguous cfg) ↔
      Along (Store.step cfg codec) (Store.Catches cfg) (Store.init cfg) blocks := by
  have hnone : ∀ n, ¬ (Store.init cfg).Committed n := by
    rintro n ⟨block, h⟩
    cases h
  have hinit : (Store.init cfg).Contiguous cfg := by
    rw [Store.contiguous_iff hstart]
    have hg := (Store.init_good cfg).ok
    refine ⟨hg.seed_le, fun m h1 h2 => hg.sound h1 h2, hnone _⟩
  exact along_iff (f := Store.write cfg codec) (I := Store.Good cfg) (Q := Store.Contiguous cfg)
    (C := Store.Catches cfg) (fun block hg => Store.write_good hg codec block)
    (fun block hg hs => Store.write_contiguous hstart hg hs codec block) (Store.init_good cfg)
    hinit blocks

end Frontier

theorem contiguous_iff_catches_first :
    (∀ k, ((Store.init firstConfig).writes firstConfig plainCodec
      ([headerBlock 2 [], headerBlock 1 []].take k)).Contiguous firstConfig) ↔
    Along (Store.step firstConfig plainCodec) (Store.Catches firstConfig) (Store.init firstConfig)
      [headerBlock 2 [], headerBlock 1 []] :=
  contiguous_iff_catches (by decide) plainCodec _

/-- Blocks 5 and 8 before 1 to 4: the watermark stays at 4, although 5 is there. -/
theorem contiguous_left_behind : ¬ ∀ (cfg : Config), 1 ≤ cfg.startBlockNumber →
    ∀ (codec : Codec) (blocks : List Block),
      ((Store.init cfg).writes cfg codec blocks).Contiguous cfg := by
  intro h
  set blocks := [headerBlock 5 [], headerBlock 8 [], headerBlock 1 [], headerBlock 2 [],
    headerBlock 3 [], headerBlock 4 []] with hblocks
  have hfour : highestContiguous ((Store.init firstConfig).writes firstConfig plainCodec
      blocks).db = 4 := by decide +kernel
  have hlog : ((Store.init firstConfig).writes firstConfig plainCodec blocks).log.map Prod.fst =
      [4, 3, 2, 1, 8, 5] := by decide +kernel
  have hall : ∀ n, 1 ≤ n → n ≤ 5 →
      ((Store.init firstConfig).writes firstConfig plainCodec blocks).Committed n := by
    intro n h1 h2
    have hmem : n ∈ ((Store.init firstConfig).writes firstConfig plainCodec blocks).log.map
        Prod.fst := by
      rw [hlog]
      simp only [List.mem_cons, List.not_mem_nil, or_false]
      omega
    obtain ⟨⟨m, block⟩, hm, rfl⟩ := List.mem_map.mp hmem
    exact ⟨block, hm⟩
  have hgreatest := (h firstConfig (by decide) plainCodec blocks).2 ⟨by decide, hall⟩
  rw [hfour] at hgreatest
  exact absurd hgreatest (by decide)

end RockNode
