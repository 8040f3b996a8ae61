import RockNode.Watermarks

/-!
`write_block` refines the write on the marks.

`Store.Good` is the invariant of the stored metadata; under it, the call's batch has one of
three shapes, and its commit is `Marks.write`.
-/

namespace RockNode

open RangeTable

/-- What the metadata of a store stand for. -/
def Store.marks (cfg : Config) (s : Store) : Marks :=
  ⟨highestContiguous s.db, latestOrSeed cfg s.db, {n | Covers s.db.gaps n}, {n | s.Committed n}⟩

structure Store.Good (cfg : Config) (s : Store) : Prop where
  canonical : Canonical s.db.gaps
  bounded : GapsBounded s.db.gaps
  set : s.db.metadata .highestContiguous ≠ none
  ok : (s.marks cfg).Ok cfg.seed

lemma Config.seed_lt (cfg : Config) : cfg.seed < u64Max := by
  have h := cfg.start_le
  have hm : 0 < u64Max := by decide
  unfold Config.seed
  omega

lemma Store.init_good (cfg : Config) : (Store.init cfg).Good cfg := by
  have hc : ∀ n, ¬ (Store.init cfg).Committed n := by
    rintro n ⟨block, h⟩
    cases h
  have hg : ∀ n, ¬ Covers (Store.init cfg).db.gaps n := not_covers_empty
  refine ⟨canonical_empty, fun {a b} h => ?_, by simp [Store.init_metadata], ?_⟩
  · have : (SortedMap.empty : RangeTable).get a = some b := h
    simp at this
  · have hlt := cfg.seed_lt
    have h1 : ((Store.init cfg).marks cfg).highest = cfg.seed := by
      simp [Store.marks, highestContiguous, Store.init_metadata]
    have h2 : ((Store.init cfg).marks cfg).latest = cfg.seed := by
      simp [Store.marks, latestOrSeed, Store.init_metadata]
    refine ⟨by omega, by omega, by omega, by omega, by omega, ?_, ?_, ?_, Or.inl h2, ?_⟩
    · intro m hm
      exact ⟨fun h => absurd h (hg m), fun h => by omega⟩
    · exact fun {m} h => absurd h (hg m)
    · intro m h3 h4
      omega
    · exact fun {m} h => absurd h (hc m)

/-! ### The batch of a call on a good store -/

section Batch

variable {cfg : Config} {s : Store} (hg : s.Good cfg) {n : ℕ}

include hg

/-- A jump over the frontier records a gap. -/
lemma contiguousOps_jump (h : highestContiguous s.db + 1 < n) (newLatest : ℕ) :
    (contiguousOps n newLatest (highestContiguous s.db)).run s.db =
      some (addGapOps (highestContiguous s.db + 1) (n - 1)
        (s.db.gaps.seekLE (highestContiguous s.db + 1)) s.db.gaps.iterFrom) := by
  have hlt : highestContiguous s.db < u64Max := hg.ok.highest_lt
  unfold contiguousOps
  rw [addU64_of_le (by omega)]
  change (if n > highestContiguous s.db + 1 then _ else _ : Prog Db WriteBatch).run s.db = _
  rw [if_pos h, addGapRange_run (by omega)]

omit hg in
/-- Past the next block the walk reaches the latest one if that comes right after it. -/
lemma Store.marks_reach (cfg : Config) (s : Store) (n : ℕ) : (s.marks cfg).reach n =
    if n + 1 = latestOrSeed cfg s.db then latestOrSeed cfg s.db else n := rfl

/-- The walk from the next block reaches `Marks.reach`, or overflows there. -/
lemma walkFrom_reach (h : n = highestContiguous s.db + 1) :
    (walkFrom (max (latestOrSeed cfg s.db) n) n).run s.db =
      if (s.marks cfg).reach n = u64Max then none else some ((s.marks cfg).reach n) := by
  obtain ⟨hcan, -, -, hok⟩ := hg
  have hlt : highestContiguous s.db < u64Max := hok.highest_lt
  have hle : latestOrSeed cfg s.db ≤ u64Max := hok.latest_le
  have hhl : highestContiguous s.db ≤ latestOrSeed cfg s.db := hok.highest_le
  have habove : ∀ {m}, highestContiguous s.db < m →
      (Covers s.db.gaps m ↔ m < latestOrSeed cfg s.db) := hok.above
  have hr := s.marks_reach cfg n
  by_cases hadj : n + 1 = latestOrSeed cfg s.db
  · rw [if_pos hadj] at hr
    rw [max_eq_left (by omega), walkFrom_step hcan (by omega) (by omega)
      (by rw [habove (by omega)]; omega), hr, ← hadj]
    split
    · next hmax => rw [hmax]; exact walkFrom_fault s.db
    · exact walkFrom_stop hcan (by omega) (Or.inl (by omega))
  · rw [if_neg hadj] at hr
    rw [hr]
    split
    · next hmax => rw [hmax]; exact walkFrom_fault s.db
    · refine walkFrom_stop hcan (by omega) ?_
      rcases Nat.lt_or_ge (n + 1) (latestOrSeed cfg s.db) with h1 | h1
      · exact Or.inr ((habove (by omega)).mpr h1)
      · exact Or.inl (by omega)

lemma contiguousOps_next (h : n = highestContiguous s.db + 1) :
    (contiguousOps n (max (latestOrSeed cfg s.db) n) (highestContiguous s.db)).run s.db =
      if (s.marks cfg).reach n = u64Max then none
      else some (setHighestContiguous ((s.marks cfg).reach n)) := by
  have hlt : highestContiguous s.db < u64Max := hg.ok.highest_lt
  unfold contiguousOps
  rw [addU64_of_le (by omega)]
  change (if n > highestContiguous s.db + 1 then _ else _ : Prog Db WriteBatch).run s.db = _
  rw [if_neg (by omega), if_pos h, Prog.run_bind, walkFrom_reach hg h]
  split <;> rfl

/-- At or below the frontier the walk does not move. -/
lemma contiguousOps_below (h : n ≤ highestContiguous s.db) :
    (contiguousOps n (max (latestOrSeed cfg s.db) n) (highestContiguous s.db)).run s.db =
      some (splitGap n (gapAt s.db.gaps n) ++ setHighestContiguous (highestContiguous s.db)) := by
  obtain ⟨hcan, -, -, hok⟩ := hg
  have hlt : highestContiguous s.db < u64Max := hok.highest_lt
  have hhl : highestContiguous s.db ≤ latestOrSeed cfg s.db := hok.highest_le
  have hne : latestOrSeed cfg s.db ≠ highestContiguous s.db + 1 := hok.latest_ne
  have habove : ∀ {m}, highestContiguous s.db < m →
      (Covers s.db.gaps m ↔ m < latestOrSeed cfg s.db) := hok.above
  have hwalk : (walkFrom (max (latestOrSeed cfg s.db) n) (highestContiguous s.db)).run s.db =
      some (highestContiguous s.db) := by
    refine walkFrom_stop hcan hlt ?_
    rcases Nat.lt_or_ge (highestContiguous s.db) (latestOrSeed cfg s.db) with h1 | h1
    · exact Or.inr ((habove (by omega)).mpr (by omega))
    · exact Or.inl (by omega)
  unfold contiguousOps
  rw [addU64_of_le (by omega)]
  change (if n > highestContiguous s.db + 1 then _ else _ : Prog Db WriteBatch).run s.db = _
  rw [if_neg (by omega), if_neg (by omega)]
  simp [hwalk]

end Batch

/-! ### The commit -/

lemma Store.committed_cons (db : Db) (n : ℕ) (block : Block) (log : List (ℕ × Block)) :
    {m | Store.Committed ⟨db, (n, block) :: log⟩ m} =
      insert n {m | Store.Committed ⟨db, log⟩ m} := by
  ext m
  simp only [Store.Committed, List.mem_cons, Prod.mk.injEq, Set.mem_ofPred_eq,
    Set.mem_insert_iff]
  constructor
  · rintro ⟨b, (⟨rfl, -⟩ | h)⟩
    · exact Or.inl rfl
    · exact Or.inr ⟨b, h⟩
  · rintro (rfl | ⟨b, h⟩)
    · exact ⟨block, Or.inl ⟨rfl, rfl⟩⟩
    · exact ⟨b, Or.inr h⟩

/-- The marks after a commit, read off the part of the batch that `contiguousOps` prepared. -/
lemma Store.marks_commit (cfg : Config) (codec : Codec) (s : Store) (block : Block) (n : ℕ)
    {ops : WriteBatch} (hops : ∀ o ∈ ops, o.isContiguous = true) :
    Store.marks cfg ⟨commitBatch (fullBatch cfg codec block n (s.db.metadata .latestPersisted)
      (s.db.metadata .trueEarliestPersisted) (s.db.metadata .earliestHot) ops) s.db,
      (n, block) :: s.log⟩ =
    ⟨(batchMeta ops s.db.metadata .highestContiguous).getD 0, max (latestOrSeed cfg s.db) n,
      {m | Covers (batchGaps ops s.db.gaps) m}, insert n {m | s.Committed m}⟩ := by
  unfold Store.marks
  congr 1
  · simp only [highestContiguous, commitBatch_metadata, fullBatch_highest]
  · simp only [latestOrSeed, commitBatch_metadata, fullBatch_latest _ _ _ _ _ _ _ hops]
    split
    · next h => rw [Option.getD_some, max_eq_right h.le]
    · next h => rw [max_eq_left (by omega)]
  · simp only [commitBatch_gaps, fullBatch_gaps]
  · exact Store.committed_cons _ _ _ _

/-- What is left to show of a branch of `write_block`: the batch it makes, and the marks that the
commit of it leaves. -/
lemma Store.write_of_run {cfg : Config} {s : Store} (hg : s.Good cfg) {codec : Codec}
    {block : Block} {n : ℕ} (hn : getBlockNumber block = some n) {ops : WriteBatch} {w : Marks}
    (hrun : (contiguousOps n (max (latestOrSeed cfg s.db) n) (highestContiguous s.db)).run s.db =
      some ops)
    (hcan : Canonical (batchGaps ops s.db.gaps)) (hbnd : GapsBounded (batchGaps ops s.db.gaps))
    (hsome : batchMeta ops s.db.metadata .highestContiguous ≠ none)
    (hw : (⟨(batchMeta ops s.db.metadata .highestContiguous).getD 0,
      max (latestOrSeed cfg s.db) n, {m | Covers (batchGaps ops s.db.gaps) m},
      insert n {m | s.Committed m}⟩ : Marks) = w)
    (hwrite : (s.marks cfg).write n = some w) :
    (s.write cfg codec block).Good cfg ∧ (s.write cfg codec block).marks cfg = w := by
  have hops := (contiguousOps_ensures _ _ _).of_run hrun
  have hs : s.write cfg codec block =
      ⟨commitBatch (fullBatch cfg codec block n (s.db.metadata .latestPersisted)
        (s.db.metadata .trueEarliestPersisted) (s.db.metadata .earliestHot) ops) s.db,
        (n, block) :: s.log⟩ := by
    simp only [Store.write, hn, prepareBatch_run, hrun, Option.map_some]
  have hmarks : (s.write cfg codec block).marks cfg = w := by
    rw [hs, Store.marks_commit cfg codec s block n hops, hw]
  refine ⟨⟨?_, ?_, ?_, ?_⟩, hmarks⟩
  · rw [hs]
    simpa only [commitBatch_gaps, fullBatch_gaps] using hcan
  · rw [hs]
    simp only [commitBatch_gaps, fullBatch_gaps]
    exact hbnd
  · rw [hs]
    simpa only [commitBatch_metadata, fullBatch_highest] using hsome
  · rw [hmarks]
    exact Marks.write_ok hg.ok (getBlockNumber_le hn) hwrite

/-- **`write_block` is a write on the marks.** It keeps the store good; when the walk would run
past the last `u64` it fails and changes nothing. -/
theorem Store.write_refines {cfg : Config} {s : Store} (hg : s.Good cfg) (codec : Codec)
    {block : Block} {n : ℕ} (hn : getBlockNumber block = some n) :
    match (s.marks cfg).write n with
    | some w => (s.write cfg codec block).Good cfg ∧ (s.write cfg codec block).marks cfg = w
    | none => s.write cfg codec block = s := by
  have hmax := getBlockNumber_le hn
  have hset := hg.set
  have hhl : highestContiguous s.db ≤ latestOrSeed cfg s.db := hg.ok.highest_le
  have hcur : (s.db.metadata .highestContiguous).getD 0 = highestContiguous s.db := rfl
  rcases Nat.lt_trichotomy n (highestContiguous s.db + 1) with hbr | hbr | hbr
  · -- at or below the frontier
    have hwrite : (s.marks cfg).write n =
        some ⟨highestContiguous s.db, latestOrSeed cfg s.db, {m | Covers s.db.gaps m} \ {n},
          insert n {m | s.Committed m}⟩ := by
      unfold Marks.write
      rw [if_neg (by simp only [Store.marks]; omega), if_neg (by simp only [Store.marks]; omega)]
      rfl
    obtain ⟨hcan, hbnd, hcov⟩ := splitGap_spec hg.canonical hg.bounded n
    have hgaps : batchGaps (splitGap n (gapAt s.db.gaps n) ++
        setHighestContiguous (highestContiguous s.db)) s.db.gaps =
        batchGaps (splitGap n (gapAt s.db.gaps n)) s.db.gaps := by
      rw [batchGaps_append]; rfl
    have hmeta : batchMeta (splitGap n (gapAt s.db.gaps n) ++
        setHighestContiguous (highestContiguous s.db)) s.db.metadata .highestContiguous =
        some (highestContiguous s.db) := by
      rw [batchMeta_append]; rfl
    rw [hwrite]
    refine Store.write_of_run hg hn (contiguousOps_below hg (by omega)) ?_ ?_ ?_ ?_ hwrite
    · rw [hgaps]; exact hcan
    · rw [hgaps]; exact hbnd
    · rw [hmeta]; simp
    · rw [hmeta, hgaps, max_eq_left (by omega)]
      congr 1
      ext m
      exact hcov m
  · -- the next block
    have hbr' : n = highestContiguous s.db + 1 := hbr
    have hrun := contiguousOps_next hg hbr'
    have hwrite : (s.marks cfg).write n = if (s.marks cfg).reach n = u64Max then none else
        some ⟨(s.marks cfg).reach n, max (latestOrSeed cfg s.db) n, {m | Covers s.db.gaps m},
          insert n {m | s.Committed m}⟩ := by
      unfold Marks.write
      rw [if_neg (by simp only [Store.marks]; omega), if_pos (by simp only [Store.marks]; omega)]
      rfl
    by_cases hreach : (s.marks cfg).reach n = u64Max
    · rw [if_pos hreach] at hwrite hrun
      rw [hwrite]
      simp only [Store.write, hn, prepareBatch_run, hrun, Option.map_none]
    · rw [if_neg hreach] at hwrite hrun
      rw [hwrite]
      refine Store.write_of_run hg hn hrun hg.canonical hg.bounded ?_ rfl hwrite
      simp [setHighestContiguous, batchMeta, Op.onMeta]
  · -- a jump
    have hwrite : (s.marks cfg).write n =
        some ⟨highestContiguous s.db, max (latestOrSeed cfg s.db) n,
          {m | Covers s.db.gaps m} ∪ {m | highestContiguous s.db < m ∧ m < n},
          insert n {m | s.Committed m}⟩ := by
      unfold Marks.write
      rw [if_pos (by simp only [Store.marks]; omega)]
      rfl
    obtain ⟨hcan, hbnd, hcov⟩ := addGapOps_spec hg.canonical hg.bounded
      (show highestContiguous s.db + 1 ≤ n - 1 by omega) (by omega)
    have hgap := addGapOps_isGap (highestContiguous s.db + 1) (n - 1)
      (s.db.gaps.seekLE (highestContiguous s.db + 1)) s.db.gaps.iterFrom
    have hmeta := batchMeta_of_isGap hgap s.db.metadata
    rw [hwrite]
    refine Store.write_of_run hg hn (contiguousOps_jump hg hbr _) hcan hbnd
      (by rw [hmeta]; exact hset) ?_ hwrite
    rw [hmeta, hcur]
    congr 1
    ext m
    simp only [Set.mem_ofPred_eq, Set.mem_union, hcov m]
    exact or_congr_right (by omega)

/-- Every call of `write_block` keeps the store good. -/
lemma Store.write_good {cfg : Config} {s : Store} (hg : s.Good cfg) (codec : Codec)
    (block : Block) : (s.write cfg codec block).Good cfg := by
  rcases hn : getBlockNumber block with _ | n
  · simpa only [Store.write, hn] using hg
  · have h := Store.write_refines hg codec hn
    rcases hw : (s.marks cfg).write n with _ | w
    · rw [hw] at h; rw [h]; exact hg
    · rw [hw] at h; exact h.1

/-- **Every sequence of calls from the empty store keeps it good.** -/
theorem Store.writes_good (cfg : Config) (codec : Codec) (blocks : List Block) :
    ((Store.init cfg).writes cfg codec blocks).Good cfg := by
  induction blocks using List.reverseRecOn with
  | nil => exact Store.init_good cfg
  | append_singleton blocks block ih =>
    simp only [Store.writes, List.foldl_append, List.foldl_cons, List.foldl_nil]
    exact Store.write_good ih codec block

end RockNode
