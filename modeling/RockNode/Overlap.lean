import RockNode.ArrivalOrder

/-!
Two calls of `write_block` side by side.

The live event loop and the backfill worker call `write_block` without a common lock. A call is
its sequence of reads followed by one commit, so of two calls one commits first, having read one
state only, and the other has made some of its reads before that commit and the rest after it.
-/

namespace RockNode

open RangeTable Prog

/-- The reads of one call; they end in the batch it commits. -/
def call (cfg : Config) (codec : Codec) (block : Block) : Prog Db (WriteBatch × Bool) :=
  match getBlockNumber block with
  | none => .fault
  | some n => prepareBatch cfg codec block n

def commitCall (prepared : WriteBatch × Bool) (db : Db) : Db := commitBatch prepared.1 db

/-- The watermarks and the gap table. -/
structure Tracked where
  latestPersisted : Option ℕ
  trueEarliestPersisted : Option ℕ
  highestContiguous : Option ℕ
  gaps : RangeTable

def Db.tracked (db : Db) : Tracked :=
  ⟨db.metadata .latestPersisted, db.metadata .trueEarliestPersisted,
    db.metadata .highestContiguous, db.gaps⟩

/-- The database after one call that runs alone. -/
def Db.write (cfg : Config) (codec : Codec) (db : Db) (block : Block) : Db :=
  (writeBlock cfg codec block db).1

/-- However the steps of the two calls are interleaved, they leave what one of them after the
other would leave. -/
def Serializable (cfg : Config) (codec : Codec) (db : Db) (a b : Block) : Prop :=
  ∀ db', Interleaves commitCall (call cfg codec a) (call cfg codec b) db db' →
    db'.tracked = ((db.write cfg codec a).write cfg codec b).tracked ∨
      db'.tracked = ((db.write cfg codec b).write cfg codec a).tracked

lemma settle_call (cfg : Config) (codec : Codec) (block : Block) (db : Db) :
    settle commitCall ((call cfg codec block).run db) db = db.write cfg codec block := by
  unfold call Db.write writeBlock
  rcases getBlockNumber block with _ | n
  · rfl
  · simp only
    rcases (prepareBatch cfg codec block n).run db with _ | ⟨batch, gap⟩ <;> rfl

/-- What `a` and `b` leave when `a` commits first and `b` has made `j` reads by then. -/
def overlap (cfg : Config) (codec : Codec) (db : Db) (a b : Block) (j : ℕ) : Db :=
  settle commitCall (runSplit j db (db.write cfg codec a) (call cfg codec b))
    (db.write cfg codec a)

lemma overlapped_call (cfg : Config) (codec : Codec) (db : Db) (a b : Block) (j : ℕ) :
    overlapped commitCall (call cfg codec a) (call cfg codec b) db j =
      overlap cfg codec db a b j := by
  unfold overlapped overlap
  rw [settle_call]

/-- When `a` commits first, then however much `b` has read by then, the two leave what one of
the two orders would leave. -/
def SerialAfter (cfg : Config) (codec : Codec) (db : Db) (a b : Block) : Prop :=
  ∀ j, (overlap cfg codec db a b j).tracked =
      ((db.write cfg codec a).write cfg codec b).tracked ∨
    (overlap cfg codec db a b j).tracked = ((db.write cfg codec b).write cfg codec a).tracked

lemma serializable_iff_serialAfter (cfg : Config) (codec : Codec) (db : Db) (a b : Block) :
    Serializable cfg codec db a b ↔
      SerialAfter cfg codec db a b ∧ SerialAfter cfg codec db b a := by
  unfold Serializable SerialAfter
  simp only [interleaves_iff, overlapped_call]
  constructor
  · exact fun h => ⟨fun j => h _ (Or.inl ⟨j, rfl⟩), fun j => (h _ (Or.inr ⟨j, rfl⟩)).symm⟩
  · rintro ⟨h₁, h₂⟩ db' (⟨j, rfl⟩ | ⟨j, rfl⟩)
    · exact h₁ j
    · exact (h₂ j).symm

/-! ### The reads of a call that is overtaken -/

/-- The end of `prepareBatch`, after the reads of the watermarks. -/
def finishBatch (cfg : Config) (codec : Codec) (block : Block) (n : ℕ) (gap : Option (ℕ × ℕ))
    (persisted earliest : Option ℕ) (current : ℕ) : Prog Db (WriteBatch × Bool) := do
  let contiguous ← contiguousOps n (max (persisted.getD cfg.seed) n) current
  let hot ← initializeEarliestHot n
  pure (addBlockToBatch codec block n
    ++ (if max (persisted.getD cfg.seed) n > persisted.getD cfg.seed then
        setLatestPersisted (max (persisted.getD cfg.seed) n) else [])
    ++ (if earliest.isNone then setTrueEarliestPersisted n else [])
    ++ contiguous ++ hot, gap.isSome)

lemma findContainingGap_split (n j : ℕ) (db db' : Db) :
    ∃ gap, (gap = gapAt db.gaps n ∨ gap = gapAt db'.gaps n) ∧
      runSplit j db db' (findContainingGap n) = some gap := by
  rcases runSplit_get_cases j db db' (fun db => db.gaps.seekLE n)
    (fun entry => pure (containing n entry)) with h | ⟨i, h⟩
  · exact ⟨_, Or.inr rfl, h⟩
  · exact ⟨_, Or.inl rfl, h.trans (runSplit_pure i db db' _)⟩

lemma initializeEarliestHot_split (n j : ℕ) (db db' : Db) :
    ∃ hot : Option ℕ, runSplit j db db' (initializeEarliestHot n) =
      some (if hot.isNone then setEarliestHot n else []) := by
  rcases runSplit_get_cases j db db' (fun db => db.metadata .earliestHot)
    (fun earliest => pure (if earliest.isNone then setEarliestHot n else [])) with h | ⟨k, h⟩
  · exact ⟨_, h⟩
  · exact ⟨_, h.trans (runSplit_pure k db db' _)⟩

lemma finishBatch_split (cfg : Config) (codec : Codec) (block : Block) (n : ℕ)
    (gap : Option (ℕ × ℕ)) (persisted earliest : Option ℕ) (current j : ℕ) (db db' : Db) :
    ∃ k hot, runSplit j db db' (finishBatch cfg codec block n gap persisted earliest current) =
      (runSplit k db db' (contiguousOps n (max (persisted.getD cfg.seed) n) current)).map
        fun ops => (fullBatch cfg codec block n persisted earliest hot ops, gap.isSome) := by
  -- the last read goes into `earliest_hot` only
  have hlast : ∀ (ops : WriteBatch) (i : ℕ), ∃ hot, runSplit i db db' (do
      let hot ← initializeEarliestHot n
      pure (addBlockToBatch codec block n
        ++ (if max (persisted.getD cfg.seed) n > persisted.getD cfg.seed then
            setLatestPersisted (max (persisted.getD cfg.seed) n) else [])
        ++ (if earliest.isNone then setTrueEarliestPersisted n else [])
        ++ ops ++ hot, gap.isSome)) =
      some (fullBatch cfg codec block n persisted earliest hot ops, gap.isSome) := by
    intro ops i
    rcases runSplit_bind_cases i db db' (initializeEarliestHot n) _ with
      ⟨out, k, h1, h2⟩ | ⟨k, h⟩
    · cases h1
      exact ⟨_, h2.trans (runSplit_pure k db db' _)⟩
    · obtain ⟨hot, hhot⟩ := initializeEarliestHot_split n k db db'
      rw [hhot] at h
      exact ⟨hot, h⟩
  rcases runSplit_bind_cases j db db'
    (contiguousOps n (max (persisted.getD cfg.seed) n) current) _ with ⟨ops, i, h1, h2⟩ | ⟨k, h⟩
  · obtain ⟨hot, hhot⟩ := hlast ops i
    obtain ⟨k, hk⟩ := exists_runSplit_eq_run db db'
      (contiguousOps n (max (persisted.getD cfg.seed) n) current)
    exact ⟨k, hot, by rw [hk, h1]; exact h2.trans hhot⟩
  · rcases hr : runSplit k db db'
      (contiguousOps n (max (persisted.getD cfg.seed) n) current) with _ | ops
    · rw [hr] at h
      exact ⟨k, none, by rw [hr]; exact h⟩
    · rw [hr] at h
      obtain ⟨hot, hhot⟩ := hlast ops 0
      rw [runSplit_zero] at hhot
      exact ⟨k, hot, by rw [hr]; exact h.trans hhot⟩

/-- What a call for `n` reads of `latest_persisted` and `true_earliest_persisted`, and the part
of its batch that `contiguousOps` prepares, when the database changes from `db` to `db'` while it
reads: the first watermarks it reads may be old ones. -/
inductive SplitReads (cfg : Config) (n : ℕ) (db db' : Db) :
    Option ℕ → Option ℕ → Option WriteBatch → Prop
  | new : SplitReads cfg n db db' (db'.metadata .latestPersisted)
      (db'.metadata .trueEarliestPersisted)
      ((contiguousOps n (max (latestOrSeed cfg db') n) (highestContiguous db')).run db')
  | latest : SplitReads cfg n db db' (db.metadata .latestPersisted)
      (db'.metadata .trueEarliestPersisted)
      ((contiguousOps n (max (latestOrSeed cfg db) n) (highestContiguous db')).run db')
  | earliest : SplitReads cfg n db db' (db.metadata .latestPersisted)
      (db.metadata .trueEarliestPersisted)
      ((contiguousOps n (max (latestOrSeed cfg db) n) (highestContiguous db')).run db')
  | highest (k : ℕ) : SplitReads cfg n db db' (db.metadata .latestPersisted)
      (db.metadata .trueEarliestPersisted)
      (runSplit k db db' (contiguousOps n (max (latestOrSeed cfg db) n) (highestContiguous db)))

lemma prepareBatch_split (cfg : Config) (codec : Codec) (block : Block) (n : ℕ) (db db' : Db)
    (j : ℕ) : ∃ persisted earliest ops hot gap, SplitReads cfg n db db' persisted earliest ops ∧
      runSplit j db db' (prepareBatch cfg codec block n) =
        ops.map fun ops => (fullBatch cfg codec block n persisted earliest hot ops, gap) := by
  -- the run on the new state alone, from any of the reads on
  have hrun : ∀ gap persisted earliest current, ∃ hot,
      (finishBatch cfg codec block n gap persisted earliest current).run db' =
      ((contiguousOps n (max (persisted.getD cfg.seed) n) current).run db').map
        fun ops => (fullBatch cfg codec block n persisted earliest hot ops, gap.isSome) := by
    intro gap persisted earliest current
    obtain ⟨k, hot, h⟩ := finishBatch_split cfg codec block n gap persisted earliest current 0
      db' db'
    rw [runSplit_same, runSplit_same] at h
    exact ⟨hot, h⟩
  obtain ⟨gap, i, hgap⟩ : ∃ gap i, runSplit j db db' (prepareBatch cfg codec block n) =
      runSplit i db db' (getLatestPersisted >>= fun persisted => getTrueEarliestPersisted >>=
        fun earliest => getHighestContiguous >>=
          finishBatch cfg codec block n gap persisted earliest) := by
    rcases runSplit_bind_cases j db db' (findContainingGap n) _ with ⟨gap, i, -, h⟩ | ⟨k, h⟩
    · exact ⟨gap, i, h⟩
    · obtain ⟨gap, -, hfind⟩ := findContainingGap_split n k db db'
      rw [hfind] at h
      exact ⟨gap, 0, h.trans (runSplit_zero db db' _).symm⟩
  rw [hgap]
  rcases runSplit_get_cases i db db' (fun db => db.metadata .latestPersisted) _ with h | ⟨i, h⟩
  · obtain ⟨hot, hhot⟩ := hrun gap (db'.metadata .latestPersisted)
      (db'.metadata .trueEarliestPersisted) (highestContiguous db')
    exact ⟨_, _, _, hot, _, .new, h.trans hhot⟩
  rw [getLatestPersisted, h]
  rcases runSplit_get_cases i db db' (fun db => db.metadata .trueEarliestPersisted) _ with
    h | ⟨i, h⟩
  · obtain ⟨hot, hhot⟩ := hrun gap (db.metadata .latestPersisted)
      (db'.metadata .trueEarliestPersisted) (highestContiguous db')
    exact ⟨_, _, _, hot, _, .latest, h.trans hhot⟩
  rw [getTrueEarliestPersisted, h]
  rcases runSplit_get_cases i db db' highestContiguous _ with h | ⟨i, h⟩
  · obtain ⟨hot, hhot⟩ := hrun gap (db.metadata .latestPersisted)
      (db.metadata .trueEarliestPersisted) (highestContiguous db')
    exact ⟨_, _, _, hot, _, .earliest, h.trans hhot⟩
  obtain ⟨k, hot, hhot⟩ := finishBatch_split cfg codec block n gap (db.metadata .latestPersisted)
    (db.metadata .trueEarliestPersisted) (highestContiguous db) i db db'
  exact ⟨_, _, _, hot, _, .highest k, h.trans hhot⟩

/-! ### What the overtaken call leaves -/

/-- The commit of a call for `n` that has read `persisted` and `earliest` and prepared `ops`. -/
def Tracked.commit (cfg : Config) (t : Tracked) (n : ℕ) (persisted earliest : Option ℕ) :
    Option WriteBatch → Tracked
  | none => t
  | some ops =>
    ⟨if persisted.getD cfg.seed < n then some n else t.latestPersisted,
      if earliest.isNone then some n else t.trueEarliestPersisted,
      batchMeta ops (fun _ => t.highestContiguous) .highestContiguous, batchGaps ops t.gaps⟩

lemma tracked_commitBatch (cfg : Config) (codec : Codec) (block : Block) (n : ℕ)
    (p e h : Option ℕ) {ops : WriteBatch} (hops : ∀ o ∈ ops, o.isContiguous = true) (db : Db) :
    (commitBatch (fullBatch cfg codec block n p e h ops) db).tracked =
      db.tracked.commit cfg n p e (some ops) := by
  simp only [Db.tracked, Tracked.commit, commitBatch_metadata, commitBatch_gaps, fullBatch_gaps,
    fullBatch_latest _ _ _ _ _ _ _ hops, fullBatch_trueEarliest _ _ _ _ _ _ _ hops,
    fullBatch_highest, Tracked.mk.injEq, true_and, and_true]
  exact batchMeta_congr ops rfl

lemma write_tracked (cfg : Config) (codec : Codec) (db : Db) {block : Block} {n : ℕ}
    (hn : getBlockNumber block = some n) :
    (db.write cfg codec block).tracked =
      db.tracked.commit cfg n (db.metadata .latestPersisted) (db.metadata .trueEarliestPersisted)
        ((contiguousOps n (max (latestOrSeed cfg db) n) (highestContiguous db)).run db) := by
  simp only [Db.write, writeBlock, hn, prepareBatch_run]
  rcases hrun : (contiguousOps n (max (latestOrSeed cfg db) n) (highestContiguous db)).run db with
    _ | ops
  · rfl
  · exact tracked_commitBatch cfg codec block n _ _ _ ((contiguousOps_ensures _ _ _).of_run hrun)
      db

lemma SplitReads.isContiguous {cfg : Config} {n : ℕ} {db db' : Db} {p e : Option ℕ}
    {ops : WriteBatch} (h : SplitReads cfg n db db' p e (some ops)) :
    ∀ o ∈ ops, o.isContiguous = true := by
  generalize ho : some ops = o at h
  cases h with
  | highest k => exact (contiguousOps_ensures _ _ _).of_runSplit ho.symm
  | _ => exact (contiguousOps_ensures _ _ _).of_run ho.symm

/-- **What the second call leaves**, by what it has read. -/
theorem overlap_tracked (cfg : Config) (codec : Codec) (db : Db) (a : Block) {b : Block} {n : ℕ}
    (hn : getBlockNumber b = some n) (j : ℕ) :
    ∃ persisted earliest ops, SplitReads cfg n db (db.write cfg codec a) persisted earliest ops ∧
      (overlap cfg codec db a b j).tracked =
        (db.write cfg codec a).tracked.commit cfg n persisted earliest ops := by
  obtain ⟨p, e, ops, hot, gap, hreads, hsplit⟩ :=
    prepareBatch_split cfg codec b n db (db.write cfg codec a) j
  refine ⟨p, e, ops, hreads, ?_⟩
  simp only [overlap, call, hn, hsplit]
  rcases ops with _ | ops
  · rfl
  · exact tracked_commitBatch cfg codec b n p e hot hreads.isContiguous _

/-- The second call may have made all its reads before the first one commits. -/
lemma exists_overlap_blind (cfg : Config) (codec : Codec) (db : Db) (a : Block) {b : Block}
    {n : ℕ} (hn : getBlockNumber b = some n) :
    ∃ j, (overlap cfg codec db a b j).tracked =
      (db.write cfg codec a).tracked.commit cfg n (db.metadata .latestPersisted)
        (db.metadata .trueEarliestPersisted)
        ((contiguousOps n (max (latestOrSeed cfg db) n) (highestContiguous db)).run db) := by
  obtain ⟨j, hj⟩ := exists_runSplit_eq_run db (db.write cfg codec a) (call cfg codec b)
  refine ⟨j, ?_⟩
  simp only [overlap, hj]
  simp only [call, hn, prepareBatch_run]
  rcases hrun : (contiguousOps n (max (latestOrSeed cfg db) n) (highestContiguous db)).run db with
    _ | ops
  · rfl
  · exact tracked_commitBatch cfg codec b n _ _ _ ((contiguousOps_ensures _ _ _).of_run hrun) _

/-! ### The branches of an overtaken call -/

section Branches

variable {db db' : Db} {n newLatest current : ℕ}

/-- The walk stops where it would stop on either of the two states. -/
lemma walkFrom_split_stop (hc : Canonical db.gaps) (hc' : Canonical db'.gaps)
    (hlt : current < u64Max)
    (h : newLatest < current + 1 ∨ Covers db.gaps (current + 1) ∧ Covers db'.gaps (current + 1))
    (j : ℕ) : runSplit j db db' (walkFrom newLatest current) = some current := by
  unfold walkFrom
  rw [addU64_of_le (by omega)]
  change runSplit j db db' (walk newLatest (newLatest + 1 - (current + 1)) current (current + 1)) =
    _
  rcases hf : newLatest + 1 - (current + 1) with _ | fuel
  · exact runSplit_pure j db db' current
  · obtain ⟨hcov, hcov'⟩ := h.resolve_left (by omega)
    simp only [walk, show current + 1 ≤ newLatest by omega, if_true]
    have hgap : ∀ gap, (gap = gapAt db.gaps (current + 1) ∨ gap = gapAt db'.gaps (current + 1)) →
        gap.isSome = true := by
      rintro gap (rfl | rfl)
      · exact (gapAt_isSome hc _).mpr hcov
      · exact (gapAt_isSome hc' _).mpr hcov'
    rcases runSplit_bind_cases j db db' (findContainingGap (current + 1)) _ with
      ⟨gap, k, h1, h2⟩ | ⟨k, h2⟩
    · rw [h2, if_pos (hgap gap (Or.inl (by cases h1; rfl)))]
      exact runSplit_pure k db db' current
    · obtain ⟨gap, hmem, hfind⟩ := findContainingGap_split (current + 1) k db db'
      rw [h2, hfind, Option.bind_some, if_pos (hgap gap hmem)]
      rfl

/-- At the end of the `u64` range the walk faults when neither state records the last number. -/
lemma walkFrom_split_fault (hc : Canonical db.gaps) (hc' : Canonical db'.gaps)
    (hcov : ¬ Covers db.gaps u64Max) (hcov' : ¬ Covers db'.gaps u64Max)
    (h : current = u64Max ∨ (current + 1 = u64Max ∧ newLatest = u64Max)) (j : ℕ) :
    runSplit j db db' (walkFrom newLatest current) = none := by
  unfold walkFrom
  rcases h with rfl | ⟨h, rfl⟩
  · rw [addU64_of_gt (by omega)]
    exact runSplit_fault j db db'
  rw [addU64_of_le (by omega), h]
  change runSplit j db db' (walk u64Max (u64Max + 1 - u64Max) current u64Max) = none
  rw [show u64Max + 1 - u64Max = 0 + 1 by omega]
  simp only [walk, le_refl, if_true]
  have hgap : ∀ gap, (gap = gapAt db.gaps u64Max ∨ gap = gapAt db'.gaps u64Max) →
      gap.isSome = false := by
    rintro gap (rfl | rfl)
    · rw [(gapAt_eq_none hc _).mpr hcov]; rfl
    · rw [(gapAt_eq_none hc' _).mpr hcov']; rfl
  rcases runSplit_get_cases j db db' (fun db => gapAt db.gaps u64Max) _ with h2 | ⟨k, h2⟩
  · refine h2.trans ?_
    rw [hgap _ (Or.inr rfl), addU64_of_gt (by omega)]
    rfl
  · refine h2.trans ?_
    rw [hgap _ (Or.inl rfl), addU64_of_gt (by omega)]
    exact runSplit_fault k db db'

/-- At or below the watermark: the gap around the block is the one before or after. -/
lemma contiguousOps_below_split (h : n ≤ current) (hlt : current < u64Max)
    (hwalk : ∀ k, runSplit k db db' (walkFrom newLatest current) = some current) (j : ℕ) :
    ∃ gap, (gap = gapAt db.gaps n ∨ gap = gapAt db'.gaps n) ∧
      runSplit j db db' (contiguousOps n newLatest current) =
        some (splitGap n gap ++ setHighestContiguous current) := by
  have hrest : ∀ (fill : WriteBatch) i, runSplit i db db' (do
      let highest ← walkFrom newLatest current
      pure (fill ++ setHighestContiguous highest)) =
      some (fill ++ setHighestContiguous current) := by
    intro fill i
    rcases runSplit_bind_of_const hwalk (fun highest =>
      (pure (fill ++ setHighestContiguous highest) : Prog Db WriteBatch)) i with
      ⟨hnone, -⟩ | ⟨highest, k, hsome, hk⟩
    · cases hnone
    · cases hsome
      exact hk.trans (runSplit_pure k db db' _)
  unfold contiguousOps
  rw [addU64_of_le (by omega)]
  change ∃ gap, _ ∧ runSplit j db db' (if n > current + 1 then _ else _ : Prog Db WriteBatch) = _
  rw [if_neg (by omega), if_neg (by omega)]
  rcases runSplit_get_cases j db db' (fun db => splitGap n (gapAt db.gaps n)) _ with h2 | ⟨k, h2⟩
  · refine ⟨_, Or.inr rfl, h2.trans ?_⟩
    rw [← runSplit_zero db db', hrest]
  · exact ⟨_, Or.inl rfl, h2.trans (hrest _ k)⟩

/-- The next block: only the walk matters. -/
lemma contiguousOps_next_split (h : n = current + 1) (hlt : current < u64Max) {o : Option ℕ}
    (hwalk : ∀ k, runSplit k db db' (walkFrom newLatest n) = o) (j : ℕ) :
    runSplit j db db' (contiguousOps n newLatest current) = o.map setHighestContiguous := by
  unfold contiguousOps
  rw [addU64_of_le (by omega)]
  change runSplit j db db' (if n > current + 1 then _ else _ : Prog Db WriteBatch) = _
  rw [if_neg (by omega), if_pos h]
  rcases runSplit_bind_of_const hwalk (fun highest =>
    (pure (setHighestContiguous highest) : Prog Db WriteBatch)) j with
    ⟨rfl, hnone⟩ | ⟨highest, k, rfl, hk⟩
  · exact hnone
  · exact hk.trans (runSplit_pure k db db' _)

/-- A jump: each of the two iterators may run over either state. -/
lemma contiguousOps_jump_split (h : current + 1 < n) (hlt : current < u64Max) (j : ℕ) :
    ∃ left right, (left = db ∨ left = db') ∧ (right = db ∨ right = db') ∧
      runSplit j db db' (contiguousOps n newLatest current) =
        some (addGapOps (current + 1) (n - 1) (left.gaps.seekLE (current + 1))
          right.gaps.iterFrom) := by
  unfold contiguousOps
  rw [addU64_of_le (by omega)]
  change ∃ left right, _ ∧ _ ∧
    runSplit j db db' (if n > current + 1 then _ else _ : Prog Db WriteBatch) = _
  rw [if_pos h]
  unfold addGapRange
  rw [if_neg (by omega)]
  rcases runSplit_get_cases j db db' (fun db => db.gaps.seekLE (current + 1)) _ with
    h2 | ⟨k, h2⟩
  · exact ⟨db', db', Or.inr rfl, Or.inr rfl, h2⟩
  rcases runSplit_get_cases k db db' (fun db' => db'.gaps.iterFrom
    (mergeLeft (current + 1) (n - 1) (db.gaps.seekLE (current + 1))).1) _ with h3 | ⟨i, h3⟩
  · exact ⟨db, db', Or.inl rfl, Or.inr rfl, h2.trans h3⟩
  · exact ⟨db, db, Or.inl rfl, Or.inl rfl, h2.trans (h3.trans (runSplit_pure i db db' _))⟩

end Branches

/-! ### `contiguousOps` reads the gap table only -/

lemma addU64_readsOnly (a b : ℕ) : ReadsOnly Db.gaps (addU64 a b) := by
  unfold addU64
  split
  · exact .ret _
  · exact .fault

lemma walk_readsOnly (newLatest fuel current next : ℕ) :
    ReadsOnly Db.gaps (walk newLatest fuel current next) := by
  induction fuel generalizing current next with
  | zero => exact .ret _
  | succ fuel ih =>
    unfold walk
    split
    · refine (readsOnly_get fun gaps => gapAt gaps next).bind fun gap => ?_
      split
      · exact .ret _
      · exact (addU64_readsOnly next 1).bind fun next' => ih next next'
    · exact .ret _

lemma walkFrom_readsOnly (newLatest current : ℕ) :
    ReadsOnly Db.gaps (walkFrom newLatest current) :=
  (addU64_readsOnly current 1).bind fun next => walk_readsOnly newLatest _ current next

lemma contiguousOps_readsOnly (n newLatest current : ℕ) :
    ReadsOnly Db.gaps (contiguousOps n newLatest current) := by
  refine (addU64_readsOnly current 1).bind fun next => ?_
  split
  · unfold addGapRange
    split
    · exact .ret _
    · refine (readsOnly_get fun gaps : RangeTable => gaps.seekLE next).bind fun left => ?_
      exact (readsOnly_get fun gaps : RangeTable => gaps.iterFrom _).bind fun right => .ret _
  · split
    · exact (walkFrom_readsOnly newLatest n).bind fun highest => .ret _
    · refine (readsOnly_get fun gaps => splitGap n (gapAt gaps n)).bind fun fill => ?_
      exact (walkFrom_readsOnly newLatest current).bind fun highest => .ret _

end RockNode
