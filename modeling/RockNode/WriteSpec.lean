import RockNode.Service

/-!
What one call of `write_block` writes.

The walk over the gap table, the batch the call prepares and the effect of its commit on each
column family, for a call that runs alone.
-/

namespace RockNode

open RangeTable

/-! ### Arithmetic and the walk -/

lemma addU64_of_le {a b : ℕ} (h : a + b ≤ u64Max) : addU64 a b = .ret (a + b) := by
  simp [addU64, checkedAdd, h]

lemma addU64_of_gt {a b : ℕ} (h : u64Max < a + b) : addU64 a b = .fault := by
  simp [addU64, checkedAdd, Nat.not_le.mpr h]

lemma walkFrom_fault {newLatest : ℕ} (db : Db) : (walkFrom newLatest u64Max).run db = none := by
  unfold walkFrom
  rw [addU64_of_gt (by omega)]
  rfl

/-- The walk stops at the end of the stored range and in front of a recorded gap. -/
lemma walkFrom_stop {newLatest current : ℕ} {db : Db} (hc : Canonical db.gaps)
    (hlt : current < u64Max) (h : newLatest < current + 1 ∨ Covers db.gaps (current + 1)) :
    (walkFrom newLatest current).run db = some current := by
  unfold walkFrom
  rw [addU64_of_le (by omega)]
  change (walk newLatest (newLatest + 1 - (current + 1)) current (current + 1)).run db = _
  rcases hf : newLatest + 1 - (current + 1) with _ | fuel
  · rfl
  · have hcov : (gapAt db.gaps (current + 1)).isSome = true :=
      (gapAt_isSome hc _).mpr (h.resolve_left (by omega))
    simp [walk, show current + 1 ≤ newLatest by omega, hcov]

/-- A number outside every recorded gap is taken to be stored. -/
lemma walkFrom_step {newLatest current : ℕ} {db : Db} (hc : Canonical db.gaps)
    (hlt : current < u64Max) (hle : current + 1 ≤ newLatest)
    (h : ¬ Covers db.gaps (current + 1)) :
    (walkFrom newLatest current).run db = (walkFrom newLatest (current + 1)).run db := by
  have hnone : gapAt db.gaps (current + 1) = none := (gapAt_eq_none hc _).mpr h
  unfold walkFrom
  rw [addU64_of_le (by omega)]
  change (walk newLatest (newLatest + 1 - (current + 1)) current (current + 1)).run db = _
  rw [show newLatest + 1 - (current + 1) = (newLatest + 1 - (current + 1 + 1)) + 1 by omega]
  simp only [walk, hle, if_true, Prog.run_bind, findContainingGap_run, Option.bind_some, hnone,
    Option.isSome_none, Bool.false_eq_true, if_false]
  rcases Nat.lt_or_ge (current + 1) u64Max with h1 | h1
  · rw [addU64_of_le (by omega)]
    rfl
  · rw [addU64_of_gt (by omega)]
    rfl

/-! ### Batches that touch only some of the column families -/

/-- The operations on the gap table. -/
def Op.isGap : Op → Bool
  | .putGap _ _ => true
  | .deleteGap _ => true
  | _ => false

/-- The operations of `contiguousOps`: on the gap table and on `highest_contiguous`. -/
def Op.isContiguous : Op → Bool
  | .putMeta .highestContiguous _ => true
  | o => o.isGap

lemma batchMeta_of_isGap {batch : WriteBatch} (h : ∀ o ∈ batch, o.isGap = true)
    (m : MetaKey → Option ℕ) : batchMeta batch m = m := by
  induction batch generalizing m with
  | nil => rfl
  | cons o batch ih =>
    have ho := h o (by simp)
    have hrest := ih (fun o' ho' => h o' (by simp [ho'])) m
    cases o <;> first | exact hrest | cases ho

/-- What a batch leaves under one key depends on what was there, not on the other keys. -/
lemma batchMeta_congr (batch : WriteBatch) {m m' : MetaKey → Option ℕ} {k : MetaKey}
    (h : m k = m' k) : batchMeta batch m k = batchMeta batch m' k := by
  induction batch generalizing m m' with
  | nil => exact h
  | cons o batch ih =>
    refine ih ?_
    cases o with
    | putMeta j v =>
      by_cases hj : k = j
      · subst hj; simp [Op.onMeta]
      · simp [Op.onMeta, Function.update_of_ne hj, h]
    | _ => exact h

lemma batchMeta_of_isContiguous {batch : WriteBatch} (h : ∀ o ∈ batch, o.isContiguous = true)
    (m : MetaKey → Option ℕ) {k : MetaKey} (hk : k ≠ .highestContiguous) :
    batchMeta batch m k = m k := by
  induction batch generalizing m with
  | nil => rfl
  | cons o batch ih =>
    have ho := h o (by simp)
    have hrest := fun m => ih (fun o' ho' => h o' (by simp [ho'])) m
    cases o with
    | putMeta j v =>
      cases j with
      | highestContiguous =>
        change batchMeta batch (Function.update m .highestContiguous (some v)) k = m k
        rw [hrest, Function.update_of_ne hk]
      | _ => cases ho
    | putGap a b => exact hrest m
    | deleteGap a => exact hrest m
    | _ => cases ho

/-- A batch none of whose operations touches the hot tier. -/
lemma batchHot_of_forall {batch : WriteBatch} (h : ∀ o ∈ batch, ∀ m, o.onHot m = m)
    (m : SortedMap ℕ Bytes) : batchHot batch m = m := by
  induction batch with
  | nil => rfl
  | cons o batch ih =>
    change batchHot batch (o.onHot m) = m
    rw [h o List.mem_cons_self, ih fun o' ho' => h o' (List.mem_cons_of_mem _ ho')]

lemma batchHot_of_isContiguous {batch : WriteBatch} (h : ∀ o ∈ batch, o.isContiguous = true)
    (m : SortedMap ℕ Bytes) : batchHot batch m = m := by
  refine batchHot_of_forall (fun o ho _ => ?_) m
  have hcontiguous := h o ho
  cases o with
  | putHot k v => cases hcontiguous
  | deleteHot k => cases hcontiguous
  | _ => rfl

lemma sweepForward_isGap (e : ℕ) (l : List (ℕ × ℕ)) :
    ∀ o ∈ (sweepForward e l).2, o.isGap = true := by
  induction l generalizing e with
  | nil => simp [sweepForward]
  | cons x l ih =>
    obtain ⟨k, v⟩ := x
    intro o ho
    unfold sweepForward at ho
    split at ho
    · simp at ho
    · rcases List.mem_cons.mp ho with rfl | ho'
      · rfl
      · exact ih _ o ho'

lemma addGapOps_isGap (start stop : ℕ) (left : Option (ℕ × ℕ)) (right : ℕ → List (ℕ × ℕ)) :
    ∀ o ∈ addGapOps start stop left right, o.isGap = true := by
  intro o ho
  rcases List.mem_append.mp ho with ho' | ho'
  · exact sweepForward_isGap _ _ o ho'
  · rw [List.mem_singleton.mp ho']; rfl

lemma splitGap_isGap (n : ℕ) (gap : Option (ℕ × ℕ)) : ∀ o ∈ splitGap n gap, o.isGap = true := by
  intro o ho
  rcases gap with _ | ⟨a, b⟩
  · simp [splitGap] at ho
  · simp only [splitGap, List.mem_cons, List.mem_append] at ho
    rcases ho with rfl | ho | ho
    · rfl
    all_goals
      split at ho
      · rw [List.mem_singleton.mp ho]; rfl
      · simp at ho

lemma isContiguous_of_isGap {o : Op} (h : o.isGap = true) : o.isContiguous = true := by
  cases o <;> first | rfl | cases h

/-- Whatever the call reads, it writes nothing but gaps and `highest_contiguous`. -/
lemma contiguousOps_ensures (n newLatest current : ℕ) :
    (contiguousOps n newLatest current).Ensures fun ops => ∀ o ∈ ops, o.isContiguous = true := by
  have hput : ∀ m, ∀ o ∈ setHighestContiguous m, o.isContiguous = true := by
    intro m o ho
    rw [List.mem_singleton.mp ho]; rfl
  refine (Prog.ensures_true _).bind fun next _ => ?_
  split
  · unfold addGapRange
    split
    · exact fun o ho => by cases ho
    · exact fun left right o ho => isContiguous_of_isGap (addGapOps_isGap next (n - 1) _ _ o ho)
  · split
    · exact (Prog.ensures_true _).bind fun highest _ => hput highest
    · refine Prog.Ensures.bind (P := fun fill => ∀ o ∈ fill, o.isContiguous = true) ?_ ?_
      · exact fun db o ho => isContiguous_of_isGap (splitGap_isGap _ _ o ho)
      · refine fun fill hfill => (Prog.ensures_true _).bind fun highest _ o ho => ?_
        rcases List.mem_append.mp ho with ho | ho
        · exact hfill o ho
        · exact hput highest o ho

/-! ### The prepared batch -/

/-- The batch of `write_block` around the part that `contiguousOps` prepares. -/
def fullBatch (cfg : Config) (codec : Codec) (block : Block) (n : ℕ) (persisted earliest hot :
    Option ℕ) (contiguous : WriteBatch) : WriteBatch :=
  addBlockToBatch codec block n
    ++ (if max (persisted.getD cfg.seed) n > persisted.getD cfg.seed then
        setLatestPersisted (max (persisted.getD cfg.seed) n) else [])
    ++ (if earliest.isNone then setTrueEarliestPersisted n else [])
    ++ contiguous ++ (if hot.isNone then setEarliestHot n else [])

lemma prepareBatch_run (cfg : Config) (codec : Codec) (block : Block) (n : ℕ) (db : Db) :
    (prepareBatch cfg codec block n).run db =
      ((contiguousOps n (max (latestOrSeed cfg db) n) (highestContiguous db)).run db).map
        fun ops => (fullBatch cfg codec block n (db.metadata .latestPersisted)
          (db.metadata .trueEarliestPersisted) (db.metadata .earliestHot) ops,
          (gapAt db.gaps n).isSome) := by
  simp only [prepareBatch, Prog.run_bind, findContainingGap_run, Option.bind_some,
    getLatestPersisted, getTrueEarliestPersisted, getHighestContiguous, Prog.run_get,
    initializeEarliestHot, getEarliestHot, Prog.run_pure, latestOrSeed, highestContiguous]
  rcases (contiguousOps n (max ((db.metadata .latestPersisted).getD cfg.seed) n)
    ((db.metadata .highestContiguous).getD 0)).run db with _ | ops
  · rfl
  · rfl

section Commit

variable (cfg : Config) (codec : Codec) (block : Block) (n : ℕ) (p e h : Option ℕ)
  {ops : WriteBatch} (hops : ∀ o ∈ ops, o.isContiguous = true)

lemma fullBatch_gaps (m : RangeTable) :
    batchGaps (fullBatch cfg codec block n p e h ops) m = batchGaps ops m := by
  unfold fullBatch
  rw [batchGaps_append, batchGaps_append, batchGaps_append, batchGaps_append]
  have h1 : batchGaps (addBlockToBatch codec block n) m = m := rfl
  rw [h1]
  split <;> split <;> split <;> rfl

include hops in
lemma fullBatch_hot (m : SortedMap ℕ Bytes) :
    batchHot (fullBatch cfg codec block n p e h ops) m =
      m.put n (codec.serialize (codec.encode block)) := by
  unfold fullBatch
  rw [batchHot_append, batchHot_append, batchHot_append, batchHot_append]
  have h1 : batchHot (addBlockToBatch codec block n) m =
      m.put n (codec.serialize (codec.encode block)) := rfl
  rw [h1]
  split <;> split <;> split <;> exact batchHot_of_isContiguous hops _

include hops in
lemma fullBatch_latest (m : MetaKey → Option ℕ) :
    batchMeta (fullBatch cfg codec block n p e h ops) m .latestPersisted =
      if p.getD cfg.seed < n then some n else m .latestPersisted := by
  unfold fullBatch
  rw [batchMeta_append, batchMeta_append, batchMeta_append, batchMeta_append]
  have h1 : batchMeta (addBlockToBatch codec block n) m = m := rfl
  have hhot : ∀ m' : MetaKey → Option ℕ,
      batchMeta (if h.isNone then setEarliestHot n else []) m' .latestPersisted =
        m' .latestPersisted := by
    intro m'; split <;> rfl
  have hearly : ∀ m' : MetaKey → Option ℕ,
      batchMeta (if e.isNone then setTrueEarliestPersisted n else []) m' .latestPersisted =
        m' .latestPersisted := by
    intro m'; split <;> rfl
  rw [h1, hhot, batchMeta_of_isContiguous hops _ (by decide), hearly]
  by_cases hlt : p.getD cfg.seed < n
  · rw [if_pos hlt, max_eq_right hlt.le, if_pos hlt]; rfl
  · rw [if_neg hlt, max_eq_left (by omega), if_neg (by omega)]; rfl

include hops in
lemma fullBatch_trueEarliest (m : MetaKey → Option ℕ) :
    batchMeta (fullBatch cfg codec block n p e h ops) m .trueEarliestPersisted =
      if e.isNone then some n else m .trueEarliestPersisted := by
  unfold fullBatch
  rw [batchMeta_append, batchMeta_append, batchMeta_append, batchMeta_append]
  have h1 : batchMeta (addBlockToBatch codec block n) m = m := rfl
  have hhot : ∀ m' : MetaKey → Option ℕ,
      batchMeta (if h.isNone then setEarliestHot n else []) m' .trueEarliestPersisted =
        m' .trueEarliestPersisted := by
    intro m'; split <;> rfl
  rw [h1, hhot, batchMeta_of_isContiguous hops _ (by decide)]
  split
  · rfl
  · split <;> rfl

include hops in
lemma fullBatch_earliestHot (m : MetaKey → Option ℕ) :
    batchMeta (fullBatch cfg codec block n p e h ops) m .earliestHot =
      if h.isNone then some n else m .earliestHot := by
  unfold fullBatch
  rw [batchMeta_append, batchMeta_append, batchMeta_append, batchMeta_append]
  have h1 : batchMeta (addBlockToBatch codec block n) m = m := rfl
  rw [h1]
  split
  · rfl
  · change batchMeta ops _ .earliestHot = _
    rw [batchMeta_of_isContiguous hops _ (by decide)]
    split <;> split <;> rfl

lemma fullBatch_highest (m : MetaKey → Option ℕ) :
    batchMeta (fullBatch cfg codec block n p e h ops) m .highestContiguous =
      batchMeta ops m .highestContiguous := by
  unfold fullBatch
  rw [batchMeta_append, batchMeta_append, batchMeta_append, batchMeta_append]
  have hhot : ∀ m' : MetaKey → Option ℕ,
      batchMeta (if h.isNone then setEarliestHot n else []) m' .highestContiguous =
        m' .highestContiguous := by
    intro m'; split <;> rfl
  rw [hhot]
  refine batchMeta_congr ops ?_
  have h1 : batchMeta (addBlockToBatch codec block n) m = m := rfl
  rw [h1]
  split <;> split <;> rfl

end Commit

/-- A call comes to nothing, or it commits its batch. -/
lemma Store.write_eq (cfg : Config) (codec : Codec) (s : Store) (block : Block) :
    s.write cfg codec block = s ∨ ∃ n ops, getBlockNumber block = some n ∧
      (∀ o ∈ ops, o.isContiguous = true) ∧ s.write cfg codec block =
        ⟨commitBatch (fullBatch cfg codec block n (s.db.metadata .latestPersisted)
          (s.db.metadata .trueEarliestPersisted) (s.db.metadata .earliestHot) ops) s.db,
          (n, block) :: s.log⟩ := by
  unfold Store.write
  rcases hn : getBlockNumber block with _ | n
  · exact Or.inl rfl
  rcases hrun : (contiguousOps n (max (latestOrSeed cfg s.db) n) (highestContiguous s.db)).run s.db
    with _ | ops
  · exact Or.inl (by simp only [prepareBatch_run, hrun, Option.map_none])
  · refine Or.inr ⟨n, ops, rfl, (contiguousOps_ensures _ _ _).of_run hrun, ?_⟩
    simp only [prepareBatch_run, hrun, Option.map_some]

/-- What a call leaves behind: nothing, or the block in the hot tier and in the log. -/
lemma Store.write_cases (cfg : Config) (codec : Codec) (s : Store) (block : Block) :
    s.write cfg codec block = s ∨ ∃ n, getBlockNumber block = some n ∧
      (s.write cfg codec block).log = (n, block) :: s.log ∧
      (s.write cfg codec block).db.hotBlocks =
        s.db.hotBlocks.put n (codec.serialize (codec.encode block)) ∧
      (s.write cfg codec block).db.metadata .earliestHot =
        some ((s.db.metadata .earliestHot).getD n) := by
  rcases s.write_eq cfg codec block with h | ⟨n, ops, hn, hops, h⟩
  · exact Or.inl h
  · refine Or.inr ⟨n, hn, by rw [h], ?_, ?_⟩
    · rw [h, commitBatch_hotBlocks, fullBatch_hot _ _ _ _ _ _ _ hops]
    · rw [h, commitBatch_metadata, fullBatch_earliestHot _ _ _ _ _ _ _ hops]
      rcases s.db.metadata .earliestHot with _ | e <;> rfl

/-- The earliest number is recorded by the first call of all. -/
lemma Store.write_trueEarliest {cfg : Config} {codec : Codec} {s : Store} {block : Block} {n : ℕ}
    (h : (s.write cfg codec block).log = (n, block) :: s.log) :
    (s.write cfg codec block).db.metadata .trueEarliestPersisted =
      some ((s.db.metadata .trueEarliestPersisted).getD n) := by
  rcases s.write_eq cfg codec block with hsame | ⟨m, ops, -, hops, hwrite⟩
  · rw [hsame] at h
    exact absurd h.symm (List.cons_ne_self _ _)
  · rw [hwrite] at h ⊢
    obtain rfl : m = n := (Prod.ext_iff.mp (List.cons.inj h).1).1
    rw [commitBatch_metadata, fullBatch_trueEarliest _ _ _ _ _ _ _ hops]
    rcases s.db.metadata .trueEarliestPersisted with _ | e <;> rfl

end RockNode
