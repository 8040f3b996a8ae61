import RockNode.ArrivalOrder
import RockNode.ExactMarks

/-!
`earliest_hot`, the cursor of the archiver, in runs of the storage service.

The first write sets it. After that only the archiver moves it, past a batch that it takes out of
the hot tier in the same stroke; a write lands where it lands and leaves the cursor alone.
-/

namespace RockNode

variable {cfg : Config} {codec : Codec} {node node' : Node} {op : Operation}

/-! ### What a step leaves as it is -/

/-- The hot tier, the cursor, the latest number and the skipped batches are the same. -/
structure SameHot (db db' : Db) : Prop where
  hot : db'.hotBlocks = db.hotBlocks
  earliest : db'.metadata .earliestHot = db.metadata .earliestHot
  latest : db'.metadata .latestPersisted = db.metadata .latestPersisted
  skipped : db'.skippedBatches = db.skippedBatches

lemma SameHot.refl (db : Db) : SameHot db db := ⟨rfl, rfl, rfl, rfl⟩

lemma initializeHighestContiguous_same (value : ℕ) (db : Db) :
    SameHot db (initializeHighestContiguous value db) := by
  obtain ⟨hhot, hmeta⟩ := initializeHighestContiguous_frame value db
  refine ⟨hhot, hmeta _ (by decide), hmeta _ (by decide), ?_⟩
  unfold initializeHighestContiguous
  split <;> rfl

lemma initializeDb_same (cfg : Config) (indices : Indices) (db : Db) :
    SameHot db (initializeDb cfg indices db) := by
  have hset : ∀ db', SameHot db db' → SameHot db (initializeHighestContiguous cfg.seed db') := by
    intro db' h
    have h' := initializeHighestContiguous_same cfg.seed db'
    exact ⟨h'.hot.trans h.hot, h'.earliest.trans h.earliest, h'.latest.trans h.latest,
      h'.skipped.trans h.skipped⟩
  unfold initializeDb
  simp only
  split
  · split
    · exact hset _ ⟨rfl, rfl, rfl, rfl⟩
    · exact hset db (.refl db)
  · exact hset db (.refl db)

lemma updateTrueEarliestIfLess_same (earliest : ℕ) (db : Db) :
    SameHot db (updateTrueEarliestIfLess earliest db) := by
  unfold updateTrueEarliestIfLess
  split
  · split
    · exact ⟨rfl, rfl, rfl, rfl⟩
    · exact .refl db
  · exact ⟨rfl, rfl, rfl, rfl⟩

/-- A historical batch goes past the hot tier and past the archiver. -/
lemma writeBlockBatch_same (cfg : Config) (codec : Codec) (node : Node) (blocks : List Block)
    (outcomes : List Outcome) :
    SameHot node.store.db (node.writeBlockBatch cfg codec blocks outcomes).store.db ∧
      (node.writeBlockBatch cfg codec blocks outcomes).store.log = node.store.log ∧
      (node.writeBlockBatch cfg codec blocks outcomes).archiver = node.archiver := by
  unfold Node.writeBlockBatch Node.writeBlockBatchResult
  split
  · exact ⟨.refl _, rfl, rfl⟩
  · next effects indexName harchive =>
    obtain ⟨a, b, files, -, -, -, rfl, rfl⟩ := writeArchive_cases harchive
    have hstore := (finish_touches cfg codec node
      (fileEffects a b files.1 files.2 ++ [Effect.loadIndex (indexFilename a b)]).length outcomes
      (fileEffects_ofChunk a b files.1 files.2)).store
    simp only
    split
    · rw [hstore]
      exact ⟨updateTrueEarliestIfLess_same _ _, rfl, rfl⟩
    · rw [hstore]
      exact ⟨.refl _, rfl, rfl⟩

lemma batchSkipped_of_isContiguous {batch : WriteBatch} (h : ∀ o ∈ batch, o.isContiguous = true)
    (m : SortedMap ℕ Unit) : batchSkipped batch m = m := by
  induction batch generalizing m with
  | nil => rfl
  | cons o batch ih =>
    have ho := h o List.mem_cons_self
    have hrest := ih (fun o' ho' => h o' (List.mem_cons_of_mem _ ho')) m
    cases o with
    | putSkipped => cases ho
    | deleteSkipped => cases ho
    | _ => exact hrest

lemma batchSkipped_append (b b' : WriteBatch) (m : SortedMap ℕ Unit) :
    batchSkipped (b ++ b') m = batchSkipped b' (batchSkipped b m) := by
  simp [batchSkipped, List.foldl_append]

lemma fullBatch_skipped (cfg : Config) (codec : Codec) (block : Block) (n : ℕ)
    (p e h : Option ℕ) {ops : WriteBatch} (hops : ∀ o ∈ ops, o.isContiguous = true)
    (m : SortedMap ℕ Unit) : batchSkipped (fullBatch cfg codec block n p e h ops) m = m := by
  unfold fullBatch
  rw [batchSkipped_append, batchSkipped_append, batchSkipped_append, batchSkipped_append]
  split <;> split <;> split <;> exact batchSkipped_of_isContiguous hops m

/-! ### One step -/

/-- The number under which the operation commits a block to the hot tier. -/
def Operation.commits (cfg : Config) (codec : Codec) (db : Db) : Operation → Option ℕ
  | .write block => do
    let n ← getBlockNumber block
    let _ ← (prepareBatch cfg codec block n).run db
    pure n
  | _ => none

/-- The number under which the operation puts a block into the hot tier. A write at the end of the
numbers comes to nothing. -/
def Operation.lands (cfg : Config) (s : Store) : Operation → Option ℕ
  | .write block => (getBlockNumber block).filter fun n => ¬ s.AtEnd cfg n
  | _ => none

lemma Operation.commits_eq_lands {s : Store} (hg : s.Good cfg) (codec : Codec) (op : Operation) :
    op.commits cfg codec s.db = op.lands cfg s := by
  cases op with
  | write block =>
    rcases hn : getBlockNumber block with _ | n
    · simp [commits, lands, hn]
    by_cases hend : s.AtEnd cfg n
    · have hrun := (prepareBatch_eq_none_iff hg codec block n).mpr hend
      simp [commits, lands, hn, hend, hrun, Option.filter]
    · obtain ⟨prepared, hrun⟩ := Option.ne_none_iff_exists'.mp
        (mt (prepareBatch_eq_none_iff hg codec block n).mp hend)
      simp [commits, lands, hn, hend, hrun, Option.filter]
  | _ => rfl

/-- What an operation does to the hot tier and to the cursor. -/
inductive CursorStep (cfg : Config) (codec : Codec) (node : Node) (op : Operation) (node' : Node) :
    Prop
  | still (commits : op.commits cfg codec node.store.db = none)
    (same : SameHot node.store.db node'.store.db) (log : node'.store.log = node.store.log)
  | wrote (block : Block) (n : ℕ) (commits : op.commits cfg codec node.store.db = some n)
    (hot : node'.store.db.hotBlocks =
      node.store.db.hotBlocks.put n (codec.serialize (codec.encode block)))
    (earliest : node'.store.db.metadata .earliestHot =
      some ((node.store.db.metadata .earliestHot).getD n))
    (latest : node'.store.db.metadata .latestPersisted = if latestOrSeed cfg node.store.db < n
      then some n else node.store.db.metadata .latestPersisted)
    (skipped : node'.store.db.skippedBatches = node.store.db.skippedBatches)
    (log : node'.store.log = (n, block) :: node.store.log)
  | skipped (commits : op.commits cfg codec node.store.db = none) (start : ℕ)
    (earliest : node.store.db.metadata .earliestHot = some start)
    (db : node'.store.db = commitBatch (addSkippedBatch start) node.store.db)
    (log : node'.store.log = node.store.log)
  | archived (commits : op.commits cfg codec node.store.db = none) (start : ℕ)
    (pending : Pending cfg node start)
    (db : node'.store.db = commitBatch (deleteBatch start cfg.archiveBatchSize
      (start + cfg.archiveBatchSize)) node.store.db)
    (log : node'.store.log = node.store.log)

/-- What the archiver is at work on is the batch at the cursor. -/
def Node.AtCursor (cfg : Config) (node : Node) : Prop :=
  ∀ effects, node.archiver = .working effects → effects = [] ∨ ∃ start files,
    Pending cfg node start ∧ effects = files ++ [finalEffect start cfg.archiveBatchSize] ∧
      ∀ effect ∈ files, ∃ a b, OfChunk a b effect

lemma Node.AtCursor.of_not_working (h : ∀ effects, node.archiver ≠ .working effects) :
    node.AtCursor cfg := fun effects hwork => absurd hwork (h effects)

lemma Node.AtCursor.congr (h : node.AtCursor cfg) (harchiver : node'.archiver = node.archiver)
    (hpending : ∀ start, Pending cfg node start → Pending cfg node' start) :
    node'.AtCursor cfg := by
  intro effects hwork
  obtain hnil | ⟨start, files, hp, heffects⟩ := h effects (harchiver ▸ hwork)
  · exact Or.inl hnil
  · exact Or.inr ⟨start, files, hpending start hp, heffects⟩

lemma SameHot.pending (h : SameHot node.store.db node'.store.db) {start : ℕ}
    (hp : Pending cfg node start) : Pending cfg node' start :=
  ⟨h.earliest.trans hp.earliest, by rw [h.hot]; exact hp.hot⟩

lemma write_cursor (cfg : Config) (codec : Codec) (node : Node) (block : Block) :
    CursorStep cfg codec node (.write block)
      { node with store := node.store.write cfg codec block } := by
  rcases hn : getBlockNumber block with _ | n
  · refine .still (by simp [Operation.commits, hn]) ?_ ?_
    · simp only [Store.write, hn]
      exact .refl _
    · simp only [Store.write, hn]
  rcases hrun : (contiguousOps n (max (latestOrSeed cfg node.store.db) n)
    (highestContiguous node.store.db)).run node.store.db with _ | ops
  · refine .still (by simp [Operation.commits, hn, prepareBatch_run, hrun]) ?_ ?_
    · simp only [Store.write, hn, prepareBatch_run, hrun, Option.map_none]
      exact .refl _
    · simp only [Store.write, hn, prepareBatch_run, hrun, Option.map_none]
  · have hops := (contiguousOps_ensures _ _ _).of_run hrun
    have heq : node.store.write cfg codec block = ⟨commitBatch (fullBatch cfg codec block n
        (node.store.db.metadata .latestPersisted) (node.store.db.metadata .trueEarliestPersisted)
        (node.store.db.metadata .earliestHot) ops) node.store.db,
          (n, block) :: node.store.log⟩ := by
      simp only [Store.write, hn, prepareBatch_run, hrun, Option.map_some]
    rw [heq]
    refine .wrote block n (by simp [Operation.commits, hn, prepareBatch_run, hrun]) ?_ ?_ ?_ ?_ rfl
    · rw [commitBatch_hotBlocks, fullBatch_hot _ _ _ _ _ _ _ hops]
    · rw [commitBatch_metadata, fullBatch_earliestHot _ _ _ _ _ _ _ hops]
      rcases node.store.db.metadata .earliestHot with _ | e <;> rfl
    · rw [commitBatch_metadata, fullBatch_latest _ _ _ _ _ _ _ hops]
      rfl
    · rw [commitBatch_skippedBatches, fullBatch_skipped _ _ _ _ _ _ _ hops]

lemma archiveBatch_ends {db : Db} {start count : ℕ} {effects : List Effect}
    (h : archiveBatch codec db start count = some effects) :
    effects = [] ∨ ∃ files, effects = files ++ [finalEffect start count] ∧
      ∀ effect ∈ files, ∃ a b, OfChunk a b effect := by
  simp only [archiveBatch, Option.bind_eq_bind, Option.bind_eq_some_iff] at h
  obtain ⟨blocks, -, h⟩ := h
  split at h
  · cases h
    exact Or.inl rfl
  · simp only [Option.bind_eq_some_iff] at h
    obtain ⟨⟨effects, indexName⟩, harchive, h⟩ := h
    cases h
    obtain ⟨a, b, files, -, -, -, rfl, rfl⟩ := writeArchive_cases harchive
    refine Or.inr ⟨fileEffects a b files.1 files.2 ++ [.loadIndex (indexFilename a b)], ?_,
      fun effect heffect => ⟨a, b, fileEffects_ofChunk a b files.1 files.2 effect heffect⟩⟩
    rw [List.append_assoc]
    rfl

/-- A step of the archiver. Only the last one of an archival touches the store, and then the
batch it deletes is still the one at the cursor. -/
lemma archive_cursor (h : node.AtCursor cfg) :
    CursorStep cfg codec node (.archive .ok) (node.archive cfg codec) ∧
      (node.archive cfg codec).AtCursor cfg := by
  rcases hpc : node.archiver with _ | _ | effects
  · have heq : node.archive cfg codec = node := by simp only [Node.archive, hpc]
    rw [heq]
    exact ⟨.still rfl (.refl _) rfl, h⟩
  · rcases loopAction_cases cfg codec node.store.db with
      haction | ⟨start, hstart, -, ⟨-, haction⟩ | ⟨hcomplete, effects, hbatch, haction⟩⟩
    · simp only [Node.archive, hpc, haction]
      exact ⟨.still rfl (.refl _) rfl, .of_not_working (by simp)⟩
    · simp only [Node.archive, hpc, haction]
      exact ⟨.skipped rfl start hstart rfl rfl, .of_not_working (by simp)⟩
    · simp only [Node.archive, hpc, haction]
      refine ⟨.still rfl (.refl _) rfl, ?_⟩
      rintro _ ⟨⟩
      refine (archiveBatch_ends hbatch).imp_right ?_
      rintro ⟨files, heffects, hof⟩
      exact ⟨start, files, .of_complete hstart hcomplete, heffects, hof⟩
  · rcases effects with _ | ⟨effect, effects⟩
    · simp only [Node.archive, hpc]
      exact ⟨.still rfl (.refl _) rfl, .of_not_working (by simp)⟩
    have heq : node.archive cfg codec = node.perform effects effect := by
      simp only [Node.archive, hpc]
    rw [heq]
    obtain hnil | ⟨start, files, hp, heffects, hof⟩ := h _ hpc
    · cases hnil
    rcases files with _ | ⟨file, files⟩
    · -- the last step
      cases heffects
      rcases hfinal : checkedAdd start cfg.archiveBatchSize with _ | new
      · simp only [finalEffect, hfinal]
        exact ⟨.still rfl (.refl _) rfl, .of_not_working (by simp [Node.perform])⟩
      · obtain ⟨rfl, -⟩ := checkedAdd_eq_some.mp hfinal
        simp only [finalEffect, hfinal]
        refine ⟨.archived rfl start hp rfl rfl, ?_⟩
        rintro _ ⟨⟩
        exact Or.inl rfl
    · rw [List.cons_append, List.cons.injEq] at heffects
      obtain ⟨rfl, rfl⟩ := heffects
      obtain ⟨a, b, hfile⟩ := hof effect List.mem_cons_self
      have hstore := (hfile.touches node (files ++ [finalEffect start cfg.archiveBatchSize])).store
      refine ⟨.still rfl (by rw [hstore]; exact .refl _) (by rw [hstore]), fun effects' hwork => ?_⟩
      rw [perform_archiver hwork]
      exact Or.inr ⟨start, files, hp.congr (by rw [hstore]), rfl,
        fun e he => hof e (List.mem_cons_of_mem _ he)⟩

lemma fail_cursor (h : node.AtCursor cfg) (left : List Bytes) :
    CursorStep cfg codec node (.archive (.error left)) (node.fail left) ∧
      (node.fail left).AtCursor cfg := by
  unfold Node.fail
  split
  · exact ⟨.still rfl (.refl _) rfl, h⟩
  · exact ⟨.still rfl (.refl _) rfl, .of_not_working (by simp)⟩
  · next name effects hpc =>
    -- an index that cannot be loaded is only warned about
    refine ⟨.still rfl (.refl _) rfl, ?_⟩
    rintro _ ⟨⟩
    obtain hnil | ⟨start, files, hp, heffects, hof⟩ := h _ hpc
    · cases hnil
    rcases files with _ | ⟨file, files⟩
    · obtain ⟨-, rfl⟩ := List.cons.inj heffects
      exact Or.inl rfl
    · obtain ⟨-, rfl⟩ := List.cons.inj heffects
      exact Or.inr ⟨start, files, hp.congr rfl, rfl, fun e he => hof e (List.mem_cons_of_mem _ he)⟩
  · exact ⟨.still rfl (.refl _) rfl, .of_not_working (by simp)⟩

/-- **One operation of the service.** -/
lemma operate_cursor (h : node.AtCursor cfg) (hstep : node.operate cfg codec op = some node') :
    CursorStep cfg codec node op node' ∧ node'.AtCursor cfg := by
  cases op with
  | write block =>
    cases hstep
    exact ⟨write_cursor cfg codec node block, h.congr rfl fun start hp => hp.write codec block⟩
  | writeBatch blocks outcomes =>
    cases hstep
    obtain ⟨hsame, hlog, harchiver⟩ := writeBlockBatch_same cfg codec node blocks outcomes
    exact ⟨.still rfl hsame hlog, h.congr harchiver fun start hp => hsame.pending hp⟩
  | trigger =>
    simp only [Node.operate, Node.step] at hstep
    split at hstep
    · cases hstep
      exact ⟨.still rfl (.refl _) rfl, .of_not_working (by simp)⟩
    · cases hstep
      exact ⟨.still rfl (.refl _) rfl, h⟩
  | archive outcome =>
    cases hstep
    cases outcome with
    | ok => exact archive_cursor h
    | error left => exact fail_cursor h left
  | restart entries =>
    simp only [Node.operate, Node.step] at hstep
    split at hstep
    · cases hstep
      exact ⟨.still rfl (initializeDb_same _ _ _) rfl, .of_not_working (by simp [Node.restart])⟩
    · cases hstep

/-! ### Skipped batches -/

/-- The only batch that is recorded as skipped is the one at the cursor. -/
def SkippedAtCursor (db : Db) : Prop :=
  ∀ start, isBatchSkipped start db = true → db.metadata .earliestHot = some start

lemma deleteBatch_skipped (start count new : ℕ) (m : SortedMap ℕ Unit) :
    batchSkipped (deleteBatch start count new) m = m.erase start := by
  have h : batchSkipped ((List.range count).map fun i => .deleteHot (start + i)) m = m := by
    induction count with
    | zero => rfl
    | succ count ih =>
      rw [List.range_succ, List.map_append, batchSkipped_append, ih]
      rfl
  rw [deleteBatch, batchSkipped_append, batchSkipped_append, h]
  rfl

lemma CursorStep.skippedAtCursor (hstep : CursorStep cfg codec node op node')
    (h : SkippedAtCursor node.store.db) : SkippedAtCursor node'.store.db := by
  intro other hother
  simp only [isBatchSkipped] at hother
  cases hstep with
  | still _ same _ =>
    rw [same.skipped] at hother
    exact same.earliest.trans (h other hother)
  | wrote block n _ _ earliest _ skipped _ =>
    rw [skipped] at hother
    rw [earliest, h other hother, Option.getD_some]
  | skipped _ start earliest db _ =>
    rw [db, commitBatch_skippedBatches] at hother
    change ((node.store.db.skippedBatches.put start ()).get other).isSome = true at hother
    rw [SortedMap.get_put] at hother
    rw [db]
    split at hother
    · next heq =>
      subst heq
      exact earliest
    · exact h other hother
  | archived _ start pending db _ =>
    rw [db, commitBatch_skippedBatches, deleteBatch_skipped, SortedMap.get_erase] at hother
    split at hother
    · cases hother
    · next hne =>
      have hstart := h other hother
      rw [pending.earliest] at hstart
      exact absurd (Option.some.inj hstart).symm hne

/-! ### The cursor in every run -/

/-- The archiver stands at the cursor, the skipped batch too, and a hot tier without a cursor
is empty. -/
structure Node.Anchored (cfg : Config) (node : Node) : Prop where
  work : node.AtCursor cfg
  skipped : SkippedAtCursor node.store.db
  empty : node.store.db.metadata .earliestHot = none → ∀ n, node.store.db.hotBlocks.get n = none

lemma Node.init_anchored (cfg : Config) : (Node.init cfg).Anchored cfg where
  work := .of_not_working (by simp [Node.init])
  skipped start h := by cases h
  empty _ n := SortedMap.get_empty n

lemma operate_anchored (h : node.Anchored cfg) (hstep : node.operate cfg codec op = some node') :
    node'.Anchored cfg := by
  obtain ⟨hcursor, hwork⟩ := operate_cursor h.work hstep
  refine ⟨hwork, hcursor.skippedAtCursor h.skipped, fun hnone n => ?_⟩
  cases hcursor with
  | still _ same _ =>
    rw [same.hot]
    exact h.empty (same.earliest.symm.trans hnone) n
  | wrote block m _ _ earliest _ _ _ =>
    rw [earliest] at hnone
    cases hnone
  | skipped _ start earliest db _ =>
    rw [db] at hnone ⊢
    exact h.empty hnone n
  | archived _ start _ db _ =>
    rw [db, commitBatch_metadata, deleteBatch_meta] at hnone
    simp at hnone

lemma run_anchored {ops : List Operation}
    (hrun : run (Node.operate cfg codec) (Node.init cfg) ops = some node) : node.Anchored cfg :=
  run_inv_of_step (fun h hstep => operate_anchored h hstep) (Node.init_anchored cfg) hrun

/-! ### Blocks behind the cursor -/

/-- No block of the hot tier is behind the cursor. -/
def Node.NoneBehind (node : Node) : Prop :=
  ∀ e ∈ node.store.db.metadata .earliestHot, ∀ n, node.store.db.hotBlocks.get n ≠ none → e ≤ n

/-- A block that is written lands at the cursor or ahead of it. -/
def LandsAhead (cfg : Config) (node : Node) (op : Operation) : Prop :=
  ∀ n ∈ op.lands cfg node.store, ∀ e ∈ node.store.db.metadata .earliestHot, e ≤ n

instance LandsAhead.decidable (cfg : Config) (node : Node) (op : Operation) :
    Decidable (LandsAhead cfg node op) :=
  inferInstanceAs (Decidable (∀ _ ∈ _, _))

/-- The archiver never leaves a block behind; a write does when it lands there. -/
lemma CursorStep.noneBehind_iff (hstep : CursorStep cfg codec node op node')
    (hg : node.store.Good cfg) (h : node.Anchored cfg) (hnone : node.NoneBehind) :
    node'.NoneBehind ↔ LandsAhead cfg node op := by
  rw [LandsAhead, ← Operation.commits_eq_lands hg codec]
  cases hstep with
  | still commits same _ =>
    refine iff_of_true ?_ (by simp [commits])
    simpa only [Node.NoneBehind, same.hot, same.earliest] using hnone
  | wrote block n commits hot earliest _ _ _ =>
    simp only [Node.NoneBehind, commits, hot, earliest, Option.mem_some_iff,
      forall_eq', SortedMap.get_put]
    rcases he : node.store.db.metadata .earliestHot with _ | e
    · refine iff_of_true (fun m hm => ?_) (by simp)
      split at hm
      · next heq => exact heq.ge
      · exact absurd (h.empty he m) hm
    · simp only [Option.getD_some, Option.mem_some_iff, forall_eq']
      refine ⟨fun hall => hall n (by simp), fun hle m hm => ?_⟩
      split at hm
      · next heq => exact heq ▸ hle
      · exact hnone e he m hm
  | skipped commits start earliest db _ =>
    refine iff_of_true ?_ (by simp [commits])
    rw [Node.NoneBehind, db]
    exact hnone
  | archived commits start pending db _ =>
    refine iff_of_true ?_ (by simp [commits])
    intro e he n hn
    rw [db, commitBatch_metadata, deleteBatch_meta, Function.update_self] at he
    rw [db, commitBatch_hotBlocks, deleteBatch_hot] at hn
    cases he
    split at hn
    · exact absurd rfl hn
    · next hout =>
      have := hnone start pending.earliest n hn
      omega

/-- **No hot block is ever behind the cursor exactly if no write lands behind it.** -/
theorem none_behind_iff (cfg : Config) (codec : Codec) (ops : List Operation) :
    (∀ k node, run (Node.operate cfg codec) (Node.init cfg) (ops.take k) = some node →
      node.NoneBehind) ↔
    Along (Node.operate cfg codec) (LandsAhead cfg) (Node.init cfg) ops := by
  refine along_iff_of_step (I := fun node => node.Anchored cfg ∧ node.Good cfg)
    (fun h hstep => ⟨operate_anchored h.1 hstep, operate_good h.2 hstep⟩)
    (fun h hnone hstep =>
      (operate_cursor h.1.work hstep).1.noneBehind_iff h.2.store h.1 hnone) ?_
    ⟨Node.init_anchored cfg, Node.init_good cfg⟩ ?_ ops
  · intro node op hnone
    cases op with
    | write block => cases hnone
    | _ => simp [LandsAhead, Operation.lands]
  · intro e he n hn
    exact absurd (SortedMap.get_empty n) hn

/-- Five is written first, then three. -/
theorem three_behind_five : ¬ ∀ (cfg : Config) (codec : Codec) (ops : List Operation) (node : Node),
    run (Node.operate cfg codec) (Node.init cfg) ops = some node → node.NoneBehind := by
  intro h
  have hsome : ∃ node ∈ run (Node.operate zeroConfig plainCodec) (Node.init zeroConfig)
      [.write (headerBlock 5 []), .write (headerBlock 3 [])],
      node.store.db.metadata .earliestHot = some 5 ∧ node.store.db.hotBlocks.get 3 ≠ none := by
    decide +kernel
  obtain ⟨node, hrun, hearliest, hhot⟩ := hsome
  exact absurd (h _ _ _ node hrun 5 hearliest 3 hhot) (by decide)

/-- A block that has been left behind stays where it is: no later cycle reaches it. -/
theorem behind_stays (h : node.Anchored cfg) {n e : ℕ} {ops : List Operation}
    (hhot : node.store.db.hotBlocks.get n ≠ none)
    (he : node.store.db.metadata .earliestHot = some e) (hlt : n < e)
    (hrun : run (Node.operate cfg codec) node ops = some node') :
    node'.store.db.hotBlocks.get n ≠ none ∧
      ∃ e', node'.store.db.metadata .earliestHot = some e' ∧ n < e' := by
  suffices hinv : node'.Anchored cfg ∧ node'.store.db.hotBlocks.get n ≠ none ∧
      ∃ e', node'.store.db.metadata .earliestHot = some e' ∧ n < e' from hinv.2
  refine run_inv_of_step (I := fun node => node.Anchored cfg ∧
    node.store.db.hotBlocks.get n ≠ none ∧
      ∃ e', node.store.db.metadata .earliestHot = some e' ∧ n < e') ?_ ⟨h, hhot, e, he, hlt⟩ hrun
  rintro node op node' ⟨h, hhot, e, he, hlt⟩ hstep
  refine ⟨operate_anchored h hstep, ?_⟩
  cases (operate_cursor h.work hstep).1 with
  | still _ same _ =>
    rw [same.hot, same.earliest]
    exact ⟨hhot, e, he, hlt⟩
  | wrote block m _ hot earliest _ _ _ =>
    rw [hot, earliest, SortedMap.get_put, he]
    refine ⟨?_, e, rfl, hlt⟩
    split
    · simp
    · exact hhot
  | skipped _ start _ db _ =>
    rw [db]
    exact ⟨hhot, e, he, hlt⟩
  | archived _ start pending db _ =>
    obtain rfl : e = start := Option.some.inj (he.symm.trans pending.earliest)
    rw [db, commitBatch_hotBlocks, deleteBatch_hot, commitBatch_metadata, deleteBatch_meta,
      if_neg (by omega)]
    exact ⟨hhot, _, Function.update_self _ _ _, by omega⟩

end RockNode
