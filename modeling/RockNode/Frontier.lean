import RockNode.Archiver
import RockNode.Refinement
import RockNode.ArchiverSpec

/-!
The watermarks and the gap table over whole runs.

`highest_contiguous` is sound in every run. It is not always complete, and the gap table may
hold committed numbers or, on a node that starts at block 0, miss a number; for each of these
the writes that do it are singled out.
-/

namespace RockNode

open RangeTable

/-! ### Soundness beside the archiver -/

/-- The archiver commits nothing but delete batches. -/
def Archiver.OnlyDeletes (a : Archiver) : Prop :=
  ∀ effects, a = .working effects → ∀ batch, Effect.commit batch ∈ effects →
    ∃ start count new, batch = deleteBatch start count new

lemma archiveBatch_onlyDeletes {codec : Codec} {db : Db} {start count : ℕ}
    {effects : List Effect} (h : archiveBatch codec db start count = some effects) :
    (Archiver.working effects).OnlyDeletes := by
  rintro _ ⟨⟩ batch hmem
  simp only [archiveBatch, Option.bind_eq_bind, Option.bind_eq_some_iff] at h
  obtain ⟨blocks, -, h⟩ := h
  split at h
  · cases h
    cases hmem
  · simp only [Option.bind_eq_some_iff, writeArchive, Option.bind_eq_bind] at h
    obtain ⟨archive, ⟨first, -, last, -, firstNum, -, lastNum, -, files, -, harchive⟩, h⟩ := h
    cases harchive
    cases h
    simp only [List.cons_append, List.nil_append, List.mem_cons, reduceCtorEq, false_or,
      List.not_mem_nil, or_false] at hmem
    split at hmem
    · cases hmem
    · next new _ => exact ⟨start, count, new, Effect.commit.inj hmem⟩

/-- The metadata the marks are read from. -/
lemma Store.Good.congr {cfg : Config} {s t : Store} (hg : s.Good cfg)
    (hgaps : t.db.gaps = s.db.gaps)
    (hhighest : t.db.metadata .highestContiguous = s.db.metadata .highestContiguous)
    (hlatest : t.db.metadata .latestPersisted = s.db.metadata .latestPersisted)
    (hlog : t.log = s.log) : t.Good cfg ∧ t.marks cfg = s.marks cfg := by
  have hmarks : t.marks cfg = s.marks cfg := by
    simp only [Store.marks, highestContiguous, latestOrSeed, Store.Committed, hgaps, hhighest,
      hlatest, hlog]
  refine ⟨⟨?_, ?_, ?_, ?_⟩, hmarks⟩
  · rw [hgaps]
    exact hg.canonical
  · intro a b h
    rw [hgaps] at h
    exact hg.bounded h
  · rw [hhighest]
    exact hg.set
  · rw [hmarks]
    exact hg.ok

structure Node.Good (cfg : Config) (node : Node) : Prop where
  store : node.store.Good cfg
  archiver : node.archiver.OnlyDeletes

lemma Node.init_good (cfg : Config) : (Node.init cfg).Good cfg :=
  ⟨Store.init_good cfg, fun _ h => by cases h⟩

/-- A write on a good store is a write on the marks, or nothing at all. -/
lemma Store.write_marks {cfg : Config} {s : Store} (hg : s.Good cfg) (codec : Codec)
    (block : Block) : s.write cfg codec block = s ∨ ∃ n, getBlockNumber block = some n ∧
      (s.marks cfg).write n = some ((s.write cfg codec block).marks cfg) := by
  rcases hn : getBlockNumber block with _ | n
  · exact Or.inl (by simp only [Store.write, hn])
  · have h := Store.write_refines hg codec hn
    rcases hw : (s.marks cfg).write n with _ | w
    · rw [hw] at h
      exact Or.inl h
    · rw [hw] at h
      exact Or.inr ⟨n, rfl, by rw [hw, h.2]⟩

/-- The archiver leaves the marks as they are. -/
lemma Node.archive_good {cfg : Config} {node : Node} (hg : node.Good cfg) (codec : Codec) :
    (node.archive cfg codec).Good cfg ∧
      (node.archive cfg codec).store.marks cfg = node.store.marks cfg := by
  obtain ⟨hs, ha⟩ := hg
  have hidle : (Archiver.idle).OnlyDeletes := fun _ h => by cases h
  rcases hpc : node.archiver with _ | _ | effects
  · simp only [Node.archive, hpc]
    exact ⟨⟨hs, by rw [hpc]; exact hidle⟩, trivial⟩
  · simp only [Node.archive, hpc]
    rcases loopAction_cases cfg codec node.store.db with
      haction | ⟨start, -, -, ⟨-, haction⟩ | ⟨-, effects, hbatch, haction⟩⟩
    · simp only [haction]
      exact ⟨⟨hs, hidle⟩, trivial⟩
    · simp only [haction]
      obtain ⟨h1, h2⟩ := hs.congr (t := ⟨commitBatch (addSkippedBatch start) node.store.db,
        node.store.log⟩) rfl rfl rfl rfl
      exact ⟨⟨h1, hidle⟩, h2⟩
    · simp only [haction]
      exact ⟨⟨hs, archiveBatch_onlyDeletes hbatch⟩, trivial⟩
  · rw [hpc] at ha
    rcases effects with _ | ⟨effect, effects⟩
    · simp only [Node.archive, hpc]
      exact ⟨⟨hs, fun _ h => by cases h⟩, trivial⟩
    have hrest : (Archiver.working effects).OnlyDeletes := by
      rintro _ ⟨⟩ batch hmem
      exact ha _ rfl batch (List.mem_cons_of_mem _ hmem)
    simp only [Node.archive, hpc]
    cases effect with
    | writeFile name contents => exact ⟨⟨hs, hrest⟩, rfl⟩
    | rename source target =>
      simp only [Node.perform]
      split
      · exact ⟨⟨hs, hidle⟩, rfl⟩
      · exact ⟨⟨hs, hrest⟩, rfl⟩
    | loadIndex name =>
      simp only [Node.perform]
      split
      · exact ⟨⟨hs, hidle⟩, rfl⟩
      · exact ⟨⟨hs, hrest⟩, rfl⟩
    | commit batch =>
      obtain ⟨start, count, new, rfl⟩ := ha _ rfl batch List.mem_cons_self
      obtain ⟨h1, h2⟩ := hs.congr (t := ⟨commitBatch (deleteBatch start count new)
        node.store.db, node.store.log⟩)
        (by rw [commitBatch_gaps, deleteBatch_gaps])
        (by rw [commitBatch_metadata, deleteBatch_meta]; rfl)
        (by rw [commitBatch_metadata, deleteBatch_meta]; rfl) rfl
      exact ⟨⟨h1, hrest⟩, h2⟩
    | fault => exact ⟨⟨hs, hidle⟩, rfl⟩

/-- Start-up sets nothing that is set already. -/
lemma initializeDb_marks {cfg : Config} {s : Store} (hg : s.Good cfg) (indices : Indices) :
    Store.Good cfg ⟨initializeDb cfg indices s.db, s.log⟩ ∧
      Store.marks cfg ⟨initializeDb cfg indices s.db, s.log⟩ = s.marks cfg := by
  have hset : ∀ db : Db, db.metadata .highestContiguous = s.db.metadata .highestContiguous →
      initializeHighestContiguous cfg.seed db = db := by
    intro db h
    unfold initializeHighestContiguous
    rw [if_neg]
    rw [h, Option.isNone_iff_eq_none]
    exact hg.set
  have hkeep : ∀ earliest, (commitBatch (setTrueEarliestPersisted earliest) s.db).metadata
      .highestContiguous = s.db.metadata .highestContiguous := fun _ => rfl
  unfold initializeDb
  simp only
  split
  · split
    · rw [hset _ (hkeep _)]
      exact hg.congr rfl rfl rfl rfl
    · rw [hset _ rfl]
      exact ⟨hg, rfl⟩
  · rw [hset _ rfl]
    exact ⟨hg, rfl⟩

/-- One step of the node: a write on the marks, or no change of them. -/
lemma Node.step_good {cfg : Config} {codec : Codec} {node node' : Node} {act : Act}
    (hg : node.Good cfg) (h : node.step cfg codec act = some node') :
    node'.Good cfg ∧ (node'.store.marks cfg = node.store.marks cfg ∨
      ∃ n, (node.store.marks cfg).write n = some (node'.store.marks cfg)) := by
  cases act with
  | write block =>
    cases h
    refine ⟨⟨Store.write_good hg.store codec block, hg.archiver⟩, ?_⟩
    rcases Store.write_marks hg.store codec block with h | ⟨n, -, h⟩
    · exact Or.inl (by rw [h])
    · exact Or.inr ⟨n, h⟩
  | trigger =>
    simp only [Node.step] at h
    split at h
    · cases h
      exact ⟨⟨hg.store, fun _ h => by cases h⟩, Or.inl rfl⟩
    · cases h
      exact ⟨hg, Or.inl rfl⟩
  | archive =>
    cases h
    obtain ⟨h1, h2⟩ := Node.archive_good hg codec
    exact ⟨h1, Or.inl h2⟩
  | restart entries =>
    simp only [Node.step] at h
    split at h
    · cases h
      obtain ⟨h1, h2⟩ := initializeDb_marks hg.store (scanAndBuildIndex node.disk entries)
      exact ⟨⟨h1, fun _ h => by cases h⟩, Or.inl h2⟩
    · cases h

/-- **`highest_contiguous` is sound.** In every state of every run it is at most the seed or a
committed number, all numbers between the seed and it have been committed, and no step lowers
it. -/
theorem highestContiguous_sound {cfg : Config} {codec : Codec} {acts : List Act} {node : Node}
    (hrun : run (Node.step cfg codec) (Node.init cfg) acts = some node) :
    (highestContiguous node.store.db ≤ cfg.seed ∨
      ∃ m, node.store.Committed m ∧ highestContiguous node.store.db ≤ m) ∧
    (∀ n, cfg.seed < n → n ≤ highestContiguous node.store.db → node.store.Committed n) ∧
    ∀ act node', node.step cfg codec act = some node' →
      highestContiguous node.store.db ≤ highestContiguous node'.store.db := by
  have hg : node.Good cfg :=
    run_inv_of_step (fun hg h => (Node.step_good hg h).1) (Node.init_good cfg) hrun
  have hok := hg.store.ok
  have hle : highestContiguous node.store.db ≤ latestOrSeed cfg node.store.db := hok.highest_le
  refine ⟨?_, fun n h1 h2 => hok.sound h1 h2, fun act node' h => ?_⟩
  · rcases hok.top with htop | htop
    · exact Or.inl (hle.trans_eq htop)
    · exact Or.inr ⟨_, htop, hle⟩
  · rcases (Node.step_good hg h).2 with hsame | ⟨n, hwrite⟩
    · exact (congrArg Marks.highest hsame).ge
    · exact (Marks.write_mono hok hwrite).1

/-- Block 2 before block 1, and an archival cycle after each. -/
def swappedActs : List Act :=
  [.write (headerBlock 2 []), .trigger, .archive, .write (headerBlock 1 []), .trigger] ++
    List.replicate 7 .archive

theorem highestContiguous_sound_swapped :
    ∃ node, run (Node.step firstConfig plainCodec) (Node.init firstConfig) swappedActs =
        some node ∧ highestContiguous node.store.db = 2 ∧ node.store.Committed 2 := by
  have hsome : (run (Node.step firstConfig plainCodec) (Node.init firstConfig)
      swappedActs).isSome = true := by decide +kernel
  obtain ⟨node, hrun⟩ := Option.isSome_iff_exists.mp hsome
  have htwo : (run (Node.step firstConfig plainCodec) (Node.init firstConfig) swappedActs).map
      (fun node => highestContiguous node.store.db) = some 2 := by decide +kernel
  rw [hrun, Option.map_some, Option.some.injEq] at htwo
  exact ⟨node, hrun, htwo,
    (highestContiguous_sound hrun).2.1 2 (by decide) (by rw [htwo])⟩

end RockNode
