import RockNode.ArchivalOutcomes
import RockNode.GapFills
import RockNode.Immutability
import RockNode.Retention
import RockNode.Tiling

/-!
The chunks of cold storage tile what has been archived.

Nothing in the reader keeps the ranges of its chunks apart. They are apart because the archiver
takes one whole batch after the other, beginning with the first block ever written, and names each
archive after the batch at its cursor. Between the load of an index and the delete commit there is
one chunk ahead of the cursor; if that commit fails, the same chunk is made again.
-/

namespace RockNode

variable {cfg : Config} {codec : Codec} {node node' : Node} {op : Operation}

/-! ### The numbers of a chunk -/

def MappedIndex.numbers (m : MappedIndex) : Finset ℕ := Finset.Icc m.startBlock m.endBlock

@[simp] lemma MappedIndex.mem_numbers {m : MappedIndex} {n : ℕ} :
    n ∈ m.numbers ↔ m.startBlock ≤ n ∧ n ≤ m.endBlock := by
  simp [MappedIndex.numbers]

lemma MappedIndex.card_numbers {m : MappedIndex} {size : ℕ}
    (h : m.endBlock + 1 = m.startBlock + size) : m.numbers.card = size := by
  rw [MappedIndex.numbers, Nat.card_Icc]
  omega

/-! ### The scope of a run -/

/-- Blocks are written and archived in one process, and `load_index_file` succeeds whenever the
archiver calls it. -/
def WritesAndArchives (node : Node) (op : Operation) : Prop :=
  op.inProcess = true ∧ op.isHistorical = false ∧ LoadsIndex node op

instance WritesAndArchives.decidable (node : Node) (op : Operation) :
    Decidable (WritesAndArchives node op) :=
  inferInstanceAs (Decidable (_ ∧ _))

/-- An archive is made and the delete commit comes next. -/
def Archiver.dueCommit : Archiver → Bool
  | .working (.commit _ :: _) => true
  | _ => false

/-- No delete commit fails. -/
def CommitsSucceed (node : Node) : Operation → Prop
  | .archive outcome => node.archiver.dueCommit = true → outcome.isOk = true
  | _ => True

instance CommitsSucceed.decidable (node : Node) : ∀ op, Decidable (CommitsSucceed node op)
  | .archive _ => inferInstanceAs (Decidable (_ → _))
  | .write _ | .writeBatch _ _ | .trigger | .restart _ => isTrue trivial

/-! ### What the archiver is at work on -/

/-- The archiver makes the archive of the batch at the cursor. -/
def Node.Archiving (cfg : Config) (node : Node) : Prop :=
  ∀ effects, node.archiver = .working effects → effects = [] ∨ ∃ start data index,
    Pending cfg node start ∧ AtStage node.disk node.indices start (cfg.lastOf start) data index
      (finalEffect start cfg.archiveBatchSize) effects

lemma Node.Archiving.of_rest (h : ∀ effects, node.archiver = .working effects → effects = []) :
    node.Archiving cfg := fun effects hwork => Or.inl (h effects hwork)

lemma finalEffect_ne_loadIndex {start count : ℕ} {name : FileName} :
    finalEffect start count ≠ .loadIndex name := by
  unfold finalEffect
  split <;> simp

/-- When the index is due both files are in place, and after it only the last step is left. -/
lemma AtStage.at_load {disk : Disk} {indices : Indices} {start last : ℕ} {data index : Bytes}
    {final : Effect} {name : FileName} {effects : List Effect}
    (h : AtStage disk indices start last data index final (.loadIndex name :: effects))
    (hfinal : final ≠ .loadIndex name) :
    name = indexFilename start last ∧ effects = [final] ∧
      disk.get (dataFilename start last) = some data ∧
      disk.get (indexFilename start last) = some index := by
  generalize hl : Effect.loadIndex name :: effects = todo at h
  cases h with
  | movedIndex hdata hindex =>
    cases hl
    exact ⟨rfl, rfl, hdata, hindex⟩
  | loaded =>
    cases hl
    exact absurd rfl hfinal
  | _ => cases hl

/-- Of an archive that could be loaded the end is no overflow. -/
lemma finalEffect_of_load {disk : Disk} {start : ℕ} {indices indices' : Indices}
    (h : loadIndexFile disk (indexFilename start (cfg.lastOf start)) indices = some indices') :
    finalEffect start cfg.archiveBatchSize = .commit (deleteBatch start cfg.archiveBatchSize
      (start + cfg.archiveBatchSize)) := by
  have hlt := (loadIndexFile_range h).2
  have hle : start + cfg.archiveBatchSize ≤ u64Max := by
    simp only [Config.lastOf, u64Max] at hlt ⊢
    omega
  simp only [finalEffect, checkedAdd_eq_some.mpr ⟨rfl, hle⟩]

/-- **An index that is due is loaded exactly if its name can be read back**: the batch at the
cursor ends with a number of at most ten digits. -/
theorem Node.Archiving.load_iff (hsize : 1 ≤ cfg.archiveBatchSize) (h : node.Archiving cfg)
    {name : FileName} (hdue : node.archiver.dueIndex = some name) :
    (loadIndexFile node.disk name node.indices).isSome = true ↔
      ∃ e, node.store.db.metadata .earliestHot = some e ∧ e + cfg.archiveBatchSize ≤ 10 ^ 10 := by
  obtain ⟨effects, hpc⟩ : ∃ effects, node.archiver = .working (.loadIndex name :: effects) := by
    unfold Archiver.dueIndex at hdue
    split at hdue
    · next effects hpc =>
      cases hdue
      exact ⟨effects, hpc⟩
    · cases hdue
  obtain hnil | ⟨start, data, index, hp, hstage⟩ := h _ hpc
  · cases hnil
  obtain ⟨rfl, -, hdata, hindex⟩ := hstage.at_load finalEffect_ne_loadIndex
  have hlast := Config.lastOf_add_one hsize start
  constructor
  · intro hload
    obtain ⟨indices, hindices⟩ := Option.isSome_iff_exists.mp hload
    have hlt := (loadIndexFile_range hindices).2
    exact ⟨start, hp.earliest, by omega⟩
  · rintro ⟨e, he, hle⟩
    obtain rfl : start = e := Option.some.inj (hp.earliest.symm.trans he)
    have hparse : parseBlockRange (indexFilename start (cfg.lastOf start)) =
        some (start, cfg.lastOf start) := by
      rw [parseBlockRange_eq, if_pos ⟨by omega, by omega⟩]
    rw [loadIndexFile_eq hparse (by omega) hindex (by rw [withExtension_indexFilename, hdata])]
    rfl

/-! ### One step -/

/-- What an operation does to the loaded chunks and to the cursor. -/
inductive ChunkStep (cfg : Config) (node : Node) (op : Operation) (node' : Node) : Prop
  | still (indices : node'.indices = node.indices)
    (earliest : node'.store.db.metadata .earliestHot = node.store.db.metadata .earliestHot)
    (log : node'.store.log = node.store.log)
    (due : CommitsSucceed node op → node.archiver.dueCommit = true →
      node'.archiver.dueCommit = true)
  | wrote (n : ℕ) (block : Block) (indices : node'.indices = node.indices)
    (earliest : node'.store.db.metadata .earliestHot =
      some ((node.store.db.metadata .earliestHot).getD n))
    (log : node'.store.log = (n, block) :: node.store.log)
    (archiver : node'.archiver = node.archiver)
  /-- The chunk of the batch at the cursor appears, or takes its own place once more. -/
  | loaded (start : ℕ) (m : MappedIndex)
    (earliest : node.store.db.metadata .earliestHot = some start)
    (range : m.endBlock + 1 = start + cfg.archiveBatchSize) (store : node'.store = node.store)
    (indices : node'.indices = node.indices.put start m)
    (due : node'.archiver.dueCommit = true)
  /-- The cursor passes a batch whose chunk is there. -/
  | archived (start : ℕ) (earliest : node.store.db.metadata .earliestHot = some start)
    (mapped : node.indices.get start ≠ none) (indices : node'.indices = node.indices)
    (cursor : node'.store.db.metadata .earliestHot = some (start + cfg.archiveBatchSize))
    (log : node'.store.log = node.store.log)

/-- Where no commit is due nothing has to be kept for one. -/
lemma ChunkStep.of_not_due (hdue : node.archiver.dueCommit = false)
    (indices : node'.indices = node.indices)
    (earliest : node'.store.db.metadata .earliestHot = node.store.db.metadata .earliestHot)
    (log : node'.store.log = node.store.log) : ChunkStep cfg node op node' := by
  refine .still indices earliest log fun _ h => ?_
  rw [hdue] at h
  cases h

lemma write_chunks (cfg : Config) (codec : Codec) (node : Node) (block : Block) :
    ChunkStep cfg node (.write block)
      { node with store := node.store.write cfg codec block } := by
  rcases node.store.write_cases cfg codec block with heq | ⟨n, -, hlog, -, hearliest⟩
  · rw [heq]
    exact .still rfl rfl rfl fun _ hdue => hdue
  · exact .wrote n block rfl hearliest hlog rfl

/-- The last step of an archive. -/
lemma commit_chunks {start : ℕ} (hp : Pending cfg node start)
    (hmapped : node.indices.get start ≠ none)
    (hpc : node.archiver = .working [finalEffect start cfg.archiveBatchSize]) :
    ChunkStep cfg node (.archive .ok)
        (node.perform [] (finalEffect start cfg.archiveBatchSize)) ∧
      (node.perform [] (finalEffect start cfg.archiveBatchSize)).Archiving cfg := by
  rcases hfinal : checkedAdd start cfg.archiveBatchSize with _ | new
  · have hfault : finalEffect start cfg.archiveBatchSize = .fault := by
      simp only [finalEffect, hfinal]
    rw [hfault] at hpc ⊢
    exact ⟨.of_not_due (by rw [hpc]; rfl) rfl rfl rfl, .of_rest fun _ h => by cases h⟩
  · obtain ⟨rfl, -⟩ := checkedAdd_eq_some.mp hfinal
    simp only [finalEffect, hfinal, Node.perform]
    refine ⟨.archived start hp.earliest hmapped rfl ?_ rfl, .of_rest ?_⟩
    · simp only [commitBatch_metadata, deleteBatch_meta, Function.update_self]
    · rintro _ ⟨⟩
      rfl

/-- The load of an index: the commit comes next. -/
lemma load_chunks (hsize : 1 ≤ cfg.archiveBatchSize) {start : ℕ} {data index : Bytes}
    {name : FileName} {effects : List Effect} (hp : Pending cfg node start)
    (hstage : AtStage node.disk node.indices start (cfg.lastOf start) data index
      (finalEffect start cfg.archiveBatchSize) (.loadIndex name :: effects))
    (hload : loadIndexFile node.disk name node.indices ≠ none) :
    ChunkStep cfg node op (node.perform effects (.loadIndex name)) := by
  obtain ⟨rfl, hcommit, -⟩ := hstage.at_load finalEffect_ne_loadIndex
  obtain ⟨indices', hindices⟩ := Option.ne_none_iff_exists'.mp hload
  have hfinal := finalEffect_of_load hindices
  obtain ⟨index', -, rfl⟩ := loadIndexFile_index hindices
  rw [perform_load hindices]
  refine .loaded start _ hp.earliest (Config.lastOf_add_one hsize start) rfl rfl ?_
  rw [hcommit, hfinal]
  rfl

/-- A step on the files of an archive. -/
lemma files_chunks {a b : ℕ} {effect : Effect} {effects : List Effect} (hof : OfChunk a b effect)
    (hfile : ∀ name, effect ≠ .loadIndex name)
    (hpc : node.archiver = .working (effect :: effects)) :
    ChunkStep cfg node op (node.perform effects effect) := by
  have hstore := (hof.touches node effects).store
  refine .of_not_due ?_ ?_ (by rw [hstore]) (by rw [hstore])
  · rw [hpc]
    cases hof <;> rfl
  · cases hof with
    | load => exact absurd rfl (hfile _)
    | write => rfl
    | moveData | moveIndex =>
      simp only [Node.perform]
      split <;> rfl

section Archive

variable (hsize : 1 ≤ cfg.archiveBatchSize) (hwork : node.Archiving cfg)

include hsize hwork

lemma perform_chunks {effect : Effect} {effects : List Effect}
    (hpc : node.archiver = .working (effect :: effects))
    (hload : ∀ name, effect = .loadIndex name →
      loadIndexFile node.disk name node.indices ≠ none) :
    ChunkStep cfg node (.archive .ok) (node.perform effects effect) ∧
      (node.perform effects effect).Archiving cfg := by
  obtain hnil | ⟨start, data, index, hp, hstage⟩ := hwork _ hpc
  · cases hnil
  rcases hstage.next hload with ⟨rfl, rfl, -, -, hmapped⟩ | ⟨hof, hstore, hrest, hnext⟩
  · exact commit_chunks hp (by simp [hmapped]) hpc
  constructor
  · by_cases hl : ∃ name, effect = .loadIndex name
    · obtain ⟨name, rfl⟩ := hl
      exact load_chunks hsize hp hstage (hload name rfl)
    · exact files_chunks hof (fun name h => hl ⟨name, h⟩) hpc
  · intro effects' hwork'
    rw [hrest] at hwork'
    cases hwork'
    exact Or.inr ⟨start, data, index, hp.congr (by rw [hstore]), hnext⟩

lemma archive_chunks (hdb : node.store.db.Proper codec)
    (hload : LoadsIndex node (.archive .ok)) :
    ChunkStep cfg node (.archive .ok) (node.archive cfg codec) ∧
      (node.archive cfg codec).Archiving cfg := by
  rcases hpc : node.archiver with _ | _ | effects
  · have heq : node.archive cfg codec = node := by simp only [Node.archive, hpc]
    rw [heq]
    exact ⟨.still rfl rfl rfl fun _ hdue => hdue, hwork⟩
  · have hdue : node.archiver.dueCommit = false := by rw [hpc]; rfl
    rcases looping_cases cfg codec hpc with
      ⟨db, heq, -, hmeta⟩ | ⟨start, effects, hstart, hcomplete, hbatch, heq⟩
    · rw [heq]
      exact ⟨.of_not_due hdue rfl (by simp only [hmeta]) rfl, .of_rest fun _ h => by cases h⟩
    · rw [heq]
      refine ⟨.of_not_due hdue rfl rfl rfl, ?_⟩
      rintro _ ⟨⟩
      obtain ⟨blocks, files, -, rfl, -⟩ := archiveBatch_effects hdb hsize hcomplete hbatch
      exact Or.inr ⟨start, files.1, files.2, .of_complete hstart hcomplete, .read⟩
  · rcases effects with _ | ⟨effect, effects⟩
    · simp only [Node.archive, hpc]
      exact ⟨.of_not_due (by rw [hpc]; rfl) rfl rfl rfl, .of_rest fun _ h => by cases h⟩
    · simp only [Node.archive, hpc]
      refine perform_chunks hsize hwork hpc ?_
      rintro name rfl
      exact Option.isSome_iff_ne_none.mp (hload name (by rw [hpc]; rfl)).2

omit hsize in
/-- An error ends the archive where it stands. -/
lemma fail_chunks (left : List Bytes) (hload : LoadsIndex node (.archive (.error left))) :
    ChunkStep cfg node (.archive (.error left)) (node.fail left) ∧
      (node.fail left).Archiving cfg := by
  have hdue : CommitsSucceed node (.archive (.error left)) → node.archiver.dueCommit ≠ true :=
    fun hcommit h => by cases hcommit h
  unfold Node.fail
  split
  · exact ⟨.still rfl rfl rfl fun _ h => h, hwork⟩
  · exact ⟨.still rfl rfl rfl fun hcommit h => absurd h (hdue hcommit),
      .of_rest fun _ h => by cases h⟩
  · next name effects hpc => cases (hload name (by rw [hpc]; rfl)).1
  · exact ⟨.still rfl rfl rfl fun hcommit h => absurd h (hdue hcommit),
      .of_rest fun _ h => by cases h⟩

end Archive

/-- **One operation of a run of writes and archival cycles.** -/
lemma operate_chunks (hsize : 1 ≤ cfg.archiveBatchSize) (hdb : node.store.db.Proper codec)
    (hwork : node.Archiving cfg) (hscope : WritesAndArchives node op)
    (hstep : node.operate cfg codec op = some node') :
    ChunkStep cfg node op node' ∧ node'.Archiving cfg := by
  obtain ⟨hprocess, hhistory, hload⟩ := hscope
  cases op with
  | write block =>
    cases hstep
    refine ⟨write_chunks cfg codec node block, fun effects h => ?_⟩
    refine (hwork effects h).imp_right ?_
    rintro ⟨start, data, index, hp, hstage⟩
    exact ⟨start, data, index, hp.write codec block, hstage⟩
  | writeBatch blocks outcomes => cases hhistory
  | trigger =>
    simp only [Node.operate, Node.step] at hstep
    split at hstep
    · next hpc =>
      cases hstep
      exact ⟨.of_not_due (by rw [hpc]; rfl) rfl rfl rfl, .of_rest fun _ h => by cases h⟩
    · cases hstep
      exact ⟨.still rfl rfl rfl fun _ hdue => hdue, hwork⟩
  | archive outcome =>
    cases hstep
    cases outcome with
    | ok => exact archive_chunks hsize hwork hdb hload
    | error left => exact fail_chunks hwork left hload
  | restart entries => cases hprocess

/-! ### The invariant -/

/-- The loaded chunks are the batches from the first number written to the cursor, and the one at
the cursor if its index has been loaded. Without a cursor there is nothing. -/
structure Node.Tiled (cfg : Config) (node : Node) : Prop where
  unset : node.store.db.metadata .earliestHot = none →
    node.store.log = [] ∧ node.indices = .empty
  tiles : ∀ e, node.store.db.metadata .earliestHot = some e → ∃ first,
    node.store.firstWritten = some first ∧
    (node.indices.get e = none ∧
        Tiles MappedIndex.endBlock cfg.archiveBatchSize first node.indices e ∨
      node.indices.get e ≠ none ∧
        Tiles MappedIndex.endBlock cfg.archiveBatchSize first node.indices
          (e + cfg.archiveBatchSize))

lemma Node.init_tiled (cfg : Config) : (Node.init cfg).Tiled cfg where
  unset _ := ⟨rfl, rfl⟩
  tiles e he := by cases (Store.init_metadata cfg _).symm.trans he

lemma ChunkStep.tiled (hsize : 1 ≤ cfg.archiveBatchSize) (hstep : ChunkStep cfg node op node')
    (h : node.Tiled cfg) : node'.Tiled cfg := by
  cases hstep with
  | still indices earliest log _ =>
    refine ⟨fun he => ?_, fun e he => ?_⟩
    · rw [log, indices]
      exact h.unset (earliest.symm.trans he)
    · rw [Store.firstWritten, log, indices]
      exact h.tiles e (earliest.symm.trans he)
  | wrote n block indices earliest log _ =>
    refine ⟨fun he => ?_, fun e he => ?_⟩
    · rw [earliest] at he
      cases he
    rw [earliest] at he
    rw [indices]
    rcases hold : node.store.db.metadata .earliestHot with _ | e'
    · -- the first block of all is where the chunks are going to begin
      rw [hold] at he
      cases he
      obtain ⟨hlog, hempty⟩ := h.unset hold
      refine ⟨n, by rw [Store.firstWritten, log, hlog]; rfl, Or.inl ?_⟩
      rw [hempty]
      exact ⟨SortedMap.get_empty _, .nil⟩
    · rw [hold] at he
      cases he
      obtain ⟨first, hfirst, htiles⟩ := h.tiles _ hold
      exact ⟨first, Store.firstWritten_cons log hfirst, htiles⟩
  | loaded start m earliest range store indices _ =>
    refine ⟨fun he => ?_, fun e he => ?_⟩
    · rw [store, earliest] at he
      cases he
    rw [store, earliest] at he
    cases he
    rw [store, indices]
    obtain ⟨first, hfirst, htiles⟩ := h.tiles start earliest
    refine ⟨first, hfirst, Or.inr ⟨by simp, ?_⟩⟩
    rcases htiles with ⟨-, htiles⟩ | ⟨hmapped, htiles⟩
    · exact .snoc htiles range
    · obtain ⟨u, hu⟩ := Option.ne_none_iff_exists'.mp hmapped
      exact htiles.replace hu range
  | archived start earliest mapped indices cursor log =>
    refine ⟨fun he => ?_, fun e he => ?_⟩
    · rw [cursor] at he
      cases he
    rw [cursor] at he
    cases he
    rw [Store.firstWritten, log, indices]
    obtain ⟨first, hfirst, ⟨hnone, -⟩ | ⟨-, htiles⟩⟩ := h.tiles start earliest
    · exact absurd hnone mapped
    · exact ⟨first, hfirst, Or.inl ⟨htiles.get_stop hsize, htiles⟩⟩

/-- A chunk ahead of the cursor is there only until the commit that is due. -/
def Node.AheadIsDue (node : Node) : Prop :=
  ∀ e, node.store.db.metadata .earliestHot = some e → node.indices.get e ≠ none →
    node.archiver.dueCommit = true

lemma ChunkStep.aheadIsDue (hsize : 1 ≤ cfg.archiveBatchSize)
    (hstep : ChunkStep cfg node op node') (hcommit : CommitsSucceed node op)
    (ht : node.Tiled cfg) (h : node.AheadIsDue) : node'.AheadIsDue := by
  intro e he hmapped
  cases hstep with
  | still indices earliest log due =>
    rw [earliest] at he
    rw [indices] at hmapped
    exact due hcommit (h e he hmapped)
  | wrote n block indices earliest log archiver =>
    rw [indices] at hmapped
    rcases hold : node.store.db.metadata .earliestHot with _ | e'
    · rw [(ht.unset hold).2] at hmapped
      exact absurd (SortedMap.get_empty _) hmapped
    · rw [earliest, hold] at he
      cases he
      rw [archiver]
      exact h _ hold hmapped
  | loaded _ _ _ _ _ _ due => exact due
  | archived start earliest mapped indices cursor log =>
    rw [cursor] at he
    cases he
    rw [indices] at hmapped
    obtain ⟨first, -, ⟨hnone, -⟩ | ⟨-, htiles⟩⟩ := ht.tiles start earliest
    · exact absurd hnone mapped
    · exact absurd (htiles.get_stop hsize) hmapped

/-! ### Runs -/

/-- What every operation keeps. -/
structure Node.Chunked (cfg : Config) (codec : Codec) (node : Node) : Prop where
  proper : node.Proper codec
  archiving : node.Archiving cfg
  tiled : node.Tiled cfg

lemma Node.init_chunked (cfg : Config) (codec : Codec) : (Node.init cfg).Chunked cfg codec where
  proper := Node.init_proper cfg codec
  archiving := .of_rest fun _ h => by cases h
  tiled := Node.init_tiled cfg

lemma operate_chunked (hsize : 1 ≤ cfg.archiveBatchSize) (h : node.Chunked cfg codec)
    (hscope : WritesAndArchives node op) (hstep : node.operate cfg codec op = some node') :
    ChunkStep cfg node op node' ∧ node'.Chunked cfg codec := by
  obtain ⟨hchunk, hwork⟩ := operate_chunks hsize h.proper.hot h.archiving hscope hstep
  exact ⟨hchunk, operate_proper h.proper hstep, hwork, hchunk.tiled hsize h.tiled⟩

section Run

variable {ops : List Operation} (hsize : 1 ≤ cfg.archiveBatchSize)
  (hrun : run (Node.operate cfg codec) (Node.init cfg) ops = some node)
  (hscope : Along (Node.operate cfg codec) WritesAndArchives (Node.init cfg) ops)

include hsize hrun hscope

lemma run_chunked : node.Chunked cfg codec :=
  run_inv (fun h hop hstep => (operate_chunked hsize h hop hstep).2) (Node.init_chunked cfg codec)
    hscope hrun

lemma run_aheadIsDue
    (hcommits : Along (Node.operate cfg codec) CommitsSucceed (Node.init cfg) ops) :
    node.AheadIsDue := by
  have hinit : (Node.init cfg).AheadIsDue := fun _ _ h => absurd (SortedMap.get_empty _) h
  refine (run_inv (I := fun node => node.Chunked cfg codec ∧ node.AheadIsDue) ?_
    ⟨Node.init_chunked cfg codec, hinit⟩ (hscope.and hcommits) hrun).2
  rintro node op node' ⟨h, hahead⟩ ⟨hop, hcommit⟩ hstep
  obtain ⟨hchunk, hnew⟩ := operate_chunked hsize h hop hstep
  exact ⟨hnew, hchunk.aheadIsDue hsize hcommit h.tiled hahead⟩

/-- So far as numbers go, the loads succeed until the cursor comes to numbers of eleven digits. -/
theorem run_loadsIndex_iff (outcome : Outcome) : LoadsIndex node (.archive outcome) ↔
    node.archiver.dueIndex = none ∨ outcome.isOk = true ∧
      ∃ e, node.store.db.metadata .earliestHot = some e ∧ e + cfg.archiveBatchSize ≤ 10 ^ 10 := by
  have hwork := (run_chunked hsize hrun hscope).archiving
  rcases hdue : node.archiver.dueIndex with _ | name
  · simp [LoadsIndex, hdue]
  · simp only [LoadsIndex, hdue, Option.mem_some_iff, forall_eq', hwork.load_iff hsize hdue,
      reduceCtorEq, false_or]

end Run

/-- The chunks tile some interval at every step. -/
lemma Node.Tiled.exists_tiles (h : node.Tiled cfg) : ∃ first stop,
    Tiles MappedIndex.endBlock cfg.archiveBatchSize first node.indices stop := by
  rcases he : node.store.db.metadata .earliestHot with _ | e
  · rw [(h.unset he).2]
    exact ⟨0, 0, .nil⟩
  · obtain ⟨first, -, ⟨-, htiles⟩ | ⟨-, htiles⟩⟩ := h.tiles e he
    · exact ⟨first, _, htiles⟩
    · exact ⟨first, _, htiles⟩

/-- Where no chunk is ahead of the cursor, the interval is what has been archived. -/
lemma Node.Tiled.covers_iff (h : node.Tiled cfg)
    (hnone : ∀ e, node.store.db.metadata .earliestHot = some e → node.indices.get e = none)
    (n : ℕ) : (∃ k m, node.indices.get k = some m ∧ k ≤ n ∧ n ≤ m.endBlock) ↔
      ∃ first e, node.store.firstWritten = some first ∧
        node.store.db.metadata .earliestHot = some e ∧ first ≤ n ∧ n < e := by
  rcases he : node.store.db.metadata .earliestHot with _ | e
  · simp [(h.unset he).2]
  · obtain ⟨first, hfirst, ⟨-, htiles⟩ | ⟨hmapped, -⟩⟩ := h.tiles e he
    · simp [htiles.covers_iff, hfirst]
    · exact absurd (hnone e he) hmapped

/-- **Archives tile the archived range.** In every state of a run of `write_block` calls and
archival cycles, whatever their steps end in, the loaded chunks are disjoint, each of them has the
numbers of one batch, and the reader looks into the only one that can hold a number. They cover
the numbers from the first one ever written up to `earliest_hot`, except between the load of an
index and its delete commit, provided that no such commit has failed. -/
theorem archives_tile {cfg : Config} (codec : Codec) (hsize : 1 ≤ cfg.archiveBatchSize)
    {ops : List Operation} {node : Node}
    (hrun : run (Node.operate cfg codec) (Node.init cfg) ops = some node)
    (hscope : Along (Node.operate cfg codec) WritesAndArchives (Node.init cfg) ops) :
    (∀ k k' m m', node.indices.get k = some m → node.indices.get k' = some m' → k ≠ k' →
      ∀ n ∈ m.numbers, n ∉ m'.numbers) ∧
    (∀ k m, node.indices.get k = some m → m.numbers.card = cfg.archiveBatchSize) ∧
    (Along (Node.operate cfg codec) CommitsSucceed (Node.init cfg) ops →
      node.archiver.dueCommit = false → ∀ n,
        (∃ k m, node.indices.get k = some m ∧ n ∈ m.numbers) ↔
          ∃ first e, node.store.firstWritten = some first ∧
            node.store.db.metadata .earliestHot = some e ∧ first ≤ n ∧ n < e) ∧
    ∀ n k m, node.indices.get k = some m → n ∈ m.numbers →
      node.indices.seekLE n = some (k, m) := by
  have hchunked := run_chunked hsize hrun hscope
  obtain ⟨first, stop, htiles⟩ := hchunked.tiled.exists_tiles
  have hstart : ∀ {k m}, node.indices.get k = some m → m.startBlock = k := fun hm =>
    (hchunked.proper.loaded _ _ hm).1
  have hseek : ∀ n k m, node.indices.get k = some m → n ∈ m.numbers →
      node.indices.seekLE n = some (k, m) := by
    intro n k m hm hn
    rw [MappedIndex.mem_numbers, hstart hm] at hn
    exact htiles.seekLE hm hn.1 hn.2
  refine ⟨?_, ?_, ?_, hseek⟩
  · intro k k' m m' hm hm' hne n hn hn'
    have heq := (hseek n k m hm hn).symm.trans (hseek n k' m' hm' hn')
    cases heq
    exact hne rfl
  · intro k m hm
    exact MappedIndex.card_numbers (by rw [hstart hm]; exact (htiles.bounds hm).2.2)
  · intro hcommits hdue n
    have hahead := run_aheadIsDue hsize hrun hscope hcommits
    rw [← hchunked.tiled.covers_iff (fun e he => ?_) n]
    · constructor
      · rintro ⟨k, m, hm, hn⟩
        rw [MappedIndex.mem_numbers, hstart hm] at hn
        exact ⟨k, m, hm, hn⟩
      · rintro ⟨k, m, hm, hn⟩
        refine ⟨k, m, hm, ?_⟩
        rw [MappedIndex.mem_numbers, hstart hm]
        exact hn
    · by_contra hmapped
      rw [hahead e he hmapped] at hdue
      cases hdue

/-- Five blocks, one of them below the first, and a cycle that archives two batches. -/
def outOfOrderRun : List Operation :=
  [5, 3, 6, 8, 7].map (fun n => .write (headerBlock n [])) ++ archivalCycle (List.replicate 17 .ok)

theorem archives_tile_outOfOrder :
    ∃ node, run (Node.operate pairConfig plainCodec) (Node.init pairConfig) outOfOrderRun =
      some node ∧ node.indices.keys = [5, 7] ∧
      (∀ k m, node.indices.get k = some m → m.numbers.card = 2) ∧
      ∀ n, (∃ k m, node.indices.get k = some m ∧ n ∈ m.numbers) ↔ 5 ≤ n ∧ n < 9 := by
  have hended : ∃ node ∈ run (Node.operate pairConfig plainCodec) (Node.init pairConfig)
      outOfOrderRun, node.indices.keys = [5, 7] ∧ node.archiver.dueCommit = false ∧
      node.store.firstWritten = some 5 ∧ node.store.db.metadata .earliestHot = some 9 := by
    decide +kernel
  obtain ⟨node, hrun, hkeys, hdue, hfirst, hearliest⟩ := hended
  obtain ⟨-, hcard, hunion, -⟩ := archives_tile plainCodec (by decide) hrun (by decide +kernel)
  refine ⟨node, hrun, hkeys, hcard, fun n => ?_⟩
  rw [hunion (by decide +kernel) hdue n, hfirst, hearliest]
  simp

end RockNode
