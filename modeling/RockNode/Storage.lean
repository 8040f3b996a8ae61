import RockNode.Durability

/-!
The storage service as a whole: `write_block`, `write_block_batch`, the archival cycle with
every outcome of its steps, and restarts.

A historical batch makes an archive of its own: the same files, written the same way, whatever
its blocks are. What holds in every run then is only that the hot tier keeps blocks under their
own numbers and that every loaded index belongs to the data file of its name.
-/

namespace RockNode

/-! ### Steps that fail -/

/-- How a step ends. A write that fails has left some bytes in the temporary files it had
opened. -/
inductive Outcome where
  | ok
  | error (left : List Bytes)

def leave : List Bytes → List Effect → Disk → Disk
  | contents :: left, .writeFile name _ :: effects, disk =>
    leave left effects (disk.put name contents)
  | _, _, disk => disk

/-- The step that is due fails. Every error ends the cycle, except that an index that cannot
be loaded is only warned about. -/
def Node.fail (node : Node) (left : List Bytes) : Node :=
  match node.archiver with
  | .idle => node
  | .looping => { node with archiver := .idle }
  | .working (.loadIndex _ :: effects) => { node with archiver := .working effects }
  | .working effects =>
    { node with disk := leave left effects node.disk, archiver := .idle }

def Node.attempt (cfg : Config) (codec : Codec) (node : Node) : Outcome → Node
  | .ok => node.archive cfg codec
  | .error left => node.fail left

/-! ### Historical batches -/

def updateTrueEarliestIfLess (earliest : ℕ) (db : Db) : Db :=
  match db.metadata .trueEarliestPersisted with
  | some current =>
    if earliest < current then commitBatch (setTrueEarliestPersisted earliest) db else db
  | none => commitBatch (setTrueEarliestPersisted earliest) db

/-- At most so many of the steps that are due, each with its outcome. -/
def Node.finish (cfg : Config) (codec : Codec) : ℕ → List Outcome → Node → Node
  | 0, _, node => node
  | steps + 1, outcomes, node =>
    match node.archiver with
    | .working (_ :: _) =>
      Node.finish cfg codec steps outcomes.tail (node.attempt cfg codec (outcomes.headD .ok))
    | _ => node

/-- `write_block_batch`: the archive is written and loaded by the caller's own task. The flag
says whether the call returns `Ok`. -/
def Node.writeBlockBatchResult (cfg : Config) (codec : Codec) (node : Node) (blocks : List Block)
    (outcomes : List Outcome) : Node × Bool :=
  match writeArchive codec blocks with
  | none => (node, blocks.isEmpty)
  | some (effects, indexName) =>
    let steps := effects ++ [.loadIndex indexName]
    let done := Node.finish cfg codec steps.length outcomes { node with archiver := .working steps }
    match done.archiver, blocks.head? >>= getBlockNumber with
    | .working [], some earliest =>
      ({ done with
        store := ⟨updateTrueEarliestIfLess earliest done.store.db, done.store.log⟩
        archiver := node.archiver }, true)
    | _, _ => ({ done with archiver := node.archiver }, false)

def Node.writeBlockBatch (cfg : Config) (codec : Codec) (node : Node) (blocks : List Block)
    (outcomes : List Outcome) : Node :=
  (node.writeBlockBatchResult cfg codec blocks outcomes).1

/-! ### Operations -/

inductive Operation where
  | write (block : Block)
  | writeBatch (blocks : List Block) (outcomes : List Outcome)
  | trigger
  | archive (outcome : Outcome)
  | restart (entries : List FileName)

def Node.operate (cfg : Config) (codec : Codec) (node : Node) : Operation → Option Node
  | .write block => node.step cfg codec (.write block)
  | .writeBatch blocks outcomes => some (node.writeBlockBatch cfg codec blocks outcomes)
  | .trigger => node.step cfg codec .trigger
  | .archive outcome => some (node.attempt cfg codec outcome)
  | .restart entries => node.step cfg codec (.restart entries)

variable {cfg : Config} {codec : Codec} {node : Node}

/-- What the archiver does at the top of its loop leaves everything but its own place and the
list of skipped batches alone. -/
lemma looping_cases (cfg : Config) (codec : Codec) (hloop : node.archiver = .looping) :
    (∃ db, node.archive cfg codec = { node with store := ⟨db, node.store.log⟩, archiver := .idle } ∧
      db.hotBlocks = node.store.db.hotBlocks ∧ db.metadata = node.store.db.metadata) ∨
    ∃ start effects, node.store.db.metadata .earliestHot = some start ∧
      isBatchComplete node.store.db start cfg.archiveBatchSize = some true ∧
      archiveBatch codec node.store.db start cfg.archiveBatchSize = some effects ∧
      node.archive cfg codec = { node with archiver := .working effects } := by
  simp only [Node.archive, hloop]
  rcases loopAction_cases cfg codec node.store.db with
    haction | ⟨start, hstart, -, ⟨-, haction⟩ | ⟨hcomplete, effects, hbatch, haction⟩⟩
  · exact Or.inl ⟨node.store.db, by simp only [haction], rfl, rfl⟩
  · exact Or.inl ⟨commitBatch (addSkippedBatch start) node.store.db, by simp only [haction], rfl,
      rfl⟩
  · exact Or.inr ⟨start, effects, hstart, hcomplete, hbatch, by simp only [haction]⟩

/-! ### The steps of one archive -/

/-- The steps that make the archive of a chunk. -/
def fileEffects (a b : ℕ) (data index : Bytes) : List Effect :=
  [.writeFile (tempFilename (dataFilename a b)) data,
    .writeFile (tempFilename (indexFilename a b)) index,
    .rename (tempFilename (dataFilename a b)) (dataFilename a b),
    .rename (tempFilename (indexFilename a b)) (indexFilename a b)]

/-- Whatever the blocks are, the names say the numbers of the first and the last of them. -/
lemma writeArchive_cases {blocks : List Block} {effects : List Effect} {indexName : FileName}
    (h : writeArchive codec blocks = some (effects, indexName)) :
    ∃ a b files, (blocks.head? >>= getBlockNumber) = some a ∧
      (blocks.getLast? >>= getBlockNumber) = some b ∧ writeRecords codec 0 blocks = some files ∧
      effects = fileEffects a b files.1 files.2 ∧ indexName = indexFilename a b := by
  simp only [writeArchive, Option.bind_eq_bind, Option.bind_eq_some_iff] at h
  obtain ⟨first, hfirst, last, hlast, a, ha, b, hb, files, hfiles, h⟩ := h
  simp only [Option.pure_def, Option.some.injEq, Prod.mk.injEq] at h
  obtain ⟨rfl, rfl⟩ := h
  exact ⟨a, b, files, by simp [hfirst, ha], by simp [hlast, hb], hfiles, rfl, rfl⟩

lemma fileEffects_ofChunk (a b : ℕ) (data index : Bytes) :
    ∀ effect ∈ fileEffects a b data index ++ [.loadIndex (indexFilename a b)],
      OfChunk a b effect := by
  intro effect heffect
  simp only [fileEffects, List.cons_append, List.nil_append, List.mem_cons, List.not_mem_nil,
    or_false] at heffect
  rcases heffect with rfl | rfl | rfl | rfl | rfl
  · exact .write (owned_data a b) _
  · exact .write (owned_index a b) _
  · exact .moveData
  · exact .moveIndex
  · exact .load

lemma archiveBatch_ofChunk {db : Db} {start count : ℕ} {effects : List Effect}
    (h : archiveBatch codec db start count = some effects) : ∀ effect ∈ effects,
      effect = finalEffect start count ∨ ∃ a b, OfChunk a b effect := by
  simp only [archiveBatch, Option.bind_eq_bind, Option.bind_eq_some_iff] at h
  obtain ⟨blocks, -, h⟩ := h
  split at h
  · cases h
    intro effect heffect
    cases heffect
  · simp only [Option.bind_eq_some_iff] at h
    obtain ⟨⟨effects, indexName⟩, harchive, h⟩ := h
    cases h
    obtain ⟨a, b, files, -, -, -, rfl, rfl⟩ := writeArchive_cases harchive
    have hall := fileEffects_ofChunk a b files.1 files.2
    intro effect heffect
    simp only [List.mem_append, List.mem_cons, List.not_mem_nil, or_false] at heffect
    rcases heffect with heffect | rfl | heffect
    · exact Or.inr ⟨a, b, hall effect (by simp [heffect])⟩
    · exact Or.inr ⟨a, b, hall _ (by simp)⟩
    · exact Or.inl heffect

/-! ### The name of an archive -/

/-- **An archive's name gives its numbers back exactly when they have at most ten digits.** The
batch may be any that `write_archive` accepts, from `first` to `last`. -/
theorem writeArchive_name_iff {codec : Codec} {blocks : List Block} {effects : List Effect}
    {name : FileName} (first last : UInt64) (h : writeArchive codec blocks = some (effects, name))
    (hfirst : (blocks.head? >>= getBlockNumber) = some first.toNat)
    (hlast : (blocks.getLast? >>= getBlockNumber) = some last.toNat) (hle : first ≤ last) :
    parseBlockRange name = some (first.toNat, last.toNat) ↔ last.toNat < 10 ^ 10 := by
  obtain ⟨a, b, files, ha, hb, -, -, rfl⟩ := writeArchive_cases h
  obtain rfl : a = first.toNat := Option.some.inj (ha.symm.trans hfirst)
  obtain rfl : b = last.toNat := Option.some.inj (hb.symm.trans hlast)
  have hnat : first.toNat ≤ last.toNat := hle
  rw [parseBlockRange_eq]
  constructor
  · intro hparse
    split at hparse
    · next hlt => exact hlt.2
    · cases hparse
  · intro hlt
    rw [if_pos ⟨by omega, hlt⟩]

theorem writeArchive_name_iff_pair :
    ∃ effects name, writeArchive plainCodec [headerBlock 7 [], headerBlock 8 [1]] =
      some (effects, name) ∧ parseBlockRange name = some (7, 8) := by
  have hsome : (writeArchive plainCodec [headerBlock 7 [], headerBlock 8 [1]]).isSome = true := by
    decide +kernel
  obtain ⟨⟨effects, name⟩, h⟩ := Option.isSome_iff_exists.mp hsome
  exact ⟨effects, name, h,
    (writeArchive_name_iff 7 8 h rfl rfl (by decide)).mpr (by decide)⟩

theorem writeArchive_name_lost : ¬ ∀ (codec : Codec) (blocks : List Block) (effects : List Effect)
    (name : FileName) (first last : UInt64), writeArchive codec blocks = some (effects, name) →
      (blocks.head? >>= getBlockNumber) = some first.toNat →
      (blocks.getLast? >>= getBlockNumber) = some last.toNat → first ≤ last →
      parseBlockRange name = some (first.toNat, last.toNat) := by
  intro h
  have hlost : ∃ archive ∈ writeArchive plainCodec [headerBlock 10000000000 []],
      parseBlockRange archive.2 = none := by decide +kernel
  obtain ⟨⟨effects, name⟩, harchive, hnone⟩ := hlost
  have hparse := h plainCodec _ effects name 10000000000 10000000000 harchive rfl rfl (by decide)
  rw [hnone] at hparse
  cases hparse

/-! ### What holds in every run -/

/-- The step writes no index file and loads none but under names of the archive's own, and
puts nothing into the hot tier. -/
def Effect.Proper : Effect → Prop
  | .writeFile name _ => isIndexName name = false
  | .rename _ target => isIndexName target = true → ∃ a b, target = indexFilename a b
  | .loadIndex name => ∃ a b, name = indexFilename a b
  | .commit batch => ∀ m n value, (batchHot batch m).get n = some value → m.get n = some value
  | .fault => True

/-- Every loaded index is kept under its first number and knows its data file. -/
def ProperIndices (indices : Indices) : Prop :=
  ∀ k m, indices.get k = some m →
    m.startBlock = k ∧ k ≤ m.endBlock ∧ m.dataPath = dataFilename k m.endBlock

structure Node.Proper (codec : Codec) (node : Node) : Prop where
  hot : node.store.db.Proper codec
  loaded : ProperIndices node.indices
  files : ∀ {name}, node.disk.get name ≠ none → isIndexName name = true →
    ∃ a b, name = indexFilename a b
  work : ∀ {effects}, node.archiver = .working effects → ∀ effect ∈ effects, effect.Proper

lemma OfChunk.proper {a b : ℕ} {effect : Effect} (h : OfChunk a b effect) : effect.Proper := by
  cases h with
  | write hname _ => exact isIndexName_temp hname
  | moveData =>
    intro hidx
    rw [isIndexName_data] at hidx
    cases hidx
  | moveIndex => exact fun _ => ⟨a, b, rfl⟩
  | load => exact ⟨a, b, rfl⟩

lemma finalEffect_proper (start count : ℕ) : (finalEffect start count).Proper := by
  unfold finalEffect
  split
  · trivial
  · intro m n value h
    rw [deleteBatch_hot] at h
    split at h
    · cases h
    · exact h

/-- A file that is loaded has a name that runs forwards and that the reader recognises. -/
lemma loadIndexFile_range {disk : Disk} {a b : ℕ} {indices indices' : Indices}
    (h : loadIndexFile disk (indexFilename a b) indices = some indices') :
    a ≤ b ∧ b < 10 ^ 10 := by
  simp only [loadIndexFile, parseBlockRange_eq, Option.bind_eq_bind, Option.bind_eq_some_iff] at h
  obtain ⟨range, hrange, data, -, index, -, h⟩ := h
  split at hrange
  · next hlt =>
    cases hrange
    split at h
    · cases h
    · next hle => exact ⟨Nat.le_of_not_lt hle, hlt.2⟩
  · cases hrange

lemma ProperIndices.empty : ProperIndices .empty := by
  intro k m h
  rw [SortedMap.get_empty] at h
  cases h

lemma ProperIndices.load {disk : Disk} {a b : ℕ} {indices : Indices}
    (hproper : ProperIndices indices) :
    ProperIndices ((loadIndexFile disk (indexFilename a b) indices).getD indices) := by
  rcases hload : loadIndexFile disk (indexFilename a b) indices with _ | indices'
  · exact hproper
  · have hle := (loadIndexFile_range hload).1
    obtain ⟨index, -, rfl⟩ := loadIndexFile_index hload
    intro k m hm
    rw [Option.getD_some, SortedMap.get_put] at hm
    split at hm
    · next hk =>
      cases hm
      exact ⟨hk.symm, hk.trans_le hle, by rw [hk]⟩
    · exact hproper k m hm

/-- The scan meets nothing but files that the service itself has named. -/
lemma ProperIndices.scan {disk : Disk} {entries : List FileName}
    (hfiles : ∀ name ∈ entries, isIndexName name = true → ∃ a b, name = indexFilename a b) :
    ProperIndices (scanAndBuildIndex disk entries) := by
  suffices h : ∀ indices, ProperIndices indices → ProperIndices (entries.foldl
      (fun indices name => if isIndexName name then
        (loadIndexFile disk name indices).getD indices else indices) indices) from
    h .empty ProperIndices.empty
  induction entries with
  | nil => exact fun _ h => h
  | cons name entries ih =>
    intro indices h
    refine ih (fun other hother => hfiles other (List.mem_cons_of_mem _ hother)) _ ?_
    by_cases hidx : isIndexName name = true
    · obtain ⟨a, b, rfl⟩ := hfiles name List.mem_cons_self hidx
      simp only [hidx, if_true]
      exact h.load
    · simpa only [hidx, Bool.false_eq_true, if_false] using h

lemma Node.init_proper (cfg : Config) (codec : Codec) : (Node.init cfg).Proper codec where
  hot := (Store.init_faithful cfg codec).proper
  loaded := ProperIndices.empty
  files h := absurd (SortedMap.get_empty _) h
  work h := by cases h

/-- The place of the archiver can be changed to any proper one. -/
lemma Node.Proper.of_archiver (h : node.Proper codec) {s : Store} {a : Archiver}
    (hs : s.db.hotBlocks = node.store.db.hotBlocks)
    (ha : ∀ {effects}, a = .working effects → ∀ effect ∈ effects, effect.Proper) :
    Node.Proper codec { node with store := s, archiver := a } where
  hot := by
    intro n value hvalue
    rw [hs] at hvalue
    exact h.hot hvalue
  loaded := h.loaded
  files := h.files
  work := ha

lemma perform_proper (h : node.Proper codec) {effect : Effect} {effects : List Effect}
    (hwork : node.archiver = .working (effect :: effects)) :
    (node.perform effects effect).Proper codec := by
  have hall := h.work hwork
  have heffect := hall effect List.mem_cons_self
  have hrest : ∀ {effects'}, Archiver.working effects = .working effects' →
      ∀ e ∈ effects', e.Proper := by
    rintro _ ⟨⟩ e he
    exact hall e (List.mem_cons_of_mem _ he)
  cases effect with
  | writeFile name contents =>
    refine ⟨h.hot, h.loaded, fun {other} hother hidx => ?_, hrest⟩
    refine h.files ?_ hidx
    rwa [← SortedMap.get_put_of_ne node.disk contents (ne_of_isIndexName hidx heffect)]
  | rename source target =>
    simp only [Node.perform]
    split
    · exact h.of_archiver rfl fun ha => by cases ha
    · next contents _ =>
      refine ⟨h.hot, h.loaded, fun {other} hother hidx => ?_, hrest⟩
      simp only [SortedMap.get_put, SortedMap.get_erase] at hother
      split at hother
      · next heq =>
        subst heq
        exact heffect hidx
      · split at hother
        · exact absurd rfl hother
        · exact h.files hother hidx
  | loadIndex name =>
    obtain ⟨a, b, rfl⟩ := heffect
    simp only [Node.perform]
    split
    · exact h.of_archiver rfl fun ha => by cases ha
    · exact ⟨h.hot, h.loaded.load, h.files, hrest⟩
  | commit batch =>
    refine ⟨fun {n value} hvalue => ?_, h.loaded, h.files, hrest⟩
    simp only [Node.perform, commitBatch_hotBlocks] at hvalue
    exact h.hot (heffect _ _ _ hvalue)
  | fault => exact h.of_archiver rfl fun ha => by cases ha

/-- The files that a failed write leaves behind are temporary ones. -/
lemma leave_get {left : List Bytes} {effects : List Effect} {disk : Disk} {name : FileName}
    (h : ∀ other contents, .writeFile other contents ∈ effects → name ≠ other) :
    (leave left effects disk).get name = disk.get name := by
  fun_induction leave left effects disk with
  | case1 contents left other contents' effects disk ih =>
    rw [ih fun other' c hmem => h other' c (List.mem_cons_of_mem _ hmem)]
    exact SortedMap.get_put_of_ne _ _ (h other contents' List.mem_cons_self)
  | case2 => rfl

lemma fail_proper (h : node.Proper codec) (left : List Bytes) : (node.fail left).Proper codec := by
  unfold Node.fail
  split
  · exact h
  · exact h.of_archiver rfl fun ha => by cases ha
  · next name effects hwork =>
    refine h.of_archiver rfl ?_
    rintro _ ⟨⟩ e he
    exact h.work hwork e (List.mem_cons_of_mem _ he)
  · next effects _ hwork =>
    refine ⟨h.hot, h.loaded, fun {name} hname hidx => ?_, fun ha => by cases ha⟩
    rw [leave_get fun other c hmem => ?_] at hname
    · exact h.files hname hidx
    · exact ne_of_isIndexName hidx (h.work hwork _ hmem)

lemma archive_proper (h : node.Proper codec) : (node.archive cfg codec).Proper codec := by
  rcases hpc : node.archiver with _ | _ | effects
  · simpa only [Node.archive, hpc] using h
  · rcases looping_cases cfg codec hpc with
      ⟨db, heq, hhot, -⟩ | ⟨start, effects, -, -, hbatch, heq⟩
    · rw [heq]
      exact h.of_archiver hhot fun ha => by cases ha
    · rw [heq]
      refine h.of_archiver rfl ?_
      rintro _ ⟨⟩ effect heffect
      rcases archiveBatch_ofChunk hbatch effect heffect with rfl | ⟨a, b, hof⟩
      · exact finalEffect_proper _ _
      · exact hof.proper
  · rcases effects with _ | ⟨effect, effects⟩
    · simp only [Node.archive, hpc]
      exact h.of_archiver rfl fun ha => by cases ha
    · simp only [Node.archive, hpc]
      exact perform_proper h hpc

lemma attempt_proper (h : node.Proper codec) (outcome : Outcome) :
    (node.attempt cfg codec outcome).Proper codec := by
  cases outcome with
  | ok => exact archive_proper h
  | error left => exact fail_proper h left

/-- **What every step of a call keeps, the call keeps.** -/
lemma finish_induct {P : Node → Prop} {steps : ℕ} {outcomes : List Outcome}
    (hstep : ∀ {node effect effects outcome}, P node →
      node.archiver = .working (effect :: effects) → P (node.attempt cfg codec outcome))
    (h : P node) : P (node.finish cfg codec steps outcomes) := by
  induction steps generalizing node outcomes with
  | zero => exact h
  | succ steps ih =>
    unfold Node.finish
    split
    · next hwork => exact ih (hstep h hwork)
    · exact h

lemma updateTrueEarliestIfLess_frame (earliest : ℕ) (db : Db) :
    (updateTrueEarliestIfLess earliest db).hotBlocks = db.hotBlocks ∧
      (updateTrueEarliestIfLess earliest db).metadata .earliestHot = db.metadata .earliestHot := by
  unfold updateTrueEarliestIfLess
  split
  · split
    · exact ⟨rfl, rfl⟩
    · exact ⟨rfl, rfl⟩
  · exact ⟨rfl, rfl⟩

/-- A historical batch does nothing, or what the steps of its archive do, and then it may lower
the earliest number. -/
lemma writeBlockBatch_cases (cfg : Config) (codec : Codec) (node : Node) (blocks : List Block)
    (outcomes : List Outcome) :
    node.writeBlockBatch cfg codec blocks outcomes = node ∨
    ∃ a b steps done db, (blocks.head? >>= getBlockNumber) = some a ∧
      (blocks.getLast? >>= getBlockNumber) = some b ∧ (∀ effect ∈ steps, OfChunk a b effect) ∧
      done = Node.finish cfg codec steps.length outcomes { node with archiver := .working steps } ∧
      db.hotBlocks = done.store.db.hotBlocks ∧
      db.metadata .earliestHot = done.store.db.metadata .earliestHot ∧
      node.writeBlockBatch cfg codec blocks outcomes =
        { done with store := ⟨db, done.store.log⟩, archiver := node.archiver } := by
  unfold Node.writeBlockBatch Node.writeBlockBatchResult
  split
  · exact Or.inl rfl
  · next effects indexName harchive =>
    obtain ⟨a, b, files, ha, hb, -, rfl, rfl⟩ := writeArchive_cases harchive
    have hall := fileEffects_ofChunk a b files.1 files.2
    right
    simp only
    split
    · next earliest _ _ =>
      obtain ⟨h1, h2⟩ := updateTrueEarliestIfLess_frame earliest (Node.finish cfg codec
        (fileEffects a b files.1 files.2 ++ [Effect.loadIndex (indexFilename a b)]).length outcomes
        { node with archiver := .working (fileEffects a b files.1 files.2 ++
          [.loadIndex (indexFilename a b)]) }).store.db
      exact ⟨a, b, _, _, _, ha, hb, hall, rfl, h1, h2, rfl⟩
    · exact ⟨a, b, _, _, _, ha, hb, hall, rfl, rfl, rfl, rfl⟩

lemma writeBlockBatch_proper (h : node.Proper codec) (blocks : List Block)
    (outcomes : List Outcome) : (node.writeBlockBatch cfg codec blocks outcomes).Proper codec := by
  rcases writeBlockBatch_cases cfg codec node blocks outcomes with
    heq | ⟨a, b, steps, done, db, -, -, hall, hdone, hhot, -, heq⟩
  · rwa [heq]
  · rw [heq]
    have hproper : done.Proper codec := by
      rw [hdone]
      refine finish_induct (P := Node.Proper codec) (fun h _ => attempt_proper h _) ?_
      refine h.of_archiver rfl ?_
      rintro _ ⟨⟩ effect heffect
      exact (hall effect heffect).proper
    exact hproper.of_archiver hhot h.work

lemma restart_proper (h : node.Proper codec) {entries : List FileName}
    (hperm : entries.Perm node.disk.keys) : (node.restart cfg entries).Proper codec := by
  obtain ⟨hhot, -⟩ := initializeDb_frame cfg (scanAndBuildIndex node.disk entries) node.store.db
  refine ⟨?_, ProperIndices.scan fun name hname hidx => ?_, h.files, fun ha => by cases ha⟩
  · intro n value hvalue
    rw [Node.restart] at hvalue
    simp only [hhot] at hvalue
    exact h.hot hvalue
  · exact h.files (SortedMap.mem_keys.mp (hperm.mem_iff.mp hname)) hidx

lemma operate_proper (h : node.Proper codec) {op : Operation} {node' : Node}
    (hstep : node.operate cfg codec op = some node') : node'.Proper codec := by
  cases op with
  | write block =>
    cases hstep
    refine ⟨?_, h.loaded, h.files, h.work⟩
    rcases node.store.write_cases cfg codec block with heq | ⟨n, hn, -, hhot, -⟩
    · rw [heq]
      exact h.hot
    · intro m value hvalue
      simp only [hhot, SortedMap.get_put] at hvalue
      split at hvalue
      · next hm =>
        cases hvalue
        exact ⟨block, by rw [hn, hm], rfl⟩
      · exact h.hot hvalue
  | writeBatch blocks outcomes =>
    cases hstep
    exact writeBlockBatch_proper h blocks outcomes
  | trigger =>
    simp only [Node.operate, Node.step] at hstep
    split at hstep
    · cases hstep
      exact h.of_archiver rfl fun ha => by cases ha
    · cases hstep
      exact h
  | archive outcome =>
    cases hstep
    exact attempt_proper h outcome
  | restart entries =>
    simp only [Node.operate, Node.step] at hstep
    split at hstep
    · next hperm =>
      cases hstep
      exact restart_proper h hperm
    · cases hstep

/-- Every node that is reached is proper. -/
theorem run_proper {cfg : Config} {codec : Codec} {ops : List Operation} {node : Node}
    (hrun : run (Node.operate cfg codec) (Node.init cfg) ops = some node) : node.Proper codec :=
  run_inv_of_step (fun h hstep => operate_proper h hstep) (Node.init_proper cfg codec) hrun

end RockNode
