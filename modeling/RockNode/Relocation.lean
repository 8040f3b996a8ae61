import RockNode.Storage

/-!
How a block moves from the hot tier to the cold one.

The archiver publishes a chunk in cold storage before it takes it out of the hot tier. So a
number is read from one of the tiers at every step, provided that the chunk's index is loaded,
that its records hold, and that no other chunk stands in its way or is hidden behind it.
-/

namespace RockNode

/-! ### Where a number is read -/

/-- The number is read from cold storage: from this chunk, by this record. -/
structure Cold (codec : Codec) (node : Node) (n k : ℕ) (m : MappedIndex) (r : IndexRecord)
    (v : Bytes) : Prop where
  hot : node.store.db.hotBlocks.get n = none
  seek : node.indices.seekLE n = some (k, m)
  record : m.getRecord n = some r
  data : readRecord codec (node.disk.get m.dataPath) r = some v

variable {cfg : Config} {codec : Codec} {node : Node} {n k a b : ℕ} {m : MappedIndex}
  {r : IndexRecord} {v : Bytes}

lemma Cold.readBlock (h : Cold codec node n k m r v) : node.readBlock codec n = some (some v) := by
  simp only [Node.readBlock, hotReadBlock, h.hot, coldReadBlock, h.seek, h.record, h.data,
    Option.map_some]

lemma readBlock_of_hot (h : hotReadBlock codec node.store.db n = some (some v)) :
    node.readBlock codec n = some (some v) := by
  simp only [Node.readBlock, h]

lemma readBlock_cases (h : node.readBlock codec n = some (some v)) :
    hotReadBlock codec node.store.db n = some (some v) ∨ ∃ k m r, Cold codec node n k m r v := by
  unfold Node.readBlock at h
  rcases hhot : hotReadBlock codec node.store.db n with _ | _ | bytes
  · simp only [hhot, reduceCtorEq] at h
  · have hnone : node.store.db.hotBlocks.get n = none := by
      unfold hotReadBlock at hhot
      split at hhot
      · assumption
      · simp at hhot
    simp only [hhot, coldReadBlock] at h
    split at h
    · simp at h
    · next k m hseek =>
      split at h
      · simp at h
      · next r hrecord =>
        simp only [Option.map_eq_some_iff, Option.some.injEq, exists_eq_right] at h
        exact Or.inr ⟨k, m, r, hnone, hseek, hrecord, h⟩
  · simp only [hhot] at h
    exact Or.inl h

lemma getRecord_range (h : m.getRecord n = some r) : m.startBlock ≤ n ∧ n ≤ m.endBlock := by
  unfold MappedIndex.getRecord at h
  split at h
  · assumption
  · cases h

/-- The chunk that a number is read from spans it. -/
lemma Cold.range (h : Cold codec node n k m r v) (hp : ProperIndices node.indices) :
    k ≤ n ∧ n ≤ m.endBlock ∧ m.dataPath = dataFilename k m.endBlock := by
  obtain ⟨hget, hle, -⟩ := SortedMap.seekLE_eq_some.mp h.seek
  exact ⟨hle, (getRecord_range h.record).2, (hp k m hget).2.2⟩

/-! ### A chunk beside the others -/

/-- No other chunk starts inside this one, and none that starts before it goes on behind it. -/
def Apart (indices : Indices) (a b : ℕ) : Prop :=
  ∀ e ∈ indices.entries, ¬ (a < e.1 ∧ e.1 ≤ b) ∧ (e.1 ≤ a → e.2.endBlock ≤ b)

instance Apart.decidable (indices : Indices) (a b : ℕ) : Decidable (Apart indices a b) :=
  inferInstanceAs (Decidable (∀ _ ∈ indices.entries, _))

lemma apart_iff {indices : Indices} : Apart indices a b ↔ ∀ k m, indices.get k = some m →
    ¬ (a < k ∧ k ≤ b) ∧ (k ≤ a → m.endBlock ≤ b) := by
  constructor
  · intro h k m hm
    exact h (k, m) (SortedMap.get_eq_some.mp hm)
  · intro h e he
    exact h e.1 e.2 (SortedMap.get_eq_some.mpr he)

/-- The chunk's own index does not stand in its way. -/
lemma Apart.load {disk : Disk} {indices : Indices} (h : Apart indices a b) :
    Apart ((loadIndexFile disk (indexFilename a b) indices).getD indices) a b := by
  rcases hload : loadIndexFile disk (indexFilename a b) indices with _ | indices'
  · exact h
  · obtain ⟨index, -, rfl⟩ := loadIndexFile_index hload
    rw [Option.getD_some, apart_iff]
    intro k m hm
    rw [SortedMap.get_put] at hm
    split at hm
    · next hk =>
      cases hm
      exact ⟨by omega, fun _ => le_rfl⟩
    · exact apart_iff.mp h k m hm

/-! ### What the archive of a chunk leaves alone -/

structure Beside (a b : ℕ) (node node' : Node) : Prop where
  hot : node'.store.db.hotBlocks = node.store.db.hotBlocks
  earliest : node'.store.db.metadata .earliestHot = node.store.db.metadata .earliestHot
  log : node'.store.log = node.store.log
  disk : ∀ name, ¬ Owned a b name → node'.disk.get name = node.disk.get name
  indices : ∀ k, k ≠ a → node'.indices.get k = node.indices.get k
  own : node'.indices.get a = node.indices.get a ∨
    ∃ m, node'.indices.get a = some m ∧ m.endBlock = b

lemma Touches.beside (h : Touches a b node node') : Beside a b node node' where
  hot := by rw [h.store]
  earliest := by rw [h.store]
  log := by rw [h.store]
  disk := h.disk
  indices := h.indices
  own := h.own.imp_right fun ⟨m, hm, _, hend⟩ => ⟨m, hm, hend⟩

lemma Touches.trans {node₁ node₂ node₃ : Node} (h : Touches a b node₁ node₂)
    (h' : Touches a b node₂ node₃) : Touches a b node₁ node₃ where
  store := h'.store.trans h.store
  disk name hname := (h'.disk name hname).trans (h.disk name hname)
  index name hidx hname := (h'.index name hidx hname).trans (h.index name hidx hname)
  indices k hk := (h'.indices k hk).trans (h.indices k hk)
  own := by
    rcases h'.own with hsame | hnew
    · rw [hsame]
      exact h.own
    · exact Or.inr hnew

lemma fail_touches {effects : List Effect} (hwork : node.archiver = .working effects)
    (hof : ∀ name contents, .writeFile name contents ∈ effects →
      OfChunk a b (.writeFile name contents)) (left : List Bytes) :
    Touches a b node (node.fail left) := by
  simp only [Node.fail, hwork]
  split
  · next h => cases h
  · next h => cases h
  · exact .archiver a b node _
  · next h =>
    cases h
    -- the files that a failed write has touched are temporary ones of the chunk
    refine ⟨rfl, fun name hname => ?_, fun name hidx _ => ?_, fun _ _ => rfl, Or.inl rfl⟩
    · refine leave_get fun other contents hmem => ?_
      cases hof _ _ hmem with
      | write howned _ => exact ne_of_not_owned hname howned.temp
    · refine leave_get fun other contents hmem => ?_
      cases hof _ _ hmem with
      | write howned _ => exact ne_of_isIndexName hidx (isIndexName_temp howned)

lemma perform_archiver {effect : Effect} {effects effects' : List Effect}
    (h : (node.perform effects effect).archiver = .working effects') : effects' = effects := by
  cases effect with
  | rename source target =>
    simp only [Node.perform] at h
    split at h <;> cases h
    rfl
  | loadIndex name =>
    simp only [Node.perform] at h
    split at h <;> cases h
    rfl
  | fault => cases h
  | _ =>
    cases h
    rfl

/-- The steps of a call that makes an archive of its own, whatever they end in. -/
lemma finish_touches (cfg : Config) (codec : Codec) (node : Node) (steps : ℕ)
    (outcomes : List Outcome) {effects : List Effect}
    (hof : ∀ effect ∈ effects, OfChunk a b effect) :
    Touches a b node (Node.finish cfg codec steps outcomes
      { node with archiver := .working effects }) := by
  refine (finish_induct (P := fun x => Touches a b node x ∧ ∀ effects, x.archiver =
    .working effects → ∀ effect ∈ effects, OfChunk a b effect) ?_ ⟨.archiver a b node _, ?_⟩).1
  · rintro x effect effects outcome ⟨htouches, hall⟩ hwork
    have hrest : ∀ e ∈ effects, OfChunk a b e := fun e he =>
      hall _ hwork e (List.mem_cons_of_mem _ he)
    cases outcome with
    | ok =>
      simp only [Node.attempt, Node.archive, hwork]
      refine ⟨htouches.trans ((hall _ hwork effect List.mem_cons_self).touches x effects), ?_⟩
      intro effects' h
      rw [perform_archiver h]
      exact hrest
    | error left =>
      refine ⟨htouches.trans (fail_touches hwork (fun _ _ => hall _ hwork _) left),
        fun effects' h => ?_⟩
      simp only [Node.attempt, Node.fail, hwork] at h
      split at h
      · next h' => cases h'
      · next h' => cases h'
      · next h' =>
        cases h'
        cases h
        exact hrest
      · cases h
  · rintro _ ⟨⟩
    exact hof

/-- A historical batch stays beside the chunk from its first to its last number. -/
lemma writeBlockBatch_beside (cfg : Config) (codec : Codec) (node : Node) (blocks : List Block)
    (outcomes : List Outcome) : node.writeBlockBatch cfg codec blocks outcomes = node ∨
    ∃ a ∈ blocks.head? >>= getBlockNumber, ∃ b ∈ blocks.getLast? >>= getBlockNumber,
      Beside a b node (node.writeBlockBatch cfg codec blocks outcomes) ∧
      (node.writeBlockBatch cfg codec blocks outcomes).archiver = node.archiver := by
  rcases writeBlockBatch_cases cfg codec node blocks outcomes with
    heq | ⟨a, b, steps, done, db, ha, hb, hof, hdone, hhot, hearliest, heq⟩
  · exact Or.inl heq
  · have hbeside := (finish_touches cfg codec node steps.length outcomes hof).beside
    rw [← hdone] at hbeside
    refine Or.inr ⟨a, ha, b, hb, ?_, by rw [heq]⟩
    rw [heq]
    exact ⟨hhot.trans hbeside.hot, hearliest.trans hbeside.earliest, hbeside.log, hbeside.disk,
      hbeside.indices, hbeside.own⟩

/-- **A number is not touched by the archive of another chunk**, unless that starts between the
first number of its chunk and itself. -/
lemma Cold.beside (hc : Cold codec node n k m r v) (hp : ProperIndices node.indices)
    {node' : Node} (h : Beside a b node node') (hclear : a ≤ n → a < k) :
    Cold codec node' n k m r v := by
  obtain ⟨hle, -, hpath⟩ := hc.range hp
  obtain ⟨hget, -, hmax⟩ := SortedMap.seekLE_eq_some.mp hc.seek
  have hka : k ≠ a := by
    rintro rfl
    exact lt_irrefl k (hclear hle)
  refine ⟨by rw [h.hot]; exact hc.hot, ?_, hc.record, ?_⟩
  · refine SortedMap.seekLE_eq_some.mpr ⟨by rw [h.indices k hka]; exact hget, hle, ?_⟩
    intro j m' hj hjn
    by_cases hja : j = a
    · exact (hja ▸ hclear (hja ▸ hjn)).le
    · exact hmax j m' (by rw [← h.indices j hja]; exact hj) hjn
  · rw [h.disk, hc.data]
    rw [hpath]
    exact fun howned => Owned.ne (owned_data _ _) howned hka rfl

/-! ### The stages of an archival -/

lemma AtStage.mem {disk : Disk} {indices : Indices} {start last : ℕ} {data index : Bytes}
    {final : Effect} {effects : List Effect}
    (h : AtStage disk indices start last data index final effects) :
    ∀ effect ∈ effects, effect = final ∨ OfChunk start last effect := by
  have hall : ∀ effect ∈ archiveEffects start last data index final,
      effect = final ∨ OfChunk start last effect := by
    intro effect heffect
    simp only [archiveEffects, List.mem_cons, List.not_mem_nil, or_false] at heffect
    rcases heffect with rfl | rfl | rfl | rfl | rfl | rfl
    · exact Or.inr (.write (owned_data start last) _)
    · exact Or.inr (.write (owned_index start last) _)
    · exact Or.inr .moveData
    · exact Or.inr .moveIndex
    · exact Or.inr .load
    · exact Or.inl rfl
  intro effect heffect
  cases h with
  | read => exact hall effect heffect
  | _ => exact hall effect (List.mem_of_mem_drop heffect)

/-! ### What the archiver owes a number -/

section

variable (cfg : Config) (codec : Codec) (node : Node) (n : ℕ)

/-- The archiver is at work on a chunk that stands apart: the chunk is still in the hot tier,
and if the number belongs to it then its files give what the hot tier gives. -/
structure Moving (start : ℕ) (data index : Bytes) (effects : List Effect) : Prop where
  pending : Pending cfg node start
  apart : Apart node.indices start (cfg.lastOf start)
  stage : AtStage node.disk node.indices start (cfg.lastOf start) data index
    (finalEffect start cfg.archiveBatchSize) effects
  serves : start ≤ n → n ≤ cfg.lastOf start → ∀ bytes,
    hotReadBlock codec node.store.db n = some (some bytes) →
    ∃ r, (MappedIndex.mk index start (cfg.lastOf start)
      (dataFilename start (cfg.lastOf start))).getRecord n = some r ∧
      readRecord codec (some data) r = some bytes

def Work : Prop := ∀ effects, node.archiver = .working effects → effects = [] ∨
  ∃ start data index, Moving cfg codec node n start data index effects

/-- The batch that the archiver chooses stands apart from every loaded chunk. -/
def BatchApart : Prop := ∀ start ∈ node.store.db.metadata .earliestHot,
  isBatchComplete node.store.db start cfg.archiveBatchSize = some true →
  Apart node.indices start (cfg.lastOf start)

end

instance BatchApart.decidable (cfg : Config) (node : Node) : Decidable (BatchApart cfg node) :=
  inferInstanceAs (Decidable (∀ _ ∈ _, _))

lemma Pending.hot_ne_none {start : ℕ} (h : Pending cfg node start)
    (hsize : 1 ≤ cfg.archiveBatchSize) (h1 : start ≤ n) (h2 : n ≤ cfg.lastOf start) :
    node.store.db.hotBlocks.get n ≠ none := by
  unfold Config.lastOf at h2
  have := h.hot (n - start) (by omega)
  rwa [show start + (n - start) = n by omega] at this

/-! ### One step of the archiver -/

/-- The index file that is loaded next. -/
def Archiver.dueIndex : Archiver → Option FileName
  | .working (.loadIndex name :: _) => some name
  | _ => none

def Archiver.isLooping : Archiver → Bool
  | .looping => true
  | _ => false

def Outcome.isOk : Outcome → Bool
  | .ok => true
  | .error _ => false

/-- `load_index_file` succeeds whenever the archiver calls it. -/
def LoadsIndex (node : Node) : Operation → Prop
  | .archive outcome => ∀ name ∈ node.archiver.dueIndex,
    outcome.isOk = true ∧ (loadIndexFile node.disk name node.indices).isSome = true
  | _ => True

instance LoadsIndex.decidable (node : Node) : ∀ op, Decidable (LoadsIndex node op)
  | .archive _ => inferInstanceAs (Decidable (∀ _ ∈ _, _))
  | .write _ | .writeBatch _ _ | .trigger | .restart _ => isTrue trivial

/-- A condition on the state in which the archiver looks for a batch. -/
def AtLoop (C : Node → Prop) (node : Node) : Operation → Prop
  | .archive _ => node.archiver.isLooping = true → C node
  | _ => True

instance AtLoop.decidable {C : Node → Prop} [∀ node, Decidable (C node)] (node : Node) :
    ∀ op, Decidable (AtLoop C node op)
  | .archive _ => inferInstanceAs (Decidable (_ → _))
  | .write _ | .writeBatch _ _ | .trigger | .restart _ => isTrue trivial

/-- What a step of the archiver can do. -/
inductive ArchiverStep (cfg : Config) (codec : Codec) (n : ℕ) (node node' : Node) : Prop
  /-- It looks around, ends its cycle or leaves temporary files behind. -/
  | still (hot : node'.store.db.hotBlocks = node.store.db.hotBlocks)
    (earliest : node'.store.db.metadata .earliestHot = node.store.db.metadata .earliestHot)
    (log : node'.store.log = node.store.log) (indices : node'.indices = node.indices)
    (data : ∀ a b, node'.disk.get (dataFilename a b) = node.disk.get (dataFilename a b))
    (rests : ∀ effects, node'.archiver = .working effects → effects = [])
  /-- It has found a batch and read it. -/
  | chosen (start : ℕ) (effects : List Effect) (looping : node.archiver = .looping)
    (earliest : node.store.db.metadata .earliestHot = some start)
    (complete : isBatchComplete node.store.db start cfg.archiveBatchSize = some true)
    (batch : archiveBatch codec node.store.db start cfg.archiveBatchSize = some effects)
    (eq : node' = { node with archiver := .working effects })
  /-- It works on the files or the index of a chunk. -/
  | advanced (start : ℕ) (data index : Bytes) (effect : Effect) (effects : List Effect)
    (moving : Moving cfg codec node n start data index (effect :: effects))
    (ofChunk : OfChunk start (cfg.lastOf start) effect)
    (eq : node' = node.perform effects effect) (store : node'.store = node.store)
    (working : node'.archiver = .working effects)
    (stage : AtStage node'.disk node'.indices start (cfg.lastOf start) data index
      (finalEffect start cfg.archiveBatchSize) effects)
  /-- It takes the chunk out of the hot tier. -/
  | committed (start : ℕ) (data index : Bytes) (effects : List Effect)
    (moving : Moving cfg codec node n start data index effects)
    (data_eq : node.disk.get (dataFilename start (cfg.lastOf start)) = some data)
    (index_eq : node.indices.get start = some ⟨index, start, cfg.lastOf start,
      dataFilename start (cfg.lastOf start)⟩)
    (eq : node' = { node with
      store := ⟨commitBatch (deleteBatch start cfg.archiveBatchSize
        (start + cfg.archiveBatchSize)) node.store.db, node.store.log⟩
      archiver := .working [] })

/-- A data file is no file that a failed write leaves behind. -/
lemma AtStage.leave_data {disk : Disk} {indices : Indices} {start last count : ℕ}
    {data index : Bytes} {effects : List Effect}
    (h : AtStage disk indices start last data index (finalEffect start count) effects)
    (left : List Bytes) (d : Disk) (a b : ℕ) :
    (leave left effects d).get (dataFilename a b) = d.get (dataFilename a b) := by
  refine leave_get fun other contents hmem => ?_
  rcases h.mem _ hmem with hfinal | hof
  · unfold finalEffect at hfinal
    split at hfinal <;> cases hfinal
  · cases hof with
    | write howned _ =>
      obtain ⟨ending, rfl⟩ := howned
      exact dataFilename_ne_temp _ _ _ (by simp [filenameBase_ne_nil])

section Attempt

variable {outcome : Outcome}

lemma attempt_step (hw : Work cfg codec node n) (hload : LoadsIndex node (.archive outcome)) :
    ArchiverStep cfg codec n node (node.attempt cfg codec outcome) := by
  cases outcome with
  | ok =>
    simp only [Node.attempt]
    rcases hpc : node.archiver with _ | _ | effects
    · have heq : node.archive cfg codec = node := by simp only [Node.archive, hpc]
      rw [heq]
      exact .still rfl rfl rfl rfl (fun _ _ => rfl) fun effects h => by simp [hpc] at h
    · rcases looping_cases cfg codec hpc with
        ⟨db, heq, hhot, hmeta⟩ | ⟨start, effects, hstart, hcomplete, hbatch, heq⟩
      · rw [heq]
        exact .still hhot (by simp only [hmeta]) rfl rfl (fun _ _ => rfl) fun _ h => by cases h
      · exact .chosen start effects hpc hstart hcomplete hbatch heq
    · rcases effects with _ | ⟨effect, effects⟩
      · simp only [Node.archive, hpc]
        exact .still rfl rfl rfl rfl (fun _ _ => rfl) fun effects h => by cases h
      · obtain h | ⟨start, data, index, hm⟩ := hw _ hpc
        · cases h
        have heq : node.archive cfg codec = node.perform effects effect := by
          simp only [Node.archive, hpc]
        have hdue : ∀ name, effect = .loadIndex name →
            loadIndexFile node.disk name node.indices ≠ none := by
          rintro name rfl
          exact Option.isSome_iff_ne_none.mp (hload name (by rw [hpc]; rfl)).2
        rw [heq]
        rcases hm.stage.next hdue with
          ⟨rfl, rfl, hdata, -, hindex⟩ | ⟨hof, hstore, hwork, hstage⟩
        · rcases hfinal : checkedAdd start cfg.archiveBatchSize with _ | new
          · simp only [finalEffect, hfinal]
            exact .still rfl rfl rfl rfl (fun _ _ => rfl) fun effects h => by cases h
          · obtain ⟨rfl, -⟩ := checkedAdd_eq_some.mp hfinal
            refine .committed start data index _ hm hdata hindex ?_
            simp only [finalEffect, hfinal, Node.perform]
        · exact .advanced start data index effect effects hm hof rfl hstore hwork hstage
  | error left =>
    simp only [Node.attempt, Node.fail]
    split
    · next hpc =>
      exact .still rfl rfl rfl rfl (fun _ _ => rfl) fun effects h => by simp [hpc] at h
    · exact .still rfl rfl rfl rfl (fun _ _ => rfl) fun effects h => by cases h
    · next name effects hpc => cases (hload name (by rw [hpc]; rfl)).1
    · next effects _ hpc =>
      refine .still rfl rfl rfl rfl (fun a b => ?_) fun effects h => by cases h
      obtain rfl | ⟨start, data, index, hm⟩ := hw _ hpc
      · cases left <;> rfl
      · exact hm.stage.leave_data left node.disk a b

variable {node' : Node} (hsize : 1 ≤ cfg.archiveBatchSize)
  (hstep : ArchiverStep cfg codec n node node')

include hsize hstep

/-- **A number that is read from cold storage stays where it is.** -/
lemma ArchiverStep.cold (hp : ProperIndices node.indices) (hc : Cold codec node n k m r v) :
    Cold codec node' n k m r v := by
  cases hstep with
  | still hot _ _ indices data _ =>
    refine ⟨by rw [hot]; exact hc.hot, by rw [indices]; exact hc.seek, hc.record, ?_⟩
    rw [(hc.range hp).2.2, data, ← (hc.range hp).2.2]
    exact hc.data
  | chosen start effects _ _ _ _ eq =>
    rw [eq]
    exact ⟨hc.hot, hc.seek, hc.record, hc.data⟩
  | advanced start data index effect effects moving ofChunk eq _ _ _ =>
    -- nothing of a chunk that is at work has left the hot tier
    rw [eq]
    refine hc.beside hp (ofChunk.touches node effects).beside fun hle => ?_
    have hout := moving.pending.hot_ne_none hsize hle
    by_contra hka
    have hend := (apart_iff.mp moving.apart k m (SortedMap.seekLE_eq_some.mp hc.seek).1).2
      (by omega)
    exact hout ((hc.range hp).2.1.trans hend) hc.hot
  | committed start data index effects _ _ _ eq =>
    rw [eq]
    refine ⟨?_, hc.seek, hc.record, hc.data⟩
    simp only [commitBatch_hotBlocks, deleteBatch_hot, hc.hot, ite_self]

/-- **A number that is read from the hot tier is read there or in cold storage afterwards.** -/
lemma ArchiverStep.hot (hhot : hotReadBlock codec node.store.db n = some (some v)) :
    node'.readBlock codec n = some (some v) := by
  cases hstep with
  | still hot _ _ _ _ _ =>
    refine readBlock_of_hot ?_
    simpa only [hotReadBlock, hot] using hhot
  | chosen start effects _ _ _ _ eq =>
    rw [eq]
    exact readBlock_of_hot hhot
  | advanced start data index effect effects _ _ _ store _ _ =>
    refine readBlock_of_hot ?_
    rwa [store]
  | committed start data index effects moving data_eq index_eq eq =>
    rw [eq]
    have hlast : cfg.lastOf start = start + cfg.archiveBatchSize - 1 := rfl
    by_cases hin : start ≤ n ∧ n ≤ cfg.lastOf start
    · -- the number leaves the hot tier now, and its chunk is in place
      obtain ⟨r, hrecord, hread⟩ := moving.serves hin.1 hin.2 v hhot
      refine Cold.readBlock (k := start) (r := r) ⟨?_, ?_, hrecord, by rw [data_eq]; exact hread⟩
      · simp only [commitBatch_hotBlocks, deleteBatch_hot]
        rw [if_pos (by omega)]
      · refine SortedMap.seekLE_eq_some.mpr ⟨index_eq, hin.1, fun j m' hj hjn => ?_⟩
        have := (apart_iff.mp moving.apart j m' hj).1
        simp only
        omega
    · refine readBlock_of_hot ?_
      simp only [hotReadBlock, commitBatch_hotBlocks, deleteBatch_hot]
      rw [if_neg (by omega)]
      exact hhot

/-- **A step of the archiver keeps what is read.** -/
theorem ArchiverStep.reads (hp : ProperIndices node.indices)
    (hread : node.readBlock codec n = some (some v)) :
    node'.readBlock codec n = some (some v) := by
  rcases readBlock_cases hread with hhot | ⟨k, m, r, hc⟩
  · exact hstep.hot hsize hhot
  · exact (hstep.cold hsize hp hc).readBlock

/-- The archiver's work stays sound, if the batch it chooses fits and stands apart. -/
lemma ArchiverStep.work (hdb : node.store.db.Proper codec)
    (hchosen : node.archiver = .looping → BatchFits cfg codec node.store.db ∧
      BatchApart cfg node) : Work cfg codec node' n := by
  intro effects' hwork
  cases hstep with
  | still _ _ _ _ _ rests => exact Or.inl (rests effects' hwork)
  | chosen start effects looping earliest complete batch eq =>
    subst eq
    cases hwork
    obtain ⟨hfits, hapart⟩ := hchosen looping
    obtain ⟨data, index, rfl, hserves⟩ :=
      archiveBatch_files hdb hsize earliest hfits complete batch
    refine Or.inr ⟨start, data, index, .of_complete earliest complete,
      hapart start earliest complete, .read, ?_⟩
    intro h1 h2 bytes hbytes
    unfold Config.lastOf at h2
    obtain ⟨block, r, hhot, hrecord, hread⟩ := hserves n h1 (by omega)
    simp only [hotReadBlock, hhot, codec.deserialize_serialize, Option.map_some,
      Option.some.injEq] at hbytes
    exact ⟨r, hrecord, hbytes ▸ hread⟩
  | advanced start data index effect effects moving ofChunk eq store working stage =>
    rw [working] at hwork
    cases hwork
    refine Or.inr ⟨start, data, index, moving.pending.congr (by rw [store]), ?_, stage, ?_⟩
    · rw [eq]
      cases ofChunk with
      | load =>
        simp only [Node.perform]
        split
        · exact moving.apart
        · exact moving.apart.load
      | write => exact moving.apart
      | moveData | moveIndex =>
        simp only [Node.perform]
        split <;> exact moving.apart
    · rw [store]
      exact moving.serves
  | committed start data index effects _ _ _ eq =>
    subst eq
    cases hwork
    exact Or.inl rfl

end Attempt

/-! ### Writes beside the archiver -/

section Write

variable {block : Block}

/-- A block that is written changes what is in the hot tier under its own number only. -/
lemma write_hot_get (hne : getBlockNumber block ≠ some n) (s : Store) :
    (s.write cfg codec block).db.hotBlocks.get n = s.db.hotBlocks.get n := by
  rcases s.write_cases cfg codec block with h | ⟨j, hj, -, hhot, -⟩
  · rw [h]
  · rw [hhot, SortedMap.get_put_of_ne]
    rintro rfl
    exact hne hj

lemma Cold.write (hne : getBlockNumber block ≠ some n) (hc : Cold codec node n k m r v) :
    Cold codec { node with store := node.store.write cfg codec block } n k m r v :=
  ⟨by rw [write_hot_get hne]; exact hc.hot, hc.seek, hc.record, hc.data⟩

lemma readBlock_write (hne : getBlockNumber block ≠ some n)
    (hread : node.readBlock codec n = some (some v)) :
    Node.readBlock codec { node with store := node.store.write cfg codec block } n =
      some (some v) := by
  rcases readBlock_cases hread with hhot | ⟨k, m, r, hc⟩
  · refine readBlock_of_hot ?_
    simpa only [hotReadBlock, write_hot_get hne] using hhot
  · exact (hc.write hne).readBlock

/-- A write takes nothing out of the hot tier and leaves a cursor that is set. -/
lemma Pending.write {start : ℕ} (h : Pending cfg node start) (codec : Codec) (block : Block) :
    Pending cfg { node with store := node.store.write cfg codec block } start := by
  rcases node.store.write_cases cfg codec block with heq | ⟨n, -, -, hhot, hearliest⟩
  · exact h.congr (by rw [heq])
  · refine ⟨by simp only [hearliest, h.earliest, Option.getD_some], fun i hi => ?_⟩
    simp only [hhot, SortedMap.get_put]
    split
    · simp
    · exact h.hot i hi

/-- A write does not disturb the archiver's work on another number, nor on one that is not in
the hot tier. -/
lemma Work.write (hsize : 1 ≤ cfg.archiveBatchSize) (hw : Work cfg codec node n)
    (hn : getBlockNumber block = some n →
      node.archiver = .idle ∨ node.store.db.hotBlocks.get n = none) :
    Work cfg codec { node with store := node.store.write cfg codec block } n := by
  intro effects hwork
  obtain h | ⟨start, data, index, hm⟩ := hw effects hwork
  · exact Or.inl h
  refine Or.inr ⟨start, data, index, hm.pending.write codec block, hm.apart, hm.stage,
    fun h1 h2 bytes hbytes => ?_⟩
  have hne : getBlockNumber block ≠ some n := by
    intro h
    rcases hn h with hidle | hnone
    · rw [hidle] at hwork
      cases hwork
    · exact hm.pending.hot_ne_none hsize h1 h2 hnone
  refine hm.serves h1 h2 bytes ?_
  simpa only [hotReadBlock, write_hot_get hne] using hbytes

end Write

end RockNode
