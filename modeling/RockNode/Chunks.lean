import RockNode.ArchiverSpec

/-!
The chunks of cold storage and the invariant of durability.

A chunk of cold storage is pending while its blocks are still in the hot tier, whatever its
files hold, and settled once they have left it. The archiver works on the pending chunk only,
so a crash between two of its effects costs nothing, and a settled chunk is never touched
again.
-/

namespace RockNode

/-! ### The files that belong to a chunk -/

/-- The name spells the chunk's numbers. -/
def Owned (start last : ℕ) (name : FileName) : Prop :=
  ∃ ending, name = filenameBase start last ++ ending

lemma owned_data (start last : ℕ) : Owned start last (dataFilename start last) := ⟨_, rfl⟩
lemma owned_index (start last : ℕ) : Owned start last (indexFilename start last) := ⟨_, rfl⟩

lemma Owned.temp {start last : ℕ} {name : FileName} (h : Owned start last name) :
    Owned start last (tempFilename name) := by
  obtain ⟨ending, rfl⟩ := h
  exact ⟨ending ++ ['.', 't', 'm', 'p'], by simp [tempFilename]⟩

lemma Owned.ne {a b la lb : ℕ} {name name' : FileName} (h : Owned a la name)
    (h' : Owned b lb name') (hab : a ≠ b) : name ≠ name' := by
  rintro rfl
  obtain ⟨s, hs⟩ := h
  obtain ⟨t, ht⟩ := h'
  exact hab (filenameBase_first (hs.symm.trans ht))

lemma isIndexName_index (first last : ℕ) : isIndexName (indexFilename first last) = true := by
  rw [isIndexName, extension_indexFilename]
  rfl

lemma isIndexName_data (first last : ℕ) : isIndexName (dataFilename first last) = false := by
  rw [isIndexName, extension_dataFilename]
  rfl

lemma isIndexName_temp {start last : ℕ} {name : FileName} (h : Owned start last name) :
    isIndexName (tempFilename name) = false := by
  obtain ⟨ending, rfl⟩ := h
  rw [isIndexName, extension_tempFilename (by simp [filenameBase_ne_nil])]
  rfl

lemma indexFilename_ne_of_not_index {first last : ℕ} {name : FileName}
    (h : isIndexName name = false) : indexFilename first last ≠ name := by
  rintro rfl
  rw [isIndexName_index] at h
  cases h

lemma dataFilename_ne_temp (first last : ℕ) (name : FileName) (h : name ≠ []) :
    dataFilename first last ≠ tempFilename name := by
  intro heq
  have := congrArg extension heq
  rw [extension_dataFilename, extension_tempFilename h] at this
  exact absurd this (by decide)

/-! ### The invariant -/

section

variable (cfg : Config) (codec : Codec) (node : Node)

/-- The chunk the archiver is at: none of its blocks has left the hot tier. -/
structure Pending (start : ℕ) : Prop where
  earliest : node.store.db.metadata .earliestHot = some start
  hot : ∀ i < cfg.archiveBatchSize, node.store.db.hotBlocks.get (start + i) ≠ none

/-- A chunk the archiver has passed: its files are on disk, its index is loaded, and they
serve every block of it that is not in the hot tier. -/
structure Settled (start : ℕ) : Prop where
  passed : ∃ k, node.store.db.metadata .earliestHot =
    some (start + (k + 1) * cfg.archiveBatchSize)
  serves : ∃ data index, node.disk.get (dataFilename start (cfg.lastOf start)) = some data ∧
    node.disk.get (indexFilename start (cfg.lastOf start)) = some index ∧
    node.indices.get start =
      some ⟨index, start, cfg.lastOf start, dataFilename start (cfg.lastOf start)⟩ ∧
    Serves cfg codec node.store (fun n => node.store.db.hotBlocks.get n = none) start data index

/-- How far an archival of the chunk has come: what is on disk and what is left to do. -/
inductive AtStage (disk : Disk) (indices : Indices) (start last : ℕ) (data index : Bytes)
    (final : Effect) : List Effect → Prop
  | read : AtStage disk indices start last data index final
      (archiveEffects start last data index final)
  | wroteData (h : disk.get (tempFilename (dataFilename start last)) = some data) :
    AtStage disk indices start last data index final
      ((archiveEffects start last data index final).drop 1)
  | wroteIndex (h : disk.get (tempFilename (dataFilename start last)) = some data)
    (h' : disk.get (tempFilename (indexFilename start last)) = some index) :
    AtStage disk indices start last data index final
      ((archiveEffects start last data index final).drop 2)
  | movedData (h : disk.get (dataFilename start last) = some data)
    (h' : disk.get (tempFilename (indexFilename start last)) = some index) :
    AtStage disk indices start last data index final
      ((archiveEffects start last data index final).drop 3)
  | movedIndex (h : disk.get (dataFilename start last) = some data)
    (h' : disk.get (indexFilename start last) = some index) :
    AtStage disk indices start last data index final
      ((archiveEffects start last data index final).drop 4)
  | loaded (h : disk.get (dataFilename start last) = some data)
    (h' : disk.get (indexFilename start last) = some index)
    (h'' : indices.get start = some ⟨index, start, last, dataFilename start last⟩) :
    AtStage disk indices start last data index final
      ((archiveEffects start last data index final).drop 5)

structure Durable : Prop where
  faithful : node.store.Faithful codec
  kept : ∀ {n block}, node.store.last n = some block → node.store.db.hotBlocks.get n = none →
    ∃ start, Settled cfg codec node start ∧ start ≤ n ∧ n < start + cfg.archiveBatchSize
  files : ∀ {name}, node.disk.get name ≠ none → isIndexName name = true →
    ∃ start, name = indexFilename start (cfg.lastOf start) ∧
      (Pending cfg node start ∨ Settled cfg codec node start)
  loaded : ∀ {start m}, node.indices.get start = some m →
    m.startBlock = start ∧ m.endBlock = cfg.lastOf start ∧
      (Pending cfg node start ∨ Settled cfg codec node start)
  work : ∀ {effects}, node.archiver = .working effects → effects = [] ∨
    ∃ start data index, Pending cfg node start ∧
      Serves cfg codec node.store (fun _ => True) start data index ∧
      AtStage node.disk node.indices start (cfg.lastOf start) data index
        (finalEffect start cfg.archiveBatchSize) effects

end

lemma init_durable (cfg : Config) (codec : Codec) : Durable cfg codec (Node.init cfg) := by
  refine ⟨Store.init_faithful cfg codec, ?_, ?_, ?_, ?_⟩
  · intro n block h
    cases h
  · intro name h
    exact absurd rfl h
  · intro start m h
    have : (SortedMap.empty : Indices).get start = some m := h
    simp at this
  · intro effects h
    cases h

variable {cfg : Config} {codec : Codec} {node : Node}

/-- A batch that is complete is all in the hot tier. -/
lemma Pending.of_complete {start : ℕ} (hstart : node.store.db.metadata .earliestHot = some start)
    (hcomplete : isBatchComplete node.store.db start cfg.archiveBatchSize = some true) :
    Pending cfg node start where
  earliest := hstart
  hot i hi := (batchCompleteFrom_eq_true hcomplete i (Nat.zero_le _) (by omega)).2

/-! ### What the invariant says about reads -/

/-- A settled chunk is the one that the reader picks for its numbers. -/
lemma seekLE_settled (hd : Durable cfg codec node) {start n : ℕ} (hs : Settled cfg codec node start)
    (h1 : start ≤ n) (h2 : n < start + cfg.archiveBatchSize) {m : MappedIndex}
    (hm : node.indices.get start = some m) : node.indices.seekLE n = some (start, m) := by
  refine SortedMap.seekLE_eq_some.mpr ⟨hm, h1, ?_⟩
  intro a m' ha hle
  by_contra hlt
  simp only at hlt
  obtain ⟨k, hk⟩ := hs.passed
  -- starts lie a multiple of the batch size apart, so the next one is beyond `n`
  have hmult : ∃ j, start + (k + 1) * cfg.archiveBatchSize = a + j * cfg.archiveBatchSize := by
    rcases (hd.loaded ha).2.2 with hp | hs'
    · have := hp.earliest
      rw [hk] at this
      exact ⟨0, by simpa using this⟩
    · obtain ⟨j, hj⟩ := hs'.passed
      rw [hk] at hj
      exact ⟨j + 1, by simpa using hj⟩
  obtain ⟨j, hj⟩ := hmult
  have hjk : j < k + 1 := by
    by_contra hge
    have := Nat.mul_le_mul_right cfg.archiveBatchSize (Nat.le_of_not_lt hge)
    omega
  have := Nat.mul_le_mul_right cfg.archiveBatchSize (show j + 1 ≤ k + 1 by omega)
  rw [Nat.add_one_mul] at this
  omega

/-- **A durable node reads back the last committed block.** -/
theorem Durable.readBlock (hd : Durable cfg codec node) (hsize : 1 ≤ cfg.archiveBatchSize)
    (n : ℕ) : node.readBlock codec n = some ((node.store.last n).map codec.encode) := by
  rcases hhot : node.store.db.hotBlocks.get n with _ | value
  · have hread : node.readBlock codec n = coldReadBlock codec node.disk node.indices n := by
      simp only [Node.readBlock, hotReadBlock, hhot]
    rw [hread]
    rcases hlast : node.store.last n with _ | block
    · -- no chunk has a record for a number that was never committed
      rcases hseek : node.indices.seekLE n with _ | ⟨a, m⟩
      · simp only [coldReadBlock, hseek, Option.map_none]
      · obtain ⟨hmem, hle, -⟩ := SortedMap.seekLE_eq_some.mp hseek
        obtain ⟨hstart, hend, hchunk⟩ := hd.loaded hmem
        have hrec : m.getRecord n = none := by
          unfold MappedIndex.getRecord
          rw [if_neg]
          rintro ⟨h1, h2⟩
          rw [hstart] at h1
          rw [hend, Config.lastOf] at h2
          rcases hchunk with hp | hs
          · exact hp.hot (n - a) (by omega) (by rwa [show a + (n - a) = n by omega])
          · obtain ⟨data, index, -, -, -, hserves⟩ := hs.serves
            obtain ⟨block, r, hb, -⟩ := hserves n h1 (by omega)
            rw [hlast] at hb
            cases hb
        simp only [coldReadBlock, hseek, hrec, Option.map_none]
    · obtain ⟨start, hs, h1, h2⟩ := hd.kept hlast hhot
      obtain ⟨data, index, hdata, -, hload, hserves⟩ := hs.serves
      obtain ⟨b, r, hb, hrec, hr⟩ := hserves n h1 h2
      obtain rfl : block = b := Option.some.inj (hlast.symm.trans hb)
      have hseek := seekLE_settled hd hs h1 h2 hload
      simp only [coldReadBlock, hseek, hrec, hdata, hr hhot, Option.map_some]
  · obtain ⟨block, hlast, rfl⟩ := hd.faithful.hot hhot
    simp [Node.readBlock, hotReadBlock, hhot, hlast]

end RockNode
