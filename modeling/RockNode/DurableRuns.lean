import RockNode.Durability
import RockNode.Refinement
import RockNode.ValueLimit

/-!
Durability across tiers and crashes.

The record of a block has four bytes for the length of its compressed encoding, and a longer
one is cut down without a word. Where every archived block fits, nothing is ever lost; a
block that does not fit cannot be read again once it has left the hot tier. RocksDB has the same
limit on the value that is stored, but compression adds to what it cannot make shorter, so a
block may be taken into the hot tier and still be too long for its record.
-/

namespace RockNode

variable {cfg : Config} {codec : Codec} {node node' : Node}

/-! ### The conditions of a run -/

/-- Blocks are written between archival cycles, not during one. -/
def OneAtATime (node : Node) : Act → Prop
  | .write _ =>
    match node.archiver with
    | .idle => True
    | _ => False
  | _ => True

instance OneAtATime.decidable (node : Node) : ∀ act, Decidable (OneAtATime node act)
  | .write _ =>
    match h : node.archiver with
    | .idle => isTrue (by simp [OneAtATime, h])
    | .looping => isFalse (by simp [OneAtATime, h])
    | .working _ => isFalse (by simp [OneAtATime, h])
  | .trigger => isTrue trivial
  | .archive => isTrue trivial
  | .restart _ => isTrue trivial

/-- Every call of `load_index_file` succeeds. -/
def LoadsSucceed (node : Node) : Act → Prop
  | .archive =>
    match node.archiver with
    | .working (.loadIndex name :: _) => (loadIndexFile node.disk name node.indices).isSome = true
    | _ => True
  | .restart entries => ∀ name ∈ entries, isIndexName name = true →
    (loadIndexFile node.disk name .empty).isSome = true
  | _ => True

instance LoadsSucceed.decidable (node : Node) : ∀ act, Decidable (LoadsSucceed node act)
  | .archive =>
    match h : node.archiver with
    | .working (.loadIndex name :: _) =>
      decidable_of_iff ((loadIndexFile node.disk name node.indices).isSome = true)
        (by simp [LoadsSucceed, h])
    | .idle => isTrue (by simp [LoadsSucceed, h])
    | .looping => isTrue (by simp [LoadsSucceed, h])
    | .working [] => isTrue (by simp [LoadsSucceed, h])
    | .working (.writeFile _ _ :: _) => isTrue (by simp [LoadsSucceed, h])
    | .working (.rename _ _ :: _) => isTrue (by simp [LoadsSucceed, h])
    | .working (.commit _ :: _) => isTrue (by simp [LoadsSucceed, h])
    | .working (.fault :: _) => isTrue (by simp [LoadsSucceed, h])
  | .restart entries => inferInstanceAs (Decidable (∀ _ ∈ entries, _))
  | .write _ => isTrue trivial
  | .trigger => isTrue trivial

/-- Every block of a batch that is being archived compresses to fewer than `2 ^ 32` bytes. -/
def BatchesFit (cfg : Config) (codec : Codec) (node : Node) : Act → Prop
  | .archive =>
    match node.archiver with
    | .looping => BatchFits cfg codec node.store.db
    | _ => True
  | _ => True

instance BatchesFit.decidable (cfg : Config) (codec : Codec) (node : Node) :
    ∀ act, Decidable (BatchesFit cfg codec node act)
  | .archive =>
    match h : node.archiver with
    | .looping => decidable_of_iff (BatchFits cfg codec node.store.db) (by simp [BatchesFit, h])
    | .idle => isTrue (by simp [BatchesFit, h])
    | .working _ => isTrue (by simp [BatchesFit, h])
  | .restart _ => isTrue trivial
  | .write _ => isTrue trivial
  | .trigger => isTrue trivial

lemma step_durable (hd : Durable cfg codec node) (hsize : 1 ≤ cfg.archiveBatchSize) {act : Act}
    (hone : OneAtATime node act) (hload : LoadsSucceed node act)
    (hfit : BatchesFit cfg codec node act) (h : node.step cfg codec act = some node') :
    Durable cfg codec node' := by
  cases act with
  | write block =>
    cases h
    refine write_durable hd ?_ block
    simp only [OneAtATime] at hone
    split at hone
    · assumption
    · cases hone
  | trigger =>
    simp only [Node.step] at h
    split at h
    · cases h
      exact hd.of_archiver fun h => by cases h
    · cases h
      exact hd
  | archive =>
    cases h
    rcases hpc : node.archiver with _ | _ | effects
    · simpa only [Node.archive, hpc] using hd
    · simp only [BatchesFit, hpc] at hfit
      exact looping_durable hd hsize hpc hfit
    · rcases effects with _ | ⟨effect, effects⟩
      · simp only [Node.archive, hpc]
        exact hd.of_archiver fun h => by cases h
      · simp only [Node.archive, hpc]
        refine perform_durable hd hsize hpc ?_
        rintro name rfl
        simp only [LoadsSucceed, hpc] at hload
        exact Option.isSome_iff_ne_none.mp hload
  | restart entries =>
    simp only [Node.step] at h
    split at h
    · next hperm =>
      cases h
      refine restart_durable hd hperm fun name hname hidx => ?_
      exact Option.isSome_iff_ne_none.mp (hload name hname hidx)
    · cases h

/-! ### A block that is archived alone -/

/-- The effects of an archival of block 0 alone, one after the other. -/
lemma run_archive_zero (codec : Codec) (s : Store) (data index : Bytes) :
    ∃ node, run (Node.step zeroConfig codec)
      ⟨s, .empty, .empty, .working (archiveEffects 0 0 data index (finalEffect 0 1))⟩
      (List.replicate 6 .archive) = some node ∧
      Along (Node.step zeroConfig codec)
        (fun node act => OneAtATime node act ∧ LoadsSucceed node act)
        ⟨s, .empty, .empty, .working (archiveEffects 0 0 data index (finalEffect 0 1))⟩
        (List.replicate 6 .archive) ∧
      node.store = ⟨commitBatch (deleteBatch 0 1 1) s.db, s.log⟩ ∧
      node.disk.get (dataFilename 0 0) = some data ∧
      node.indices = SortedMap.empty.put 0 ⟨index, 0, 0, dataFilename 0 0⟩ := by
  have hdi : dataFilename 0 0 ≠ indexFilename 0 0 := dataFilename_ne_indexFilename 0 0
  have hdt := dataFilename_ne_temp_index 0 0
  have htt := temp_data_ne_temp_index 0 0
  set d1 : Disk := SortedMap.empty.put (tempFilename (dataFilename 0 0)) data with hd1
  set d2 : Disk := d1.put (tempFilename (indexFilename 0 0)) index with hd2
  set d3 : Disk := (d2.erase (tempFilename (dataFilename 0 0))).put (dataFilename 0 0) data with hd3
  set d4 : Disk := (d3.erase (tempFilename (indexFilename 0 0))).put (indexFilename 0 0) index
    with hd4
  have h2 : d2.get (tempFilename (dataFilename 0 0)) = some data := by
    rw [hd2, SortedMap.get_put_of_ne _ _ htt, hd1, SortedMap.get_put_self]
  have h3 : d3.get (tempFilename (indexFilename 0 0)) = some index := by
    rw [hd3, get_rename htt.symm hdt.symm, hd2, SortedMap.get_put_self]
  have h4 : d4.get (dataFilename 0 0) = some data := by
    rw [hd4, get_rename hdt hdi, hd3, SortedMap.get_put_self]
  have h5 : d4.get (indexFilename 0 0) = some index := SortedMap.get_put_self _ _ _
  have hload : loadIndexFile d4 (indexFilename 0 0) .empty =
      some (SortedMap.empty.put 0 ⟨index, 0, 0, dataFilename 0 0⟩) := by
    simp [loadIndexFile, parseBlockRange_eq, withExtension_indexFilename, h4, h5]
  have hno := loadFaults_of_load hload
  refine ⟨⟨⟨commitBatch (deleteBatch 0 1 1) s.db, s.log⟩, d4,
    SortedMap.empty.put 0 ⟨index, 0, 0, dataFilename 0 0⟩, .working []⟩, ?_, ?_, rfl, h4, rfl⟩
  · simp [List.replicate, run, Node.step, Node.archive, archiveEffects, finalEffect, Node.perform,
      ← hd1, ← hd2, h2, ← hd3, h3, ← hd4, hno, hload, checkedAdd, u64Max]
  · simp [List.replicate, Along, Node.step, Node.archive, archiveEffects, finalEffect, Node.perform,
      ← hd1, ← hd2, h2, ← hd3, h3, ← hd4, hno, hload, checkedAdd, u64Max, OneAtATime,
      LoadsSucceed]

/-- Block 0 on an empty store, kept in the hot tier until the archiver comes. -/
lemma write_zero (codec : Codec) {block : Block} (hn : getBlockNumber block = some 0) :
    ((Store.init zeroConfig).write zeroConfig codec block).log = [(0, block)] ∧
    ((Store.init zeroConfig).write zeroConfig codec block).db.hotBlocks =
      SortedMap.empty.put 0 (codec.serialize (codec.encode block)) ∧
    ((Store.init zeroConfig).write zeroConfig codec block).db.metadata .earliestHot = some 0 ∧
    ((Store.init zeroConfig).write zeroConfig codec block).db.metadata .latestPersisted =
      none := by
  have hrun := contiguousOps_below (Store.init_good zeroConfig) (Nat.zero_le _)
  have hops := (contiguousOps_ensures _ _ _).of_run hrun
  simp only [Store.write, hn, prepareBatch_run, hrun, Option.map_some, commitBatch_hotBlocks,
    commitBatch_metadata, fullBatch_hot _ _ _ _ _ _ _ hops,
    fullBatch_earliestHot _ _ _ _ _ _ _ hops, fullBatch_latest _ _ _ _ _ _ _ hops]
  exact ⟨rfl, rfl, rfl, rfl⟩

/-- Block 0 in a chunk of its own is read as far as its record goes. -/
lemma readBlock_zero {codec : Codec} {node : Node} {data : Bytes} {length : ℕ}
    (hlength : length < 2 ^ 32) (hle : length ≤ data.length)
    (hcold : node.store.db.hotBlocks.get 0 = none)
    (hdisk : node.disk.get (dataFilename 0 0) = some data)
    (hindices : node.indices = SortedMap.empty.put 0
      ⟨(IndexRecord.mk 0 0 length).toBytes, 0, 0, dataFilename 0 0⟩) :
    node.readBlock codec 0 = (codec.decompress (data.take length)).map some := by
  have hseek : node.indices.seekLE 0 =
      some (0, ⟨(IndexRecord.mk 0 0 length).toBytes, 0, 0, dataFilename 0 0⟩) := by
    rw [hindices]
    refine SortedMap.seekLE_eq_some.mpr ⟨SortedMap.get_put_self _ _ _, le_rfl, ?_⟩
    intro j m _ hj
    exact hj
  have hrec : (MappedIndex.mk (IndexRecord.mk 0 0 length).toBytes 0 0
      (dataFilename 0 0)).getRecord 0 = some ⟨0, 0, length⟩ := by
    have htake : (IndexRecord.mk 0 0 length).toBytes.take recordSize =
        (IndexRecord.mk 0 0 length).toBytes :=
      List.take_of_length_le (by rw [IndexRecord.toBytes_length])
    simp only [MappedIndex.getRecord, IndexRecord.toBytes_length, Nat.sub_self, Nat.zero_mul,
      Nat.zero_add, List.drop_zero, htake]
    rw [IndexRecord.ofBytes_toBytes (by simp) (by simp) hlength]
    simp
  have hroom : 0 + length ≤ data.length := by rwa [Nat.zero_add]
  have hread : readRecord codec (some data) ⟨0, 0, length⟩ =
      codec.decompress (data.take length) := by
    simp only [readRecord, Option.bind_eq_bind, Option.bind_some, hroom, if_true, List.drop_zero]
  simp only [Node.readBlock, hotReadBlock, hcold, coldReadBlock, hseek, hrec, hdisk, hread]

/-- A block is written, and the archiver comes for it. -/
def loneActs (block : Block) : List Act := .write block :: .trigger :: List.replicate 7 .archive

lemma loneActs_storable {block : Block} (h : codec.Storable block) :
    ∀ act ∈ loneActs block, act.Storable codec := by
  intro act hact
  simp only [loneActs, List.mem_cons, List.mem_replicate] at hact
  rcases hact with rfl | rfl | ⟨-, rfl⟩
  · exact h
  · trivial
  · trivial

/-- A block that is archived alone is read back as what the record's length leaves of it. -/
lemma read_archived_zero (codec : Codec) {block : Block} (hn : getBlockNumber block = some 0) :
    ∃ node, run (Node.step zeroConfig codec) (Node.init zeroConfig) (loneActs block) = some node ∧
      Along (Node.step zeroConfig codec)
        (fun node act => OneAtATime node act ∧ LoadsSucceed node act) (Node.init zeroConfig)
        (loneActs block) ∧
      node.store.last 0 = some block ∧
      node.readBlock codec 0 = (codec.decompress ((codec.compress (codec.encode block)).take
        ((codec.compress (codec.encode block)).length % 2 ^ 32))).map some := by
  obtain ⟨hlog, hhot, hearliest, hlatest⟩ := write_zero codec hn
  set s := (Store.init zeroConfig).write zeroConfig codec block with hs
  set compressed := codec.compress (codec.encode block) with hc
  have hmod : compressed.length % 2 ^ 32 < 2 ^ 32 := Nat.mod_lt _ (by decide)
  set record : IndexRecord := ⟨0, 0, compressed.length % 2 ^ 32⟩ with hrecord
  have hget : s.db.hotBlocks.get 0 = some (codec.serialize (codec.encode block)) := by
    rw [hhot, SortedMap.get_put_self]
  have hadd : checkedAdd 0 (compressed.length % 2 ^ 32) = some (compressed.length % 2 ^ 32) :=
    checkedAdd_eq_some.mpr ⟨by omega, by simp only [u64Max]; omega⟩
  have hread : readBlockBatch codec s.db 0 1 = some [block] := by
    simp [readBlockBatch, readBatchFrom, hotReadBlock, hget, checkedAdd, u64Max]
  have hwrite : writeRecords codec 0 [block] = some (compressed, record.toBytes) := by
    simp only [writeRecords, hn, ← hc, hadd, Option.bind_eq_bind, Option.bind_some,
      Option.pure_def, List.append_nil, hrecord]
  have hbatch : archiveBatch codec s.db 0 1 =
      some (archiveEffects 0 0 compressed record.toBytes (finalEffect 0 1)) := by
    simp only [archiveBatch, hread, writeArchive, hwrite, hn, Option.bind_eq_bind,
      Option.bind_some, List.isEmpty_cons, Bool.false_eq_true, if_false, List.head?_cons,
      List.getLast?_singleton, Option.pure_def]
    rfl
  have hcomplete : isBatchComplete s.db 0 1 = some true := by
    simp [isBatchComplete, batchCompleteFrom, hget, checkedAdd, u64Max]
  have haction : loopAction zeroConfig codec s.db =
      .archive (archiveEffects 0 0 compressed record.toBytes (finalEffect 0 1)) := by
    simp only [loopAction, hearliest, hlatest, zeroConfig, hcomplete, hbatch]
    rfl
  obtain ⟨node, hrun, halong, hstore, hdisk, hindices⟩ :=
    run_archive_zero codec s compressed record.toBytes
  have h1 : Node.step zeroConfig codec (Node.init zeroConfig) (.write block) =
      some ⟨s, .empty, .empty, .idle⟩ := rfl
  have h2 : Node.step zeroConfig codec ⟨s, .empty, .empty, .idle⟩ .trigger =
      some ⟨s, .empty, .empty, .looping⟩ := rfl
  have h3 : Node.step zeroConfig codec ⟨s, .empty, .empty, .looping⟩ .archive =
      some ⟨s, .empty, .empty,
        .working (archiveEffects 0 0 compressed record.toBytes (finalEffect 0 1))⟩ := by
    simp only [Node.step, Node.archive, haction]
  unfold loneActs
  refine ⟨node, ?_, ?_, ?_, ?_⟩
  · rw [run_cons h1, run_cons h2]
    exact (run_cons h3 _).trans hrun
  · rw [along_cons h1, along_cons h2]
    exact ⟨⟨trivial, trivial⟩, ⟨trivial, trivial⟩,
      (along_cons h3).mpr ⟨⟨trivial, trivial⟩, halong⟩⟩
  · rw [hstore, Store.last, hlog]
    rfl
  · have hcold : node.store.db.hotBlocks.get 0 = none := by
      rw [hstore]
      simp only [commitBatch_hotBlocks, deleteBatch_hot]
      rfl
    exact readBlock_zero hmod (Nat.mod_le _ _) hcold hdisk hindices

/-- The same where RocksDB takes the value of the block. -/
lemma rocks_archived_zero (codec : Codec) {block : Block} (hn : getBlockNumber block = some 0)
    (hvalue : codec.Storable block) :
    ∃ node, run (Node.rocksStep zeroConfig codec) (Node.init zeroConfig) (loneActs block) =
        some node ∧
      Along (Node.rocksStep zeroConfig codec)
        (fun node act => OneAtATime node act ∧ LoadsSucceed node act) (Node.init zeroConfig)
        (loneActs block) ∧
      node.store.last 0 = some block ∧
      node.readBlock codec 0 = (codec.decompress ((codec.compress (codec.encode block)).take
        ((codec.compress (codec.encode block)).length % 2 ^ 32))).map some := by
  have hagree : ∀ act ∈ loneActs block, ∀ node, Node.rocksStep zeroConfig codec node act =
      Node.step zeroConfig codec node act :=
    fun act hact => Node.rocksStep_eq (loneActs_storable hvalue act hact)
  rw [run_agree hagree, along_agree hagree]
  exact read_archived_zero codec hn

/-! ### Runs -/

/-- Every read gives the encoding of the last block committed under the number, and nothing
for a number under which none was committed. -/
def ReadsLast (codec : Codec) (node : Node) : Prop :=
  ∀ n, node.readBlock codec n = some ((node.store.last n).map codec.encode)

/-- Where RocksDB takes every value, the limit makes no difference to the invariant of a run. -/
lemma rocks_durable (hsize : 1 ≤ cfg.archiveBatchSize) {acts : List Act}
    (hrun : run (Node.rocksStep cfg codec) (Node.init cfg) acts = some node)
    (hvalues : ∀ act ∈ acts, act.Storable codec)
    (hassumed : Along (Node.rocksStep cfg codec)
      (fun node act => OneAtATime node act ∧ LoadsSucceed node act) (Node.init cfg) acts)
    (hfit : Along (Node.rocksStep cfg codec) (BatchesFit cfg codec) (Node.init cfg) acts) :
    Durable cfg codec node := by
  have hagree : ∀ act ∈ acts, ∀ node, Node.rocksStep cfg codec node act =
      Node.step cfg codec node act := fun act hact => Node.rocksStep_eq (hvalues act hact)
  rw [run_agree hagree] at hrun
  rw [along_agree hagree] at hassumed hfit
  exact run_inv (fun hd h hs => step_durable hd hsize h.1.1 h.1.2 h.2 hs) (init_durable cfg codec)
    (hassumed.and hfit) hrun

/-- **Durability.** In every run in which RocksDB takes the written values, no block is written
during an archival cycle and the archived blocks fit the length field of their records, whatever
crashes and restarts it holds, every read gives the last committed block. -/
theorem durability {cfg : Config} (codec : Codec) (hsize : 1 ≤ cfg.archiveBatchSize)
    {acts : List Act} {node : Node}
    (hrun : run (Node.rocksStep cfg codec) (Node.init cfg) acts = some node)
    (hvalues : ∀ act ∈ acts, act.Storable codec)
    (hassumed : Along (Node.rocksStep cfg codec)
      (fun node act => OneAtATime node act ∧ LoadsSucceed node act) (Node.init cfg) acts)
    (hfit : Along (Node.rocksStep cfg codec) (BatchesFit cfg codec) (Node.init cfg) acts) :
    ReadsLast codec node :=
  (rocks_durable hsize hrun hvalues hassumed hfit).readBlock hsize

def pairConfig : Config := { zeroConfig with archiveBatchSize := 2, batch_le := by decide }

/-- Two blocks; an archival that dies before the delete commit; a second version of block 0,
and another archival. -/
def crashedActs : List Act :=
  [.write (headerBlock 0 [5]), .write (headerBlock 1 []), .trigger] ++ List.replicate 5 .archive ++
    [.restart [indexFilename 0 1, dataFilename 0 1], .write (headerBlock 0 [6]), .trigger] ++
    List.replicate 7 .archive

theorem durability_crashed :
    ∃ node, run (Node.rocksStep pairConfig plainCodec) (Node.init pairConfig) crashedActs =
        some node ∧ ReadsLast plainCodec node := by
  have hsome : (run (Node.rocksStep pairConfig plainCodec) (Node.init pairConfig)
      crashedActs).isSome = true := by decide +kernel
  obtain ⟨node, hrun⟩ := Option.isSome_iff_exists.mp hsome
  exact ⟨node, hrun, durability plainCodec (by decide) hrun (by decide +kernel)
    (by decide +kernel) (by decide +kernel)⟩

/-- The plain codec with the value that bincode makes of an encoding: eight bytes for its length,
the least significant one first, and the encoding itself. -/
def bincodeCodec : Codec where
  __ := plainCodec
  serialize contents := (toBE 8 contents.length).reverse ++ contents
  deserialize value := some (value.drop 8)
  deserialize_serialize contents := by simp

/-- RocksDB takes the value of this block, of two gigabytes and a little; its compressed form has
over four, and what the record says of it cannot be read. -/
lemma exists_cut_block : ∃ block, getBlockNumber block = some 0 ∧ bincodeCodec.Storable block ∧
    bincodeCodec.decompress ((bincodeCodec.compress (bincodeCodec.encode block)).take
      ((bincodeCodec.compress (bincodeCodec.encode block)).length % 2 ^ 32)) = none := by
  obtain ⟨block, hblock⟩ : ∃ block, block = headerBlock 0 (List.replicate (2 ^ 30) 0) := ⟨_, rfl⟩
  have hlength : (bincodeCodec.encode block).length = 2 ^ 31 + 13 := by
    rw [hblock]
    refine (length_encode 0 _).trans ?_
    rw [List.length_replicate, ← pow_succ']
  have hlong : 2 ^ 32 ≤ (bincodeCodec.compress (bincodeCodec.encode block)).length := by
    change _ ≤ (Format.bytes.enc (bincodeCodec.encode block)).length
    rw [Format.bytes_enc, List.length_append, List.length_replicate, List.length_cons, hlength]
    omega
  refine ⟨block, by rw [hblock]; rfl, ?_, ?_⟩
  · change ((toBE 8 _).reverse ++ bincodeCodec.encode block).length ≤ u32Max
    rw [List.length_append, List.length_reverse, toBE_length, hlength]
    decide
  · exact Format.decAll_take ((Nat.mod_lt _ (by decide)).trans_le hlong)

theorem durability_lost : ¬ ∀ (cfg : Config) (codec : Codec), 1 ≤ cfg.archiveBatchSize →
    ∀ acts node, run (Node.rocksStep cfg codec) (Node.init cfg) acts = some node →
      (∀ act ∈ acts, act.Storable codec) →
      Along (Node.rocksStep cfg codec)
        (fun node act => OneAtATime node act ∧ LoadsSucceed node act) (Node.init cfg) acts →
      ReadsLast codec node := by
  intro h
  obtain ⟨block, hn, hvalue, hcut⟩ := exists_cut_block
  have hvalues := loneActs_storable hvalue
  obtain ⟨node, hrun, halong, hlast, hread⟩ := rocks_archived_zero bincodeCodec hn hvalue
  have hall := h zeroConfig bincodeCodec le_rfl _ node hrun hvalues halong 0
  rw [hread, hcut, hlast] at hall
  cases hall

end RockNode
