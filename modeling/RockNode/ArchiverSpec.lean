import RockNode.ArchiveFormat
import RockNode.Archiver
import RockNode.WriteSpec

/-!
What one archival does when the hot tier holds what the log says.

The batch is read back as the last committed blocks, so the two files it is written to serve
exactly those, and the final commit takes exactly the batch out of the hot tier.
-/

namespace RockNode

/-- The last block committed under a number. -/
def Store.last (s : Store) (n : ℕ) : Option Block := s.log.lookup n

/-- The hot tier holds nothing but last committed blocks, each under its own number. -/
structure Store.Faithful (codec : Codec) (s : Store) : Prop where
  number : ∀ {n block}, s.last n = some block → getBlockNumber block = some n
  hot : ∀ {n value}, s.db.hotBlocks.get n = some value →
    ∃ block, s.last n = some block ∧ value = codec.serialize (codec.encode block)

lemma Store.last_cons (db : Db) (n m : ℕ) (block : Block) (log : List (ℕ × Block)) :
    Store.last ⟨db, (n, block) :: log⟩ m =
      if m = n then some block else Store.last ⟨db, log⟩ m := by
  simp only [Store.last, List.lookup_cons]
  by_cases h : m = n
  · simp [h]
  · simp [h, beq_false_of_ne h]

lemma Store.init_faithful (cfg : Config) (codec : Codec) : (Store.init cfg).Faithful codec := by
  refine ⟨?_, ?_⟩
  · intro n block h
    cases h
  · intro n value h
    have hempty : (Store.init cfg).db.hotBlocks = .empty := rfl
    rw [hempty, SortedMap.get_empty] at h
    cases h

lemma Store.write_faithful {cfg : Config} {codec : Codec} {s : Store} (hs : s.Faithful codec)
    (block : Block) : (s.write cfg codec block).Faithful codec := by
  rcases s.write_cases cfg codec block with h | ⟨n, hn, hlog, hhot, -⟩
  · rwa [h]
  · have hlast : ∀ m,
        (s.write cfg codec block).last m = if m = n then some block else s.last m := by
      intro m
      rw [Store.last, hlog]
      exact Store.last_cons s.db n m block s.log
    refine ⟨?_, ?_⟩
    · intro m b hb
      rw [hlast] at hb
      split at hb
      · next h =>
        cases hb
        rw [h, hn]
      · exact hs.number hb
    · intro m value hv
      rw [hhot, SortedMap.get_put] at hv
      rw [hlast]
      split at hv
      · next h =>
        rw [if_pos h]
        exact ⟨block, rfl, (Option.some.inj hv).symm⟩
      · next h =>
        rw [if_neg h]
        exact hs.hot hv

/-! ### Reading the batch -/

lemma batchCompleteFrom_eq_true {db : Db} {start remaining i : ℕ}
    (h : batchCompleteFrom db start remaining i = some true) :
    ∀ j, i ≤ j → j < i + remaining → start + j ≤ u64Max ∧ db.hotBlocks.get (start + j) ≠ none := by
  induction remaining generalizing i with
  | zero =>
    intro j h1 h2
    omega
  | succ remaining ih =>
    simp only [batchCompleteFrom, Option.bind_eq_bind, Option.bind_eq_some_iff] at h
    obtain ⟨n, hn, h⟩ := h
    obtain ⟨rfl, hle⟩ := checkedAdd_eq_some.mp hn
    split at h
    · cases h
    · next hsome =>
      intro j h1 h2
      rcases Nat.eq_or_lt_of_le h1 with rfl | hlt
      · refine ⟨hle, ?_⟩
        rintro hnone
        exact hsome (by simp [hnone])
      · exact ih h j (by omega) (by omega)

/-- Every value of the hot tier is a block under its own number. -/
def Db.Proper (codec : Codec) (db : Db) : Prop :=
  ∀ {n value}, db.hotBlocks.get n = some value → ∃ block, getBlockNumber block = some n ∧
    value = codec.serialize (codec.encode block)

lemma Store.Faithful.proper {codec : Codec} {s : Store} (hs : s.Faithful codec) :
    s.db.Proper codec := by
  intro n value hvalue
  obtain ⟨block, hlast, rfl⟩ := hs.hot hvalue
  exact ⟨block, hs.number hlast, rfl⟩

/-- The hot tier's value tells the block. -/
lemma Codec.stored_injective (codec : Codec) {block block' : Block}
    (h : codec.serialize (codec.encode block) = codec.serialize (codec.encode block')) :
    block = block' := by
  have hbytes := congrArg codec.deserialize h
  simp only [codec.deserialize_serialize, Option.some.injEq] at hbytes
  simpa using congrArg codec.decode hbytes

/-- A complete batch is read back block by block. -/
lemma readBatchFrom_spec {codec : Codec} {db : Db} (hdb : db.Proper codec)
    {start remaining i : ℕ} (h : ∀ j, i ≤ j → j < i + remaining →
      start + j ≤ u64Max ∧ db.hotBlocks.get (start + j) ≠ none) :
    ∃ blocks, readBatchFrom codec db start remaining i = some blocks ∧
      blocks.length = remaining ∧ ∀ {j block}, blocks[j]? = some block →
        getBlockNumber block = some (start + (i + j)) ∧
        db.hotBlocks.get (start + (i + j)) = some (codec.serialize (codec.encode block)) := by
  induction remaining generalizing i with
  | zero => exact ⟨[], rfl, rfl, fun hj => by simp at hj⟩
  | succ remaining ih =>
    obtain ⟨hle, hsome⟩ := h i le_rfl (by omega)
    obtain ⟨value, hvalue⟩ := Option.ne_none_iff_exists'.mp hsome
    obtain ⟨block, hnumber, rfl⟩ := hdb hvalue
    obtain ⟨blocks, hread, hlen, hget⟩ := ih (i := i + 1) fun j h1 h2 => h j (by omega) (by omega)
    have hadd : checkedAdd start i = some (start + i) := checkedAdd_eq_some.mpr ⟨rfl, hle⟩
    refine ⟨block :: blocks, ?_, by rw [List.length_cons, hlen], ?_⟩
    · simp only [readBatchFrom, hadd, hotReadBlock, hvalue, codec.deserialize_serialize,
        Option.map_some, codec.decode_encode, hread, Option.bind_eq_bind, Option.bind_some,
        Option.pure_def]
    · intro j b hj
      cases j with
      | zero =>
        obtain rfl : block = b := by simpa using hj
        exact ⟨hnumber, hvalue⟩
      | succ j =>
        rw [show i + (j + 1) = i + 1 + j by omega]
        exact hget (by simpa using hj)

/-- What the top of the loop can decide, and on what grounds. -/
lemma loopAction_cases (cfg : Config) (codec : Codec) (db : Db) :
    loopAction cfg codec db = .stop ∨ ∃ start, db.metadata .earliestHot = some start ∧
      cfg.hotStorageBlockCount < (db.metadata .latestPersisted).getD 0 - start + 1 ∧
      ((isBatchComplete db start cfg.archiveBatchSize = some false ∧
          loopAction cfg codec db = .skip (addSkippedBatch start)) ∨
        (isBatchComplete db start cfg.archiveBatchSize = some true ∧
          ∃ effects, archiveBatch codec db start cfg.archiveBatchSize = some effects ∧
            loopAction cfg codec db = .archive effects)) := by
  unfold loopAction
  rcases hstart : db.metadata .earliestHot with _ | start
  · exact Or.inl rfl
  rcases htotal : checkedAdd ((db.metadata .latestPersisted).getD 0 - start) 1 with _ | total
  · exact Or.inl (by simp only [htotal])
  obtain ⟨rfl, -⟩ := checkedAdd_eq_some.mp htotal
  by_cases hsmall : (db.metadata .latestPersisted).getD 0 - start + 1 ≤ cfg.hotStorageBlockCount
  · exact Or.inl (by simp only [htotal, hsmall, if_true])
  rcases hcomplete : isBatchComplete db start cfg.archiveBatchSize with _ | complete
  · exact Or.inl (by simp only [htotal, hsmall, if_false, hcomplete])
  cases complete with
  | false =>
    refine Or.inr ⟨start, rfl, by omega, Or.inl ⟨hcomplete, ?_⟩⟩
    simp only [htotal, hsmall, if_false, hcomplete]
  | true =>
    rcases hbatch : archiveBatch codec db start cfg.archiveBatchSize with _ | effects
    · exact Or.inl (by simp only [htotal, hsmall, if_false, hcomplete, hbatch])
    · refine Or.inr ⟨start, rfl, by omega, Or.inr ⟨hcomplete, effects, hbatch, ?_⟩⟩
      simp only [htotal, hsmall, if_false, hcomplete, hbatch]

/-! ### The files of the batch -/

/-- The number the chunk that starts at `start` ends with. -/
def Config.lastOf (cfg : Config) (start : ℕ) : ℕ := start + cfg.archiveBatchSize - 1

lemma Config.lastOf_add_one {cfg : Config} (hsize : 1 ≤ cfg.archiveBatchSize) (start : ℕ) :
    cfg.lastOf start + 1 = start + cfg.archiveBatchSize := by
  unfold Config.lastOf
  omega

/-- The pair of files answers for the chunk: every number of it has a record, and the record
leads to the last committed block wherever the answer is needed. -/
def Serves (cfg : Config) (codec : Codec) (s : Store) (needed : ℕ → Prop) (start : ℕ)
    (data index : Bytes) : Prop :=
  ∀ n, start ≤ n → n < start + cfg.archiveBatchSize → ∃ block r, s.last n = some block ∧
    (MappedIndex.mk index start (cfg.lastOf start)
      (dataFilename start (cfg.lastOf start))).getRecord n = some r ∧
    (needed n → readRecord codec (some data) r = some (codec.encode block))

/-- The six effects of an archival. -/
def archiveEffects (start last : ℕ) (data index : Bytes) (final : Effect) : List Effect :=
  [.writeFile (tempFilename (dataFilename start last)) data,
    .writeFile (tempFilename (indexFilename start last)) index,
    .rename (tempFilename (dataFilename start last)) (dataFilename start last),
    .rename (tempFilename (indexFilename start last)) (indexFilename start last),
    .loadIndex (indexFilename start last), final]

/-- The last effect of an archival: the delete batch, unless its end is no `u64`. -/
def finalEffect (start count : ℕ) : Effect :=
  match checkedAdd start count with
  | none => .fault
  | some newEarliestHot => .commit (deleteBatch start count newEarliestHot)

/-- No block of the batch is too long for the length field of its record. -/
def BatchFits (cfg : Config) (codec : Codec) (db : Db) : Prop :=
  ∀ start ∈ db.metadata .earliestHot, ∀ i < cfg.archiveBatchSize,
    ∀ found ∈ hotReadBlock codec db (start + i), ∀ bytes ∈ found,
      (codec.compress bytes).length < 2 ^ 32

instance BatchFits.decidable (cfg : Config) (codec : Codec) (db : Db) :
    Decidable (BatchFits cfg codec db) :=
  inferInstanceAs (Decidable (∀ _ ∈ _, _))

/-- The batch is read back block by block and written to one pair of files. -/
lemma archiveBatch_effects {cfg : Config} {codec : Codec} {db : Db} (hdb : db.Proper codec)
    (hsize : 1 ≤ cfg.archiveBatchSize) {start : ℕ}
    (hcomplete : isBatchComplete db start cfg.archiveBatchSize = some true)
    {effects : List Effect} (h : archiveBatch codec db start cfg.archiveBatchSize = some effects) :
    ∃ blocks files, writeRecords codec 0 blocks = some files ∧
      effects = archiveEffects start (cfg.lastOf start) files.1 files.2
        (finalEffect start cfg.archiveBatchSize) ∧
      blocks.length = cfg.archiveBatchSize ∧ ∀ {i block}, blocks[i]? = some block →
        getBlockNumber block = some (start + i) ∧
        db.hotBlocks.get (start + i) = some (codec.serialize (codec.encode block)) := by
  obtain ⟨blocks, hread, hlen, hget⟩ :=
    readBatchFrom_spec hdb (batchCompleteFrom_eq_true hcomplete)
  have hblock : ∀ {i block}, blocks[i]? = some block →
      getBlockNumber block = some (start + i) ∧
      db.hotBlocks.get (start + i) = some (codec.serialize (codec.encode block)) := by
    intro i block hi
    simpa only [Nat.zero_add] using hget hi
  -- the first and the last block carry the numbers that the files are named after
  have hne : blocks ≠ [] := by
    rintro rfl
    simp at hlen
    omega
  have hhead : blocks.head? = blocks[0]? := List.head?_eq_getElem?
  have hlast : blocks.getLast? = blocks[cfg.archiveBatchSize - 1]? := by
    rw [List.getLast?_eq_getElem?, hlen]
  have hsome : ∀ i < cfg.archiveBatchSize, ∃ block, blocks[i]? = some block := fun i hi =>
    ⟨blocks[i], List.getElem?_eq_getElem (by omega)⟩
  obtain ⟨first, hf⟩ := hsome 0 (by omega)
  obtain ⟨final, hl⟩ := hsome (cfg.archiveBatchSize - 1) (by omega)
  have hfn := (hblock hf).1
  have hln := (hblock hl).1
  rw [Nat.add_zero] at hfn
  rw [show start + (cfg.archiveBatchSize - 1) = cfg.lastOf start by
    have := Config.lastOf_add_one hsize start
    omega] at hln
  have hempty : blocks.isEmpty = false := by simp [hne]
  simp only [archiveBatch, readBlockBatch, hread, hempty, Option.bind_eq_bind, Option.bind_some,
    Bool.false_eq_true, if_false, writeArchive, hhead, hlast, hf, hl, hfn, hln] at h
  simp only [Option.bind_eq_some_iff] at h
  obtain ⟨archive, ⟨files, hfiles, harchive⟩, h⟩ := h
  simp only [Option.pure_def, Option.some.injEq] at harchive h
  refine ⟨blocks, files, hfiles, ?_, hlen, hblock⟩
  rw [← h, ← harchive]
  rfl

/-- The pair of files that an archival writes: every number of the chunk has a record, and the
record leads to the block that the hot tier holds. -/
lemma archiveBatch_files {cfg : Config} {codec : Codec} {db : Db} (hdb : db.Proper codec)
    (hsize : 1 ≤ cfg.archiveBatchSize) {start : ℕ}
    (hstart : db.metadata .earliestHot = some start) (hfits : BatchFits cfg codec db)
    (hcomplete : isBatchComplete db start cfg.archiveBatchSize = some true)
    {effects : List Effect} (h : archiveBatch codec db start cfg.archiveBatchSize = some effects) :
    ∃ data index, effects = archiveEffects start (cfg.lastOf start) data index
        (finalEffect start cfg.archiveBatchSize) ∧
      ∀ n, start ≤ n → n < start + cfg.archiveBatchSize → ∃ block r,
        db.hotBlocks.get n = some (codec.serialize (codec.encode block)) ∧
        (MappedIndex.mk index start (cfg.lastOf start)
          (dataFilename start (cfg.lastOf start))).getRecord n = some r ∧
        readRecord codec (some data) r = some (codec.encode block) := by
  obtain ⟨blocks, files, hfiles, heffects, hlen, hblock⟩ :=
    archiveBatch_effects hdb hsize hcomplete h
  have hfit : ∀ block ∈ blocks, (codec.compress (codec.encode block)).length < 2 ^ 32 := by
    intro block hmem
    obtain ⟨i, hi⟩ := List.mem_iff_getElem?.mp hmem
    have hlt : i < cfg.archiveBatchSize := hlen ▸ (List.getElem?_eq_some_iff.mp hi).1
    exact hfits start hstart i hlt (some (codec.encode block))
      (by simp [hotReadBlock, (hblock hi).2]) _ rfl
  refine ⟨files.1, files.2, heffects, fun n h1 h2 => ?_⟩
  have hi : blocks[n - start]? = some _ := List.getElem?_eq_getElem (by omega)
  obtain ⟨r, hr1, hr2⟩ := archive_reads hfiles hfit start
    (dataFilename start (cfg.lastOf start)) hi
  have hhot := (hblock hi).2
  rw [show start + (n - start) = n by omega] at hr1 hhot
  rw [hlen] at hr1
  exact ⟨_, r, hhot, hr1, hr2⟩

lemma archiveBatch_spec {cfg : Config} {codec : Codec} {s : Store} (hs : s.Faithful codec)
    (hsize : 1 ≤ cfg.archiveBatchSize) {start : ℕ}
    (hstart : s.db.metadata .earliestHot = some start) (hfits : BatchFits cfg codec s.db)
    (hcomplete : isBatchComplete s.db start cfg.archiveBatchSize = some true)
    {effects : List Effect}
    (h : archiveBatch codec s.db start cfg.archiveBatchSize = some effects) :
    ∃ data index, effects = archiveEffects start (cfg.lastOf start) data index
        (finalEffect start cfg.archiveBatchSize) ∧
      Serves cfg codec s (fun _ => True) start data index := by
  obtain ⟨data, index, heffects, hserves⟩ :=
    archiveBatch_files hs.proper hsize hstart hfits hcomplete h
  refine ⟨data, index, heffects, fun n h1 h2 => ?_⟩
  obtain ⟨block, r, hhot, hrecord, hread⟩ := hserves n h1 h2
  obtain ⟨b, hlast, hb⟩ := hs.hot hhot
  obtain rfl : block = b := codec.stored_injective hb
  exact ⟨block, r, hlast, hrecord, fun _ => hread⟩

/-! ### The final commit -/

lemma batchHot_deletes (start count : ℕ) (m : SortedMap ℕ Bytes) (n : ℕ) :
    (batchHot ((List.range count).map fun i => .deleteHot (start + i)) m).get n =
      if start ≤ n ∧ n < start + count then none else m.get n := by
  induction count with
  | zero =>
    rw [if_neg (by omega)]
    rfl
  | succ count ih =>
    rw [List.range_succ, List.map_append, batchHot_append]
    change (SortedMap.erase _ (start + count)).get n = _
    rw [SortedMap.get_erase, ih]
    split
    · next h =>
      rw [if_pos (by omega)]
    · next h =>
      split
      · rw [if_pos (by omega)]
      · rw [if_neg (by omega)]

lemma deleteBatch_hot (start count new : ℕ) (m : SortedMap ℕ Bytes) (n : ℕ) :
    (batchHot (deleteBatch start count new) m).get n =
      if start ≤ n ∧ n < start + count then none else m.get n := by
  rw [deleteBatch, batchHot_append, batchHot_append]
  exact batchHot_deletes start count m n

lemma batchMeta_deletes (start count : ℕ) (m : MetaKey → Option ℕ) :
    batchMeta ((List.range count).map fun i => .deleteHot (start + i)) m = m := by
  induction count with
  | zero => rfl
  | succ count ih =>
    rw [List.range_succ, List.map_append, batchMeta_append, ih]
    rfl

lemma deleteBatch_meta (start count new : ℕ) (m : MetaKey → Option ℕ) :
    batchMeta (deleteBatch start count new) m = Function.update m .earliestHot (some new) := by
  rw [deleteBatch, batchMeta_append, batchMeta_append, batchMeta_deletes]
  rfl

lemma deleteBatch_gaps (start count new : ℕ) (m : SortedMap ℕ ℕ) :
    batchGaps (deleteBatch start count new) m = m := by
  have h : batchGaps ((List.range count).map fun i => .deleteHot (start + i)) m = m := by
    induction count with
    | zero => rfl
    | succ count ih =>
      rw [List.range_succ, List.map_append, batchGaps_append, ih]
      rfl
  rw [deleteBatch, batchGaps_append, batchGaps_append, h]
  rfl

end RockNode
