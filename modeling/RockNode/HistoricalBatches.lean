import RockNode.Immutability
import RockNode.ColdLookup
import RockNode.ExactMarks

/-!
What can be read after a historical batch.

The writer of an archive stores the list it is given, under a name with the first and the last
number; the reader finds a block by its distance from the first number. The two agree exactly on
lists that ascend by one.
-/

namespace RockNode

variable {cfg : Config} {codec : Codec} {node after : Node} {blocks : List Block} {n a b : ℕ}
  {files : Bytes × Bytes}

/-- The blocks carry consecutive numbers. -/
def Consecutive (blocks : List Block) : Prop :=
  ∃ first, ∀ i block, blocks[i]? = some block → getBlockNumber block = some (first + i)

/-- Every block of the list is read under its number, and under every other number is read what
was read before. -/
structure BatchReadable (codec : Codec) (node after : Node) (blocks : List Block) : Prop where
  own : ∀ block ∈ blocks, ∀ n ∈ getBlockNumber block,
    after.readBlock codec n = some (some (codec.encode block))
  others : ∀ n ∉ numbersOf blocks, after.readBlock codec n = node.readBlock codec n

/-- What a batch has stored: the archive, which is loaded, and nothing else. -/
structure Archived (codec : Codec) (node after : Node) (blocks : List Block) (a b : ℕ)
    (files : Bytes × Bytes) : Prop where
  first : (blocks.head? >>= getBlockNumber) = some a
  last : (blocks.getLast? >>= getBlockNumber) = some b
  le : a ≤ b
  wrote : writeRecords codec 0 blocks = some files
  hot : after.store.db.hotBlocks = node.store.db.hotBlocks
  data : after.disk.get (dataFilename a b) = some files.1
  others : ∀ name, ¬ Owned a b name → after.disk.get name = node.disk.get name
  indices : after.indices = node.indices.put a ⟨files.2, a, b, dataFilename a b⟩

/-! ### The call -/

/-- The files are written and renamed, and the index file is about to be loaded. -/
lemma finish_files (cfg : Config) (codec : Codec) (node : Node) (a b : ℕ) (data index : Bytes)
    (steps : ℕ) (effects : List Effect) :
    ∃ disk : Disk, disk.get (dataFilename a b) = some data ∧
      disk.get (indexFilename a b) = some index ∧
      Node.finish cfg codec (steps + 4) [] { node with
        archiver := .working (fileEffects a b data index ++ effects) } =
      Node.finish cfg codec steps [] { node with disk := disk, archiver := .working effects } := by
  have hdi := dataFilename_ne_indexFilename a b
  have hdt := dataFilename_ne_temp_index a b
  have htt := temp_data_ne_temp_index a b
  set d2 : Disk := (node.disk.put (tempFilename (dataFilename a b)) data).put
    (tempFilename (indexFilename a b)) index with hd2
  set d3 : Disk := (d2.erase (tempFilename (dataFilename a b))).put (dataFilename a b) data with hd3
  have h2 : d2.get (tempFilename (dataFilename a b)) = some data := by
    rw [hd2, SortedMap.get_put_of_ne _ _ htt, SortedMap.get_put_self]
  have h3 : d3.get (tempFilename (indexFilename a b)) = some index := by
    rw [hd3, get_rename htt.symm hdt.symm, hd2, SortedMap.get_put_self]
  refine ⟨(d3.erase (tempFilename (indexFilename a b))).put (indexFilename a b) index, ?_, ?_, ?_⟩
  · rw [get_rename hdt hdi, hd3, SortedMap.get_put_self]
  · exact SortedMap.get_put_self _ _ _
  · simp only [fileEffects, Node.finish, Node.attempt, Node.archive, Node.perform, List.tail_nil,
      List.headD_nil, List.cons_append, List.nil_append, ← hd2, h2, ← hd3, h3]

/-- The load that follows panics on a name that runs backwards. -/
lemma finish_load (cfg : Config) (codec : Codec) (node : Node) (ha : a < 10 ^ 10)
    (hb : b < 10 ^ 10) {data index : Bytes} (hdata : node.disk.get (dataFilename a b) = some data)
    (hindex : node.disk.get (indexFilename a b) = some index) :
    Node.finish cfg codec 1 [] { node with
      archiver := .working [.loadIndex (indexFilename a b)] } =
    if b < a then { node with archiver := .idle }
    else { node with
      indices := node.indices.put a ⟨index, a, b, dataFilename a b⟩
      archiver := .working [] } := by
  have hparse : parseBlockRange (indexFilename a b) = some (a, b) := by
    rw [parseBlockRange_eq, if_pos ⟨ha, hb⟩]
  have hfaults : loadFaults node.disk (indexFilename a b) = decide (b < a) := by
    simp only [loadFaults, hparse, withExtension_indexFilename, hdata, hindex]
  simp only [Node.finish, Node.attempt, Node.archive, Node.perform, List.headD_nil, hfaults,
    decide_eq_true_eq]
  split
  · rfl
  · next hle =>
    simp [loadIndexFile, hparse, withExtension_indexFilename, hdata, hindex, hle]

/-- A batch that returns `Ok` has been archived; were its last number below its first one, the
load would have panicked. -/
lemma writeBlockBatch_archived (hne : blocks ≠ [])
    (hok : (node.writeBlockBatchResult cfg codec blocks []).2 = true)
    (hsmall : ∀ n ∈ numbersOf blocks, n < 10 ^ 10) :
    ∃ a b files,
      Archived codec node (node.writeBlockBatch cfg codec blocks []) blocks a b files := by
  unfold Node.writeBlockBatch Node.writeBlockBatchResult at *
  rcases harchive : writeArchive codec blocks with _ | ⟨effects, indexName⟩
  · simp [harchive, hne] at hok
  obtain ⟨a, b, files, ha, hb, hwrote, rfl, rfl⟩ := writeArchive_cases harchive
  obtain ⟨first, hfirst, ha'⟩ := Option.bind_eq_some_iff.mp ha
  obtain ⟨last, hlast, hb'⟩ := Option.bind_eq_some_iff.mp hb
  have hsmall_a : a < 10 ^ 10 := hsmall a ⟨first, List.mem_of_mem_head? hfirst, ha'⟩
  have hsmall_b : b < 10 ^ 10 := hsmall b ⟨last, List.mem_of_mem_getLast? hlast, hb'⟩
  obtain ⟨disk, hdata, hindex, hfiles⟩ := finish_files cfg codec node a b files.1 files.2 1
    [.loadIndex (indexFilename a b)]
  have hload := finish_load cfg codec { node with disk := disk } hsmall_a hsmall_b hdata hindex
  have htouches := finish_touches cfg codec node 5 [] (fileEffects_ofChunk a b files.1 files.2)
  have hlen : (fileEffects a b files.1 files.2 ++ [Effect.loadIndex (indexFilename a b)]).length =
      1 + 4 := rfl
  simp only [harchive, hlen, hfiles, hload, ha] at hok htouches ⊢
  by_cases hlt : b < a
  · simp [hlt] at hok
  simp only [hlt, if_false] at hok htouches ⊢
  refine ⟨a, b, files, ha, hb, not_lt.mp hlt, hwrote, ?_, hdata, htouches.disk, rfl⟩
  exact (updateTrueEarliestIfLess_frame _ _).1

lemma writeRecords_number {offset : ℕ} (h : writeRecords codec offset blocks = some files)
    {block : Block} (hblock : block ∈ blocks) : ∃ n, getBlockNumber block = some n := by
  induction blocks generalizing offset files with
  | nil => cases hblock
  | cons first blocks ih =>
    obtain ⟨n, next, rest, hn, -, -, hrest, -⟩ := writeRecords_cons h
    rcases List.mem_cons.mp hblock with rfl | hblock
    · exact ⟨n, hn⟩
    · exact ih hrest hblock

lemma position_unique (hdistinct : (blocks.map getBlockNumber).Nodup) {i j : ℕ}
    {block block' : Block} (hi : blocks[i]? = some block) (hj : blocks[j]? = some block')
    (h : getBlockNumber block = getBlockNumber block') : i = j := by
  have hlt : i < (blocks.map getBlockNumber).length := by
    rw [List.length_map]
    exact (List.getElem?_eq_some_iff.mp hi).1
  refine (List.getElem?_inj hlt hdistinct).mp ?_
  rw [List.getElem?_map, List.getElem?_map, hi, hj, Option.map_some, Option.map_some, h]

/-! ### Reading by position -/

/-- The chunk of the batch, as the reader knows it. -/
def batchChunk (files : Bytes × Bytes) (a b : ℕ) : MappedIndex :=
  ⟨files.2, a, b, dataFilename a b⟩

section Archived

variable (h : Archived codec node after blocks a b files)

include h

lemma Archived.readBlock_cold (hhot : node.store.db.hotBlocks.get n = none) :
    after.readBlock codec n = coldReadBlock codec after.disk after.indices n := by
  simp only [Node.readBlock, hotReadBlock, h.hot, hhot]

lemma Archived.seekLE : after.indices.seekLE n =
    if a ≤ n ∧ ∀ e ∈ node.indices.seekLE n, e.1 ≤ a then some (a, batchChunk files a b)
    else node.indices.seekLE n := by
  rw [h.indices]
  exact SortedMap.seekLE_put _ _ _ _

/-- A number that was free is read by its position, if it is read at all. -/
lemma Archived.position {v : Bytes} (hfree : Free node n)
    (hread : after.readBlock codec n = some (some v)) :
    (a ≤ n ∧ n ≤ b) ∧ n - a < blocks.length ∧ ∀ block, blocks[n - a]? = some block →
      (∀ j < n - a, ∀ c, blocks[j]? = some c → codec.Fits c) →
      codec.decompress ((codec.compress (codec.encode block)).take
        ((codec.compress (codec.encode block)).length % 2 ^ 32)) = some v := by
  rw [h.readBlock_cold hfree.1] at hread
  obtain ⟨e, r, hseek, hr, hdata⟩ := seekLE_of_read hread
  rw [h.seekLE] at hseek
  split at hseek
  · cases hseek
    obtain ⟨h1, h2, hlt⟩ := getRecord_position (m := batchChunk files a b) h.wrote hr
    refine ⟨⟨h1, h2⟩, hlt, fun block hblock hfit => ?_⟩
    obtain ⟨r', hr', hcut⟩ :=
      getRecord_reads (m := batchChunk files a b) h.wrote ⟨h1, h2⟩ hblock hfit
    obtain rfl : r = r' := Option.some.inj (hr.symm.trans hr')
    rw [show after.disk.get (batchChunk files a b).dataPath = some files.1 from h.data] at hdata
    rw [← hcut, hdata]
  · -- a chunk that was there before does not hold the number
    obtain ⟨hget, hle, -⟩ := SortedMap.seekLE_eq_some.mp hseek
    exact absurd ⟨hle, (getRecord_range hr).2⟩ (hfree.not_loaded hget)

end Archived

section Readable

variable (h : Archived codec node after blocks a b files)
  (hdistinct : (blocks.map getBlockNumber).Nodup) (hfree : ∀ n ∈ numbersOf blocks, Free node n)
  (hreadable : BatchReadable codec node after blocks)

include h hdistinct hfree hreadable

/-- Each block of the list has a position, and every position belongs to one of them. -/
lemma BatchReadable.position_surjective {p : ℕ} (hp : p < blocks.length) :
    ∃ block ∈ blocks, getBlockNumber block = some (a + p) := by
  have hnum : ∀ i : Fin blocks.length, ∃ n, getBlockNumber blocks[i] = some n := fun i =>
    writeRecords_number h.wrote (List.getElem_mem _)
  choose number hnumber using hnum
  have hpos : ∀ i, a ≤ number i ∧ number i - a < blocks.length := by
    intro i
    have hmem : number i ∈ numbersOf blocks := ⟨_, List.getElem_mem _, hnumber i⟩
    have hread := hreadable.own _ (List.getElem_mem i.isLt) _ (hnumber i)
    obtain ⟨⟨h1, -⟩, h2, -⟩ := h.position (hfree _ hmem) hread
    exact ⟨h1, h2⟩
  have hinj : Function.Injective fun i => (⟨number i - a, (hpos i).2⟩ : Fin blocks.length) := by
    intro i j hij
    have heq : number i = number j := by
      have h1 := (hpos i).1
      have h2 := (hpos j).1
      have h3 : number i - a = number j - a := congrArg Fin.val hij
      omega
    have hsame : getBlockNumber blocks[i] = getBlockNumber blocks[j] := by
      rw [hnumber i, hnumber j, heq]
    exact Fin.ext (position_unique hdistinct (List.getElem?_eq_getElem i.isLt)
      (List.getElem?_eq_getElem j.isLt) hsame)
  obtain ⟨i, hi⟩ := Finite.injective_iff_surjective.mp hinj ⟨p, hp⟩
  refine ⟨blocks[i], List.getElem_mem _, ?_⟩
  have h1 := (hpos i).1
  have h2 : number i - a = p := congrArg Fin.val hi
  rw [hnumber i]
  congr 1
  omega

/-- The first block that does not fit would be read cut short. -/
lemma BatchReadable.fits (hcut : codec.RejectsCut) {block : Block} (hblock : block ∈ blocks) :
    codec.Fits block := by
  suffices hall : ∀ p c, blocks[p]? = some c → codec.Fits c by
    obtain ⟨p, hp⟩ := List.mem_iff_getElem?.mp hblock
    exact hall p block hp
  intro p
  induction p using Nat.strong_induction_on with
  | _ p ih =>
    intro c hc
    by_contra hlong
    have hlt : p < blocks.length := (List.getElem?_eq_some_iff.mp hc).1
    obtain ⟨other, hother, hnum⟩ := hreadable.position_surjective h hdistinct hfree hlt
    have hread := hreadable.own other hother _ hnum
    obtain ⟨-, -, hcutting⟩ := h.position (hfree _ ⟨other, hother, hnum⟩) hread
    rw [Nat.add_sub_cancel_left] at hcutting
    exact hcut.decompress hlong (by simp [hnum]) (hcutting c hc ih)

/-- So what is read at a position is the block there. -/
lemma BatchReadable.consecutive (hcut : codec.RejectsCut) : Consecutive blocks := by
  refine ⟨a, fun i block hi => ?_⟩
  have hmem : block ∈ blocks := List.mem_of_getElem? hi
  have hfits : ∀ c ∈ blocks, codec.Fits c := fun c hc =>
    hreadable.fits h hdistinct hfree hcut hc
  obtain ⟨n, hn⟩ := writeRecords_number h.wrote hmem
  have hread := hreadable.own block hmem n hn
  obtain ⟨⟨hle, -⟩, hlt, hcutting⟩ := h.position (hfree n ⟨block, hmem, hn⟩) hread
  have hthere : blocks[n - a]? = some blocks[n - a] := List.getElem?_eq_getElem hlt
  have hdec := hcutting _ hthere fun j _ c hc => hfits c (List.mem_of_getElem? hc)
  rw [(hfits _ (List.getElem_mem hlt)).decompress] at hdec
  have hsame : blocks[n - a] = block := codec.encode_injective (Option.some.inj hdec)
  have hval : n - a = i := position_unique hdistinct hthere hi (by rw [hsame])
  rw [hn]
  congr 1
  omega

end Readable

/-! ### Lists that ascend by one -/

section Ascending

variable (h : Archived codec node after blocks a b files) (hp : ProperIndices node.indices)
  (hfree : ∀ n ∈ numbersOf blocks, Free node n)
  (hnumber : ∀ i block, blocks[i]? = some block → getBlockNumber block = some (a + i))

include h hnumber

lemma Archived.within : n ∈ numbersOf blocks ↔ a ≤ n ∧ n ≤ b := by
  obtain ⟨last, hlast, hb⟩ := Option.bind_eq_some_iff.mp h.last
  have hpos : 0 < blocks.length := List.length_pos_of_mem (List.mem_of_mem_getLast? hlast)
  have hend : b = a + (blocks.length - 1) := by
    rw [List.getLast?_eq_getElem?] at hlast
    exact Option.some.inj (hb.symm.trans (hnumber _ last hlast))
  constructor
  · rintro ⟨block, hblock, hn⟩
    obtain ⟨i, hi⟩ := List.mem_iff_getElem?.mp hblock
    have hlt : i < blocks.length := (List.getElem?_eq_some_iff.mp hi).1
    have heq : n = a + i := Option.some.inj (hn.symm.trans (hnumber i block hi))
    omega
  · rintro ⟨h1, h2⟩
    have hlt : n - a < blocks.length := by omega
    refine ⟨blocks[n - a], List.getElem_mem hlt, ?_⟩
    rw [hnumber _ _ (List.getElem?_eq_getElem hlt)]
    congr 1
    omega

include hfree

/-- No chunk that was there before reaches into the range of the batch. -/
lemma Archived.not_loaded {e : ℕ × MappedIndex} (he : node.indices.get e.1 = some e.2)
    (hle : a ≤ n) (hge : n ≤ b) : ¬ (e.1 ≤ n ∧ n ≤ e.2.endBlock) :=
  (hfree n ((h.within hnumber).mpr ⟨hle, hge⟩)).not_loaded he

include hp

lemma Archived.reads_own (hfits : ∀ block ∈ blocks, codec.Fits block) {block : Block}
    (hblock : block ∈ blocks) (hn : getBlockNumber block = some n) :
    after.readBlock codec n = some (some (codec.encode block)) := by
  obtain ⟨hle, hge⟩ := (h.within hnumber).mp ⟨block, hblock, hn⟩
  obtain ⟨i, hi⟩ := List.mem_iff_getElem?.mp hblock
  have heq : n = a + i := Option.some.inj (hn.symm.trans (hnumber i block hi))
  have hseek : after.indices.seekLE n = some (a, batchChunk files a b) := by
    rw [h.seekLE, if_pos]
    refine ⟨hle, fun e he => ?_⟩
    obtain ⟨hget, hen, -⟩ := SortedMap.seekLE_eq_some.mp he
    by_contra hlt
    have hown : e.1 ≤ e.2.endBlock := (hp e.1 e.2 hget).2.1
    exact h.not_loaded hfree hnumber hget (by omega) (by omega) ⟨le_rfl, hown⟩
  have hi' : blocks[n - (batchChunk files a b).startBlock]? = some block := by
    rw [← hi, heq]
    simp [batchChunk]
  obtain ⟨r, hr, hread⟩ := getRecord_reads (m := batchChunk files a b) h.wrote ⟨hle, hge⟩ hi'
    fun j _ c hc => hfits c (List.mem_of_getElem? hc)
  have hdata : after.disk.get (batchChunk files a b).dataPath = some files.1 := h.data
  rw [h.readBlock_cold (hfree n ⟨block, hblock, hn⟩).1]
  simp only [coldReadBlock, hseek, hr, hdata, hread, (hfits block hblock).decompress,
    Option.map_some]

lemma Archived.reads_others (hn : n ∉ numbersOf blocks) :
    after.readBlock codec n = node.readBlock codec n := by
  have hout : a ≤ n → b < n := fun hle => by
    by_contra hge
    exact hn ((h.within hnumber).mpr ⟨hle, not_lt.mp hge⟩)
  have hcold : coldReadBlock codec after.disk after.indices n =
      coldReadBlock codec node.disk node.indices n := by
    rw [coldReadBlock, coldReadBlock, h.seekLE]
    by_cases hnew : a ≤ n ∧ ∀ e ∈ node.indices.seekLE n, e.1 ≤ a
    · -- the chunk of the batch ends before the number, and so did what was looked at before
      have hnone : (batchChunk files a b).getRecord n = none := by
        rw [Option.eq_none_iff_forall_ne_some]
        exact fun r hr => absurd (getRecord_range hr).2 (not_le.mpr (hout hnew.1))
      rw [if_pos hnew]
      rcases hseek : node.indices.seekLE n with _ | e
      · simp only [hnone]
      · have hold : e.2.getRecord n = none := by
          rw [Option.eq_none_iff_forall_ne_some]
          intro r hr
          have hend := (getRecord_range hr).2
          have hbn := hout hnew.1
          have hab := h.le
          exact h.not_loaded hfree hnumber (SortedMap.seekLE_eq_some.mp hseek).1 le_rfl h.le
            ⟨hnew.2 e hseek, by omega⟩
        simp only [hnone, hold]
    · rw [if_neg hnew]
      rcases hseek : node.indices.seekLE n with _ | e
      · rfl
      · have hget := (SortedMap.seekLE_eq_some.mp hseek).1
        obtain ⟨-, hend, hpath⟩ := hp e.1 e.2 hget
        have hne : e.1 ≠ a := by
          intro heq
          exact h.not_loaded hfree hnumber hget le_rfl h.le ⟨heq.le, heq ▸ hend⟩
        have hdata : after.disk.get e.2.dataPath = node.disk.get e.2.dataPath := by
          refine h.others _ fun howned => ?_
          rw [hpath] at howned
          exact Owned.ne (owned_data _ _) howned hne rfl
        simp only [hdata]
  simp only [Node.readBlock, hotReadBlock, h.hot, hcold]

end Ascending

/-- **A historical batch can be read back exactly when its numbers ascend by one** and every
compressed block is shorter than `2 ^ 32` bytes. -/
theorem batch_readable_iff {cfg : Config} {codec : Codec} (hcut : codec.RejectsCut)
    {ops : List Operation} {node : Node}
    (hrun : run (Node.operate cfg codec) (Node.init cfg) ops = some node) {blocks : List Block}
    (hne : blocks ≠ []) (hok : (node.writeBlockBatchResult cfg codec blocks []).2 = true)
    (hdistinct : (blocks.map getBlockNumber).Nodup)
    (hsmall : ∀ n ∈ numbersOf blocks, n < 10 ^ 10) (hfree : ∀ n ∈ numbersOf blocks, Free node n) :
    BatchReadable codec node (node.writeBlockBatch cfg codec blocks []) blocks ↔
      Consecutive blocks ∧ ∀ block ∈ blocks, codec.Fits block := by
  obtain ⟨a, b, files, h⟩ := writeBlockBatch_archived hne hok hsmall
  have hp := (run_proper hrun).loaded
  constructor
  · intro hreadable
    refine ⟨hreadable.consecutive h hdistinct hfree hcut, fun block hblock => ?_⟩
    exact hreadable.fits h hdistinct hfree hcut hblock
  · rintro ⟨⟨first, hnumber⟩, hfits⟩
    obtain ⟨head, hhead, ha⟩ := Option.bind_eq_some_iff.mp h.first
    rw [List.head?_eq_getElem?] at hhead
    obtain rfl : a = first := Option.some.inj (ha.symm.trans (hnumber 0 head hhead))
    refine ⟨fun block hblock n hn => ?_, fun n hn => ?_⟩
    · exact h.reads_own hp hfree hnumber hfits hblock hn
    · exact h.reads_others hp hfree hnumber hn

lemma init_free (cfg : Config) (n : ℕ) : Free (Node.init cfg) n :=
  ⟨SortedMap.get_empty n, fun _ he => by cases he⟩

/-- Blocks 2 and 3 on an empty store. -/
theorem batch_readable_pair : BatchReadable plainCodec (Node.init zeroConfig)
    ((Node.init zeroConfig).writeBlockBatch zeroConfig plainCodec
      [headerBlock 2 [], headerBlock 3 []] []) [headerBlock 2 [], headerBlock 3 []] := by
  have hrun : run (Node.operate zeroConfig plainCodec) (Node.init zeroConfig) [] =
      some (Node.init zeroConfig) := rfl
  refine (batch_readable_iff plainCodec_rejectsCut hrun (by simp) (by decide +kernel)
    (by decide) ?_ fun n _ => init_free zeroConfig n).mpr ⟨⟨2, ?_⟩, by decide +kernel⟩
  · rintro n ⟨block, hblock, hn⟩
    fin_cases hblock <;> exact Option.some.inj hn ▸ by decide
  · intro i block hi
    have hlt : i < 2 := (List.getElem?_eq_some_iff.mp hi).1
    interval_cases i <;> cases hi <;> rfl

/-- Blocks 2 and 4: the archive is looked up at its third position for block 4, and there is
none. -/
theorem batch_unreadable : ¬ ∀ (cfg : Config) (codec : Codec) (ops : List Operation) (node : Node)
    (blocks : List Block), codec.RejectsCut →
    run (Node.operate cfg codec) (Node.init cfg) ops = some node → blocks ≠ [] →
    (node.writeBlockBatchResult cfg codec blocks []).2 = true →
    (blocks.map getBlockNumber).Nodup → (∀ n ∈ numbersOf blocks, n < 10 ^ 10) →
    (∀ n ∈ numbersOf blocks, Free node n) →
    BatchReadable codec node (node.writeBlockBatch cfg codec blocks []) blocks := by
  intro h
  have hreadable := h zeroConfig plainCodec [] _ [headerBlock 2 [], headerBlock 4 []]
    plainCodec_rejectsCut rfl (by simp) (by decide +kernel) (by decide)
    (by
      rintro n ⟨block, hblock, hn⟩
      fin_cases hblock <;> exact Option.some.inj hn ▸ by decide)
    fun n _ => init_free zeroConfig n
  have hread := hreadable.own (headerBlock 4 []) (by simp) 4 rfl
  have hnone : ((Node.init zeroConfig).writeBlockBatch zeroConfig plainCodec
      [headerBlock 2 [], headerBlock 4 []] []).readBlock plainCodec 4 = some none := by
    decide +kernel
  rw [hnone] at hread
  cases hread

end RockNode
