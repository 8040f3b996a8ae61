import RockNode.ColdStorage

/-!
What the writer puts into an archive the reader finds there.

The induction over the blocks keeps the data written before them as a string in front: the
offsets in the records count from the start of the file.
-/

namespace RockNode

@[simp] lemma IndexRecord.toBytes_length (r : IndexRecord) : r.toBytes.length = recordSize := by
  simp [toBytes, recordSize]

/-- Past the first record the index goes on with the others. -/
lemma IndexRecord.drop_succ (r : IndexRecord) (rest : Bytes) (i : ℕ) :
    (r.toBytes ++ rest).drop ((i + 1) * recordSize) = rest.drop (i * recordSize) := by
  rw [Nat.add_one_mul, Nat.add_comm, List.drop_append, r.toBytes_length,
    List.drop_eq_nil_of_le (by rw [r.toBytes_length]; omega)]
  simp

lemma IndexRecord.ofBytes_toBytes {r : IndexRecord} (hn : r.blockNumber ≤ u64Max)
    (ho : r.offset ≤ u64Max) (hl : r.length < 2 ^ 32) : ofBytes r.toBytes = r := by
  have h8 : ∀ {x}, x ≤ u64Max → ofBE (toBE 8 x) = x := by
    intro x hx
    simp only [u64Max] at hx
    exact ofBE_toBE_of_lt (by norm_num; omega)
  have h4 : ofBE (toBE 4 r.length) = r.length := ofBE_toBE_of_lt (by norm_num; omega)
  have h16 : List.drop 16 r.toBytes = toBE 4 r.length := by
    rw [toBytes, ← List.append_assoc]
    exact List.drop_left' (by simp)
  obtain ⟨n, o, l⟩ := r
  simp only [ofBytes, h16]
  simp only [toBytes, List.take_left' (toBE_length 8 n), List.drop_left' (toBE_length 8 n),
    List.take_left' (toBE_length 8 o), h8 hn, h8 ho]
  rw [List.take_of_length_le (by simp), h4]

lemma checkedAdd_eq_some {a b c : ℕ} : checkedAdd a b = some c ↔ c = a + b ∧ c ≤ u64Max := by
  unfold checkedAdd
  split
  · simp only [Option.some.injEq]
    omega
  · simp only [reduceCtorEq, false_iff]
    omega

/-- The first block of the loop and the rest of it. -/
lemma writeRecords_cons {codec : Codec} {offset : ℕ} {block : Block} {blocks : List Block}
    {files : Bytes × Bytes} (h : writeRecords codec offset (block :: blocks) = some files) :
    ∃ n next rest, getBlockNumber block = some n ∧
      next = offset + (codec.compress (codec.encode block)).length % 2 ^ 32 ∧ next ≤ u64Max ∧
      writeRecords codec next blocks = some rest ∧
      files = (codec.compress (codec.encode block) ++ rest.1, (IndexRecord.mk n offset
        ((codec.compress (codec.encode block)).length % 2 ^ 32)).toBytes ++ rest.2) := by
  simp only [writeRecords, Option.bind_eq_bind, Option.bind_eq_some_iff] at h
  obtain ⟨n, hn, next, hnext, rest, hrest, hfiles⟩ := h
  obtain ⟨h1, h2⟩ := checkedAdd_eq_some.mp hnext
  exact ⟨n, next, rest, hn, h1, h2, hrest, (Option.some.inj hfiles).symm⟩

lemma writeRecords_index_length {codec : Codec} {blocks : List Block} {offset : ℕ}
    {files : Bytes × Bytes} (h : writeRecords codec offset blocks = some files) :
    files.2.length = blocks.length * recordSize := by
  induction blocks generalizing offset files with
  | nil =>
    simp only [writeRecords, Option.some.injEq] at h
    simp [← h]
  | cons block blocks ih =>
    obtain ⟨n, next, rest, -, -, -, hrest, rfl⟩ := writeRecords_cons h
    simp only [List.length_append, IndexRecord.toBytes_length, ih hrest, List.length_cons]
    ring

/-- The length of the compressed block is not cut off by the cast to `u32`. -/
def Codec.Fits (codec : Codec) (block : Block) : Prop :=
  (codec.compress (codec.encode block)).length < 2 ^ 32

instance Codec.Fits.decidable (codec : Codec) (block : Block) : Decidable (codec.Fits block) :=
  inferInstanceAs (Decidable (_ < _))

/-- The record of the `i`-th block leads to the beginning of that block, with as much of it as
its length modulo `2 ^ 32` says, when the blocks before it fit. -/
lemma writeRecords_reads_cut {codec : Codec} {blocks : List Block} {offset : ℕ}
    {files : Bytes × Bytes} (h : writeRecords codec offset blocks = some files)
    (before : Bytes) (hbefore : before.length = offset) (hle : offset ≤ u64Max) {i : ℕ}
    {block : Block} (hi : blocks[i]? = some block)
    (hfit : ∀ j < i, ∀ b, blocks[j]? = some b → codec.Fits b) :
    readRecord codec (some (before ++ files.1))
      (.ofBytes ((files.2.drop (i * recordSize)).take recordSize)) =
      codec.decompress ((codec.compress (codec.encode block)).take
        ((codec.compress (codec.encode block)).length % 2 ^ 32)) := by
  induction blocks generalizing offset files before i with
  | nil => simp at hi
  | cons first blocks ih =>
    obtain ⟨n, next, rest, hn, hnext, hnextle, hrest, rfl⟩ := writeRecords_cons h
    cases i with
    | zero =>
      obtain rfl : first = block := by simpa using hi
      set compressed := codec.compress (codec.encode first) with hcompressed
      have hlen : compressed.length % 2 ^ 32 < 2 ^ 32 := Nat.mod_lt _ (by norm_num)
      have hcut : compressed.length % 2 ^ 32 ≤ compressed.length := Nat.mod_le _ _
      have hrec := IndexRecord.ofBytes_toBytes (r := ⟨n, offset, _⟩) (getBlockNumber_le hn) hle hlen
      simp only [Nat.zero_mul, List.drop_zero]
      rw [List.take_left' (IndexRecord.toBytes_length _), hrec]
      have hdrop : (before ++ (compressed ++ rest.1)).drop offset = compressed ++ rest.1 :=
        List.drop_left' hbefore
      have hroom : offset + compressed.length % 2 ^ 32 ≤
          (before ++ (compressed ++ rest.1)).length := by
        simp only [List.length_append]
        omega
      simp only [readRecord, Option.bind_eq_bind, Option.bind_some, hroom, if_true, hdrop,
        List.take_append_of_le_length hcut]
    | succ i =>
      have hlen : (codec.compress (codec.encode first)).length < 2 ^ 32 :=
        hfit 0 (Nat.succ_pos i) first rfl
      rw [Nat.mod_eq_of_lt hlen] at hnext ⊢
      rw [IndexRecord.drop_succ, ← List.append_assoc]
      exact ih hrest _ (by rw [List.length_append, hbefore, hnext]) hnextle (by simpa using hi)
        fun j hj b hb => hfit (j + 1) (by omega) b (by simpa using hb)

/-- It leads to that block when all of them fit. -/
lemma writeRecords_reads {codec : Codec} {blocks : List Block} {offset : ℕ}
    {files : Bytes × Bytes} (h : writeRecords codec offset blocks = some files)
    (hfit : ∀ block ∈ blocks, (codec.compress (codec.encode block)).length < 2 ^ 32)
    (before : Bytes) (hbefore : before.length = offset) (hle : offset ≤ u64Max) {i : ℕ}
    {block : Block} (hi : blocks[i]? = some block) :
    readRecord codec (some (before ++ files.1))
      (.ofBytes ((files.2.drop (i * recordSize)).take recordSize)) = some (codec.encode block) := by
  rw [writeRecords_reads_cut h before hbefore hle hi
    fun j _ b hb => hfit b (List.mem_of_getElem? hb),
    Nat.mod_eq_of_lt (hfit block (List.mem_of_getElem? hi)), List.take_length,
    codec.decompress_compress]

/-- The record that `get_record` finds under the `i`-th number of the chunk. -/
lemma getRecord_of_lt {codec : Codec} {blocks : List Block} {files : Bytes × Bytes}
    (h : writeRecords codec 0 blocks = some files) (start : ℕ) (dataPath : FileName) {i : ℕ}
    (hlt : i < blocks.length) :
    (MappedIndex.mk files.2 start (start + blocks.length - 1) dataPath).getRecord (start + i) =
      some (.ofBytes ((files.2.drop (i * recordSize)).take recordSize)) := by
  have hlen := writeRecords_index_length h
  have hmul : (i + 1) * recordSize ≤ blocks.length * recordSize := Nat.mul_le_mul_right _ hlt
  rw [Nat.add_one_mul] at hmul
  simp only [MappedIndex.getRecord, Nat.add_sub_cancel_left]
  rw [if_pos (by omega), if_neg (by omega)]

/-- **The archive format reads back**: looking up the `i`-th number of the chunk gives the
`i`-th block. -/
theorem archive_reads {codec : Codec} {blocks : List Block} {files : Bytes × Bytes}
    (h : writeRecords codec 0 blocks = some files)
    (hfit : ∀ block ∈ blocks, (codec.compress (codec.encode block)).length < 2 ^ 32)
    (start : ℕ) (dataPath : FileName) {i : ℕ} {block : Block} (hi : blocks[i]? = some block) :
    ∃ r, (MappedIndex.mk files.2 start (start + blocks.length - 1) dataPath).getRecord (start + i)
        = some r ∧ readRecord codec (some files.1) r = some (codec.encode block) := by
  have hlt : i < blocks.length := (List.getElem?_eq_some_iff.mp hi).1
  exact ⟨_, getRecord_of_lt h start dataPath hlt,
    writeRecords_reads h hfit [] rfl (Nat.zero_le _) hi⟩

/-! ### The layout of the data file -/

/-- The compressed blocks one after the other. -/
def Codec.packed (codec : Codec) (blocks : List Block) : Bytes :=
  blocks.flatMap fun block => codec.compress (codec.encode block)

/-- The bytes of the data file that a record points to. -/
def IndexRecord.byteRange (r : IndexRecord) : Set ℕ := Set.Ico r.offset (r.offset + r.length)

section Layout

variable {codec : Codec}

@[simp] lemma Codec.packed_nil : codec.packed [] = [] := rfl

@[simp] lemma Codec.packed_cons (block : Block) (blocks : List Block) :
    codec.packed (block :: blocks) = codec.compress (codec.encode block) ++ codec.packed blocks :=
  rfl

/-- Where the block after the first `i` ones ends. -/
lemma Codec.packed_take_succ {blocks : List Block} {i : ℕ} {block : Block}
    (hi : blocks[i]? = some block) :
    (codec.packed (blocks.take (i + 1))).length =
      (codec.packed (blocks.take i)).length + (codec.compress (codec.encode block)).length := by
  rw [List.take_add_one, hi]
  simp [Codec.packed]

lemma Codec.packed_take_mono (blocks : List Block) {i j : ℕ} (h : i ≤ j) :
    (codec.packed (blocks.take i)).length ≤ (codec.packed (blocks.take j)).length := by
  have happend : blocks.take j = blocks.take i ++ (blocks.take j).drop i := by
    conv_lhs => rw [← List.take_append_drop i (blocks.take j), List.take_take, min_eq_left h]
  rw [happend]
  simp [Codec.packed]

/-- Every byte belongs to one of the blocks. -/
lemma Codec.exists_block_at {blocks : List Block} {n k : ℕ}
    (h : k < (codec.packed (blocks.take n)).length) :
    ∃ i block, blocks[i]? = some block ∧ (codec.packed (blocks.take i)).length ≤ k ∧
      k < (codec.packed (blocks.take i)).length + (codec.compress (codec.encode block)).length := by
  induction n with
  | zero => simp at h
  | succ n ih =>
    rcases Nat.lt_or_ge k (codec.packed (blocks.take n)).length with hlt | hge
    · exact ih hlt
    · rcases hn : blocks[n]? with _ | block
      · -- past the last block nothing is added
        rw [List.take_add_one, hn] at h
        simp only [Option.toList_none, List.append_nil] at h
        omega
      · rw [Codec.packed_take_succ hn] at h
        exact ⟨n, block, hn, hge, h⟩

/-- Blocks with a header that fit are written, unless the offset runs past the last `u64`. -/
lemma writeRecords_isSome {blocks : List Block} {offset : ℕ}
    (hnum : ∀ block ∈ blocks, ∃ n, getBlockNumber block = some n)
    (hfit : ∀ block ∈ blocks, codec.Fits block)
    (htotal : offset + (codec.packed blocks).length ≤ u64Max) :
    ∃ files, writeRecords codec offset blocks = some files := by
  induction blocks generalizing offset with
  | nil => exact ⟨_, rfl⟩
  | cons block blocks ih =>
    obtain ⟨n, hn⟩ := hnum block List.mem_cons_self
    have hlen : (codec.compress (codec.encode block)).length < 2 ^ 32 :=
      hfit block List.mem_cons_self
    rw [Codec.packed_cons, List.length_append] at htotal
    have hrest : offset + (codec.compress (codec.encode block)).length +
        (codec.packed blocks).length ≤ u64Max := by omega
    obtain ⟨files, hfiles⟩ := ih (fun b hb => hnum b (List.mem_cons_of_mem _ hb))
      (fun b hb => hfit b (List.mem_cons_of_mem _ hb)) hrest
    have hnext : checkedAdd offset (codec.compress (codec.encode block)).length =
        some (offset + (codec.compress (codec.encode block)).length) := if_pos (by omega)
    simp only [writeRecords, hn, Nat.mod_eq_of_lt hlen, hnext, hfiles, Option.bind_eq_bind,
      Option.bind_some]
    exact ⟨_, rfl⟩

lemma writeRecords_data {blocks : List Block} {offset : ℕ} {files : Bytes × Bytes}
    (h : writeRecords codec offset blocks = some files) : files.1 = codec.packed blocks := by
  induction blocks generalizing offset files with
  | nil =>
    cases h
    rfl
  | cons block blocks ih =>
    obtain ⟨n, next, rest, -, -, -, hrest, rfl⟩ := writeRecords_cons h
    rw [Codec.packed_cons, ← ih hrest]

/-- The `i`-th record: the block's number, where it starts and how long it is. -/
lemma writeRecords_record {blocks : List Block} {offset : ℕ} {files : Bytes × Bytes}
    (h : writeRecords codec offset blocks = some files) (hle : offset ≤ u64Max)
    (hfit : ∀ block ∈ blocks, codec.Fits block) {i n : ℕ} {block : Block}
    (hi : blocks[i]? = some block) (hn : getBlockNumber block = some n) :
    IndexRecord.ofBytes ((files.2.drop (i * recordSize)).take recordSize) =
      ⟨n, offset + (codec.packed (blocks.take i)).length,
        (codec.compress (codec.encode block)).length⟩ := by
  induction blocks generalizing offset files i with
  | nil => simp at hi
  | cons first blocks ih =>
    obtain ⟨m, next, rest, hm, hnext, hnextle, hrest, rfl⟩ := writeRecords_cons h
    have hlen : (codec.compress (codec.encode first)).length < 2 ^ 32 :=
      hfit first List.mem_cons_self
    rw [Nat.mod_eq_of_lt hlen] at hnext ⊢
    cases i with
    | zero =>
      obtain rfl : first = block := by simpa using hi
      obtain rfl : m = n := Option.some.inj (hm.symm.trans hn)
      simp only [Nat.zero_mul, List.drop_zero]
      rw [List.take_left' (IndexRecord.toBytes_length _),
        IndexRecord.ofBytes_toBytes (getBlockNumber_le hm) hle hlen]
      rfl
    | succ i =>
      rw [IndexRecord.drop_succ, ih hrest hnextle (fun b hb => hfit b (List.mem_cons_of_mem _ hb))
        (by simpa using hi), hnext, List.take_succ_cons, Codec.packed_cons, List.length_append,
        Nat.add_assoc]

/-- The numbers of the chunk are the ones that have a record: where their blocks start and how
long they are. -/
lemma getRecord_iff {blocks : List Block} {files : Bytes × Bytes}
    (h : writeRecords codec 0 blocks = some files) (hfit : ∀ block ∈ blocks, codec.Fits block)
    {start : ℕ}
    (hnum : ∀ i block, blocks[i]? = some block → getBlockNumber block = some (start + i))
    (dataPath : FileName) (n : ℕ) (r : IndexRecord) :
    (MappedIndex.mk files.2 start (start + blocks.length - 1) dataPath).getRecord n = some r ↔
      ∃ i block, n = start + i ∧ blocks[i]? = some block ∧
        r = ⟨n, (codec.packed (blocks.take i)).length,
          (codec.compress (codec.encode block)).length⟩ := by
  have hrecord : ∀ i block, blocks[i]? = some block →
      (MappedIndex.mk files.2 start (start + blocks.length - 1) dataPath).getRecord (start + i) =
        some ⟨start + i, (codec.packed (blocks.take i)).length,
          (codec.compress (codec.encode block)).length⟩ := by
    intro i block hi
    rw [getRecord_of_lt h start dataPath (List.getElem?_eq_some_iff.mp hi).1,
      writeRecords_record h (Nat.zero_le _) hfit hi (hnum i block hi), Nat.zero_add]
  constructor
  · intro hr
    have hin : start ≤ n ∧ n ≤ start + blocks.length - 1 := by
      by_contra hout
      simp [MappedIndex.getRecord, hout] at hr
    rcases hi : blocks[n - start]? with _ | block
    · -- only the chunk without a block has a number past its last one
      have hlen := writeRecords_index_length h
      have hle := List.getElem?_eq_none_iff.mp hi
      have hzero : blocks.length = 0 := by omega
      rw [hzero, Nat.zero_mul] at hlen
      simp [MappedIndex.getRecord, hlen, recordSize] at hr
    · have hn : n = start + (n - start) := by omega
      refine ⟨n - start, block, hn, hi, ?_⟩
      rw [hn, hrecord _ block hi] at hr
      rw [← Option.some.inj hr, ← hn]
  · rintro ⟨i, block, rfl, hi, rfl⟩
    exact hrecord i block hi

/-- Two numbers' byte ranges do not meet: the ranges follow one another. -/
lemma byteRange_disjoint {blocks : List Block} {i j : ℕ} {block block' : Block}
    (hi : blocks[i]? = some block) (hj : blocks[j]? = some block') (hne : i ≠ j) (n n' : ℕ) :
    ∀ k ∈ (IndexRecord.mk n (codec.packed (blocks.take i)).length
        (codec.compress (codec.encode block)).length).byteRange,
      k ∉ (IndexRecord.mk n' (codec.packed (blocks.take j)).length
        (codec.compress (codec.encode block')).length).byteRange := by
  have hi' := codec.packed_take_succ hi
  have hj' := codec.packed_take_succ hj
  rintro k ⟨h1, h2⟩ ⟨h3, h4⟩
  simp only at h1 h2 h3 h4
  rcases Nat.lt_or_gt_of_ne hne with hlt | hgt
  · have := codec.packed_take_mono blocks (show i + 1 ≤ j from hlt)
    omega
  · have := codec.packed_take_mono blocks (show j + 1 ≤ i from hgt)
    omega

/-- The mapping that `load_index_file` keeps of a pair of files. -/
lemma loadIndexFile_eq {disk : Disk} {name : FileName} {first last : ℕ} {data index : Bytes}
    (hparse : parseBlockRange name = some (first, last)) (hle : first ≤ last)
    (hindex : disk.get name = some index)
    (hdata : disk.get (withExtension name ['r', 'b', 'a']) = some data) (indices : Indices) :
    loadIndexFile disk name indices =
      some (indices.put first ⟨index, first, last, withExtension name ['r', 'b', 'a']⟩) := by
  simp only [loadIndexFile, hparse, hindex, hdata, Option.bind_eq_bind, Option.bind_some]
  rw [if_neg (by omega)]
  rfl

/-- **The archive format round trip.** Blocks with consecutive numbers are written to a pair of
files that, once mapped, gives back each block under its number and nothing under any other. The
byte ranges of two blocks do not meet, and together they are the data file. -/
theorem archive_roundTrip {blocks : List Block} {start : ℕ} (hne : blocks ≠ [])
    (hnum : ∀ i block, blocks[i]? = some block → getBlockNumber block = some (start + i))
    (hfit : ∀ block ∈ blocks, codec.Fits block) (htotal : (codec.packed blocks).length < 2 ^ 64) :
    ∃ files, writeRecords codec 0 blocks = some files ∧
      (∀ (disk : Disk) (name : FileName) (indices : Indices),
        parseBlockRange name = some (start, start + blocks.length - 1) →
        disk.get name = some files.2 →
        disk.get (withExtension name ['r', 'b', 'a']) = some files.1 →
        loadIndexFile disk name indices = some (indices.put start
          ⟨files.2, start, start + blocks.length - 1, withExtension name ['r', 'b', 'a']⟩)) ∧
      ∀ m : MappedIndex, m.mmap = files.2 → m.startBlock = start →
        m.endBlock = start + blocks.length - 1 →
        (∀ i block, blocks[i]? = some block → ∃ r, m.getRecord (start + i) = some r ∧
          r.blockNumber = start + i ∧
          readRecord codec (some files.1) r = some (codec.encode block)) ∧
        (∀ n n' r r', n ≠ n' → m.getRecord n = some r → m.getRecord n' = some r' →
          ∀ k ∈ r.byteRange, k ∉ r'.byteRange) ∧
        {k | ∃ n r, m.getRecord n = some r ∧ k ∈ r.byteRange} = {k | k < files.1.length} ∧
        ∀ n, n < start ∨ start + blocks.length - 1 < n → m.getRecord n = none := by
  have hpos : 0 < blocks.length := List.length_pos_iff.mpr hne
  have hheader : ∀ block ∈ blocks, ∃ n, getBlockNumber block = some n := by
    intro block hb
    obtain ⟨i, hi⟩ := List.getElem?_of_mem hb
    exact ⟨_, hnum i block hi⟩
  have hroom : 0 + (codec.packed blocks).length ≤ u64Max := by
    simp only [u64Max]
    omega
  obtain ⟨files, hfiles⟩ := writeRecords_isSome hheader hfit hroom
  refine ⟨files, hfiles, fun disk name indices hparse hindex hdata =>
    loadIndexFile_eq hparse (by omega) hindex hdata indices, ?_⟩
  rintro ⟨mmap, first, last, dataPath⟩ hmmap hfirst hlast
  obtain rfl : mmap = files.2 := hmmap
  obtain rfl : first = start := hfirst
  obtain rfl : last = first + blocks.length - 1 := hlast
  have hiff := getRecord_iff hfiles hfit hnum dataPath
  have hpacked : files.1 = codec.packed (blocks.take blocks.length) := by
    rw [List.take_length, writeRecords_data hfiles]
  refine ⟨?_, ?_, ?_, ?_⟩
  · intro i block hi
    obtain ⟨r, hr, hread⟩ := archive_reads hfiles hfit first dataPath hi
    obtain ⟨_, _, -, -, hrec⟩ := (hiff _ _).mp hr
    exact ⟨r, hr, by rw [hrec], hread⟩
  · intro n n' r r' hnn hr hr'
    obtain ⟨i, block, rfl, hi, rfl⟩ := (hiff _ _).mp hr
    obtain ⟨j, block', rfl, hj, rfl⟩ := (hiff _ _).mp hr'
    exact byteRange_disjoint hi hj (by omega) _ _
  · ext k
    constructor
    · rintro ⟨n, r, hr, -, hk⟩
      obtain ⟨i, block, rfl, hi, rfl⟩ := (hiff _ _).mp hr
      have hlt : i < blocks.length := (List.getElem?_eq_some_iff.mp hi).1
      have hmono := codec.packed_take_mono blocks (show i + 1 ≤ blocks.length from hlt)
      rw [codec.packed_take_succ hi, ← hpacked] at hmono
      exact hk.trans_le hmono
    · intro hk
      rw [Set.mem_ofPred_eq, hpacked] at hk
      obtain ⟨i, block, hi, hk⟩ := Codec.exists_block_at hk
      exact ⟨first + i, _, (hiff _ _).mpr ⟨i, block, rfl, hi, rfl⟩, hk⟩
  · intro n hn
    simp only [MappedIndex.getRecord]
    rw [if_neg (by omega)]

theorem archive_roundTrip_pair :
    ∃ files, writeRecords plainCodec 0 [headerBlock 7 [], headerBlock 8 [1]] = some files ∧
      ∃ r, (MappedIndex.mk files.2 7 8 []).getRecord 8 = some r ∧
        readRecord plainCodec (some files.1) r = some (plainCodec.encode (headerBlock 8 [1])) := by
  have hnum : ∀ i block, [headerBlock 7 [], headerBlock 8 [1]][i]? = some block →
      getBlockNumber block = some (7 + i) := by
    rintro (_ | _ | i) block hi
    · cases hi
      rfl
    · cases hi
      rfl
    · simp at hi
  have hfit : ∀ block ∈ [headerBlock 7 [], headerBlock 8 [1]], plainCodec.Fits block := by decide
  obtain ⟨files, hfiles, -, h⟩ := archive_roundTrip (by simp) hnum hfit (by decide)
  obtain ⟨r, hr, -, hread⟩ := (h ⟨files.2, 7, 8, []⟩ rfl rfl rfl).1 1 _ rfl
  exact ⟨files, hfiles, r, hr, hread⟩

end Layout

end RockNode
