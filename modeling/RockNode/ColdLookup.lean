import RockNode.Durability

/-!
What `ColdReader::read_block` finds, whatever archives lie in the directory.

The reader keeps one chunk for each first number and looks into the one with the greatest first
number that is not above the number asked for. So a number is found exactly when every archive
that can be there covers it: one that starts later and ends earlier hides it, and of two that
start at the same number the one loaded last is kept.
-/

namespace RockNode

variable {codec : Codec} {disk : Disk} {n : ℕ}

/-! ### Reading by position -/

/-- A compressed block that is cut short does not decompress to a block. -/
def Codec.RejectsCut (codec : Codec) : Prop :=
  ∀ (block block' : Block) (m : ℕ), getBlockNumber block' ≠ none →
    m < (codec.compress (codec.encode block)).length →
    codec.decompress ((codec.compress (codec.encode block)).take m) ≠ some (codec.encode block')

lemma plainCodec_rejectsCut : plainCodec.RejectsCut := by
  intro block block' m _ hm hdec
  have hnone : plainCodec.decompress ((plainCodec.compress (plainCodec.encode block)).take m) =
      none := Format.decAll_take hm
  rw [hnone] at hdec
  cases hdec

lemma Codec.encode_injective (codec : Codec) {block block' : Block}
    (h : codec.encode block = codec.encode block') : block = block' := by
  have hdec := congrArg codec.decode h
  simpa using hdec

lemma getRecord_eq_some {m : MappedIndex} {r : IndexRecord} :
    m.getRecord n = some r ↔ (m.startBlock ≤ n ∧ n ≤ m.endBlock) ∧
      (n - m.startBlock) * recordSize + recordSize ≤ m.mmap.length ∧
      r = .ofBytes ((m.mmap.drop ((n - m.startBlock) * recordSize)).take recordSize) := by
  unfold MappedIndex.getRecord
  split
  · next hrange =>
    simp only
    split
    · next hshort => simp [hrange, hshort]
    · next hroom => simp [hrange, not_lt.mp hroom, eq_comm]
  · next hrange => simp [hrange]

section Position

variable {stored : List Block} {data : Bytes} {m : MappedIndex} {r : IndexRecord}
  (hwrote : writeRecords codec 0 stored = some (data, m.mmap))

include hwrote

/-- The number that is asked for counts as a position. -/
lemma getRecord_position (hr : m.getRecord n = some r) :
    m.startBlock ≤ n ∧ n ≤ m.endBlock ∧ n - m.startBlock < stored.length := by
  obtain ⟨⟨h1, h2⟩, hroom, -⟩ := getRecord_eq_some.mp hr
  have hlen : m.mmap.length = stored.length * recordSize := writeRecords_index_length hwrote
  refine ⟨h1, h2, ?_⟩
  simp only [hlen, recordSize] at hroom
  omega

/-- What is read there is the block at that position, as far as its length goes. -/
lemma getRecord_reads (hrange : m.startBlock ≤ n ∧ n ≤ m.endBlock) {block : Block}
    (hblock : stored[n - m.startBlock]? = some block)
    (hfit : ∀ j < n - m.startBlock, ∀ b, stored[j]? = some b → codec.Fits b) :
    ∃ r, m.getRecord n = some r ∧ readRecord codec (some data) r =
      codec.decompress ((codec.compress (codec.encode block)).take
        ((codec.compress (codec.encode block)).length % 2 ^ 32)) := by
  have hlt : n - m.startBlock < stored.length := (List.getElem?_eq_some_iff.mp hblock).1
  have hlen : m.mmap.length = stored.length * recordSize := writeRecords_index_length hwrote
  refine ⟨_, getRecord_eq_some.mpr ⟨hrange, ?_, rfl⟩, ?_⟩
  · simp only [hlen, recordSize]
    omega
  · exact writeRecords_reads_cut hwrote [] rfl (Nat.zero_le _) hblock hfit

end Position

lemma Codec.Fits.decompress {block : Block} (h : codec.Fits block) :
    codec.decompress ((codec.compress (codec.encode block)).take
      ((codec.compress (codec.encode block)).length % 2 ^ 32)) = some (codec.encode block) := by
  rw [Nat.mod_eq_of_lt h, List.take_length, codec.decompress_compress]

/-- A block that does not fit is not read back as any block. -/
lemma Codec.RejectsCut.decompress (hcut : codec.RejectsCut) {block block' : Block}
    (h : ¬ codec.Fits block) (hnum : getBlockNumber block' ≠ none) :
    codec.decompress ((codec.compress (codec.encode block)).take
      ((codec.compress (codec.encode block)).length % 2 ^ 32)) ≠ some (codec.encode block') := by
  have hlong : 2 ^ 32 ≤ (codec.compress (codec.encode block)).length := not_lt.mp h
  have hmod := Nat.mod_lt (codec.compress (codec.encode block)).length
    (show 0 < 2 ^ 32 by norm_num)
  exact hcut block block' _ hnum (by omega)

/-! ### The archives of a directory -/

/-- The archive of the numbers from the first to the second. -/
abbrev Range := ℕ × ℕ

def Range.Holds (r : Range) (n : ℕ) : Prop := r.1 ≤ n ∧ n ≤ r.2

instance Range.Holds.decidable (r : Range) (n : ℕ) : Decidable (r.Holds n) :=
  inferInstanceAs (Decidable (_ ∧ _))

/-- The numbers in the name have ten digits, as the reader's pattern demands. -/
def Range.Named (r : Range) : Prop := r.2 < 10 ^ 10

instance Range.Named.decidable (r : Range) : Decidable r.Named :=
  inferInstanceAs (Decidable (_ < _))

def chunkOf (blocks : ℕ → Block) (r : Range) : List Block :=
  (List.range' r.1 (r.2 + 1 - r.1)).map blocks

/-- The pair of files that `write_archive` makes of the blocks with these numbers. -/
structure ArchivePair (codec : Codec) (disk : Disk) (blocks : ℕ → Block) (r : Range) : Prop where
  le : r.1 ≤ r.2
  numbers : ∀ n, r.Holds n → getBlockNumber (blocks n) = some n
  files : ∃ files ∈ writeRecords codec 0 (chunkOf blocks r),
    disk.get (dataFilename r.1 r.2) = some files.1 ∧
    disk.get (indexFilename r.1 r.2) = some files.2

/-- The chunk that is mapped when the index file is loaded. -/
def mappedIndex (disk : Disk) (r : Range) : MappedIndex :=
  ⟨(disk.get (indexFilename r.1 r.2)).getD [], r.1, r.2, dataFilename r.1 r.2⟩

/-- `load_index_file`, one archive after the other. -/
def loadArchives (disk : Disk) (order : List Range) : Indices :=
  scanAndBuildIndex disk (order.map fun r => indexFilename r.1 r.2)

variable {blocks : ℕ → Block} {ranges order : List Range} {r s : Range}

lemma chunkOf_getElem? (blocks : ℕ → Block) (h : r.Holds n) :
    (chunkOf blocks r)[n - r.1]? = some (blocks n) := by
  obtain ⟨h1, h2⟩ := h
  rw [chunkOf, List.getElem?_map, List.getElem?_range' (by omega), Option.map_some]
  congr 2
  omega

lemma ArchivePair.load (h : ArchivePair codec disk blocks r) (indices : Indices) :
    loadIndexFile disk (indexFilename r.1 r.2) indices =
      if r.Named then some (indices.put r.1 (mappedIndex disk r)) else none := by
  obtain ⟨files, -, hdata, hindex⟩ := h.files
  have hle := h.le
  simp only [loadIndexFile, parseBlockRange_eq, withExtension_indexFilename]
  by_cases hnamed : r.Named
  · have hno : ¬ r.2 < r.1 := by omega
    rw [if_pos ⟨hle.trans_lt hnamed, hnamed⟩, if_pos hnamed]
    simp [hdata, hindex, hno, mappedIndex]
  · rw [if_neg fun h => hnamed h.2, if_neg hnamed]
    rfl

/-- The archives whose names the reader understands are loaded, later ones over earlier ones. -/
lemma loadArchives_eq (hpairs : ∀ r ∈ order, ArchivePair codec disk blocks r) :
    loadArchives disk order = (order.filter fun r => r.Named).foldl
      (fun indices r => indices.put r.1 (mappedIndex disk r)) .empty := by
  suffices h : ∀ indices : Indices, (order.map fun r => indexFilename r.1 r.2).foldl
      (fun indices name => if isIndexName name then
        (loadIndexFile disk name indices).getD indices else indices) indices =
      (order.filter fun r => r.Named).foldl
        (fun indices r => indices.put r.1 (mappedIndex disk r)) indices from h .empty
  induction order with
  | nil => exact fun _ => rfl
  | cons r order ih =>
    intro indices
    have hload := (hpairs r List.mem_cons_self).load indices
    have hrest := ih fun s hs => hpairs s (List.mem_cons_of_mem _ hs)
    simp only [List.map_cons, List.foldl_cons, isIndexName_index, if_true, hload, hrest]
    by_cases hnamed : r.Named
    · simp [hnamed]
    · simp [hnamed]

lemma loadArchives_get {k : ℕ} {m : MappedIndex}
    (hpairs : ∀ r ∈ order, ArchivePair codec disk blocks r)
    (h : (loadArchives disk order).get k = some m) :
    ∃ r ∈ order, r.1 = k ∧ r.Named ∧ m = mappedIndex disk r := by
  rw [loadArchives_eq hpairs] at h
  rcases SortedMap.get_foldl_put h with ⟨r, hr, hk, hm⟩ | hempty
  · rw [List.mem_filter, decide_eq_true_eq] at hr
    exact ⟨r, hr.1, hk, hr.2, hm⟩
  · rw [SortedMap.get_empty] at hempty
    cases hempty

lemma loadArchives_ne_none (hpairs : ∀ r ∈ order, ArchivePair codec disk blocks r) (hr : r ∈ order)
    (hnamed : r.Named) : (loadArchives disk order).get r.1 ≠ none := by
  rw [loadArchives_eq hpairs]
  refine SortedMap.get_foldl_put_ne_none (Or.inl ⟨r, ?_, rfl⟩)
  rw [List.mem_filter, decide_eq_true_eq]
  exact ⟨hr, hnamed⟩

/-- An archive that is loaded last is there. -/
lemma loadArchives_last (hpairs : ∀ r ∈ order ++ [s], ArchivePair codec disk blocks r)
    (hnamed : s.Named) :
    (loadArchives disk (order ++ [s])).get s.1 = some (mappedIndex disk s) := by
  rw [loadArchives_eq hpairs, List.filter_append, List.foldl_append]
  simp [hnamed]

/-! ### Completeness -/

/-- In whatever order the archives are loaded, a number is read exactly when one of them holds
it, and then its block is what is read. -/
def LookupComplete (codec : Codec) (disk : Disk) (blocks : ℕ → Block) (ranges : List Range) :
    Prop :=
  ∀ order, order.Perm ranges → ∀ n v, coldReadBlock codec disk (loadArchives disk order) n =
    some (some v) ↔ (∃ r ∈ ranges, r.Holds n) ∧ v = codec.encode (blocks n)

/-- Among the archives that start at or below `n`, this one starts last. -/
def StartsLast (ranges : List Range) (n : ℕ) (s : Range) : Prop :=
  s.1 ≤ n ∧ ∀ t ∈ ranges, t.1 ≤ n → t.1 ≤ s.1

/-- The file names can be parsed, every block fits, and where a number is held at all, every
archive that can be looked at holds it. -/
structure Findable (codec : Codec) (blocks : ℕ → Block) (ranges : List Range) : Prop where
  named : ∀ r ∈ ranges, r.Named
  fits : ∀ r ∈ ranges, ∀ n, r.Holds n → codec.Fits (blocks n)
  unhidden : ∀ r ∈ ranges, ∀ n, r.Holds n → ∀ s ∈ ranges, StartsLast ranges n s → n ≤ s.2

/-- The chunk that is looked at starts last, when all names can be parsed. -/
lemma seekLE_startsLast (hpairs : ∀ r ∈ ranges, ArchivePair codec disk blocks r)
    (hnamed : ∀ r ∈ ranges, r.Named) (hperm : order.Perm ranges) {e : ℕ × MappedIndex}
    (hseek : (loadArchives disk order).seekLE n = some e) :
    ∃ s ∈ ranges, StartsLast ranges n s ∧ e = (s.1, mappedIndex disk s) := by
  have hpairs' : ∀ r ∈ order, ArchivePair codec disk blocks r := fun r hr =>
    hpairs r (hperm.mem_iff.mp hr)
  obtain ⟨hget, hle, hmax⟩ := SortedMap.seekLE_eq_some.mp hseek
  obtain ⟨s, hs, hk, -, hm⟩ := loadArchives_get hpairs' hget
  refine ⟨s, hperm.mem_iff.mp hs, ⟨hk.trans_le hle, fun t ht htn => ?_⟩, Prod.ext hk.symm hm⟩
  have hsome := loadArchives_ne_none hpairs' (hperm.mem_iff.mpr ht) (hnamed t ht)
  obtain ⟨m, hm⟩ := Option.ne_none_iff_exists'.mp hsome
  exact (hmax t.1 m hm htn).trans hk.ge

/-- What is read from an archive that holds the number, as long as the blocks before it fit. -/
lemma ArchivePair.reads (h : ArchivePair codec disk blocks s) (hn : s.Holds n)
    (hfit : ∀ m, s.Holds m → m < n → codec.Fits (blocks m)) :
    ∃ r, (mappedIndex disk s).getRecord n = some r ∧
      readRecord codec (disk.get (mappedIndex disk s).dataPath) r =
        codec.decompress ((codec.compress (codec.encode (blocks n))).take
          ((codec.compress (codec.encode (blocks n))).length % 2 ^ 32)) := by
  obtain ⟨files, hwrote, hdata, hindex⟩ := h.files
  have hmmap : (mappedIndex disk s).mmap = files.2 := by simp [mappedIndex, hindex]
  have hpath : disk.get (mappedIndex disk s).dataPath = some files.1 := hdata
  rw [hpath]
  have hwrote' : writeRecords codec 0 (chunkOf blocks s) =
      some (files.1, (mappedIndex disk s).mmap) := by rw [hwrote, hmmap]
  refine getRecord_reads hwrote' hn (chunkOf_getElem? blocks hn) fun j hj b hb => ?_
  have hj' : j < n - s.1 := hj
  have hhold : s.Holds (s.1 + j) := ⟨by omega, by have := hn.2; omega⟩
  have hb' := chunkOf_getElem? blocks hhold
  rw [Nat.add_sub_cancel_left, hb] at hb'
  rw [Option.some.inj hb']
  exact hfit _ hhold (by omega)

/-- A number that is read lies in the range of the chunk that is looked at. -/
lemma seekLE_of_read {indices : Indices} {v : Bytes}
    (h : coldReadBlock codec disk indices n = some (some v)) :
    ∃ e r, indices.seekLE n = some e ∧ e.2.getRecord n = some r ∧
      readRecord codec (disk.get e.2.dataPath) r = some v := by
  unfold coldReadBlock at h
  split at h
  · cases h
  · next k m hseek =>
    split at h
    · cases h
    · next r hr =>
      obtain ⟨bytes, hread, hv⟩ := Option.map_eq_some_iff.mp h
      cases hv
      exact ⟨(k, m), r, hseek, hr, hread⟩

lemma Findable.complete (hpairs : ∀ r ∈ ranges, ArchivePair codec disk blocks r)
    (h : Findable codec blocks ranges) : LookupComplete codec disk blocks ranges := by
  intro order hperm n v
  rcases hseek : (loadArchives disk order).seekLE n with _ | e
  · -- every archive starts above the number
    have hno : ¬ ∃ r ∈ ranges, r.Holds n := by
      rintro ⟨r, hr, hn⟩
      refine loadArchives_ne_none (fun r hr => hpairs r (hperm.mem_iff.mp hr))
        (hperm.mem_iff.mpr hr) (h.named r hr) ?_
      exact SortedMap.seekLE_eq_none.mp hseek r.1 hn.1
    simp [coldReadBlock, hseek, hno]
  obtain ⟨s, hs, hlast, rfl⟩ := seekLE_startsLast hpairs h.named hperm hseek
  by_cases hn : n ≤ s.2
  · have hhold : s.Holds n := ⟨hlast.1, hn⟩
    obtain ⟨r, hr, hread⟩ := (hpairs s hs).reads hhold fun m hm _ => h.fits s hs m hm
    rw [(h.fits s hs n hhold).decompress] at hread
    have hsome : ∃ r ∈ ranges, r.Holds n := ⟨s, hs, hhold⟩
    simp [coldReadBlock, hseek, hr, hread, hsome, eq_comm]
  · -- what is looked at ends before the number, and so does everything else
    have hno : ¬ ∃ r ∈ ranges, r.Holds n := by
      rintro ⟨r, hr, hhold⟩
      exact hn (h.unhidden r hr n hhold s hs hlast)
    have hnone : (mappedIndex disk s).getRecord n = none := by
      rw [Option.eq_none_iff_forall_ne_some]
      exact fun r hr => hn (getRecord_eq_some.mp hr).1.2
    simp [coldReadBlock, hseek, hnone, hno]

section Complete

variable (hpairs : ∀ r ∈ ranges, ArchivePair codec disk blocks r)
  (h : LookupComplete codec disk blocks ranges)

include hpairs h

lemma LookupComplete.named (hr : r ∈ ranges) : r.Named := by
  have hlast : r.Holds r.2 := ⟨(hpairs r hr).le, le_rfl⟩
  obtain ⟨e, record, hseek, hrecord, -⟩ :=
    seekLE_of_read ((h ranges (.refl _) r.2 _).mpr ⟨⟨r, hr, hlast⟩, rfl⟩)
  obtain ⟨s, -, -, hnamed, hm⟩ := loadArchives_get hpairs (SortedMap.seekLE_eq_some.mp hseek).1
  rw [hm] at hrecord
  exact (getRecord_eq_some.mp hrecord).1.2.trans_lt hnamed

/-- The archive that starts last may be the one that is loaded last. -/
lemma LookupComplete.unhidden (hr : r ∈ ranges) (hn : r.Holds n) (hs : s ∈ ranges)
    (hlast : StartsLast ranges n s) : n ≤ s.2 := by
  have hperm : (ranges.erase s ++ [s]).Perm ranges :=
    List.perm_append_singleton _ _ |>.trans (List.perm_cons_erase hs).symm
  have hpairs' : ∀ r ∈ ranges.erase s ++ [s], ArchivePair codec disk blocks r := fun r hr =>
    hpairs r (hperm.mem_iff.mp hr)
  obtain ⟨e, record, hseek, hrecord, -⟩ :=
    seekLE_of_read ((h _ hperm n _).mpr ⟨⟨r, hr, hn⟩, rfl⟩)
  have hget := loadArchives_last hpairs' (h.named hpairs hs)
  have heq : (loadArchives disk (ranges.erase s ++ [s])).seekLE n =
      some (s.1, mappedIndex disk s) := by
    refine SortedMap.seekLE_eq_some.mpr ⟨hget, hlast.1, fun j m hj hjn => ?_⟩
    obtain ⟨t, ht, rfl, -⟩ := loadArchives_get hpairs' hj
    exact hlast.2 t (hperm.mem_iff.mp ht) hjn
  obtain rfl : (s.1, mappedIndex disk s) = e := Option.some.inj (heq.symm.trans hseek)
  exact (getRecord_eq_some.mp hrecord).1.2

/-- The first block that does not fit would be read cut short. -/
lemma LookupComplete.fits (hcut : codec.RejectsCut) (hr : r ∈ ranges) (hn : r.Holds n) :
    codec.Fits (blocks n) := by
  by_contra hlong
  obtain ⟨e, -, hseek, -⟩ :=
    seekLE_of_read ((h ranges (.refl _) n _).mpr ⟨⟨r, hr, hn⟩, rfl⟩)
  obtain ⟨s, hs, hlast, rfl⟩ :=
    seekLE_startsLast hpairs (fun r hr => h.named hpairs hr) (.refl _) hseek
  obtain ⟨hget, -, hmax⟩ := SortedMap.seekLE_eq_some.mp hseek
  have hholds : s.Holds n := ⟨hlast.1, h.unhidden hpairs hr hn hs hlast⟩
  classical
  have hex : ∃ m, s.Holds m ∧ ¬ codec.Fits (blocks m) := ⟨n, hholds, hlong⟩
  obtain ⟨first, ⟨hheld, hnot⟩, hmin⟩ : ∃ k, (s.Holds k ∧ ¬ codec.Fits (blocks k)) ∧
      ∀ m < k, ¬ (s.Holds m ∧ ¬ codec.Fits (blocks m)) :=
    ⟨Nat.find hex, Nat.find_spec hex, fun m => Nat.find_min hex⟩
  have hle : first ≤ n := by
    by_contra hlt
    exact hmin n (by omega) ⟨hholds, hlong⟩
  have hseek' : (loadArchives disk ranges).seekLE first = some (s.1, mappedIndex disk s) :=
    SortedMap.seekLE_eq_some.mpr ⟨hget, hheld.1, fun j m hj hjn => hmax j m hj (hjn.trans hle)⟩
  obtain ⟨record, hrecord, hread⟩ := (hpairs s hs).reads hheld fun m hm hlt => by
    by_contra hno
    exact hmin m hlt ⟨hm, hno⟩
  have hcomplete := (h ranges (.refl _) first _).mpr ⟨⟨s, hs, hheld⟩, rfl⟩
  simp only [coldReadBlock, hseek', hrecord, hread, Option.map_eq_some_iff, Option.some.injEq,
    exists_eq_right] at hcomplete
  refine hcut.decompress hnot ?_ hcomplete
  rw [(hpairs s hs).numbers first hheld]
  exact Option.some_ne_none _

end Complete

/-- **Every number of the archives is found, whatever the order they are loaded in, exactly when
no archive hides another one's numbers**, the names can be parsed and the blocks fit. -/
theorem lookup_complete_iff {codec : Codec} (hcut : codec.RejectsCut) {disk : Disk}
    {blocks : ℕ → Block} {ranges : List Range}
    (hpairs : ∀ r ∈ ranges, ArchivePair codec disk blocks r) :
    LookupComplete codec disk blocks ranges ↔ Findable codec blocks ranges := by
  constructor
  · intro h
    refine ⟨fun r hr => h.named hpairs hr, fun r hr n hn => h.fits hpairs hcut hr hn, ?_⟩
    exact fun r hr n hn s hs hlast => h.unhidden hpairs hr hn hs hlast
  · exact fun h => h.complete hpairs

/-! ### Two directories -/

/-- Blocks with nothing but their header, and the archives of some of them. -/
def plainBlock (n : ℕ) : Block := headerBlock (UInt64.ofNat n) []

def plainArchives (ranges : List Range) : Disk :=
  ranges.foldl (fun disk r =>
    ((writeRecords plainCodec 0 (chunkOf plainBlock r)).elim disk fun files =>
      (disk.put (dataFilename r.1 r.2) files.1).put (indexFilename r.1 r.2) files.2)) .empty

lemma plainBlock_number {n : ℕ} (h : n < 2 ^ 64) : getBlockNumber (plainBlock n) = some n := by
  simpa [plainBlock, headerBlock, getBlockNumber] using h

/-- Two archives that overlap, neither hiding the other. -/
theorem lookup_complete_overlapping :
    LookupComplete plainCodec (plainArchives [(0, 1), (1, 2)]) plainBlock [(0, 1), (1, 2)] := by
  refine (lookup_complete_iff plainCodec_rejectsCut fun r hr => ?_).mpr ⟨?_, ?_, ?_⟩
  · fin_cases hr
    · exact ⟨by decide, fun n hn => plainBlock_number (by have := hn.2; omega), by decide +kernel⟩
    · exact ⟨by decide, fun n hn => plainBlock_number (by have := hn.2; omega), by decide +kernel⟩
  · decide
  · intro r hr n hn
    have hle : n ≤ 2 := by
      obtain ⟨-, hn⟩ := hn
      fin_cases hr <;> exact hn.trans (by decide)
    interval_cases n <;> decide +kernel
  · rintro r hr n ⟨-, hn⟩ s hs ⟨hsn, hlast⟩
    have hle : n ≤ 2 := by fin_cases hr <;> exact hn.trans (by decide)
    have hone := hlast (1, 2) (by decide)
    fin_cases hs
    · simp only at hone ⊢
      omega
    · exact hle

/-- The archive of blocks 1 and 2 hides block 3 of the archive of blocks 0 to 3. -/
theorem lookup_incomplete : ¬ ∀ (codec : Codec) (disk : Disk) (blocks : ℕ → Block)
    (ranges : List Range), codec.RejectsCut →
    (∀ r ∈ ranges, ArchivePair codec disk blocks r) → LookupComplete codec disk blocks ranges := by
  intro h
  have hpairs : ∀ r ∈ [((0, 3) : Range), (1, 2)],
      ArchivePair plainCodec (plainArchives [(0, 3), (1, 2)]) plainBlock r := by
    intro r hr
    fin_cases hr
    · exact ⟨by decide, fun n hn => plainBlock_number (by have := hn.2; omega), by decide +kernel⟩
    · exact ⟨by decide, fun n hn => plainBlock_number (by have := hn.2; omega), by decide +kernel⟩
  have hthree := (h plainCodec _ plainBlock _ plainCodec_rejectsCut hpairs _ (.refl _) 3 _).mpr
    ⟨⟨(0, 3), by decide, by decide⟩, rfl⟩
  have hnone : coldReadBlock plainCodec (plainArchives [(0, 3), (1, 2)])
      (loadArchives (plainArchives [(0, 3), (1, 2)]) [(0, 3), (1, 2)]) 3 = some none := by
    decide +kernel
  rw [hnone] at hthree
  cases hthree

end RockNode
