import RockNode.Service
import RockNode.ArchiveName

/-!
Cold storage: archive files, the writer that makes them and the reader that finds blocks in
them.

An archive is a data file with the compressed blocks one after the other and an index file
with one record of twenty bytes a block. The reader keeps a mapping of each index file it has
loaded and opens the data file anew for each block it reads.
-/

namespace RockNode

/-- The files of the cold storage directory. -/
abbrev Disk := SortedMap FileName Bytes

/-! ### Writing -/

/-- A record of the index file. -/
structure IndexRecord where
  blockNumber : ℕ
  offset : ℕ
  length : ℕ

/-- Packed, every field big-endian. -/
def IndexRecord.toBytes (r : IndexRecord) : Bytes :=
  toBE 8 r.blockNumber ++ (toBE 8 r.offset ++ toBE 4 r.length)

def IndexRecord.ofBytes (bytes : Bytes) : IndexRecord :=
  ⟨ofBE (bytes.take 8), ofBE ((bytes.drop 8).take 8), ofBE ((bytes.drop 16).take 4)⟩

/-- `size_of::<IndexRecord>()`. -/
def recordSize : ℕ := 20

/-- The loop of `write_temp_files`: the bytes of the data file and of the index file. The
length is cast to `u32`, and so is what the offset grows by. -/
def writeRecords (codec : Codec) : ℕ → List Block → Option (Bytes × Bytes)
  | _, [] => some ([], [])
  | offset, block :: blocks => do
    let n ← getBlockNumber block
    let compressed := codec.compress (codec.encode block)
    let length := compressed.length % 2 ^ 32
    let next ← checkedAdd offset length
    let files ← writeRecords codec next blocks
    pure (compressed ++ files.1, (IndexRecord.mk n offset length).toBytes ++ files.2)

/-- One thing the archiver does to the disk, the loaded indices or the database. -/
inductive Effect where
  | writeFile (name : FileName) (contents : Bytes)
  | rename (source target : FileName)
  | loadIndex (name : FileName)
  | commit (batch : WriteBatch)
  | fault

/-- `write_archive`: temporary files first, then two renames; with the index file's name. -/
def writeArchive (codec : Codec) (blocks : List Block) : Option (List Effect × FileName) := do
  let first ← blocks.head?
  let last ← blocks.getLast?
  let firstNum ← getBlockNumber first
  let lastNum ← getBlockNumber last
  let files ← writeRecords codec 0 blocks
  let dataName := dataFilename firstNum lastNum
  let indexName := indexFilename firstNum lastNum
  pure ([.writeFile (tempFilename dataName) files.1, .writeFile (tempFilename indexName) files.2,
    .rename (tempFilename dataName) dataName, .rename (tempFilename indexName) indexName],
    indexName)

/-! ### Reading -/

/-- A memory-mapped index file. The mapping keeps the file as it was when it was loaded, also
when another one is later renamed over it. -/
structure MappedIndex where
  mmap : Bytes
  startBlock : ℕ
  endBlock : ℕ
  dataPath : FileName

def MappedIndex.getRecord (m : MappedIndex) (n : ℕ) : Option IndexRecord :=
  if m.startBlock ≤ n ∧ n ≤ m.endBlock then
    let offset := (n - m.startBlock) * recordSize
    if offset + recordSize > m.mmap.length then none
    else some (IndexRecord.ofBytes ((m.mmap.drop offset).take recordSize))
  else none

/-- The loaded indices by their first block. -/
abbrev Indices := SortedMap ℕ MappedIndex

/-- `load_index_file`; there is no result when it fails. -/
def loadIndexFile (disk : Disk) (name : FileName) (indices : Indices) : Option Indices := do
  let range ← parseBlockRange name
  let dataPath := withExtension name ['r', 'b', 'a']
  let _ ← disk.get dataPath
  let mmap ← disk.get name
  if range.2 < range.1 then none
  else pure (indices.put range.1 ⟨mmap, range.1, range.2, dataPath⟩)

/-- `load_index_file` counts the blocks of the chunk, `end_block - start_block + 1`: it faults on
a file whose name runs backwards. -/
def loadFaults (disk : Disk) (name : FileName) : Bool :=
  match parseBlockRange name, disk.get (withExtension name ['r', 'b', 'a']), disk.get name with
  | some range, some _, some _ => range.2 < range.1
  | _, _, _ => false

def isIndexName (name : FileName) : Bool := extension name == some ['r', 'b', 'i']

/-- `scan_and_build_index` over the directory's entries in the order `read_dir` gives them; a
file that cannot be loaded is left out. -/
def scanAndBuildIndex (disk : Disk) (entries : List FileName) : Indices :=
  entries.foldl (fun indices name =>
    if isIndexName name then (loadIndexFile disk name indices).getD indices else indices) .empty

/-- What a record says about a data file: `length` bytes from `offset` on, decompressed. A
read past the end is an error, and so is a file that is not there. -/
def readRecord (codec : Codec) (data : Option Bytes) (r : IndexRecord) : Option Bytes := do
  let data ← data
  if r.offset + r.length ≤ data.length then
    codec.decompress ((data.drop r.offset).take r.length)
  else none

/-- `ColdReader::read_block`: the chunk with the greatest start at or below `n`. The outer
`none` is an error. -/
def coldReadBlock (codec : Codec) (disk : Disk) (indices : Indices) (n : ℕ) :
    Option (Option Bytes) :=
  match indices.seekLE n with
  | none => some none
  | some (_, m) =>
    match m.getRecord n with
    | none => some none
    | some r => (readRecord codec (disk.get m.dataPath) r).map some

/-- `HotTier::read_block`. -/
def hotReadBlock (codec : Codec) (db : Db) (n : ℕ) : Option (Option Bytes) :=
  match db.hotBlocks.get n with
  | none => some none
  | some value => (codec.deserialize value).map some

end RockNode
