import RockNode.ColdStorage
import RockNode.Runs

/-!
The archiver and the node around it.

`run_archival_cycle` is a machine: at the top of its loop it decides what to do with the
oldest batch, and an archive is then made one effect at a time. Between any two steps of the
machine blocks may be written or the process may die and start again.
-/

namespace RockNode

/-! ### The hot tier's batch -/

/-- `is_batch_complete`: the `i`-th of the remaining numbers is looked up first. -/
def batchCompleteFrom (db : Db) (start : ℕ) : ℕ → ℕ → Option Bool
  | 0, _ => some true
  | remaining + 1, i => do
    let n ← checkedAdd start i
    if (db.hotBlocks.get n).isNone then some false
    else batchCompleteFrom db start remaining (i + 1)

def isBatchComplete (db : Db) (start size : ℕ) : Option Bool := batchCompleteFrom db start size 0

def readBatchFrom (codec : Codec) (db : Db) (start : ℕ) : ℕ → ℕ → Option (List Block)
  | 0, _ => some []
  | remaining + 1, i => do
    let n ← checkedAdd start i
    let found ← hotReadBlock codec db n
    let bytes ← found
    let block ← codec.decode bytes
    let blocks ← readBatchFrom codec db start remaining (i + 1)
    pure (block :: blocks)

def readBlockBatch (codec : Codec) (db : Db) (start count : ℕ) : Option (List Block) :=
  readBatchFrom codec db start count 0

/-! ### One cycle -/

/-- The batch that ends an archival: the blocks leave the hot tier. -/
def deleteBatch (start count newEarliestHot : ℕ) : WriteBatch :=
  (List.range count).map (fun i => .deleteHot (start + i))
    ++ setEarliestHot newEarliestHot ++ removeSkippedBatch start

/-- What `archive_batch` is going to do, or that it fails before the first effect. -/
def archiveBatch (codec : Codec) (db : Db) (start count : ℕ) : Option (List Effect) := do
  let blocks ← readBlockBatch codec db start count
  if blocks.isEmpty then pure []
  else do
    let archive ← writeArchive codec blocks
    pure (archive.1 ++ [.loadIndex archive.2,
      match checkedAdd start count with
      | none => .fault
      | some newEarliestHot => .commit (deleteBatch start count newEarliestHot)])

/-- What happens at the top of the loop. -/
inductive LoopAction where
  | stop
  | skip (batch : WriteBatch)
  | archive (effects : List Effect)

def loopAction (cfg : Config) (codec : Codec) (db : Db) : LoopAction :=
  match db.metadata .earliestHot with
  | none => .stop
  | some earliestHot =>
    match checkedAdd ((db.metadata .latestPersisted).getD 0 - earliestHot) 1 with
    | none => .stop
    | some total =>
      if total ≤ cfg.hotStorageBlockCount then .stop
      else
        match isBatchComplete db earliestHot cfg.archiveBatchSize with
        | none => .stop
        | some true =>
          match archiveBatch codec db earliestHot cfg.archiveBatchSize with
          | none => .stop
          | some effects => .archive effects
        | some false => .skip (addSkippedBatch earliestHot)

/-! ### The node -/

inductive Archiver where
  | idle
  | looping
  | working (effects : List Effect)

/-- The store, the cold storage directory, the indices the reader has loaded and where the
archiver stands. -/
structure Node where
  store : Store
  disk : Disk
  indices : Indices
  archiver : Archiver

def Node.init (cfg : Config) : Node := ⟨Store.init cfg, .empty, .empty, .idle⟩

/-- An index file that cannot be loaded is only warned about; a failed rename ends the cycle. -/
def Node.perform (node : Node) (effects : List Effect) : Effect → Node
  | .writeFile name contents =>
    { node with disk := node.disk.put name contents, archiver := .working effects }
  | .rename source target =>
    match node.disk.get source with
    | none => { node with archiver := .idle }
    | some contents =>
      { node with
        disk := (node.disk.erase source).put target contents
        archiver := .working effects }
  | .loadIndex name =>
    if loadFaults node.disk name then { node with archiver := .idle }
    else
      { node with
        indices := (loadIndexFile node.disk name node.indices).getD node.indices
        archiver := .working effects }
  | .commit batch =>
    { node with
      store := ⟨commitBatch batch node.store.db, node.store.log⟩
      archiver := .working effects }
  | .fault => { node with archiver := .idle }

/-- One step of the archiver. -/
def Node.archive (cfg : Config) (codec : Codec) (node : Node) : Node :=
  match node.archiver with
  | .idle => node
  | .looping =>
    match loopAction cfg codec node.store.db with
    | .stop => { node with archiver := .idle }
    | .skip batch =>
      { node with
        store := ⟨commitBatch batch node.store.db, node.store.log⟩
        archiver := .idle }
    | .archive effects => { node with archiver := .working effects }
  | .working [] => { node with archiver := .looping }
  | .working (effect :: effects) => node.perform effects effect

/-- The smaller of the earliest blocks of the two tiers, where there are any. -/
def earliestOf (cold hot : Option ℕ) : Option ℕ :=
  match cold, hot with
  | some c, some h => some (min c h)
  | some c, none => some c
  | none, some h => some h
  | none, none => none

/-- `PersistencePlugin::initialize` on what is on disk: the earliest block is determined if it
is not recorded yet, `highest_contiguous` is seeded if it is not set. -/
def initializeDb (cfg : Config) (indices : Indices) (db : Db) : Db :=
  let db :=
    if (db.metadata .trueEarliestPersisted).isNone then
      match earliestOf indices.keys.head? db.hotBlocks.keys.head? with
      | some earliest => commitBatch (setTrueEarliestPersisted earliest) db
      | none => db
    else db
  initializeHighestContiguous cfg.seed db

/-- The process dies and starts again; what it held in memory is gone. -/
def Node.restart (cfg : Config) (node : Node) (entries : List FileName) : Node :=
  let indices := scanAndBuildIndex node.disk entries
  ⟨⟨initializeDb cfg indices node.store.db, node.store.log⟩, node.disk, indices, .idle⟩

inductive Act where
  | write (block : Block)
  | trigger
  | archive
  | restart (entries : List FileName)

/-- A restart sees every directory entry once, in some order. -/
def Node.step (cfg : Config) (codec : Codec) (node : Node) : Act → Option Node
  | .write block => some { node with store := node.store.write cfg codec block }
  | .trigger =>
    match node.archiver with
    | .idle => some { node with archiver := .looping }
    | _ => some node
  | .archive => some (node.archive cfg codec)
  | .restart entries =>
    if entries.Perm node.disk.keys then some (node.restart cfg entries) else none

/-- `PersistenceService::read_block`: the hot tier first. -/
def Node.readBlock (codec : Codec) (node : Node) (n : ℕ) : Option (Option Bytes) :=
  match hotReadBlock codec node.store.db n with
  | none => none
  | some (some bytes) => some (some bytes)
  | some none => coldReadBlock codec node.disk node.indices n

end RockNode
