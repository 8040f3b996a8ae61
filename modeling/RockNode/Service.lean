import RockNode.GapTable

/-!
`PersistenceService::write_block`.

The call reads the database step by step while it fills a batch, commits the batch in one
stroke and then looks whether the archiver should be told about a filled gap. The reading part
is a program, so that it can also be run beside a second call.
-/

namespace RockNode

/-- The settings the persistence plugin reads; all are `u64`. -/
structure Config where
  startBlockNumber : ℕ
  hotStorageBlockCount : ℕ
  archiveBatchSize : ℕ
  start_le : startBlockNumber ≤ u64Max := by decide
  hot_le : hotStorageBlockCount ≤ u64Max := by decide
  batch_le : archiveBatchSize ≤ u64Max := by decide

/-- The value `highest_contiguous` is seeded with: `start_block_number.saturating_sub(1)`. -/
def Config.seed (cfg : Config) : ℕ := cfg.startBlockNumber - 1

/-- Nodes that start at block 0 and at block 1 and archive each block as soon as they can. -/
def zeroConfig : Config :=
  { startBlockNumber := 0, hotStorageBlockCount := 0, archiveBatchSize := 1 }
def firstConfig : Config :=
  { startBlockNumber := 1, hotStorageBlockCount := 0, archiveBatchSize := 1 }

/-- `add_block_to_batch`, for a value that RocksDB takes: one of more than `u32::MAX` bytes is
refused without an error (`Store.rocksWrite`). -/
def addBlockToBatch (codec : Codec) (block : Block) (n : ℕ) : WriteBatch :=
  [.putHot n (codec.serialize (codec.encode block))]

/-- The walk over the gap table: `current` is raised as long as the next number is not in a
recorded gap. `fuel` counts the numbers left up to `newLatest`. -/
def walk (newLatest : ℕ) : ℕ → ℕ → ℕ → Prog Db ℕ
  | 0, current, _ => pure current
  | fuel + 1, current, next =>
    if next ≤ newLatest then do
      let gap ← findContainingGap next
      if gap.isSome then pure current
      else do
        let next' ← addU64 next 1
        walk newLatest fuel next next'
    else pure current

/-- The walk from `current_highest` on, with `next_to_check = current_highest + 1`. -/
def walkFrom (newLatest current : ℕ) : Prog Db ℕ := do
  let next ← addU64 current 1
  walk newLatest (newLatest + 1 - next) current next

/-- The part of the batch that keeps `highest_contiguous` and the gap table. -/
def contiguousOps (n newLatest current : ℕ) : Prog Db WriteBatch := do
  let next ← addU64 current 1
  if n > next then
    -- the block creates a new gap
    addGapRange next (n - 1)
  else if n = next then do
    -- the block extends the contiguous sequence
    let highest ← walkFrom newLatest n
    pure (setHighestContiguous highest)
  else do
    -- the block lies at or below the watermark
    let fill ← fillGapBlock n
    let highest ← walkFrom newLatest current
    pure (fill ++ setHighestContiguous highest)

/-- The reads of `write_block` for the block number `n`; they end in the batch to commit and
in whether the block was inside a recorded gap. -/
def prepareBatch (cfg : Config) (codec : Codec) (block : Block) (n : ℕ) :
    Prog Db (WriteBatch × Bool) := do
  let gap ← findContainingGap n
  let persisted ← getLatestPersisted
  let latest := persisted.getD cfg.seed
  let newLatest := max latest n
  let earliest ← getTrueEarliestPersisted
  let current ← getHighestContiguous
  let contiguous ← contiguousOps n newLatest current
  let hot ← initializeEarliestHot n
  pure (addBlockToBatch codec block n
    ++ (if newLatest > latest then setLatestPersisted newLatest else [])
    ++ (if earliest.isNone then setTrueEarliestPersisted n else [])
    ++ contiguous ++ hot, gap.isSome)

/-- How a call of `write_block` ends; an `ok` says whether the archiver was notified. -/
inductive WriteResult where
  | ok (notified : Bool)
  | err
  deriving DecidableEq

/-- After the commit: a filled gap may have completed a skipped batch. The division faults when
`archive_batch_size` is zero. -/
def notifyAfterWrite (cfg : Config) (n : ℕ) (wasGapFill : Bool) (db : Db) : WriteResult :=
  if wasGapFill then
    if cfg.archiveBatchSize = 0 then .err
    else .ok (isBatchSkipped (n / cfg.archiveBatchSize * cfg.archiveBatchSize) db)
  else .ok false

def writeBlock (cfg : Config) (codec : Codec) (block : Block) (db : Db) : Db × WriteResult :=
  match getBlockNumber block with
  | none => (db, .err)
  | some n =>
    match (prepareBatch cfg codec block n).run db with
    | none => (db, .err)
    | some (batch, wasGapFill) =>
      let db' := commitBatch batch db
      (db', notifyAfterWrite cfg n wasGapFill db')

/-- `get_highest_contiguous` on a database at rest. -/
def highestContiguous (db : Db) : ℕ := (db.metadata .highestContiguous).getD 0

/-- `latest_persisted`, or the seed as long as it is not set. -/
def latestOrSeed (cfg : Config) (db : Db) : ℕ := (db.metadata .latestPersisted).getD cfg.seed

/-! ### The store and what has been committed to it -/

/-- A database together with the blocks committed so far, the last one first. -/
structure Store where
  db : Db
  log : List (ℕ × Block)

/-- The empty store after start-up. -/
def Store.init (cfg : Config) : Store := ⟨initializeHighestContiguous cfg.seed Db.empty, []⟩

/-- At start-up the frontier is at the seed, and nothing else is on record. -/
lemma Store.init_metadata (cfg : Config) (k : MetaKey) : (Store.init cfg).db.metadata k =
    if k = .highestContiguous then some cfg.seed else none := by
  cases k <;> rfl

/-- One call of `write_block`; the log grows when its batch has been committed. -/
def Store.write (cfg : Config) (codec : Codec) (s : Store) (block : Block) : Store :=
  match getBlockNumber block with
  | none => s
  | some n =>
    match (prepareBatch cfg codec block n).run s.db with
    | none => s
    | some (batch, _) => ⟨commitBatch batch s.db, (n, block) :: s.log⟩

/-- The number has been committed by an earlier `write_block`. -/
def Store.Committed (s : Store) (n : ℕ) : Prop := ∃ block, (n, block) ∈ s.log

/-- The store after a sequence of `write_block` calls. -/
def Store.writes (cfg : Config) (codec : Codec) (s : Store) (blocks : List Block) : Store :=
  blocks.foldl (Store.write cfg codec) s

/-- The ghost log does not change what the call does to the database. -/
lemma Store.write_db (cfg : Config) (codec : Codec) (s : Store) (block : Block) :
    (s.write cfg codec block).db = (writeBlock cfg codec block s.db).1 := by
  unfold Store.write writeBlock
  rcases getBlockNumber block with _ | n
  · rfl
  · rcases h : (prepareBatch cfg codec block n).run s.db with _ | ⟨batch, gap⟩ <;> simp [h]

end RockNode
