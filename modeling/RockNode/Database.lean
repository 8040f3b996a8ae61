import RockNode.Block
import RockNode.SortedMap
import RockNode.ReadProgram

/-!
The RocksDB column families of the persistence plugin and the batches written to them.

A key is the eight big-endian bytes of a number, so the order of the keys is the order of the
numbers. A batch is committed atomically, its operations in order.
-/

namespace RockNode

/-- The keys of `CF_METADATA` that the persistence plugin owns. -/
inductive MetaKey where
  | latestPersisted
  | earliestHot
  | highestContiguous
  | trueEarliestPersisted
  deriving DecidableEq

structure Db where
  hotBlocks : SortedMap ℕ Bytes
  metadata : MetaKey → Option ℕ
  gaps : SortedMap ℕ ℕ
  skippedBatches : SortedMap ℕ Unit

/-- A database with no entry in any column family. -/
def Db.empty : Db := ⟨.empty, fun _ => none, .empty, .empty⟩

/-- One operation of a `WriteBatch`. -/
inductive Op where
  | putHot (key : ℕ) (value : Bytes)
  | deleteHot (key : ℕ)
  | putMeta (key : MetaKey) (value : ℕ)
  | putGap (key value : ℕ)
  | deleteGap (key : ℕ)
  | putSkipped (key : ℕ)
  | deleteSkipped (key : ℕ)

abbrev WriteBatch := List Op

namespace Op

def onHot : Op → SortedMap ℕ Bytes → SortedMap ℕ Bytes
  | putHot k v, m => m.put k v
  | deleteHot k, m => m.erase k
  | _, m => m

def onMeta : Op → (MetaKey → Option ℕ) → MetaKey → Option ℕ
  | putMeta k v, m => Function.update m k (some v)
  | _, m => m

def onGaps : Op → SortedMap ℕ ℕ → SortedMap ℕ ℕ
  | putGap k v, m => m.put k v
  | deleteGap k, m => m.erase k
  | _, m => m

def onSkipped : Op → SortedMap ℕ Unit → SortedMap ℕ Unit
  | putSkipped k, m => m.put k ()
  | deleteSkipped k, m => m.erase k
  | _, m => m

def apply (db : Db) (o : Op) : Db :=
  ⟨o.onHot db.hotBlocks, o.onMeta db.metadata, o.onGaps db.gaps, o.onSkipped db.skippedBatches⟩

end Op

/-- `commit_batch`. -/
def commitBatch (batch : WriteBatch) (db : Db) : Db := batch.foldl Op.apply db

@[simp] lemma commitBatch_nil (db : Db) : commitBatch [] db = db := rfl

@[simp] lemma commitBatch_cons (o : Op) (batch : WriteBatch) (db : Db) :
    commitBatch (o :: batch) db = commitBatch batch (o.apply db) := rfl

/-! ### A batch acts on each column family by itself -/

def batchHot (batch : WriteBatch) (m : SortedMap ℕ Bytes) : SortedMap ℕ Bytes :=
  batch.foldl (fun m o => o.onHot m) m

def batchMeta (batch : WriteBatch) (m : MetaKey → Option ℕ) : MetaKey → Option ℕ :=
  batch.foldl (fun m o => o.onMeta m) m

def batchGaps (batch : WriteBatch) (m : SortedMap ℕ ℕ) : SortedMap ℕ ℕ :=
  batch.foldl (fun m o => o.onGaps m) m

def batchSkipped (batch : WriteBatch) (m : SortedMap ℕ Unit) : SortedMap ℕ Unit :=
  batch.foldl (fun m o => o.onSkipped m) m

lemma commitBatch_hotBlocks (batch : WriteBatch) (db : Db) :
    (commitBatch batch db).hotBlocks = batchHot batch db.hotBlocks := by
  induction batch generalizing db with
  | nil => rfl
  | cons o batch ih => exact ih (o.apply db)

lemma commitBatch_metadata (batch : WriteBatch) (db : Db) :
    (commitBatch batch db).metadata = batchMeta batch db.metadata := by
  induction batch generalizing db with
  | nil => rfl
  | cons o batch ih => exact ih (o.apply db)

lemma commitBatch_gaps (batch : WriteBatch) (db : Db) :
    (commitBatch batch db).gaps = batchGaps batch db.gaps := by
  induction batch generalizing db with
  | nil => rfl
  | cons o batch ih => exact ih (o.apply db)

lemma commitBatch_skippedBatches (batch : WriteBatch) (db : Db) :
    (commitBatch batch db).skippedBatches = batchSkipped batch db.skippedBatches := by
  induction batch generalizing db with
  | nil => rfl
  | cons o batch ih => exact ih (o.apply db)

lemma batchGaps_append (b b' : WriteBatch) (m : SortedMap ℕ ℕ) :
    batchGaps (b ++ b') m = batchGaps b' (batchGaps b m) := by
  simp [batchGaps, List.foldl_append]

lemma batchMeta_append (b b' : WriteBatch) (m : MetaKey → Option ℕ) :
    batchMeta (b ++ b') m = batchMeta b' (batchMeta b m) := by
  simp [batchMeta, List.foldl_append]

lemma batchHot_append (b b' : WriteBatch) (m : SortedMap ℕ Bytes) :
    batchHot (b ++ b') m = batchHot b' (batchHot b m) := by
  simp [batchHot, List.foldl_append]

end RockNode
