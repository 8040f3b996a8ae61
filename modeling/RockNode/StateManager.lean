import RockNode.Database

/-!
The metadata, gap and skipped-batch operations of the persistence plugin's `StateManager`.

What an operation reads is a program over the database; what it writes are the operations it
adds to the caller's batch. Each `get`, each `next` of a fresh reverse iterator and each
forward iteration (an iterator sees the database as it was when it was opened) is one read.
-/

namespace RockNode

/-- `a + b` on `u64` inside a program. -/
def addU64 (a b : ℕ) : Prog Db ℕ :=
  match checkedAdd a b with
  | some c => .ret c
  | none => .fault

def getLatestPersisted : Prog Db (Option ℕ) := .get fun db => db.metadata .latestPersisted

def getEarliestHot : Prog Db (Option ℕ) := .get fun db => db.metadata .earliestHot

def getHighestContiguous : Prog Db ℕ := .get fun db => (db.metadata .highestContiguous).getD 0

def getTrueEarliestPersisted : Prog Db (Option ℕ) :=
  .get fun db => db.metadata .trueEarliestPersisted

def setLatestPersisted (n : ℕ) : WriteBatch := [.putMeta .latestPersisted n]
def setEarliestHot (n : ℕ) : WriteBatch := [.putMeta .earliestHot n]
def setHighestContiguous (n : ℕ) : WriteBatch := [.putMeta .highestContiguous n]
def setTrueEarliestPersisted (n : ℕ) : WriteBatch := [.putMeta .trueEarliestPersisted n]

def initializeEarliestHot (n : ℕ) : Prog Db WriteBatch := do
  let earliest ← getEarliestHot
  pure (if earliest.isNone then setEarliestHot n else [])

/-- Written directly, and only when the key is not set. -/
def initializeHighestContiguous (value : ℕ) (db : Db) : Db :=
  if (db.metadata .highestContiguous).isNone then
    commitBatch (setHighestContiguous value) db
  else db

/-! ### The gap table -/

/-- The range that the last gap starting at or below `n` gives, if `n` is inside it. -/
def containing (n : ℕ) (entry : Option (ℕ × ℕ)) : Option (ℕ × ℕ) :=
  match entry with
  | some (start, stop) => if n ≥ start ∧ n ≤ stop then some (start, stop) else none
  | none => none

def findContainingGap (n : ℕ) : Prog Db (Option (ℕ × ℕ)) := do
  let entry ← .get fun db => db.gaps.seekLE n
  pure (containing n entry)

/-- The bounds after merging with the gap to the left, which may overlap or touch the range. -/
def mergeLeft (start stop : ℕ) (left : Option (ℕ × ℕ)) : ℕ × ℕ :=
  match left with
  | some (kStart, vEnd) =>
    if satAdd vEnd 1 ≥ start then
      (if kStart < start then kStart else start, if vEnd > stop then vEnd else stop)
    else (start, stop)
  | none => (start, stop)

/-- The forward sweep: every gap that overlaps or touches the range is deleted and its end
taken over; the sweep stops at the first one that starts beyond it. -/
def sweepForward (finalEnd : ℕ) : List (ℕ × ℕ) → ℕ × WriteBatch
  | [] => (finalEnd, [])
  | (kStart, vEnd) :: rest =>
    if kStart > satAdd finalEnd 1 then (finalEnd, [])
    else
      let r := sweepForward (if vEnd > finalEnd then vEnd else finalEnd) rest
      (r.1, .deleteGap kStart :: r.2)

def addGapRange (start stop : ℕ) : Prog Db WriteBatch :=
  if stop < start then pure []
  else do
    let left ← .get fun db => db.gaps.seekLE start
    let bounds := mergeLeft start stop left
    let right ← .get fun db => db.gaps.iterFrom bounds.1
    let swept := sweepForward bounds.2 right
    pure (swept.2 ++ [.putGap bounds.1 swept.1])

/-- What filling `n` does to the gap that contains it. -/
def splitGap (n : ℕ) (gap : Option (ℕ × ℕ)) : WriteBatch :=
  match gap with
  | some (start, stop) =>
    .deleteGap start :: ((if n > start then [.putGap start (n - 1)] else []) ++
      (if n < stop then [.putGap (n + 1) stop] else []))
  | none => []

def fillGapBlock (n : ℕ) : Prog Db WriteBatch := do
  let gap ← findContainingGap n
  pure (splitGap n gap)

/-! ### Skipped batches -/

def addSkippedBatch (batchStart : ℕ) : WriteBatch := [.putSkipped batchStart]
def removeSkippedBatch (batchStart : ℕ) : WriteBatch := [.deleteSkipped batchStart]
def isBatchSkipped (batchStart : ℕ) (db : Db) : Bool := (db.skippedBatches.get batchStart).isSome

end RockNode
