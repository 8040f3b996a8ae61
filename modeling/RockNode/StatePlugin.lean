import RockNode.Service
import RockNode.BlockCache

/-!
The state management plugin: the state changes of the blocks, applied to `CF_STATE_DATA`, and
the event loop that follows the persisted blocks.

One block is one batch, which also holds the number of the block as the new value of
`state_last_processed_block`. The loop is a machine that stands still wherever the task reads
storage or the cache, so that a crash can come between any two batches.
-/

namespace RockNode

/-- The column family of the state and the metadata key of the plugin. -/
structure StateDb where
  stateData : SortedMap Bytes Bytes
  lastProcessed : Option Bytes

def StateDb.empty : StateDb := ⟨.empty, none⟩

/-- `get_last_processed_block`: a value that is not eight bytes long counts as absent. -/
def getLastProcessedBlock (db : StateDb) : Option ℕ :=
  match db.lastProcessed with
  | some bytes => if bytes.length = 8 then some (ofBE bytes) else none
  | none => none

/-! ### The changes of one block -/

inductive StateOp where
  | put (key value : Bytes)
  | delete (key : Bytes)

def StateOp.apply (data : SortedMap Bytes Bytes) : StateOp → SortedMap Bytes Bytes
  | put key value => data.put key value
  | delete key => data.erase key

/-- `construct_db_key`. -/
def constructDbKey (stateId : UInt32) : Option Bytes → Except String Bytes
  | none => .error "MapChangeKey is missing"
  | some key => .ok (toBE 4 stateId.toNat ++ key)

/-- `apply_single_state_change`: the batch grows by at most one operation. What a pop removes
is read off the database, which the batch has not reached yet. -/
def applySingleStateChange (data : SortedMap Bytes Bytes) (timestamp : Bytes)
    (batch : List StateOp) (change : StateChange) : Except String (List StateOp) :=
  let stateId := toBE 4 change.stateId.toNat
  match change.changeOperation with
  | none => .ok batch
  | some (.mapUpdate key value) => do
    let key ← constructDbKey change.stateId key
    match value with
    | none => .error "MapUpdateChange is missing value"
    | some value => .ok (batch ++ [.put key value])
  | some (.mapDelete key) => do
    let key ← constructDbKey change.stateId key
    .ok (batch ++ [.delete key])
  | some (.singletonUpdate none) => .error "SingletonUpdate missing value"
  | some (.singletonUpdate (some .unhandled)) => .ok batch
  | some (.singletonUpdate (some (.handled value))) => .ok (batch ++ [.put stateId value])
  | some (.queuePush none) => .error "QueuePushChange missing value"
  | some (.queuePush (some .unhandled)) => .ok batch
  | some (.queuePush (some (.handled value))) => .ok (batch ++ [.put (stateId ++ timestamp) value])
  | some .queuePop =>
    -- the iterator has a lower bound only
    match (data.iterFrom stateId).head? with
    | some (key, _) => .ok (batch ++ [.delete key])
    | none => .ok batch
  | some .other => .ok batch

/-- The item loop of `apply_state_changes`. -/
def applyItem (data : SortedMap Bytes Bytes) (batch : List StateOp) (item : BlockItem) :
    Except String (List StateOp) :=
  match item.item with
  | some (.stateChanges set) =>
    match set.consensusTimestamp with
    | none => .error "StateChanges missing timestamp"
    | some timestamp => set.stateChanges.foldlM (applySingleStateChange data timestamp) batch
  | _ => .ok batch

/-- `apply_state_changes`. -/
def applyStateChanges (codec : Codec) (db : StateDb) (n : ℕ) (contents : Bytes) :
    Except String StateDb :=
  match codec.decode contents with
  | none => .error "Failed to deserialize Block protobuf"
  | some block => do
    let batch ← block.items.foldlM (applyItem db.stateData) []
    .ok ⟨batch.foldl StateOp.apply db.stateData, some (toBE 8 n)⟩

/-! ### The event loop -/

/-- Where the task of the plugin stands. -/
inductive StateLoop where
  | stopped
  | waiting (last : Option ℕ)
  | catchingUp (event : BlockPersisted) (b : ℕ)
  | applying (event : BlockPersisted)
  deriving DecidableEq

/-- The plugin; `applied` remembers the blocks whose batch was written, in this order. -/
structure StatePlugin where
  db : StateDb
  loop : StateLoop
  applied : List (ℕ × Bytes)

def StatePlugin.init : StatePlugin := ⟨.empty, .stopped, []⟩

/-- What the plugin can see outside: `read_block`, which may fail, and the cache. -/
structure StateEnv where
  readBlock : ℕ → Except String (Option Bytes)
  cached : ℕ → Option BlockData

namespace StatePlugin

/-- The batch of one block is written. -/
def apply (codec : Codec) (plugin : StatePlugin) (n : ℕ) (contents : Bytes) :
    Except String StatePlugin := do
  let db ← applyStateChanges codec plugin.db n contents
  .ok { plugin with db := db, applied := plugin.applied ++ [(n, contents)] }

/-- `apply_state_from_storage`. -/
def applyFromStorage (codec : Codec) (env : StateEnv) (plugin : StatePlugin) (b : ℕ) :
    Except String StatePlugin :=
  match env.readBlock b with
  | .error message => .error message
  | .ok none => .error s!"Block #{b} not found in persistence for catch-up."
  | .ok (some contents) => plugin.apply codec b contents

/-- `apply_state_from_block_event`, without the removal of the cache entry at its end. -/
def applyFromBlockEvent (codec : Codec) (env : StateEnv) (plugin : StatePlugin)
    (event : BlockPersisted) : Except String StatePlugin :=
  match env.cached event.cacheKey with
  | none =>
    let key := event.cacheKey
    .error s!"Block data not found in cache for key {key}"
  | some data => plugin.apply codec event.blockNumber.toNat data.contents

/-- `start_internal`: the plugin follows the blocks only on a node that starts at block 0. -/
def start (cfg : Config) (plugin : StatePlugin) : StatePlugin :=
  if cfg.startBlockNumber > 0 then { plugin with loop := .stopped }
  else { plugin with loop := .waiting (getLastProcessedBlock plugin.db) }

/-- An event arrives. The addition faults after the last `u64`, which ends the task. -/
def receive (last : Option ℕ) (event : BlockPersisted) : StateLoop :=
  match last.elim (some 0) (checkedAdd · 1) with
  | none => .stopped
  | some expected =>
    if event.blockNumber.toNat < expected then .waiting last
    else if event.blockNumber.toNat > expected then .catchingUp event expected
    else .applying event

/-- The next block of the catch-up. A failure leaves the `for` loop and nothing else, so the
task goes on with the event. -/
def catchUp (codec : Codec) (env : StateEnv) (plugin : StatePlugin) (event : BlockPersisted)
    (b : ℕ) : StatePlugin :=
  match plugin.applyFromStorage codec env b with
  | .ok plugin' =>
    { plugin' with
      loop := if b + 1 < event.blockNumber.toNat then .catchingUp event (b + 1)
        else .applying event }
  | .error _ => { plugin with loop := .applying event }

/-- The block of the event itself; a failure ends the task. -/
def applyEvent (codec : Codec) (env : StateEnv) (plugin : StatePlugin) (event : BlockPersisted) :
    StatePlugin :=
  match plugin.applyFromBlockEvent codec env event with
  | .ok plugin' => { plugin' with loop := .waiting (some event.blockNumber.toNat) }
  | .error _ => { plugin with loop := .stopped }

/-- The task goes on from where it stands. -/
def advance (codec : Codec) (env : StateEnv) (plugin : StatePlugin) : Option StatePlugin :=
  match plugin.loop with
  | .catchingUp event b => some (plugin.catchUp codec env event b)
  | .applying event => some (plugin.applyEvent codec env event)
  | _ => none

end StatePlugin

/-- A `start` ends the previous run of the node wherever it stood; `stop` is a shutdown or an
error of the event channel. -/
inductive StateAct where
  | start
  | receive (event : BlockPersisted)
  | advance (env : StateEnv)
  | stop

def StatePlugin.step (cfg : Config) (codec : Codec) (plugin : StatePlugin) :
    StateAct → Option StatePlugin
  | .start => some (plugin.start cfg)
  | .receive event =>
    match plugin.loop with
    | .waiting last => some { plugin with loop := StatePlugin.receive last event }
    | _ => none
  | .advance env => plugin.advance codec env
  | .stop =>
    match plugin.loop with
    | .waiting _ => some { plugin with loop := .stopped }
    | _ => none

end RockNode
