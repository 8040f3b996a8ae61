import RockNode.LastWriter
import RockNode.QueueState
import RockNode.StateReplay

/-!
Maps in the state: what `MapUpdate` and `MapDelete` leave in `CF_STATE_DATA`.

An entry lies under the four bytes of its state id followed by the encoding of its key. Since the
first part has a fixed width and encodings can be decoded, different entries have different
keys. The operations of a block reach the database in one batch, in their order.
-/

namespace RockNode

/-- A generated message type: prost's `encode_to_vec` and `decode`, of which the second undoes the
first. -/
structure Message (α : Type) where
  encode : α → Bytes
  decode : Bytes → Except String α
  decode_encode : ∀ a, decode (encode a) = .ok a

attribute [simp] Message.decode_encode

lemma Message.encode_injective {α : Type} (message : Message α) :
    Function.Injective message.encode := by
  intro a b h
  have hdecode := congrArg message.decode h
  simpa using hdecode

/-- `get_state_value` of the state manager; the database itself does not fail here. -/
def StateDb.getStateValue (db : StateDb) (key : Bytes) : Except String (Option Bytes) :=
  .ok (db.stateData.get key)

/-- An operation on a map: the state id and the key, and the new value or none. -/
abbrev MapWrite (K V : Type) := (UInt32 × K) × Option V

section

variable {K V : Type} (keys : Message K) (values : Message V)

/-- The change that asks for it, with every field that it needs. -/
def mapChange (w : MapWrite K V) : StateChange where
  stateId := w.1.1
  changeOperation := some (match w.2 with
    | some v => .mapUpdate (some (keys.encode w.1.2)) (some (values.encode v))
    | none => .mapDelete (some (keys.encode w.1.2)))

/-- The operation that a change asks for. -/
def StateChange.mapWrite? (change : StateChange) : Option (MapWrite K V) :=
  match change.changeOperation with
  | some (.mapUpdate (some key) (some value)) =>
    match keys.decode key, values.decode value with
    | .ok k, .ok v => some ((change.stateId, k), some v)
    | _, _ => none
  | some (.mapDelete (some key)) =>
    match keys.decode key with
    | .ok k => some ((change.stateId, k), none)
    | .error _ => none
  | _ => none

def BlockItem.mapWrites (item : BlockItem) : List (MapWrite K V) :=
  item.changes.filterMap (StateChange.mapWrite? keys values)

/-- The operations on maps in a block, in their order. -/
def Block.mapWrites (block : Block) : List (MapWrite K V) :=
  block.items.flatMap (BlockItem.mapWrites keys values)

/-- The state changes of the block are operations on maps, with every field they need. -/
structure Block.MapOnly (block : Block) : Prop where
  stamped : ∀ item ∈ block.items, ∀ set, item.item = some (.stateChanges set) →
    set.consensusTimestamp ≠ none
  changes : ∀ item ∈ block.items, ∀ change ∈ item.changes, ∃ w, change = mapChange keys values w

/-- Where the entry lies. -/
def dbKey (entry : UInt32 × K) : Bytes := stateKey entry.1 ++ keys.encode entry.2

/-- What the operation does to the column family. -/
def dbWrite (w : MapWrite K V) : Bytes × Option Bytes := (dbKey keys w.1, w.2.map values.encode)

end

/-! ### Keys -/

section

variable {K V : Type} {keys : Message K} {values : Message V}

/-- The state id has a fixed width, and the rest can be decoded. -/
lemma dbKey_injective : Function.Injective (dbKey keys) := by
  rintro ⟨s, k⟩ ⟨s', k'⟩ h
  have hid : stateKey s = stateKey s' := by
    rw [← take_stateKey s (keys.encode k), ← take_stateKey s' (keys.encode k')]
    exact congrArg (List.take 4) h
  obtain rfl := stateKey_inj hid
  have hkey : k = k' := keys.encode_injective (List.append_cancel_left h)
  rw [hkey]

@[simp] lemma mapWrite?_mapChange (w : MapWrite K V) :
    (mapChange keys values w).mapWrite? keys values = some w := by
  obtain ⟨⟨s, k⟩, _ | v⟩ := w
  · simp [mapChange, StateChange.mapWrite?]
  · simp [mapChange, StateChange.mapWrite?]

/-! ### The batch of a block -/

/-- The operation in the batch. -/
def StateOp.write : StateOp → Bytes × Option Bytes
  | put key value => (key, some value)
  | delete key => (key, none)

lemma StateOp.apply_eq_write (data : SortedMap Bytes Bytes) (op : StateOp) :
    op.apply data = data.write op.write := by
  cases op <;> rfl

/-- A change adds its operation to the batch. -/
lemma applySingleStateChange_map (data : SortedMap Bytes Bytes) (timestamp : Bytes)
    (batch : List StateOp) (w : MapWrite K V) :
    ∃ op, applySingleStateChange data timestamp batch (mapChange keys values w) =
      .ok (batch ++ [op]) ∧ op.write = dbWrite keys values w := by
  obtain ⟨⟨s, k⟩, _ | v⟩ := w
  · exact ⟨.delete (dbKey keys (s, k)), rfl, rfl⟩
  · exact ⟨.put (dbKey keys (s, k)) (values.encode v), rfl, rfl⟩

/-- A fold over a batch that grows with each element. -/
lemma foldlM_batch {α γ δ ε : Type} {f : List γ → α → Except ε (List γ)} {g : γ → δ}
    {writes : α → List δ} {l : List α}
    (h : ∀ a ∈ l, ∀ batch, ∃ ops, f batch a = .ok (batch ++ ops) ∧ ops.map g = writes a)
    (batch : List γ) :
    ∃ ops, l.foldlM f batch = .ok (batch ++ ops) ∧ ops.map g = l.flatMap writes := by
  induction l generalizing batch with
  | nil => exact ⟨[], by simp; rfl, rfl⟩
  | cons a l ih =>
    obtain ⟨ops, hfirst, hops⟩ := h a List.mem_cons_self batch
    obtain ⟨ops', hrest, hops'⟩ := ih (fun a ha => h a (List.mem_cons_of_mem _ ha)) (batch ++ ops)
    refine ⟨ops ++ ops', ?_, by rw [List.map_append, hops, hops', List.flatMap_cons]⟩
    rw [List.foldlM_cons, hfirst, ← List.append_assoc]
    exact hrest

/-- The item loop is the loop over its changes. -/
lemma applyItem_eq (data : SortedMap Bytes Bytes) {item : BlockItem}
    (hstamped : ∀ set, item.item = some (.stateChanges set) → set.consensusTimestamp ≠ none) :
    ∃ timestamp, ∀ batch, applyItem data batch item =
      item.changes.foldlM (applySingleStateChange data timestamp) batch := by
  obtain ⟨_ | _ | _ | ⟨_ | timestamp, changes⟩ | _⟩ := item
  case some.stateChanges.none => exact absurd rfl (hstamped _ rfl)
  case some.stateChanges.some => exact ⟨timestamp, fun _ => rfl⟩
  all_goals exact ⟨[], fun _ => rfl⟩

lemma applyItem_map (data : SortedMap Bytes Bytes) {block : Block}
    (h : block.MapOnly keys values) {item : BlockItem} (hitem : item ∈ block.items)
    (batch : List StateOp) :
    ∃ ops, applyItem data batch item = .ok (batch ++ ops) ∧
      ops.map StateOp.write = (item.mapWrites keys values).map (dbWrite keys values) := by
  obtain ⟨timestamp, hloop⟩ := applyItem_eq data (h.stamped item hitem)
  have hbatch : ∃ ops, item.changes.foldlM (applySingleStateChange data timestamp) batch =
      .ok (batch ++ ops) ∧ ops.map StateOp.write = item.changes.flatMap fun change =>
        ((change.mapWrite? keys values).map (dbWrite keys values)).toList := by
    refine foldlM_batch (fun change hchange batch => ?_) batch
    obtain ⟨w, rfl⟩ := h.changes item hitem change hchange
    obtain ⟨op, hok, hop⟩ := applySingleStateChange_map data timestamp batch w
    exact ⟨[op], hok, by simp [hop]⟩
  obtain ⟨ops, hok, hops⟩ := hbatch
  refine ⟨ops, by rw [hloop, hok], ?_⟩
  rw [hops, BlockItem.mapWrites, List.map_filterMap, List.filterMap_eq_flatMap_toList]

/-- **One block** is its writes, in their order. -/
lemma applyStateChanges_map {codec : Codec} {block : Block} (h : block.MapOnly keys values)
    (db : StateDb) (n : ℕ) :
    applyStateChanges codec db n (codec.encode block) =
      .ok ⟨((block.mapWrites keys values).map (dbWrite keys values)).foldl SortedMap.write
        db.stateData, some (toBE 8 n)⟩ := by
  have hbatch : ∃ ops, block.items.foldlM (applyItem db.stateData) [] = .ok ([] ++ ops) ∧
      ops.map StateOp.write = block.items.flatMap fun item =>
        (item.mapWrites keys values).map (dbWrite keys values) :=
    foldlM_batch (fun item hitem batch => applyItem_map db.stateData h hitem batch) []
  obtain ⟨ops, hok, hops⟩ := hbatch
  have hwrites : ops.foldl StateOp.apply db.stateData =
      ((block.mapWrites keys values).map (dbWrite keys values)).foldl SortedMap.write
        db.stateData := by
    rw [Block.mapWrites, List.map_flatMap, ← hops, List.foldl_map]
    exact List.foldl_ext _ _ _ fun data op _ => StateOp.apply_eq_write data op
  unfold applyStateChanges
  rw [codec.decode_encode]
  simp only [hok, List.nil_append, ← hwrites]
  rfl

/-! ### Block after block -/

lemma foldlM_applyStateChanges_map (codec : Codec) {blocks : List (ℕ × Block)}
    (h : ∀ block ∈ blocks, block.2.MapOnly keys values) (db : StateDb) :
    ∃ db', (blocks.map fun block => (block.1, codec.encode block.2)).foldlM
        (fun db block => applyStateChanges codec db block.1 block.2) db = .ok db' ∧
      db'.stateData = ((blocks.flatMap fun block => block.2.mapWrites keys values).map
        (dbWrite keys values)).foldl SortedMap.write db.stateData := by
  induction blocks generalizing db with
  | nil => exact ⟨db, rfl, rfl⟩
  | cons block blocks ih =>
    obtain ⟨db', hrest, hdata⟩ := ih (fun b hb => h b (List.mem_cons_of_mem _ hb)) _
    refine ⟨db', ?_, ?_⟩
    · rw [List.map_cons, List.foldlM_cons, applyStateChanges_map (h block List.mem_cons_self)]
      exact hrest
    · rw [hdata, List.flatMap_cons, List.map_append, List.foldl_append]

variable [DecidableEq K]

/-- What an entry holds after some writes. -/
lemma get_dbKey (writes : List (MapWrite K V)) (data : SortedMap Bytes Bytes)
    (entry : UInt32 × K) :
    ((writes.map (dbWrite keys values)).foldl SortedMap.write data).get (dbKey keys entry) =
      ((lastWrite writes entry).map (Option.map values.encode)).getD
        (data.get (dbKey keys entry)) :=
  SortedMap.get_foldl_write_map dbKey_injective values.encode writes data entry

/-- **The state of maps**: after blocks with operations on maps only, an entry has the value of the
last operation on it. -/
theorem replay_map (codec : Codec) {blocks : List (ℕ × Block)}
    (h : ∀ block ∈ blocks, block.2.MapOnly keys values) :
    ∃ db, replay codec (blocks.map fun block => (block.1, codec.encode block.2)) = .ok db ∧
      ∀ entry, db.stateData.get (dbKey keys entry) =
        (lastWrite (blocks.flatMap fun block => block.2.mapWrites keys values) entry).join.map
          values.encode := by
  obtain ⟨db, hreplay, hdata⟩ := foldlM_applyStateChanges_map codec h .empty
  refine ⟨db, hreplay, fun entry => ?_⟩
  rw [hdata, get_dbKey]
  rcases lastWrite _ entry with _ | _ | v <;> rfl

/-- Operations on other entries leave an entry as it is. -/
theorem applyStateChanges_frame {codec : Codec} {block : Block} (h : block.MapOnly keys values)
    {entry : UInt32 × K} (hother : ∀ w ∈ block.mapWrites keys values, w.1 ≠ entry)
    {db db' : StateDb} {n : ℕ}
    (hok : applyStateChanges codec db n (codec.encode block) = .ok db') :
    db'.stateData.get (dbKey keys entry) = db.stateData.get (dbKey keys entry) := by
  rw [applyStateChanges_map h] at hok
  cases hok
  rw [get_dbKey, lastWrite_of_forall_ne hother]
  rfl

end

end RockNode
