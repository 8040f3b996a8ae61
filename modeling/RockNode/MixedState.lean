import RockNode.AccountQueries
import RockNode.QueueState

/-!
Maps, singletons and queues side by side in `CF_STATE_DATA`.

Every entry lies under the four bytes of its state id, and apart from `QueuePop` every change
names its key, so what a block does to the entries of one state id depends on the changes with
that id only. A pop deletes the first key from the start of its queue on: it stays with its own
queue as long as that holds an element, and it never gets to smaller state ids.
-/

namespace RockNode

/-! ### Keys -/

/-- Big-endian numbers of one width are ordered as strings, whatever follows. -/
lemma toBE_append_lt {w a b : ℕ} (hab : a < b) (hb : b < 256 ^ w) (rest : Bytes) :
    toBE w a ++ rest < toBE w b := by
  induction w generalizing a b rest with
  | zero =>
    rw [pow_zero] at hb
    omega
  | succ w ih =>
    have hdiv : b / 256 < 256 ^ w := by
      rw [pow_succ] at hb
      exact Nat.div_lt_of_lt_mul (by omega)
    rw [toBE, toBE, List.append_assoc]
    rcases Nat.lt_or_ge (a / 256) (b / 256) with hlt | hge
    · exact lt_of_lt_of_le (ih hlt hdiv _) (le_append _ _)
    · have heq : a / 256 = b / 256 := by omega
      rw [heq]
      refine List.append_left_lt (List.cons_lt_cons_iff.mpr (.inl ?_))
      rw [UInt8.lt_iff_toNat_lt, UInt8.toNat_ofNat', UInt8.toNat_ofNat']
      omega

lemma stateKey_append_lt {s t : UInt32} (h : s < t) (rest : Bytes) :
    stateKey s ++ rest < stateKey t := by
  have ht := t.toNat_lt
  exact toBE_append_lt (UInt32.lt_iff_toNat_lt.mp h) (by norm_num at ht ⊢; omega) rest

lemma Under.eq_append {s : UInt32} {key : Bytes} (h : Under s key) :
    key = stateKey s ++ key.drop 4 := by
  rw [← show key.take 4 = stateKey s from h, List.take_append_drop]

/-! ### Pops -/

/-- Each pop of the block is one of a queue that has an element, or that comes after the state
id. -/
def PopsClear (s : UInt32) (data : SortedMap Bytes Bytes) (block : Block) : Prop :=
  ∀ change ∈ block.changes, change.changeOperation = some .queuePop →
    s < change.stateId ∨ data.part (Under change.stateId) ≠ []

instance (s : UInt32) (data : SortedMap Bytes Bytes) (block : Block) :
    Decidable (PopsClear s data block) :=
  inferInstanceAs (Decidable (∀ change ∈ block.changes, _ → _))

/-- Such a pop leaves the entries of the other state ids alone. -/
lemma PopsClear.own {s : UInt32} {data : SortedMap Bytes Bytes} {block : Block}
    (h : PopsClear s data block) : PopsOwn s data block := by
  intro change hchange hpop hne e he hunder
  rcases h change hchange hpop with hlt | hfull
  · -- the cursor starts behind the entries of the state id
    have hle := (SortedMap.mem_iterFrom.mp (List.mem_of_mem_head? he)).2
    rw [hunder.eq_append] at hle
    exact hle.not_gt (stateKey_append_lt hlt _)
  · obtain ⟨first, rest, hpart⟩ := List.exists_cons_of_ne_nil hfull
    rw [head_iterFrom hpart] at he
    cases he
    have hmem : e ∈ data.part (Under change.stateId) := by
      rw [hpart]
      exact List.mem_cons_self
    have hown := (SortedMap.mem_part.mp hmem).2
    exact hne (stateKey_inj (hown.symm.trans hunder))

/-! ### One block, seen from one state id -/

section Batch

variable {s : UInt32} {data : SortedMap Bytes Bytes} {batch batch' : List StateOp}

/-- The operations of a batch on the entries of the state id. -/
def writesUnder (s : UInt32) (batch : List StateOp) : List (Bytes × Option Bytes) :=
  (batch.filter fun op => Under s op.key).map StateOp.write

lemma writesUnder_append (s : UInt32) (batch batch' : List StateOp) :
    writesUnder s (batch ++ batch') = writesUnder s batch ++ writesUnder s batch' := by
  simp [writesUnder]

lemma StateOp.write_fst (op : StateOp) : op.write.1 = op.key := by
  cases op <;> rfl

lemma get_foldl_writesUnder {key : Bytes} (hkey : Under s key) (batch : List StateOp)
    (data : SortedMap Bytes Bytes) :
    (batch.foldl StateOp.apply data).get key =
      (lastWrite (writesUnder s batch) key).getD (data.get key) := by
  induction batch generalizing data with
  | nil => rfl
  | cons op batch ih =>
    rw [List.foldl_cons, ih, StateOp.apply_eq_write, SortedMap.get_write, StateOp.write_fst,
      ← List.singleton_append, writesUnder_append]
    by_cases hop : Under s op.key
    · have hone : writesUnder s [op] = [op.write] := by simp [writesUnder, hop]
      rw [hone, List.singleton_append, lastWrite, StateOp.write_fst]
      rcases lastWrite (writesUnder s batch) key with _ | value
      · by_cases heq : op.key = key <;> simp [heq]
      · rfl
    · have hone : writesUnder s [op] = [] := by simp [writesUnder, hop]
      have hne : op.key ≠ key := by
        rintro rfl
        exact hop hkey
      rw [hone, List.nil_append, if_neg hne]

/-- What the changes with the state id write; `g` says it for one of them. -/
def WritesAs (s : UInt32) (g : StateChange → List (Bytes × Option Bytes)) (block : Block) : Prop :=
  ∀ change ∈ block.changes, change.stateId = s → ∀ data timestamp batch batch',
    applySingleStateChange data timestamp batch change = .ok batch' →
      writesUnder s batch' = writesUnder s batch ++ g change

variable {g : StateChange → List (Bytes × Option Bytes)}

lemma single_writesUnder {timestamp : Bytes} {change : StateChange}
    (hown : change.stateId = s → writesUnder s batch' = writesUnder s batch ++ g change)
    (hother : change.stateId ≠ s → g change = [])
    (hpop : change.changeOperation = some .queuePop → change.stateId ≠ s →
      ∀ e ∈ (data.iterFrom (stateKey change.stateId)).head?, ¬ Under s e.1)
    (hok : applySingleStateChange data timestamp batch change = .ok batch') :
    writesUnder s batch' = writesUnder s batch ++ g change := by
  by_cases hid : change.stateId = s
  · exact hown hid
  · rw [hother hid, List.append_nil]
    rcases other_change hid (fun hop => hpop hop hid) hok with rfl | ⟨op, hkey, rfl⟩
    · rfl
    · simp [writesUnder, hkey]

lemma item_writesUnder {block : Block} {item : BlockItem} (hitem : item ∈ block.items)
    (hg : WritesAs s g block) (hother : ∀ change : StateChange, change.stateId ≠ s → g change = [])
    (hpops : PopsOwn s data block) {done : List (Bytes × Option Bytes)}
    (hdone : writesUnder s batch = done) (hok : applyItem data batch item = .ok batch') :
    writesUnder s batch' = done ++ item.changes.flatMap g := by
  have hmem : ∀ change ∈ item.changes, change ∈ block.changes := fun change hc =>
    List.mem_flatMap.mpr ⟨item, hitem, hc⟩
  obtain ⟨_ | _ | _ | ⟨timestamp, changes⟩ | _⟩ := item
  case some.stateChanges =>
    cases timestamp with
    | none => cases hok
    | some timestamp =>
      refine foldlM_ok_induction (R := fun batch done => writesUnder s batch = done)
        (fun {b d change b'} hc hd hok => ?_) hdone hok
      rw [← hd]
      exact single_writesUnder (fun hid => hg change (hmem change hc) hid _ _ _ _ hok)
        (hother change) (fun hop hne => hpops change (hmem change hc) hop hne) hok
  all_goals
    cases hok
    simpa [BlockItem.changes] using hdone

/-- **One block.** An entry of the state id has what the last change of the block to it says. -/
lemma block_get {codec : Codec} {block : Block} {db db' : StateDb} {n : ℕ} {key : Bytes}
    (hkey : Under s key) (hg : WritesAs s g block)
    (hother : ∀ change : StateChange, change.stateId ≠ s → g change = [])
    (hpops : PopsOwn s db.stateData block)
    (hok : applyStateChanges codec db n (codec.encode block) = .ok db') :
    db'.stateData.get key =
      (lastWrite (block.changes.flatMap g) key).getD (db.stateData.get key) := by
  unfold applyStateChanges at hok
  rw [codec.decode_encode] at hok
  rcases hbatch : block.items.foldlM (applyItem db.stateData) [] with error | batch
  · simp only [hbatch] at hok
    cases hok
  simp only [hbatch] at hok
  cases hok
  have hwrites : writesUnder s batch =
      [] ++ block.items.flatMap fun item => item.changes.flatMap g :=
    foldlM_ok_induction (R := fun batch done => writesUnder s batch = done)
      (fun hmem hdone hok => item_writesUnder hmem hg hother hpops hdone hok) rfl hbatch
  rw [get_foldl_writesUnder hkey, hwrites, List.nil_append, Block.changes, List.flatMap_assoc]

end Batch

/-! ### Block after block -/

/-- The state after a block. -/
def processBlock (codec : Codec) (db : StateDb) (block : ℕ × Block) : Option StateDb :=
  (applyStateChanges codec db block.1 (codec.encode block.2)).toOption

lemma processBlock_eq_some {codec : Codec} {db db' : StateDb} {block : ℕ × Block} :
    processBlock codec db block = some db' ↔
      applyStateChanges codec db block.1 (codec.encode block.2) = .ok db' := by
  unfold processBlock
  rcases applyStateChanges codec db block.1 (codec.encode block.2) with error | next
  · simp [Except.toOption]
  · simp [Except.toOption]

lemma run_processBlock {codec : Codec} {blocks : List (ℕ × Block)} {db db' : StateDb}
    (h : (blocks.map fun block => (block.1, codec.encode block.2)).foldlM
      (fun db block => applyStateChanges codec db block.1 block.2) db = .ok db') :
    run (processBlock codec) db blocks = some db' := by
  induction blocks generalizing db with
  | nil =>
    cases h
    rfl
  | cons block blocks ih =>
    rw [List.map_cons, List.foldlM_cons] at h
    rcases hfirst : applyStateChanges codec db block.1 (codec.encode block.2) with error | next
    · simp only [hfirst] at h
      cases h
    · simp only [hfirst] at h
      exact (run_cons (processBlock_eq_some.mpr hfirst) blocks).trans (ih h)

section Run

variable {codec : Codec} {s : UInt32} {blocks : List (ℕ × Block)} {db db' : StateDb}

/-- No pop gets to the entries of the state id. -/
def PopsClearAlong (codec : Codec) (s : UInt32) (blocks : List (ℕ × Block)) : Prop :=
  Along (processBlock codec) (fun db block => PopsClear s db.stateData block.2) .empty blocks

instance (codec : Codec) (s : UInt32) (blocks : List (ℕ × Block)) :
    Decidable (PopsClearAlong codec s blocks) :=
  inferInstanceAs (Decidable (Along _ _ _ _))

lemma run_get {g : StateChange → List (Bytes × Option Bytes)} {key : Bytes} (hkey : Under s key)
    (hg : ∀ block ∈ blocks, WritesAs s g block.2)
    (hother : ∀ change : StateChange, change.stateId ≠ s → g change = [])
    (hpops : Along (processBlock codec) (fun db block => PopsClear s db.stateData block.2) db
      blocks)
    (hrun : run (processBlock codec) db blocks = some db') :
    db'.stateData.get key =
      (lastWrite (blocks.flatMap fun block => block.2.changes.flatMap g) key).getD
        (db.stateData.get key) := by
  induction blocks generalizing db with
  | nil =>
    cases hrun
    rfl
  | cons block blocks ih =>
    obtain ⟨next, hfirst, hrest⟩ := run_cons_eq_some hrun
    obtain ⟨hpop, hpops⟩ := (along_cons hfirst).mp hpops
    rw [ih (fun b hb => hg b (List.mem_cons_of_mem _ hb)) hpops hrest,
      block_get hkey (hg block List.mem_cons_self) hother hpop.own
        (processBlock_eq_some.mp hfirst), List.flatMap_cons, lastWrite_append, Option.getD_or]

end Run

/-! ### Maps -/

section Maps

variable {K V : Type} {keys : Message K} {values : Message V} {codec : Codec} {s : UInt32}
  {blocks : List (ℕ × Block)} {db : StateDb}

/-- The state id is used for a map only. -/
def Block.UsesAsMap (keys : Message K) (values : Message V) (s : UInt32) (block : Block) : Prop :=
  ∀ change ∈ block.changes, change.stateId = s → ∃ w, change = mapChange keys values w

/-- What a change writes to the map. -/
def StateChange.mapWritesOf (keys : Message K) (values : Message V) (s : UInt32)
    (change : StateChange) : List (MapWrite K V) :=
  (change.mapWrite? keys values).toList.filter fun w => w.1.1 = s

lemma mapWrite?_stateId {change : StateChange} {w : MapWrite K V}
    (h : change.mapWrite? keys values = some w) : w.1.1 = change.stateId := by
  unfold StateChange.mapWrite? at h
  split at h
  · split at h
    · cases h
      rfl
    · cases h
  · split at h
    · cases h
      rfl
    · cases h
  · cases h

lemma mapWritesOf_of_ne {change : StateChange} (h : change.stateId ≠ s) :
    change.mapWritesOf keys values s = [] := by
  unfold StateChange.mapWritesOf
  refine List.filter_eq_nil_iff.mpr fun w hw => ?_
  have hid := mapWrite?_stateId (Option.mem_toList.mp hw)
  simpa [hid] using h

lemma Block.UsesAsMap.writesAs {block : Block} (h : block.UsesAsMap keys values s) :
    WritesAs s (fun change => (change.mapWritesOf keys values s).map (dbWrite keys values))
      block := by
  intro change hchange hid data timestamp batch batch' hok
  obtain ⟨w, rfl⟩ := h change hchange hid
  obtain ⟨op, hop, hwrite⟩ := applySingleStateChange_map data timestamp batch w
  cases hop.symm.trans hok
  have hkey : Under s op.key := by
    rw [← StateOp.write_fst, hwrite]
    exact under_append.mpr hid
  have hself : w.1.1 = s := hid
  rw [writesUnder_append]
  simp [writesUnder, hkey, StateChange.mapWritesOf, hself, hwrite]

/-- A block with operations on maps only uses every state id so. -/
lemma Block.MapOnly.usesAsMap {block : Block} (h : block.MapOnly keys values) (s : UInt32) :
    block.UsesAsMap keys values s := by
  intro change hchange _
  obtain ⟨item, hitem, hc⟩ := List.mem_flatMap.mp hchange
  exact h.changes item hitem change hc

lemma popsClearAlong_of_mapOnly (h : ∀ block ∈ blocks, block.2.MapOnly keys values) (s : UInt32) :
    PopsClearAlong codec s blocks := by
  have hnone : ∀ block ∈ blocks, ∀ change ∈ block.2.changes,
      change.changeOperation ≠ some .queuePop := by
    intro block hblock change hchange
    obtain ⟨⟨id, _ | v⟩, rfl⟩ := (h block hblock).usesAsMap _ change hchange rfl <;>
      exact fun hpop => by cases hpop
  exact (along_of_forall hnone _).imp fun hblock change hchange hpop =>
    absurd hpop (hblock change hchange)

lemma Block.flatMap_mapWritesOf (block : Block) :
    block.changes.flatMap (StateChange.mapWritesOf keys values s) =
      (block.mapWrites keys values).filter fun w => w.1.1 = s := by
  simp only [Block.changes, Block.mapWrites, BlockItem.mapWrites, List.flatMap_assoc,
    List.filter_flatMap, List.filterMap_eq_flatMap_toList]
  rfl

/-- **Maps beside singletons and queues**: an entry has the value of the last operation on it. -/
theorem replay_get_map [DecidableEq K]
    (hmap : ∀ block ∈ blocks, block.2.UsesAsMap keys values s)
    (hpops : PopsClearAlong codec s blocks)
    (hreplay : replay codec (blocks.map fun block => (block.1, codec.encode block.2)) = .ok db)
    (k : K) :
    db.stateData.get (dbKey keys (s, k)) =
      (lastWrite (blocks.flatMap fun block => block.2.mapWrites keys values) (s, k)).join.map
        values.encode := by
  have hunder : Under s (dbKey keys (s, k)) := under_append.mpr rfl
  have hget := run_get hunder (fun block hb => (hmap block hb).writesAs)
    (fun change hne => by rw [mapWritesOf_of_ne hne, List.map_nil]) hpops
    (run_processBlock hreplay)
  have hwrites : (blocks.flatMap fun block => block.2.changes.flatMap fun change =>
      (change.mapWritesOf keys values s).map (dbWrite keys values)) =
      ((blocks.flatMap fun block => block.2.mapWrites keys values).filter fun w =>
        w.1.1 = s).map (dbWrite keys values) := by
    simp only [← List.map_flatMap, Block.flatMap_mapWritesOf, List.filter_flatMap]
  have hlast : lastWrite (((blocks.flatMap fun block => block.2.mapWrites keys values).filter
      fun w => w.1.1 = s).map (dbWrite keys values)) (dbKey keys (s, k)) =
        (lastWrite (blocks.flatMap fun block => block.2.mapWrites keys values) (s, k)).map
          (Option.map values.encode) := by
    refine (lastWrite_map dbKey_injective values.encode _ (s, k)).trans ?_
    rw [lastWrite_filter fun w hw => by simp [hw]]
  rw [hget, hwrites, hlast]
  rcases lastWrite _ (s, k) with _ | _ | value <;> rfl

end Maps

/-! ### Singletons -/

section Singletons

variable {V : Type} {values : Message V} {codec : Codec} {s : UInt32}
  {blocks : List (ℕ × Block)} {db : StateDb}

/-- `singleton_update` with a value of a supported type. -/
def singletonChange (values : Message V) (s : UInt32) (v : V) : StateChange :=
  ⟨s, some (.singletonUpdate (some (.handled (values.encode v))))⟩

/-- The state id is used for a singleton only. -/
def Block.UsesAsSingleton (values : Message V) (s : UInt32) (block : Block) : Prop :=
  ∀ change ∈ block.changes, change.stateId = s → ∃ v, change = singletonChange values s v

/-- The value a change gives to the singleton. -/
def StateChange.singletonValue? (values : Message V) (s : UInt32) (change : StateChange) :
    Option V :=
  if change.stateId = s then
    match change.changeOperation with
    | some (.singletonUpdate (some (.handled value))) => (values.decode value).toOption
    | _ => none
  else none

/-- The values of the singleton in the block, in their order. -/
def Block.singletonValues (values : Message V) (s : UInt32) (block : Block) : List V :=
  block.changes.filterMap (StateChange.singletonValue? values s)

lemma under_stateKey (s : UInt32) : Under s (stateKey s) := by
  unfold Under
  exact List.take_of_length_le (by simp [stateKey])

lemma singletonValue?_singletonChange (v : V) :
    (singletonChange values s v).singletonValue? values s = some v := by
  simp [StateChange.singletonValue?, singletonChange, Except.toOption]

lemma Block.UsesAsSingleton.writesAs {block : Block} (h : block.UsesAsSingleton values s) :
    WritesAs s (fun change => (change.singletonValue? values s).toList.map fun v =>
      (stateKey s, some (values.encode v))) block := by
  intro change hchange hid data timestamp batch batch' hok
  obtain ⟨v, rfl⟩ := h change hchange hid
  cases hok
  have hput : writesUnder s [.put (stateKey s) (values.encode v)] =
      [(stateKey s, some (values.encode v))] := by
    simp [writesUnder, StateOp.key, under_stateKey, StateOp.write]
  dsimp only
  rw [writesUnder_append, singletonValue?_singletonChange]
  exact congrArg (writesUnder s batch ++ ·) hput

/-- **Singletons beside maps and queues**: a singleton has the value of its last update. -/
theorem replay_get_singleton (hone : ∀ block ∈ blocks, block.2.UsesAsSingleton values s)
    (hpops : PopsClearAlong codec s blocks)
    (hreplay : replay codec (blocks.map fun block => (block.1, codec.encode block.2)) = .ok db) :
    db.stateData.get (stateKey s) =
      (blocks.flatMap fun block => block.2.singletonValues values s).getLast?.map
        values.encode := by
  have hget := run_get (under_stateKey s) (fun block hb => (hone block hb).writesAs)
    (fun change hne => by simp [StateChange.singletonValue?, hne]) hpops
    (run_processBlock hreplay)
  have hwrites : (blocks.flatMap fun block => block.2.changes.flatMap fun change =>
      (change.singletonValue? values s).toList.map fun v =>
        (stateKey s, some (values.encode v))) =
      ((blocks.flatMap fun block => block.2.singletonValues values s).map values.encode).map
        fun value => (stateKey s, some value) := by
    simp only [Block.singletonValues, List.filterMap_eq_flatMap_toList, List.map_flatMap,
      List.map_map]
    rfl
  rw [hget, hwrites, lastWrite_const, List.getLast?_map]
  rcases List.getLast? _ with _ | v <;> rfl

end Singletons

end RockNode
