import RockNode.Fifo
import RockNode.Runs
import RockNode.StatePlugin

/-!
Queues in the state: what `QueuePush` and `QueuePop` leave in `CF_STATE_DATA`.

The elements of a queue lie under the four bytes of its state id, each at the timestamp of its
push. A pop reads the committed database and a push goes to the batch, so that within a block
the pops see the queue as it was before the block.
-/

namespace RockNode

def stateKey (s : UInt32) : Bytes := toBE 4 s.toNat

/-- The key belongs to the state id. -/
def Under (s : UInt32) (key : Bytes) : Prop := key.take 4 = stateKey s

instance Under.decidable (s : UInt32) : DecidablePred (Under s) :=
  fun key => inferInstanceAs (Decidable (key.take 4 = stateKey s))

/-- The elements stored for the state id, in the order of their keys. -/
def queueValues (s : UInt32) (data : SortedMap Bytes Bytes) : List Bytes :=
  (data.part (Under s)).map Prod.snd

/-! ### The queue operations of a block -/

/-- What a change asks of the queue; an element comes with its key. -/
def StateChange.queueOps (s : UInt32) (timestamp : Bytes) (change : StateChange) :
    List (FifoOp (Bytes × Bytes)) :=
  if change.stateId = s then
    match change.changeOperation with
    | some (.queuePush (some (.handled value))) => [.push (stateKey s ++ timestamp, value)]
    | some .queuePop => [.pop]
    | _ => []
  else []

def BlockItem.queueOps (s : UInt32) (item : BlockItem) : List (FifoOp (Bytes × Bytes)) :=
  match item.item with
  | some (.stateChanges ⟨some timestamp, changes⟩) =>
    changes.flatMap (StateChange.queueOps s timestamp)
  | _ => []

def Block.queueOps (s : UInt32) (block : Block) : List (FifoOp (Bytes × Bytes)) :=
  block.items.flatMap (BlockItem.queueOps s)

/-- The changes in a block, whatever they belong to. -/
def BlockItem.changes (item : BlockItem) : List StateChange :=
  match item.item with
  | some (.stateChanges set) => set.stateChanges
  | _ => []

def Block.changes (block : Block) : List StateChange := block.items.flatMap BlockItem.changes

/-- A change that pushes a supported value or pops. -/
def StateChange.isQueueOp (change : StateChange) : Bool :=
  match change.changeOperation with
  | some (.queuePush (some (.handled _))) | some .queuePop => true
  | _ => false

/-- The state id is used for a queue only. -/
def Block.UsesAsQueue (s : UInt32) (block : Block) : Prop :=
  ∀ change ∈ block.changes, change.stateId = s → change.isQueueOp = true

instance Block.UsesAsQueue.decidable (s : UInt32) (block : Block) :
    Decidable (block.UsesAsQueue s) :=
  inferInstanceAs (Decidable (∀ change ∈ block.changes, _ → _))

/-! ### When a block treats the queue as one -/

/-- The pushes of the block have increasing keys beyond all that is stored. -/
def FreshKeys (s : UInt32) (data : SortedMap Bytes Bytes) (block : Block) : Prop :=
  ((data.part (Under s) ++ Fifo.pushed (block.queueOps s)).map Prod.fst).Pairwise (· < ·)

/-- At most one element leaves the queue with the block, and only one that was there before. -/
def OnePop (s : UInt32) (data : SortedMap Bytes Bytes) (block : Block) : Prop :=
  Fifo.removed (data.part (Under s)) (block.queueOps s) ≤ min 1 (data.part (Under s)).length

/-- No pop of another queue, found empty, goes on to this one. -/
def PopsOwn (s : UInt32) (data : SortedMap Bytes Bytes) (block : Block) : Prop :=
  ∀ change ∈ block.changes, change.changeOperation = some .queuePop → change.stateId ≠ s →
    ∀ e ∈ (data.iterFrom (stateKey change.stateId)).head?, ¬ Under s e.1

/-- The block treats the queue as one. -/
def QueueSafe (s : UInt32) (data : SortedMap Bytes Bytes) (block : Block) : Prop :=
  FreshKeys s data block ∧ OnePop s data block ∧ PopsOwn s data block

instance QueueSafe.decidable (s : UInt32) (data : SortedMap Bytes Bytes) (block : Block) :
    Decidable (QueueSafe s data block) :=
  have : Decidable (FreshKeys s data block) :=
    inferInstanceAs (Decidable (List.Pairwise (· < ·) _))
  have : Decidable (OnePop s data block) := inferInstanceAs (Decidable (_ ≤ _))
  have (change : StateChange) : Decidable
      (∀ e ∈ (data.iterFrom (stateKey change.stateId)).head?, ¬ Under s e.1) :=
    Option.decidableForallMem _
  have : Decidable (PopsOwn s data block) :=
    inferInstanceAs (Decidable (∀ change ∈ block.changes,
      change.changeOperation = some .queuePop → change.stateId ≠ s →
        ∀ e ∈ (data.iterFrom (stateKey change.stateId)).head?, ¬ Under s e.1))
  inferInstanceAs (Decidable (_ ∧ _ ∧ _))

/-! ### Keys -/

lemma stateKey_inj {s t : UInt32} (h : stateKey s = stateKey t) : s = t := by
  have hlt : ∀ u : UInt32, u.toNat < 256 ^ 4 := fun u => by
    have := u.toNat_lt
    norm_num at this ⊢
    omega
  have hof := congrArg ofBE h
  unfold stateKey at hof
  rw [ofBE_toBE_of_lt (hlt s), ofBE_toBE_of_lt (hlt t)] at hof
  exact UInt32.toNat_inj.mp hof

lemma take_stateKey (s : UInt32) (rest : Bytes) : (stateKey s ++ rest).take 4 = stateKey s := by
  have hlen : (stateKey s).length = 4 := toBE_length 4 _
  rw [← hlen, List.take_left]

lemma under_append {s t : UInt32} {rest : Bytes} : Under s (stateKey t ++ rest) ↔ t = s := by
  unfold Under
  rw [take_stateKey]
  exact ⟨stateKey_inj, congrArg stateKey⟩

lemma stateKey_le {s : UInt32} {key : Bytes} (h : Under s key) : stateKey s ≤ key := by
  rw [← List.take_append_drop 4 key, show key.take 4 = stateKey s from h]
  exact le_append _ _

/-- The cursor of a pop finds the first element of the queue, if there is one. -/
lemma head_iterFrom {s : UInt32} {data : SortedMap Bytes Bytes} {e : Bytes × Bytes}
    {rest : List (Bytes × Bytes)} (h : data.part (Under s) = e :: rest) :
    (data.iterFrom (stateKey s)).head? = some e := by
  have hmem : e ∈ data.part (Under s) := by rw [h]; exact List.mem_cons_self
  obtain ⟨hentry, hunder⟩ := SortedMap.mem_part.mp hmem
  have hiter : e ∈ data.iterFrom (stateKey s) :=
    SortedMap.mem_iterFrom.mpr ⟨SortedMap.get_eq_some.mpr hentry, stateKey_le hunder⟩
  rcases hl : data.iterFrom (stateKey s) with _ | ⟨f, tail⟩
  · rw [hl] at hiter
    cases hiter
  rw [List.head?_cons, Option.some.injEq]
  have hf : f ∈ data.iterFrom (stateKey s) := by rw [hl]; exact List.mem_cons_self
  obtain ⟨hfget, hfle⟩ := SortedMap.mem_iterFrom.mp hf
  have hsorted := data.iterFrom_sorted (stateKey s)
  rw [hl] at hiter hsorted
  rcases List.mem_cons.mp hiter with rfl | htail
  · rfl
  -- otherwise the head lies between the id and an element, so it is an element before the first
  have hlt : f.1 < e.1 := (List.pairwise_cons.mp hsorted).1 e htail
  have hbetween : f.1.take 4 = stateKey s := by
    have hlen : (stateKey s).length = 4 := toBE_length 4 _
    have hkey : e.1 = stateKey s ++ e.1.drop 4 := by
      rw [← show e.1.take 4 = stateKey s from hunder, List.take_append_drop]
    rw [← hlen]
    exact take_of_between hfle (hkey ▸ hlt.le)
  have hpart : f ∈ data.part (Under s) :=
    SortedMap.mem_part.mpr ⟨SortedMap.get_eq_some.mp hfget, hbetween⟩
  have hpsorted := data.part_sorted (P := Under s)
  rw [h] at hpart hpsorted
  rcases List.mem_cons.mp hpart with rfl | hrest
  · exact absurd hlt (lt_irrefl _)
  · exact absurd hlt ((List.pairwise_cons.mp hpsorted).1 f hrest).asymm

/-! ### The batch of a block -/

section Batch

variable {s : UInt32} {data : SortedMap Bytes Bytes} {batch batch' : List StateOp}
  {done : List (FifoOp (Bytes × Bytes))} {timestamp : Bytes} {change : StateChange}

/-- The queue before the block, less its first element once something has been popped, and what
has been pushed: as long as the keys are fresh. -/
def Tracks (s : UInt32) (data : SortedMap Bytes Bytes) (batch : List StateOp)
    (done : List (FifoOp (Bytes × Bytes))) : Prop :=
  ((data.part (Under s) ++ Fifo.pushed done).map Prod.fst).Pairwise (· < ·) →
    (batch.foldl StateOp.apply data).part (Under s) =
      (if Fifo.pops done then (data.part (Under s)).tail else data.part (Under s)) ++
        Fifo.pushed done

lemma tracks_nil (s : UInt32) (data : SortedMap Bytes Bytes) : Tracks s data [] [] := by
  intro _
  simp [Fifo.pops, Fifo.pushed]

def StateOp.key : StateOp → Bytes
  | .put key _ => key
  | .delete key => key

/-- An operation on a key of another state id. -/
lemma Tracks.skip (h : Tracks s data batch done) {op : StateOp} (hop : ¬ Under s op.key) :
    Tracks s data (batch ++ [op]) done := by
  intro hkeys
  rw [← h hkeys, List.foldl_append, List.foldl_cons, List.foldl_nil]
  cases op with
  | put key value => exact SortedMap.part_put_of_not _ value hop
  | delete key => exact SortedMap.part_erase_of_not _ hop

lemma Tracks.push {key value : Bytes} (h : Tracks s data batch done) (hkey : Under s key) :
    Tracks s data (batch ++ [.put key value]) (done ++ [.push (key, value)]) := by
  intro hkeys
  rw [Fifo.pushed_append, Fifo.pops_append, ← List.append_assoc, List.map_append] at *
  obtain ⟨hbefore, -, hlast⟩ := List.pairwise_append.mp hkeys
  have hpart := h hbefore
  have hmem : ∀ e ∈ (batch.foldl StateOp.apply data).part (Under s), e.1 < key := by
    intro e he
    rw [hpart] at he
    refine hlast e.1 ?_ key (by simp [Fifo.pushed])
    refine List.mem_map.mpr ⟨e, ?_, rfl⟩
    rcases List.mem_append.mp he with he | he
    · refine List.mem_append_left _ ?_
      split at he
      · exact List.mem_of_mem_tail he
      · exact he
    · exact List.mem_append_right _ he
  rw [List.foldl_append, List.foldl_cons, List.foldl_nil]
  simp only [StateOp.apply]
  rw [SortedMap.part_put_last _ value hkey hmem, hpart]
  simp [Fifo.pops, Fifo.pushed]

/-- A pop of a queue that was empty before the block takes nothing. -/
lemma Tracks.pop_empty (h : Tracks s data batch done) (hempty : data.part (Under s) = []) :
    Tracks s data batch (done ++ [.pop]) := by
  intro hkeys
  rw [Fifo.pushed_append] at *
  simp only [Fifo.pushed, List.append_nil] at hkeys ⊢
  rw [h hkeys, hempty]
  simp

/-- A pop takes the first element, unless that is gone. -/
lemma Tracks.pop {e : Bytes × Bytes} {rest : List (Bytes × Bytes)} (h : Tracks s data batch done)
    (hpart : data.part (Under s) = e :: rest) :
    Tracks s data (batch ++ [.delete e.1]) (done ++ [.pop]) := by
  intro hkeys
  rw [Fifo.pushed_append] at *
  simp only [Fifo.pushed, List.append_nil] at hkeys ⊢
  have hbefore := h hkeys
  rw [hpart] at hkeys hbefore
  have hother : ∀ f ∈ rest ++ Fifo.pushed done, f.1 ≠ e.1 := by
    intro f hf
    rw [List.cons_append, List.map_cons] at hkeys
    exact ((List.pairwise_cons.mp hkeys).1 f.1 (List.mem_map.mpr ⟨f, hf, rfl⟩)).ne'
  have hkept : (rest ++ Fifo.pushed done).filter (fun f => f.1 ≠ e.1) = rest ++ Fifo.pushed done :=
    List.filter_eq_self.mpr fun f hf => by simpa using hother f hf
  rw [List.foldl_append, List.foldl_cons, List.foldl_nil]
  simp only [StateOp.apply]
  rw [SortedMap.part_erase, hbefore, Fifo.pops_append, hpart]
  cases Fifo.pops done with
  | true => simpa [Fifo.pops] using hkept
  | false => simpa [Fifo.pops] using hkept

/-- A pop deletes the first entry from the start of the state id on, if there is one. -/
lemma applySingleStateChange_queuePop (id : UInt32) :
    applySingleStateChange data timestamp batch ⟨id, some .queuePop⟩ =
      .ok (batch ++ ((data.iterFrom (stateKey id)).head?.map fun e => .delete e.1).toList) := by
  unfold applySingleStateChange stateKey
  dsimp only
  split
  · next heq => rw [heq]; rfl
  · next heq => rw [heq]; simp

/-- What a change of another state id adds to the batch. -/
lemma other_change (hid : change.stateId ≠ s)
    (hown : change.changeOperation = some .queuePop →
      ∀ e ∈ (data.iterFrom (stateKey change.stateId)).head?, ¬ Under s e.1)
    (hok : applySingleStateChange data timestamp batch change = .ok batch') :
    batch' = batch ∨ ∃ op : StateOp, ¬ Under s op.key ∧ batch' = batch ++ [op] := by
  obtain ⟨id, operation⟩ := change
  have hkey : ∀ rest, ¬ Under s (stateKey id ++ rest) := fun rest h => hid (under_append.mp h)
  rcases operation with _ | op
  · cases hok
    exact Or.inl rfl
  cases op with
  | mapUpdate key value =>
    cases key with
    | none => cases hok
    | some key =>
      cases value with
      | none => cases hok
      | some value =>
        cases hok
        exact Or.inr ⟨.put _ value, hkey key, rfl⟩
  | mapDelete key =>
    cases key with
    | none => cases hok
    | some key =>
      cases hok
      exact Or.inr ⟨.delete _, hkey key, rfl⟩
  | singletonUpdate value =>
    rcases value with _ | value | _ <;> cases hok
    · refine Or.inr ⟨.put (stateKey id) value, fun h => hkey [] ?_, rfl⟩
      rwa [List.append_nil]
    · exact Or.inl rfl
  | queuePush value =>
    rcases value with _ | value | _ <;> cases hok
    · exact Or.inr ⟨.put _ value, hkey timestamp, rfl⟩
    · exact Or.inl rfl
  | queuePop =>
    rw [applySingleStateChange_queuePop] at hok
    have hhead := hown rfl
    rcases hfirst : (data.iterFrom (stateKey id)).head? with _ | e
    · rw [hfirst] at hok
      cases hok
      exact Or.inl (List.append_nil _)
    · rw [hfirst] at hok
      cases hok
      exact Or.inr ⟨.delete e.1, hhead e hfirst, rfl⟩
  | other =>
    cases hok
    exact Or.inl rfl

/-- A pop, on the queue it is for. -/
lemma Tracks.ownPop (h : Tracks s data batch done) (hid : change.stateId = s)
    (hop : change.changeOperation = some .queuePop)
    (hok : applySingleStateChange data timestamp batch change = .ok batch') :
    Tracks s data batch' (done ++ [.pop]) := by
  obtain ⟨id, operation⟩ := change
  simp only at hid hop
  subst hid hop
  rw [applySingleStateChange_queuePop] at hok
  rcases hpart : data.part (Under id) with _ | ⟨e, rest⟩
  · have hgone := h.pop_empty hpart
    rcases hfirst : (data.iterFrom (stateKey id)).head? with _ | e
    · rw [hfirst] at hok
      cases hok
      simpa using hgone
    · rw [hfirst] at hok
      cases hok
      -- the cursor has gone on to another state id
      refine hgone.skip fun hunder => ?_
      have hmem := SortedMap.mem_iterFrom.mp (List.mem_of_mem_head? hfirst)
      have hin : e ∈ data.part (Under id) :=
        SortedMap.mem_part.mpr ⟨SortedMap.get_eq_some.mp hmem.1, hunder⟩
      rw [hpart] at hin
      cases hin
  · rw [head_iterFrom hpart] at hok
    cases hok
    exact h.pop hpart

/-- **One change.** -/
lemma Tracks.single (h : Tracks s data batch done)
    (huse : change.stateId = s → change.isQueueOp = true)
    (hown : change.changeOperation = some .queuePop → change.stateId ≠ s →
      ∀ e ∈ (data.iterFrom (stateKey change.stateId)).head?, ¬ Under s e.1)
    (hok : applySingleStateChange data timestamp batch change = .ok batch') :
    Tracks s data batch' (done ++ change.queueOps s timestamp) := by
  by_cases hid : change.stateId = s
  · have hqueue := huse hid
    unfold StateChange.isQueueOp at hqueue
    unfold StateChange.queueOps
    rw [if_pos hid]
    split at hqueue
    · next value hop =>
      obtain ⟨id, operation⟩ := change
      simp only at hid hop
      subst hid hop
      cases hok
      exact h.push (under_append.mpr rfl)
    · next hop =>
      exact h.ownPop hid hop hok
    · cases hqueue
  · unfold StateChange.queueOps
    rw [if_neg hid, List.append_nil]
    rcases other_change hid (fun hop => hown hop hid) hok with rfl | ⟨op, hkey, rfl⟩
    · exact h
    · exact h.skip hkey

/-- A fold that succeeds keeps what each of its steps keeps. -/
lemma foldlM_ok_induction {α β γ ε : Type} {f : β → α → Except ε β} {g : α → List γ}
    {R : β → List γ → Prop} {l : List α} {b b' : β} {done : List γ}
    (hstep : ∀ {b done a b'}, a ∈ l → R b done → f b a = .ok b' → R b' (done ++ g a))
    (h : R b done) (hok : l.foldlM f b = .ok b') : R b' (done ++ l.flatMap g) := by
  induction l generalizing b done with
  | nil =>
    cases hok
    simpa using h
  | cons a l ih =>
    rw [List.foldlM_cons] at hok
    rcases hfirst : f b a with error | next
    · rw [hfirst] at hok
      cases hok
    · rw [hfirst] at hok
      have hnext := hstep List.mem_cons_self h hfirst
      rw [List.flatMap_cons, ← List.append_assoc]
      exact ih (fun ha => hstep (List.mem_cons_of_mem _ ha)) hnext hok

lemma Tracks.item {item : BlockItem} (h : Tracks s data batch done)
    (huse : ∀ change ∈ item.changes, change.stateId = s → change.isQueueOp = true)
    (hown : ∀ change ∈ item.changes, change.changeOperation = some .queuePop →
      change.stateId ≠ s → ∀ e ∈ (data.iterFrom (stateKey change.stateId)).head?, ¬ Under s e.1)
    (hok : applyItem data batch item = .ok batch') :
    Tracks s data batch' (done ++ item.queueOps s) := by
  obtain ⟨_ | _ | _ | ⟨timestamp, changes⟩ | _⟩ := item
  case some.stateChanges =>
    cases timestamp with
    | none => cases hok
    | some timestamp =>
      exact foldlM_ok_induction (R := Tracks s data)
        (fun hmem h hok => h.single (huse _ hmem) (hown _ hmem) hok) h hok
  all_goals
    cases hok
    simpa [BlockItem.queueOps] using h

end Batch

/-- **One block refines the queue**: if it treats it as one. -/
theorem block_fifo {codec : Codec} {s : UInt32} {db db' : StateDb} {n : ℕ} {contents : Bytes}
    {block : Block} (hdec : codec.decode contents = some block) (huse : block.UsesAsQueue s)
    (hsafe : QueueSafe s db.stateData block)
    (hok : applyStateChanges codec db n contents = .ok db') :
    db'.stateData.part (Under s) =
      Fifo.exec (db.stateData.part (Under s)) (block.queueOps s) := by
  obtain ⟨hfresh, hone, hown⟩ := hsafe
  unfold applyStateChanges at hok
  rw [hdec] at hok
  rcases hbatch : block.items.foldlM (applyItem db.stateData) [] with error | batch
  · simp only [hbatch] at hok
    cases hok
  · simp only [hbatch] at hok
    cases hok
    have htracks : Tracks s db.stateData batch ([] ++ block.queueOps s) := by
      refine foldlM_ok_induction (R := Tracks s db.stateData) (fun hmem h hok => ?_)
        (tracks_nil s db.stateData) hbatch
      refine h.item (fun change hc => huse change ?_) (fun change hc => hown change ?_) hok <;>
        exact List.mem_flatMap.mpr ⟨_, hmem, hc⟩
    rw [Fifo.exec_of_removed_le hone]
    exact htracks hfresh

/-! ### Block after block -/

/-- The operations of an encoded block on the queue of elements. -/
def queueOpsOf (codec : Codec) (s : UInt32) (contents : Bytes) : List (FifoOp Bytes) :=
  match codec.decode contents with
  | some block => (block.queueOps s).map (FifoOp.map Prod.snd)
  | none => []

/-- The state beside the queue it should hold; a block that cannot be applied changes neither. -/
def applyBlock (codec : Codec) (s : UInt32) (r : StateDb × List Bytes) (b : ℕ × Bytes) :
    StateDb × List Bytes :=
  match applyStateChanges codec r.1 b.1 b.2 with
  | .ok db => (db, Fifo.exec r.2 (queueOpsOf codec s b.2))
  | .error _ => r

lemma applyBlock_fifo {codec : Codec} {s : UInt32} {r : StateDb × List Bytes} {b : ℕ × Bytes}
    (h : queueValues s r.1.stateData = r.2)
    (huse : ∀ block ∈ codec.decode b.2, block.UsesAsQueue s)
    (hsafe : ∀ block ∈ codec.decode b.2, QueueSafe s r.1.stateData block) :
    queueValues s (applyBlock codec s r b).1.stateData = (applyBlock codec s r b).2 := by
  unfold applyBlock
  split
  · next db hok =>
    rcases hdec : codec.decode b.2 with _ | block
    · simp [applyStateChanges, hdec] at hok
    · have hblock := block_fifo hdec (huse block hdec) (hsafe block hdec) hok
      simp only [queueOpsOf, hdec]
      rw [← h]
      unfold queueValues
      rw [hblock, Fifo.exec_map]
  · exact h

/-- **Queue state is a FIFO**, in runs whose blocks treat the queue as one. -/
theorem queue_is_fifo {codec : Codec} {s : UInt32} {blocks : List (ℕ × Bytes)}
    (huse : ∀ b ∈ blocks, ∀ block ∈ codec.decode b.2, block.UsesAsQueue s)
    (hsafe : Along (fun r b => some (applyBlock codec s r b))
      (fun r b => ∀ block ∈ codec.decode b.2, QueueSafe s r.1.stateData block)
      (.empty, []) blocks) {r : StateDb × List Bytes}
    (hrun : run (fun r b => some (applyBlock codec s r b)) (.empty, []) blocks = some r) :
    queueValues s r.1.stateData = r.2 := by
  refine run_inv (I := fun r => queueValues s r.1.stateData = r.2)
    (P := fun r b => (∀ block ∈ codec.decode b.2, block.UsesAsQueue s) ∧
      ∀ block ∈ codec.decode b.2, QueueSafe s r.1.stateData block)
    (fun hr hP hstep => ?_) rfl ((along_of_forall huse _).and hsafe) hrun
  cases hstep
  exact applyBlock_fifo hr hP.1 hP.2

/-- An encoded block of changes to the state id 7, each at its own timestamp. -/
def queueBlock (changes : List (UInt8 × ChangeOperation)) : Bytes :=
  plainCodec.encode ⟨changes.map fun change =>
    ⟨some (.stateChanges ⟨some [change.1], [⟨7, some change.2⟩]⟩)⟩⟩

/-- Two pushes, then a pop and a push. -/
def pushesThenPop : List (ℕ × Bytes) :=
  [(0, queueBlock [(1, .queuePush (some (.handled [10]))), (2, .queuePush (some (.handled [20])))]),
    (1, queueBlock [(3, .queuePop), (4, .queuePush (some (.handled [30])))])]

theorem queue_is_fifo_three :
    ∃ r, run (fun r b => some (applyBlock plainCodec 7 r b)) (.empty, []) pushesThenPop = some r ∧
      r.2 = [[20], [30]] ∧ queueValues 7 r.1.stateData = r.2 := by
  have hsome : ∃ r ∈ run (fun r b => some (applyBlock plainCodec 7 r b)) (.empty, [])
      pushesThenPop, r.2 = [[20], [30]] := by decide +kernel
  obtain ⟨r, hrun, hqueue⟩ := hsome
  exact ⟨r, hrun, hqueue, queue_is_fifo (by decide +kernel) (by decide +kernel) hrun⟩

/-- An element that is pushed and popped in one block stays. -/
theorem queue_not_fifo : ¬ ∀ (codec : Codec) (s : UInt32) (blocks : List (ℕ × Bytes))
    (r : StateDb × List Bytes),
    (∀ b ∈ blocks, ∀ block ∈ codec.decode b.2, block.UsesAsQueue s) →
    run (fun r b => some (applyBlock codec s r b)) (.empty, []) blocks = some r →
    queueValues s r.1.stateData = r.2 := by
  intro h
  have hsome : ∃ r ∈ run (fun r b => some (applyBlock plainCodec 7 r b)) (.empty, [])
      [(0, queueBlock [(1, .queuePush (some (.handled [10]))), (2, .queuePop)])],
      r.2 = [] ∧ queueValues 7 r.1.stateData = [[10]] := by decide +kernel
  obtain ⟨r, hrun, hqueue, hvalues⟩ := hsome
  have heq := h plainCodec 7 _ r (by decide +kernel) hrun
  rw [hqueue, hvalues] at heq
  cases heq

/-! ### One change and the other states -/

/-- A change to a queue. -/
inductive QueueChange where
  | push (value : Option StateValue)
  | pop

def QueueChange.operation : QueueChange → ChangeOperation
  | push value => .queuePush value
  | pop => .queuePop

/-- One change with a batch of its own, and the batch written. -/
def applyChange (data : SortedMap Bytes Bytes) (timestamp : Bytes) (change : StateChange) :
    Except String (SortedMap Bytes Bytes) :=
  (applySingleStateChange data timestamp [] change).map fun batch =>
    batch.foldl StateOp.apply data

/-- The change leaves all entries of other state ids as they are; a pop of an empty queue leaves
everything as it is. -/
def StaysInside (data : SortedMap Bytes Bytes) (timestamp : Bytes) (s : UInt32)
    (change : QueueChange) : Prop :=
  ∀ data', applyChange data timestamp ⟨s, some change.operation⟩ = .ok data' →
    (∀ key, ¬ Under s key → data'.get key = data.get key) ∧
    (change = .pop → data.part (Under s) = [] → data' = data)

section OneChange

variable {data : SortedMap Bytes Bytes} {timestamp : Bytes} {s : UInt32}

/-- A push writes to a key of its own queue. -/
lemma push_staysInside (value : Option StateValue) :
    StaysInside data timestamp s (.push value) := by
  intro data' hok
  refine ⟨fun key hkey => ?_, fun h => by cases h⟩
  rcases value with _ | value | _
  · cases hok
  · cases hok
    refine SortedMap.get_put_of_ne _ _ fun h => hkey ?_
    rw [h]
    exact under_append.mpr rfl
  · cases hok
    rfl

/-- What a pop leaves: it deletes the entry its cursor stands on. -/
lemma applyChange_pop (data : SortedMap Bytes Bytes) (timestamp : Bytes) (s : UInt32) :
    applyChange data timestamp ⟨s, some .queuePop⟩ =
      .ok (match (data.iterFrom (stateKey s)).head? with
        | some e => data.erase e.1
        | none => data) := by
  unfold applyChange
  rw [applySingleStateChange_queuePop]
  rcases (data.iterFrom (stateKey s)).head? with _ | e <;> rfl

/-- The cursor of a pop on an empty queue stands on an entry of another state id. -/
lemma not_under_of_empty (hempty : data.part (Under s) = []) {e : Bytes × Bytes}
    (he : (data.iterFrom (stateKey s)).head? = some e) :
    ¬ Under s e.1 ∧ data.get e.1 = some e.2 := by
  obtain ⟨hget, -⟩ := SortedMap.mem_iterFrom.mp (List.mem_of_mem_head? he)
  refine ⟨fun hunder => ?_, hget⟩
  have hmem : e ∈ data.part (Under s) :=
    SortedMap.mem_part.mpr ⟨SortedMap.get_eq_some.mp hget, hunder⟩
  rw [hempty] at hmem
  cases hmem

/-- The cursor of a pop on a queue with an element stands on one of its own entries. -/
lemma under_of_nonempty (hne : data.part (Under s) ≠ []) {e : Bytes × Bytes}
    (he : (data.iterFrom (stateKey s)).head? = some e) : Under s e.1 := by
  obtain ⟨first, rest, hpart⟩ := List.exists_cons_of_ne_nil hne
  rw [head_iterFrom hpart] at he
  cases he
  have hmem : e ∈ data.part (Under s) := by
    rw [hpart]
    exact List.mem_cons_self
  exact (SortedMap.mem_part.mp hmem).2

/-- **When a queue change stays inside its queue.** A push always does; a pop does unless the
queue is empty and something is stored at or after the four bytes of its state id. -/
theorem queueChange_staysInside_iff (data : SortedMap Bytes Bytes) (timestamp : Bytes)
    (s : UInt32) (change : QueueChange) :
    StaysInside data timestamp s change ↔
      (change = .pop → data.part (Under s) = [] → data.iterFrom (stateKey s) = []) := by
  cases change with
  | push value => exact ⟨fun _ h => (by cases h), fun _ => push_staysInside value⟩
  | pop =>
    have hpop := applyChange_pop data timestamp s
    rcases hhead : (data.iterFrom (stateKey s)).head? with _ | e
    · -- nothing lies at or after the state id, and the pop does nothing
      rw [hhead] at hpop
      refine ⟨fun _ _ _ => List.head?_eq_none_iff.mp hhead, fun _ data' hok => ?_⟩
      obtain rfl : data = data' := Except.ok.inj (hpop.symm.trans hok)
      exact ⟨fun _ _ => rfl, fun _ _ => rfl⟩
    · rw [hhead] at hpop
      constructor
      · -- the deleted entry belongs to another state id
        intro hstays _ hempty
        obtain ⟨hunder, hget⟩ := not_under_of_empty hempty hhead
        have hkept := (hstays _ hpop).1 e.1 hunder
        simp only [SortedMap.get_erase, if_true, hget] at hkept
        cases hkept
      · intro hcond data' hok
        have hne : data.part (Under s) ≠ [] := by
          intro hempty
          rw [hcond rfl hempty] at hhead
          cases hhead
        obtain rfl : data.erase e.1 = data' := Except.ok.inj (hpop.symm.trans hok)
        refine ⟨fun key hkey => ?_, fun _ hempty => absurd hempty hne⟩
        rw [SortedMap.get_erase, if_neg]
        rintro rfl
        exact hkey (under_of_nonempty hne hhead)

/-- One entry, of the state id 8. -/
def otherState : SortedMap Bytes Bytes := SortedMap.empty.put (stateKey 8) [1]

/-- A pop of the empty queue 7 takes the entry of the state id 8. -/
theorem queueChange_not_staysInside :
    ¬ ∀ (data : SortedMap Bytes Bytes) (timestamp : Bytes) (s : UInt32) (change : QueueChange),
      StaysInside data timestamp s change := by
  intro h
  have hpop : applyChange otherState [] ⟨7, some .queuePop⟩ =
      .ok (otherState.erase (stateKey 8)) := rfl
  have hsame := (h otherState [] 7 .pop _ hpop).2 rfl (by decide)
  have hget := congrArg (fun data => data.get (stateKey 8)) hsame
  simp [otherState, SortedMap.get_erase] at hget

end OneChange

end RockNode
