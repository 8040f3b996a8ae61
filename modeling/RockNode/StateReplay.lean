import RockNode.StatePlugin
import RockNode.Runs

/-!
What the state says about the blocks: the state of a plugin that has processed block `n` is the
replay of the blocks `0` to `n`, as long as the catch-up can read what it asks for.
-/

namespace RockNode

/-- The state after the given blocks, from the empty one. -/
def replay (codec : Codec) (blocks : List (ℕ × Bytes)) : Except String StateDb :=
  blocks.foldlM (fun db block => applyStateChanges codec db block.1 block.2) .empty

/-- Whenever block `n` is recorded as processed, the state is that of the blocks `0, 1, …, n`,
each applied once and in this order. -/
def StatePlugin.GapFree (codec : Codec) (plugin : StatePlugin) : Prop :=
  ∀ n, getLastProcessedBlock plugin.db = some n →
    plugin.applied.map Prod.fst = List.range (n + 1) ∧
      replay codec plugin.applied = .ok plugin.db

/-! ### When a block can be applied -/

/-- The change has every field that `apply_single_state_change` asks for. -/
def StateChange.complete (change : StateChange) : Bool :=
  match change.changeOperation with
  | some (.mapUpdate key value) => key.isSome && value.isSome
  | some (.mapDelete key) => key.isSome
  | some (.singletonUpdate value) => value.isSome
  | some (.queuePush value) => value.isSome
  | _ => true

def BlockItem.complete (item : BlockItem) : Bool :=
  match item.item with
  | some (.stateChanges set) =>
    set.consensusTimestamp.isSome && set.stateChanges.all StateChange.complete
  | _ => true

/-- Each set of changes has a timestamp and each change its fields. -/
def Block.complete (block : Block) : Bool := block.items.all BlockItem.complete

section Complete

variable {ε α β : Type}

lemma exists_foldlM_ok {f : β → α → Except ε β} {l : List α}
    (h : ∀ b, ∀ a ∈ l, ∃ b', f b a = .ok b') (b : β) : ∃ b', l.foldlM f b = .ok b' := by
  induction l generalizing b with
  | nil => exact ⟨b, rfl⟩
  | cons a l ih =>
    obtain ⟨b', hb'⟩ := h b a List.mem_cons_self
    obtain ⟨b'', hb''⟩ := ih (fun b a ha => h b a (List.mem_cons_of_mem _ ha)) b'
    refine ⟨b'', ?_⟩
    rw [List.foldlM_cons, hb']
    exact hb''

end Complete

lemma applySingleStateChange_complete (data : SortedMap Bytes Bytes) (timestamp : Bytes)
    (batch : List StateOp) {change : StateChange} (h : change.complete) :
    ∃ batch', applySingleStateChange data timestamp batch change = .ok batch' := by
  rcases change with ⟨stateId, _ | op⟩
  · exact ⟨batch, rfl⟩
  simp only [StateChange.complete] at h
  cases op with
  | mapUpdate key value =>
    simp only [Bool.and_eq_true, Option.isSome_iff_exists] at h
    obtain ⟨⟨key, rfl⟩, value, rfl⟩ := h
    exact ⟨_, rfl⟩
  | mapDelete key =>
    obtain ⟨key, rfl⟩ := Option.isSome_iff_exists.mp h
    exact ⟨_, rfl⟩
  | singletonUpdate value =>
    obtain ⟨_ | _, rfl⟩ := Option.isSome_iff_exists.mp h <;> exact ⟨_, rfl⟩
  | queuePush value =>
    obtain ⟨_ | _, rfl⟩ := Option.isSome_iff_exists.mp h <;> exact ⟨_, rfl⟩
  | queuePop =>
    -- a pop takes the first key the iterator finds, if there is one
    unfold applySingleStateChange
    dsimp only
    rcases (data.iterFrom (toBE 4 stateId.toNat)).head? with _ | ⟨key, value⟩ <;> exact ⟨_, rfl⟩
  | other => exact ⟨_, rfl⟩

lemma applyItem_complete (data : SortedMap Bytes Bytes) (batch : List StateOp) {item : BlockItem}
    (h : item.complete) : ∃ batch', applyItem data batch item = .ok batch' := by
  unfold BlockItem.complete at h
  unfold applyItem
  split
  · next set hset =>
    simp only [hset, Bool.and_eq_true, List.all_eq_true, Option.isSome_iff_exists] at h
    obtain ⟨⟨timestamp, hts⟩, hchanges⟩ := h
    rw [hts]
    exact exists_foldlM_ok
      (fun batch change hc => applySingleStateChange_complete _ _ _ (hchanges change hc)) batch
  · exact ⟨batch, rfl⟩

/-- A block that can be decoded and lacks no field can be applied in any state. -/
lemma applyStateChanges_complete {codec : Codec} {contents : Bytes} {block : Block}
    (hdec : codec.decode contents = some block) (h : block.complete) (db : StateDb) (n : ℕ) :
    ∃ db', applyStateChanges codec db n contents = .ok db' := by
  obtain ⟨batch, hbatch⟩ := exists_foldlM_ok
    (fun batch item hi => applyItem_complete db.stateData batch (List.all_eq_true.mp h item hi)) []
  refine ⟨⟨batch.foldl StateOp.apply db.stateData, some (toBE 8 n)⟩, ?_⟩
  unfold applyStateChanges
  rw [hdec]
  simp only [hbatch]
  rfl

/-! ### Runs of the plugin -/

/-- The block that the storage holds under the number, if it can be read and decoded. -/
def StateEnv.stored (codec : Codec) (env : StateEnv) (b : ℕ) : Option Block :=
  match env.readBlock b with
  | .ok (some contents) => codec.decode contents
  | _ => none

/-- A catch-up that is about to read block `b` finds it in storage, with every field. -/
def CatchUpReads (codec : Codec) (plugin : StatePlugin) : StateAct → Prop
  | .advance env =>
    match plugin.loop with
    | .catchingUp _ b => (env.stored codec b).any Block.complete = true
    | _ => True
  | _ => True

instance (codec : Codec) (plugin : StatePlugin) (act : StateAct) :
    Decidable (CatchUpReads codec plugin act) :=
  match plugin, act with
  | ⟨_, .catchingUp _ b, _⟩, .advance env =>
    inferInstanceAs (Decidable ((env.stored codec b).any Block.complete = true))
  | ⟨_, .stopped, _⟩, .advance _ => isTrue trivial
  | ⟨_, .waiting _, _⟩, .advance _ => isTrue trivial
  | ⟨_, .applying _, _⟩, .advance _ => isTrue trivial
  | _, .start => isTrue trivial
  | _, .receive _ => isTrue trivial
  | _, .stop => isTrue trivial

/-- The number recorded after `k` blocks. -/
def lastOf : ℕ → Option ℕ
  | 0 => none
  | k + 1 => some k

/-- What the loop is about to do fits the number of blocks applied so far. -/
def StateLoop.Next (k : ℕ) : StateLoop → Prop
  | .stopped => True
  | .waiting last => last = lastOf k
  | .catchingUp event b => b = k ∧ k < event.blockNumber.toNat
  | .applying event => event.blockNumber.toNat = k

/-- The first `k` blocks have been applied and nothing else. -/
structure StatePlugin.Replayed (codec : Codec) (plugin : StatePlugin) : Prop where
  numbers : plugin.applied.map Prod.fst = List.range plugin.applied.length
  last : getLastProcessedBlock plugin.db = lastOf plugin.applied.length
  replay : replay codec plugin.applied = .ok plugin.db
  next : plugin.loop.Next plugin.applied.length

lemma getLastProcessedBlock_toBE {data : SortedMap Bytes Bytes} {n : ℕ} (h : n ≤ u64Max) :
    getLastProcessedBlock ⟨data, some (toBE 8 n)⟩ = some n := by
  have hn : n < 256 ^ 8 := by norm_num [u64Max] at h ⊢; omega
  simp [getLastProcessedBlock, ofBE_toBE_of_lt hn]

namespace StatePlugin

variable {cfg : Config} {codec : Codec} {plugin plugin' : StatePlugin}

lemma init_replayed : init.Replayed codec :=
  ⟨rfl, rfl, rfl, trivial⟩

lemma Replayed.state_eq (h : plugin.Replayed codec) : plugin.GapFree codec := by
  intro n hn
  have hlen : plugin.applied.length = n + 1 := by
    rw [h.last] at hn
    rcases hk : plugin.applied.length with _ | k
    · rw [hk] at hn; cases hn
    · rw [hk] at hn; cases hn; rfl
  exact ⟨hlen ▸ h.numbers, h.replay⟩

/-- The number in the database is that of the batch written last. -/
lemma applyStateChanges_last {db db' : StateDb} {n : ℕ} {contents : Bytes}
    (h : applyStateChanges codec db n contents = .ok db') (hn : n ≤ u64Max) :
    getLastProcessedBlock db' = some n := by
  unfold applyStateChanges at h
  split at h
  · cases h
  · next block _ =>
    rcases hbatch : block.items.foldlM (applyItem db.stateData) [] with _ | batch
    · rw [hbatch] at h; cases h
    · rw [hbatch] at h
      cases h
      exact getLastProcessedBlock_toBE hn

/-- A block that can be applied goes into the state and onto the record. -/
lemma apply_eq_ok {n : ℕ} {contents : Bytes} (h : plugin.apply codec n contents = .ok plugin') :
    ∃ db, applyStateChanges codec plugin.db n contents = .ok db ∧
      plugin' = { plugin with db := db, applied := plugin.applied ++ [(n, contents)] } := by
  unfold StatePlugin.apply at h
  rcases hdb : applyStateChanges codec plugin.db n contents with _ | db
  · rw [hdb] at h
    cases h
  · rw [hdb] at h
    exact ⟨db, rfl, (Except.ok.inj h).symm⟩

/-- The batch of the next block in line keeps the record, wherever the loop goes on. -/
lemma Replayed.apply {n : ℕ} {contents : Bytes} {loop : StateLoop} (h : plugin.Replayed codec)
    (hn : n = plugin.applied.length) (hle : n ≤ u64Max)
    (happly : plugin.apply codec n contents = .ok plugin') (hnext : loop.Next (n + 1)) :
    { plugin' with loop := loop }.Replayed codec := by
  obtain ⟨db, hdb, rfl⟩ := apply_eq_ok happly
  have hlen : (plugin.applied ++ [(n, contents)]).length = n + 1 := by simp [hn]
  refine ⟨?_, ?_, ?_, ?_⟩
  · rw [hlen, List.range_succ, List.map_append, h.numbers, ← hn]
    rfl
  · simp only [hlen, lastOf]
    exact applyStateChanges_last hdb hle
  · have hreplay := h.replay
    unfold RockNode.replay at hreplay ⊢
    rw [List.foldlM_append, hreplay]
    change (applyStateChanges codec plugin.db n contents >>= pure) = .ok db
    rw [hdb]
    rfl
  · simpa only [hlen] using hnext

/-- A change of the loop alone. -/
lemma Replayed.of_loop (h : plugin.Replayed codec) {loop : StateLoop}
    (hnext : loop.Next plugin.applied.length) : { plugin with loop := loop }.Replayed codec :=
  ⟨h.numbers, h.last, h.replay, hnext⟩

lemma receive_next {k : ℕ} (event : BlockPersisted) : (receive (lastOf k) event).Next k := by
  have hexp : ∀ expected, (lastOf k).elim (some 0) (checkedAdd · 1) = some expected →
      expected = k := by
    intro expected h
    rcases k with _ | k
    · simpa [lastOf] using h.symm
    · simp only [lastOf, Option.elim_some, checkedAdd, Option.ite_none_right_eq_some,
        Option.some.injEq] at h
      exact h.2.symm
  unfold receive
  split
  · trivial
  · next expected h =>
    obtain rfl := hexp expected h
    split_ifs with hlt hgt
    · rfl
    · exact ⟨rfl, hgt⟩
    · exact Nat.le_antisymm (Nat.not_lt.mp hgt) (Nat.not_lt.mp hlt)

lemma applyFromStorage_complete (plugin : StatePlugin) {env : StateEnv} {b : ℕ}
    (h : (env.stored codec b).any Block.complete = true) :
    ∃ contents plugin', plugin.apply codec b contents = .ok plugin' ∧
      plugin.applyFromStorage codec env b = .ok plugin' := by
  obtain ⟨block, hblock, hcomplete⟩ := (Option.any_eq_true _ _).mp h
  unfold StateEnv.stored at hblock
  split at hblock
  · next contents hread =>
    obtain ⟨db, hdb⟩ := applyStateChanges_complete hblock hcomplete plugin.db b
    have happly : plugin.apply codec b contents =
        .ok { plugin with db := db, applied := plugin.applied ++ [(b, contents)] } := by
      unfold StatePlugin.apply
      rw [hdb]
      rfl
    refine ⟨contents, _, happly, ?_⟩
    unfold applyFromStorage
    rw [hread]
    exact happly
  · cases hblock

/-- A catch-up that finds its block comes closer to the event. -/
lemma catchUp_replayed {env : StateEnv} {event : BlockPersisted} {b : ℕ}
    (h : plugin.Replayed codec) (hloop : plugin.loop = .catchingUp event b)
    (hread : (env.stored codec b).any Block.complete = true) :
    (plugin.catchUp codec env event b).Replayed codec := by
  obtain ⟨rfl, hlt⟩ : b = plugin.applied.length ∧
      plugin.applied.length < event.blockNumber.toNat := by
    have := h.next
    rwa [hloop] at this
  obtain ⟨contents, plugin', happly, hstorage⟩ := plugin.applyFromStorage_complete hread
  have hle : plugin.applied.length ≤ u64Max := by
    have := event.blockNumber.toNat_lt
    unfold u64Max
    omega
  unfold catchUp
  rw [hstorage]
  refine h.apply rfl hle happly ?_
  split_ifs with hmore
  · exact ⟨rfl, hmore⟩
  · exact Nat.le_antisymm (Nat.not_lt.mp hmore) hlt

lemma applyEvent_replayed {env : StateEnv} {event : BlockPersisted} (h : plugin.Replayed codec)
    (hloop : plugin.loop = .applying event) :
    (plugin.applyEvent codec env event).Replayed codec := by
  have hn : event.blockNumber.toNat = plugin.applied.length := by
    have := h.next
    rwa [hloop] at this
  have hle : event.blockNumber.toNat ≤ u64Max := by
    have := event.blockNumber.toNat_lt
    unfold u64Max
    omega
  unfold applyEvent
  rcases hev : plugin.applyFromBlockEvent codec env event with _ | plugin'
  · exact h.of_loop trivial
  · unfold applyFromBlockEvent at hev
    split at hev
    · cases hev
    · next data _ => exact h.apply hn hle hev rfl

/-- **One step.** Wherever the node is cut off, the blocks applied stay `0, 1, 2, …`. -/
lemma step_replayed {act : StateAct} (h : plugin.Replayed codec)
    (hreads : CatchUpReads codec plugin act) (hstep : plugin.step cfg codec act = some plugin') :
    plugin'.Replayed codec := by
  cases act with
  | start =>
    cases hstep
    unfold start
    split_ifs
    · exact h.of_loop trivial
    · exact h.of_loop h.last
  | receive event =>
    simp only [step] at hstep
    split at hstep
    · next last hloop =>
      cases hstep
      have hlast : last = lastOf plugin.applied.length := by
        have := h.next
        rwa [hloop] at this
      exact h.of_loop (hlast ▸ receive_next event)
    · cases hstep
  | advance env =>
    simp only [step, advance] at hstep
    split at hstep
    · next event b hloop =>
      cases hstep
      exact catchUp_replayed h hloop (by simpa only [CatchUpReads, hloop] using hreads)
    · next event hloop =>
      cases hstep
      exact applyEvent_replayed h hloop
    · cases hstep
  | stop =>
    simp only [step] at hstep
    split at hstep
    · cases hstep
      exact h.of_loop trivial
    · cases hstep

end StatePlugin

/-! ### Where the blocks come from -/

namespace StatePlugin

variable {cfg : Config} {codec : Codec} {plugin plugin' : StatePlugin}

/-- What a step has at hand as block `n`: the storage's block `n` in the catch-up, and for the
event of block `n` what the cache holds under its key. -/
def HasAtHand (plugin : StatePlugin) (act : StateAct) (n : ℕ) (contents : Bytes) : Prop :=
  ∃ env, act = .advance env ∧
    ((∃ event, plugin.loop = .catchingUp event n ∧ env.readBlock n = .ok (some contents)) ∨
      ∃ event data, plugin.loop = .applying event ∧ event.blockNumber.toNat = n ∧
        env.cached event.cacheKey = some data ∧ data.contents = contents)

/-- **One step** applies one block at most, and only what it has at hand. -/
lemma step_applied {act : StateAct} (hstep : plugin.step cfg codec act = some plugin') :
    plugin'.applied = plugin.applied ∨ ∃ n contents, plugin.HasAtHand act n contents ∧
      plugin'.applied = plugin.applied ++ [(n, contents)] := by
  cases act with
  | start =>
    cases hstep
    unfold start
    split_ifs <;> exact Or.inl rfl
  | receive event | stop =>
    simp only [step] at hstep
    split at hstep <;> cases hstep
    exact Or.inl rfl
  | advance env =>
    simp only [step, advance] at hstep
    split at hstep
    · next event b hloop =>
      cases hstep
      unfold catchUp applyFromStorage
      rcases hread : env.readBlock b with message | _ | contents
      · exact Or.inl rfl
      · exact Or.inl rfl
      · dsimp only
        split
        · next happly =>
          obtain ⟨db, -, rfl⟩ := apply_eq_ok happly
          exact Or.inr ⟨b, contents, ⟨env, rfl, Or.inl ⟨event, hloop, hread⟩⟩, rfl⟩
        · exact Or.inl rfl
    · next event hloop =>
      cases hstep
      unfold applyEvent applyFromBlockEvent
      rcases hcached : env.cached event.cacheKey with _ | data
      · exact Or.inl rfl
      · dsimp only
        split
        · next happly =>
          obtain ⟨db, -, rfl⟩ := apply_eq_ok happly
          exact Or.inr ⟨_, data.contents,
            ⟨env, rfl, Or.inr ⟨event, data, hloop, rfl, hcached, rfl⟩⟩, rfl⟩
        · exact Or.inl rfl
    · cases hstep

/-- **Nothing is made up.** In every run each block applied is what the storage or the cache gave
for its number in some step of the run. -/
theorem applied_supplied {actions : List StateAct}
    (hrun : run (step cfg codec) init actions = some plugin) :
    ∀ block ∈ plugin.applied, ∃ before act after plugin₀, actions = before ++ act :: after ∧
      run (step cfg codec) init before = some plugin₀ ∧ plugin₀.HasAtHand act block.1 block.2 := by
  refine run_inv (I := fun plugin => ∀ block ∈ plugin.applied, ∃ before act after plugin₀,
    actions = before ++ act :: after ∧ run (step cfg codec) init before = some plugin₀ ∧
      plugin₀.HasAtHand act block.1 block.2) ?_ (fun block hblock => by cases hblock)
    (along_taken init actions) hrun
  rintro plugin act plugin' h ⟨before, after, hactions, hbefore⟩ hstep
  rcases step_applied hstep with hsame | ⟨n, contents, hhas, hnew⟩
  · rwa [hsame]
  · intro block hblock
    rw [hnew, List.mem_append, List.mem_singleton] at hblock
    rcases hblock with hold | rfl
    · exact h block hold
    · exact ⟨before, act, after, plugin, hactions, hbefore, hhas⟩

end StatePlugin

/-- **The state has no gaps.** In every run in which the catch-up finds the blocks it asks the
storage for, whatever the events, the cache and the restarts, the state recorded for block `n`
is that of the blocks `0` to `n`. -/
theorem gapFree {cfg : Config} {codec : Codec} {actions : List StateAct} {plugin : StatePlugin}
    (hreads : Along (StatePlugin.step cfg codec) (CatchUpReads codec) .init actions)
    (hrun : run (StatePlugin.step cfg codec) .init actions = some plugin) :
    plugin.GapFree codec :=
  (run_inv (fun h hC hs => StatePlugin.step_replayed h hC hs)
    StatePlugin.init_replayed hreads hrun).state_eq

/-- A block that sets one singleton. -/
def singletonBlock (n : UInt64) (stateId : UInt32) : Block :=
  ⟨[⟨some (.blockHeader ⟨n, []⟩)⟩,
    ⟨some (.stateChanges ⟨some [], [⟨stateId, some (.singletonUpdate (some (.handled [1])))⟩]⟩)⟩]⟩

/-- Block 1 in the cache under the key 7; the storage is given. -/
def cachedOne (readBlock : ℕ → Except String (Option Bytes)) : StateEnv where
  readBlock := readBlock
  cached key :=
    if key = 7 then some ⟨1, plainCodec.encode (singletonBlock 1 1)⟩ else none

/-- The event of block 1 comes first; block 0 is caught up on from the storage. -/
def lateStart (readBlock : ℕ → Except String (Option Bytes)) : List StateAct :=
  [.start, .receive ⟨1, 7⟩, .advance (cachedOne readBlock), .start, .receive ⟨1, 7⟩,
    .advance (cachedOne readBlock)]

def storedZero (b : ℕ) : Except String (Option Bytes) :=
  .ok (if b = 0 then some (plainCodec.encode (singletonBlock 0 0)) else none)

theorem gapFree_restarted : ∃ plugin,
    run (StatePlugin.step zeroConfig plainCodec) .init (lateStart storedZero) = some plugin ∧
      getLastProcessedBlock plugin.db = some 1 ∧ plugin.GapFree plainCodec := by
  have hsome : ∃ plugin ∈ run (StatePlugin.step zeroConfig plainCodec) .init
      (lateStart storedZero), getLastProcessedBlock plugin.db = some 1 := by decide +kernel
  obtain ⟨plugin, hrun, hlast⟩ := hsome
  exact ⟨plugin, hrun, hlast, gapFree (by decide +kernel) hrun⟩

/-- The storage has no block 0: block 1 is applied to the empty state and recorded. -/
theorem gapFree_broken : ∃ plugin,
    run (StatePlugin.step zeroConfig plainCodec) .init
        [.start, .receive ⟨1, 7⟩, .advance (cachedOne fun _ => .ok none),
          .advance (cachedOne fun _ => .ok none)] = some plugin ∧
      ¬ plugin.GapFree plainCodec := by
  have hsome : ∃ plugin ∈ run (StatePlugin.step zeroConfig plainCodec) .init
      [.start, .receive ⟨1, 7⟩, .advance (cachedOne fun _ => .ok none),
        .advance (cachedOne fun _ => .ok none)],
      getLastProcessedBlock plugin.db = some 1 ∧ plugin.applied.map Prod.fst = [1] := by
    decide +kernel
  obtain ⟨plugin, hrun, hlast, happlied⟩ := hsome
  refine ⟨plugin, hrun, fun h => ?_⟩
  have hnumbers := (h 1 hlast).1
  rw [happlied] at hnumbers
  exact absurd hnumbers (by decide)

end RockNode
