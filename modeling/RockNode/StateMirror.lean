import RockNode.AccountQueries
import RockNode.Backfill
import RockNode.CacheRace
import RockNode.Ledger
import RockNode.Lives
import RockNode.MixedState

/-!
From what publishers send to what a query answers.

A block reaches the state from the cache, or from storage when the plugin has to catch up. In
either case it is a block that persistence has committed under its number. So the state is the
replay of blocks of the store, whatever the order in which sessions, verifier, persistence and
state plugin take their turns and wherever the process dies, and a query answers with the last
change in these blocks. The blocks that were stored before a crash and not applied are made up
for as soon as the plugin finds an event's block in the cache, and so are those that the backfill
worker has written and those whose events were lost.
-/

namespace RockNode

variable {cfg : PipelineConfig} {codec : Codec}

/-! ### The store -/

/-- No block lacks a field, and every number below one that is committed is committed too. -/
structure Store.Dense (s : Store) : Prop where
  complete : ∀ entry ∈ s.log, entry.2.complete = true
  below : ∀ {n}, s.Committed n → ∀ m < n, s.Committed m

namespace Store

variable {s : Store} {block : Block}

lemma init_dense (cfg : Config) : (init cfg).Dense :=
  ⟨fun _ h => (by cases h), fun ⟨_, h⟩ => (by cases h)⟩

/-- The block lacks no field, and the blocks below it are stored. -/
def Next (s : Store) (block : Block) : Prop :=
  block.complete = true ∧ ∀ n ∈ getBlockNumber block, ∀ m < n, (s.last m).isSome = true

instance (s : Store) (block : Block) : Decidable (s.Next block) :=
  inferInstanceAs (Decidable (_ ∧ _))

lemma Next.below (h : s.Next block) {n m : ℕ} (hn : getBlockNumber block = some n) (hm : m < n) :
    s.Committed m := by
  obtain ⟨old, hold⟩ := Option.isSome_iff_exists.mp (h.2 n hn m hm)
  obtain ⟨l₁, l₂, hlog, -⟩ := List.lookup_eq_some_iff.mp hold
  exact ⟨old, by rw [hlog]; simp⟩

lemma Dense.write {cfg : Config} (h : s.Dense) (hnext : s.Next block) :
    (s.write cfg codec block).Dense := by
  rcases s.write_cases cfg codec block with hs | ⟨n, hn, hlog, -⟩
  · rwa [hs]
  refine ⟨fun entry he => ?_, fun {k} hk m hm => ?_⟩
  · rw [hlog] at he
    rcases List.mem_cons.mp he with rfl | he
    · exact hnext.1
    · exact h.complete entry he
  · refine Committed.write (?_ : s.Committed m) block
    obtain ⟨b, hb⟩ := hk
    rw [hlog] at hb
    rcases List.mem_cons.mp hb with heq | hb
    · cases heq
      exact hnext.below hn hm
    · exact h.below ⟨b, hb⟩ m hm

end Store

/-! ### The state -/

namespace StatePlugin

variable {plugin plugin' : StatePlugin} {s s' : Store}

/-- What has been applied are blocks of the store. -/
def AppliedFrom (codec : Codec) (s : Store) (applied : List (ℕ × Bytes)) : Prop :=
  ∃ blocks ⊆ s.log, applied = blocks.map fun block => (block.1, codec.encode block.2)

/-- The state is that of blocks of the store. -/
structure Mirrors (codec : Codec) (plugin : StatePlugin) (s : Store) : Prop where
  replayed : plugin.Replayed codec
  stored : AppliedFrom codec s plugin.applied

lemma init_mirrors (s : Store) : init.Mirrors codec s :=
  ⟨init_replayed, [], List.nil_subset _, rfl⟩

lemma Mirrors.mono (h : plugin.Mirrors codec s) (hlog : s.log ⊆ s'.log) :
    plugin.Mirrors codec s' := by
  obtain ⟨hreplayed, blocks, hsub, happlied⟩ := h
  exact ⟨hreplayed, blocks, List.Subset.trans hsub hlog, happlied⟩

lemma Mirrors.start (h : plugin.Mirrors codec s) (cfg : Config) :
    (plugin.start cfg).Mirrors codec s := by
  unfold StatePlugin.start
  split_ifs
  · exact ⟨h.replayed.of_loop trivial, h.stored⟩
  · exact ⟨h.replayed.of_loop h.replayed.last, h.stored⟩

/-- The number recorded says which blocks have been applied. -/
lemma Mirrors.exists_blocks (h : plugin.Mirrors codec s) {n : ℕ}
    (hn : getLastProcessedBlock plugin.db = some n) :
    ∃ blocks ⊆ s.log, blocks.map Prod.fst = List.range (n + 1) ∧
      replay codec (blocks.map fun block => (block.1, codec.encode block.2)) =
        .ok plugin.db := by
  obtain ⟨blocks, hsub, happlied⟩ := h.stored
  obtain ⟨hnumbers, hreplay⟩ := h.replayed.state_eq n hn
  rw [happlied] at hnumbers hreplay
  refine ⟨blocks, hsub, ?_, hreplay⟩
  rw [← hnumbers, List.map_map]
  rfl

lemma AppliedFrom.apply {n : ℕ} {block : Block} (h : AppliedFrom codec s plugin.applied)
    (hmem : (n, block) ∈ s.log) (happly : plugin.apply codec n (codec.encode block) = .ok plugin') :
    AppliedFrom codec s plugin'.applied := by
  obtain ⟨blocks, hsub, happlied⟩ := h
  obtain ⟨db, -, rfl⟩ := StatePlugin.apply_eq_ok happly
  refine ⟨blocks ++ [(n, block)], ?_, by simp [happlied]⟩
  exact List.append_subset.mpr ⟨hsub, List.cons_subset.mpr ⟨hmem, List.nil_subset _⟩⟩

/-- A catch-up reads a block of the store. -/
lemma Mirrors.catchUp (h : plugin.Mirrors codec s) {env : StateEnv} {event : BlockPersisted}
    {b : ℕ} {block : Block} (hloop : plugin.loop = .catchingUp event b)
    (hread : env.readBlock b = .ok (some (codec.encode block))) (hmem : (b, block) ∈ s.log)
    (hcomplete : block.complete = true) : (plugin.catchUp codec env event b).Mirrors codec s := by
  have hstored : env.stored codec b = some block := by
    simp [StateEnv.stored, hread, codec.decode_encode]
  refine ⟨catchUp_replayed h.replayed hloop (by simp [hstored, hcomplete]), ?_⟩
  unfold StatePlugin.catchUp
  split
  · next plugin' hok =>
    have happly : plugin.apply codec b (codec.encode block) = .ok plugin' := by
      simpa [applyFromStorage, hread] using hok
    have hstored' := h.stored.apply hmem happly
    exact hstored'
  · exact h.stored

/-- What is under the key of an event is a block of the store. -/
lemma Mirrors.applyEvent (h : plugin.Mirrors codec s) {env : StateEnv} {event : BlockPersisted}
    {block : Block} (hloop : plugin.loop = .applying event)
    (hcached : ∀ data, env.cached event.cacheKey = some data →
      data.contents = codec.encode block)
    (hmem : (event.blockNumber.toNat, block) ∈ s.log) :
    (plugin.applyEvent codec env event).Mirrors codec s := by
  refine ⟨applyEvent_replayed h.replayed hloop, ?_⟩
  unfold StatePlugin.applyEvent
  split
  · next plugin' hok =>
    unfold applyFromBlockEvent at hok
    split at hok
    · cases hok
    · next data hdata =>
      rw [hcached data hdata] at hok
      have hstored := h.stored.apply hmem hok
      exact hstored
  · exact h.stored

end StatePlugin

/-! ### The node -/

/-- Under the key there is the block, or nothing any more. -/
def BlockDataCache.Keeps (codec : Codec) (cache : BlockDataCache) (key : ℕ) (block : Block) :
    Prop :=
  key < cache.nextKey ∧
    ∀ data, cache.get key = some data → data.contents = codec.encode block

lemma BlockDataCache.Keeps.mono {cache cache' : BlockDataCache} {key : ℕ} {block : Block}
    (h : cache.Keeps codec key block) (hlater : cache.Later cache') :
    cache'.Keeps codec key block := by
  refine ⟨lt_of_lt_of_le h.1 hlater.nextKey_le, fun data hdata => ?_⟩
  rcases hlater.get_eq key h.1 with hnone | hsame
  · rw [hnone] at hdata
    cases hdata
  · exact h.2 data (hsame ▸ hdata)

/-- The block about to be stored is the next one. -/
def PersistTask.StoresNext (s : Store) : PersistTask → Prop
  | .write _ block => s.Next block
  | _ => True

instance (s : Store) (task : PersistTask) : Decidable (task.StoresNext s) :=
  match task with
  | .write _ block => inferInstanceAs (Decidable (s.Next block))
  | .idle | .fetch _ | .broadcast _ | .mark _ => isTrue trivial

/-- Persistence stores the blocks in the order of their numbers, from block 0 on. -/
def StoresInOrder : Pipeline → PipelineAct → Prop :=
  AtPersister fun p => p.persister.StoresNext p.store

instance (p : Pipeline) (act : PipelineAct) : Decidable (StoresInOrder p act) :=
  inferInstanceAs (Decidable (AtPersister _ p act))

namespace Pipeline

variable {p p' : Pipeline}

/-- The event announces a block of the store. -/
def Filed (codec : Codec) (p : Pipeline) (event : BlockEvent) : Prop :=
  ∃ block, (event.blockNumber.toNat, block) ∈ p.store.log ∧
    p.world.cache.Keeps codec event.cacheKey block

/-- The events on their way to the state, from the write on. -/
def toState (p : Pipeline) : List BlockEvent :=
  p.persister.announcing.toList ++ p.announced

/-- The state mirrors the store, and so will what is on its way. -/
structure Mirrored (codec : Codec) (p : Pipeline) : Prop where
  sound : p.Sound codec
  dense : p.store.Dense
  mirrors : p.statePlugin.Mirrors codec p.store
  writing : ∀ {event block}, p.persister = .write event block →
    p.world.cache.Keeps codec event.cacheKey block
  filed : ∀ event ∈ p.toState, p.Filed codec event

/-- Steps that leave the store alone: the cache may lose entries and get new ones, and the events
for the state may be passed on or dropped. -/
lemma Mirrored.move (h : p.Mirrored codec) (hsound : p'.Sound codec)
    (hlater : p.world.cache.Later p'.world.cache) (hstore : p'.store = p.store)
    (hmirrors : p'.statePlugin.Mirrors codec p.store)
    (hwriting : ∀ {event block}, p'.persister = .write event block →
      p.world.cache.Keeps codec event.cacheKey block)
    (hevents : p'.toState ⊆ p.toState) : p'.Mirrored codec where
  sound := hsound
  dense := hstore ▸ h.dense
  mirrors := hstore ▸ hmirrors
  writing hwrite := (hwriting hwrite).mono hlater
  filed event he := by
    obtain ⟨block, hmem, hkeeps⟩ := h.filed event (hevents he)
    exact ⟨block, hstore ▸ hmem, hkeeps.mono hlater⟩

/-- What `process_event` is about to write is what the cache has under the key. -/
lemma fetchBlock_keeps (h : p.Sound codec) {event event' : BlockEvent} {block : Block}
    (here : p.persister = .fetch event)
    (hfetch : Pipeline.fetchBlock codec p.world.cache event = .write event' block) :
    p.world.cache.Keeps codec event'.cacheKey block := by
  have hmatches : p.world.cache.Matches event := by
    have := h.persister
    rwa [here] at this
  unfold Pipeline.fetchBlock at hfetch
  split at hfetch
  · next data hdata =>
    split at hfetch
    · next found hfound =>
      cases hfetch
      obtain ⟨labelled, hcontents, -⟩ := h.world.cached _ data hdata
      rw [hcontents, codec.decode_encode] at hfound
      cases hfound
      refine ⟨hmatches.1, fun data' hdata' => ?_⟩
      rw [hdata] at hdata'
      cases hdata'
      exact hcontents
    · cases hfetch
  · cases hfetch

/-- A commit adds a block, and its event is announced next. -/
lemma write_mirrored (h : p.Mirrored codec) {event : BlockEvent} {block : Block}
    (here : p.persister = .write event block) (hnext : p.persister.StoresNext p.store)
    {task : PersistTask}
    (htask : task = match (writeBlock cfg.persistence codec block p.store.db).2 with
      | .ok _ => .broadcast event
      | .err => .mark event)
    (hsound : { p with
      store := p.store.write cfg.persistence codec block, persister := task }.Sound codec) :
    { p with store := p.store.write cfg.persistence codec block, persister := task }.Mirrored
      codec := by
  rw [here] at hnext
  have hsub := Store.log_subset_write cfg.persistence codec p.store block
  refine ⟨hsound, h.dense.write hnext, h.mirrors.mono hsub, ?_, ?_⟩
  · intro e b hwrite
    simp only [htask] at hwrite
    split at hwrite <;> cases hwrite
  · intro e he
    rcases List.mem_append.mp he with hnew | hold
    · simp only [htask] at hnew
      split at hnew
      · next hok =>
        cases List.mem_singleton.mp hnew
        have hnumber : getBlockNumber block = some event.blockNumber.toNat := by
          have := h.sound.persister
          rwa [here] at this
        obtain ⟨n, hn, hlog⟩ := write_log_of_ok (by rw [hok]; exact fun h => nomatch h)
        cases hnumber.symm.trans hn
        exact ⟨block, by rw [hlog]; exact List.mem_cons_self, h.writing here⟩
      · cases hnew
    · obtain ⟨b, hmem, hkeeps⟩ := h.filed e (List.mem_append_right _ hold)
      exact ⟨b, hsub hmem, hkeeps⟩

lemma Mirrored.filed_event (h : p.Mirrored codec) {event : BlockEvent}
    (hevent : p.statePlugin.loop.event = some event) : p.Filed codec event := by
  refine h.filed event (List.mem_append_right _ (List.mem_append_right _ ?_))
  rw [hevent]
  exact List.mem_singleton_self _

/-- A catch-up finds its block: the event's block is in the store, and so is every block below
it. -/
lemma Mirrored.catchUp_read (h : p.Mirrored codec) (cfg : PipelineConfig) {event : BlockEvent}
    {b : ℕ} (hloop : p.statePlugin.loop = .catchingUp event b) :
    ∃ block, (p.stateEnv cfg codec).readBlock b = .ok (some (codec.encode block)) ∧
      (b, block) ∈ p.store.log ∧ block.complete = true := by
  obtain ⟨announced, hmem, -⟩ := h.filed_event (by rw [hloop]; rfl)
  have hlt : b < event.blockNumber.toNat := by
    have hnext := h.mirrors.replayed.next
    rw [hloop] at hnext
    exact hnext.1 ▸ hnext.2
  have hrecorded : p.Recorded cfg codec b :=
    recorded h.sound.store (h.dense.below ⟨announced, hmem⟩ b hlt)
  obtain ⟨block, -, hstored, hread⟩ := hrecorded
  exact ⟨block, by simp only [stateEnv, hread], hstored, h.dense.complete _ hstored⟩

/-- The state plugin applies a block of the store, or none. -/
lemma advance_mirrors (h : p.Mirrored codec) {plugin : StatePlugin}
    (hplugin : p.statePlugin.advance codec (p.stateEnv cfg codec) = some plugin) :
    plugin.Mirrors codec p.store ∧
      plugin.loop.event.toList ⊆ p.statePlugin.loop.event.toList := by
  unfold StatePlugin.advance at hplugin
  split at hplugin
  · next event b hloop =>
    cases hplugin
    obtain ⟨block, hread, hstored, hcomplete⟩ := h.catchUp_read cfg hloop
    refine ⟨h.mirrors.catchUp hloop hread hstored hcomplete, ?_⟩
    rw [hloop, catchUp_event]
    exact List.Subset.refl _
  · next event hloop =>
    cases hplugin
    obtain ⟨block, hmem, -, hcached⟩ := h.filed_event (by rw [hloop]; rfl)
    refine ⟨h.mirrors.applyEvent hloop hcached hmem, ?_⟩
    rcases applyEvent_loop codec (p.stateEnv cfg codec) p.statePlugin event with
      ⟨-, hwait⟩ | hstop
    · rw [hwait]
      exact List.nil_subset _
    · rw [hstop]
      exact List.nil_subset _
  · cases hplugin

/-- **One step of the node.** -/
lemma step_mirrored {act : PipelineAct} (h : p.Mirrored codec) (hempty : AcceptsWhenEmpty p act)
    (horder : StoresInOrder p act) (hstep : p.step cfg codec act = some p') :
    p'.Mirrored codec := by
  have hsound : p'.Sound codec := step_sound h.sound hempty hstep
  have hsame : p.world.cache.Later p.world.cache := .refl _
  cases step_cases hstep with
  | session here step =>
    obtain ⟨hprogress, hknows⟩ := h.sound.sessions here
    obtain ⟨-, hlater, -⟩ := Session.step_sound h.sound.world hprogress hknows step
    exact h.move hsound hlater rfl h.mirrors h.writing (List.Subset.refl _)
  | markFailed =>
    exact h.move hsound (BlockDataCache.markForRemoval_later _) rfl h.mirrors h.writing
      (List.Subset.refl _)
  | takeVerified here =>
    exact h.move hsound hsame rfl h.mirrors (fun hwrite => by cases hwrite)
      (List.subset_append_right _ _)
  | takeUnverified here =>
    exact h.move hsound hsame rfl h.mirrors (fun hwrite => by cases hwrite)
      (List.subset_append_right _ _)
  | @fetchBlock event here =>
    refine h.move hsound hsame rfl h.mirrors (fetchBlock_keeps h.sound here) ?_
    rcases fetchBlock_cases codec p.world.cache event with ⟨block, heq⟩ | heq
    · simp only [toState, heq]
      exact List.subset_append_right _ _
    · simp only [toState, heq]
      exact List.subset_append_right _ _
  | write here => exact write_mirrored h here horder rfl hsound
  | @broadcast event here =>
    refine h.move hsound hsame rfl h.mirrors (fun hwrite => by cases hwrite) fun e he => ?_
    simp only [toState, here, announced, PersistTask.announcing, Option.toList_none,
      Option.toList_some, List.mem_append, List.mem_singleton, List.not_mem_nil] at he ⊢
    tauto
  | mark here =>
    exact h.move hsound (BlockDataCache.markForRemoval_later _) rfl h.mirrors
      (fun hwrite => by cases hwrite) (List.subset_append_right _ _)
  | @stateReceive last event rest here queue =>
    have hlast : last = lastOf p.statePlugin.applied.length := by
      have := h.mirrors.replayed.next
      rwa [here] at this
    refine h.move hsound hsame rfl ⟨h.mirrors.replayed.of_loop ?_, h.mirrors.stored⟩ h.writing
      fun e he => ?_
    · exact hlast ▸ StatePlugin.receive_next event
    · have hsub := (receive_event last event).subset
      simp only [toState, announced, queue, List.mem_append] at he ⊢
      rcases he with he | he | he
      · exact .inl he
      · exact .inr (.inl (List.mem_cons_of_mem _ he))
      · exact .inr (.inl (List.mem_singleton.mp (hsub he) ▸ List.mem_cons_self))
  | @stateAdvance plugin hplugin =>
    obtain ⟨hmirrors, hevent⟩ := advance_mirrors h hplugin
    refine h.move hsound ?_ rfl hmirrors h.writing ?_
    · dsimp only [setCache]
      split
      · exact BlockDataCache.markForRemoval_later _
      · exact hsame
    · refine List.append_subset.mpr ⟨List.subset_append_left _ _, ?_⟩
      refine List.append_subset.mpr ⟨?_, ?_⟩
      · exact List.subset_append_of_subset_right _ (List.subset_append_left _ _)
      · exact List.subset_append_of_subset_right _ (List.subset_append_of_subset_right _ hevent)
  | cacheCleanup =>
    exact h.move hsound (BlockDataCache.cleanup_later _) rfl h.mirrors h.writing
      (List.Subset.refl _)
  | _ => exact h.move hsound hsame rfl h.mirrors h.writing (List.Subset.refl _)

end Pipeline

/-! ### Backfill and crashes -/

/-- Blocks are stored in order, whoever stores them. -/
def LifeAct.InOrder (p : Pipeline) : LifeAct → Prop
  | .node act => StoresInOrder p act
  | .backfill block => p.store.Next block
  | _ => True

instance (p : Pipeline) (act : LifeAct) : Decidable (act.InOrder p) :=
  match act with
  | .node act => inferInstanceAs (Decidable (StoresInOrder p act))
  | .backfill block => inferInstanceAs (Decidable (p.store.Next block))
  | .subscribe | .lag | .restart => isTrue trivial

namespace Pipeline

variable {p p' : Pipeline}

/-- Nothing that is on its way survives a restart. -/
lemma restart_mirrored (h : p.Mirrored codec) : (p.restart cfg).Mirrored codec where
  sound := restart_sound h.sound
  dense := ⟨h.dense.complete, h.dense.below⟩
  mirrors := (h.mirrors.start cfg.persistence).mono (List.Subset.refl _)
  writing hwrite := by cases hwrite
  filed event he := by
    simp only [toState, announced, restart, StatePlugin.start] at he
    split_ifs at he <;> cases he

lemma init_mirrored (cfg : PipelineConfig) (codec : Codec) :
    (init cfg codec [] .init).Mirrored codec where
  sound := init_sound [] .init
  dense := Store.init_dense cfg.persistence
  mirrors := (StatePlugin.init_mirrors _).start cfg.persistence
  writing hwrite := by cases hwrite
  filed event he := by
    simp only [toState, announced, init, StatePlugin.start] at he
    split_ifs at he <;> cases he

lemma backfill_mirrored (h : p.Mirrored codec) {block : Block} (hnext : p.store.Next block) :
    (p.backfill cfg codec block).Mirrored codec := by
  have hsub := Store.log_subset_write cfg.persistence codec p.store block
  refine ⟨backfill_sound h.sound block, h.dense.write hnext, h.mirrors.mono hsub, h.writing,
    fun event he => ?_⟩
  obtain ⟨b, hmem, hkeeps⟩ := h.filed event he
  exact ⟨b, hsub hmem, hkeeps⟩

/-- Events that wait in the channel are lost. -/
lemma toState_subset (hpersister : p'.persister = p.persister) (hevents : p'.stateEvents = [])
    (hloop : p'.statePlugin.loop.event.toList ⊆ p.statePlugin.loop.event.toList) :
    p'.toState ⊆ p.toState := by
  unfold toState announced
  rw [hpersister, hevents, List.nil_append]
  refine List.append_subset.mpr ⟨List.subset_append_left _ _, ?_⟩
  exact List.subset_append_of_subset_right _ (List.subset_append_of_subset_right _ hloop)

lemma live_mirrored {act : LifeAct} (h : p.Mirrored codec) (hempty : act.AcceptsEmpty p)
    (horder : act.InOrder p) (hstep : p.live cfg codec act = some p') : p'.Mirrored codec := by
  cases act with
  | node act => exact step_mirrored h hempty horder hstep
  | backfill block =>
    cases hstep
    exact backfill_mirrored h horder
  | subscribe =>
    have hsound := live_sound h.sound hempty hstep
    cases hstep
    exact h.move hsound (.refl _) rfl h.mirrors h.writing
      (toState_subset rfl rfl (List.Subset.refl _))
  | lag =>
    have hsound := live_sound h.sound hempty hstep
    obtain ⟨-, -, rfl⟩ := lag_eq_some hstep
    exact h.move hsound (.refl _) rfl ⟨h.mirrors.replayed.of_loop trivial, h.mirrors.stored⟩
      h.writing (toState_subset rfl rfl (List.nil_subset _))
  | restart =>
    cases hstep
    exact restart_mirrored h

lemma run_mirrored {actions : List LifeAct}
    (hempty : Along (live cfg codec) (fun p act => act.AcceptsEmpty p) (init cfg codec [] .init)
      actions)
    (horder : Along (live cfg codec) (fun p act => act.InOrder p) (init cfg codec [] .init)
      actions)
    (hrun : run (live cfg codec) (init cfg codec [] .init) actions = some p) :
    p.Mirrored codec :=
  run_inv (fun h hC hs => live_mirrored h hC.1 hC.2 hs) (init_mirrored cfg codec)
    (hempty.and horder) hrun

end Pipeline

/-- A block with one set of operations on maps. -/
def publishedBlock (n : UInt64) (writes : List (MapWrite MapChangeKey MapChangeValue)) : Block :=
  ⟨[⟨some (.blockHeader ⟨n, []⟩)⟩] ++ (writesBlock writes).items ++ [proofOf n]⟩

lemma publishedBlock_mapOnly (n : UInt64)
    (writes : List (MapWrite MapChangeKey MapChangeValue)) :
    (publishedBlock n writes).MapOnly plainMessages.key plainMessages.value where
  stamped item hitem set hset := by
    simp only [publishedBlock, List.mem_append, List.mem_singleton] at hitem
    rcases hitem with (rfl | hitem) | rfl
    · cases hset
    · exact (writesBlock_mapOnly _).stamped item hitem set hset
    · cases hset
  changes item hitem change hchange := by
    simp only [publishedBlock, List.mem_append, List.mem_singleton] at hitem
    rcases hitem with (rfl | hitem) | rfl
    · cases hchange
    · exact (writesBlock_mapOnly _).changes item hitem change hchange
    · cases hchange

lemma publishedBlock_mapWrites (n : UInt64)
    (writes : List (MapWrite MapChangeKey MapChangeValue)) :
    (publishedBlock n writes).mapWrites plainMessages.key plainMessages.value = writes := by
  have hwrites := writesBlock_mapWrites writes
  unfold Block.mapWrites at hwrites ⊢
  unfold publishedBlock
  rw [List.flatMap_append, List.flatMap_append, hwrites]
  exact List.append_nil writes

/-- Account 0.0.7 is created in block 0 and gets its balance in block 1. -/
def grants : ℕ → List (MapWrite MapChangeKey MapChangeValue)
  | 0 => [((1, ⟨some (.accountIdKey idSeven)⟩), some (accountSeven 0))]
  | 1 => [((1, ⟨some (.accountIdKey idSeven)⟩), some (accountSeven 50))]
  | _ => []

def grantBlock (n : ℕ) : Block := publishedBlock (.ofNat n) (grants n)

/-- The first session publishes the block, which goes through `turns` steps of persistence. -/
def publishActs (n turns : ℕ) : List PipelineAct :=
  [.connect, .session 0 (.request (.blockItems (grantBlock n).items))] ++
    List.replicate 7 (.session 0 .go) ++ List.replicate 3 .verifier ++
    List.replicate turns .persister

/-- The process dies when block 1 has been stored and nobody has been told; block 2 comes from
the backfill worker. -/
def crashRun : List LifeAct :=
  (publishActs 0 4).map .node ++ [.node .stateReceive, .node .stateAdvance, .restart] ++
    (publishActs 1 3).map .node ++ [.restart, .backfill (grantBlock 2), .restart] ++
    (publishActs 3 4).map .node

/-- The first block that has not been processed. -/
def StateDb.nextBlock (db : StateDb) : ℕ := (getLastProcessedBlock db).elim 0 (· + 1)

lemma StatePlugin.Replayed.nextBlock_eq {plugin : StatePlugin} (h : plugin.Replayed codec) :
    plugin.db.nextBlock = plugin.applied.length := by
  rw [StateDb.nextBlock, h.last]
  rcases plugin.applied.length with _ | k <;> rfl

namespace Pipeline

variable {p p' : Pipeline} {event : BlockEvent}

lemma live_advance (h : p.Mirrored codec) {plugin : StatePlugin}
    (hplugin : p.statePlugin.advance codec (p.stateEnv cfg codec) = some plugin) :
    ∃ p', p.live cfg codec (.node .stateAdvance) = some p' ∧ p'.Mirrored codec ∧
      p'.statePlugin = plugin ∧
      ((∀ event, p.statePlugin.loop ≠ .applying event) → p'.world.cache = p.world.cache) := by
  obtain ⟨p', hp'⟩ : ∃ p', p.stateAdvance cfg codec = some p' :=
    ⟨_, by rw [stateAdvance, hplugin]; rfl⟩
  have hstep : p.step cfg codec .stateAdvance = some p' := hp'
  refine ⟨p', hstep, step_mirrored h (by exact trivial) (by exact trivial) hstep, ?_⟩
  rw [stateAdvance, hplugin] at hp'
  cases hp'
  refine ⟨rfl, fun hnot => ?_⟩
  dsimp only [setCache]
  split
  · next event _ hloop _ => exact absurd hloop (hnot event)
  · rfl

/-- One block of the catch-up: it is in the store and can be applied. -/
lemma stateAdvance_catchUp (cfg : PipelineConfig) (h : p.Mirrored codec) {b : ℕ}
    (hloop : p.statePlugin.loop = .catchingUp event b) :
    ∃ p', p.live cfg codec (.node .stateAdvance) = some p' ∧ p'.Mirrored codec ∧
      p'.world.cache = p.world.cache ∧ p'.statePlugin.loop =
        if b + 1 < event.blockNumber.toNat then .catchingUp event (b + 1) else .applying event := by
  obtain ⟨block, hread, -, hcomplete⟩ := h.catchUp_read cfg hloop
  have hstored : ((p.stateEnv cfg codec).stored codec b).any Block.complete = true := by
    simp [StateEnv.stored, hread, codec.decode_encode, hcomplete]
  obtain ⟨contents, plugin, -, hplugin⟩ := p.statePlugin.applyFromStorage_complete hstored
  have hadvance : p.statePlugin.advance codec (p.stateEnv cfg codec) = some { plugin with
      loop := if b + 1 < event.blockNumber.toNat then .catchingUp event (b + 1)
        else .applying event } := by
    simp only [StatePlugin.advance, hloop, StatePlugin.catchUp, hplugin]
  obtain ⟨p', hstep, hmirrored, hplugin', hcache⟩ := live_advance h hadvance
  refine ⟨p', hstep, hmirrored, hcache fun e he => ?_, by rw [hplugin']⟩
  rw [hloop] at he
  cases he

/-- The block of the event: if it is still in the cache, it is applied. -/
lemma stateAdvance_apply (cfg : PipelineConfig) (h : p.Mirrored codec)
    (hloop : p.statePlugin.loop = .applying event)
    (hcached : p.world.cache.get event.cacheKey ≠ none) :
    ∃ p', p.live cfg codec (.node .stateAdvance) = some p' ∧ p'.Mirrored codec ∧
      p'.statePlugin.loop = .waiting (some event.blockNumber.toNat) := by
  obtain ⟨data, hdata⟩ := Option.ne_none_iff_exists'.mp hcached
  obtain ⟨block, hmem, -, hkeeps⟩ := h.filed_event (by rw [hloop]; rfl)
  have hdecode : codec.decode data.contents = some block := by
    rw [hkeeps data hdata, codec.decode_encode]
  obtain ⟨db, hdb⟩ := applyStateChanges_complete hdecode (h.dense.complete _ hmem)
    p.statePlugin.db event.blockNumber.toNat
  have hadvance : p.statePlugin.advance codec (p.stateEnv cfg codec) = some
      ⟨db, .waiting (some event.blockNumber.toNat),
        p.statePlugin.applied ++ [(event.blockNumber.toNat, data.contents)]⟩ := by
    simp only [StatePlugin.advance, hloop, StatePlugin.applyEvent, StatePlugin.applyFromBlockEvent,
      stateEnv, hdata, StatePlugin.apply, hdb]
    rfl
  obtain ⟨p', hstep, hmirrored, hplugin, -⟩ := live_advance h hadvance
  exact ⟨p', hstep, hmirrored, by rw [hplugin]⟩

/-- The whole catch-up, from block `b` to the block of the event. -/
lemma catchUp_run (cfg : PipelineConfig) {b k : ℕ} (h : p.Mirrored codec)
    (hloop : p.statePlugin.loop = .catchingUp event b)
    (hk : b + k + 1 = event.blockNumber.toNat) :
    ∃ p', run (live cfg codec) p (List.replicate (k + 1) (.node .stateAdvance)) = some p' ∧
      p'.Mirrored codec ∧ p'.world.cache = p.world.cache ∧
      p'.statePlugin.loop = .applying event := by
  induction k generalizing p b with
  | zero =>
    obtain ⟨p', hstep, hmirrored, hcache, hnext⟩ := stateAdvance_catchUp cfg h hloop
    rw [if_neg (by omega)] at hnext
    exact ⟨p', run_cons hstep _, hmirrored, hcache, hnext⟩
  | succ k ih =>
    obtain ⟨p', hstep, hmirrored, hcache, hnext⟩ := stateAdvance_catchUp cfg h hloop
    rw [if_pos (by omega)] at hnext
    obtain ⟨p'', hrun, hmirrored', hcache', hloop'⟩ := ih hmirrored hnext (by omega)
    exact ⟨p'', (run_cons hstep _).trans hrun, hmirrored', hcache'.trans hcache, hloop'⟩

/-- A plugin that has applied the first `k` blocks compares the event with block `k`. -/
lemma receive_eq {k : ℕ} (hk : k ≤ event.blockNumber.toNat) :
    StatePlugin.receive (lastOf k) event =
      if k < event.blockNumber.toNat then .catchingUp event k else .applying event := by
  have hlt := event.blockNumber.toNat_lt
  have hexpected : (lastOf k).elim (some 0) (checkedAdd · 1) = some k := by
    rcases k with _ | k
    · rfl
    · simp only [lastOf, Option.elim_some, checkedAdd]
      exact if_pos (by unfold u64Max; omega)
  unfold StatePlugin.receive
  rw [hexpected]
  dsimp only
  rw [if_neg (by omega)]

/-- From the event on: what is missing is read from storage. -/
lemma receive_run (cfg : PipelineConfig) (h : p.Mirrored codec) {last : Option ℕ}
    {rest : List BlockEvent}
    (hloop : p.statePlugin.loop = .waiting last) (hqueue : p.stateEvents = event :: rest)
    (hnew : p.statePlugin.applied.length ≤ event.blockNumber.toNat) :
    ∃ p', run (live cfg codec) p (.node .stateReceive ::
        List.replicate (event.blockNumber.toNat - p.statePlugin.applied.length)
          (.node .stateAdvance)) = some p' ∧
      p'.Mirrored codec ∧ p'.world.cache = p.world.cache ∧
      p'.statePlugin.loop = .applying event := by
  have hlast : last = lastOf p.statePlugin.applied.length := by
    have := h.mirrors.replayed.next
    rwa [hloop] at this
  obtain ⟨received, hstep, hreceived, hcache⟩ : ∃ received,
      p.live cfg codec (.node .stateReceive) = some received ∧
      received.statePlugin.loop = StatePlugin.receive last event ∧
      received.world.cache = p.world.cache := by
    simp only [live, step, stateReceive, hloop, hqueue]
    exact ⟨_, rfl, rfl, rfl⟩
  have hmirrored : received.Mirrored codec :=
    live_mirrored h (by exact trivial) (by exact trivial) hstep
  rw [hlast, receive_eq hnew] at hreceived
  rcases hgap : event.blockNumber.toNat - p.statePlugin.applied.length with _ | k
  · rw [if_neg (by omega)] at hreceived
    exact ⟨received, run_cons hstep _, hmirrored, hcache, hreceived⟩
  · rw [if_pos (by omega)] at hreceived
    have hk : p.statePlugin.applied.length + k + 1 = event.blockNumber.toNat := by omega
    obtain ⟨p', hrun, hmirrored', hcache', hloop'⟩ := catchUp_run cfg hmirrored hreceived hk
    exact ⟨p', (run_cons hstep _).trans hrun, hmirrored', hcache'.trans hcache, hloop'⟩

end Pipeline

end RockNode
