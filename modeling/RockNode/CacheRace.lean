import RockNode.Keys
import RockNode.Tickets
import RockNode.Runs

/-!
The state plugin and the persistence task at the block cache.

`process_event` broadcasts that a block is persisted and then marks its cache entry for removal,
which takes the entry away at once. The state plugin, told by the broadcast, finds the entry only
as long as the mark has not been set. Each key is carried by one task or channel at a time; what
still needs its data finds it, and nobody else removes it.
-/

namespace RockNode

/-- The cache is only cleaned up while no entry is older than the TTL. -/
def NothingStale (p : Pipeline) : PipelineAct → Prop
  | .cacheCleanup => p.world.cache.staleKeys p.world.now = []
  | _ => True

instance (p : Pipeline) (act : PipelineAct) : Decidable (NothingStale p act) :=
  match act with
  | .cacheCleanup => inferInstanceAs (Decidable (_ = []))
  | .connect => isTrue trivial
  | .session _ _ => isTrue trivial
  | .verifier => isTrue trivial
  | .persister => isTrue trivial
  | .stateReceive => isTrue trivial
  | .stateAdvance => isTrue trivial
  | .loadCleanup => isTrue trivial
  | .startRetain => isTrue trivial
  | .retainVisit _ => isTrue trivial
  | .finishRetain => isTrue trivial
  | .tick => isTrue trivial

/-- The event a task carries. -/
def VerifierTask.event : VerifierTask → Option BlockEvent
  | .idle => none
  | .fetch event => some event
  | .pass event => some event
  | .fail failed => some failed.event
  | .mark event => some event

def PersistTask.event : PersistTask → Option BlockEvent
  | .idle => none
  | .fetch event => some event
  | .write event _ => some event
  | .broadcast event => some event
  | .mark event => some event

def StateLoop.event : StateLoop → Option BlockEvent
  | .catchingUp event _ => some event
  | .applying event => some event
  | _ => none

/-- The event of a task for which the data is still needed. -/
def VerifierTask.needs : VerifierTask → Option BlockEvent
  | .fetch event => some event
  | .pass event => some event
  | _ => none

def PersistTask.needs : PersistTask → Option BlockEvent
  | .fetch event => some event
  | .write event _ => some event
  | .broadcast event => some event
  | _ => none

namespace Pipeline

variable {cfg : PipelineConfig} {codec : Codec} {p p' : Pipeline}

/-- There is data under the key. -/
def Present (p : Pipeline) (key : ℕ) : Prop := p.world.cache.get key ≠ none

/-- The events on their way to persistence, up to the mark. -/
def queued (p : Pipeline) : List BlockEvent :=
  p.world.itemsReceived ++ p.verifier.event.toList ++ p.verifiedBlocks ++ p.persister.event.toList

/-- Those whose data is still needed. -/
def needed (p : Pipeline) : List BlockEvent :=
  p.world.itemsReceived ++ p.verifier.needs.toList ++ p.verifiedBlocks ++ p.persister.needs.toList

/-- The events on their way to the state. -/
def announced (p : Pipeline) : List BlockEvent := p.stateEvents ++ p.statePlugin.loop.event.toList

/-- An announced event is either not yet marked by persistence, or its data has gone. -/
def Announced (p : Pipeline) (event : BlockEvent) : Prop :=
  (p.persister = .mark event ∧ p.Present event.cacheKey) ∨
    (p.world.cache.get event.cacheKey = none ∧ event.cacheKey < p.world.cache.nextKey ∧
      ∀ other ∈ p.persister.event, other.cacheKey ≠ event.cacheKey)

/-- Who carries which key, and which data is there. -/
structure Custody (p : Pipeline) : Prop where
  nodup : (p.queued.map BlockEvent.cacheKey).Nodup
  bound : ∀ event ∈ p.queued, event.cacheKey < p.world.cache.nextKey
  present : ∀ event ∈ p.needed, p.Present event.cacheKey
  handOver : ∀ {id key}, p.HandsOver id key →
    p.Present key ∧ key < p.world.cache.nextKey ∧ ∀ event ∈ p.queued, event.cacheKey ≠ key
  handOver_unique : ∀ {id id' key}, p.HandsOver id key → p.HandsOver id' key → id = id'
  cleanup : ∀ key ∈ p.world.cache.cleanupQueue,
    p.world.cache.get key = none ∧ key < p.world.cache.nextKey
  announced_nodup : (p.announced.map BlockEvent.cacheKey).Nodup
  announced : ∀ event ∈ p.announced, p.Announced event

/-- The keys are the tickets of the cache: sessions make them and hand them over. -/
lemma Custody.tickets (h : p.Custody) :
    Tickets p.world.cache.nextKey p.HandsOver (p.queued.map BlockEvent.cacheKey) where
  nodup := h.nodup
  bound key hkey := by
    obtain ⟨event, he, rfl⟩ := List.mem_map.mp hkey
    exact h.bound event he
  held hk := by
    obtain ⟨-, hlt, hne⟩ := h.handOver hk
    refine ⟨hlt, fun hkey => ?_⟩
    obtain ⟨event, he, heq⟩ := List.mem_map.mp hkey
    exact hne event he heq
  unique := h.handOver_unique

lemma Custody.of_tickets
    (ht : Tickets p.world.cache.nextKey p.HandsOver (p.queued.map BlockEvent.cacheKey))
    (hpresent : ∀ event ∈ p.needed, p.Present event.cacheKey)
    (hhands : ∀ {id key}, p.HandsOver id key → p.Present key)
    (hcleanup : ∀ key ∈ p.world.cache.cleanupQueue,
      p.world.cache.get key = none ∧ key < p.world.cache.nextKey)
    (hnodup : (p.announced.map BlockEvent.cacheKey).Nodup)
    (hannounced : ∀ event ∈ p.announced, p.Announced event) : p.Custody where
  nodup := ht.nodup
  bound _ he := ht.bound _ (List.mem_map_of_mem he)
  present := hpresent
  handOver hk := ⟨hhands hk, (ht.held hk).1,
    fun event he heq => (ht.held hk).2 (List.mem_map.mpr ⟨event, he, heq⟩)⟩
  handOver_unique := ht.unique
  cleanup := hcleanup
  announced_nodup := hnodup
  announced := hannounced

lemma needed_subset {event : BlockEvent} (h : event ∈ p.needed) : event ∈ p.queued := by
  have hv : ∀ e ∈ p.verifier.needs, e ∈ p.verifier.event := by
    intro e he
    cases hp : p.verifier <;> simp_all [VerifierTask.needs, VerifierTask.event]
  have hp : ∀ e ∈ p.persister.needs, e ∈ p.persister.event := by
    intro e he
    cases hp : p.persister <;> simp_all [PersistTask.needs, PersistTask.event]
  simp only [needed, queued, List.mem_append, Option.mem_toList] at h ⊢
  rcases h with ((h | h) | h) | h
  · exact .inl (.inl (.inl h))
  · exact .inl (.inl (.inr (hv event h)))
  · exact .inl (.inr h)
  · exact .inr (hp event h)

/-- **The race**: an event about to be applied finds its data exactly if persistence has not
marked it yet. -/
lemma Custody.present_iff (h : p.Custody) {event : BlockEvent} (he : event ∈ p.announced) :
    p.Present event.cacheKey ↔ p.persister = .mark event := by
  rcases h.announced event he with ⟨hmark, hpresent⟩ | ⟨hnone, -, hother⟩
  · exact ⟨fun _ => hmark, fun _ => hpresent⟩
  · refine ⟨fun hpresent => absurd hnone hpresent, fun hmark => ?_⟩
    exact absurd rfl (hother event (by rw [hmark]; rfl))

lemma init_announced (blocks : List Block) (plugin : StatePlugin) :
    (init cfg codec blocks plugin).announced = [] := by
  have hloop : (plugin.start cfg.persistence).loop.event = none := by
    unfold StatePlugin.start
    split_ifs <;> rfl
  simp [announced, init, hloop]

lemma init_custody (blocks : List Block) (plugin : StatePlugin) :
    (init cfg codec blocks plugin).Custody := by
  have hnobody : ∀ {id key}, ¬ (init cfg codec blocks plugin).HandsOver id key := by
    rintro id key ⟨session, hs, -⟩
    cases hs
  refine .of_tickets (.none hnobody) (fun _ h => by cases h) (fun hk => absurd hk hnobody)
    (fun _ h => by cases h) ?_ ?_
  · rw [init_announced]
    exact List.nodup_nil
  · rw [init_announced]
    exact fun _ h => absurd h List.not_mem_nil

/-! ### Keys change hands -/

/-- A step that moves events about and leaves the data in the cache alone. -/
lemma Custody.move (h : p.Custody) (hcache : p.world.cache.SameData p'.world.cache)
    (hqueued : p'.queued.Subperm p.queued) (hneeded : p'.needed ⊆ p.needed)
    (hhands : ∀ {id key}, p'.HandsOver id key → p.HandsOver id key)
    (hannounced : p'.announced.Subperm p.announced)
    (hstill : ∀ event ∈ p.announced, p.Announced event → p'.Announced event) : p'.Custody := by
  have ht := h.tickets.move (subperm_map BlockEvent.cacheKey hqueued) hhands
  rw [← hcache.nextKey_eq] at ht
  refine .of_tickets ht ?_ ?_ ?_ ?_ ?_
  · exact fun event he hgone => h.present event (hneeded he) (hcache.get_eq _ ▸ hgone)
  · exact fun hk hgone => (h.handOver (hhands hk)).1 (hcache.get_eq _ ▸ hgone)
  · intro key hkey
    rw [hcache.get_eq, hcache.nextKey_eq]
    exact h.cleanup key (hcache.queue_subset hkey)
  · exact nodup_of_subperm (subperm_map BlockEvent.cacheKey hannounced) h.announced_nodup
  · exact fun event he =>
      hstill event (hannounced.subset he) (h.announced event (hannounced.subset he))

/-- Nothing changes for an announced event if neither its data nor the persister does. -/
lemma Announced.congr {event : BlockEvent} (h : p.Announced event)
    (hcache : p.world.cache.SameData p'.world.cache) (hpersister : p'.persister = p.persister) :
    p'.Announced event := by
  unfold Announced Present at h ⊢
  rw [hcache.get_eq, hcache.nextKey_eq, hpersister]
  exact h

/-- The verifier and the channels on both sides of it hand events on. -/
lemma Custody.handOn (h : p.Custody) {items verified : List BlockEvent} {task : VerifierTask}
    (hqueued : { p with
      world := { p.world with itemsReceived := items }
      verifiedBlocks := verified
      verifier := task }.queued.Subperm p.queued)
    (hneeded : { p with
      world := { p.world with itemsReceived := items }
      verifiedBlocks := verified
      verifier := task }.needed ⊆ p.needed) :
    { p with
      world := { p.world with itemsReceived := items }
      verifiedBlocks := verified
      verifier := task }.Custody :=
  h.move (.refl _) hqueued hneeded (fun hj => hj) (.refl _) fun _ _ he => he.congr (.refl _) rfl

/-- The state plugin takes an event, goes on with it or drops it. -/
lemma Custody.stateTurn (h : p.Custody) {events : List BlockEvent} {plugin : StatePlugin}
    (hannounced : { p with stateEvents := events, statePlugin := plugin }.announced.Subperm
      p.announced) :
    { p with stateEvents := events, statePlugin := plugin }.Custody :=
  h.move (.refl _) (.refl _) (fun _ he => he) (fun hj => hj) hannounced
    fun _ _ he => he.congr (.refl _) rfl

/-- A key is marked for removal that nobody needs any more; persistence may move on. -/
lemma Custody.remove (h : p.Custody) {key : ℕ} {task : PersistTask}
    (hlt : key < p.world.cache.nextKey)
    (hqueued : { p with persister := task }.queued.Subperm p.queued)
    (hneeded : ∀ event ∈ { p with persister := task }.needed,
      event ∈ p.needed ∧ event.cacheKey ≠ key)
    (hhands : ∀ {id}, ¬ p.HandsOver id key)
    (hannounced : ∀ event ∈ p.announced,
      { p.setCache (p.world.cache.markForRemoval key) with persister := task }.Announced event) :
    { p.setCache (p.world.cache.markForRemoval key) with persister := task }.Custody := by
  have hget : ∀ j ≠ key, (p.world.cache.markForRemoval key).get j = p.world.cache.get j :=
    fun j hj => by rw [BlockDataCache.get_markForRemoval, if_neg hj]
  have hnext := p.world.cache.markForRemoval_nextKey key
  have ht : Tickets (p.world.cache.markForRemoval key).nextKey p.HandsOver
      ({ p with persister := task }.queued.map BlockEvent.cacheKey) := by
    rw [hnext]
    exact h.tickets.move (subperm_map BlockEvent.cacheKey hqueued) fun hj => hj
  refine .of_tickets ht ?_ ?_ ?_ h.announced_nodup hannounced
  · intro event he hgone
    obtain ⟨hmem, hne⟩ := hneeded event he
    exact h.present event hmem ((hget _ hne).symm.trans hgone)
  · intro id j hj hgone
    have hne : j ≠ key := by
      rintro rfl
      exact hhands hj
    exact (h.handOver hj).1 ((hget j hne).symm.trans hgone)
  · intro j hj
    have hj' : j = key ∨ j ∈ p.world.cache.cleanupQueue := by
      dsimp only [setCache] at hj
      unfold BlockDataCache.markForRemoval at hj
      split at hj
      · exact .inr hj
      · exact List.mem_insert_iff.mp hj
    rcases hj' with rfl | hj'
    · exact ⟨by simp [setCache, BlockDataCache.get_markForRemoval], lt_of_lt_of_eq hlt hnext.symm⟩
    · refine ⟨?_, lt_of_lt_of_eq (h.cleanup j hj').2 hnext.symm⟩
      dsimp only [setCache]
      rw [BlockDataCache.get_markForRemoval, (h.cleanup j hj').1, ite_self]

/-- The removal of another key leaves an announced event as it is. -/
lemma Announced.markForRemoval {event : BlockEvent} {key : ℕ} (h : p.Announced event)
    (hne : p.persister = .mark event → event.cacheKey ≠ key) :
    (p.setCache (p.world.cache.markForRemoval key)).Announced event := by
  rcases h with ⟨hmark, hpresent⟩ | ⟨hgone, hlt, hother⟩
  · refine .inl ⟨hmark, fun hn => hpresent ?_⟩
    dsimp only [setCache] at hn
    rwa [BlockDataCache.get_markForRemoval, if_neg (hne hmark)] at hn
  · refine .inr ⟨?_, lt_of_lt_of_eq hlt (BlockDataCache.markForRemoval_nextKey _ _).symm, hother⟩
    dsimp only [setCache]
    rw [BlockDataCache.get_markForRemoval, hgone, ite_self]

/-- A new entry is made by the session `id`, which is going to announce it. -/
lemma Custody.insert (h : p.Custody) {id : ℕ} {session : Session} {data : BlockData} {now : ℕ}
    (htask : session.task = .handOver p.world.cache.nextKey) :
    { p with
      world := { p.world with cache := (p.world.cache.insert now data).2 }
      sessions := Function.update p.sessions id (some session) }.Custody := by
  have hget : ∀ j < p.world.cache.nextKey,
      (p.world.cache.insert now data).2.get j = p.world.cache.get j :=
    fun j hj => by rw [BlockDataCache.get_insert, if_neg (Nat.ne_of_lt hj)]
  have hnew : (p.world.cache.insert now data).2.get p.world.cache.nextKey ≠ none := by
    rw [BlockDataCache.get_insert, if_pos rfl]
    exact Option.some_ne_none data
  have hkey : ∀ {j key}, { p with
      world := { p.world with cache := (p.world.cache.insert now data).2 }
      sessions := Function.update p.sessions id (some session) }.HandsOver j key →
      (j = id ∧ key = p.world.cache.nextKey) ∨ (j ≠ id ∧ p.HandsOver j key) :=
    fun hj => handsOver_made htask hj
  refine .of_tickets (h.tickets.make hkey) ?_ ?_ ?_ h.announced_nodup ?_
  · intro event he hgone
    exact h.present event he ((hget _ (h.bound event (needed_subset he))).symm.trans hgone)
  · intro j key hj
    rcases hkey hj with ⟨-, rfl⟩ | ⟨-, hold⟩
    · exact hnew
    · obtain ⟨hpresent, hlt, -⟩ := h.handOver hold
      exact fun hgone => hpresent ((hget key hlt).symm.trans hgone)
  · intro key hk
    obtain ⟨hnone, hlt⟩ := h.cleanup key hk
    exact ⟨(hget key hlt).trans hnone, Nat.lt_succ_of_lt hlt⟩
  · intro event he
    rcases h.announced event he with ⟨hmark, hpresent⟩ | ⟨hgone, hlt, hother⟩
    · have hlt : event.cacheKey < p.world.cache.nextKey :=
        h.bound event (by simp [queued, hmark, PersistTask.event])
      exact .inl ⟨hmark, fun hn => hpresent ((hget _ hlt).symm.trans hn)⟩
    · exact .inr ⟨(hget _ hlt).trans hgone, Nat.lt_succ_of_lt hlt, hother⟩

/-- The session `id` sends the event of the key it has been holding. -/
lemma Custody.announce (h : p.Custody) {id : ℕ} {event : BlockEvent}
    (hold : p.HandsOver id event.cacheKey) (hcache : p'.world.cache = p.world.cache)
    (hreceived : p'.world.itemsReceived = p.world.itemsReceived ++ [event])
    (hrest : p'.verifier = p.verifier ∧ p'.verifiedBlocks = p.verifiedBlocks ∧
      p'.persister = p.persister ∧ p'.announced = p.announced)
    (hhands : ∀ {j key}, p'.HandsOver j key → j ≠ id ∧ p.HandsOver j key) : p'.Custody := by
  obtain ⟨hverifier, hverified, hpersister, hannounced⟩ := hrest
  have hqueued : p'.queued.Perm (event :: p.queued) := by
    simp only [queued, hreceived, hverifier, hverified, hpersister, List.append_assoc,
      List.singleton_append]
    exact List.perm_middle
  have hneeded : p'.needed.Perm (event :: p.needed) := by
    simp only [needed, hreceived, hverifier, hverified, hpersister, List.append_assoc,
      List.singleton_append]
    exact List.perm_middle
  have ht := h.tickets.pass hold (hqueued.map BlockEvent.cacheKey) hhands
  rw [← hcache] at ht
  refine .of_tickets ht ?_ ?_ ?_ ?_ ?_
  · intro e he
    unfold Present
    rw [hcache]
    rcases List.mem_cons.mp (hneeded.mem_iff.mp he) with rfl | he
    · exact (h.handOver hold).1
    · exact h.present e he
  · intro j key hj
    unfold Present
    rw [hcache]
    exact (h.handOver (hhands hj).2).1
  · rw [hcache]
    exact h.cleanup
  · rw [hannounced]
    exact h.announced_nodup
  · rw [hannounced]
    exact fun e he => (h.announced e he).congr (.of_eq hcache) hpersister

lemma sessionStep_custody (h : p.Custody) {id : ℕ} {act : SessionAct} {session session' : Session}
    {world : World} (hs : p.sessions id = some session)
    (step : session.Step cfg.publish codec id p.world act world session') :
    { p with
      world := world
      sessions := Function.update p.sessions id (some session') }.Custody := by
  rcases step.keys with
    ⟨hcache, hreceived, hnothing⟩ | ⟨rfl, htask⟩ | ⟨key, htask, hcache, hreceived, hnothing⟩
  · -- nothing to do with keys
    refine h.move (.of_eq hcache) (by simp only [queued, hreceived]; exact .refl _)
      (by simp only [needed, hreceived]; exact fun _ he => he)
      (fun hj => (handsOver_others hnothing hj).2) (.refl _)
      fun event _ hev => hev.congr (.of_eq hcache) rfl
  · exact h.insert htask
  · exact h.announce ⟨session, hs, htask⟩ hcache hreceived ⟨rfl, rfl, rfl, rfl⟩ fun hj =>
      handsOver_others hnothing hj

/-! ### The tasks -/

lemma verify_event (cache : BlockDataCache) (event : BlockItemsReceived) :
    (verify codec cache event).event = some event := by
  unfold verify
  split
  · split <;> rfl
  · rfl

lemma verify_needs {cache : BlockDataCache} {event other : BlockItemsReceived}
    (h : (verify codec cache event).needs = some other) : other = event := by
  unfold verify at h
  split at h
  · split at h
    · cases h
      rfl
    · cases h
  · cases h

/-- The verifier lets go of its event, which nobody else carries. -/
lemma Custody.verifier_done (h : p.Custody) {event : BlockEvent}
    (hevent : p.verifier = .mark event) :
    { p with verifier := .idle }.Custody ∧
      ∀ other ∈ { p with verifier := .idle }.queued, other.cacheKey ≠ event.cacheKey := by
  have hperm : p.queued.Perm (event :: { p with verifier := .idle }.queued) := by
    simp only [queued, hevent, VerifierTask.event, Option.toList_none, Option.toList_some,
      List.append_nil, List.append_assoc, List.singleton_append]
    exact List.perm_middle
  have hnodup := (hperm.map BlockEvent.cacheKey).nodup_iff.mp h.nodup
  rw [List.map_cons, List.nodup_cons] at hnodup
  refine ⟨h.handOn ?_ ?_, ?_⟩
  · exact (List.sublist_cons_self _ _).subperm.trans hperm.symm.subperm
  · simp only [needed, hevent, VerifierTask.needs]
    exact fun _ he => he
  · intro other hother heq
    exact hnodup.1 (List.mem_map.mpr ⟨other, hother, heq⟩)

/-- The data of a block that has failed goes; nobody else carries its key. -/
lemma markFailed_custody (h : p.Custody) {event : BlockEvent} (hevent : p.verifier = .mark event) :
    { p.setCache (p.world.cache.markForRemoval event.cacheKey) with
      verifier := .idle }.Custody := by
  obtain ⟨hdone, halone⟩ := h.verifier_done hevent
  have hmem : event ∈ p.queued := by simp [queued, hevent, VerifierTask.event]
  refine hdone.remove (h.bound event hmem) (.refl _)
    (fun e he => ⟨he, halone e (needed_subset he)⟩) ?_ ?_
  · exact fun hj => (h.handOver hj).2.2 event hmem rfl
  · intro e he
    refine (hdone.announced e he).markForRemoval fun hmark => halone e ?_
    simp [queued, show p.persister = .mark e from hmark, PersistTask.event]

lemma takeReceived_custody (h : p.Custody) {event : BlockEvent} {rest : List BlockEvent}
    (here : p.verifier = .idle) (queue : p.world.itemsReceived = event :: rest) :
    { p with
      world := { p.world with itemsReceived := rest }
      verifier := .fetch event }.Custody := by
  refine h.handOn ?_ ?_
  · simp only [queued, here, queue, VerifierTask.event, Option.toList_none,
      Option.toList_some, List.append_nil, List.append_assoc, List.cons_append]
    exact List.perm_middle.subperm
  · simp only [needed, here, queue, VerifierTask.needs]
    intro e he
    simp only [List.mem_append, List.mem_cons, Option.toList_some] at he ⊢
    tauto

lemma verify_custody (h : p.Custody) {event : BlockEvent} (here : p.verifier = .fetch event) :
    { p with verifier := verify codec p.world.cache event }.Custody := by
  refine h.handOn ?_ ?_
  · simp only [queued, here, verify_event]
    exact .refl _
  · simp only [needed, here]
    intro e he
    simp only [List.mem_append, Option.mem_toList] at he ⊢
    rcases he with ((he | he) | he) | he
    · exact .inl (.inl (.inl he))
    · exact .inl (.inl (.inr (by rw [verify_needs he]; rfl)))
    · exact .inl (.inr he)
    · exact .inr he

lemma pass_custody (h : p.Custody) {event : BlockEvent} (here : p.verifier = .pass event) :
    { p with verifiedBlocks := p.verifiedBlocks ++ [event], verifier := .idle }.Custody := by
  refine h.handOn ?_ ?_
  · simp only [queued, here, VerifierTask.event, Option.toList_none, Option.toList_some,
      List.append_nil, List.append_assoc]
    refine (List.Perm.append_left _ ?_).subperm
    rw [← List.append_assoc, ← List.append_assoc]
    exact List.perm_append_comm.append_right _
  · simp only [needed, here, VerifierTask.needs]
    intro e he
    simp only [List.mem_append, List.mem_singleton, Option.toList_some, Option.toList_none,
      List.not_mem_nil, or_false] at he ⊢
    tauto

lemma fail_custody (h : p.Custody) {failed : BlockVerificationFailed}
    (here : p.verifier = .fail failed) :
    { p with
      sessions := fun id => (p.sessions id).map (Session.deliverFailed failed)
      verifier := .mark failed.event }.Custody := by
  refine h.move (.refl _) ?_ ?_ (handsOver_map fun _ => Session.deliverFailed_hears _) (.refl _)
    fun e _ he => he.congr (.refl _) rfl
  · simp only [queued, here, VerifierTask.event]
    exact .refl _
  · simp only [needed, here, VerifierTask.needs]
    exact fun _ he => he

/-- While `process_event` is at work on an event, the announced ones are those of earlier
events. -/
lemma Announced.of_other {event : BlockEvent} (h : p.Announced event)
    (hnot : p.persister ≠ .mark event) (hcache : p'.world.cache = p.world.cache)
    (hother : ∀ other ∈ p'.persister.event, other ∈ p.persister.event ∨ p.Present other.cacheKey) :
    p'.Announced event := by
  rcases h with ⟨hmark, -⟩ | ⟨hgone, hlt, hne⟩
  · exact absurd hmark hnot
  · refine .inr ⟨hcache ▸ hgone, hcache ▸ hlt, fun other ho heq => ?_⟩
    rcases hother other ho with ho | ho
    · exact hne other ho heq
    · exact ho (heq ▸ hgone)

/-- Persistence, idle so far, takes an event whose data is there. -/
lemma Custody.take (h : p.Custody) (hidle : p.persister = .idle) {event : BlockEvent}
    {items verified : List BlockEvent} (hpresent : p.Present event.cacheKey)
    (hqueued : { p with
      world := { p.world with itemsReceived := items }
      verifiedBlocks := verified
      persister := .fetch event }.queued.Subperm p.queued)
    (hneeded : { p with
      world := { p.world with itemsReceived := items }
      verifiedBlocks := verified
      persister := .fetch event }.needed ⊆ p.needed) :
    { p with
      world := { p.world with itemsReceived := items }
      verifiedBlocks := verified
      persister := .fetch event }.Custody := by
  have hnot : ∀ event, p.persister ≠ .mark event := by simp [hidle]
  refine h.move (.refl _) hqueued hneeded (fun hj => hj) (.refl _)
    fun e _ he => he.of_other (hnot e) rfl fun other ho => ?_
  cases ho
  exact .inr hpresent

lemma takeVerified_custody (h : p.Custody) {event : BlockEvent} {rest : List BlockEvent}
    (here : p.persister = .idle) (queue : p.verifiedBlocks = event :: rest) :
    { p with verifiedBlocks := rest, persister := .fetch event }.Custody := by
  refine h.take here (h.present event (by simp [needed, queue])) ?_ ?_
  · simp only [queued, here, queue, PersistTask.event, Option.toList_none,
      Option.toList_some, List.append_nil, List.append_assoc]
    refine (List.Perm.append_left _ (List.Perm.append_left _ ?_)).subperm
    exact List.perm_append_singleton event rest
  · intro e he
    simp only [needed, queue, PersistTask.needs, List.mem_append, List.mem_cons,
      Option.toList_some, List.not_mem_nil, or_false] at he ⊢
    tauto

lemma takeUnverified_custody (h : p.Custody) {event : BlockEvent} {rest : List BlockEvent}
    (here : p.persister = .idle) (queue : p.world.itemsReceived = event :: rest) :
    { p with
      world := { p.world with itemsReceived := rest }
      persister := .fetch event }.Custody := by
  refine h.take here (h.present event (by simp [needed, queue])) ?_ ?_
  · simp only [queued, here, queue, PersistTask.event, Option.toList_none,
      Option.toList_some, List.append_nil, List.append_assoc, List.cons_append]
    rw [← List.append_assoc, ← List.append_assoc]
    refine (List.perm_append_singleton event _).subperm.trans ?_
    rw [List.append_assoc]
  · intro e he
    simp only [needed, queue, PersistTask.needs, List.mem_append, List.mem_cons,
      Option.toList_some, List.not_mem_nil, or_false] at he ⊢
    tauto

/-- `process_event` goes on with its event and may need its data no longer. -/
lemma Custody.proceed (h : p.Custody) (event : BlockEvent) {task : PersistTask} {store : Store}
    (hneeds : p.persister.needs = some event) (hevent : p.persister.event = some event)
    (htask : task.event = some event) (hsub : ∀ e ∈ task.needs, e = event) :
    { p with store := store, persister := task }.Custody := by
  have hnot : ∀ e, p.persister ≠ .mark e := by
    intro e he
    rw [he] at hneeds
    cases hneeds
  refine h.move (.refl _) ?_ ?_ (fun hj => hj) (.refl _) fun e _ he => he.of_other (hnot e) rfl ?_
  · simp only [queued, hevent, htask]
    exact .refl _
  · intro e he
    simp only [needed, List.mem_append, Option.mem_toList] at he ⊢
    rcases he with he | he
    · exact .inl he
    · exact .inr (by rw [hneeds, hsub e he])
  · intro other ho
    rw [hevent]
    exact .inl (htask ▸ ho)

/-- The broadcast: the event is announced while its data is still there. -/
lemma broadcast_custody (h : p.Custody) {event : BlockEvent}
    (hevent : p.persister = .broadcast event) :
    { p with
      sessions := fun id => (p.sessions id).map (Session.deliverPersisted event)
      stateEvents := p.stateEvents ++ [event]
      persister := .mark event }.Custody := by
  have hpresent : p.Present event.cacheKey :=
    h.present event (by simp [needed, hevent, PersistTask.needs])
  have hearlier : ∀ e ∈ p.announced, p.world.cache.get e.cacheKey = none ∧
      e.cacheKey < p.world.cache.nextKey ∧ event.cacheKey ≠ e.cacheKey := by
    intro e he
    rcases h.announced e he with ⟨hmark, -⟩ | ⟨hgone, hlt, hother⟩
    · rw [hevent] at hmark
      cases hmark
    · exact ⟨hgone, hlt, hother event (by rw [hevent]; rfl)⟩
  have hannounced : (p.stateEvents ++ [event] ++ p.statePlugin.loop.event.toList).Perm
      (event :: p.announced) := by
    simp only [announced, List.append_assoc, List.singleton_append]
    exact List.perm_middle
  have hqueued : { p with persister := .mark event }.queued = p.queued := by
    simp only [queued, hevent, PersistTask.event]
  have hkeys : ({ p with persister := .mark event }.queued.map BlockEvent.cacheKey).Subperm
      (p.queued.map BlockEvent.cacheKey) := by
    rw [hqueued]
  have hears (session : Session) : session.Hears (session.deliverPersisted event) :=
    Session.deliverPersisted_hears event
  refine .of_tickets (h.tickets.move hkeys (handsOver_map hears)) ?_ ?_ h.cleanup ?_ ?_
  · intro e he
    refine h.present e ?_
    simp only [needed, PersistTask.needs, List.mem_append, Option.toList_none, List.not_mem_nil,
      or_false] at he ⊢
    exact .inl he
  · exact fun hj => (h.handOver (handsOver_map hears hj)).1
  · change ((p.stateEvents ++ [event] ++ p.statePlugin.loop.event.toList).map _).Nodup
    rw [(hannounced.map _).nodup_iff, List.map_cons, List.nodup_cons]
    refine ⟨fun hmem => ?_, h.announced_nodup⟩
    obtain ⟨e, he, heq⟩ := List.mem_map.mp hmem
    exact (hearlier e he).2.2 heq.symm
  · intro e he
    rcases List.mem_cons.mp (hannounced.mem_iff.mp he) with rfl | he
    · exact .inl ⟨rfl, hpresent⟩
    · obtain ⟨hgone, hlt, hne⟩ := hearlier e he
      refine .inr ⟨hgone, hlt, fun other ho => ?_⟩
      cases ho
      exact hne

/-- A persister about to mark carries its event alone. -/
lemma Custody.mark_alone (h : p.Custody) {event : BlockEvent} (hevent : p.persister = .mark event) :
    event.cacheKey < p.world.cache.nextKey ∧
      { p with persister := .idle }.queued.Subperm p.queued ∧
      (∀ e ∈ p.needed, e.cacheKey ≠ event.cacheKey) ∧ ∀ {id}, ¬ p.HandsOver id event.cacheKey := by
  have hqueued : p.queued = { p with persister := .idle }.queued ++ [event] := by
    simp [queued, hevent, PersistTask.event]
  have hmem : event ∈ p.queued := by simp [hqueued]
  refine ⟨h.bound event hmem, ?_, fun e he heq => ?_, fun hj => (h.handOver hj).2.2 event hmem rfl⟩
  · rw [hqueued]
    exact (List.sublist_append_left _ _).subperm
  · have he' : e ∈ { p with persister := .idle }.needed := by
      simpa only [needed, hevent, PersistTask.needs] using he
    have hnodup := h.nodup
    rw [hqueued, List.map_append, List.nodup_append] at hnodup
    exact hnodup.2.2 _ (List.mem_map.mpr ⟨e, needed_subset he', rfl⟩) _ (by simp) heq

/-- The mark: the data of the event goes, and with it the chance to find it. -/
lemma mark_custody (h : p.Custody) {event : BlockEvent} (hevent : p.persister = .mark event) :
    { p.setCache (p.world.cache.markForRemoval event.cacheKey) with
      persister := .idle }.Custody := by
  obtain ⟨hlt, hqueued, halone, hhands⟩ := h.mark_alone hevent
  have hneeded : { p with persister := .idle }.needed ⊆ p.needed := by
    simp only [needed, hevent, PersistTask.needs]
    exact fun _ he => he
  refine h.remove hlt hqueued (fun e he => ⟨hneeded he, halone e (hneeded he)⟩) hhands ?_
  intro e he
  have hnext := p.world.cache.markForRemoval_nextKey event.cacheKey
  refine .inr ⟨?_, ?_, fun other ho => by cases ho⟩
  · dsimp only [setCache]
    rw [BlockDataCache.get_markForRemoval]
    rcases h.announced e he with ⟨hmark, -⟩ | ⟨hgone, -⟩
    · rw [hevent] at hmark
      cases hmark
      rw [if_pos rfl]
    · rw [hgone, ite_self]
  · rcases h.announced e he with ⟨hmark, -⟩ | ⟨-, hlt', -⟩
    · rw [hevent] at hmark
      cases hmark
      exact lt_of_lt_of_eq hlt hnext.symm
    · exact lt_of_lt_of_eq hlt' hnext.symm

lemma fetchBlock_event (codec : Codec) (cache : BlockDataCache) (event : BlockVerified) :
    (fetchBlock codec cache event).event = some event ∧
      ∀ e ∈ (fetchBlock codec cache event).needs, e = event := by
  unfold fetchBlock
  split
  · split
    · exact ⟨rfl, fun e he => by cases he; rfl⟩
    · exact ⟨rfl, fun e he => by cases he⟩
  · exact ⟨rfl, fun e he => by cases he⟩

lemma receive_event (last : Option ℕ) (event : BlockEvent) :
    (StatePlugin.receive last event).event.toList.Sublist [event] := by
  unfold StatePlugin.receive
  split
  · exact List.nil_sublist _
  · split_ifs
    · exact List.nil_sublist _
    · exact .refl _
    · exact .refl _

lemma stateReceive_custody (h : p.Custody) {last : Option ℕ} {event : BlockEvent}
    {rest : List BlockEvent} (here : p.statePlugin.loop = .waiting last)
    (queue : p.stateEvents = event :: rest) :
    { p with
      statePlugin := { p.statePlugin with loop := StatePlugin.receive last event }
      stateEvents := rest }.Custody := by
  refine h.stateTurn ?_
  simp only [announced, here, queue, StateLoop.event, Option.toList_none, List.append_nil]
  exact (List.Sublist.append_left (receive_event last event) rest).subperm.trans
    (List.perm_append_singleton event rest).subperm

/-- What the state plugin applies came from the cache: the entry was there, and it goes. -/
lemma applyEvent_custody (h : p.Custody) {event : BlockEvent}
    (hloop : p.statePlugin.loop = .applying event) (hpresent : p.Present event.cacheKey)
    {plugin : StatePlugin} (hplugin : plugin.loop.event = none) :
    { p.setCache (p.world.cache.markForRemoval event.cacheKey) with
      statePlugin := plugin }.Custody := by
  have hannounced : p.announced = p.stateEvents ++ [event] := by
    simp [announced, hloop, StateLoop.event]
  have hmark : p.persister = .mark event := (h.present_iff (by simp [hannounced])).mp hpresent
  obtain ⟨hlt, -, halone, hhands⟩ := h.mark_alone hmark
  have hafter : { p with statePlugin := plugin }.announced = p.stateEvents := by
    simp [announced, hplugin]
  have happlied : { p with statePlugin := plugin }.Custody := by
    refine h.stateTurn ?_
    rw [hafter, hannounced]
    exact (List.sublist_append_left _ _).subperm
  refine happlied.remove hlt (.refl _) (fun e he => ⟨he, halone e he⟩) hhands fun e he => ?_
  refine (happlied.announced e he).markForRemoval fun _ heq => ?_
  -- no other announced event has this key
  have hnodup := h.announced_nodup
  rw [hannounced, List.map_append, List.nodup_append] at hnodup
  exact hnodup.2.2 _ (List.mem_map.mpr ⟨e, hafter ▸ he, rfl⟩) _ (by simp) heq

lemma catchUp_event (env : StateEnv) (plugin : StatePlugin) (event : BlockEvent) (b : ℕ) :
    (plugin.catchUp codec env event b).loop.event = some event := by
  unfold StatePlugin.catchUp
  split
  · dsimp only
    split_ifs <;> rfl
  · rfl

lemma applyEvent_loop (codec : Codec) (env : StateEnv) (plugin : StatePlugin) (event : BlockEvent) :
    (env.cached event.cacheKey ≠ none ∧ (plugin.applyEvent codec env event).loop =
      .waiting (some event.blockNumber.toNat)) ∨
    (plugin.applyEvent codec env event).loop = .stopped := by
  unfold StatePlugin.applyEvent
  split
  · next plugin' hok =>
    refine .inl ⟨fun hnone => ?_, rfl⟩
    simp only [StatePlugin.applyFromBlockEvent, hnone] at hok
    cases hok
  · exact .inr rfl

lemma stateAdvance_custody (h : p.Custody) {plugin : StatePlugin}
    (hplugin : p.statePlugin.advance codec (p.stateEnv cfg codec) = some plugin) :
    { p.setCache (match p.statePlugin.loop, plugin.loop with
        | .applying event, .waiting _ => p.world.cache.markForRemoval event.cacheKey
        | _, _ => p.world.cache) with statePlugin := plugin }.Custody := by
  unfold StatePlugin.advance at hplugin
  split at hplugin
  · next event b hloop =>
    have hevent : plugin.loop.event = some event := by
      cases hplugin
      exact catchUp_event _ _ event b
    simp only [hloop]
    refine h.stateTurn ?_
    simp only [announced, setCache, hevent, hloop]
    exact .refl _
  · next event hloop =>
    cases hplugin
    rcases applyEvent_loop codec (p.stateEnv cfg codec) p.statePlugin event with
      ⟨hcached, hwait⟩ | hstop
    · simp only [hloop, hwait]
      exact applyEvent_custody h hloop hcached (by rw [hwait]; rfl)
    · simp only [hloop, hstop]
      refine h.stateTurn ?_
      simp only [announced, setCache, hstop, hloop, StateLoop.event, Option.toList_none,
        List.append_nil]
      exact (List.sublist_append_left _ _).subperm
  · cases hplugin

/-- A clean-up in which nothing is stale removes nothing. -/
lemma cleanup_custody (h : p.Custody)
    (hstale : p.world.cache.staleKeys p.world.now = []) :
    (p.setCache (p.world.cache.cleanup p.world.now)).Custody := by
  have hsame : p.world.cache.SameData (p.world.cache.cleanup p.world.now) :=
    BlockDataCache.cleanup_sameData hstale fun key hkey => (h.cleanup key hkey).1
  exact h.move hsame (.refl _) (fun _ he => he) (fun hj => hj) (.refl _)
    fun e _ he => he.congr hsame rfl

/-- The winner table and the clean-up of it have nothing to do with keys. -/
lemma Custody.setAside (h : p.Custody) {world : World} {task : CleanupTask}
    (hcache : world.cache = p.world.cache)
    (hreceived : world.itemsReceived = p.world.itemsReceived) :
    { p with world := world, cleanup := task }.Custody := by
  refine h.move (.of_eq hcache) ?_ ?_ (fun hj => hj) (.refl _)
    fun e _ he => he.congr (.of_eq hcache) rfl
  · simp only [queued, hreceived]
    exact .refl _
  · simp only [needed, hreceived]
    exact fun _ he => he

lemma connect_custody (h : p.Custody) : p.connect.Custody := by
  have hnothing : Session.new.HandsNothing := fun _ htask => by cases htask
  exact h.move (.refl _) (.refl _) (fun _ he => he) (fun hj => (handsOver_others hnothing hj).2)
    (.refl _) fun e _ he => he.congr (.refl _) rfl

/-- **One step of the node.** -/
lemma step_custody {act : PipelineAct} (h : p.Custody) (hfresh : NothingStale p act)
    (hstep : p.step cfg codec act = some p') : p'.Custody := by
  cases step_cases hstep with
  | connect => exact connect_custody h
  | session here step => exact sessionStep_custody h here step
  | takeReceived here queue => exact takeReceived_custody h here queue
  | verify here => exact verify_custody h here
  | pass here => exact pass_custody h here
  | fail here => exact fail_custody h here
  | markFailed here => exact markFailed_custody h here
  | takeVerified here queue => exact takeVerified_custody h here queue
  | takeUnverified here queue => exact takeUnverified_custody h here queue
  | @fetchBlock event here =>
    obtain ⟨hsame, hsub⟩ := fetchBlock_event codec p.world.cache event
    exact h.proceed event (by rw [here]; rfl) (by rw [here]; rfl) hsame hsub
  | @write event block here =>
    refine h.proceed event (by rw [here]; rfl) (by rw [here]; rfl) ?_ ?_
    · split <;> rfl
    · intro e he
      split at he <;> cases he
      rfl
  | broadcast here => exact broadcast_custody h here
  | mark here => exact mark_custody h here
  | stateReceive here queue => exact stateReceive_custody h here queue
  | stateAdvance next => exact stateAdvance_custody h next
  | cacheCleanup => exact cleanup_custody h hfresh
  | _ => exact h.setAside rfl rfl

end Pipeline

/-- **The state plugin at the cache.** In every run in which no entry outlives the TTL, the state
plugin finds the block it is about to apply exactly if `process_event` has not yet marked it for
removal, that is if persistence still stands between its broadcast and its mark. -/
theorem cached_iff_unmarked {cfg : PipelineConfig} {codec : Codec} {blocks : List Block}
    {plugin : StatePlugin} {actions : List PipelineAct} {p : Pipeline} {event : BlockPersisted}
    (hfresh : Along (Pipeline.step cfg codec) NothingStale (.init cfg codec blocks plugin) actions)
    (hrun : run (Pipeline.step cfg codec) (.init cfg codec blocks plugin) actions = some p)
    (hloop : p.statePlugin.loop = .applying event) :
    p.world.cache.get event.cacheKey ≠ none ↔ p.persister = .mark event := by
  have hcustody : p.Custody :=
    run_inv (fun h hC hs => Pipeline.step_custody h hC hs) (Pipeline.init_custody blocks plugin)
      hfresh hrun
  exact hcustody.present_iff (by simp [Pipeline.announced, hloop, StateLoop.event])

/-- Block 0 is published by one session and processed; the state plugin takes the event after
`marks` of the remaining steps of `process_event`. -/
def raceRun (marks : ℕ) : List PipelineAct :=
  [.connect, .session 0 (.request (.blockItems
      [⟨some (.blockHeader ⟨0, []⟩)⟩, ⟨some (.blockProof ⟨0, []⟩)⟩]))] ++
    List.replicate 7 (.session 0 .go) ++ List.replicate 3 .verifier ++
    List.replicate (4 + marks) .persister ++ [.stateReceive]

def genesisNode : PipelineConfig := ⟨zeroConfig, ⟨10, 1000⟩, true⟩

theorem cached_iff_unmarked_in_time : ∃ p,
    run (Pipeline.step genesisNode plainCodec) (.init genesisNode plainCodec [] .init)
        (raceRun 0) = some p ∧
      p.persister = .mark ⟨0, 0⟩ ∧ p.world.cache.get 0 ≠ none := by
  have hsome : ∃ p ∈ run (Pipeline.step genesisNode plainCodec)
      (.init genesisNode plainCodec [] .init) (raceRun 0),
      p.statePlugin.loop = .applying ⟨0, 0⟩ ∧ p.persister = .mark ⟨0, 0⟩ := by decide +kernel
  obtain ⟨p, hrun, hloop, hmark⟩ := hsome
  exact ⟨p, hrun, hmark, (cached_iff_unmarked (by decide +kernel) hrun hloop).mpr hmark⟩

/-- `process_event` marks the key before the state plugin looks: block 0, the next expected one,
is not found and the loop halts. -/
theorem cached_lost : ∃ p p',
    run (Pipeline.step genesisNode plainCodec) (.init genesisNode plainCodec [] .init)
        (raceRun 1) = some p ∧
      p.statePlugin.loop = .applying ⟨0, 0⟩ ∧ p.store.log.map Prod.fst = [0] ∧
      getLastProcessedBlock p.statePlugin.db = none ∧ p.world.cache.get 0 = none ∧
      p.step genesisNode plainCodec .stateAdvance = some p' ∧ p'.statePlugin.loop = .stopped := by
  have hsome : ∃ p ∈ run (Pipeline.step genesisNode plainCodec)
      (.init genesisNode plainCodec [] .init) (raceRun 1),
      p.statePlugin.loop = .applying ⟨0, 0⟩ ∧ p.store.log.map Prod.fst = [0] ∧
      getLastProcessedBlock p.statePlugin.db = none ∧ p.world.cache.get 0 = none ∧
      ∃ p' ∈ p.step genesisNode plainCodec .stateAdvance, p'.statePlugin.loop = .stopped := by
    decide +kernel
  obtain ⟨p, hrun, hloop, hlog, hlast, hgone, p', hstep, hstop⟩ := hsome
  exact ⟨p, p', hrun, hloop, hlog, hlast, hgone, hstep, hstop⟩

end RockNode
