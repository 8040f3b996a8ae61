import RockNode.Keys
import RockNode.BlockInProgress
import RockNode.Tickets
import RockNode.Runs

/-!
A record of what becomes of the blocks that sessions hand over.

Every block that has been handed over is on its way until it fails verification or is stored.
Its key is a ticket: it is made by the session, passed on to the verifier and from there to
persistence, and settled once.
-/

namespace RockNode

/-- A header is accepted, a failure is broadcast, a block is stored under its number, a stored
block is broadcast. -/
inductive Happening where
  | accepted (n : ℕ)
  | failed (event : BlockEvent)
  | stored (n : ℕ) (event : BlockEvent)
  | persisted (event : BlockEvent)
  deriving DecidableEq

/-- The key of the block about which this decides. -/
def Happening.settles : Happening → Option ℕ
  | .failed event => some event.cacheKey
  | .stored _ event => some event.cacheKey
  | _ => none

def settled (log : List Happening) : List ℕ := log.filterMap Happening.settles

/-- The number under which a call of `write_block` commits its block. -/
def committedAs (cfg : Config) (codec : Codec) (block : Block) (db : Db) : Option ℕ := do
  let n ← getBlockNumber block
  let _ ← (prepareBatch cfg codec block n).run db
  pure n

lemma committedAs_of_ok {cfg : Config} {codec : Codec} {block : Block} {db : Db} {notified : Bool}
    (h : (writeBlock cfg codec block db).2 = .ok notified) :
    ∃ n, committedAs cfg codec block db = some n := by
  unfold writeBlock at h
  unfold committedAs
  rcases hn : getBlockNumber block with _ | n
  · simp [hn] at h
  · rcases hrun : (prepareBatch cfg codec block n).run db with _ | ⟨batch, gap⟩
    · simp [hn, hrun] at h
    · exact ⟨n, by simp [hrun]⟩

/-- The event of a task about which nothing has been decided. -/
def VerifierTask.pending : VerifierTask → Option BlockEvent
  | .fetch event => some event
  | .pass event => some event
  | .fail failed => some failed.event
  | _ => none

def PersistTask.pending : PersistTask → Option BlockEvent
  | .fetch event => some event
  | .write event _ => some event
  | _ => none

/-- The event persistence is about to broadcast. -/
def PersistTask.announcing : PersistTask → Option BlockEvent
  | .broadcast event => some event
  | _ => none

namespace Pipeline

variable {cfg : PipelineConfig} {codec : Codec} {p p' : Pipeline} {act : PipelineAct}
  {log : List Happening}

/-- The block whose header the session accepts in its next step: `get_action_for_header` finds
the winner entry vacant. -/
def accepts (p : Pipeline) (id : ℕ) : Option ℕ := do
  let session ← p.sessions id
  let (n, _) ← session.electing
  if p.world.blockWinners.get n.toUInt64.toNat = none then some n.toUInt64.toNat else none

/-- What a step adds to the record. -/
def happens (cfg : PipelineConfig) (codec : Codec) (p : Pipeline) :
    PipelineAct → List Happening
  | .session id _ => ((p.accepts id).map .accepted).toList
  | .verifier =>
    match p.verifier with
    | .fail failed => [.failed failed.event]
    | _ => []
  | .persister =>
    match p.persister with
    | .write event block =>
      ((committedAs cfg.persistence codec block p.store.db).map (.stored · event)).toList
    | .broadcast event => [.persisted event]
    | _ => []
  | _ => []

/-- The node with the record. -/
abbrev stepRecorded (cfg : PipelineConfig) (codec : Codec) :
    Pipeline × List Happening → PipelineAct → Option (Pipeline × List Happening) :=
  recorded (step cfg codec) (happens cfg codec)

/-- The blocks about which nothing has been decided. -/
def pending (p : Pipeline) : List BlockEvent :=
  p.world.itemsReceived ++ p.verifier.pending.toList ++ p.verifiedBlocks ++
    p.persister.pending.toList

/-- The keys of all blocks that have been handed over and not dropped. -/
def handedOver (p : Pipeline) (log : List Happening) : List ℕ :=
  p.pending.map BlockEvent.cacheKey ++ settled log

/-- Each key is in one place, and a block is broadcast after it has been stored. -/
structure Ledger (p : Pipeline) (log : List Happening) : Prop where
  tickets : Tickets p.world.cache.nextKey p.HandsOver (p.handedOver log)
  announcing : ∀ event ∈ p.persister.announcing, event.cacheKey ∈ settled log
  persisted : ∀ event, .persisted event ∈ log → event.cacheKey ∈ settled log

/-- Who adds what to the record. -/
lemma mem_happens {happening : Happening} (h : happening ∈ p.happens cfg codec act) :
    (∃ id sact n, act = .session id sact ∧ p.accepts id = some n ∧ happening = .accepted n) ∨
    (∃ failed, act = .verifier ∧ p.verifier = .fail failed ∧ happening = .failed failed.event) ∨
    (∃ n event block, act = .persister ∧ p.persister = .write event block ∧
      committedAs cfg.persistence codec block p.store.db = some n ∧
      happening = .stored n event) ∨
    (∃ event, act = .persister ∧ p.persister = .broadcast event ∧
      happening = .persisted event) := by
  cases act with
  | session id sact =>
    simp only [happens, Option.mem_toList] at h
    obtain ⟨n, hn, rfl⟩ := Option.map_eq_some_iff.mp h
    exact .inl ⟨id, sact, n, rfl, hn, rfl⟩
  | verifier =>
    simp only [happens] at h
    split at h
    · next failed here => exact .inr (.inl ⟨failed, rfl, here, List.mem_singleton.mp h⟩)
    · cases h
  | persister =>
    simp only [happens] at h
    split at h
    · next event block here =>
      rw [Option.mem_toList] at h
      obtain ⟨n, hn, rfl⟩ := Option.map_eq_some_iff.mp h
      exact .inr (.inr (.inl ⟨n, event, block, rfl, here, hn, rfl⟩))
    · next event here =>
      exact .inr (.inr (.inr ⟨event, rfl, here, List.mem_singleton.mp h⟩))
    · cases h
  | _ => cases h

lemma settled_append (log more : List Happening) :
    settled (log ++ more) = settled log ++ settled more :=
  List.filterMap_append

lemma init_ledger (blocks : List Block) (plugin : StatePlugin) :
    (init cfg codec blocks plugin).Ledger [] where
  tickets := .none fun h => by
    obtain ⟨session, hs, -⟩ := h
    cases hs
  announcing _ h := by cases h
  persisted _ h := by cases h

/-- How often a key is pending or settled. -/
lemma count_handedOver (k : ℕ) : (p.handedOver log).count k =
    (p.world.itemsReceived.map BlockEvent.cacheKey).count k +
    (p.verifier.pending.toList.map BlockEvent.cacheKey).count k +
    (p.verifiedBlocks.map BlockEvent.cacheKey).count k +
    (p.persister.pending.toList.map BlockEvent.cacheKey).count k + (settled log).count k := by
  simp only [handedOver, pending, List.map_append, List.count_append]

/-- Blocks move on, are settled or dropped; the sessions have no part in it. -/
lemma Ledger.move (h : p.Ledger log) {more : List Happening}
    (hnext : p'.world.cache.nextKey = p.world.cache.nextKey)
    (hhands : ∀ {id key}, p'.HandsOver id key → p.HandsOver id key)
    (hcount : ∀ k, (p'.handedOver (log ++ more)).count k ≤ (p.handedOver log).count k)
    (hannouncing : ∀ event ∈ p'.persister.announcing, event.cacheKey ∈ settled (log ++ more))
    (hpersisted : ∀ event, .persisted event ∈ more → event.cacheKey ∈ settled (log ++ more)) :
    p'.Ledger (log ++ more) where
  tickets := hnext ▸ h.tickets.move (List.subperm_ext_iff.mpr fun k _ => hcount k) hhands
  announcing := hannouncing
  persisted event he := by
    rcases List.mem_append.mp he with he | he
    · rw [settled_append]
      exact List.mem_append_left _ (h.persisted event he)
    · exact hpersisted event he

/-- What settles nothing does not matter to the ledger. -/
lemma Ledger.note (h : p.Ledger log) {more : List Happening}
    (hmore : ∀ happening ∈ more, ∃ n, happening = .accepted n) : p.Ledger (log ++ more) := by
  have hsettled : settled (log ++ more) = settled log := by
    have hnothing : settled more = [] := List.filterMap_eq_nil_iff.mpr fun happening hmem => by
      obtain ⟨n, rfl⟩ := hmore happening hmem
      rfl
    rw [settled_append, hnothing, List.append_nil]
  refine ⟨?_, ?_, fun event he => ?_⟩
  · unfold handedOver
    rw [hsettled]
    exact h.tickets
  · rw [hsettled]
    exact h.announcing
  · rw [hsettled]
    rcases List.mem_append.mp he with he | he
    · exact h.persisted event he
    · obtain ⟨n, hn⟩ := hmore _ he
      cases hn

/-- A step that decides nothing. -/
lemma Ledger.quiet (h : p.Ledger log)
    (hnext : p'.world.cache.nextKey = p.world.cache.nextKey)
    (hhands : ∀ {id key}, p'.HandsOver id key → p.HandsOver id key)
    (hcount : ∀ k, (p'.handedOver log).count k ≤ (p.handedOver log).count k)
    (hannouncing : ∀ event ∈ p'.persister.announcing, event ∈ p.persister.announcing) :
    p'.Ledger (log ++ []) := by
  rw [List.append_nil]
  exact ⟨hnext ▸ h.tickets.move (List.subperm_ext_iff.mpr fun k _ => hcount k) hhands,
    fun event he => h.announcing event (hannouncing event he), h.persisted⟩

lemma session_ledger (h : p.Ledger log) {id : ℕ} {sact : SessionAct} {session session' : Session}
    {world : World} (here : p.sessions id = some session)
    (step : session.Step cfg.publish codec id p.world sact world session') :
    Ledger { p with
      world := world, sessions := Function.update p.sessions id (some session') } log := by
  refine ⟨?_, h.announcing, h.persisted⟩
  rcases step.keys with
    ⟨hcache, hreceived, hnothing⟩ | ⟨rfl, htask⟩ | ⟨key, htask, hcache, hreceived, hnothing⟩
  · -- nothing to do with keys
    simp only [handedOver, pending, hcache, hreceived]
    exact h.tickets.move (.refl _) fun hj => (handsOver_others hnothing hj).2
  · exact h.tickets.make fun hj => handsOver_made htask hj
  · simp only [hcache]
    refine h.tickets.pass ⟨session, here, htask⟩ ?_ fun hj => ?_
    · refine List.perm_iff_count.mpr fun k => ?_
      simp only [List.count_cons, count_handedOver, hreceived, List.map_append, List.count_append,
        List.map_cons, List.map_nil, List.count_nil]
      omega
    · exact handsOver_others hnothing hj

lemma verify_pending (cache : BlockDataCache) (event : BlockItemsReceived) :
    (verify codec cache event).pending = some event := by
  unfold verify
  split
  · split <;> rfl
  · rfl

lemma fetchBlock_cases (codec : Codec) (cache : BlockDataCache) (event : BlockVerified) :
    (∃ block, fetchBlock codec cache event = .write event block) ∨
      fetchBlock codec cache event = .mark event := by
  unfold fetchBlock
  split
  · split
    · exact .inl ⟨_, rfl⟩
    · exact .inr rfl
  · exact .inr rfl

/-- `process_event` stores the block, or gives it up. -/
lemma write_ledger (h : p.Ledger log) {event : BlockEvent} {block : Block}
    (here : p.persister = .write event block) :
    Ledger { p with
        store := p.store.write cfg.persistence codec block
        persister := match (writeBlock cfg.persistence codec block p.store.db).2 with
          | .ok _ => .broadcast event
          | .err => .mark event }
      (log ++
        ((committedAs cfg.persistence codec block p.store.db).map (.stored · event)).toList) := by
  set task : PersistTask := match (writeBlock cfg.persistence codec block p.store.db).2 with
    | .ok _ => .broadcast event
    | .err => .mark event with htask
  have hpending : task.pending = none := by
    rw [htask]
    split <;> rfl
  -- what is going to be broadcast has been stored
  have hstored : ∀ e ∈ task.announcing,
      ∃ n, e = event ∧ committedAs cfg.persistence codec block p.store.db = some n := by
    intro e he
    rw [htask] at he
    split at he
    · next notified hok =>
      cases he
      obtain ⟨n, hn⟩ := committedAs_of_ok hok
      exact ⟨n, rfl, hn⟩
    · cases he
  have hsettled : settled (log ++
      ((committedAs cfg.persistence codec block p.store.db).map (.stored · event)).toList) =
      settled log ++ ((committedAs cfg.persistence codec block p.store.db).map
        fun _ => event.cacheKey).toList := by
    rw [settled_append]
    cases committedAs cfg.persistence codec block p.store.db <;> rfl
  refine h.move rfl (fun hj => hj) (fun k => ?_) (fun e he => ?_) fun e he => ?_
  · have hwrite : p.persister.pending = some event := by
      rw [here]
      rfl
    simp only [count_handedOver, hsettled, hpending, hwrite, Option.toList_some,
      Option.toList_none, List.map_cons, List.map_nil, List.count_nil, List.count_append]
    rcases committedAs cfg.persistence codec block p.store.db with _ | n <;>
      simp only [Option.map_none, Option.map_some, Option.toList_none, Option.toList_some,
        List.count_nil] <;> omega
  · obtain ⟨n, rfl, hn⟩ := hstored e he
    rw [hsettled, hn]
    exact List.mem_append_right _ List.mem_cons_self
  · cases hc : committedAs cfg.persistence codec block p.store.db <;> simp [hc] at he

/-- **The ledger is kept** by every step of the node. -/
theorem step_ledger (h : p.Ledger log) (hstep : p.step cfg codec act = some p') :
    p'.Ledger (log ++ p.happens cfg codec act) := by
  cases step_cases hstep with
  | connect =>
    have hnothing : Session.new.HandsNothing := fun _ htask => by cases htask
    exact h.quiet rfl (fun hj => (handsOver_others hnothing hj).2) (fun _ => le_rfl)
      fun _ he => he
  | session here step =>
    refine (session_ledger h here step).note fun happening hmem => ?_
    obtain ⟨n, -, rfl⟩ := Option.map_eq_some_iff.mp (Option.mem_toList.mp hmem)
    exact ⟨n, rfl⟩
  | takeReceived here queue =>
    simp only [happens, here]
    refine h.quiet rfl (fun hj => hj) (fun k => ?_) fun _ he => he
    simp only [count_handedOver, here, queue, VerifierTask.pending, Option.toList_some,
      Option.toList_none, List.map_cons, List.map_nil, List.count_cons, List.count_nil]
    omega
  | @verify event here =>
    have hsame : (verify codec p.world.cache event).pending = p.verifier.pending := by
      rw [verify_pending, here]
      rfl
    simp only [happens, here]
    refine h.quiet rfl (fun hj => hj) (fun k => ?_) fun _ he => he
    simp only [count_handedOver, hsame, le_refl]
  | pass here =>
    simp only [happens, here]
    refine h.quiet rfl (fun hj => hj) (fun k => ?_) fun _ he => he
    simp only [count_handedOver, here, VerifierTask.pending, Option.toList_some,
      Option.toList_none, List.map_append, List.count_append, List.map_cons, List.map_nil,
      List.count_nil]
    omega
  | fail here =>
    simp only [happens, here]
    refine h.move rfl (handsOver_map fun _ => Session.deliverFailed_hears _) (fun k => ?_) ?_ ?_
    · simp only [count_handedOver, here, VerifierTask.pending, settled, Happening.settles,
        Option.toList_some, Option.toList_none, List.map_cons, List.map_nil, List.count_nil,
        List.filterMap_append, List.filterMap_cons, List.filterMap_nil, List.count_append]
      omega
    · intro event he
      rw [settled_append]
      exact List.mem_append_left _ (h.announcing event he)
    · intro event he
      simp at he
  | markFailed here =>
    simp only [happens, here]
    refine h.quiet (BlockDataCache.markForRemoval_nextKey _ _) (fun hj => hj) (fun k => ?_)
      fun _ he => he
    simp only [count_handedOver, here, VerifierTask.pending]
    exact le_rfl
  | takeVerified here queue =>
    simp only [happens, here]
    refine h.quiet rfl (fun hj => hj) (fun k => ?_) fun _ he => by cases he
    simp only [count_handedOver, here, queue, PersistTask.pending, Option.toList_some,
      Option.toList_none, List.map_cons, List.map_nil, List.count_cons, List.count_nil]
    omega
  | takeUnverified here queue =>
    simp only [happens, here]
    refine h.quiet rfl (fun hj => hj) (fun k => ?_) fun _ he => by cases he
    simp only [count_handedOver, here, queue, PersistTask.pending, Option.toList_some,
      Option.toList_none, List.map_cons, List.map_nil, List.count_cons, List.count_nil]
    omega
  | @fetchBlock event here =>
    simp only [happens, here]
    rcases fetchBlock_cases codec p.world.cache event with ⟨block, htask⟩ | htask
    · refine h.quiet rfl (fun hj => hj) (fun k => ?_) fun _ he => by rw [htask] at he; cases he
      simp only [count_handedOver, here, htask, PersistTask.pending]
      exact le_rfl
    · refine h.quiet rfl (fun hj => hj) (fun k => ?_) fun _ he => by rw [htask] at he; cases he
      simp only [count_handedOver, here, htask, PersistTask.pending, Option.toList_none,
        List.map_nil, List.count_nil]
      omega
  | write here =>
    simp only [happens, here]
    exact write_ledger h here
  | @broadcast event here =>
    simp only [happens, here]
    refine h.move rfl (handsOver_map fun _ => Session.deliverPersisted_hears _) (fun k => ?_)
      (fun _ he => by cases he) fun e he => ?_
    · simp only [count_handedOver, here, PersistTask.pending, settled, Happening.settles,
        List.filterMap_append, List.filterMap_cons, List.filterMap_nil, List.append_nil, le_refl]
    · cases List.mem_singleton.mp he
      rw [settled_append]
      exact List.mem_append_left _ (h.announcing event (by rw [here]; rfl))
  | mark here =>
    simp only [happens, here]
    refine h.quiet (BlockDataCache.markForRemoval_nextKey _ _) (fun hj => hj) (fun k => ?_)
      fun _ he => by cases he
    simp only [count_handedOver, here, PersistTask.pending]
    exact le_rfl
  | cacheCleanup =>
    exact h.quiet (BlockDataCache.cleanup_nextKey _ _) (fun hj => hj) (fun _ => le_rfl)
      fun _ he => he
  | stateAdvance =>
    refine h.quiet ?_ (fun hj => hj) (fun _ => le_rfl) fun _ he => he
    dsimp only [setCache]
    split
    · exact BlockDataCache.markForRemoval_nextKey _ _
    · rfl
  | _ => exact h.quiet rfl (fun hj => hj) (fun _ => le_rfl) fun _ he => he

end Pipeline

end RockNode
