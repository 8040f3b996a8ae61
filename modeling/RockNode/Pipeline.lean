import RockNode.Session
import RockNode.StatePlugin
import RockNode.Archiver

/-!
The node at work: publisher sessions, the verifier, the persistence task and the state plugin,
with the cache, the channels and the store between them.

Every task takes its steps at its own pace. A step of a task reads or changes one thing that
other tasks can see.
-/

namespace RockNode

structure PipelineConfig where
  persistence : Config
  publish : PublishConfig
  /-- whether the capability `ProvidesVerifiedBlocks` is registered -/
  verified : Bool

/-- Where the verifier stands: at its channel, or about to look into the cache, to pass the
block on, to broadcast the failure, to remove the data of a failed block. -/
inductive VerifierTask where
  | idle
  | fetch (event : BlockItemsReceived)
  | pass (event : BlockVerified)
  | fail (event : BlockVerificationFailed)
  | mark (event : BlockItemsReceived)
  deriving DecidableEq

/-- Where `process_event` stands: about to look into the cache, to write the block, to broadcast
the event, to remove the data. -/
inductive PersistTask where
  | idle
  | fetch (event : BlockVerified)
  | write (event : BlockVerified) (block : Block)
  | broadcast (event : BlockPersisted)
  | mark (event : BlockVerified)
  deriving DecidableEq

/-- Where the winner clean-up stands: it has computed its bound; it iterates over the entries,
of which `todo` were there at the start. -/
inductive CleanupTask where
  | idle
  | loaded (before : ℕ)
  | retaining (before : ℕ) (todo visited : List ℕ)
  deriving DecidableEq

structure Pipeline where
  world : World
  sessions : ℕ → Option Session
  nextSession : ℕ
  verifier : VerifierTask
  /-- the channel from the verifier to persistence -/
  verifiedBlocks : List BlockVerified
  persister : PersistTask
  store : Store
  statePlugin : StatePlugin
  /-- the receiver of the state plugin -/
  stateEvents : List BlockPersisted
  cleanup : CleanupTask

namespace Pipeline

/-- A node that starts with the given blocks in its store and the given state. -/
def init (cfg : PipelineConfig) (codec : Codec) (blocks : List Block) (plugin : StatePlugin) :
    Pipeline :=
  let store := (Store.init cfg.persistence).writes cfg.persistence codec blocks
  { world := .init ((store.db.metadata .latestPersisted).map UInt64.ofNat)
    sessions := fun _ => none
    nextSession := 0
    verifier := .idle
    verifiedBlocks := []
    persister := .idle
    store := store
    statePlugin := plugin.start cfg.persistence
    stateEvents := []
    cleanup := .idle }

/-- `read_block` of the service, while nothing has been archived. -/
def readBlock (cfg : PipelineConfig) (codec : Codec) (p : Pipeline) (n : ℕ) :
    Option (Option Bytes) :=
  { Node.init cfg.persistence with store := p.store }.readBlock codec n

/-- What the state plugin sees. -/
def stateEnv (cfg : PipelineConfig) (codec : Codec) (p : Pipeline) : StateEnv where
  readBlock n :=
    match p.readBlock cfg codec n with
    | some result => .ok result
    | none => .error "Failed to read block"
  cached := p.world.cache.get

/-! ### The tasks -/

def setCache (p : Pipeline) (cache : BlockDataCache) : Pipeline :=
  { p with world := { p.world with cache := cache } }

/-- `publish_block_stream`: a session is made and registered. -/
def connect (p : Pipeline) : Pipeline :=
  { p with
    world := { p.world with activeSessions := p.nextSession :: p.world.activeSessions }
    sessions := Function.update p.sessions p.nextSession (some .new)
    nextSession := p.nextSession + 1 }

def sessionStep (cfg : PipelineConfig) (codec : Codec) (p : Pipeline) (id : ℕ)
    (act : SessionAct) : Option Pipeline := do
  let session ← p.sessions id
  let (world, session') ← session.step cfg.publish codec id p.world act
  pure { p with world := world, sessions := Function.update p.sessions id (some session') }

lemma sessionStep_eq_some {cfg : PipelineConfig} {codec : Codec} {p p' : Pipeline} {id : ℕ}
    {act : SessionAct} (h : p.sessionStep cfg codec id act = some p') :
    ∃ session world session', p.sessions id = some session ∧
      session.step cfg.publish codec id p.world act = some (world, session') ∧
      p' = { p with
        world := world, sessions := Function.update p.sessions id (some session') } := by
  unfold sessionStep at h
  rcases hs : p.sessions id with _ | session
  · simp [hs] at h
  rcases hnext : session.step cfg.publish codec id p.world act with _ | ⟨world, session'⟩
  · simp [hs, hnext] at h
  exact ⟨session, world, session', rfl, hnext, by simpa [hs, hnext] using h.symm⟩

/-- The sessions after one of them has been replaced. -/
lemma update_sessions {f : ℕ → Option Session} {id j : ℕ} {session other : Session}
    (h : Function.update f id (some session) j = some other) :
    (j = id ∧ other = session) ∨ (j ≠ id ∧ f j = some other) := by
  by_cases hj : j = id
  · rw [hj, Function.update_self] at h
    exact .inl ⟨hj, (Option.some.inj h).symm⟩
  · rw [Function.update_of_ne hj] at h
    exact .inr ⟨hj, h⟩

/-- What the verifier finds under the key. -/
def verify (codec : Codec) (cache : BlockDataCache) (event : BlockItemsReceived) : VerifierTask :=
  match cache.get event.cacheKey with
  | some data =>
    match codec.decode data.contents with
    | some _ => .pass event
    | none => .fail ⟨event, "Block decode failed"⟩
  | none => .fail ⟨event, "Block data not found in cache"⟩

def verifierStep (cfg : PipelineConfig) (codec : Codec) (p : Pipeline) : Option Pipeline :=
  match p.verifier with
  | .idle =>
    match cfg.verified, p.world.itemsReceived with
    | true, event :: rest =>
      some { p with
        world := { p.world with itemsReceived := rest }, verifier := .fetch event }
    | _, _ => none
  | .fetch event => some { p with verifier := verify codec p.world.cache event }
  | .pass event =>
    some { p with verifiedBlocks := p.verifiedBlocks ++ [event], verifier := .idle }
  | .fail failed =>
    some { p with
      sessions := fun id => (p.sessions id).map (Session.deliverFailed failed)
      verifier := .mark failed.event }
  | .mark event =>
    some { p.setCache (p.world.cache.markForRemoval event.cacheKey) with verifier := .idle }

/-- What `process_event` finds under the key. -/
def fetchBlock (codec : Codec) (cache : BlockDataCache) (event : BlockVerified) : PersistTask :=
  match cache.get event.cacheKey with
  | some data =>
    match codec.decode data.contents with
    | some block => .write event block
    | none => .mark event
  | none => .mark event

/-- The next event for persistence; without a verifier it comes straight from the sessions. -/
def takeVerified (cfg : PipelineConfig) (p : Pipeline) : Option Pipeline :=
  if cfg.verified then
    match p.verifiedBlocks with
    | event :: rest => some { p with verifiedBlocks := rest, persister := .fetch event }
    | [] => none
  else
    match p.world.itemsReceived with
    | event :: rest =>
      some { p with
        world := { p.world with itemsReceived := rest }, persister := .fetch event }
    | [] => none

/-- `process_event` and the loop around it. -/
def persisterStep (cfg : PipelineConfig) (codec : Codec) (p : Pipeline) : Option Pipeline :=
  match p.persister with
  | .idle => p.takeVerified cfg
  | .fetch event => some { p with persister := fetchBlock codec p.world.cache event }
  | .write event block =>
    some { p with
      store := p.store.write cfg.persistence codec block
      persister := match (writeBlock cfg.persistence codec block p.store.db).2 with
        | .ok _ => .broadcast event
        | .err => .mark event }
  | .broadcast event =>
    some { p with
      sessions := fun id => (p.sessions id).map (Session.deliverPersisted event)
      stateEvents := p.stateEvents ++ [event]
      persister := .mark event }
  | .mark event =>
    some { p.setCache (p.world.cache.markForRemoval event.cacheKey) with persister := .idle }

/-- The state plugin takes its next event. -/
def stateReceive (p : Pipeline) : Option Pipeline :=
  match p.statePlugin.loop, p.stateEvents with
  | .waiting last, event :: rest =>
    some { p with
      statePlugin := { p.statePlugin with loop := StatePlugin.receive last event }
      stateEvents := rest }
  | _, _ => none

/-- The state plugin applies its next block; one that came from the cache is removed there. -/
def stateAdvance (cfg : PipelineConfig) (codec : Codec) (p : Pipeline) : Option Pipeline := do
  let plugin ← p.statePlugin.advance codec (p.stateEnv cfg codec)
  let cache := match p.statePlugin.loop, plugin.loop with
    | .applying event, .waiting _ => p.world.cache.markForRemoval event.cacheKey
    | _, _ => p.world.cache
  pure { p.setCache cache with statePlugin := plugin }

/-- The winner clean-up loads the watermark and computes its bound. -/
def loadCleanup (cfg : PipelineConfig) (p : Pipeline) : Option Pipeline :=
  let latest := p.world.latestPersistedBlock
  match p.cleanup with
  | .idle =>
    some { p with
      cleanup :=
        if 0 < latest ∧ cfg.publish.winnerCleanupThreshold < latest.toUInt64.toNat then
          .loaded (latest.toUInt64.toNat - cfg.publish.winnerCleanupThreshold)
        else .idle }
  | _ => none

def startRetain (p : Pipeline) : Option Pipeline :=
  match p.cleanup with
  | .loaded before =>
    some { p with
      cleanup := .retaining before (p.world.blockWinners.keys.filter (· < before)) [] }
  | _ => none

/-- `retain` comes to the place of an entry and drops it if it lies below the bound. -/
def retainVisit (p : Pipeline) (n : ℕ) : Option Pipeline :=
  match p.cleanup with
  | .retaining before todo visited =>
    if n < before ∧ n ∉ visited then
      some { p with
        world := p.world.unclaim n
        cleanup := .retaining before todo (n :: visited) }
    else none
  | _ => none

def finishRetain (p : Pipeline) : Option Pipeline :=
  match p.cleanup with
  | .retaining _ todo visited =>
    if ∀ n ∈ todo, p.world.blockWinners.get n ≠ none → n ∈ visited then
      some { p with cleanup := .idle }
    else none
  | _ => none

end Pipeline

inductive PipelineAct where
  | connect
  | session (id : ℕ) (act : SessionAct)
  | verifier
  | persister
  | stateReceive
  | stateAdvance
  | loadCleanup
  | startRetain
  | retainVisit (n : ℕ)
  | finishRetain
  | cacheCleanup
  | tick

def Pipeline.step (cfg : PipelineConfig) (codec : Codec) (p : Pipeline) :
    PipelineAct → Option Pipeline
  | .connect => some p.connect
  | .session id act => p.sessionStep cfg codec id act
  | .verifier => p.verifierStep cfg codec
  | .persister => p.persisterStep cfg codec
  | .stateReceive => p.stateReceive
  | .stateAdvance => p.stateAdvance cfg codec
  | .loadCleanup => p.loadCleanup cfg
  | .startRetain => p.startRetain
  | .retainVisit n => p.retainVisit n
  | .finishRetain => p.finishRetain
  | .cacheCleanup => some (p.setCache (p.world.cache.cleanup p.world.now))
  | .tick => some { p with world := { p.world with now := p.world.now + 1 } }

/-! ### Conditions on steps -/

/-- A condition on the steps of sessions. -/
def AtSession (C : Pipeline → ℕ → Session → SessionAct → Prop) (p : Pipeline) :
    PipelineAct → Prop
  | .session id act => ∀ session ∈ p.sessions id, C p id session act
  | _ => True

/-- A condition on the steps of the verifier. -/
def AtVerifier (C : Pipeline → Prop) (p : Pipeline) : PipelineAct → Prop
  | .verifier => C p
  | _ => True

/-- A condition on the steps of the persistence task. -/
def AtPersister (C : Pipeline → Prop) (p : Pipeline) : PipelineAct → Prop
  | .persister => C p
  | _ => True

/-- A condition on the winner clean-up when it comes to an entry. -/
def AtRetain (C : Pipeline → ℕ → Prop) (p : Pipeline) : PipelineAct → Prop
  | .retainVisit n => C p n
  | _ => True

instance {C : Pipeline → ℕ → Session → SessionAct → Prop}
    [∀ p id session act, Decidable (C p id session act)] (p : Pipeline) (act : PipelineAct) :
    Decidable (AtSession C p act) :=
  match act with
  | .session id act => inferInstanceAs (Decidable (∀ session ∈ p.sessions id, C p id session act))
  | .connect | .verifier | .persister | .stateReceive | .stateAdvance | .loadCleanup
  | .startRetain | .retainVisit _ | .finishRetain | .cacheCleanup | .tick => isTrue trivial

instance {C : Pipeline → Prop} [∀ p, Decidable (C p)] (p : Pipeline) (act : PipelineAct) :
    Decidable (AtVerifier C p act) :=
  match act with
  | .verifier => inferInstanceAs (Decidable (C p))
  | .connect | .session .. | .persister | .stateReceive | .stateAdvance | .loadCleanup
  | .startRetain | .retainVisit _ | .finishRetain | .cacheCleanup | .tick => isTrue trivial

instance {C : Pipeline → Prop} [∀ p, Decidable (C p)] (p : Pipeline) (act : PipelineAct) :
    Decidable (AtPersister C p act) :=
  match act with
  | .persister => inferInstanceAs (Decidable (C p))
  | .connect | .session .. | .verifier | .stateReceive | .stateAdvance | .loadCleanup
  | .startRetain | .retainVisit _ | .finishRetain | .cacheCleanup | .tick => isTrue trivial

instance {C : Pipeline → ℕ → Prop} [∀ p n, Decidable (C p n)] (p : Pipeline)
    (act : PipelineAct) : Decidable (AtRetain C p act) :=
  match act with
  | .retainVisit n => inferInstanceAs (Decidable (C p n))
  | .connect | .session .. | .verifier | .persister | .stateReceive | .stateAdvance
  | .loadCleanup | .startRetain | .finishRetain | .cacheCleanup | .tick => isTrue trivial

/-! ### What a step can do -/

namespace Pipeline

/-- The steps of the node, each with what it finds. -/
inductive Step (cfg : PipelineConfig) (codec : Codec) (p : Pipeline) :
    PipelineAct → Pipeline → Prop
  | connect : Step cfg codec p .connect p.connect
  | session {id act session world session'} (here : p.sessions id = some session)
    (step : session.Step cfg.publish codec id p.world act world session') :
    Step cfg codec p (.session id act)
      { p with world := world, sessions := Function.update p.sessions id (some session') }
  | takeReceived {event rest} (here : p.verifier = .idle)
    (queue : p.world.itemsReceived = event :: rest) :
    Step cfg codec p .verifier
      { p with world := { p.world with itemsReceived := rest }, verifier := .fetch event }
  | verify {event} (here : p.verifier = .fetch event) :
    Step cfg codec p .verifier { p with verifier := verify codec p.world.cache event }
  | pass {event} (here : p.verifier = .pass event) :
    Step cfg codec p .verifier
      { p with verifiedBlocks := p.verifiedBlocks ++ [event], verifier := .idle }
  | fail {failed} (here : p.verifier = .fail failed) :
    Step cfg codec p .verifier
      { p with
        sessions := fun id => (p.sessions id).map (Session.deliverFailed failed)
        verifier := .mark failed.event }
  | markFailed {event} (here : p.verifier = .mark event) :
    Step cfg codec p .verifier
      { p.setCache (p.world.cache.markForRemoval event.cacheKey) with verifier := .idle }
  | takeVerified {event rest} (here : p.persister = .idle)
    (queue : p.verifiedBlocks = event :: rest) :
    Step cfg codec p .persister { p with verifiedBlocks := rest, persister := .fetch event }
  | takeUnverified {event rest} (here : p.persister = .idle)
    (queue : p.world.itemsReceived = event :: rest) :
    Step cfg codec p .persister
      { p with world := { p.world with itemsReceived := rest }, persister := .fetch event }
  | fetchBlock {event} (here : p.persister = .fetch event) :
    Step cfg codec p .persister { p with persister := fetchBlock codec p.world.cache event }
  | write {event block} (here : p.persister = .write event block) :
    Step cfg codec p .persister
      { p with
        store := p.store.write cfg.persistence codec block
        persister := match (writeBlock cfg.persistence codec block p.store.db).2 with
          | .ok _ => .broadcast event
          | .err => .mark event }
  | broadcast {event} (here : p.persister = .broadcast event) :
    Step cfg codec p .persister
      { p with
        sessions := fun id => (p.sessions id).map (Session.deliverPersisted event)
        stateEvents := p.stateEvents ++ [event]
        persister := .mark event }
  | mark {event} (here : p.persister = .mark event) :
    Step cfg codec p .persister
      { p.setCache (p.world.cache.markForRemoval event.cacheKey) with persister := .idle }
  | stateReceive {last event rest} (here : p.statePlugin.loop = .waiting last)
    (queue : p.stateEvents = event :: rest) :
    Step cfg codec p .stateReceive
      { p with
        statePlugin := { p.statePlugin with loop := StatePlugin.receive last event }
        stateEvents := rest }
  | stateAdvance {plugin}
    (next : p.statePlugin.advance codec (p.stateEnv cfg codec) = some plugin) :
    Step cfg codec p .stateAdvance
      { p.setCache (match p.statePlugin.loop, plugin.loop with
          | .applying event, .waiting _ => p.world.cache.markForRemoval event.cacheKey
          | _, _ => p.world.cache) with statePlugin := plugin }
  | loadCleanup {task} (here : p.cleanup = .idle) (bound : ∀ before, task = .loaded before →
      0 < p.world.latestPersistedBlock ∧ before + cfg.publish.winnerCleanupThreshold =
        p.world.latestPersistedBlock.toUInt64.toNat) (load : ∀ before todo visited,
      task ≠ .retaining before todo visited) :
    Step cfg codec p .loadCleanup { p with cleanup := task }
  | startRetain {before} (here : p.cleanup = .loaded before) :
    Step cfg codec p .startRetain
      { p with cleanup := .retaining before (p.world.blockWinners.keys.filter (· < before)) [] }
  | retainVisit {n before todo visited} (here : p.cleanup = .retaining before todo visited)
    (below : n < before) (fresh : n ∉ visited) :
    Step cfg codec p (.retainVisit n)
      { p with
        world := p.world.unclaim n
        cleanup := .retaining before todo (n :: visited) }
  | finishRetain {before todo visited} (here : p.cleanup = .retaining before todo visited) :
    Step cfg codec p .finishRetain { p with cleanup := .idle }
  | cacheCleanup :
    Step cfg codec p .cacheCleanup (p.setCache (p.world.cache.cleanup p.world.now))
  | tick : Step cfg codec p .tick { p with world := { p.world with now := p.world.now + 1 } }

variable {cfg : PipelineConfig} {codec : Codec} {p p' : Pipeline}

lemma verifierStep_cases (h : p.verifierStep cfg codec = some p') :
    Step cfg codec p .verifier p' := by
  unfold verifierStep at h
  split at h
  · next here =>
    split at h
    · next queue => cases h; exact .takeReceived here queue
    · cases h
  · next here => cases h; exact .verify here
  · next here => cases h; exact .pass here
  · next here => cases h; exact .fail here
  · next here => cases h; exact .markFailed here

lemma persisterStep_cases (h : p.persisterStep cfg codec = some p') :
    Step cfg codec p .persister p' := by
  unfold persisterStep at h
  split at h
  · next here =>
    unfold takeVerified at h
    split_ifs at h
    · split at h
      · next queue => cases h; exact .takeVerified here queue
      · cases h
    · split at h
      · next queue => cases h; exact .takeUnverified here queue
      · cases h
  · next here => cases h; exact .fetchBlock here
  · next here => cases h; exact .write here
  · next here => cases h; exact .broadcast here
  · next here => cases h; exact .mark here

lemma loadCleanup_cases (h : p.loadCleanup cfg = some p') : Step cfg codec p .loadCleanup p' := by
  unfold loadCleanup at h
  dsimp only at h
  split at h
  · next here =>
    cases h
    refine .loadCleanup here (fun before hbefore => ?_) fun before todo visited hretain => ?_
    · split_ifs at hbefore with hcond
      cases hbefore
      exact ⟨hcond.1, Nat.sub_add_cancel hcond.2.le⟩
    · split_ifs at hretain
  · cases h

/-- **The step function, read backwards.** -/
theorem step_cases {act : PipelineAct} (h : p.step cfg codec act = some p') :
    Step cfg codec p act p' := by
  cases act with
  | connect => cases h; exact .connect
  | session id act =>
    obtain ⟨session, world, session', here, hnext, rfl⟩ := sessionStep_eq_some h
    exact .session here (Session.step_cases hnext)
  | verifier => exact verifierStep_cases h
  | persister => exact persisterStep_cases h
  | stateReceive =>
    change p.stateReceive = some p' at h
    unfold stateReceive at h
    split at h
    · next here queue => cases h; exact .stateReceive here queue
    · cases h
  | stateAdvance =>
    change p.stateAdvance cfg codec = some p' at h
    unfold stateAdvance at h
    rcases hplugin : p.statePlugin.advance codec (p.stateEnv cfg codec) with _ | plugin
    · simp [hplugin] at h
    · rw [hplugin] at h
      cases h
      exact .stateAdvance hplugin
  | loadCleanup => exact loadCleanup_cases h
  | startRetain =>
    change p.startRetain = some p' at h
    unfold startRetain at h
    split at h
    · next here => cases h; exact .startRetain here
    · cases h
  | retainVisit n =>
    change p.retainVisit n = some p' at h
    unfold retainVisit at h
    split at h
    · next here =>
      split_ifs at h with hcond
      cases h
      exact .retainVisit here hcond.1 hcond.2
    · cases h
  | finishRetain =>
    change p.finishRetain = some p' at h
    unfold finishRetain at h
    split at h
    · next here =>
      split_ifs at h
      cases h
      exact .finishRetain here
    · cases h
  | cacheCleanup => cases h; exact .cacheCleanup
  | tick => cases h; exact .tick

end Pipeline

end RockNode
