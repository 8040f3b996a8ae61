import RockNode.Pipeline
import RockNode.BlockInProgress
import RockNode.Handlers
import RockNode.ArchiverSpec
import RockNode.Runs

/-!
What an acknowledgement says: the block is in the store under its number and can be read.

The number travels from the header through the buffer of the session, the cache entry and the
events to the acknowledgement; on the way the store has filed the block under the number in its
first item. The two agree as long as no session accepts a header in the middle of a block.
-/

namespace RockNode

/-- A block with the header `n` has been committed and is what `read_block` returns. -/
def Pipeline.Recorded (cfg : PipelineConfig) (codec : Codec) (p : Pipeline) (n : ℕ) : Prop :=
  ∃ block, getBlockNumber block = some n ∧ (n, block) ∈ p.store.log ∧
    p.readBlock cfg codec n = some (some (codec.encode block))

/-- Every block acknowledged to anybody is recorded. -/
def Pipeline.Truthful (cfg : PipelineConfig) (codec : Codec) (p : Pipeline) : Prop :=
  ∀ id n, (id, .acknowledgement n) ∈ p.world.sent → p.Recorded cfg codec n.toNat

/-- A header is accepted only by a session whose buffer is empty. -/
def AcceptsWhenEmpty (p : Pipeline) : PipelineAct → Prop
  | .session id _ => ∀ session ∈ p.sessions id, ∀ e ∈ session.electing,
      p.world.blockWinners.get e.1.toUInt64.toNat = none → session.itemBuffer = []
  | _ => True

instance (p : Pipeline) (act : PipelineAct) : Decidable (AcceptsWhenEmpty p act) :=
  match act with
  | .session id _ => inferInstanceAs (Decidable (∀ session ∈ p.sessions id, _))
  | .connect => isTrue trivial
  | .verifier => isTrue trivial
  | .persister => isTrue trivial
  | .stateReceive => isTrue trivial
  | .stateAdvance => isTrue trivial
  | .loadCleanup => isTrue trivial
  | .startRetain => isTrue trivial
  | .retainVisit _ => isTrue trivial
  | .finishRetain => isTrue trivial
  | .cacheCleanup => isTrue trivial
  | .tick => isTrue trivial

/-! ### The store without an archiver -/

/-- The hot tier holds the last committed block of each number. -/
structure Store.Served (codec : Codec) (s : Store) : Prop where
  faithful : s.Faithful codec
  hot : ∀ {n block}, s.last n = some block →
    s.db.hotBlocks.get n = some (codec.serialize (codec.encode block))

lemma Store.init_served (cfg : Config) (codec : Codec) : (Store.init cfg).Served codec :=
  ⟨Store.init_faithful cfg codec, fun h => by cases h⟩

lemma Store.write_served {cfg : Config} {codec : Codec} {s : Store} (hs : s.Served codec)
    (block : Block) : (s.write cfg codec block).Served codec := by
  refine ⟨Store.write_faithful hs.faithful block, ?_⟩
  rcases s.write_cases cfg codec block with h | ⟨n, -, hlog, hhot, -⟩
  · rw [h]
    exact hs.hot
  · intro m b hb
    have hlast : (if m = n then some block else s.last m) = some b := by
      rw [Store.last, hlog] at hb
      rw [← hb]
      exact (Store.last_cons s.db n m block s.log).symm
    rw [hhot, SortedMap.get_put]
    split_ifs at hlast ⊢ with hm
    · cases hlast
      rfl
    · exact hs.hot hlast

lemma Store.writes_served {cfg : Config} {codec : Codec} {s : Store} (hs : s.Served codec)
    (blocks : List Block) : (s.writes cfg codec blocks).Served codec := by
  induction blocks generalizing s with
  | nil => exact hs
  | cons block blocks ih => exact ih (Store.write_served hs block)

lemma Store.Committed.last {s : Store} {n : ℕ} (h : s.Committed n) :
    ∃ block, s.last n = some block ∧ (n, block) ∈ s.log := by
  obtain ⟨b, hb⟩ := h
  have hsome : (s.log.lookup n).isSome :=
    List.lookup_isSome_iff.mpr ⟨(n, b), hb, by simp⟩
  obtain ⟨block, hblock⟩ := Option.isSome_iff_exists.mp hsome
  obtain ⟨l₁, l₂, hlog, -⟩ := List.lookup_eq_some_iff.mp hblock
  exact ⟨block, hblock, by rw [hlog]; simp⟩

/-- What has been committed is recorded. -/
lemma Pipeline.recorded {cfg : PipelineConfig} {codec : Codec} {p : Pipeline}
    (hs : p.store.Served codec) {n : ℕ} (h : p.store.Committed n) : p.Recorded cfg codec n := by
  obtain ⟨block, hlast, hmem⟩ := h.last
  refine ⟨block, hs.faithful.number hlast, hmem, ?_⟩
  have hread : hotReadBlock codec p.store.db n = some (some (codec.encode block)) := by
    simp [hotReadBlock, hs.hot hlast]
  simp [Pipeline.readBlock, Node.readBlock, hread]

lemma Store.Committed.write {cfg : Config} {codec : Codec} {s : Store} {n : ℕ}
    (h : s.Committed n) (block : Block) : (s.write cfg codec block).Committed n := by
  rcases s.write_cases cfg codec block with hs | ⟨m, -, hlog, -⟩
  · rwa [hs]
  · obtain ⟨b, hb⟩ := h
    exact ⟨b, hlog ▸ List.mem_cons_of_mem _ hb⟩

/-- A call that reports success has committed the block under the number of its header. -/
lemma Store.write_committed {cfg : Config} {codec : Codec} {s : Store} {block : Block} {n : ℕ}
    {notified : Bool} (hn : getBlockNumber block = some n)
    (hok : (writeBlock cfg codec block s.db).2 = .ok notified) :
    (s.write cfg codec block).Committed n := by
  unfold writeBlock at hok
  unfold Store.write
  simp only [hn] at hok ⊢
  rcases hrun : (prepareBatch cfg codec block n).run s.db with _ | ⟨batch, gap⟩
  · rw [hrun] at hok
    cases hok
  · exact ⟨block, List.mem_cons_self⟩

/-! ### The cache -/

/-- The data is the encoding of a block with the number it is labelled with. -/
def BlockData.Labelled (codec : Codec) (data : BlockData) : Prop :=
  ∃ block, data.contents = codec.encode block ∧
    getBlockNumber block = some data.blockNumber.toNat

namespace BlockDataCache

/-- The data under the key of the event, if still there, is labelled with its number. -/
def Matches (cache : BlockDataCache) (event : BlockEvent) : Prop :=
  event.cacheKey < cache.nextKey ∧
    ∀ data, cache.get event.cacheKey = some data → data.blockNumber = event.blockNumber

/-- Later, a key that has been given out leads to the same data or to nothing. -/
structure Later (cache cache' : BlockDataCache) : Prop where
  nextKey_le : cache.nextKey ≤ cache'.nextKey
  get_eq : ∀ key < cache.nextKey, cache'.get key = none ∨ cache'.get key = cache.get key

variable {cache cache' : BlockDataCache}

lemma Later.refl (cache : BlockDataCache) : cache.Later cache := ⟨le_rfl, fun _ _ => .inr rfl⟩

lemma insert_later (now : ℕ) (data : BlockData) : cache.Later (cache.insert now data).2 :=
  ⟨by simp, fun key hkey => .inr (by rw [get_insert, if_neg (Nat.ne_of_lt hkey)])⟩

lemma markForRemoval_later (key : ℕ) : cache.Later (cache.markForRemoval key) := by
  refine ⟨by simp, fun j _ => ?_⟩
  rw [get_markForRemoval]
  split_ifs
  · exact .inl rfl
  · exact .inr rfl

lemma cleanup_later (now : ℕ) : cache.Later (cache.cleanup now) :=
  ⟨le_rfl, fun key _ => cache.get_cleanup now key⟩

lemma Matches.mono {event : BlockEvent} (h : cache.Matches event) (hle : cache.Later cache') :
    cache'.Matches event := by
  refine ⟨lt_of_lt_of_le h.1 hle.nextKey_le, fun data hdata => ?_⟩
  rcases hle.get_eq event.cacheKey h.1 with hnone | hsame
  · rw [hnone] at hdata
    cases hdata
  · exact h.2 data (hsame ▸ hdata)

/-- A new entry matches the event made for it. -/
lemma insert_matches (now : ℕ) (data : BlockData) :
    (cache.insert now data).2.Matches ⟨data.blockNumber, cache.nextKey⟩ := by
  refine ⟨by simp, fun d hd => ?_⟩
  rw [get_insert, if_pos rfl] at hd
  cases hd
  rfl

end BlockDataCache

/-! ### A session -/

/-- The buffer starts with the header of the block. -/
def Numbered (n : UInt64) (_received buffer : List BlockItem) : Prop :=
  getBlockNumber ⟨buffer⟩ = some n.toNat

lemma getBlockNumber_of_header {first : BlockItem} {rest : List BlockItem} {header : BlockHeader}
    (h : first.header? = some header) :
    getBlockNumber ⟨first :: rest⟩ = some header.number.toNat := by
  unfold BlockItem.header? at h
  split at h
  · next header' hitem =>
    cases h
    obtain ⟨item⟩ := first
    cases hitem
    rfl
  · cases h

lemma Numbered.append {n : UInt64} {received buffer : List BlockItem}
    (h : Numbered n received buffer) (received' items : List BlockItem) :
    Numbered n received' (buffer ++ items) := by
  unfold Numbered at h ⊢
  rcases buffer with _ | ⟨first, rest⟩
  · cases h
  · exact h

lemma numbered_rule : BlockRule Numbered Numbered where
  full h := h
  more h _ _ := h.append _ _
  last h _ _ := h.append _ _

/-- A session whose buffer is empty starts with the header it has been elected for. -/
lemma onElected_numbered {session : Session} {n : Int64} {set : List BlockItem}
    (hset : StartsWith n set) (hempty : session.itemBuffer = []) :
    (session.onElected n set).InProgress Numbered Numbered := by
  have hnumber : Numbered n.toUInt64 set (upToProof set) := by
    obtain ⟨first, rest, header, heq, hfirst, hnumber⟩ := hset.upToProof
    unfold Numbered
    rw [heq, ← hnumber]
    exact getBlockNumber_of_header hfirst
  refine Session.handleAccept_inProgress (fun hnone => ?_) fun _ => ?_
  · rw [upToProof_eq_self hnone] at hnumber
    simpa [hempty, Session.blockNumber] using hnumber
  · simpa [hempty, Session.blockNumber] using hnumber

namespace Session

/-- What the session has been told: the numbers in its events are committed (`C`), and so is
what it is about to acknowledge; the event it is about to send matches its data (`M`). -/
def Knows (C : UInt64 → Prop) (M : BlockEvent → Prop) (session : Session) : Prop :=
  match session.task with
  | .respond response _ => ∀ n, response ≠ .acknowledgement n
  | .handOver key => M ⟨session.blockNumber, key⟩
  | .waiting _ _ persisted => ∀ event ∈ persisted, C event.blockNumber
  | .persisted => C session.blockNumber
  | .broadcast message _ _ _ => ∀ n, message = .acknowledgement n → C n
  | _ => True

variable {C C' : UInt64 → Prop} {M M' : BlockEvent → Prop} {session session' : Session}
  {cfg : PublishConfig} {codec : Codec} {id : ℕ} {world world' : World} {set : List BlockItem}

lemma Knows.mono (h : session.Knows C M) (hC : ∀ n, C n → C' n) (hM : ∀ e, M e → M' e) :
    session.Knows C' M' := by
  revert h
  unfold Knows
  split
  · exact id
  · exact hM _
  · exact fun h event he => hC _ (h event he)
  · exact hC _
  · exact fun h n hn => hC _ (h n hn)
  · exact id

lemma knows_of_early (h : session.task.early) : session.Knows C M := by
  unfold Knows
  split
  · next response next here =>
    rintro n rfl
    rw [here] at h
    cases h
  · next here => rw [here] at h; cases h
  · next here => rw [here] at h; cases h
  · next here => rw [here] at h; cases h
  · next here => rw [here] at h; cases h
  · trivial

lemma deliverFailed_knows (h : session.Knows C M) (event : BlockVerificationFailed) :
    (session.deliverFailed event).Knows C M := by
  unfold deliverFailed
  split
  · trivial
  · next htask =>
    simp only [Knows, htask] at h
    exact h
  · exact h

lemma deliverPersisted_knows (h : session.Knows C M) {event : BlockPersisted}
    (hevent : C event.blockNumber) : (session.deliverPersisted event).Knows C M := by
  unfold deliverPersisted
  split
  · next htask =>
    simp only [Knows, htask] at h
    intro e he
    rcases List.mem_append.mp he with he | he
    · exact h e he
    · rwa [List.mem_singleton.mp he]
  · exact h

end Session

/-- What the shared state says is right: the cached data are labelled, the events for the
verifier match them, and what was acknowledged is committed. -/
structure World.Sound (codec : Codec) (C : UInt64 → Prop) (world : World) : Prop where
  cached : ∀ key data, world.cache.get key = some data → data.Labelled codec
  received : ∀ event ∈ world.itemsReceived, world.cache.Matches event
  sent : ∀ id n, (id, .acknowledgement n) ∈ world.sent → C n

namespace World.Sound

variable {codec : Codec} {C C' : UInt64 → Prop} {world : World}

/-- The fields that matter are those of the statement. -/
lemma congr {world' : World} (h : world.Sound codec C) (hcache : world'.cache = world.cache)
    (hreceived : world'.itemsReceived = world.itemsReceived) (hsent : world'.sent = world.sent) :
    world'.Sound codec C :=
  ⟨hcache ▸ h.cached, hreceived ▸ hcache ▸ h.received, hsent ▸ h.sent⟩

lemma mono (h : world.Sound codec C) (hC : ∀ n, C n → C' n) : world.Sound codec C' :=
  ⟨h.cached, h.received, fun id n hn => hC n (h.sent id n hn)⟩

lemma send (h : world.Sound codec C) (target : ℕ) {response : Response}
    (hresponse : ∀ n, response = .acknowledgement n → C n) :
    (world.send target response).Sound codec C := by
  refine ⟨h.cached, h.received, fun id n hn => ?_⟩
  rcases List.mem_cons.mp hn with heq | hn
  · cases heq
    exact hresponse n rfl
  · exact h.sent id n hn

/-- The first event is taken from the channel. -/
lemma take (h : world.Sound codec C) {event : BlockEvent} {rest : List BlockEvent}
    (queue : world.itemsReceived = event :: rest) :
    { world with itemsReceived := rest }.Sound codec C ∧ world.cache.Matches event := by
  have hreceived := h.received
  rw [queue] at hreceived
  exact ⟨⟨h.cached, fun e he => hreceived e (List.mem_cons_of_mem _ he), h.sent⟩,
    hreceived event List.mem_cons_self⟩

/-- Entries that go away do no harm. -/
lemma shrink (h : world.Sound codec C) {cache : BlockDataCache} (hlater : world.cache.Later cache)
    (hsub : ∀ key, cache.get key = none ∨ cache.get key = world.cache.get key) :
    { world with cache := cache }.Sound codec C := by
  refine ⟨fun key data hdata => ?_, fun event he => (h.received event he).mono hlater, h.sent⟩
  rcases hsub key with hnone | hsame
  · rw [hnone] at hdata
    cases hdata
  · exact h.cached key data (hsame ▸ hdata)

lemma insert (h : world.Sound codec C) (now : ℕ) {data : BlockData} (hdata : data.Labelled codec) :
    { world with cache := (world.cache.insert now data).2 }.Sound codec C := by
  refine ⟨fun key d hd => ?_,
    fun event he => (h.received event he).mono (BlockDataCache.insert_later now data), h.sent⟩
  rw [BlockDataCache.get_insert] at hd
  split_ifs at hd
  · cases hd
    exact hdata
  · exact h.cached key d hd

end World.Sound

/-- **One step of a session**, seen from the shared state. -/
lemma Session.step_sound {cfg : PublishConfig} {codec : Codec} {C : UInt64 → Prop} {id : ℕ}
    {world world' : World} {session session' : Session} {act : SessionAct}
    (hw : world.Sound codec C) (hp : session.InProgress Numbered Numbered)
    (hk : session.Knows C world.cache.Matches)
    (step : Step cfg codec id world session act world' session') :
    world'.Sound codec C ∧ world.cache.Later world'.cache ∧
      session'.Knows C world'.cache.Matches := by
  have hsame : world.cache.Later world.cache := .refl _
  unfold Knows at hk
  cases step with
  | request => exact ⟨hw, hsame, knows_of_early (handleRequest_early _)⟩
  | header => exact ⟨hw, hsame, knows_of_early onHeader_early⟩
  | lookup => exact ⟨hw, hsame, knows_of_early onLookup_early⟩
  | elected => exact ⟨hw.congr rfl rfl rfl, hsame, knows_of_early (execute_early _)⟩
  | occupied => exact ⟨hw, hsame, knows_of_early (execute_early _)⟩
  | streaming => exact ⟨hw, hsame, knows_of_early onStreaming_early⟩
  | behind => exact ⟨hw, hsame, fun n h => by cases h⟩
  | respondReset here =>
    rw [here] at hk
    exact ⟨hw.send id fun n h => absurd h (hk n), hsame, trivial⟩
  | respondLeave here =>
    rw [here] at hk
    exact ⟨hw.send id fun n h => absurd h (hk n), hsame, trivial⟩
  | respondResend here =>
    rw [here] at hk
    exact ⟨hw.send id fun n h => absurd h (hk n), hsame, fun n h => by cases h⟩
  | complete here =>
    have hnumber : Numbered session.blockNumber session.received session.itemBuffer := by
      simpa only [InProgress, here] using hp
    exact ⟨hw.insert world.now ⟨_, rfl, hnumber⟩, BlockDataCache.insert_later _ _,
      BlockDataCache.insert_matches world.now (session.blockData codec)⟩
  | handOver here =>
    rw [here] at hk
    refine ⟨⟨hw.cached, fun event he => ?_, hw.sent⟩, hsame, trivial⟩
    rcases List.mem_append.mp he with he | he
    · exact hw.received event he
    · rw [List.mem_singleton.mp he]
      exact hk
  | subscribeAgain => exact ⟨hw, hsame, fun event he => by cases he⟩
  | takeFailed => exact ⟨hw, hsame, fun n h => by cases h⟩
  | ignoreFailed here =>
    rw [here] at hk
    exact ⟨hw, hsame, hk⟩
  | takePersisted here mine =>
    rw [here] at hk
    have hC := hk _ List.mem_cons_self
    rw [mine] at hC
    exact ⟨hw, hsame, hC⟩
  | ignorePersisted here =>
    rw [here] at hk
    exact ⟨hw, hsame, fun event he => hk event (List.mem_cons_of_mem _ he)⟩
  | storeLatest here =>
    rw [here] at hk
    refine ⟨hw.congr rfl rfl rfl, hsame, fun n hn => ?_⟩
    cases hn
    exact hk
  | visit here =>
    rw [here] at hk
    exact ⟨hw.send _ hk, hsame, hk⟩
  | @finish _ _ _ next => exact ⟨hw, hsame, by cases next <;> trivial⟩
  | removeAcknowledged => exact ⟨hw.congr rfl rfl rfl, hsame, trivial⟩
  | removeFailed => exact ⟨hw.congr rfl rfl rfl, hsame, trivial⟩
  | removeTimedOut => exact ⟨hw.congr rfl rfl rfl, hsame, fun n h => by cases h⟩
  | release => exact ⟨hw.congr rfl rfl rfl, hsame, fun n h => by cases h⟩
  | unregister => exact ⟨hw.congr rfl rfl rfl, hsame, trivial⟩
  | _ => exact ⟨hw, hsame, trivial⟩

/-! ### The whole node -/

/-- The events the verifier carries match their data. -/
def VerifierTask.Sound (M : BlockEvent → Prop) : VerifierTask → Prop
  | .fetch event => M event
  | .pass event => M event
  | _ => True

lemma VerifierTask.Sound.mono {M M' : BlockEvent → Prop} {task : VerifierTask} (h : task.Sound M)
    (hM : ∀ e, M e → M' e) : task.Sound M' := by
  cases task with
  | fetch event => exact hM event h
  | pass event => exact hM event h
  | _ => trivial

/-- What `process_event` has found out about its event. -/
def PersistTask.Sound (C : UInt64 → Prop) (M : BlockEvent → Prop) : PersistTask → Prop
  | .fetch event => M event
  | .write event block => getBlockNumber block = some event.blockNumber.toNat
  | .broadcast event => C event.blockNumber
  | _ => True

lemma PersistTask.Sound.mono {C C' : UInt64 → Prop} {M M' : BlockEvent → Prop} {task : PersistTask}
    (h : task.Sound C M) (hC : ∀ n, C n → C' n) (hM : ∀ e, M e → M' e) : task.Sound C' M' := by
  cases task with
  | fetch event => exact hM event h
  | write event block => exact h
  | broadcast event => exact hC _ h
  | _ => trivial

namespace Pipeline

variable {cfg : PipelineConfig} {codec : Codec} {p p' : Pipeline}

/-- The number has been committed. -/
def Holds (p : Pipeline) (n : UInt64) : Prop := p.store.Committed n.toNat

/-- The labels, events and acknowledgements of the whole node are right. -/
structure Sound (codec : Codec) (p : Pipeline) : Prop where
  store : p.store.Served codec
  world : p.world.Sound codec p.Holds
  sessions : ∀ {id session}, p.sessions id = some session →
    session.InProgress Numbered Numbered ∧ session.Knows p.Holds p.world.cache.Matches
  verified : ∀ event ∈ p.verifiedBlocks, p.world.cache.Matches event
  verifier : p.verifier.Sound p.world.cache.Matches
  persister : p.persister.Sound p.Holds p.world.cache.Matches

lemma Sound.truthful (h : p.Sound codec) : p.Truthful cfg codec :=
  fun id n hn => recorded h.store (h.world.sent id n hn)

lemma init_sound (blocks : List Block) (plugin : StatePlugin) :
    (init cfg codec blocks plugin).Sound codec where
  store := Store.writes_served (Store.init_served _ codec) blocks
  world :=
    { cached := fun _ _ h => by cases h
      received := fun _ h => by cases h
      sent := fun _ _ h => by cases h }
  sessions h := by cases h
  verified _ h := by cases h
  verifier := trivial
  persister := trivial

/-- Cache entries only go away and the rest stays. -/
lemma Sound.setCache (h : p.Sound codec) {cache : BlockDataCache}
    (hlater : p.world.cache.Later cache)
    (hsub : ∀ key, cache.get key = none ∨ cache.get key = p.world.cache.get key) :
    (p.setCache cache).Sound codec where
  store := h.store
  world := h.world.shrink hlater hsub
  sessions hs := ⟨(h.sessions hs).1,
    (h.sessions hs).2.mono (fun _ hn => hn) fun _ he => he.mono hlater⟩
  verified event he := (h.verified event he).mono hlater
  verifier := h.verifier.mono fun _ he => he.mono hlater
  persister := h.persister.mono (fun _ hn => hn) fun _ he => he.mono hlater

lemma Sound.markForRemoval (h : p.Sound codec) (key : ℕ) :
    (p.setCache (p.world.cache.markForRemoval key)).Sound codec := by
  refine h.setCache (BlockDataCache.markForRemoval_later key) fun j => ?_
  rw [BlockDataCache.get_markForRemoval]
  split_ifs
  · exact .inl rfl
  · exact .inr rfl

lemma sessionStep_sound {id : ℕ} {act : SessionAct} {session session' : Session} {world : World}
    (h : p.Sound codec) (hempty : AcceptsWhenEmpty p (.session id act))
    (hs : p.sessions id = some session)
    (step : session.Step cfg.publish codec id p.world act world session') :
    { p with world := world, sessions := Function.update p.sessions id (some session') }.Sound
      codec := by
  obtain ⟨hprogress, hknows⟩ := h.sessions hs
  obtain ⟨hworld, hlater, hknows'⟩ := Session.step_sound h.world hprogress hknows step
  have hprogress' : session'.InProgress Numbered Numbered :=
    Session.step_inProgress numbered_rule hprogress
      (fun e he vacant hset => onElected_numbered hset (hempty session hs e he vacant)) step
  refine ⟨h.store, hworld, fun {j s} hj => ?_, fun event he => (h.verified event he).mono hlater,
    h.verifier.mono fun _ he => he.mono hlater,
    h.persister.mono (fun _ hn => hn) fun _ he => he.mono hlater⟩
  dsimp only at hj
  -- the session that moved, and the others
  rcases eq_or_ne j id with rfl | hne
  · rw [Function.update_self] at hj
    cases hj
    exact ⟨hprogress', hknows'⟩
  · rw [Function.update_of_ne hne] at hj
    exact ⟨(h.sessions hj).1, (h.sessions hj).2.mono (fun _ hn => hn) fun _ he => he.mono hlater⟩

/-- A broadcast reaches every session. -/
lemma Sound.deliver (h : p.Sound codec) {f : Session → Session}
    (hf : ∀ {session}, session.InProgress Numbered Numbered →
      session.Knows p.Holds p.world.cache.Matches →
      (f session).InProgress Numbered Numbered ∧
        (f session).Knows p.Holds p.world.cache.Matches) {id : ℕ} {session : Session}
    (hs : (p.sessions id).map f = some session) :
    session.InProgress Numbered Numbered ∧
      session.Knows p.Holds p.world.cache.Matches := by
  obtain ⟨old, hold, rfl⟩ := Option.map_eq_some_iff.mp hs
  exact hf (h.sessions hold).1 (h.sessions hold).2

lemma verify_sound {M : BlockEvent → Prop} (cache : BlockDataCache) {event : BlockItemsReceived}
    (hevent : M event) : (verify codec cache event).Sound M := by
  unfold verify
  split
  · split
    · exact hevent
    · trivial
  · trivial

/-- The block that `process_event` finds has the number of its event. -/
lemma fetchBlock_sound (h : p.Sound codec) {event : BlockVerified}
    (hevent : p.world.cache.Matches event) :
    (fetchBlock codec p.world.cache event).Sound p.Holds p.world.cache.Matches := by
  unfold fetchBlock
  split
  · next data hdata =>
    split
    · next block hblock =>
      obtain ⟨block', hcontents, hnumber⟩ := h.world.cached _ data hdata
      rw [hcontents, codec.decode_encode] at hblock
      cases hblock
      rw [hevent.2 data hdata] at hnumber
      exact hnumber
    · trivial
  · trivial

/-- A commit adds to what is recorded. -/
lemma Sound.write (h : p.Sound codec) (block : Block) {task : PersistTask}
    (htask : ∀ C M, C = (fun n => (p.store.write cfg.persistence codec block).Committed
      (UInt64.toNat n)) → task.Sound C M) :
    { p with store := p.store.write cfg.persistence codec block, persister := task }.Sound
      codec := by
  have hC : ∀ n : UInt64, p.Holds n →
      (p.store.write cfg.persistence codec block).Committed n.toNat :=
    fun n hn => Store.Committed.write hn block
  exact ⟨Store.write_served h.store block, h.world.mono hC,
    fun hs => ⟨(h.sessions hs).1, (h.sessions hs).2.mono hC fun _ he => he⟩, h.verified,
    h.verifier, htask _ _ rfl⟩

/-- Changes that none of the labels, events and acknowledgements depends on. -/
lemma Sound.congr (h : p.Sound codec) (hstore : p'.store = p.store)
    (hcache : p'.world.cache = p.world.cache)
    (hreceived : p'.world.itemsReceived = p.world.itemsReceived)
    (hsent : p'.world.sent = p.world.sent) (hsessions : p'.sessions = p.sessions)
    (hverified : p'.verifiedBlocks = p.verifiedBlocks) (hverifier : p'.verifier = p.verifier)
    (hpersister : p'.persister = p.persister) : p'.Sound codec := by
  have hC : p'.Holds = p.Holds := by
    unfold Holds
    rw [hstore]
  refine ⟨hstore ▸ h.store, hC ▸ h.world.congr hcache hreceived hsent, ?_, ?_, ?_, ?_⟩
  · rw [hsessions, hC, hcache]
    exact h.sessions
  · rw [hverified, hcache]
    exact h.verified
  · rw [hverifier, hcache]
    exact h.verifier
  · rw [hpersister, hC, hcache]
    exact h.persister

lemma connect_sound (h : p.Sound codec) : p.connect.Sound codec := by
  refine ⟨h.store, h.world.congr rfl rfl rfl, fun {id session} hs => ?_, h.verified, h.verifier,
    h.persister⟩
  dsimp only [connect] at hs
  rcases eq_or_ne id p.nextSession with rfl | hne
  · rw [Function.update_self] at hs
    cases hs
    exact ⟨fun h => (by cases h), trivial⟩
  · rw [Function.update_of_ne hne] at hs
    exact h.sessions hs

lemma stateAdvance_sound (h : p.Sound codec) (plugin : StatePlugin) :
    { p.setCache (match p.statePlugin.loop, plugin.loop with
        | .applying event, .waiting _ => p.world.cache.markForRemoval event.cacheKey
        | _, _ => p.world.cache) with statePlugin := plugin }.Sound codec := by
  split
  · next event _ _ _ =>
    exact (h.markForRemoval event.cacheKey).congr rfl rfl rfl rfl rfl rfl rfl rfl
  · exact h.congr rfl rfl rfl rfl rfl rfl rfl rfl

/-- The winner table is not among them. -/
lemma Sound.setAside (h : p.Sound codec) {world : World} {task : CleanupTask}
    (hcache : world.cache = p.world.cache)
    (hreceived : world.itemsReceived = p.world.itemsReceived)
    (hsent : world.sent = p.world.sent) : { p with world := world, cleanup := task }.Sound codec :=
  h.congr rfl hcache hreceived hsent rfl rfl rfl rfl

/-- **One step of the node.** -/
lemma step_sound {act : PipelineAct} (h : p.Sound codec) (hempty : AcceptsWhenEmpty p act)
    (hstep : p.step cfg codec act = some p') : p'.Sound codec := by
  have hv := h.verifier
  have hp := h.persister
  cases step_cases hstep with
  | connect => exact connect_sound h
  | session here step => exact sessionStep_sound h hempty here step
  | takeReceived here queue =>
    obtain ⟨hworld, hevent⟩ := h.world.take queue
    exact ⟨h.store, hworld, h.sessions, h.verified, hevent, h.persister⟩
  | verify here =>
    rw [here] at hv
    exact ⟨h.store, h.world, h.sessions, h.verified, verify_sound _ hv, h.persister⟩
  | pass here =>
    rw [here] at hv
    refine ⟨h.store, h.world, h.sessions, fun e he => ?_, trivial, h.persister⟩
    rcases List.mem_append.mp he with he | he
    · exact h.verified e he
    · rw [List.mem_singleton.mp he]
      exact hv
  | @fail failed here =>
    refine ⟨h.store, h.world, h.deliver fun hprogress hknows => ?_, h.verified, trivial,
      h.persister⟩
    exact ⟨(Session.deliverFailed_hears failed).inProgress hprogress,
      Session.deliverFailed_knows hknows failed⟩
  | @markFailed event here =>
    have hmark := h.markForRemoval event.cacheKey
    exact ⟨hmark.store, hmark.world, hmark.sessions, hmark.verified, trivial, hmark.persister⟩
  | @takeVerified event rest here queue =>
    have hverified := h.verified
    rw [queue] at hverified
    exact ⟨h.store, h.world, h.sessions, fun e he => hverified e (List.mem_cons_of_mem _ he),
      h.verifier, hverified event List.mem_cons_self⟩
  | takeUnverified here queue =>
    obtain ⟨hworld, hevent⟩ := h.world.take queue
    exact ⟨h.store, hworld, h.sessions, h.verified, h.verifier, hevent⟩
  | fetchBlock here =>
    rw [here] at hp
    exact ⟨h.store, h.world, h.sessions, h.verified, h.verifier, fetchBlock_sound h hp⟩
  | @write event block here =>
    rw [here] at hp
    refine h.write block fun C M hC => ?_
    subst hC
    split
    · next hok => exact Store.write_committed hp hok
    · trivial
  | @broadcast event here =>
    rw [here] at hp
    refine ⟨h.store, h.world, h.deliver fun hprogress hknows => ?_, h.verified, h.verifier,
      trivial⟩
    exact ⟨(Session.deliverPersisted_hears event).inProgress hprogress,
      Session.deliverPersisted_knows hknows hp⟩
  | @mark event here =>
    have hmark := h.markForRemoval event.cacheKey
    exact ⟨hmark.store, hmark.world, hmark.sessions, hmark.verified, hmark.verifier, trivial⟩
  | stateReceive => exact h.congr rfl rfl rfl rfl rfl rfl rfl rfl
  | @stateAdvance plugin => exact stateAdvance_sound h plugin
  | cacheCleanup =>
    exact h.setCache (BlockDataCache.cleanup_later _) fun key => BlockDataCache.get_cleanup _ _ key
  | _ => exact h.setAside rfl rfl rfl

end Pipeline

/-- **Acknowledgements are truthful.** In every run of sessions, verifier, persistence and state
plugin in which headers are only accepted by sessions with an empty buffer, whatever has been
acknowledged is in the store under its number and is what `read_block` returns. -/
theorem acknowledgement_recorded {cfg : PipelineConfig} {codec : Codec} {blocks : List Block}
    {plugin : StatePlugin} {actions : List PipelineAct} {p : Pipeline}
    (hempty : Along (Pipeline.step cfg codec) AcceptsWhenEmpty (.init cfg codec blocks plugin)
      actions)
    (hrun : run (Pipeline.step cfg codec) (.init cfg codec blocks plugin) actions = some p) :
    p.Truthful cfg codec := by
  have hsound : p.Sound codec :=
    run_inv (fun h hC hs => Pipeline.step_sound h hC hs) (Pipeline.init_sound blocks plugin)
      hempty hrun
  exact hsound.truthful

/-- One session sends `requests`, each of which is handled in a number of steps; then the
verifier and persistence do their work and the session acknowledges. -/
def publishRun (requests : List (List BlockItem × ℕ)) : List PipelineAct :=
  [.connect] ++
    requests.flatMap (fun r =>
      .session 0 (.request (.blockItems r.1)) :: List.replicate r.2 (.session 0 .go)) ++
    -- into the cache, to the verifier, both subscriptions
    List.replicate 4 (.session 0 .go) ++
    List.replicate 3 .verifier ++ List.replicate 4 .persister ++
    [.session 0 .takePersisted, .session 0 .go, .session 0 (.visit 0)]

def verifyingNode : PipelineConfig := ⟨zeroConfig, ⟨10, 1000⟩, true⟩

def itemsOf (n : UInt64) : List BlockItem := [⟨some (.blockHeader ⟨n, []⟩)⟩, ⟨some (.other [])⟩]
def proofOf (n : UInt64) : BlockItem := ⟨some (.blockProof ⟨n, []⟩)⟩

theorem acknowledgement_recorded_five : ∃ p,
    run (Pipeline.step verifyingNode plainCodec) (.init verifyingNode plainCodec [] .init)
        (publishRun [(itemsOf 5, 3), ([proofOf 5], 1)]) = some p ∧
      (0, .acknowledgement 5) ∈ p.world.sent ∧ p.Truthful verifyingNode plainCodec := by
  have hsome : ∃ p ∈ run (Pipeline.step verifyingNode plainCodec)
      (.init verifyingNode plainCodec [] .init) (publishRun [(itemsOf 5, 3), ([proofOf 5], 1)]),
      (0, Response.acknowledgement 5) ∈ p.world.sent := by decide +kernel
  obtain ⟨p, hrun, hsent⟩ := hsome
  exact ⟨p, hrun, hsent, acknowledgement_recorded (by decide +kernel) hrun⟩

/-- The header of block 6 comes before block 5 is complete: block 6 is acknowledged, and what
has been stored is block 5. -/
theorem acknowledgement_unrecorded : ∃ p,
    run (Pipeline.step verifyingNode plainCodec) (.init verifyingNode plainCodec [] .init)
        (publishRun [(itemsOf 5, 3), (itemsOf 6 ++ [proofOf 6], 3)]) = some p ∧
      ¬ p.Truthful verifyingNode plainCodec := by
  have hsome : ∃ p ∈ run (Pipeline.step verifyingNode plainCodec)
      (.init verifyingNode plainCodec [] .init)
      (publishRun [(itemsOf 5, 3), (itemsOf 6 ++ [proofOf 6], 3)]),
      (0, Response.acknowledgement 6) ∈ p.world.sent ∧ p.store.log.map Prod.fst = [5] := by
    decide +kernel
  obtain ⟨p, hrun, hsent, hlog⟩ := hsome
  refine ⟨p, hrun, fun h => ?_⟩
  obtain ⟨block, -, hmem, -⟩ := h 0 6 hsent
  have hsix : 6 ∈ p.store.log.map Prod.fst := List.mem_map.mpr ⟨_, hmem, rfl⟩
  rw [hlog] at hsix
  exact absurd hsix (by decide)

end RockNode
