import RockNode.Cursor
import RockNode.Wakeups

/-!
A subscriber that asks for whatever comes: both ends of its request are `u64::MAX`.

Its start is the earliest block of the store it finds. Where there is none the start is block 0,
whatever number the first block is going to have.
-/

namespace RockNode

/-- The number of the block that the session is going to send next. -/
def SubscriberTask.nextBlock : SubscriberTask → Option ℕ
  | .next n | .send n _ | .subscribe n | .waiting n _ => some n
  | .earliest | .latest _ | .finish _ | .done | .crashed => none

def SubscribeRequest.IsLive (request : SubscribeRequest) : Prop :=
  request.startBlockNumber = u64Max ∧ request.endBlockNumber = u64Max

lemma validate_live {lookahead : ℕ} {request : SubscribeRequest} (h : request.IsLive)
    (earliest latest : Option ℕ) :
    validateAndCheckFulfillment lookahead request earliest latest =
      some (.ok (earliest.getD 0)) := by
  simp [validateAndCheckFulfillment, h.1, h.2]

/-! ### The first block -/

/-- As long as no earliest number is on record there is no block. -/
def EarliestRecorded (s : Store) : Prop :=
  getEarliestPersistedBlockNumber s.db = none → ∀ k, s.db.hotBlocks.get k = none

section Store

variable {cfg : Config} {codec : Codec} {s : Store} {block : Block}

lemma EarliestRecorded.write (h : EarliestRecorded s) (block : Block) :
    EarliestRecorded (s.write cfg codec block) := by
  rcases s.write_cases cfg codec block with hsame | ⟨n, -, hlog, -⟩
  · rwa [hsame]
  · intro hnone
    rw [getEarliestPersistedBlockNumber, Store.write_trueEarliest hlog] at hnone
    cases hnone

lemma EarliestRecorded.writes (h : EarliestRecorded s) (blocks : List Block) :
    EarliestRecorded (s.writes cfg codec blocks) := by
  induction blocks generalizing s with
  | nil => exact h
  | cons block blocks ih => exact ih (h.write block)

/-- What is on record stays. -/
lemma write_earliest {e : ℕ} (h : getEarliestPersistedBlockNumber s.db = some e) :
    getEarliestPersistedBlockNumber (s.write cfg codec block).db = some e := by
  rcases s.write_cases cfg codec block with hsame | ⟨n, -, hlog, -⟩
  · rwa [hsame]
  · rw [getEarliestPersistedBlockNumber, Store.write_trueEarliest hlog,
      show s.db.metadata .trueEarliestPersisted = some e from h, Option.getD_some]

end Store

/-! ### Where the session stands -/

/-- The session goes by the earliest block, unless it has found none. As long as there is none it
has not got past block 0. -/
def Placed (s : Store) : SubscriberTask → Prop
  | .latest e => e = getEarliestPersistedBlockNumber s.db ∨ e = none
  | .next n | .subscribe n | .waiting n _ =>
    getEarliestPersistedBlockNumber s.db = none → n = 0
  | .send _ _ => getEarliestPersistedBlockNumber s.db ≠ none
  | .earliest | .finish _ | .done | .crashed => True

/-- A block finds the session where it was. -/
lemma Placed.write {cfg : Config} {codec : Codec} {s : Store} {task : SubscriberTask}
    (h : Placed s task) (block : Block) : Placed (s.write cfg codec block) task := by
  have hstays : getEarliestPersistedBlockNumber (s.write cfg codec block).db = none →
      getEarliestPersistedBlockNumber s.db = none := by
    intro hnone
    rcases he : getEarliestPersistedBlockNumber s.db with _ | e
    · rfl
    · cases hnone.symm.trans (write_earliest he)
  cases task with
  | latest e =>
    rcases h with rfl | rfl
    · rcases he : getEarliestPersistedBlockNumber s.db with _ | k
      · exact Or.inr rfl
      · exact Or.inl (write_earliest he).symm
    · exact Or.inr rfl
  | next n | subscribe n | waiting n events => exact fun hnone => h (hstays hnone)
  | send n block => exact fun hnone => h (hstays hnone)
  | earliest | finish _ | done | crashed => trivial

/-- On an empty store the next block is block 0. -/
lemma Placed.nextBlock {s : Store} {task : SubscriberTask} (h : Placed s task) {n : ℕ}
    (hn : task.nextBlock = some n) (hnone : getEarliestPersistedBlockNumber s.db = none) :
    n = 0 := by
  cases task with
  | next m | subscribe m | waiting m events =>
    cases hn
    exact h hnone
  | send m block => exact absurd hnone h
  | earliest | latest _ | finish _ | done | crashed => cases hn

/-- What can be read is in the hot tier, while nothing has been archived. -/
lemma hot_of_readBlock {cfg : PipelineConfig} {codec : Codec} {p : Pipeline} {n : ℕ}
    {bytes : Bytes} (h : p.readBlock cfg codec n = some (some bytes)) :
    p.store.db.hotBlocks.get n ≠ none := by
  intro hnone
  have hmissing : p.readBlock cfg codec n = some none := by
    simp only [Pipeline.readBlock, Node.readBlock, hotReadBlock, hnone]
    rfl
  cases hmissing.symm.trans h

namespace Watch

variable {cfg : PipelineConfig} {codec : Codec} {lookahead : ℕ} {w w' : Watch} {act : WatchAct}

/-- The session asks for what comes, and it stands where it should. -/
structure FollowsLive (cfg : PipelineConfig) (w : Watch) : Prop where
  live : w.subscriber.request.IsLive
  good : w.node.store.Good cfg.persistence
  recorded : EarliestRecorded w.node.store
  placed : Placed w.node.store w.subscriber.task

lemma reader_earliest {failing : Bool} {e : Option ℕ}
    (h : (w.reader cfg codec failing).earliest = some e) :
    e = getEarliestPersistedBlockNumber w.node.store.db := by
  cases failing with
  | true => cases h
  | false => exact (Option.some.inj h).symm

lemma reader_readBlock {failing : Bool} {n : ℕ} {bytes : Bytes}
    (h : (w.reader cfg codec failing).readBlock n = some (some bytes)) :
    w.node.store.db.hotBlocks.get n ≠ none := by
  cases failing with
  | true => cases h
  | false => exact hot_of_readBlock h

/-- A step of the session itself. -/
lemma FollowsLive.subscriber {failing : Bool} {act : SubscriberAct} {session : Subscriber}
    (h : w.FollowsLive cfg)
    (hstep : w.subscriber.step codec lookahead (w.reader cfg codec failing) act = some session) :
    session.request = w.subscriber.request ∧ Placed w.node.store session.task := by
  have hplaced := h.placed
  cases Subscriber.step_cases hstep with
  | hangsUp => exact ⟨rfl, hplaced⟩
  | begins _ hearliest => exact ⟨rfl, Or.inl (reader_earliest hearliest)⟩
  | validates htask hlatest =>
    rw [htask] at hplaced
    rw [validate_live h.live]
    refine ⟨rfl, fun hnone => ?_⟩
    rcases hplaced with rfl | rfl
    · rw [hnone]
      rfl
    · rfl
  | finds htask _ hread =>
    exact ⟨rfl, fun hnone => reader_readBlock hread (h.recorded hnone _)⟩
  | sends htask hconn =>
    rw [htask] at hplaced
    refine ⟨Subscriber.send_request _, ?_⟩
    simp only [Subscriber.goto]
    split
    · exact fun hnone => absurd hnone hplaced
    · trivial
  | misses htask | subscribes htask | passes htask | wakes htask =>
    rw [htask] at hplaced
    exact ⟨rfl, hplaced⟩
  | fails | reaches => exact ⟨rfl, trivial⟩
  | ends htask =>
    refine ⟨?_, trivial⟩
    simp only [Subscriber.finalize, Subscriber.goto]
    split
    · rfl
    · exact Subscriber.send_request _

lemma hear_placed (act : PipelineAct) {s : Store} (h : Placed s w.subscriber.task) :
    (w.hear act).request = w.subscriber.request ∧ Placed s (w.hear act).task := by
  unfold hear
  split
  · unfold Subscriber.deliver
    split
    · next n events htask =>
      rw [htask] at h
      exact ⟨rfl, h⟩
    · exact ⟨rfl, h⟩
  · exact ⟨rfl, h⟩

/-- **Every step keeps the session in its place.** -/
lemma step_followsLive (h : w.FollowsLive cfg)
    (hstep : w.step cfg codec lookahead act = some w') : w'.FollowsLive cfg := by
  cases act with
  | node act =>
    obtain ⟨node, hnode, rfl⟩ := Option.map_eq_some_iff.mp hstep
    have hkeeps : node.store.Good cfg.persistence ∧ EarliestRecorded node.store ∧
        Placed node.store w.subscriber.task := by
      rcases store_step hnode with hstore | ⟨event, block, -, -, hstore⟩
      · rw [hstore]
        exact ⟨h.good, h.recorded, h.placed⟩
      · rw [hstore]
        exact ⟨Store.write_good h.good codec block, h.recorded.write block,
          h.placed.write block⟩
    obtain ⟨hrequest, hheard⟩ := hear_placed act hkeeps.2.2
    exact ⟨hrequest ▸ h.live, hkeeps.1, hkeeps.2.1, hheard⟩
  | backfill block =>
    cases hstep
    exact ⟨h.live, Store.write_good h.good codec block, h.recorded.write block,
      h.placed.write block⟩
  | subscriber failing act =>
    obtain ⟨session, hs, rfl⟩ := Option.map_eq_some_iff.mp hstep
    obtain ⟨hrequest, hplaced⟩ := h.subscriber hs
    exact ⟨hrequest ▸ h.live, h.good, h.recorded, hplaced⟩

lemma init_followsLive (cfg : PipelineConfig) (codec : Codec) (blocks : List Block)
    (plugin : StatePlugin) {request : SubscribeRequest} (hlive : request.IsLive) :
    FollowsLive cfg ⟨.init cfg codec blocks plugin, .new request⟩ where
  live := hlive
  good := Store.writes_good cfg.persistence codec blocks
  recorded := by
    have hempty : EarliestRecorded (Store.init cfg.persistence) :=
      fun _ k => SortedMap.get_empty k
    exact hempty.writes blocks
  placed := trivial

/-- There are blocks, and the session is still before the earliest of them. -/
def Stuck (w : Watch) : Prop :=
  ∃ n e, w.subscriber.task.nextBlock = some n ∧
    getEarliestPersistedBlockNumber w.node.store.db = some e ∧ n < e

/-- The number of the block that a step puts into the store. A write at the end of the numbers
comes to nothing. -/
def lands (cfg : PipelineConfig) (w : Watch) : WatchAct → Option ℕ
  | .node .persister =>
    match w.node.persister with
    | .write _ block => (Operation.write block).lands cfg.persistence w.node.store
    | _ => none
  | .backfill block => (Operation.write block).lands cfg.persistence w.node.store
  | _ => none

/-- The session comes to its start and has found no block. -/
def startsBlind (w : Watch) (act : WatchAct) : Bool :=
  match act, w.subscriber.task with
  | .subscriber false .go, .latest none => true
  | _, _ => false

/-- The first block that comes to a session which has its start is block 0, and so is the earliest
block where a session starts that had found none. -/
structure InTime (cfg : PipelineConfig) (w : Watch) (act : WatchAct) : Prop where
  comes : ∀ n ∈ w.lands cfg act, getEarliestPersistedBlockNumber w.node.store.db = none →
    w.subscriber.task.nextBlock ≠ none → n = 0
  starts : w.startsBlind act = true →
    ∀ e ∈ getEarliestPersistedBlockNumber w.node.store.db, e = 0

instance InTime.decidable (cfg : PipelineConfig) (w : Watch) (act : WatchAct) :
    Decidable (w.InTime cfg act) :=
  decidable_of_iff ((∀ n ∈ w.lands cfg act,
      getEarliestPersistedBlockNumber w.node.store.db = none →
      w.subscriber.task.nextBlock ≠ none → n = 0) ∧
    (w.startsBlind act = true → ∀ e ∈ getEarliestPersistedBlockNumber w.node.store.db, e = 0))
    ⟨fun h => ⟨h.1, h.2⟩, fun h => ⟨h.comes, h.starts⟩⟩

lemma startsBlind_iff : w.startsBlind act = true ↔
    act = .subscriber false .go ∧ w.subscriber.task = .latest none := by
  unfold startsBlind
  split
  · next htask => simp [htask]
  · next hne => exact ⟨fun h => (by cases h), fun h => (hne h.1 h.2).elim⟩

/-- A step that is not possible changes nothing. -/
lemma inTime_of_none (h : w.step cfg codec lookahead act = none) : w.InTime cfg act := by
  refine ⟨fun n hn => ?_, fun hblind => ?_⟩
  · unfold lands at hn
    split at hn
    · split at hn
      · next here =>
        simp [step, Pipeline.step, Pipeline.persisterStep, here] at h
      · cases hn
    · cases h
    · cases hn
  · obtain ⟨rfl, htask⟩ := startsBlind_iff.mp hblind
    simp [step, Subscriber.step, htask, reader] at h

/-! ### How a session gets stuck -/

/-- A write records the earliest number if there is none. -/
lemma write_lands {cfg : Config} {s : Store} (hg : s.Good cfg) (codec : Codec) (block : Block) :
    getEarliestPersistedBlockNumber (s.write cfg codec block).db =
      match (Operation.write block).lands cfg s with
      | none => getEarliestPersistedBlockNumber s.db
      | some n => some ((getEarliestPersistedBlockNumber s.db).getD n) := by
  rw [← Operation.commits_eq_lands hg codec]
  rcases hn : getBlockNumber block with _ | n
  · simp [Store.write, Operation.commits, hn]
  rcases hrun : (prepareBatch cfg codec block n).run s.db with _ | ⟨batch, gap⟩
  · simp [Store.write, Operation.commits, hn, hrun]
  · have hlog : (s.write cfg codec block).log = (n, block) :: s.log := by
      simp only [Store.write, hn, hrun]
    rw [getEarliestPersistedBlockNumber, Store.write_trueEarliest hlog]
    simp [Operation.commits, hn, hrun, getEarliestPersistedBlockNumber]

lemma hear_nextBlock (act : PipelineAct) :
    (w.hear act).task.nextBlock = w.subscriber.task.nextBlock := by
  unfold hear
  split
  · unfold Subscriber.deliver
    split
    · next n events htask =>
      rw [htask]
      rfl
    · rfl
  · rfl

/-- A step of the node or of backfill changes the earliest number only by its first block. -/
lemma step_lands (hg : w.node.store.Good cfg.persistence)
    (hact : ∀ failing act', act ≠ .subscriber failing act')
    (hstep : w.step cfg codec lookahead act = some w') :
    w'.subscriber.task.nextBlock = w.subscriber.task.nextBlock ∧
      getEarliestPersistedBlockNumber w'.node.store.db =
        match w.lands cfg act with
        | none => getEarliestPersistedBlockNumber w.node.store.db
        | some n => some ((getEarliestPersistedBlockNumber w.node.store.db).getD n) := by
  cases act with
  | node act =>
    obtain ⟨node, hnode, rfl⟩ := Option.map_eq_some_iff.mp hstep
    refine ⟨hear_nextBlock act, ?_⟩
    cases Pipeline.step_cases hnode with
    | write here =>
      simp only [lands, here]
      exact write_lands hg codec _
    | takeVerified here | takeUnverified here | fetchBlock here | broadcast here =>
      simp only [lands, here]
    | mark here =>
      simp only [lands, here]
      rfl
    | _ => rfl
  | backfill block =>
    cases hstep
    exact ⟨rfl, write_lands hg codec _⟩
  | subscriber failing act => exact absurd rfl (hact failing act)

/-- The next block of a session is the one it had or a later one, or it has just started. -/
lemma subscriber_nextBlock {failing : Bool} {act : SubscriberAct} {session : Subscriber} {m : ℕ}
    (h : w.FollowsLive cfg)
    (hstep : w.subscriber.step codec lookahead (w.reader cfg codec failing) act = some session)
    (hm : session.task.nextBlock = some m) :
    (∃ n ≤ m, w.subscriber.task.nextBlock = some n) ∨
      ∃ e, w.subscriber.task = .latest e ∧ m = e.getD 0 ∧ failing = false ∧ act = .go := by
  have hsame : ∀ {n}, w.subscriber.task.nextBlock = some n → n ≤ m →
      ∃ n ≤ m, w.subscriber.task.nextBlock = some n := fun hn hle => ⟨_, hle, hn⟩
  cases Subscriber.step_cases hstep with
  | hangsUp => exact Or.inl (hsame hm le_rfl)
  | validates htask hlatest =>
    rename_i e l
    refine Or.inr ⟨e, htask, ?_, ?_, ?_⟩
    · rw [validate_live h.live] at hm
      exact (Option.some.inj hm).symm
    · cases failing with
      | true => cases hlatest
      | false => rfl
    · -- what else can happen here leaves the session without its start
      cases act with
      | go => rfl
      | disconnect =>
        have htasks := congrArg Subscriber.task (Option.some.inj hstep)
        exact absurd (htasks.symm.trans htask) (Subscriber.onValidated_task_ne e _)
      | _ =>
        simp only [Subscriber.step, htask] at hstep
        cases hstep
  | sends htask hconn =>
    simp only [Subscriber.goto] at hm
    split at hm
    · cases hm
      exact Or.inl (hsame (by rw [htask]; rfl) (Nat.le_succ _))
    · cases hm
  | misses htask | finds htask | subscribes htask | passes htask | wakes htask =>
    cases hm
    exact Or.inl (hsame (by rw [htask]; rfl) le_rfl)
  | fails | begins | reaches | ends => cases hm

/-- The step of a session that leaves it stuck is its start. -/
lemma subscriber_stuck_iff {failing : Bool} {act : SubscriberAct} {session : Subscriber}
    (h : w.FollowsLive cfg) (hfree : ¬ w.Stuck)
    (hstep : w.subscriber.step codec lookahead (w.reader cfg codec failing) act = some session) :
    ¬ Stuck { w with subscriber := session } ↔
      InTime cfg w (.subscriber failing act) := by
  constructor
  · intro hfree'
    refine ⟨fun n hn => (by cases hn), fun hblind e he => ?_⟩
    obtain ⟨hact, htask⟩ := startsBlind_iff.mp hblind
    cases hact
    -- the start of this session is block 0
    have hstart : session.task = .next 0 := by
      simp only [Subscriber.step, htask, reader] at hstep
      rw [if_neg (by decide)] at hstep
      simp only [validate_live h.live] at hstep
      cases hstep
      rfl
    by_contra hne
    refine hfree' ⟨0, e, ?_, he, Nat.pos_of_ne_zero hne⟩
    change session.task.nextBlock = some 0
    rw [hstart]
    rfl
  · rintro ⟨-, hstarts⟩ ⟨m, e, hm, he, hlt⟩
    rcases subscriber_nextBlock h hstep hm with ⟨n, hle, hn⟩ | ⟨e', htask, rfl, rfl, rfl⟩
    · exact hfree ⟨n, e, hn, he, by omega⟩
    · have hplaced := h.placed
      rw [htask] at hplaced
      rcases hplaced with heq | rfl
      · rw [heq, show getEarliestPersistedBlockNumber w.node.store.db = some e from he] at hlt
        exact lt_irrefl e hlt
      · have hzero := hstarts (startsBlind_iff.mpr ⟨rfl, htask⟩) e he
        subst hzero
        exact Nat.not_lt_zero _ hlt

/-- **One step.** It leaves a session that is not stuck as it should be exactly when it is in
time. -/
lemma step_stuck_iff (h : w.FollowsLive cfg) (hfree : ¬ w.Stuck)
    (hstep : w.step cfg codec lookahead act = some w') :
    ¬ w'.Stuck ↔ w.InTime cfg act := by
  by_cases hact : ∃ failing act', act = .subscriber failing act'
  · obtain ⟨failing, act', rfl⟩ := hact
    obtain ⟨session, hs, rfl⟩ := Option.map_eq_some_iff.mp hstep
    exact subscriber_stuck_iff h hfree hs
  have hother : ∀ failing act', act ≠ .subscriber failing act' :=
    fun failing act' heq => hact ⟨failing, act', heq⟩
  obtain ⟨hnext, hearliest⟩ := step_lands h.good hother hstep
  have hsees : w.startsBlind act = true →
      ∀ e ∈ getEarliestPersistedBlockNumber w.node.store.db, e = 0 :=
    fun hblind => absurd (startsBlind_iff.mp hblind).1 (hother _ _)
  have hkeeps : getEarliestPersistedBlockNumber w'.node.store.db =
      getEarliestPersistedBlockNumber w.node.store.db → ¬ w'.Stuck := by
    rintro hsame ⟨m, e, hm, he, hlt⟩
    exact hfree ⟨m, e, hnext ▸ hm, hsame ▸ he, hlt⟩
  rcases hlands : w.lands cfg act with _ | n
  · rw [hlands] at hearliest
    refine ⟨fun _ => ⟨fun n hn => ?_, hsees⟩, fun _ => hkeeps hearliest⟩
    cases hlands.symm.trans hn
  simp only [hlands] at hearliest
  rcases hnone : getEarliestPersistedBlockNumber w.node.store.db with _ | e
  · -- the first block of all
    rw [hnone, Option.getD_none] at hearliest
    constructor
    · refine fun hfree' => ⟨fun n' hn' _ hsome => ?_, hsees⟩
      obtain rfl : n = n' := Option.some.inj (hlands.symm.trans hn')
      obtain ⟨m, hm⟩ := Option.ne_none_iff_exists'.mp hsome
      obtain rfl : m = 0 := h.placed.nextBlock hm hnone
      by_contra hne
      exact hfree' ⟨0, n, hnext.trans hm, hearliest, Nat.pos_of_ne_zero hne⟩
    · rintro htime ⟨m, e, hm, he, hlt⟩
      obtain rfl : n = e := Option.some.inj (hearliest.symm.trans he)
      have hzero := htime.comes n hlands hnone (by rw [← hnext, hm]; exact Option.some_ne_none _)
      omega
  · rw [hnone, Option.getD_some] at hearliest
    refine ⟨fun _ => ⟨fun n' _ hempty => ?_, hsees⟩,
      fun _ => hkeeps (hearliest.trans hnone.symm)⟩
    cases hnone.symm.trans hempty

/-- **When a live subscriber is left behind.** In every run a session that asks for whatever comes
is before the earliest block in no state exactly when every step is in time: it does not have its
start before the first block comes, unless that is block 0. -/
theorem live_never_stuck_iff {blocks : List Block} {plugin : StatePlugin}
    {request : SubscribeRequest} (hlive : request.IsLive) (acts : List WatchAct) :
    (∀ k w, run (Watch.step cfg codec lookahead)
      ⟨.init cfg codec blocks plugin, .new request⟩ (acts.take k) = some w → ¬ w.Stuck) ↔
    Along (Watch.step cfg codec lookahead) (InTime cfg)
      ⟨.init cfg codec blocks plugin, .new request⟩ acts := by
  have hfresh : ¬ Stuck ⟨.init cfg codec blocks plugin, .new request⟩ := by
    rintro ⟨m, e, hm, -⟩
    cases hm
  exact along_iff_of_step (fun h hstep => step_followsLive h hstep)
    (fun h hfree hstep => step_stuck_iff h hfree hstep) inTime_of_none
    (init_followsLive cfg codec blocks plugin hlive) hfresh acts

/-- A node that starts at block 1, and a session that asks for whatever comes. -/
def firstNode : PipelineConfig := ⟨firstConfig, ⟨10, 1000⟩, true⟩
def whateverComes : SubscribeRequest := ⟨u64Max, u64Max, le_rfl, le_rfl⟩

/-- The session comes when block 1 is there. -/
theorem live_never_stuck_iff_first : ∃ w, run (Watch.step firstNode plainCodec 10)
      ⟨.init firstNode plainCodec [] .init, .new whateverComes⟩
      [.backfill (headerBlock 1 []), .subscriber false .go, .subscriber false .go] = some w ∧
    w.subscriber.task = .next 1 ∧ ¬ w.Stuck := by
  have hsome : ∃ w ∈ run (Watch.step firstNode plainCodec 10)
      ⟨.init firstNode plainCodec [] .init, .new whateverComes⟩
      [.backfill (headerBlock 1 []), .subscriber false .go, .subscriber false .go],
      w.subscriber.task = .next 1 := by decide +kernel
  have htime : Along (Watch.step firstNode plainCodec 10) (InTime firstNode)
      ⟨.init firstNode plainCodec [] .init, .new whateverComes⟩
      [.backfill (headerBlock 1 []), .subscriber false .go, .subscriber false .go] := by
    decide +kernel
  obtain ⟨w, hrun, htask⟩ := hsome
  exact ⟨w, hrun, htask, (live_never_stuck_iff ⟨rfl, rfl⟩ _).mpr htime 3 w hrun⟩

/-- Blocks are written in increasing order, from the number at which the node starts. -/
def InOrder (cfg : PipelineConfig) (w : Watch) (act : WatchAct) : Prop :=
  ∀ n ∈ w.writes act,
    (w.node.store.log = [] → n = cfg.persistence.startBlockNumber) ∧
      ∀ entry ∈ w.node.store.log, entry.1 < n

instance InOrder.decidable (cfg : PipelineConfig) (w : Watch) (act : WatchAct) :
    Decidable (w.InOrder cfg act) :=
  inferInstanceAs (Decidable (∀ n ∈ w.writes act, _ ∧ _))

/-- The session comes before block 1 does, and waits for block 0. -/
theorem live_stuck : ¬ ∀ (cfg : PipelineConfig) (codec : Codec) (lookahead : ℕ)
    (blocks : List Block) (plugin : StatePlugin) (request : SubscribeRequest)
    (acts : List WatchAct) (w : Watch), request.IsLive →
    Along (Watch.step cfg codec lookahead) (InOrder cfg)
      ⟨.init cfg codec blocks plugin, .new request⟩ acts →
    run (Watch.step cfg codec lookahead)
      ⟨.init cfg codec blocks plugin, .new request⟩ acts = some w → ¬ w.Stuck := by
  intro h
  have hsome : ∃ w ∈ run (Watch.step firstNode plainCodec 10)
      ⟨.init firstNode plainCodec [] .init, .new whateverComes⟩
      [.subscriber false .go, .subscriber false .go, .backfill (headerBlock 1 [])],
      w.subscriber.task.nextBlock = some 0 ∧
        getEarliestPersistedBlockNumber w.node.store.db = some 1 := by decide +kernel
  obtain ⟨w, hrun, hnext, hearliest⟩ := hsome
  exact h _ _ _ _ _ _ _ w ⟨rfl, rfl⟩ (by decide +kernel) hrun ⟨0, 1, hnext, hearliest, by decide⟩

end Watch

end RockNode
