import RockNode.ArchivalCycle
import RockNode.GapFills
import RockNode.Subscriber

/-!
Where the additions on block numbers can overflow.

A single block number near the last `u64`, which nothing keeps a peer from sending, is enough
for each of the sites. In a state that the storage service can reach they are safe exactly when the
watermarks, the hot tier and the lookahead of the subscribers leave room for one more.
-/

namespace RockNode

open RangeTable

variable {cfg : Config} {codec : Codec} {node node' : Node} {op : Operation}

/-! ### Bounds in every run -/

/-- The numbers of every loaded index have ten digits at most. -/
def NamedIndices (indices : Indices) : Prop :=
  ∀ k m, indices.get k = some m → k < 10 ^ 10 ∧ m.endBlock < 10 ^ 10

lemma NamedIndices.load {indices : Indices} (h : NamedIndices indices) (disk : Disk)
    (name : FileName) : NamedIndices ((loadIndexFile disk name indices).getD indices) := by
  rcases hload : loadIndexFile disk name indices with _ | indices'
  · exact h
  simp only [loadIndexFile, Option.bind_eq_bind, Option.bind_eq_some_iff] at hload
  obtain ⟨range, hrange, data, -, index, -, hput⟩ := hload
  split at hput
  · cases hput
  · cases hput
    intro k m hm
    rw [Option.getD_some, SortedMap.get_put] at hm
    split at hm
    · next hk =>
      cases hm
      exact ⟨hk ▸ (parseBlockRange_lt hrange).1, (parseBlockRange_lt hrange).2⟩
    · exact h k m hm

lemma NamedIndices.scan (disk : Disk) (entries : List FileName) :
    NamedIndices (scanAndBuildIndex disk entries) := by
  unfold scanAndBuildIndex
  have hempty : NamedIndices .empty := by
    intro k m h
    cases h
  induction entries using List.reverseRecOn with
  | nil => exact hempty
  | append_singleton entries name ih =>
    rw [List.foldl_append, List.foldl_cons, List.foldl_nil]
    split
    · exact ih.load disk name
    · exact ih

lemma attempt_named (h : NamedIndices node.indices) (outcome : Outcome) :
    NamedIndices (node.attempt cfg codec outcome).indices := by
  cases outcome with
  | error left =>
    have hsame : (node.fail left).indices = node.indices := by
      unfold Node.fail
      split <;> rfl
    change NamedIndices (node.fail left).indices
    rwa [hsame]
  | ok =>
    simp only [Node.attempt, Node.archive]
    split
    · exact h
    · split <;> exact h
    · exact h
    · next effect effects _ =>
      cases effect with
      | loadIndex name =>
        simp only [Node.perform]
        split
        · exact h
        · exact h.load node.disk name
      | rename source target =>
        simp only [Node.perform]
        split <;> exact h
      | _ => exact h

lemma operate_named (h : NamedIndices node.indices)
    (hstep : node.operate cfg codec op = some node') : NamedIndices node'.indices := by
  cases op with
  | write block =>
    cases hstep
    exact h
  | writeBatch blocks outcomes =>
    cases hstep
    rcases writeBlockBatch_cases cfg codec node blocks outcomes with
      heq | ⟨a, b, steps, done, db, -, -, -, hdone, -, -, heq⟩
    · rwa [heq]
    · rw [heq, hdone]
      exact finish_induct (P := fun node => NamedIndices node.indices)
        (fun h _ => attempt_named h _) h
  | trigger =>
    simp only [Node.operate, Node.step] at hstep
    split at hstep <;> cases hstep <;> exact h
  | archive outcome =>
    cases hstep
    exact attempt_named h outcome
  | restart entries =>
    simp only [Node.operate, Node.step] at hstep
    split at hstep <;> cases hstep
    exact NamedIndices.scan node.disk entries

/-- What is in the hot tier has been committed. -/
def HotCommitted (s : Store) : Prop := ∀ n, s.db.hotBlocks.get n ≠ none → s.Committed n

lemma CursorStep.hotCommitted (hstep : CursorStep cfg codec node op node')
    (h : HotCommitted node.store) : HotCommitted node'.store := by
  have hkeep : ∀ n, node'.store.log = node.store.log → node.store.Committed n →
      node'.store.Committed n := by
    rintro n hlog ⟨block, hmem⟩
    exact ⟨block, hlog ▸ hmem⟩
  intro n hn
  cases hstep with
  | still _ same log =>
    rw [same.hot] at hn
    exact hkeep n log (h n hn)
  | wrote block m _ hot _ _ _ log =>
    rw [hot, SortedMap.get_put] at hn
    rw [Store.Committed, log]
    split at hn
    · next heq => exact ⟨block, heq ▸ List.mem_cons_self⟩
    · obtain ⟨old, hmem⟩ := h n hn
      exact ⟨old, List.mem_cons_of_mem _ hmem⟩
  | skipped _ start _ db log =>
    rw [db] at hn
    exact hkeep n log (h n hn)
  | archived _ start _ db log =>
    rw [db, commitBatch_hotBlocks, deleteBatch_hot] at hn
    split at hn
    · exact absurd rfl hn
    · exact hkeep n log (h n hn)

/-- The earliest number on record is a `u64`. -/
def EarliestBounded (db : Db) : Prop := ∀ e ∈ getEarliestPersistedBlockNumber db, e ≤ u64Max

lemma Store.write_earliestBounded {s : Store} (h : EarliestBounded s.db) (block : Block) :
    EarliestBounded (s.write cfg codec block).db := by
  rcases s.write_cases cfg codec block with hsame | ⟨n, hn, hlog, -⟩
  · rwa [hsame]
  · intro e he
    rw [getEarliestPersistedBlockNumber, Store.write_trueEarliest hlog] at he
    rcases hold : s.db.metadata .trueEarliestPersisted with _ | old
    · rw [hold] at he
      cases he
      exact getBlockNumber_le hn
    · rw [hold] at he
      cases he
      exact h old hold

lemma earliestOf_le {cold hot : Option ℕ} {bound : ℕ} (hcold : ∀ c ∈ cold, c ≤ bound)
    (hhot : ∀ h ∈ hot, h ≤ bound) : ∀ e ∈ earliestOf cold hot, e ≤ bound := by
  rcases cold with _ | c <;> rcases hot with _ | h <;> intro e he <;> cases he
  · exact hhot h rfl
  · exact hcold c rfl
  · exact (min_le_left c h).trans (hcold c rfl)

lemma head_keys_le {V : Type} {m : SortedMap ℕ V} {bound : ℕ}
    (h : ∀ k, m.get k ≠ none → k ≤ bound) : ∀ k ∈ m.keys.head?, k ≤ bound :=
  fun k hk => h k (SortedMap.mem_keys.mp (List.mem_of_mem_head? hk))

/-- At start-up the earliest number is found among the indices and the hot tier. -/
lemma initializeDb_earliestBounded {indices : Indices} {db : Db} (hidx : NamedIndices indices)
    (hhot : ∀ n, db.hotBlocks.get n ≠ none → n ≤ u64Max) (h : EarliestBounded db) :
    EarliestBounded (initializeDb cfg indices db) := by
  have hset : ∀ db', EarliestBounded db' →
      EarliestBounded (initializeHighestContiguous cfg.seed db') := by
    intro db' h' e he
    rw [getEarliestPersistedBlockNumber,
      (initializeHighestContiguous_frame cfg.seed db').2 _ (by decide)] at he
    exact h' e he
  have hcold : ∀ k ∈ indices.keys.head?, k ≤ u64Max := by
    refine head_keys_le fun k hk => ?_
    obtain ⟨m, hm⟩ := Option.ne_none_iff_exists'.mp hk
    have := (hidx k m hm).1
    simp only [u64Max]
    omega
  unfold initializeDb
  simp only
  split
  · split
    · next earliest hearliest =>
      refine hset _ fun e he => ?_
      obtain rfl : earliest = e := Option.some.inj he
      exact earliestOf_le hcold (head_keys_le hhot) _ hearliest
    · exact hset db h
  · exact hset db h

/-- What holds in every run of the numbers that the node has on record. -/
structure Node.Within (cfg : Config) (node : Node) : Prop where
  good : node.Good cfg
  anchored : node.Anchored cfg
  named : NamedIndices node.indices
  committed : HotCommitted node.store
  earliest : EarliestBounded node.store.db

lemma HotCommitted.le {s : Store} (h : HotCommitted s) (hg : s.Good cfg) {n : ℕ}
    (hn : s.db.hotBlocks.get n ≠ none) : n ≤ latestOrSeed cfg s.db :=
  hg.ok.bound (h n hn)

lemma Node.init_within (cfg : Config) : (Node.init cfg).Within cfg where
  good := Node.init_good cfg
  anchored := Node.init_anchored cfg
  named k m h := by cases h
  committed n hn := absurd (SortedMap.get_empty n) hn
  earliest e he := by
    cases (Store.init_metadata cfg _).symm.trans he

lemma operate_earliestBounded (h : node.Within cfg)
    (hstep : node.operate cfg codec op = some node') : EarliestBounded node'.store.db := by
  cases op with
  | write block =>
    cases hstep
    exact Store.write_earliestBounded h.earliest block
  | writeBatch blocks outcomes =>
    cases hstep
    rcases (writeBlockBatch_store cfg codec node blocks outcomes).1 with hsame | ⟨f, hf, hset⟩
    · rw [hsame]
      exact h.earliest
    · have hput : EarliestBounded (commitBatch (setTrueEarliestPersisted f) node.store.db) := by
        rintro e ⟨⟩
        exact hf
      rw [hset]
      simp only [updateTrueEarliestIfLess]
      split
      · split
        · exact hput
        · exact h.earliest
      · exact hput
  | trigger =>
    simp only [Node.operate, Node.step] at hstep
    split at hstep <;> cases hstep <;> exact h.earliest
  | archive outcome =>
    cases hstep
    intro e he
    rw [getEarliestPersistedBlockNumber,
      (attempt_earliest cfg codec h.good.archiver outcome).1] at he
    exact h.earliest e he
  | restart entries =>
    simp only [Node.operate, Node.step] at hstep
    split at hstep <;> cases hstep
    refine initializeDb_earliestBounded (NamedIndices.scan node.disk entries) (fun n hn => ?_)
      h.earliest
    exact (h.committed.le h.good.store hn).trans h.good.store.ok.latest_le

lemma operate_within (h : node.Within cfg) (hstep : node.operate cfg codec op = some node') :
    node'.Within cfg where
  good := operate_good h.good hstep
  anchored := operate_anchored h.anchored hstep
  named := operate_named h.named hstep
  committed := (operate_cursor h.anchored.work hstep).1.hotCommitted h.committed
  earliest := operate_earliestBounded h hstep

lemma run_within {ops : List Operation}
    (hrun : run (Node.operate cfg codec) (Node.init cfg) ops = some node) : node.Within cfg :=
  run_inv_of_step (fun h hstep => operate_within h hstep) (Node.init_within cfg) hrun

/-! ### Reads at the end of the numbers -/

lemma NamedIndices.coldReadBlock {indices : Indices} (h : NamedIndices indices) (disk : Disk)
    {n : ℕ} (hn : 10 ^ 10 ≤ n) : coldReadBlock codec disk indices n = some none := by
  unfold RockNode.coldReadBlock
  split
  · rfl
  · next k m hseek =>
    have hend := (h k m (SortedMap.seekLE_eq_some.mp hseek).1).2
    have hout : m.getRecord n = none := by
      unfold MappedIndex.getRecord
      rw [if_neg (by omega)]
    rw [hout]

lemma Node.Within.readBlock_none (h : node.Within cfg) {n : ℕ} (hn : 10 ^ 10 ≤ n)
    (hhot : node.store.db.hotBlocks.get n = none) : node.readBlock codec n = some none := by
  simp only [Node.readBlock, hotReadBlock, hhot]
  exact h.named.coldReadBlock node.disk hn

/-- What is in the hot tier can be read and decoded. -/
lemma readBlock_hot (h : node.store.db.Proper codec) {n : ℕ}
    (hhot : node.store.db.hotBlocks.get n ≠ none) :
    ∃ bytes block, node.readBlock codec n = some (some bytes) ∧
      codec.decode bytes = some block := by
  obtain ⟨value, hvalue⟩ := Option.ne_none_iff_exists'.mp hhot
  obtain ⟨block, -, rfl⟩ := h hvalue
  refine ⟨codec.encode block, block, ?_, codec.decode_encode block⟩
  simp [Node.readBlock, hotReadBlock, hvalue]

/-! ### Sessions -/

namespace Subscriber

variable {lookahead top : ℕ} {reader : BlockReader} {session session' : Subscriber}

/-- A session that has read the earliest number of this reader, and that stays at or below a
number, without the block of that number in its hands. -/
def StaysBelow (reader : BlockReader) (top : ℕ) : SubscriberTask → Prop
  | .latest e => reader.earliest = some e
  | .next n | .subscribe n | .waiting n _ => n ≤ top
  | .send n _ => n < top
  | .crashed => False
  | .earliest | .finish _ | .done => True

/-- A reader that accepts no start past a number whose block it does not have. -/
structure EndsAt (lookahead : ℕ) (reader : BlockReader) (top : ℕ) : Prop where
  bound : top ≤ u64Max
  missing : reader.readBlock top = some none
  accepts : ∀ {e l}, reader.earliest = some e → reader.latest = some l → ∀ request,
    ∃ result, validateAndCheckFulfillment lookahead request e l = some result ∧
      ∀ start, result = .ok start → start ≤ top

lemma step_staysBelow (hends : EndsAt lookahead reader top) {act : SubscriberAct}
    (h : StaysBelow reader top session.task)
    (hstep : session.step codec lookahead reader act = some session') :
    StaysBelow reader top session'.task := by
  cases step_cases hstep with
  | hangsUp => exact h
  | begins _ hearliest => exact hearliest
  | validates htask hlatest =>
    rw [htask] at h
    obtain ⟨result, hresult, hle⟩ := hends.accepts h hlatest session.request
    rw [hresult]
    rcases result with error | start
    · trivial
    · exact hle start rfl
  | misses htask =>
    rw [htask] at h
    exact h
  | finds htask _ hread =>
    rw [htask] at h
    refine lt_of_le_of_ne h ?_
    rintro rfl
    rw [hends.missing] at hread
    cases hread
  | sends htask =>
    rw [htask] at h
    have hlt : _ < top := h
    have hbound := hends.bound
    simp only [goto]
    rw [if_pos (by omega)]
    exact hlt
  | subscribes htask =>
    rw [htask] at h
    exact h
  | passes htask =>
    rw [htask] at h
    exact h
  | wakes htask =>
    rw [htask] at h
    exact h
  | fails | reaches | ends => trivial

/-- A session at such a reader never overflows. -/
lemma run_ne_crashed (hends : EndsAt lookahead reader top) {request : SubscribeRequest}
    {acts : List SubscriberAct}
    (hrun : run (step codec lookahead reader) (.new request) acts = some session) :
    session.task ≠ .crashed := by
  have hnew : StaysBelow reader top (new request).task := trivial
  have h : StaysBelow reader top session.task :=
    run_inv_of_step (I := fun session => StaysBelow reader top session.task)
      (fun h hstep => step_staysBelow hends h hstep) hnew hrun
  intro hcrashed
  rw [hcrashed] at h
  exact h

/-- Some request takes the session to an overflow. -/
def Overflows (codec : Codec) (lookahead : ℕ) (reader : BlockReader) : Prop :=
  ∃ request acts session,
    run (step codec lookahead reader) (new request) acts = some session ∧
      session.task = .crashed

/-- The block of this number is there and can be decoded. -/
def Readable (codec : Codec) (reader : BlockReader) (n : ℕ) : Prop :=
  ∃ bytes block, reader.readBlock n = some (some bytes) ∧ codec.decode bytes = some block

/-- A session without an end that is about to read this block. -/
structure LiveAt (session : Subscriber) (n : ℕ) : Prop where
  task : session.task = .next n
  live : ¬ session.request.IsFinite
  connected : session.connected = true

lemma new_run (codec : Codec) (lookahead : ℕ) (request : SubscribeRequest) {e l : Option ℕ}
    (hearliest : reader.earliest = some e) (hlatest : reader.latest = some l) :
    run (step codec lookahead reader) (new request) [.go, .go] =
      some (((new request).goto (.latest e)).onValidated
        (validateAndCheckFulfillment lookahead request e l)) := by
  simp [run, step, new, goto, hearliest, hlatest]

lemma accepted_run (codec : Codec) {request : SubscribeRequest} {e l : Option ℕ} {start : ℕ}
    (hearliest : reader.earliest = some e) (hlatest : reader.latest = some l)
    (hlive : ¬ request.IsFinite)
    (hok : validateAndCheckFulfillment lookahead request e l = some (.ok start)) :
    ∃ session, run (step codec lookahead reader) (new request) [.go, .go] = some session ∧
      session.LiveAt start := by
  refine ⟨_, new_run codec lookahead request hearliest hlatest, ?_⟩
  rw [hok]
  exact ⟨rfl, hlive, rfl⟩

/-- The session sends the block it is at. -/
lemma LiveAt.send_run {n : ℕ} (h : session.LiveAt n) (hread : Readable codec reader n)
    (lookahead : ℕ) :
    ∃ session', run (step codec lookahead reader) session [.go, .go] = some session' ∧
      session'.task = (if n + 1 ≤ u64Max then .next (n + 1) else .crashed) ∧
      session'.request = session.request ∧ session'.connected = true := by
  obtain ⟨bytes, block, hbytes, hblock⟩ := hread
  have hfinds : session.step codec lookahead reader .go =
      some (session.goto (.send n block)) := by
    simp [step, h.task, h.live, onRead, hbytes, hblock]
  refine ⟨_, (run_cons hfinds _).trans rfl, ?_⟩
  simp [onSend, goto, send, h.connected]

/-- It then goes on to the next number. -/
lemma LiveAt.next {n : ℕ} (h : session.LiveAt n) (hread : Readable codec reader n)
    (hn : n < u64Max) (lookahead : ℕ) :
    ∃ session', run (step codec lookahead reader) session [.go, .go] = some session' ∧
      session'.LiveAt (n + 1) := by
  obtain ⟨session', hrun, htask, hrequest, hconn⟩ := h.send_run hread lookahead
  rw [if_pos (Nat.succ_le_of_lt hn)] at htask
  exact ⟨session', hrun, htask, hrequest ▸ h.live, hconn⟩

/-- From the last number there is no next one. -/
lemma LiveAt.overflows {request : SubscribeRequest} {acts : List SubscriberAct}
    (h : session.LiveAt u64Max) (hread : Readable codec reader u64Max)
    (hrun : run (step codec lookahead reader) (new request) acts = some session) :
    Overflows codec lookahead reader := by
  obtain ⟨session', hsend, hcrashed, -⟩ := h.send_run hread lookahead
  exact ⟨request, acts ++ [.go, .go], session', (run_append hrun _).trans hsend, hcrashed⟩

/-- A request from the earliest block on is checked against the latest number. -/
lemma overflows_of_lookahead {e : Option ℕ} {l : ℕ} (hearliest : reader.earliest = some e)
    (hlatest : reader.latest = some (some l)) (hbound : ∀ k ∈ e, k < u64Max)
    (hlarge : u64Max < l + lookahead) : Overflows codec lookahead reader := by
  have hstart : e.getD 0 < u64Max := by
    rcases e with _ | k
    · decide
    · exact hbound k rfl
  let request : SubscribeRequest := ⟨e.getD 0, u64Max, hstart.le, le_rfl⟩
  have hfilter : e.filter (e.getD 0 < ·) = none := by
    rcases e with _ | k
    · rfl
    · simp
  have hnone : validateAndCheckFulfillment lookahead request e (some l) = none := by
    have hadd : checkedAdd l lookahead = none := by
      unfold checkedAdd
      rw [if_neg (by omega)]
    simp [validateAndCheckFulfillment, request, hstart.ne, checkStart, hfilter, hadd]
  refine ⟨request, _, _, new_run codec lookahead request hearliest hlatest, ?_⟩
  rw [hnone]
  rfl

/-- A live session starts at the earliest block, which may be the last of all. -/
lemma overflows_of_earliest {l : Option ℕ} (hearliest : reader.earliest = some (some u64Max))
    (hlatest : reader.latest = some l) (hread : Readable codec reader u64Max) :
    Overflows codec lookahead reader := by
  let request : SubscribeRequest := ⟨u64Max, u64Max, le_rfl, le_rfl⟩
  have hok : validateAndCheckFulfillment lookahead request (some u64Max) l = some (.ok u64Max) := by
    simp [validateAndCheckFulfillment, request]
  obtain ⟨session, hrun, hat⟩ := accepted_run codec hearliest hlatest (not_not.mpr rfl) hok
  exact hat.overflows hread hrun

/-- A session that is given the last block but one goes on to the last. -/
lemma overflows_of_last {e : Option ℕ} (hearliest : reader.earliest = some e)
    (hlatest : reader.latest = some (some u64Max)) (hbound : ∀ k ∈ e, k < u64Max)
    (hlast : Readable codec reader u64Max) (hprev : Readable codec reader (u64Max - 1)) :
    Overflows codec lookahead reader := by
  rcases Nat.eq_zero_or_pos lookahead with rfl | hpos
  · let request : SubscribeRequest := ⟨u64Max - 1, u64Max, Nat.sub_le _ _, le_rfl⟩
    have hfilter : e.filter (u64Max - 1 < ·) = none := by
      rcases e with _ | k
      · rfl
      · have := hbound k rfl
        simp
        omega
    have hok : validateAndCheckFulfillment 0 request e (some u64Max) =
        some (.ok (u64Max - 1)) := by
      have hadd : checkedAdd u64Max 0 = some u64Max := by decide
      have hne : u64Max - 1 ≠ u64Max := by decide
      simp [validateAndCheckFulfillment, request, checkStart, hfilter, hadd, hne]
    obtain ⟨before, hrun, hat⟩ := accepted_run codec hearliest hlatest (not_not.mpr rfl) hok
    obtain ⟨session, hnext, hat'⟩ := hat.next hprev (by decide) 0
    exact hat'.overflows hlast ((run_append hrun _).trans hnext)
  · exact overflows_of_lookahead hearliest hlatest hbound (by omega)

end Subscriber

/-! ### The subscribers of a node -/

/-- The store as a session sees it. -/
def Node.blockReader (codec : Codec) (node : Node) : BlockReader where
  earliest := some (getEarliestPersistedBlockNumber node.store.db)
  latest := some (getLatestPersistedBlockNumber node.store.db)
  readBlock := node.readBlock codec

/-- When the earliest block is the last of all, an explicit start is refused at once. -/
lemma validate_ne_none_of_last (lookahead : ℕ) (request : SubscribeRequest) (l : Option ℕ) :
    validateAndCheckFulfillment lookahead request (some u64Max) l ≠ none := by
  simp only [validateAndCheckFulfillment]
  split
  · exact Option.some_ne_none _
  split
  · split
    · exact Option.some_ne_none _
    · split <;> exact Option.some_ne_none _
  · next hstart =>
    have hlt : request.startBlockNumber < u64Max := lt_of_le_of_ne request.start_le hstart
    have hfilter : (some u64Max).filter (request.startBlockNumber < ·) = some u64Max := by
      simp [hlt]
    simp [checkStart, hfilter]

/-- The requests that are checked without overflow, and the blocks that end the numbers. -/
structure SessionsInRange (lookahead : ℕ) (db : Db) : Prop where
  lookahead : ∀ l ∈ getLatestPersistedBlockNumber db, l + lookahead ≤ u64Max ∨
    getEarliestPersistedBlockNumber db = some u64Max
  last : db.hotBlocks.get u64Max = none ∨ getEarliestPersistedBlockNumber db ≠ some u64Max ∧
    db.hotBlocks.get (u64Max - 1) = none

section Sessions

variable {lookahead : ℕ}

/-- Requests are validated without an overflow. -/
lemma SessionsInRange.validates (h : SessionsInRange lookahead node.store.db)
    (request : SubscribeRequest) :
    validateAndCheckFulfillment lookahead request
      (getEarliestPersistedBlockNumber node.store.db)
      (getLatestPersistedBlockNumber node.store.db) ≠ none := by
  by_cases hlast : getEarliestPersistedBlockNumber node.store.db = some u64Max
  · rw [hlast]
    exact validate_ne_none_of_last lookahead request _
  · exact validate_ne_none fun l hl => (h.lookahead l hl).resolve_right hlast

/-- The session cannot get past the last number, or not past the last but one. -/
lemma Node.Within.endsAt (hw : node.Within cfg) (codec : Codec)
    (h : SessionsInRange lookahead node.store.db) :
    ∃ top, Subscriber.EndsAt lookahead (node.blockReader codec) top := by
  have haccepts : ∀ top, (∀ start request, validateAndCheckFulfillment lookahead request
      (getEarliestPersistedBlockNumber node.store.db)
      (getLatestPersistedBlockNumber node.store.db) = some (.ok start) → start ≤ top) →
      ∀ {e l}, (node.blockReader codec).earliest = some e →
        (node.blockReader codec).latest = some l → ∀ request,
        ∃ result, validateAndCheckFulfillment lookahead request e l = some result ∧
          ∀ start, result = .ok start → start ≤ top := by
    rintro top htop e l ⟨⟩ ⟨⟩ request
    obtain ⟨result, hresult⟩ := Option.ne_none_iff_exists'.mp (h.validates request)
    exact ⟨result, hresult, fun start hok => htop start request (hok ▸ hresult)⟩
  have hearliest : (getEarliestPersistedBlockNumber node.store.db).getD 0 ≤ u64Max := by
    rcases he : getEarliestPersistedBlockNumber node.store.db with _ | e
    · exact Nat.zero_le _
    · exact hw.earliest e he
  rcases h.last with hnone | ⟨hne, hnone⟩
  · refine ⟨u64Max, le_rfl, hw.readBlock_none (by decide) hnone, haccepts u64Max ?_⟩
    intro start request hok
    rw [validate_firstBlock hok, SubscribeRequest.firstBlock]
    split
    · exact hearliest
    · exact request.start_le
  · refine ⟨u64Max - 1, Nat.sub_le _ _, hw.readBlock_none (by decide) hnone,
      haccepts (u64Max - 1) ?_⟩
    intro start request hok
    rw [validate_firstBlock hok, SubscribeRequest.firstBlock]
    split
    · have hlast : (getEarliestPersistedBlockNumber node.store.db).getD 0 ≠ u64Max := by
        rcases he : getEarliestPersistedBlockNumber node.store.db with _ | e
        · decide
        · exact fun heq => hne (he.trans (congrArg some heq))
      omega
    · have := request.start_le
      omega

/-- A last block that is in the hot tier is the latest one. -/
lemma Node.Within.latest_of_last (hw : node.Within cfg)
    (hhot : node.store.db.hotBlocks.get u64Max ≠ none) :
    getLatestPersistedBlockNumber node.store.db = some u64Max := by
  have hle := hw.committed.le hw.good.store hhot
  have hmax : latestOrSeed cfg node.store.db ≤ u64Max := hw.good.store.ok.latest_le
  have hseed := cfg.seed_lt
  have heq : (node.store.db.metadata .latestPersisted).getD cfg.seed = u64Max :=
    le_antisymm hmax hle
  rw [getLatestPersistedBlockNumber]
  rcases hlatest : node.store.db.metadata .latestPersisted with _ | l
  · rw [hlatest, Option.getD_none] at heq
    omega
  · rw [hlatest] at heq
    exact congrArg some heq

/-- **When no session overflows.** -/
lemma sessions_safe_iff (hw : node.Within cfg) (hproper : node.store.db.Proper codec) :
    ¬ Subscriber.Overflows codec lookahead (node.blockReader codec) ↔
      SessionsInRange lookahead node.store.db := by
  constructor
  · intro hsafe
    have hbelow : getEarliestPersistedBlockNumber node.store.db ≠ some u64Max →
        ∀ e ∈ getEarliestPersistedBlockNumber node.store.db, e < u64Max := by
      intro hne e he
      refine lt_of_le_of_ne (hw.earliest e he) ?_
      rintro rfl
      exact hne he
    refine ⟨fun l hl => ?_, ?_⟩
    · by_contra hneither
      rw [not_or] at hneither
      exact hsafe (Subscriber.overflows_of_lookahead rfl (congrArg some hl)
        (hbelow hneither.2) (by omega))
    · by_contra hneither
      rw [not_or, not_and] at hneither
      obtain ⟨hlast, hprev⟩ := hneither
      have hread := readBlock_hot hproper hlast
      by_cases heq : getEarliestPersistedBlockNumber node.store.db = some u64Max
      · exact hsafe (Subscriber.overflows_of_earliest (congrArg some heq) rfl hread)
      · exact hsafe (Subscriber.overflows_of_last rfl (congrArg some (hw.latest_of_last hlast))
          (hbelow heq) hread (readBlock_hot hproper (hprev heq)))
  · rintro h ⟨request, acts, session, hrun, hcrashed⟩
    obtain ⟨top, hends⟩ := hw.endsAt codec h
    exact Subscriber.run_ne_crashed hends hrun hcrashed

end Sessions

/-! ### The archiver's batch -/

lemma batchCompleteFrom_of_missing {db : Db} {start remaining i j : ℕ} (hij : i ≤ j)
    (hj : j < i + remaining) (hle : start + j ≤ u64Max)
    (hnone : db.hotBlocks.get (start + j) = none) :
    batchCompleteFrom db start remaining i = some false := by
  induction remaining generalizing i with
  | zero => omega
  | succ remaining ih =>
    have hadd : checkedAdd start i = some (start + i) :=
      checkedAdd_eq_some.mpr ⟨rfl, by omega⟩
    simp only [batchCompleteFrom, hadd, Option.bind_eq_bind, Option.bind_some]
    split
    · rfl
    · next hsome =>
      rcases Nat.eq_or_lt_of_le hij with rfl | hlt
      · simp [hnone] at hsome
      · exact ih (by omega) (by omega)

lemma batchCompleteFrom_ne_none {db : Db} {start remaining i : ℕ}
    (h : start + i + remaining ≤ u64Max + 1) :
    batchCompleteFrom db start remaining i ≠ none := by
  induction remaining generalizing i with
  | zero => exact Option.some_ne_none _
  | succ remaining ih =>
    have hadd : checkedAdd start i = some (start + i) :=
      checkedAdd_eq_some.mpr ⟨rfl, by omega⟩
    simp only [batchCompleteFrom, hadd, Option.bind_eq_bind, Option.bind_some]
    split
    · exact Option.some_ne_none _
    · exact ih (by omega)

/-- The batch ends within the numbers, or lacks a block before they end. -/
def BatchInRange (size : ℕ) (db : Db) (start : ℕ) : Prop :=
  start + size ≤ u64Max ∨ ∃ n, start ≤ n ∧ n ≤ u64Max ∧ db.hotBlocks.get n = none

lemma batch_safe_iff {db : Db} {start size : ℕ} :
    (isBatchComplete db start size ≠ none ∧
      (isBatchComplete db start size = some true → checkedAdd start size ≠ none)) ↔
      BatchInRange size db start := by
  rcases Nat.lt_or_ge u64Max (start + size) with hpast | hwithin
  · -- the batch runs over the end, so that it must not be complete
    have hadd : checkedAdd start size = none := by
      unfold checkedAdd
      rw [if_neg (by omega)]
    constructor
    · rintro ⟨hsome, htrue⟩
      rcases hcomplete : isBatchComplete db start size with _ | _ | _
      · exact absurd hcomplete hsome
      · obtain ⟨j, -, -, hle, hnone⟩ := batchCompleteFrom_eq_false hcomplete
        exact Or.inr ⟨start + j, by omega, hle, hnone⟩
      · exact absurd hadd (htrue hcomplete)
    · rintro (hle | ⟨n, hstart, hn, hnone⟩)
      · omega
      · obtain ⟨j, rfl⟩ := Nat.exists_eq_add_of_le hstart
        have hfalse : isBatchComplete db start size = some false :=
          batchCompleteFrom_of_missing (Nat.zero_le j) (by omega) hn hnone
        rw [hfalse]
        exact ⟨Option.some_ne_none _, fun h => by cases h⟩
  · have hadd : checkedAdd start size = some (start + size) :=
      checkedAdd_eq_some.mpr ⟨rfl, hwithin⟩
    rw [hadd]
    exact ⟨fun _ => Or.inl hwithin, fun _ => ⟨batchCompleteFrom_ne_none (by omega),
      fun _ => Option.some_ne_none _⟩⟩

/-! ### The frontier -/

/-- The frontier can take one more block, and the walk from there ends before the last number. -/
structure FrontierInRange (cfg : Config) (db : Db) : Prop where
  next : highestContiguous db + 1 ≠ u64Max
  walk : highestContiguous db + 2 = u64Max → latestOrSeed cfg db ≠ u64Max

lemma write_safe_iff {s : Store} (hg : s.Good cfg) :
    (∀ block n, getBlockNumber block = some n → (prepareBatch cfg codec block n).run s.db ≠ none) ↔
      FrontierInRange cfg s.db := by
  have hlt : highestContiguous s.db < u64Max := hg.ok.highest_lt
  have hmax : latestOrSeed cfg s.db ≤ u64Max := hg.ok.latest_le
  have hreach : (s.marks cfg).reach (highestContiguous s.db + 1) ≠ u64Max ↔
      FrontierInRange cfg s.db := by
    rw [Store.marks_reach]
    by_cases hadj : highestContiguous s.db + 1 + 1 = latestOrSeed cfg s.db
    · rw [if_pos hadj]
      exact ⟨fun h => ⟨by omega, fun _ => h⟩, fun h => by have := h.walk; omega⟩
    · rw [if_neg hadj]
      exact ⟨fun h => ⟨h, by omega⟩, fun h => h.next⟩
  rw [← hreach]
  constructor
  · intro h hlast
    have hn : getBlockNumber (plainBlock (highestContiguous s.db + 1)) =
        some (highestContiguous s.db + 1) := plainBlock_number (by simp only [u64Max] at hlt; omega)
    apply h _ _ hn
    rw [prepareBatch_run, contiguousOps_next hg rfl, if_pos hlast]
    rfl
  · intro h block n hn
    rw [prepareBatch_run]
    rcases Nat.lt_trichotomy n (highestContiguous s.db + 1) with hbelow | rfl | habove
    · rw [contiguousOps_below hg (by omega)]
      exact Option.some_ne_none _
    · rw [contiguousOps_next hg rfl, if_neg h]
      exact Option.some_ne_none _
    · rw [contiguousOps_jump hg habove]
      exact Option.some_ne_none _

/-! ### All of them -/

/-- No addition of the service overflows at this node: not in a call of `write_block`, whatever
the block; not in a cycle of the archiver, at its count of the hot tier, at the numbers of the
batch and at the new cursor; and not in a session, whatever the request. -/
structure ArithmeticSafe (cfg : Config) (codec : Codec) (lookahead : ℕ) (node : Node) : Prop where
  write : ∀ block n, getBlockNumber block = some n →
    (prepareBatch cfg codec block n).run node.store.db ≠ none
  count : ∀ e ∈ node.store.db.metadata .earliestHot,
    checkedAdd ((node.store.db.metadata .latestPersisted).getD 0 - e) 1 ≠ none
  batch : Oversized cfg node.store.db → ∀ e ∈ node.store.db.metadata .earliestHot,
    isBatchComplete node.store.db e cfg.archiveBatchSize ≠ none ∧
      (isBatchComplete node.store.db e cfg.archiveBatchSize = some true →
        checkedAdd e cfg.archiveBatchSize ≠ none)
  sessions : ¬ Subscriber.Overflows codec lookahead (node.blockReader codec)

/-- The watermarks, the hot tier and the lookahead leave room for the numbers that the service
computes. -/
structure NumbersInRange (cfg : Config) (lookahead : ℕ) (db : Db) : Prop where
  frontier : FrontierInRange cfg db
  count : ∀ e ∈ db.metadata .earliestHot, e = 0 → (db.metadata .latestPersisted).getD 0 ≠ u64Max
  batch : Oversized cfg db → ∀ e ∈ db.metadata .earliestHot,
    BatchInRange cfg.archiveBatchSize db e
  sessions : SessionsInRange lookahead db

lemma count_safe_iff {s : Store} (hg : s.Good cfg) (e : ℕ) :
    checkedAdd ((s.db.metadata .latestPersisted).getD 0 - e) 1 ≠ none ↔
      (e = 0 → (s.db.metadata .latestPersisted).getD 0 ≠ u64Max) := by
  have hmax : latestOrSeed cfg s.db ≤ u64Max := hg.ok.latest_le
  have hle : (s.db.metadata .latestPersisted).getD 0 ≤ u64Max := by
    rcases hlatest : s.db.metadata .latestPersisted with _ | l
    · exact Nat.zero_le _
    · rwa [latestOrSeed, hlatest] at hmax
  have hpos : 0 < u64Max := by decide
  unfold checkedAdd
  split
  · exact ⟨fun _ => by omega, fun _ => Option.some_ne_none _⟩
  · exact ⟨fun h => absurd rfl h, fun h => by omega⟩

/-- **Where the arithmetic is safe.** In every state that the service can reach no addition
overflows exactly when the numbers on record are in range. -/
theorem arithmetic_safe_iff {ops : List Operation} (lookahead : ℕ)
    (hrun : run (Node.operate cfg codec) (Node.init cfg) ops = some node) :
    ArithmeticSafe cfg codec lookahead node ↔ NumbersInRange cfg lookahead node.store.db := by
  have hw := run_within hrun
  have hproper : node.store.db.Proper codec := (run_proper hrun).hot
  constructor
  · intro h
    exact ⟨(write_safe_iff hw.good.store).mp h.write,
      fun e he => (count_safe_iff hw.good.store e).mp (h.count e he),
      fun hover e he => batch_safe_iff.mp (h.batch hover e he),
      (sessions_safe_iff hw hproper).mp h.sessions⟩
  · intro h
    exact ⟨(write_safe_iff hw.good.store).mpr h.frontier,
      fun e he => (count_safe_iff hw.good.store e).mpr (h.count e he),
      fun hover e he => batch_safe_iff.mpr (h.batch hover e he),
      (sessions_safe_iff hw hproper).mpr h.sessions⟩

/-- One block, far from the end of the numbers. -/
theorem arithmetic_safe_iff_single : ∃ node,
    run (Node.operate zeroConfig plainCodec) (Node.init zeroConfig)
      [.write (headerBlock 0 [])] = some node ∧ ArithmeticSafe zeroConfig plainCodec 1 node := by
  have hsome : ∃ node ∈ run (Node.operate zeroConfig plainCodec) (Node.init zeroConfig)
      [.write (headerBlock 0 [])],
      highestContiguous node.store.db = 0 ∧ node.store.db.metadata .latestPersisted = none ∧
      node.store.db.metadata .earliestHot = some 0 ∧
      node.store.db.hotBlocks.get u64Max = none := by
    decide +kernel
  obtain ⟨node, hrun, hhighest, hlatest, hearliest, hlast⟩ := hsome
  refine ⟨node, hrun, (arithmetic_safe_iff 1 hrun).mpr ⟨⟨?_, ?_⟩, ?_, ?_, ⟨?_, Or.inl hlast⟩⟩⟩
  · rw [hhighest]
    decide
  · rw [hhighest]
    exact fun h => absurd h (by decide)
  · rw [hlatest]
    intro e _ _
    decide
  · intro _ e he
    rw [hearliest] at he
    cases he
    exact Or.inl (by decide)
  · intro l hl
    rw [getLatestPersistedBlockNumber, hlatest] at hl
    cases hl

/-- Block 0 and the last block of all are stored; the archiver then counts one block too many. -/
theorem arithmetic_not_safe : ¬ ∀ (cfg : Config) (codec : Codec) (lookahead : ℕ)
    (blocks : List Block) (node : Node),
    run (Node.operate cfg codec) (Node.init cfg) (blocks.map .write) = some node →
      ArithmeticSafe cfg codec lookahead node := by
  intro h
  have hsome : ∃ node ∈ run (Node.operate zeroConfig plainCodec) (Node.init zeroConfig)
      ([headerBlock 0 [], headerBlock 0xFFFFFFFFFFFFFFFF []].map .write),
      node.store.db.metadata .earliestHot = some 0 ∧
      checkedAdd ((node.store.db.metadata .latestPersisted).getD 0 - 0) 1 = none := by
    decide +kernel
  obtain ⟨node, hrun, hearliest, hcount⟩ := hsome
  exact (h zeroConfig plainCodec 0 _ node hrun).count 0 hearliest hcount

end RockNode
