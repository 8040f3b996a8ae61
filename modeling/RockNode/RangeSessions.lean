import RockNode.NodeServices
import RockNode.SubscriberStreams

/-!
A subscription to a range of blocks that the node has.

Every own step of the session brings it nearer to its end: two steps for each block, two before
the first and two after the last. So the whole range is sent within a known number of steps,
whatever the node does in between.
-/

namespace RockNode

/-! ### The course of a session -/

/-- The messages are the blocks of the numbers from `start` up to `n`, in order, and each of the
blocks is as `F` says. -/
def SentTo (F : Block → Prop) (start n : ℕ) (sent : List SubscribeResponse) : Prop :=
  ∃ blocks : List Block, sent = blocks.map (fun block => .blockItems block.items) ∧
    blocks.map getBlockNumber = (List.range' start (n - start)).map some ∧ ∀ block ∈ blocks, F block

section Sent

variable {F F' : Block → Prop}

lemma SentTo.nil (F : Block → Prop) (n : ℕ) : SentTo F n n [] :=
  ⟨[], rfl, by simp, by simp⟩

lemma SentTo.mono {start n : ℕ} {sent : List SubscribeResponse} (h : SentTo F start n sent)
    (hF : ∀ block, F block → F' block) : SentTo F' start n sent := by
  obtain ⟨blocks, hsent, hnumbers, hall⟩ := h
  exact ⟨blocks, hsent, hnumbers, fun block hmem => hF block (hall block hmem)⟩

lemma SentTo.snoc {start n : ℕ} {sent : List SubscribeResponse} (h : SentTo F start n sent)
    (hle : start ≤ n) {block : Block} (hn : getBlockNumber block = some n) (hF : F block) :
    SentTo F start (n + 1) (sent ++ [.blockItems block.items]) := by
  obtain ⟨blocks, rfl, hnumbers, hall⟩ := h
  refine ⟨blocks ++ [block], by simp, ?_, ?_⟩
  · rw [List.map_append, hnumbers, Nat.succ_sub hle, List.range'_1_concat, List.map_append,
      Nat.add_sub_cancel' hle]
    simp [hn]
  · intro other hmem
    rcases List.mem_append.mp hmem with hmem | hmem
    · exact hall other hmem
    · rw [List.mem_singleton.mp hmem]
      exact hF

end Sent

/-- What the session is to find in the store for its request. -/
structure BlockReader.Offers (codec : Codec) (lookahead : ℕ) (F : Block → Prop)
    (request : SubscribeRequest) (reader : BlockReader) : Prop where
  earliest : ∃ e, reader.earliest = some (some e) ∧ e ≤ request.startBlockNumber
  latest : ∃ latest, reader.latest = some latest ∧
    ∀ l, latest = some l → request.startBlockNumber ≤ l ∧ l + lookahead ≤ u64Max
  reads : ∀ n, request.startBlockNumber ≤ n → n ≤ request.endBlockNumber → ∃ block,
    reader.readBlock n = some (some (codec.encode block)) ∧ getBlockNumber block = some n ∧ F block

lemma BlockReader.Offers.mono {codec : Codec} {lookahead : ℕ} {F F' : Block → Prop}
    {request : SubscribeRequest} {reader : BlockReader}
    (h : reader.Offers codec lookahead F request) (hF : ∀ block, F block → F' block) :
    reader.Offers codec lookahead F' request := by
  refine ⟨h.earliest, h.latest, fun n hn hend => ?_⟩
  obtain ⟨block, hread, hnumber, hblock⟩ := h.reads n hn hend
  exact ⟨block, hread, hnumber, hF block hblock⟩

namespace Subscriber

/-- The own steps of a session that sends a whole range. -/
def stepsFor (request : SubscribeRequest) : ℕ :=
  2 * (request.endBlockNumber + 1 - request.startBlockNumber) + 4

/-- A session on its way through the range, with `k` own steps to go. -/
def Course (F : Block → Prop) (request : SubscribeRequest) (sent : List SubscribeResponse) (k : ℕ) :
    SubscriberTask → Prop
  | .earliest => k = stepsFor request ∧ sent = []
  | .latest e => k + 1 = stepsFor request ∧ sent = [] ∧
    ∃ m, e = some m ∧ m ≤ request.startBlockNumber
  | .next n => k = 2 * (request.endBlockNumber + 1 - n) + 2 ∧ request.startBlockNumber ≤ n ∧
    n ≤ request.endBlockNumber + 1 ∧ SentTo F request.startBlockNumber n sent
  | .send n block => k = 2 * (request.endBlockNumber + 1 - n) + 1 ∧
    request.startBlockNumber ≤ n ∧ n ≤ request.endBlockNumber ∧
    SentTo F request.startBlockNumber n sent ∧ getBlockNumber block = some n ∧ F block
  | .finish none => k = 1 ∧ SentTo F request.startBlockNumber (request.endBlockNumber + 1) sent
  | .done => k = 0 ∧ ∃ body, sent = body ++ [.status .success] ∧
    SentTo F request.startBlockNumber (request.endBlockNumber + 1) body
  | _ => False

structure OnCourse (F : Block → Prop) (request : SubscribeRequest) (k : ℕ) (session : Subscriber) :
    Prop where
  request_eq : session.request = request
  connected : session.connected = true
  course : Course F request session.sent k session.task

variable {codec : Codec} {lookahead k : ℕ} {F F' : Block → Prop} {request : SubscribeRequest}
  {reader : BlockReader} {session session' : Subscriber}

lemma onCourse_new (F : Block → Prop) (request : SubscribeRequest) :
    (new request).OnCourse F request (stepsFor request) :=
  ⟨rfl, rfl, rfl, rfl⟩

lemma OnCourse.mono (h : session.OnCourse F request k) (hF : ∀ block, F block → F' block) :
    session.OnCourse F' request k := by
  refine ⟨h.request_eq, h.connected, ?_⟩
  have hcourse := h.course
  generalize session.task = task at hcourse ⊢
  rcases task with _ | e | n | ⟨n, block⟩ | n | ⟨n, events⟩ | ⟨_ | error⟩ | _ | _
  · exact hcourse
  · exact hcourse
  · exact ⟨hcourse.1, hcourse.2.1, hcourse.2.2.1, hcourse.2.2.2.mono hF⟩
  · obtain ⟨hk, hle, hn, hsent, hnumber, hblock⟩ := hcourse
    exact ⟨hk, hle, hn, hsent.mono hF, hnumber, hF block hblock⟩
  · exact hcourse
  · exact hcourse
  · exact ⟨hcourse.1, hcourse.2.mono hF⟩
  · exact hcourse
  · obtain ⟨hk, body, hbody, hsent⟩ := hcourse
    exact ⟨hk, body, hbody, hsent.mono hF⟩
  · exact hcourse

/-- An event does not reach a session that does not wait. -/
lemma OnCourse.deliver (h : session.OnCourse F request k) (event : ℕ) :
    (session.deliver event).OnCourse F request k := by
  have hcourse := h.course
  unfold Subscriber.deliver
  split
  · next n events htask =>
    rw [htask] at hcourse
    exact hcourse.elim
  · exact h

/-- A request for blocks that are there is accepted as it is. -/
lemma validate_accepts (hstart : request.startBlockNumber ≠ u64Max)
    (hordered : request.IsFinite → request.startBlockNumber ≤ request.endBlockNumber) {e : ℕ}
    {latest : Option ℕ} (he : e ≤ request.startBlockNumber)
    (hlatest : ∀ l, latest = some l → request.startBlockNumber ≤ l ∧ l + lookahead ≤ u64Max) :
    validateAndCheckFulfillment lookahead request (some e) latest =
      some (.ok request.startBlockNumber) := by
  have hfilter : (some e).filter (request.startBlockNumber < ·) = none := by
    simp only [Option.filter_eq_none_iff, Option.some.injEq, forall_eq', decide_eq_true_eq]
    omega
  simp only [validateAndCheckFulfillment]
  rw [if_neg fun hbad => absurd (hordered hbad.1) (not_le.mpr hbad.2.2), if_neg hstart]
  rcases latest with _ | l
  · simp only [checkStart, hfilter]
  · obtain ⟨hle, hroom⟩ := hlatest l rfl
    have hadd : checkedAdd l lookahead = some (l + lookahead) := checkedAdd_eq_some.mpr ⟨rfl, hroom⟩
    simp only [checkStart, hfilter, hadd, Option.bind_eq_bind, Option.bind_some]
    rw [if_neg (by omega)]
    rfl

/-- **One own step** of a session on its way. -/
lemma OnCourse.go (h : session.OnCourse F request (k + 1)) (hfinite : request.IsFinite)
    (hordered : request.startBlockNumber ≤ request.endBlockNumber)
    (hoffers : reader.Offers codec lookahead F request) :
    ∃ session', session.step codec lookahead reader .go = some session' ∧
      session'.OnCourse F request k := by
  obtain ⟨hrequest, hconn, hcourse⟩ := h
  rcases htask : session.task with
    _ | e | n | ⟨n, block⟩ | n | ⟨n, events⟩ | ⟨_ | error⟩ | _ | _ <;> rw [htask] at hcourse
  · obtain ⟨hk, hsent⟩ := hcourse
    obtain ⟨e, he, hle⟩ := hoffers.earliest
    refine ⟨session.goto (.latest (some e)), by simp only [step, htask, he], hrequest, hconn, ?_⟩
    exact ⟨hk, hsent, e, rfl, hle⟩
  · obtain ⟨hk, hsent, e, rfl, he⟩ := hcourse
    obtain ⟨latest, hlatest, hroom⟩ := hoffers.latest
    have hstart : request.startBlockNumber ≠ u64Max := by
      have := request.end_le
      unfold SubscribeRequest.IsFinite at hfinite
      omega
    have hvalid := validate_accepts hstart (fun _ => hordered) he hroom
    refine ⟨session.onValidated (some (.ok request.startBlockNumber)), ?_, hrequest, hconn, ?_⟩
    · simp only [step, htask, hlatest, hrequest, hvalid]
    unfold stepsFor at hk
    refine ⟨by omega, le_rfl, by omega, ?_⟩
    simp only [onValidated, goto, hsent]
    exact SentTo.nil F _
  · obtain ⟨hk, hle, hn, hsent⟩ := hcourse
    rcases Nat.lt_or_ge request.endBlockNumber n with hend | hend
    · obtain rfl : n = request.endBlockNumber + 1 := by omega
      refine ⟨session.goto (.finish none), ?_, hrequest, hconn, by omega, hsent⟩
      simp only [step, htask, hrequest]
      rw [if_pos ⟨hfinite, hend⟩]
    · obtain ⟨block, hread, hnumber, hF⟩ := hoffers.reads n hle hend
      refine ⟨session.goto (.send n block), ?_, hrequest, hconn, by omega, hle, hend, hsent,
        hnumber, hF⟩
      simp only [step, htask, hrequest]
      rw [if_neg (by omega)]
      simp only [onRead, hread, codec.decode_encode]
  · obtain ⟨hk, hle, hn, hsent, hnumber, hF⟩ := hcourse
    have hlast : n + 1 ≤ u64Max := by
      have := request.end_le
      unfold SubscribeRequest.IsFinite at hfinite
      omega
    refine ⟨(session.send (.blockItems block.items)).goto (.next (n + 1)), ?_, ?_, ?_, ?_⟩
    · simp only [step, htask, onSend, hconn, if_true, if_pos hlast]
    · simpa [goto] using hrequest
    · simpa [goto] using hconn
    · simp only [goto, send, hconn, if_true]
      exact ⟨by omega, by omega, by omega, hsent.snoc hle hnumber hF⟩
  · exact hcourse.elim
  · exact hcourse.elim
  · obtain ⟨hk, hsent⟩ := hcourse
    refine ⟨session.finalize none, by simp only [step, htask], ?_, ?_, ?_⟩
    · simpa [finalize, finalCode, goto] using hrequest
    · simpa [finalize, finalCode, goto] using hconn
    · simp only [finalize, finalCode, reduceCtorEq, if_false, goto, send, hconn, if_true]
      exact ⟨by omega, session.sent, rfl, hsent⟩
  · exact hcourse.elim
  · exact absurd hcourse.1 (Nat.succ_ne_zero k)
  · exact hcourse.elim

lemma OnCourse.done (h : session.OnCourse F request 0) : session.task = .done ∧
    ∃ body, session.sent = body ++ [.status .success] ∧
      SentTo F request.startBlockNumber (request.endBlockNumber + 1) body := by
  have hcourse := h.course
  have hpos : 0 < stepsFor request := Nat.succ_pos _
  rcases htask : session.task with
    _ | e | n | ⟨n, block⟩ | n | ⟨n, events⟩ | ⟨_ | error⟩ | _ | _ <;> rw [htask] at hcourse
  · exact absurd hcourse.1 hpos.ne
  · have := hcourse.1
    unfold stepsFor at this
    omega
  · exact absurd hcourse.1 (Nat.succ_ne_zero _).symm
  · exact absurd hcourse.1 (Nat.succ_ne_zero _).symm
  · exact hcourse.elim
  · exact hcourse.elim
  · exact absurd hcourse.1 Nat.zero_ne_one
  · exact hcourse.elim
  · exact ⟨rfl, hcourse.2⟩
  · exact hcourse.elim

end Subscriber

/-! ### Beside a node that goes on -/

/-- A node and a session that it serves. -/
structure Hosted where
  node : Node
  session : Subscriber

/-- The node takes a step, a `BlockPersisted` event is broadcast, or something happens to the
session. -/
inductive HostedAct where
  | node (act : Act)
  | announce (event : ℕ)
  | session (act : SubscriberAct)

/-- The session reads the store of the node as it is now. A restart would end the session. -/
def Hosted.step (cfg : Config) (codec : Codec) (lookahead : ℕ) (hosted : Hosted) :
    HostedAct → Option Hosted
  | .node (.restart _) => none
  | .node act => (hosted.node.step cfg codec act).map fun node => { hosted with node := node }
  | .announce event => some { hosted with session := hosted.session.deliver event }
  | .session act => (hosted.session.step codec lookahead (hosted.node.blockReader codec) act).map
      fun session => { hosted with session := session }

/-- The node's steps are sound, and nothing happens to the session but its own steps; there is room
for the addition in the check of the request. -/
def HostedAct.Undisturbed (cfg : Config) (codec : Codec) (lookahead : ℕ) (hosted : Hosted) :
    HostedAct → Prop
  | .node act => act.Sound cfg codec hosted.node
  | .announce _ => True
  | .session .go => ∀ l ∈ getLatestPersistedBlockNumber hosted.node.store.db,
    l + lookahead ≤ u64Max
  | .session _ => False

instance HostedAct.Undisturbed.decidable (cfg : Config) (codec : Codec) (lookahead : ℕ)
    (hosted : Hosted) : ∀ act : HostedAct, Decidable (act.Undisturbed cfg codec lookahead hosted)
  | .node act => inferInstanceAs (Decidable (act.Sound cfg codec hosted.node))
  | .announce _ => isTrue trivial
  | .session .go =>
    inferInstanceAs (Decidable (∀ l ∈ getLatestPersistedBlockNumber hosted.node.store.db, _))
  | .session .lagged | .session .closed | .session .timeout | .session .shutdown
  | .session .disconnect => isFalse id

def HostedAct.isGo : HostedAct → Bool
  | .session .go => true
  | _ => false

variable {cfg : Config} {codec : Codec} {lookahead : ℕ} {request : SubscribeRequest}
  {node node' : Node}

/-- The node has the range. -/
structure Node.Has (node : Node) (request : SubscribeRequest) : Prop where
  finite : request.IsFinite
  ordered : request.startBlockNumber ≤ request.endBlockNumber
  earliest : ∃ e, getEarliestPersistedBlockNumber node.store.db = some e ∧
    e ≤ request.startBlockNumber
  committed : ∀ n, request.startBlockNumber ≤ n → n ≤ request.endBlockNumber →
    node.store.Committed n

/-- Once there is an earliest number it stays. -/
lemma Serving.earliest_stays (h : Serving cfg codec node) (hsize : 1 ≤ cfg.archiveBatchSize)
    {act : Act} (hd : Durable cfg codec node') (hstep : node.step cfg codec act = some node')
    {e : ℕ} (he : getEarliestPersistedBlockNumber node.store.db = some e) :
    getEarliestPersistedBlockNumber node'.store.db = some e := by
  rcases h.step_earliest hsize hd hstep with ⟨block, rfl⟩ | ⟨-, hsame⟩
  · cases hstep
    rcases node.store.write_cases cfg codec block with heq | ⟨n, -, hlog, -⟩
    · simp only [heq]
      exact he
    · have hold : node.store.db.metadata .trueEarliestPersisted = some e := he
      simp only [getEarliestPersistedBlockNumber, Store.write_trueEarliest hlog, hold]
      rfl
  · exact hsame.trans he

lemma Serving.step_committed (h : Serving cfg codec node) {act : Act}
    (hstep : node.step cfg codec act = some node') {n : ℕ} (hn : node.store.Committed n) :
    node'.store.Committed n := by
  have hop : node.operate cfg codec act.toOperation = some node' := by
    cases act <;> exact hstep
  exact (operate_cursor h.cursor hop).1.committed hn

lemma Node.Has.step (hhas : node.Has request) (h : Serving cfg codec node)
    (hsize : 1 ≤ cfg.archiveBatchSize) {act : Act} (hact : act.Sound cfg codec node)
    (hstep : node.step cfg codec act = some node') : node'.Has request := by
  obtain ⟨e, he, hle⟩ := hhas.earliest
  exact ⟨hhas.finite, hhas.ordered,
    ⟨e, h.earliest_stays hsize (h.step hsize hact hstep).durable hstep he, hle⟩,
    fun n hstart hend => h.step_committed hstep (hhas.committed n hstart hend)⟩

/-- The block is the last one that was committed under its number. -/
def Store.Keeps (s : Store) (block : Block) : Prop :=
  ∃ n, getBlockNumber block = some n ∧ s.last n = some block

/-- The block has been committed under its number. -/
def Store.Wrote (s : Store) (block : Block) : Prop :=
  ∃ n, getBlockNumber block = some n ∧ (n, block) ∈ s.log

lemma Store.Keeps.wrote {s : Store} {block : Block} (h : s.Keeps block) : s.Wrote block := by
  obtain ⟨n, hnumber, hlast⟩ := h
  obtain ⟨l₁, l₂, hlog, -⟩ := List.lookup_eq_some_iff.mp hlast
  exact ⟨n, hnumber, by rw [hlog]; simp⟩

/-- What a serving node shows to a session for a range that it has. -/
lemma Node.Has.offers (hhas : node.Has request) (h : Serving cfg codec node)
    (hsize : 1 ≤ cfg.archiveBatchSize)
    (hroom : ∀ l ∈ getLatestPersistedBlockNumber node.store.db, l + lookahead ≤ u64Max) :
    (node.blockReader codec).Offers codec lookahead node.store.Keeps request := by
  obtain ⟨e, he, hle⟩ := hhas.earliest
  have hstart := hhas.committed _ le_rfl hhas.ordered
  refine ⟨⟨e, congrArg some he, hle⟩, ⟨_, rfl, fun l hl => ?_⟩, fun n hn hend => ?_⟩
  · exact ⟨(h.latest_spec hl).2 _ hstart, hroom l hl⟩
  · obtain ⟨block, hblock, -⟩ := (hhas.committed n hn hend).last
    have hnumber := h.durable.faithful.number hblock
    refine ⟨block, ?_, hnumber, n, hnumber, hblock⟩
    have hread := h.readBlock hsize n
    rw [hblock] at hread
    exact hread

lemma Serving.step_wrote (h : Serving cfg codec node) {act : Act}
    (hstep : node.step cfg codec act = some node') {block : Block}
    (hblock : node.store.Wrote block) : node'.store.Wrote block := by
  have hop : node.operate cfg codec act.toOperation = some node' := by
    cases act <;> exact hstep
  obtain ⟨n, hnumber, hmem⟩ := hblock
  cases (operate_cursor h.cursor hop).1 with
  | wrote _ _ _ _ _ _ _ log => exact ⟨n, hnumber, log ▸ List.mem_cons_of_mem _ hmem⟩
  | still _ _ log | skipped _ _ _ _ log | archived _ _ _ _ log => exact ⟨n, hnumber, log ▸ hmem⟩

lemma Hosted.step_node {act : Act} (hosted : Hosted) {hosted' : Hosted}
    (hstep : hosted.step cfg codec lookahead (.node act) = some hosted') :
    ∃ node', hosted.node.step cfg codec act = some node' ∧
      hosted' = { hosted with node := node' } := by
  cases act with
  | restart entries => cases hstep
  | _ =>
    simp only [Hosted.step] at hstep
    obtain ⟨node', hnode, rfl⟩ := Option.map_eq_some_iff.mp hstep
    exact ⟨node', hnode, rfl⟩

/-- The session is on its way, at a node that has what it asks for. -/
structure Hosted.OnCourse (cfg : Config) (codec : Codec) (request : SubscribeRequest) (k : ℕ)
    (hosted : Hosted) : Prop where
  serving : Serving cfg codec hosted.node
  has : hosted.node.Has request
  session : hosted.session.OnCourse hosted.node.store.Wrote request k

/-- **One step beside the node.** -/
lemma Hosted.OnCourse.step {hosted hosted' : Hosted} {k : ℕ}
    (h : hosted.OnCourse cfg codec request k) (hsize : 1 ≤ cfg.archiveBatchSize) {act : HostedAct}
    (hact : act.Undisturbed cfg codec lookahead hosted)
    (hstep : hosted.step cfg codec lookahead act = some hosted') :
    ∃ j, k = j + (if act.isGo then 1 else 0) ∧ hosted'.OnCourse cfg codec request j := by
  rcases act with act | event | act
  · obtain ⟨node', hnode, rfl⟩ := hosted.step_node hstep
    exact ⟨k, rfl, h.serving.step hsize hact hnode, h.has.step h.serving hsize hact hnode,
      h.session.mono fun block => h.serving.step_wrote hnode⟩
  · cases hstep
    exact ⟨k, rfl, h.serving, h.has, h.session.deliver event⟩
  · cases act with
    | go =>
      obtain ⟨session', hsession, rfl⟩ := Option.map_eq_some_iff.mp hstep
      rcases k with _ | k
      · -- the session is over
        simp only [Subscriber.step, h.session.done.1] at hsession
        cases hsession
      · have hoffers := (h.has.offers h.serving hsize hact).mono fun _ => Store.Keeps.wrote
        obtain ⟨next, hnext, hcourse⟩ := h.session.go h.has.finite h.has.ordered hoffers
        cases hnext.symm.trans hsession
        exact ⟨k, rfl, h.serving, h.has, hcourse⟩
    | _ => exact hact.elim

/-- **A whole run beside the node**: the own steps are counted down. -/
lemma Hosted.OnCourse.run {hosted hosted' : Hosted} {k : ℕ}
    (h : hosted.OnCourse cfg codec request k) (hsize : 1 ≤ cfg.archiveBatchSize)
    {acts : List HostedAct} (hsound : Along (Hosted.step cfg codec lookahead)
      (fun hosted act => act.Undisturbed cfg codec lookahead hosted) hosted acts)
    (hrun : RockNode.run (Hosted.step cfg codec lookahead) hosted acts = some hosted') :
    ∃ j, k = j + acts.countP HostedAct.isGo ∧ hosted'.OnCourse cfg codec request j := by
  induction acts generalizing hosted k with
  | nil =>
    cases hrun
    exact ⟨k, rfl, h⟩
  | cons act acts ih =>
    obtain ⟨next, hstep, hrest⟩ := run_cons_eq_some hrun
    obtain ⟨j, hk, hnext⟩ := h.step hsize hsound.1 hstep
    have hsound' := hsound.2
    rw [hstep] at hsound'
    obtain ⟨i, hj, hend⟩ := ih hnext hsound' hrest
    refine ⟨i, ?_, hend⟩
    rw [List.countP_cons]
    omega

/-- **A range that the node has is sent.** Whatever the node writes and archives in between, by
sound steps, a session that asks for the range and that nothing cuts short is never stuck, and after
two own steps for each block and four more it has sent every block of the range once, in order, as
it was committed, and then the status. -/
theorem range_sent (hsize : 1 ≤ cfg.archiveBatchSize)
    (hreach : RunsTo cfg codec (Node.init cfg) node) (hhas : node.Has request)
    {acts : List HostedAct} {hosted : Hosted}
    (hsound : Along (Hosted.step cfg codec lookahead)
      (fun hosted act => act.Undisturbed cfg codec lookahead hosted) ⟨node, .new request⟩ acts)
    (hrun : run (Hosted.step cfg codec lookahead) ⟨node, .new request⟩ acts = some hosted) :
    let steps := 2 * (request.endBlockNumber + 1 - request.startBlockNumber) + 4
    acts.countP HostedAct.isGo ≤ steps ∧
    (acts.countP HostedAct.isGo < steps →
      (HostedAct.session .go).Undisturbed cfg codec lookahead hosted →
      (hosted.step cfg codec lookahead (.session .go)).isSome = true) ∧
    (acts.countP HostedAct.isGo = steps → hosted.session.task = .done ∧
      ∃ blocks : List Block, hosted.session.sent =
          blocks.map (fun block => .blockItems block.items) ++ [.status .success] ∧
        blocks.map getBlockNumber = (List.range' request.startBlockNumber
          (request.endBlockNumber + 1 - request.startBlockNumber)).map some ∧
        ∀ block ∈ blocks, hosted.node.store.Wrote block) := by
  intro steps
  have hstart : Hosted.OnCourse cfg codec request steps ⟨node, .new request⟩ :=
    ⟨(init_serving cfg codec).runsTo hsize hreach, hhas, Subscriber.onCourse_new _ request⟩
  obtain ⟨j, hsteps, hend⟩ := hstart.run hsize hsound hrun
  refine ⟨by omega, fun hlt hroom => ?_, fun heq => ?_⟩
  · obtain ⟨k, rfl⟩ : ∃ k, j = k + 1 := ⟨j - 1, by omega⟩
    have hoffers := (hend.has.offers hend.serving hsize hroom).mono fun _ => Store.Keeps.wrote
    obtain ⟨next, hnext, -⟩ := hend.session.go hend.has.finite hend.has.ordered hoffers
    simp only [Hosted.step, hnext, Option.map_some, Option.isSome_some]
  · obtain rfl : j = 0 := by omega
    obtain ⟨hdone, body, hsent, blocks, rfl, hnumbers, hwrote⟩ := hend.session.done
    exact ⟨hdone, blocks, hsent, hnumbers, hwrote⟩

/-- Blocks 1 and 2. -/
def pairNode : Node :=
  { Node.init firstConfig with
    store := (Store.init firstConfig).writes firstConfig plainCodec
      [plainBlock 1, plainBlock 2] }

lemma runsTo_pairNode : RunsTo firstConfig plainCodec (Node.init firstConfig) pairNode :=
  ⟨[Act.write (plainBlock 1), Act.write (plainBlock 2)], rfl, by decide +kernel⟩

lemma one_le_u64Max : 1 ≤ u64Max := by decide

lemma two_le_u64Max : 2 ≤ u64Max := by decide

def pairRequest : SubscribeRequest := ⟨1, 2, one_le_u64Max, two_le_u64Max⟩

lemma pairNode_has : pairNode.Has pairRequest := by
  refine ⟨by decide, by decide, ⟨1, by decide +kernel, le_rfl⟩, fun n hn hend => ?_⟩
  rcases (show n = 1 ∨ n = 2 by
    change 1 ≤ n at hn
    change n ≤ 2 at hend
    omega) with rfl | rfl
  · exact ⟨plainBlock 1, by decide +kernel⟩
  · exact ⟨plainBlock 2, by decide +kernel⟩

/-- A third block is written while the two are sent. -/
def pairActs : List HostedAct :=
  List.replicate 3 (.session .go) ++ [.node (.write (plainBlock 3)), .announce 3] ++
    List.replicate 5 (.session .go)

theorem range_sent_pair : ∃ hosted, run (Hosted.step firstConfig plainCodec 10)
      ⟨pairNode, .new pairRequest⟩ pairActs = some hosted ∧ hosted.session.task = .done ∧
    ∃ blocks : List Block, hosted.session.sent =
        blocks.map (fun block => .blockItems block.items) ++ [.status .success] ∧
      blocks.map getBlockNumber = [some 1, some 2] := by
  have hsome : (run (Hosted.step firstConfig plainCodec 10) ⟨pairNode, .new pairRequest⟩
      pairActs).isSome = true := by decide +kernel
  obtain ⟨hosted, hrun⟩ := Option.isSome_iff_exists.mp hsome
  obtain ⟨hdone, blocks, hsent, hnumbers, -⟩ := (range_sent (by decide) runsTo_pairNode pairNode_has
    (by decide +kernel) hrun).2.2 (by decide)
  exact ⟨hosted, hrun, hdone, blocks, hsent, hnumbers⟩

end RockNode
