import RockNode.Replication

/-!
Continuous backfill from peers that run the program.

A session without an end sends block after block for as long as it lives, and it may break off
anywhere. The worker goes by a number that may be out of date, so that it asks for blocks it has.
All the same it never skips one: a node with nothing missing stays so.
-/

namespace RockNode

open RangeTable

/-! ### What a session has sent -/

/-- The messages are consecutive blocks up to `n`, from the number asked for unless that is the
marker for the earliest one. -/
def SentUpTo (F : Block → Prop) (request : SubscribeRequest) (n : ℕ)
    (sent : List SubscribeResponse) : Prop :=
  ∃ first ≤ n, (request.startBlockNumber ≠ u64Max → first = request.startBlockNumber) ∧
    SentTo F first n sent

lemma SentUpTo.mono {F F' : Block → Prop} {request : SubscribeRequest} {n : ℕ}
    {sent : List SubscribeResponse} (h : SentUpTo F request n sent)
    (hF : ∀ block, F block → F' block) : SentUpTo F' request n sent := by
  obtain ⟨first, hle, hfirst, hsent⟩ := h
  exact ⟨first, hle, hfirst, hsent.mono hF⟩

/-- The blocks that the store shows have the numbers they are read under. -/
def BlockReader.Yields (codec : Codec) (F : Block → Prop) (reader : BlockReader) : Prop :=
  ∀ {n bytes block}, reader.readBlock n = some (some bytes) → codec.decode bytes = some block →
    getBlockNumber block = some n ∧ F block

namespace Subscriber

/-- What has been sent when the task stands there. -/
def Sequence (F : Block → Prop) (request : SubscribeRequest) (sent : List SubscribeResponse) :
    SubscriberTask → Prop
  | .earliest | .latest _ => sent = []
  | .next n | .subscribe n | .waiting n _ => SentUpTo F request n sent
  | .send n block => SentUpTo F request n sent ∧ getBlockNumber block = some n ∧ F block
  | .finish _ | .crashed => ∃ n, SentUpTo F request n sent
  | .done => ∃ n body tail, SentUpTo F request n body ∧ sent = body ++ tail ∧
    ∀ response ∈ tail, ∃ code, response = .status code

structure InSequence (F : Block → Prop) (request : SubscribeRequest) (session : Subscriber) :
    Prop where
  request_eq : session.request = request
  sequence : Sequence F request session.sent session.task

variable {codec : Codec} {lookahead : ℕ} {F F' : Block → Prop} {request : SubscribeRequest}
  {reader : BlockReader} {session session' : Subscriber}

lemma inSequence_new (F : Block → Prop) (request : SubscribeRequest) :
    (new request).InSequence F request :=
  ⟨rfl, rfl⟩

lemma InSequence.mono (h : session.InSequence F request) (hF : ∀ block, F block → F' block) :
    session.InSequence F' request := by
  refine ⟨h.request_eq, ?_⟩
  have hseq := h.sequence
  generalize session.task = task at hseq ⊢
  rcases task with _ | e | n | ⟨n, block⟩ | n | ⟨n, events⟩ | result | _ | _
  · exact hseq
  · exact hseq
  · exact SentUpTo.mono hseq hF
  · exact ⟨hseq.1.mono hF, hseq.2.1, hF block hseq.2.2⟩
  · exact SentUpTo.mono hseq hF
  · exact SentUpTo.mono hseq hF
  · exact hseq.imp fun n hsent => hsent.mono hF
  · obtain ⟨n, body, tail, hsent, heq⟩ := hseq
    exact ⟨n, body, tail, hsent.mono hF, heq⟩
  · exact hseq.imp fun n hsent => hsent.mono hF

lemma InSequence.deliver (h : session.InSequence F request) (event : ℕ) :
    (session.deliver event).InSequence F request := by
  have hseq := h.sequence
  unfold Subscriber.deliver
  split
  · next n events htask =>
    rw [htask] at hseq
    exact ⟨h.request_eq, hseq⟩
  · exact h

/-- Until the session is over, what it has sent are consecutive blocks. -/
lemma InSequence.sent (h : session.InSequence F request) (hne : session.task ≠ .done) :
    ∃ n, SentUpTo F request n session.sent := by
  have hseq := h.sequence
  generalize session.task = task at hseq hne
  have hnone : session.sent = [] → ∃ n, SentUpTo F request n session.sent := fun hsent =>
    ⟨request.startBlockNumber, request.startBlockNumber, le_rfl, fun _ => rfl,
      hsent ▸ SentTo.nil F _⟩
  rcases task with _ | e | n | ⟨n, block⟩ | n | ⟨n, events⟩ | result | _ | _
  · exact hnone hseq
  · exact hnone hseq
  · exact ⟨n, hseq⟩
  · exact ⟨n, hseq.1⟩
  · exact ⟨n, hseq⟩
  · exact ⟨n, hseq⟩
  · exact hseq
  · exact absurd rfl hne
  · exact hseq

/-- **One step of a session**, whatever the step is. -/
lemma InSequence.step (h : session.InSequence F request) (hreader : reader.Yields codec F)
    {act : SubscriberAct} (hstep : session.step codec lookahead reader act = some session') :
    session'.InSequence F request := by
  have hseq := h.sequence
  cases step_cases hstep with
  | hangsUp => exact ⟨h.request_eq, hseq⟩
  | fails hopen =>
    exact ⟨h.request_eq, h.sent fun hdone => by rw [hdone] at hopen; exact hopen⟩
  | begins htask _ =>
    rw [htask] at hseq
    exact ⟨h.request_eq, hseq⟩
  | @validates e l htask =>
    have hsent := h.sent (by rw [htask]; exact SubscriberTask.noConfusion)
    rw [htask] at hseq
    rcases hvalid : validateAndCheckFulfillment lookahead session.request e l with
      _ | error | start
    · exact ⟨h.request_eq, hsent⟩
    · exact ⟨h.request_eq, hsent⟩
    · rw [h.request_eq] at hvalid
      have hfirst := validate_firstBlock hvalid
      refine ⟨h.request_eq, start, le_rfl, fun hne => hfirst.trans (if_neg hne), ?_⟩
      have hempty : session.sent = [] := hseq
      simp only [onValidated, goto, hempty]
      exact SentTo.nil F start
  | @reaches n htask =>
    rw [htask] at hseq
    exact ⟨h.request_eq, n, hseq⟩
  | misses htask =>
    rw [htask] at hseq
    exact ⟨h.request_eq, hseq⟩
  | finds htask _ hread hblock =>
    rw [htask] at hseq
    exact ⟨h.request_eq, hseq, hreader hread hblock⟩
  | @sends n block htask hconn =>
    rw [htask] at hseq
    obtain ⟨⟨first, hle, hfirst, hsent⟩, hnumber, hF⟩ := hseq
    have hnext : SentUpTo F request (n + 1) (session.sent ++ [.blockItems block.items]) :=
      ⟨first, by omega, hfirst, hsent.snoc hle hnumber hF⟩
    simp only [send, hconn, if_true, goto]
    refine ⟨h.request_eq, ?_⟩
    simp only
    split
    · exact hnext
    · exact ⟨n + 1, hnext⟩
  | subscribes htask | passes htask | wakes htask =>
    rw [htask] at hseq
    exact ⟨h.request_eq, hseq⟩
  | ends htask =>
    rw [htask] at hseq
    obtain ⟨n, hsent⟩ := hseq
    have hdone : ∀ tail : List SubscribeResponse, (∀ response ∈ tail, ∃ code,
        response = .status code) → Sequence F request (session.sent ++ tail) .done :=
      fun tail htail => ⟨n, session.sent, tail, hsent, rfl, htail⟩
    have hsame : Sequence F request session.sent .done := by
      simpa using hdone [] (by simp)
    simp only [finalize, send, goto]
    split
    · exact ⟨h.request_eq, hsame⟩
    · split
      · exact ⟨h.request_eq, hdone _ (by simp)⟩
      · exact ⟨h.request_eq, hsame⟩

/-- What has been sent at any time: consecutive blocks, then statuses. -/
lemma InSequence.all_sent (h : session.InSequence F request) :
    ∃ n body tail, SentUpTo F request n body ∧ session.sent = body ++ tail ∧
      ∀ response ∈ tail, ∃ code, response = .status code := by
  by_cases hdone : session.task = .done
  · have hseq := h.sequence
    rw [hdone] at hseq
    exact hseq
  · obtain ⟨n, hsent⟩ := h.sent hdone
    exact ⟨n, session.sent, [], hsent, by simp, by simp⟩

end Subscriber

/-! ### A session at a node -/

/-- The steps of the node are sound. Anything may happen to the session. -/
def HostedAct.Sound (cfg : Config) (codec : Codec) (hosted : Hosted) : HostedAct → Prop
  | .node act => act.Sound cfg codec hosted.node
  | .announce _ | .session _ => True

instance HostedAct.Sound.decidable (cfg : Config) (codec : Codec) (hosted : Hosted) :
    ∀ act : HostedAct, Decidable (act.Sound cfg codec hosted)
  | .node act => inferInstanceAs (Decidable (act.Sound cfg codec hosted.node))
  | .announce _ | .session _ => isTrue trivial

structure Hosted.InSequence (cfg : Config) (codec : Codec) (request : SubscribeRequest)
    (hosted : Hosted) : Prop where
  serving : Serving cfg codec hosted.node
  session : hosted.session.InSequence hosted.node.store.Wrote request

variable {cfg cfg' : Config} {codec : Codec} {lookahead : ℕ} {F : Block → Prop}
  {request : SubscribeRequest}

lemma Serving.yields {node : Node} (h : Serving cfg codec node) (hsize : 1 ≤ cfg.archiveBatchSize) :
    (node.blockReader codec).Yields codec node.store.Wrote := by
  intro n bytes block hread hblock
  have hlast : some ((node.store.last n).map codec.encode) = some (some bytes) :=
    (h.readBlock hsize n).symm.trans hread
  obtain ⟨kept, hkept, rfl⟩ := Option.map_eq_some_iff.mp (Option.some.inj hlast)
  rw [codec.decode_encode] at hblock
  cases hblock
  have hnumber := h.durable.faithful.number hkept
  exact ⟨hnumber, Store.Keeps.wrote ⟨n, hnumber, hkept⟩⟩

lemma Hosted.InSequence.step {hosted hosted' : Hosted} (h : hosted.InSequence cfg codec request)
    (hsize : 1 ≤ cfg.archiveBatchSize) {act : HostedAct} (hact : act.Sound cfg codec hosted)
    (hstep : hosted.step cfg codec lookahead act = some hosted') :
    hosted'.InSequence cfg codec request := by
  rcases act with act | event | act
  · obtain ⟨node', hnode, rfl⟩ := hosted.step_node hstep
    exact ⟨h.serving.step hsize hact hnode,
      h.session.mono fun block => h.serving.step_wrote hnode⟩
  · cases hstep
    exact ⟨h.serving, h.session.deliver event⟩
  · obtain ⟨session', hsession, rfl⟩ := Option.map_eq_some_iff.mp hstep
    exact ⟨h.serving, h.session.step (h.serving.yields hsize) hsession⟩

/-- **A session at a node, over any run of the two.** -/
lemma Hosted.InSequence.run {hosted hosted' : Hosted} (h : hosted.InSequence cfg codec request)
    (hsize : 1 ≤ cfg.archiveBatchSize) {acts : List HostedAct}
    (hsound : Along (Hosted.step cfg codec lookahead)
      (fun hosted act => act.Sound cfg codec hosted) hosted acts)
    (hrun : RockNode.run (Hosted.step cfg codec lookahead) hosted acts = some hosted') :
    hosted'.InSequence cfg codec request :=
  run_inv (fun h hact hstep => h.step hsize hact hstep) h hsound hrun

/-! ### A stream from a node -/

/-- The messages of a stream from a node: a first part of what its session has sent, and perhaps an
error. All blocks of the node are as `F` says. -/
inductive Relayed (codec : Codec) (F : Block → Prop) (request : SubscribeRequest) :
    List PeerMessage → Prop where
  | intro {cfg lookahead peer acts hosted arrived tail} (hsize : 1 ≤ cfg.archiveBatchSize)
    (hpeer : RunsTo cfg codec (Node.init cfg) peer)
    (hsound : Along (Hosted.step cfg codec lookahead)
      (fun hosted act => act.Sound cfg codec hosted) ⟨peer, .new request⟩ acts)
    (hrun : run (Hosted.step cfg codec lookahead) ⟨peer, .new request⟩ acts = some hosted)
    (hall : ∀ block, hosted.node.store.Wrote block → F block)
    (harrived : arrived <+: hosted.session.messages) (htail : tail = [] ∨ tail = [.error]) :
    Relayed codec F request (arrived ++ tail)

lemma Subscriber.InSequence.arrived {session : Subscriber} (h : session.InSequence F request)
    {arrived : List PeerMessage} (harrived : arrived <+: session.messages) :
    (request.startBlockNumber ≠ u64Max → BlocksFrom request.startBlockNumber arrived) ∧
      ∀ block ∈ arrived.filterMap PeerMessage.block?, F block := by
  obtain ⟨n, body, tail, ⟨first, -, hfirst, blocks, rfl, hnumbers, hall⟩, hsent, htail⟩ :=
    h.all_sent
  have hstatus : tail.filterMap (fun response =>
      PeerMessage.block? (.message (some response))) = [] := by
    refine List.filterMap_eq_nil_iff.mpr fun response hmem => ?_
    obtain ⟨code, rfl⟩ := htail response hmem
    rfl
  have hblocks : session.messages.filterMap PeerMessage.block? = blocks := by
    simp only [messages, hsent, List.filterMap_map, List.filterMap_append, Function.comp_def,
      hstatus, List.append_nil]
    simp [PeerMessage.block?]
  have hpart : arrived.filterMap PeerMessage.block? <+: blocks :=
    hblocks ▸ harrived.filterMap PeerMessage.block?
  refine ⟨fun hstart => ?_, fun block hmem => hall block (hpart.subset hmem)⟩
  obtain ⟨rest, hrest⟩ := hpart.map getBlockNumber
  rw [hnumbers, hfirst hstart] at hrest
  obtain ⟨numbers, others, hrange, hmap, -⟩ := List.map_eq_append_iff.mp hrest.symm
  obtain ⟨k, -, rfl, -⟩ := List.range'_eq_append_iff.mp hrange
  exact ⟨k, hmap.symm⟩

lemma Relayed.spec {messages : List PeerMessage} (h : Relayed codec F request messages) :
    (request.startBlockNumber ≠ u64Max → BlocksFrom request.startBlockNumber messages) ∧
      ∀ block ∈ messages.filterMap PeerMessage.block?, F block := by
  obtain @⟨cfg, lookahead, peer, acts, hosted, arrived, tail, hsize, hpeer, hsound, hrun, hall,
    harrived, htail⟩ := h
  have hstart : Hosted.InSequence cfg codec request ⟨peer, .new request⟩ :=
    ⟨(init_serving cfg codec).runsTo hsize hpeer, Subscriber.inSequence_new _ request⟩
  obtain ⟨hfrom, hblocks⟩ := ((hstart.run hsize hsound hrun).session.mono hall).arrived harrived
  have hsame : (arrived ++ tail).filterMap PeerMessage.block? =
      arrived.filterMap PeerMessage.block? := by
    rcases htail with rfl | rfl <;> simp [PeerMessage.block?]
  unfold BlocksFrom at hfrom ⊢
  rw [hsame]
  exact ⟨hfrom, hblocks⟩

/-! ### The follower -/

/-- The later store comes from the earlier one by writes of such blocks. Nothing is missing up to
its latest block, and no gap has been recorded in the meantime. -/
structure KeepsUp (cfg : Config) (codec : Codec) (F : Block → Prop) (s s' : Store) : Prop where
  good : s'.Good cfg
  caughtUp : s'.CaughtUp cfg
  latest : latestOrSeed cfg s.db ≤ latestOrSeed cfg s'.db
  gaps : ∀ n, Covers s'.db.gaps n → Covers s.db.gaps n
  writes : WritesOf cfg codec F s s'

section KeepsUp

variable {s s' s'' : Store} {known : Option ℕ}

lemma KeepsUp.refl (hg : s.Good cfg) (h : s.CaughtUp cfg) : KeepsUp cfg codec F s s :=
  ⟨hg, h, le_rfl, fun _ => id, [], rfl, by simp⟩

lemma KeepsUp.trans (h : KeepsUp cfg codec F s s') (h' : KeepsUp cfg codec F s' s'') :
    KeepsUp cfg codec F s s'' :=
  ⟨h'.good, h'.caughtUp, h.latest.trans h'.latest, fun n hn => h.gaps n (h'.gaps n hn),
    h.writes.trans h'.writes⟩

/-- **One block**, the next one or one that is there. -/
lemma keepsUp_write (hg : s.Good cfg) (h : s.CaughtUp cfg) {block : Block} {n : ℕ}
    (hn : getBlockNumber block = some n) (hle : n ≤ latestOrSeed cfg s.db + 1) (hF : F block) :
    KeepsUp cfg codec F s (s.write cfg codec block) := by
  have hnext : ∀ m, getBlockNumber block = some m → m ≤ latestOrSeed cfg s.db + 1 := fun m hm => by
    cases hn.symm.trans hm
    exact hle
  have hwrites : WritesOf cfg codec F s (s.write cfg codec block) :=
    ⟨[block], rfl, by simpa using hF⟩
  suffices hmarks : (s.marks cfg).latest ≤ ((s.write cfg codec block).marks cfg).latest ∧
      ((s.write cfg codec block).marks cfg).gaps ⊆ (s.marks cfg).gaps from
    ⟨Store.write_good hg codec block, h.write hg hnext, hmarks.1, hmarks.2, hwrites⟩
  rcases Store.write_marks hg codec block with hsame | ⟨m, hm, hw⟩
  · rw [hsame]
    exact ⟨le_rfl, subset_rfl⟩
  · have hm' : m ≤ (s.marks cfg).latest + 1 := hnext m hm
    have hup : (s.marks cfg).highest = (s.marks cfg).latest := h
    rcases Marks.write_cases hw with ⟨hjump, -⟩ | ⟨-, -, heq⟩ | ⟨-, heq⟩
    · omega
    · rw [heq]
      exact ⟨le_max_left _ _, subset_rfl⟩
    · rw [heq]
      exact ⟨le_rfl, Set.sdiff_subset⟩

/-- A block that has been accepted is not beyond the latest one. -/
lemma le_latest_of_ok (codec : Codec) (hg : s.Good cfg) {block : Block} {n : ℕ}
    (hn : getBlockNumber block = some n)
    (hok : (writeBlock cfg codec block s.db).2 ≠ .err) :
    n ≤ latestOrSeed cfg (s.write cfg codec block).db := by
  obtain ⟨m, hm, hlog⟩ := write_log_of_ok hok
  cases hn.symm.trans hm
  have hcommitted : (s.write cfg codec block).Committed n := ⟨block, by rw [hlog]; simp⟩
  exact (Store.write_good hg codec block).ok.bound hcommitted

/-- A stream of consecutive blocks that begins no later than the next one. Above the last number but
one there is nothing to skip. -/
lemma receiveBlocks_keepsUp (start : ℕ) {messages : List PeerMessage} (hg : s.Good cfg)
    (h : s.CaughtUp cfg)
    (hrange : BlocksFrom start messages ∧ start ≤ latestOrSeed cfg s.db + 1 ∨
      u64Max ≤ latestOrSeed cfg s.db + 1)
    (hF : ∀ block ∈ messages.filterMap PeerMessage.block?, F block) :
    KeepsUp cfg codec F s (receiveBlocks cfg codec s messages).1 := by
  induction messages generalizing s start with
  | nil => exact .refl hg h
  | cons m messages ih =>
    rcases m with (_ | items | code) | _
    · exact ih start hg h hrange hF
    · have hblock : F ⟨items⟩ := hF _ List.mem_cons_self
      have hblocks : ∀ block ∈ messages.filterMap PeerMessage.block?, F block := fun block hmem =>
        hF block (List.mem_cons_of_mem _ hmem)
      simp only [receiveBlocks]
      rcases hn : getBlockNumber ⟨items⟩ with _ | n
      · -- a block without a number is refused
        have hsame : s.write cfg codec ⟨items⟩ = s := by simp only [Store.write, hn]
        simp only [writeBlock, hn, hsame]
        exact .refl hg h
      · obtain ⟨hle, hrest⟩ : n ≤ latestOrSeed cfg s.db + 1 ∧
            (BlocksFrom (n + 1) messages ∨ u64Max ≤ latestOrSeed cfg s.db + 1) := by
          rcases hrange with ⟨⟨k, hk⟩, hle⟩ | hmax
          · rcases k with _ | k
            · cases hk
            · obtain ⟨hfirst, hrest⟩ : getBlockNumber ⟨items⟩ = some start ∧
                  CarriesRange (start + 1) k messages := by
                simpa [CarriesRange, PeerMessage.block?, List.range'_succ] using hk
              cases hn.symm.trans hfirst
              exact ⟨hle, Or.inl ⟨k, hrest⟩⟩
          · exact ⟨(getBlockNumber_le hn).trans hmax, Or.inr hmax⟩
        have hone : KeepsUp cfg codec F s (s.write cfg codec ⟨items⟩) :=
          keepsUp_write hg h hn hle hblock
        rcases hresult : (writeBlock cfg codec ⟨items⟩ s.db).2 with notified | _
        · have hlatest := le_latest_of_ok codec hg hn (by rw [hresult]; simp)
          exact hone.trans (ih (n + 1) hone.good hone.caughtUp (hrest.imp
            (fun hfrom => ⟨hfrom, Nat.succ_le_succ hlatest⟩)
            (fun hmax => hmax.trans (Nat.succ_le_succ hone.latest))) hblocks)
        · exact hone
    · exact ih start hg h hrange hF
    · exact .refl hg h

/-- What is streamed in the turn comes from a node. -/
def PeerTurn.Relays (codec : Codec) (F : Block → Prop) : PeerTurn → Prop
  | .status _ (.answers peer) => ∀ start messages, peer start u64Max = some messages →
    ∃ request : SubscribeRequest, request.startBlockNumber = start ∧
      request.endBlockNumber = u64Max ∧ Relayed codec F request messages
  | _ => True

/-- **One turn.** The number that the worker goes by may be out of date, but it is not beyond the
latest block. -/
lemma takeTurn_keepsUp {turn : PeerTurn} (hturn : turn.Relays codec F) (hg : s.Good cfg)
    (h : s.CaughtUp cfg) (hknown : ∀ l ∈ known, l ≤ latestOrSeed cfg s.db) :
    KeepsUp cfg codec F s (takeTurn cfg codec known s turn).1 := by
  rcases takeTurn_cases cfg codec known s turn with ⟨hs, -⟩ | ⟨last, peer, rfl, -, hs, -⟩
  · rw [hs]
    exact .refl hg h
  · have hmax : latestOrSeed cfg s.db < u64Max := h ▸ hg.ok.highest_lt
    have hstart : toU64 (localLatestBlock known + 1) ≤ latestOrSeed cfg s.db + 1 := by
      rcases known with _ | l
      · rw [toU64_none]
        exact Nat.zero_le _
      · have hl := hknown l rfl
        rw [toU64_some (by omega), if_neg (by omega)]
        omega
    rw [hs]
    unfold streamFromPeer
    split
    · exact .refl hg h
    · next messages hmessages =>
      obtain ⟨request, hrequest, -, hrelayed⟩ := hturn _ _ hmessages
      obtain ⟨hfrom, hblocks⟩ := hrelayed.spec
      rw [hrequest] at hfrom
      refine receiveBlocks_keepsUp (toU64 (localLatestBlock known + 1)) hg h ?_ hblocks
      by_cases hlast : toU64 (localLatestBlock known + 1) = u64Max
      · exact Or.inr (hlast ▸ hstart)
      · exact Or.inl ⟨hfrom hlast, hstart⟩

lemma composes_keepsUp (cfg : Config) (codec : Codec) (F : Block → Prop) (known : Option ℕ) :
    Composes fun s _ s' => s.Good cfg → s.CaughtUp cfg →
      (∀ l ∈ known, l ≤ latestOrSeed cfg s.db) → KeepsUp cfg codec F s s' where
  nil _ hg h _ := .refl hg h
  append := by
    intro s _ s' _ s'' hfirst hrest hg h hknown
    have hmiddle := hfirst hg h hknown
    exact hmiddle.trans (hrest hmiddle.good hmiddle.caughtUp fun l hl =>
      (hknown l hl).trans hmiddle.latest)

lemma loop_keepsUp {cycles : List (List PeerVisit)}
    (hturns : ∀ visits ∈ cycles, ∀ visit ∈ visits, ∀ turn ∈ visit.turns, turn.Relays codec F)
    (hg : s.Good cfg) (h : s.CaughtUp cfg) :
    KeepsUp cfg codec F s (runContinuousLoop cfg codec cycles s).store := by
  refine (composes_keepsUp cfg codec F none).loop
    (fun s visits hvisits visit hvisit hg h _ => ?_) s hg h (by simp)
  refine (composes_keepsUp cfg codec F (visit.known s)).visitPeer
    (fun s turn hturn => takeTurn_keepsUp (hturns visits hvisits visit hvisit turn hturn))
    0 s hg h fun l hl => ?_
  unfold PeerVisit.known at hl
  split at hl
  · cases hl
  · have hmeta : s.db.metadata .latestPersisted = some l := hl
    simp [latestOrSeed, hmeta]

end KeepsUp

/-- All blocks from 3 on. -/
def followRequest : SubscribeRequest := ⟨3, u64Max, by decide, le_rfl⟩

/-- The stream breaks when blocks 3 and 4 have been sent. -/
def followTurn : PeerTurn :=
  .status 4 (.answers fun start _ =>
    if start = 3 then
      (run (Hosted.step firstConfig plainCodec 10) ⟨fullNode, .new followRequest⟩
        (List.replicate 8 (.session .go))).map fun hosted => hosted.session.messages ++ [.error]
    else none)

lemma followTurn_relays :
    followTurn.Relays plainCodec fun block => getBlockNumber block ≠ none := by
  intro start messages hmessages
  beta_reduce at hmessages
  split at hmessages
  · next hstart =>
    obtain ⟨hosted, hrun, rfl⟩ := Option.map_eq_some_iff.mp hmessages
    refine ⟨followRequest, hstart.symm, rfl, .intro (by decide) runsTo_fullNode
      (by decide +kernel) hrun (fun block hblock => ?_) List.prefix_rfl (Or.inr rfl)⟩
    obtain ⟨n, hn, -⟩ := hblock
    rw [hn]
    exact Option.some_ne_none n
  · cases hmessages

end RockNode
