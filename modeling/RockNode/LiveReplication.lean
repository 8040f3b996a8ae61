import RockNode.Following

/-!
How far one stream brings continuous backfill.

A session without an end sends what there is and then waits. When nothing comes it gives up, with a
status that the worker passes over: for the worker the stream has come to its end.
-/

namespace RockNode

/-! ### A session without an end -/

/-- The store has `k` blocks from `start` on, and then none. -/
structure BlockReader.EndsAfter (codec : Codec) (lookahead : ℕ) (F : Block → Prop) (start k : ℕ)
    (reader : BlockReader) : Prop where
  earliest : ∃ e, reader.earliest = some (some e) ∧ e ≤ start
  latest : ∃ latest, reader.latest = some latest ∧
    ∀ l, latest = some l → start ≤ l ∧ l + lookahead ≤ u64Max
  reads : ∀ n, start ≤ n → n < start + k → ∃ block,
    reader.readBlock n = some (some (codec.encode block)) ∧ getBlockNumber block = some n ∧ F block
  ends : reader.readBlock (start + k) = some none
  room : start + k < u64Max

namespace Subscriber

/-- The session is about to read block `n`, and it has sent the blocks before. -/
structure Streaming (F : Block → Prop) (first n : ℕ) (session : Subscriber) : Prop where
  endless : ¬ session.request.IsFinite
  connected : session.connected = true
  task : session.task = .next n
  first_le : first ≤ n
  sent : SentTo F first n session.sent

variable {codec : Codec} {lookahead first n k : ℕ} {F : Block → Prop} {request : SubscribeRequest}
  {reader : BlockReader} {session : Subscriber}

/-- The request is accepted. -/
lemma streaming_new (hendless : ¬ request.IsFinite)
    (hreader : reader.EndsAfter codec lookahead F request.startBlockNumber k) :
    ∃ session, run (step codec lookahead reader) (new request) [.go, .go] = some session ∧
      Streaming F request.startBlockNumber request.startBlockNumber session := by
  obtain ⟨e, hearliest, he⟩ := hreader.earliest
  obtain ⟨latest, hlatest, hroom⟩ := hreader.latest
  have hstart : request.startBlockNumber ≠ u64Max := by
    have := hreader.room
    omega
  have hvalid := validate_accepts hstart (fun hfinite => absurd hfinite hendless) he hroom
  refine ⟨((new request).goto (.latest (some e))).onValidated (some (.ok request.startBlockNumber)),
    ?_, hendless, rfl, rfl, le_rfl, SentTo.nil F _⟩
  simp only [run, step, new, goto, hearliest, hlatest, hvalid]

/-- **One block**: it is read, and it is sent. -/
lemma Streaming.block (h : session.Streaming F first n) {block : Block}
    (hread : reader.readBlock n = some (some (codec.encode block)))
    (hnumber : getBlockNumber block = some n) (hF : F block) (hmax : n + 1 ≤ u64Max) :
    ∃ session', run (step codec lookahead reader) session [.go, .go] = some session' ∧
      session'.Streaming F first (n + 1) := by
  have hgoes : ¬ (session.request.IsFinite ∧ session.request.endBlockNumber < n) :=
    fun hend => h.endless hend.1
  have hreads : session.step codec lookahead reader .go = some (session.goto (.send n block)) := by
    simp only [step, h.task, if_neg hgoes, onRead, hread, codec.decode_encode]
  have hsends : (session.goto (.send n block)).step codec lookahead reader .go =
      some ((session.send (.blockItems block.items)).goto (.next (n + 1))) := by
    simp only [step, goto, onSend, h.connected, if_true, if_pos hmax, send]
  refine ⟨_, (run_cons hreads _).trans (run_cons hsends _), ?_⟩
  · have hle := h.first_le
    simp only [send, h.connected, if_true, goto]
    exact ⟨h.endless, rfl, rfl, hle.trans (Nat.le_succ n), h.sent.snoc hle hnumber hF⟩

lemma Streaming.blocks (h : session.Streaming F first n)
    (hreads : ∀ m, n ≤ m → m < n + k → ∃ block,
      reader.readBlock m = some (some (codec.encode block)) ∧ getBlockNumber block = some m ∧
        F block) (hmax : n + k ≤ u64Max) :
    ∃ session', run (step codec lookahead reader) session (List.replicate (2 * k) .go) =
      some session' ∧ session'.Streaming F first (n + k) := by
  induction k generalizing n session with
  | zero => exact ⟨session, rfl, h⟩
  | succ k ih =>
    obtain ⟨block, hread, hnumber, hF⟩ := hreads n le_rfl (by omega)
    obtain ⟨next, hrun, hnext⟩ := h.block hread hnumber hF (by omega)
    obtain ⟨session', hrest, hend⟩ := ih hnext
      (fun m hle hlt => hreads m (by omega) (by omega)) (by omega)
    refine ⟨session', ?_, by rwa [Nat.add_assoc, Nat.add_comm 1] at hend⟩
    exact (run_append hrun _).trans hrest

/-- There is no next block, and none comes. -/
lemma Streaming.runs_out (h : session.Streaming F first n)
    (hread : reader.readBlock n = some none) :
    ∃ session', run (step codec lookahead reader) session [.go, .go, .timeout, .go] =
      some session' ∧ session'.sent = session.sent ++ [.status .error] := by
  have hgoes : ¬ (session.request.IsFinite ∧ session.request.endBlockNumber < n) :=
    fun hend => h.endless hend.1
  have hmisses : session.step codec lookahead reader .go = some (session.goto (.subscribe n)) := by
    simp only [step, h.task, if_neg hgoes, onRead, hread]
  have hwaits : (session.goto (.subscribe n)).step codec lookahead reader .go =
      some (session.goto (.waiting n [])) := rfl
  have hfails : (session.goto (.waiting n [])).step codec lookahead reader .timeout =
      some (session.fail (.timeoutWaitingForBlock n)) := rfl
  have hends : (session.fail (.timeoutWaitingForBlock n)).step codec lookahead reader .go =
      some ((session.fail (.timeoutWaitingForBlock n)).finalize
        (some (.timeoutWaitingForBlock n))) := rfl
  refine ⟨_, (run_cons hmisses _).trans ((run_cons hwaits _).trans ((run_cons hfails _).trans
    (run_cons hends _))), ?_⟩
  simp only [finalize, finalCode, SubscriberError.toStatusCode, reduceCtorEq, if_false, send, fail,
    goto, h.connected, if_true]

/-- What happens to a session that sends `k` blocks and then waits in vain. -/
def liveActs (k : ℕ) : List SubscriberAct :=
  .go :: .go :: (List.replicate (2 * k) .go).append [.go, .go, .timeout, .go]

/-- **The whole session**: the blocks that are there, and the status. -/
lemma live_session (request : SubscribeRequest) (hendless : ¬ request.IsFinite)
    (hreader : reader.EndsAfter codec lookahead F request.startBlockNumber k) :
    ∃ session body, run (step codec lookahead reader) (new request) (liveActs k) = some session ∧
      session.sent = body ++ [.status .error] ∧
      SentTo F request.startBlockNumber (request.startBlockNumber + k) body := by
  obtain ⟨session₁, hrun₁, hnew⟩ := streaming_new hendless hreader
  obtain ⟨session₂, hrun₂, hblocks⟩ := hnew.blocks hreader.reads (Nat.le_of_lt hreader.room)
  obtain ⟨session₃, hrun₃, hsent⟩ := hblocks.runs_out hreader.ends
  refine ⟨session₃, session₂.sent, ?_, hsent, hblocks.sent⟩
  exact (run_append hrun₁ _).trans ((run_append hrun₂ _).trans hrun₃)

end Subscriber

/-! ### One stream -/

/-- A session of the node with nothing else going on, which ends when it has waited in vain after
`k` blocks. -/
def Node.asLivePeer (codec : Codec) (lookahead : ℕ) (node : Node) (k start last : ℕ) :
    Option (List PeerMessage) :=
  if hstart : start ≤ u64Max then
    if hlast : last ≤ u64Max then
      (run (Subscriber.step codec lookahead (node.blockReader codec))
        (.new ⟨start, last, hstart, hlast⟩) (Subscriber.liveActs k)).map Subscriber.messages
    else none
  else none

/-- The worker meets the node, which has `k` blocks for it. -/
def Node.liveTurn (codec : Codec) (lookahead : ℕ) (node : Node) (k : ℕ) : PeerTurn :=
  match serverStatus (node.blockReader codec) (node.blockReader codec) with
  | .ok response => .status (UInt64.ofNat response.lastAvailableBlock)
      (.answers (node.asLivePeer codec lookahead k))
  | .error _ => .noStatus

/-- The latest block of the node is `l`, that of the peer is `m`, and the peer has all between. The
numbers are small enough for the casts of the worker. -/
structure LagsBehind (lookahead : ℕ) (node peer : Node) (l m : ℕ) : Prop where
  latest : getLatestPersistedBlockNumber node.store.db = some l
  peerLatest : getLatestPersistedBlockNumber peer.store.db = some m
  lt : l < m
  small : m < 2 ^ 63
  room : m + lookahead ≤ u64Max
  earliest : ∃ e, getEarliestPersistedBlockNumber peer.store.db = some e ∧ e ≤ l + 1
  committed : ∀ n, l < n → n ≤ m → peer.store.Committed n

variable {cfg cfg' : Config} {codec : Codec} {lookahead l m : ℕ} {node peer : Node}

/-- The block is one that the peer keeps, above `l`. -/
def Store.KeepsAbove (s : Store) (l : ℕ) (block : Block) : Prop :=
  ∃ n, l < n ∧ getBlockNumber block = some n ∧ s.last n = some block

/-- What the peer shows to a session that begins after `l`. -/
lemma LagsBehind.endsAfter (h : LagsBehind lookahead node peer l m)
    (hpeer : Serving cfg' codec peer) (hsize : 1 ≤ cfg'.archiveBatchSize) :
    (peer.blockReader codec).EndsAfter codec lookahead (peer.store.KeepsAbove l) (l + 1)
      (m - l) := by
  have hlt := h.lt
  have hsmall := h.small
  have hend : l + 1 + (m - l) = m + 1 := by omega
  obtain ⟨e, he, hle⟩ := h.earliest
  refine ⟨⟨e, congrArg some he, hle⟩, ⟨_, rfl, fun k hk => ?_⟩, fun n hn hn' => ?_, ?_, ?_⟩
  · cases h.peerLatest.symm.trans hk
    exact ⟨hlt, h.room⟩
  · obtain ⟨block, hblock, -⟩ := (h.committed n hn (by omega)).last
    have hnumber := hpeer.durable.faithful.number hblock
    refine ⟨block, ?_, hnumber, n, hn, hnumber, hblock⟩
    have hread := hpeer.readBlock hsize n
    rw [hblock] at hread
    exact hread
  · -- the peer has nothing after its latest block
    have hnone : peer.store.last (m + 1) = none := by
      by_contra hne
      have := (hpeer.latest_spec h.peerLatest).2 _ (Store.last_ne_none.mp hne)
      omega
    have hread := hpeer.readBlock hsize (m + 1)
    rw [hnone] at hread
    rw [hend]
    exact hread
  · unfold u64Max
    omega

/-- What the worker receives from the peer. -/
lemma LagsBehind.asLivePeer (h : LagsBehind lookahead node peer l m)
    (hpeer : Serving cfg' codec peer) (hsize : 1 ≤ cfg'.archiveBatchSize) :
    ∃ messages, peer.asLivePeer codec lookahead (m - l) (l + 1) u64Max = some messages ∧
      .error ∉ messages ∧ CarriesRange (l + 1) (m - l) messages ∧
      ∀ block ∈ messages.filterMap PeerMessage.block?, peer.store.KeepsAbove l block := by
  have hreader := h.endsAfter hpeer hsize
  have hmax : l + 1 ≤ u64Max := by
    have := hreader.room
    omega
  obtain ⟨session, body, hrun, hsent, blocks, rfl, hnumbers, hkeeps⟩ :=
    Subscriber.live_session ⟨l + 1, u64Max, hmax, le_rfl⟩ (fun hfinite => hfinite rfl) hreader
  have hblocks : session.messages.filterMap PeerMessage.block? = blocks := by
    simp [Subscriber.messages, hsent, PeerMessage.block?, List.filterMap_map, Function.comp_def]
  refine ⟨session.messages, ?_, by simp [Subscriber.messages], ?_, by rwa [hblocks]⟩
  · unfold Node.asLivePeer
    rw [dif_pos hmax, dif_pos le_rfl]
    exact congrArg (Option.map Subscriber.messages) hrun
  · unfold CarriesRange
    rw [hblocks, hnumbers, Nat.add_sub_cancel_left]

/-! ### The worker -/

/-- The number that comes next is the one after the latest, and nothing is missing. -/
def Marks.Next (seed p : ℕ) (w : Marks) : Prop :=
  w.Ok seed ∧ w.highest = w.latest ∧ w.latest + 1 = p

lemma march_next (seed : ℕ) : March {n | n < u64Max} (Marks.Next seed) := by
  rintro n w hn ⟨hok, hup, rfl⟩
  have hn' : w.latest + 1 < u64Max := hn
  have hreach : w.reach (w.latest + 1) = w.latest + 1 := by
    unfold Marks.reach
    rw [if_neg (by omega)]
  rcases hw : w.write (w.latest + 1) with _ | w'
  · obtain ⟨-, hmax⟩ := Marks.write_eq_none.mp hw
    omega
  · refine ⟨w', rfl, Marks.write_ok hok hn'.le hw, ?_⟩
    rcases Marks.write_cases hw with ⟨hjump, -⟩ | ⟨-, -, rfl⟩ | ⟨hbelow, -⟩
    · omega
    · simp only [hreach]
      omega
    · omega

/-- The worker's turn at the peer. -/
lemma LagsBehind.takeTurn (h : LagsBehind lookahead node peer l m) (cfg : Config) (codec : Codec) :
    let streamed := streamFromPeer cfg codec (peer.asLivePeer codec lookahead (m - l)) (l + 1)
      u64Max node.store
    (RockNode.takeTurn cfg codec (some l) node.store
      (peer.liveTurn codec lookahead (m - l))).1 = streamed.1 ∧
    (RockNode.takeTurn cfg codec (some l) node.store
      (peer.liveTurn codec lookahead (m - l))).2.2 = if streamed.2 then .ended else .failed := by
  have hlt := h.lt
  have hsmall := h.small
  obtain ⟨e, he, -⟩ := h.earliest
  have hturn : peer.liveTurn codec lookahead (m - l) =
      .status (UInt64.ofNat m) (.answers (peer.asLivePeer codec lookahead (m - l))) := by
    simp only [Node.liveTurn, serverStatus, Node.blockReader, he, h.peerLatest, Option.getD_some]
  have hm : toI64 (UInt64.ofNat m).toNat = m := by
    rw [UInt64.toNat_ofNat_of_lt' (hsmall.trans (by decide))]
    exact if_pos hsmall
  have hl : localLatestBlock (some l) = l := if_pos (by omega)
  have hstart : toU64 ((l : ℤ) + 1) = l + 1 := by
    unfold toU64
    omega
  rw [hturn]
  simp only [RockNode.takeTurn, hm, hl]
  rw [if_neg (by omega), if_neg (by omega), if_neg (by omega), hstart]
  exact ⟨rfl, rfl⟩

/-- A stream that ends gracefully ends the cycle. -/
lemma runContinuousStreamCycle_ended {s : Store} {visit : PeerVisit} {turn : PeerTurn}
    {turns : List PeerTurn} (hturns : visit.turns = turn :: turns)
    (hend : (RockNode.takeTurn cfg codec (visit.known s) s turn).2.2 = .ended)
    (visits : List PeerVisit) :
    (runContinuousStreamCycle cfg codec (visit :: visits) s).store =
      (RockNode.takeTurn cfg codec (visit.known s) s turn).1 := by
  simp only [runContinuousStreamCycle, hturns, visitPeer, hend]

lemma Store.writes_last {s : Store} {blocks : List Block} {n : ℕ}
    (h : ∀ block ∈ blocks, getBlockNumber block ≠ some n) :
    (s.writes cfg codec blocks).last n = s.last n := by
  induction blocks generalizing s with
  | nil => rfl
  | cons block blocks ih =>
    exact (ih fun other hmem => h other (List.mem_cons_of_mem _ hmem)).trans
      (write_last (h block List.mem_cons_self) s)

/-- Blocks 3 and 4 come from the other node. -/
lemma pairNode_lagsBehind : LagsBehind 10 pairNode fullNode 2 4 := by
  refine ⟨by decide +kernel, by decide +kernel, by decide, by decide, by decide,
    ⟨1, by decide +kernel, by decide⟩, fun n hn hle => ?_⟩
  rcases (show n = 3 ∨ n = 4 by omega) with rfl | rfl
  · exact ⟨plainBlock 3, by decide +kernel⟩
  · exact ⟨plainBlock 4, by decide +kernel⟩

end RockNode
