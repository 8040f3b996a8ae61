import RockNode.GapConvergence
import RockNode.RangeSessions

/-!
One node fills its gaps from another.

The peer answers the worker's two calls from its own store, `server_status` with the numbers on
record and the subscription with a session of its own. Then the worker writes what it receives.
-/

namespace RockNode

open RangeTable

/-! ### A node as a peer -/

/-- A session of the node, which runs to its end with nothing else going on. -/
def Node.asPeer (codec : Codec) (lookahead : ℕ) (node : Node) (start last : ℕ) :
    Option (List PeerMessage) :=
  if h : start ≤ u64Max ∧ last ≤ u64Max then
    (run (Subscriber.step codec lookahead (node.blockReader codec)) (.new ⟨start, last, h.1, h.2⟩)
      (List.replicate (2 * (last + 1 - start) + 4) .go)).map Subscriber.messages
  else none

/-- The worker meets the node. -/
def Node.gapTurn (codec : Codec) (lookahead : ℕ) (node : Node) : GapTurn :=
  match serverStatus (node.blockReader codec) (node.blockReader codec) with
  | .ok response => .status response (.answers (node.asPeer codec lookahead))
  | .error _ => .noStatus

/-- A check with the node as the only peer. -/
def Node.gapCheck (codec : Codec) (lookahead : ℕ) (node : Node) : GapCheck :=
  ⟨false, fun _ => [List.replicate (peerRetryLimit + 1) (node.gapTurn codec lookahead)]⟩

variable {cfg cfg' : Config} {codec : Codec} {lookahead : ℕ} {node peer : Node}

lemma Subscriber.OnCourse.runs {F : Block → Prop} {request : SubscribeRequest} {k : ℕ}
    {reader : BlockReader} {session : Subscriber} (h : session.OnCourse F request k)
    (hfinite : request.IsFinite) (hordered : request.startBlockNumber ≤ request.endBlockNumber)
    (hoffers : reader.Offers codec lookahead F request) :
    ∃ session', run (Subscriber.step codec lookahead reader) session (List.replicate k .go) =
      some session' ∧ session'.OnCourse F request 0 := by
  induction k generalizing session with
  | zero => exact ⟨session, rfl, h⟩
  | succ k ih =>
    obtain ⟨next, hstep, hnext⟩ := h.go hfinite hordered hoffers
    obtain ⟨session', hrun, hend⟩ := ih hnext
    exact ⟨session', (run_cons hstep _).trans hrun, hend⟩

/-- What the worker receives for a range that the node has. -/
lemma Node.Has.asPeer {request : SubscribeRequest} (hhas : peer.Has request)
    (h : Serving cfg codec peer) (hsize : 1 ≤ cfg.archiveBatchSize)
    (hroom : ∀ l ∈ getLatestPersistedBlockNumber peer.store.db, l + lookahead ≤ u64Max) :
    ∃ messages, peer.asPeer codec lookahead request.startBlockNumber request.endBlockNumber =
        some messages ∧ .error ∉ messages ∧
      Delivers request.startBlockNumber request.endBlockNumber messages ∧
      ∀ block ∈ messages.filterMap PeerMessage.block?, peer.store.Keeps block := by
  obtain ⟨session, hrun, hend⟩ := (Subscriber.onCourse_new peer.store.Keeps request).runs
    hhas.finite hhas.ordered (hhas.offers h hsize hroom)
  obtain ⟨-, body, hsent, blocks, rfl, hnumbers, hkeeps⟩ := hend.done
  have hblocks : session.messages.filterMap PeerMessage.block? = blocks := by
    simp [Subscriber.messages, hsent, PeerMessage.block?, List.filterMap_map, Function.comp_def]
  refine ⟨session.messages, ?_, by simp [Subscriber.messages], ?_, by rwa [hblocks]⟩
  · unfold Node.asPeer
    rw [dif_pos ⟨request.start_le, request.end_le⟩]
    exact congrArg (Option.map Subscriber.messages) hrun
  · have hle := hhas.ordered
    refine ⟨request.endBlockNumber + 1 - request.startBlockNumber, ?_, by omega, fun _ => by omega⟩
    unfold CarriesRange
    rw [hblocks, hnumbers]

/-! ### What a check writes -/

/-- The later store comes from the earlier one by writes of such blocks. -/
def WritesOf (cfg : Config) (codec : Codec) (F : Block → Prop) (s s' : Store) : Prop :=
  ∃ blocks, s' = s.writes cfg codec blocks ∧ ∀ block ∈ blocks, F block

section Writes

variable {F : Block → Prop} {s s' s'' : Store} {start last : ℕ}

lemma WritesOf.trans (h : WritesOf cfg codec F s s') (h' : WritesOf cfg codec F s' s'') :
    WritesOf cfg codec F s s'' := by
  obtain ⟨blocks, rfl, hF⟩ := h
  obtain ⟨blocks', rfl, hF'⟩ := h'
  exact ⟨blocks ++ blocks', by simp [Store.writes], fun block hmem =>
    (List.mem_append.mp hmem).elim (hF block) (hF' block)⟩

lemma receiveBlocks_writes (cfg : Config) (codec : Codec) {messages : List PeerMessage}
    (hF : ∀ block ∈ messages.filterMap PeerMessage.block?, F block) (s : Store) :
    WritesOf cfg codec F s (receiveBlocks cfg codec s messages).1 := by
  induction messages generalizing s with
  | nil => exact ⟨[], rfl, by simp⟩
  | cons m messages ih =>
    rcases m with (_ | items | code) | _
    · exact ih hF s
    · have hone : WritesOf cfg codec F s (s.write cfg codec ⟨items⟩) :=
        ⟨[⟨items⟩], rfl, by simpa using hF ⟨items⟩ List.mem_cons_self⟩
      simp only [receiveBlocks]
      split
      · exact hone.trans (ih (fun block hmem => hF block (List.mem_cons_of_mem _ hmem)) _)
      · exact hone
    · exact ih hF s
    · exact ⟨[], rfl, by simp⟩

/-- The blocks that are streamed in the turn. -/
def GapTurn.Streams (F : Block → Prop) (start last : ℕ) : GapTurn → Prop
  | .status _ (.answers peer) => ∀ messages, peer start last = some messages →
    ∀ block ∈ messages.filterMap PeerMessage.block?, F block
  | _ => True

lemma takeGapTurn_writes {turn : GapTurn} (hturn : turn.Streams F start last)
    (h : WritesOf cfg codec F s s') :
    (takeGapTurn cfg codec start last s' turn).Keeps (WritesOf cfg codec F s)
      (WritesOf cfg codec F s) (fun _ => True) := by
  suffices hstore : WritesOf cfg codec F s (takeGapTurn cfg codec start last s' turn).store from
    ⟨fun _ => hstore, fun _ => hstore, fun _ _ => trivial⟩
  rcases turn with _ | _ | ⟨response, _ | peer⟩
  · exact h
  · exact h
  · simp only [takeGapTurn]
    split <;> exact h
  · simp only [takeGapTurn]
    split
    · exact h
    · rcases hpeer : peer start last with _ | messages
      · simpa only [streamFromPeer, hpeer] using h
      · simp only [streamFromPeer, hpeer]
        exact h.trans (receiveBlocks_writes cfg codec (hturn messages hpeer) s')

lemma Store.mem_writes_log {blocks : List Block} {n : ℕ} {block : Block}
    (h : (n, block) ∈ (s.writes cfg codec blocks).log) : (n, block) ∈ s.log ∨ block ∈ blocks := by
  induction blocks generalizing s with
  | nil => exact Or.inl h
  | cons first blocks ih =>
    rcases ih h with hmem | hmem
    · rcases s.write_cases cfg codec first with heq | ⟨m, -, hlog, -⟩
      · rw [heq] at hmem
        exact Or.inl hmem
      · rw [hlog] at hmem
        rcases List.mem_cons.mp hmem with heq | hmem
        · exact Or.inr (by rw [(Prod.mk.inj heq).2]; exact List.mem_cons_self)
        · exact Or.inl hmem
    · exact Or.inr (List.mem_cons_of_mem _ hmem)

/-- Writes at a node whose archiver is at rest. -/
lemma RunsTo.writes (hidle : node.archiver = .idle) (blocks : List Block) :
    RunsTo cfg codec node { node with store := node.store.writes cfg codec blocks } := by
  refine ⟨blocks.map Act.write, ?_, ?_⟩
  · induction blocks generalizing node with
    | nil => rfl
    | cons block blocks ih => exact ih hidle
  · induction blocks generalizing node with
    | nil => trivial
    | cons block blocks ih =>
      refine ⟨⟨⟨?_, trivial⟩, trivial⟩, ih hidle⟩
      simp [OneAtATime, hidle]

end Writes

/-! ### Two nodes -/

/-- The peer has every block that the node has on record as missing. -/
structure Supplies (lookahead : ℕ) (peer node : Node) : Prop where
  earliest : ∃ e, getEarliestPersistedBlockNumber peer.store.db = some e ∧
    ∀ n, Covers node.store.db.gaps n → e ≤ n
  latest : ∃ l, getLatestPersistedBlockNumber peer.store.db = some l ∧ l + lookahead ≤ u64Max
  committed : ∀ n, Covers node.store.db.gaps n → peer.store.Committed n

/-- A recorded number is not beyond the latest one. -/
lemma Store.Good.gap_le {s : Store} (hg : s.Good cfg) {n : ℕ} (hn : Covers s.db.gaps n) :
    n ≤ latestOrSeed cfg s.db := by
  rcases Nat.lt_or_ge (highestContiguous s.db) n with hlt | hge
  · exact ((hg.ok.above hlt).mp hn).le
  · exact hge.trans hg.ok.highest_le

lemma Supplies.has (h : Supplies lookahead peer node) (hg : node.store.Good cfg)
    (hmax : latestOrSeed cfg node.store.db < u64Max) {gap : ℕ × ℕ}
    (hmem : gap ∈ getAllGaps node.store.db) :
    ∃ request : SubscribeRequest, request.startBlockNumber = gap.1 ∧
      request.endBlockNumber = gap.2 ∧ peer.Has request := by
  have hget : node.store.db.gaps.get gap.1 = some gap.2 := SortedMap.get_eq_some.mpr hmem
  have hle : gap.1 ≤ gap.2 := hg.canonical.nonempty hget
  have hcovers : ∀ n, gap.1 ≤ n → n ≤ gap.2 → Covers node.store.db.gaps n := fun n hstart hend =>
    ⟨gap.1, gap.2, hget, hstart, hend⟩
  have hlast := hg.gap_le (hcovers gap.2 hle le_rfl)
  obtain ⟨e, he, hfirst⟩ := h.earliest
  have hfinite : gap.2 ≠ u64Max := by omega
  exact ⟨⟨gap.1, gap.2, by omega, by omega⟩, rfl, rfl, hfinite, hle,
    ⟨e, he, hfirst _ (hcovers gap.1 le_rfl hle)⟩,
    fun n hstart hend => h.committed n (hcovers n hstart hend)⟩

/-- What the worker meets at a peer that has the gap. -/
lemma Supplies.gapTurn (h : Supplies lookahead peer node) (hpeer : Serving cfg' codec peer)
    (hsize : 1 ≤ cfg'.archiveBatchSize) (hg : node.store.Good cfg)
    (hmax : latestOrSeed cfg node.store.db < u64Max) {gap : ℕ × ℕ}
    (hmem : gap ∈ getAllGaps node.store.db) :
    (peer.gapTurn codec lookahead).Delivers gap.1 gap.2 ∧
      (peer.gapTurn codec lookahead).Serves gap.1 gap.2 ∧
      (peer.gapTurn codec lookahead).Streams peer.store.Keeps gap.1 gap.2 := by
  obtain ⟨request, hstart, hend, hhas⟩ := h.has hg hmax hmem
  obtain ⟨e, he, hfirst⟩ := hhas.earliest
  obtain ⟨l, hl, hroom⟩ := h.latest
  have hlast : request.endBlockNumber ≤ l :=
    (hpeer.latest_spec hl).2 _ (hhas.committed _ hhas.ordered le_rfl)
  have hturn : peer.gapTurn codec lookahead =
      .status ⟨e, l, false⟩ (.answers (peer.asPeer codec lookahead)) := by
    simp only [Node.gapTurn, serverStatus, Node.blockReader, he, hl, Option.getD_some]
  have hsmall : ∀ k ∈ getLatestPersistedBlockNumber peer.store.db, k + lookahead ≤ u64Max :=
    fun k hk => by cases hl.symm.trans hk; exact hroom
  obtain ⟨messages, hmessages, hne, hdelivers, hkeeps⟩ := hhas.asPeer hpeer hsize hsmall
  rw [hstart, hend] at hmessages hdelivers
  rw [hturn]
  refine ⟨fun other hother => ?_, ⟨⟨hstart ▸ hfirst, hend ▸ hlast⟩, messages, hmessages, hne⟩,
    fun other hother => ?_⟩
  · cases hmessages.symm.trans hother
    exact hdelivers
  · cases hmessages.symm.trans hother
    exact hkeeps

lemma Supplies.served (h : Supplies lookahead peer node) (hpeer : Serving cfg' codec peer)
    (hsize : 1 ≤ cfg'.archiveBatchSize) (hg : node.store.Good cfg)
    (hmax : latestOrSeed cfg node.store.db < u64Max) :
    (peer.gapCheck codec lookahead).Served node.store.db := by
  refine ⟨rfl, fun gap hmem => ?_⟩
  obtain ⟨hdelivers, hserves, -⟩ := h.gapTurn hpeer hsize hg hmax hmem
  refine ⟨fun turns hturns turn hturn => ?_, fun turns hturns => ?_,
    ⟨_, List.mem_singleton.mpr rfl, Or.inl hserves⟩⟩
  · rw [List.mem_singleton.mp hturns] at hturn
    rw [List.eq_of_mem_replicate hturn]
    exact hdelivers
  · rw [List.mem_singleton.mp hturns, List.length_replicate]
    exact Nat.lt_succ_self _

/-- The check writes blocks that the peer has, as the peer has them. -/
lemma Supplies.writes (h : Supplies lookahead peer node) (hpeer : Serving cfg' codec peer)
    (hsize : 1 ≤ cfg'.archiveBatchSize) (hg : node.store.Good cfg)
    (hmax : latestOrSeed cfg node.store.db < u64Max) :
    WritesOf cfg codec peer.store.Keeps node.store
      (runSingleGapCheck cfg codec (peer.gapCheck codec lookahead) node.store).store := by
  refine runSingleGapCheck_keeps (Q := fun _ => True)
    (fun gap hmem turns hturns s turn hturn hs => ?_) ⟨[], rfl, by simp⟩
  rw [List.mem_singleton.mp hturns] at hturn
  rw [List.eq_of_mem_replicate hturn, max_eq_left (hg.start_le (SortedMap.get_eq_some.mpr hmem))]
  exact takeGapTurn_writes (h.gapTurn hpeer hsize hg hmax hmem).2.2 hs

/-- Blocks 1 to 4. -/
def fullNode : Node :=
  { Node.init firstConfig with
    store := (Store.init firstConfig).writes firstConfig plainCodec
      [plainBlock 1, plainBlock 2, plainBlock 3, plainBlock 4] }

lemma fullNode_supplies : Supplies 10 fullNode gappedNode := by
  have hgap : ∀ n, Covers gappedNode.store.db.gaps n → n = 2 ∨ n = 3 := by
    rintro n ⟨a, b, hget, ha, hb⟩
    have hentries : gappedNode.store.db.gaps.entries = [(2, 3)] := by decide +kernel
    have hmem := SortedMap.get_eq_some.mp hget
    rw [hentries, List.mem_singleton, Prod.mk.injEq] at hmem
    omega
  refine ⟨⟨1, by decide +kernel, fun n hn => ?_⟩, ⟨4, by decide +kernel, by decide⟩, fun n hn => ?_⟩
  · have := hgap n hn
    omega
  · rcases hgap n hn with rfl | rfl
    · exact ⟨plainBlock 2, by decide +kernel⟩
    · exact ⟨plainBlock 3, by decide +kernel⟩

lemma runsTo_gappedNode : RunsTo firstConfig plainCodec (Node.init firstConfig) gappedNode :=
  RunsTo.writes rfl [plainBlock 1, plainBlock 4]

lemma runsTo_fullNode : RunsTo firstConfig plainCodec (Node.init firstConfig) fullNode :=
  RunsTo.writes rfl _

end RockNode
