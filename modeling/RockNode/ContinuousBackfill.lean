import RockNode.Backfill

/-!
Backfill in its continuous mode: `run_continuous_stream_cycle`.

The latest block is looked up once for each peer. The loop below, which asks the peer again after
a stream has broken, goes by that number ever after, whatever the stream has brought.
-/

namespace RockNode

/-! ### The worker -/

def peerRetryLimit : ℕ := 3

/-- `n as i64`. -/
def toI64 (n : ℕ) : ℤ := if n < 2 ^ 63 then n else n - 2 ^ 64

/-- `k as u64`. -/
def toU64 (k : ℤ) : ℕ := (k % 2 ^ 64).toNat

/-- How a peer answers `stream_from_peer`: there is no connection, so that no request is made, or
the request is answered. -/
inductive StreamAnswer where
  | unreachable
  | answers (peer : ℕ → ℕ → Option (List PeerMessage))

/-- What the worker meets when it turns to the peer: `get_peer_status` fails, or has no status to
report, or has one; then a stream may be asked for. -/
inductive PeerTurn where
  | noConnection
  | noStatus
  | status (lastAvailableBlock : UInt64) (answer : StreamAnswer)

/-- A request for a stream: what the worker takes for the latest block, the store at the time of
the request, and the start that is asked for. -/
structure StreamRequest where
  known : Option ℕ
  store : Store
  start : ℕ

/-- How one turn leaves the loop at the peer. -/
inductive TurnEnd where
  | again
  | failed
  | nextPeer
  /-- the stream has ended gracefully -/
  | ended
  | panicked

def localLatestBlock : Option ℕ → ℤ
  | some n => toI64 n
  | none => -1

/-- One turn of the loop. -/
def takeTurn (cfg : Config) (codec : Codec) (known : Option ℕ) (s : Store) :
    PeerTurn → Store × Option StreamRequest × TurnEnd
  | .noConnection => (s, none, .failed)
  | .noStatus => (s, none, .nextPeer)
  | .status lastAvailableBlock answer =>
    let peerLatest := toI64 lastAvailableBlock.toNat
    if peerLatest < localLatestBlock known then (s, none, .nextPeer)
    else
      let startFrom := localLatestBlock known + 1
      if 2 ^ 63 ≤ startFrom then (s, none, .panicked)
      else if startFrom > peerLatest ∧ startFrom > 0 then (s, none, .again)
      else
        match answer with
        | .unreachable => (s, none, .failed)
        | .answers peer =>
          let streamed := streamFromPeer cfg codec peer (toU64 startFrom) u64Max s
          (streamed.1, some ⟨known, s, toU64 startFrom⟩, if streamed.2 then .ended else .failed)

/-- The store, the requests made so far, and how things stand. -/
structure Progress where
  store : Store
  requests : List StreamRequest
  ending : TurnEnd

/-- Requests made before. -/
def Progress.after (requests : List StreamRequest) (progress : Progress) : Progress :=
  { progress with requests := requests ++ progress.requests }

/-- The loop at one peer, which goes on where the turns end. -/
def visitPeer (cfg : Config) (codec : Codec) (known : Option ℕ) :
    ℕ → List PeerTurn → Store → Progress
  | _, [], s => ⟨s, [], .again⟩
  | retries, turn :: turns, s =>
    let (s', request, ending) := takeTurn cfg codec known s turn
    match ending with
    | .again => (visitPeer cfg codec known retries turns s').after request.toList
    | .failed =>
      if retries + 1 > peerRetryLimit then ⟨s', request.toList, .nextPeer⟩
      else (visitPeer cfg codec known (retries + 1) turns s').after request.toList
    | _ => ⟨s', request.toList, ending⟩

/-- A visit to a peer: whether the look for the latest block fails, and what the peer does. -/
structure PeerVisit where
  readFails : Bool
  turns : List PeerTurn

/-- What the worker takes for the latest block. -/
def PeerVisit.known (visit : PeerVisit) (s : Store) : Option ℕ :=
  if visit.readFails then none else getLatestPersistedBlockNumber s.db

/-- `run_continuous_stream_cycle` with the peers in some order. -/
def runContinuousStreamCycle (cfg : Config) (codec : Codec) : List PeerVisit → Store → Progress
  | [], s => ⟨s, [], .ended⟩
  | visit :: visits, s =>
    let progress := visitPeer cfg codec (visit.known s) 0 visit.turns s
    match progress.ending with
    | .nextPeer =>
      (runContinuousStreamCycle cfg codec visits progress.store).after progress.requests
    | _ => progress

/-- `run_continuous_loop`: one cycle after the other. -/
def runContinuousLoop (cfg : Config) (codec : Codec) : List (List PeerVisit) → Store → Progress
  | [], s => ⟨s, [], .ended⟩
  | visits :: cycles, s =>
    let progress := runContinuousStreamCycle cfg codec visits s
    match progress.ending with
    | .ended => (runContinuousLoop cfg codec cycles progress.store).after progress.requests
    | _ => progress

/-! ### Where the store ends -/

/-- The largest number that has been written. -/
def Store.greatest (s : Store) : Option ℕ := (s.log.map Prod.fst).max?

/-- One more than the latest block, or 0 when there is none. -/
def Store.nextBlock (s : Store) : ℕ :=
  match s.greatest with
  | some n => n + 1
  | none => 0

/-- The request goes on where the store ends. -/
def StreamRequest.Resumes (request : StreamRequest) : Prop :=
  request.start = request.store.nextBlock

/-- What has been written since comes after all that was there, and in order: nothing twice. -/
def Appends (s s' : Store) : Prop :=
  ∃ new, s'.log = new ++ s.log ∧ new.Pairwise (fun x y => y.1 < x.1) ∧
    ∀ x ∈ new, ∀ y ∈ s.log, y.1 < x.1

/-! ### The visits of a run -/

/-- The visits that a cycle comes to, each with the store at its start. -/
def cycleVisits (cfg : Config) (codec : Codec) : List PeerVisit → Store → List (PeerVisit × Store)
  | [], _ => []
  | visit :: visits, s =>
    let progress := visitPeer cfg codec (visit.known s) 0 visit.turns s
    (visit, s) ::
      match progress.ending with
      | .nextPeer => cycleVisits cfg codec visits progress.store
      | _ => []

/-- The visits that the worker comes to. -/
def loopVisits (cfg : Config) (codec : Codec) :
    List (List PeerVisit) → Store → List (PeerVisit × Store)
  | [], _ => []
  | visits :: cycles, s =>
    let progress := runContinuousStreamCycle cfg codec visits s
    cycleVisits cfg codec visits s ++
      match progress.ending with
      | .ended => loopVisits cfg codec cycles progress.store
      | _ => []

/-- At the start of a visit: the look for the latest block does not fail, the block on record is
the greatest one written, and there is a number after it. -/
structure PeerVisit.Informed (visit : PeerVisit) (s : Store) : Prop where
  reads : visit.readFails = false
  onRecord : getLatestPersistedBlockNumber s.db = s.greatest
  room : s.greatest ≠ some u64Max

instance PeerVisit.Informed.decidable (visit : PeerVisit) (s : Store) :
    Decidable (visit.Informed s) :=
  decidable_of_iff (visit.readFails = false ∧ getLatestPersistedBlockNumber s.db = s.greatest ∧
    s.greatest ≠ some u64Max) ⟨fun ⟨h1, h2, h3⟩ => ⟨h1, h2, h3⟩, fun ⟨h1, h2, h3⟩ => ⟨h1, h2, h3⟩⟩

/-- What the peer reports lets a worker with this latest block ask for a stream. -/
def PeerTurn.Asks (latest : Option ℕ) : PeerTurn → Prop
  | .status last (.answers _) => localLatestBlock latest ≤ toI64 last.toNat ∧
    localLatestBlock latest + 1 < 2 ^ 63 ∧
    (localLatestBlock latest + 1 ≤ toI64 last.toNat ∨ localLatestBlock latest + 1 ≤ 0)
  | _ => False

instance PeerTurn.Asks.decidable (latest : Option ℕ) : ∀ turn, Decidable (PeerTurn.Asks latest turn)
  | .status _ (.answers _) => inferInstanceAs (Decidable (_ ∧ _ ∧ _))
  | .status _ .unreachable | .noStatus | .noConnection => isFalse id

/-- In the stream that the peer sends there is a block above the latest one. -/
def PeerTurn.Brings (latest : Option ℕ) : PeerTurn → Prop
  | .status _ (.answers peer) =>
    ∃ messages ∈ peer (toU64 (localLatestBlock latest + 1)) u64Max,
      ∃ block ∈ messages.filterMap PeerMessage.block?, ∃ n ∈ getBlockNumber block,
        ∀ m ∈ latest, m < n
  | _ => False

instance PeerTurn.Brings.decidable (latest : Option ℕ) :
    ∀ turn, Decidable (PeerTurn.Brings latest turn)
  | .status _ (.answers _) => inferInstanceAs (Decidable (∃ _ ∈ _, _))
  | .status _ .unreachable | .noStatus | .noConnection => isFalse id

/-- No stream brings a new block before the last request of the visit. -/
def NewLast (latest : Option ℕ) : List PeerTurn → Prop
  | [] => True
  | turn :: turns => ((∃ later ∈ turns, later.Asks latest) → ¬ turn.Brings latest) ∧
    NewLast latest turns

instance NewLast.decidable (latest : Option ℕ) : ∀ turns, Decidable (NewLast latest turns)
  | [] => isTrue trivial
  | _ :: turns =>
    have : Decidable (NewLast latest turns) := NewLast.decidable latest turns
    inferInstanceAs (Decidable (_ ∧ _))

/-! ### A rule for the loops -/

variable {cfg : Config} {codec : Codec} {known : Option ℕ} {s : Store}

/-- A property of a stretch of work, from one store to another with these requests, that holds of
two stretches together when it holds of each. -/
structure Composes (P : Store → List StreamRequest → Store → Prop) : Prop where
  nil : ∀ s, P s [] s
  append : ∀ {s l s' l' s''}, P s l s' → P s' l' s'' → P s (l ++ l') s''

namespace Composes

/-- An invariant of the store, and what it gives of every request. -/
lemma of_inv (I : Store → Prop) (Q : StreamRequest → Prop) :
    Composes fun s l s' => I s → I s' ∧ ∀ request ∈ l, Q request where
  nil s h := ⟨h, by simp⟩
  append := by
    intro s l s' l' s'' hfirst hrest h
    obtain ⟨hmiddle, hl⟩ := hfirst h
    obtain ⟨hend, hl'⟩ := hrest hmiddle
    exact ⟨hend, fun request hmem => (List.mem_append.mp hmem).elim (hl request) (hl' request)⟩

variable {P : Store → List StreamRequest → Store → Prop}

/-- What every turn keeps, a visit keeps. -/
lemma visitPeer (h : Composes P) {turns : List PeerTurn}
    (hturn : ∀ s, ∀ turn ∈ turns, P s (takeTurn cfg codec known s turn).2.1.toList
      (takeTurn cfg codec known s turn).1) (retries : ℕ) (s : Store) :
    P s (RockNode.visitPeer cfg codec known retries turns s).requests
      (RockNode.visitPeer cfg codec known retries turns s).store := by
  induction turns generalizing retries s with
  | nil => exact h.nil s
  | cons turn turns ih =>
    have hfirst := hturn s turn List.mem_cons_self
    have hrest := ih fun s turn hmem => hturn s turn (List.mem_cons_of_mem _ hmem)
    simp only [RockNode.visitPeer]
    split
    · exact h.append hfirst (hrest _ _)
    · split
      · exact hfirst
      · exact h.append hfirst (hrest _ _)
    · exact hfirst

/-- What every visit keeps, a cycle keeps. -/
lemma cycle (h : Composes P) {visits : List PeerVisit}
    (hvisit : ∀ s, ∀ visit ∈ visits,
      P s (RockNode.visitPeer cfg codec (visit.known s) 0 visit.turns s).requests
        (RockNode.visitPeer cfg codec (visit.known s) 0 visit.turns s).store) (s : Store) :
    P s (runContinuousStreamCycle cfg codec visits s).requests
      (runContinuousStreamCycle cfg codec visits s).store := by
  induction visits generalizing s with
  | nil => exact h.nil s
  | cons visit visits ih =>
    have hfirst := hvisit s visit List.mem_cons_self
    simp only [runContinuousStreamCycle]
    split
    · exact h.append hfirst (ih (fun s visit hmem => hvisit s visit
        (List.mem_cons_of_mem _ hmem)) _)
    · exact hfirst

/-- **The rule for the worker**: what every visit keeps, the worker keeps. -/
lemma loop (h : Composes P) {cycles : List (List PeerVisit)}
    (hvisit : ∀ s, ∀ visits ∈ cycles, ∀ visit ∈ visits,
      P s (RockNode.visitPeer cfg codec (visit.known s) 0 visit.turns s).requests
        (RockNode.visitPeer cfg codec (visit.known s) 0 visit.turns s).store) (s : Store) :
    P s (runContinuousLoop cfg codec cycles s).requests
      (runContinuousLoop cfg codec cycles s).store := by
  induction cycles generalizing s with
  | nil => exact h.nil s
  | cons visits cycles ih =>
    have hfirst := h.cycle (fun s visit hmem => hvisit s visits List.mem_cons_self visit hmem) s
    simp only [runContinuousLoop]
    split
    · exact h.append hfirst (ih (fun s visits hmem => hvisit s visits
        (List.mem_cons_of_mem _ hmem)) _)
    · exact hfirst

end Composes

/-! ### What a request goes by -/

/-- The turn comes to a request, or nothing has changed. -/
lemma takeTurn_cases (cfg : Config) (codec : Codec) (known : Option ℕ) (s : Store)
    (turn : PeerTurn) :
    ((takeTurn cfg codec known s turn).1 = s ∧ (takeTurn cfg codec known s turn).2.1 = none) ∨
    ∃ last peer, turn = .status last (.answers peer) ∧ turn.Asks known ∧
      (takeTurn cfg codec known s turn).1 = (streamFromPeer cfg codec peer
        (toU64 (localLatestBlock known + 1)) u64Max s).1 ∧
      (takeTurn cfg codec known s turn).2.1 =
        some ⟨known, s, toU64 (localLatestBlock known + 1)⟩ := by
  rcases turn with _ | _ | ⟨last, answer⟩
  · exact Or.inl ⟨rfl, rfl⟩
  · exact Or.inl ⟨rfl, rfl⟩
  · simp only [takeTurn]
    split
    · exact Or.inl ⟨rfl, rfl⟩
    next hbehind =>
    split
    · exact Or.inl ⟨rfl, rfl⟩
    next hroom =>
    split
    · exact Or.inl ⟨rfl, rfl⟩
    next hlevel =>
    rcases answer with _ | peer
    · exact Or.inl ⟨rfl, rfl⟩
    · exact Or.inr ⟨last, peer, rfl, ⟨by omega, by omega, by omega⟩, rfl, rfl⟩

/-- The stream writes block after block. -/
lemma receiveBlocks_induct {P : Store → Prop} {messages : List PeerMessage}
    (hwrite : ∀ s, ∀ block ∈ messages.filterMap PeerMessage.block?, P s →
      P (s.write cfg codec block)) (hs : P s) : P (receiveBlocks cfg codec s messages).1 := by
  induction messages generalizing s with
  | nil => exact hs
  | cons m messages ih =>
    rcases m with (_ | items | code) | _
    · exact ih hwrite hs
    · have hfirst := hwrite s ⟨items⟩ List.mem_cons_self hs
      simp only [receiveBlocks]
      split
      · exact ih (fun s block hblock => hwrite s block (List.mem_cons_of_mem _ hblock)) hfirst
      · exact hfirst
    · exact ih hwrite hs
    · exact hs

lemma streamFromPeer_induct {P : Store → Prop} {peer : ℕ → ℕ → Option (List PeerMessage)}
    {start last : ℕ} (hwrite : ∀ s, ∀ messages ∈ peer start last,
      ∀ block ∈ messages.filterMap PeerMessage.block?, P s → P (s.write cfg codec block))
    (hs : P s) : P (streamFromPeer cfg codec peer start last s).1 := by
  unfold streamFromPeer
  split
  · exact hs
  · next messages hmessages =>
    exact receiveBlocks_induct (fun s block hblock => hwrite s messages hmessages block hblock) hs

/-- A number on record is a `u64`. -/
def LatestInRange (s : Store) : Prop := ∀ l ∈ getLatestPersistedBlockNumber s.db, l ≤ u64Max

lemma LatestInRange.write (h : LatestInRange s) (block : Block) :
    LatestInRange (s.write cfg codec block) := by
  rcases s.write_eq cfg codec block with hsame | ⟨n, ops, hn, hops, hwrite⟩
  · rwa [hsame]
  · intro l hl
    rw [hwrite, getLatestPersistedBlockNumber, commitBatch_metadata,
      fullBatch_latest _ _ _ _ _ _ _ hops] at hl
    split at hl
    · cases hl
      exact getBlockNumber_le hn
    · exact h l hl

lemma LatestInRange.writes (h : LatestInRange s) (blocks : List Block) :
    LatestInRange (s.writes cfg codec blocks) := by
  induction blocks generalizing s with
  | nil => exact h
  | cons block blocks ih => exact ih (h.write block)

lemma LatestInRange.known_le (h : LatestInRange s) (visit : PeerVisit) :
    ∀ l ∈ visit.known s, l ≤ u64Max := by
  unfold PeerVisit.known
  split
  · intro l hl
    cases hl
  · exact h

/-- The start is the number after the one that the worker goes by. -/
structure StreamRequest.GoesBy (request : StreamRequest) : Prop where
  start : request.start = toU64 (localLatestBlock request.known + 1)
  known_le : ∀ l ∈ request.known, l ≤ u64Max

lemma takeTurn_goesBy (turn : PeerTurn) (hknown : ∀ l ∈ known, l ≤ u64Max)
    (h : LatestInRange s) :
    LatestInRange (takeTurn cfg codec known s turn).1 ∧
    ∀ request ∈ (takeTurn cfg codec known s turn).2.1.toList, request.GoesBy := by
  rcases takeTurn_cases cfg codec known s turn with ⟨hs, hnone⟩ | ⟨last, peer, -, -, hs, hsome⟩
  · rw [hs, hnone]
    exact ⟨h, by simp⟩
  · rw [hs, hsome]
    refine ⟨streamFromPeer_induct (fun s messages _ block _ h => h.write block) h,
      fun request hrequest => ?_⟩
    obtain rfl := List.mem_singleton.mp hrequest
    exact ⟨rfl, hknown⟩

/-- Every request of the worker. -/
lemma loop_goesBy (cfg : Config) (codec : Codec) (h : LatestInRange s)
    (cycles : List (List PeerVisit)) :
    ∀ request ∈ (runContinuousLoop cfg codec cycles s).requests, request.GoesBy := by
  refine ((Composes.of_inv LatestInRange StreamRequest.GoesBy).loop
    (fun s visits _ visit _ h => ?_) s h).2
  exact (Composes.of_inv LatestInRange StreamRequest.GoesBy).visitPeer
    (fun s' turn _ => takeTurn_goesBy turn (h.known_le visit)) 0 s h

/-! ### The number after the latest -/

lemma toU64_none : toU64 (localLatestBlock none + 1) = 0 := by decide

lemma toU64_some {n : ℕ} (h : n ≤ u64Max) :
    toU64 (localLatestBlock (some n) + 1) = if n = u64Max then 0 else n + 1 := by
  rcases Nat.eq_or_lt_of_le h with rfl | hlt
  · rw [if_pos rfl]
    decide
  · rw [if_neg hlt.ne]
    simp only [toU64, localLatestBlock, toI64, u64Max] at hlt ⊢
    split <;> omega

/-- **One request.** It goes on where the store ends, when the worker knows where that is. -/
lemma StreamRequest.GoesBy.resumes {request : StreamRequest} (h : request.GoesBy)
    (hknown : request.known = request.store.greatest)
    (hroom : request.store.greatest ≠ some u64Max) : request.Resumes := by
  unfold Resumes Store.nextBlock
  rw [h.start, hknown]
  rcases hgreatest : request.store.greatest with _ | n
  · exact toU64_none
  · rw [toU64_some (h.known_le n (hknown.trans hgreatest)),
      if_neg fun hmax => hroom (hgreatest.trans (congrArg some hmax))]

/-! ### Visits that bring nothing new before their last request -/

lemma greatest_write {block : Block} (h : ∀ n ∈ getBlockNumber block, ∃ m ∈ s.greatest, n ≤ m) :
    (s.write cfg codec block).greatest = s.greatest := by
  rcases s.write_cases cfg codec block with hsame | ⟨n, hn, hlog, -⟩
  · rw [hsame]
  · obtain ⟨m, hm, hle⟩ := h n hn
    have hmax : s.greatest = some m := hm
    rw [Store.greatest, hlog, List.map_cons, List.max?_cons, ← Store.greatest, hmax]
    exact congrArg some (max_eq_right hle)

lemma streamFromPeer_greatest {last : UInt64} {peer : ℕ → ℕ → Option (List PeerMessage)}
    (h : ¬ (PeerTurn.status last (.answers peer)).Brings s.greatest) :
    (streamFromPeer cfg codec peer (toU64 (localLatestBlock s.greatest + 1)) u64Max s).1.greatest =
      s.greatest := by
  refine streamFromPeer_induct (P := fun s' => s'.greatest = s.greatest)
    (fun s' messages hmessages block hblock hs' => ?_) rfl
  rw [← hs']
  refine greatest_write fun n hn => ?_
  by_contra hnew
  refine h ⟨messages, hmessages, block, hblock, n, hn, fun m hm => ?_⟩
  by_contra hle
  exact hnew ⟨m, hs' ▸ hm, Nat.not_lt.mp hle⟩

/-- Where no turn lets the worker ask, the visit makes no request. -/
lemma visitPeer_requests_eq_nil {turns : List PeerTurn} (h : ∀ turn ∈ turns, ¬ turn.Asks known)
    (retries : ℕ) (s : Store) : (visitPeer cfg codec known retries turns s).requests = [] := by
  have hnil : Composes fun (_ : Store) (l : List StreamRequest) (_ : Store) => l = [] :=
    ⟨fun _ => rfl, fun hl hl' => by rw [hl, hl', List.append_nil]⟩
  refine hnil.visitPeer (fun s turn hturn => ?_) retries s
  rcases takeTurn_cases cfg codec known s turn with ⟨-, hnone⟩ | ⟨-, -, -, hasks, -⟩
  · rw [hnone]
    rfl
  · exact absurd hasks (h turn hturn)

/-- **One visit.** Every request is made when the store still ends where it did at the start. -/
lemma visitPeer_newLast {turns : List PeerTurn} (h : NewLast s.greatest turns) (retries : ℕ) :
    ∀ request ∈ (visitPeer cfg codec s.greatest retries turns s).requests,
      request.known = s.greatest ∧ request.store.greatest = s.greatest := by
  induction turns generalizing s retries with
  | nil => simp [visitPeer]
  | cons turn turns ih =>
    obtain ⟨hturn, hturns⟩ := h
    -- the requests of this turn and of those after it
    have hfirst : ∀ request ∈ (takeTurn cfg codec s.greatest s turn).2.1.toList,
        request.known = s.greatest ∧ request.store.greatest = s.greatest := by
      intro request hrequest
      rcases takeTurn_cases cfg codec s.greatest s turn with ⟨-, hnone⟩ | ⟨_, _, -, -, -, hsome⟩
      · rw [hnone] at hrequest
        cases hrequest
      · rw [hsome] at hrequest
        obtain rfl := List.mem_singleton.mp hrequest
        exact ⟨rfl, rfl⟩
    have hrest : ∀ retries, ∀ request ∈ (visitPeer cfg codec s.greatest retries turns
        (takeTurn cfg codec s.greatest s turn).1).requests,
        request.known = s.greatest ∧ request.store.greatest = s.greatest := by
      intro retries
      by_cases hlater : ∃ later ∈ turns, later.Asks s.greatest
      · have hsame : (takeTurn cfg codec s.greatest s turn).1.greatest = s.greatest := by
          rcases takeTurn_cases cfg codec s.greatest s turn with
            ⟨hs, -⟩ | ⟨last, peer, rfl, -, hs, -⟩
          · rw [hs]
          · rw [hs]
            exact streamFromPeer_greatest (hturn hlater)
        have hih := ih (s := (takeTurn cfg codec s.greatest s turn).1) (by rwa [hsame]) retries
        rwa [hsame] at hih
      · rw [visitPeer_requests_eq_nil fun turn hmem hasks => hlater ⟨turn, hmem, hasks⟩]
        simp
    simp only [visitPeer]
    split
    · exact fun request hmem => (List.mem_append.mp hmem).elim (hfirst request) (hrest _ request)
    · split
      · exact hfirst
      · exact fun request hmem => (List.mem_append.mp hmem).elim (hfirst request) (hrest _ request)
    · exact hfirst

/-- Every request of a cycle is made in one of its visits. -/
lemma mem_cycle_requests {visits : List PeerVisit} {request : StreamRequest}
    (h : request ∈ (runContinuousStreamCycle cfg codec visits s).requests) :
    ∃ v ∈ cycleVisits cfg codec visits s,
      request ∈ (visitPeer cfg codec (v.1.known v.2) 0 v.1.turns v.2).requests := by
  induction visits generalizing s with
  | nil => cases h
  | cons visit visits ih =>
    simp only [runContinuousStreamCycle] at h
    simp only [cycleVisits]
    split at h
    · rcases List.mem_append.mp h with h | h
      · exact ⟨(visit, s), List.mem_cons_self, h⟩
      · obtain ⟨v, hv, hrequest⟩ := ih h
        exact ⟨v, List.mem_cons_of_mem _ hv, hrequest⟩
    · exact ⟨(visit, s), List.mem_cons_self, h⟩

lemma mem_loop_requests {cycles : List (List PeerVisit)} {request : StreamRequest}
    (h : request ∈ (runContinuousLoop cfg codec cycles s).requests) :
    ∃ v ∈ loopVisits cfg codec cycles s,
      request ∈ (visitPeer cfg codec (v.1.known v.2) 0 v.1.turns v.2).requests := by
  induction cycles generalizing s with
  | nil => cases h
  | cons visits cycles ih =>
    simp only [runContinuousLoop] at h
    simp only [loopVisits]
    split at h
    · rcases List.mem_append.mp h with h | h
      · obtain ⟨v, hv, hrequest⟩ := mem_cycle_requests h
        exact ⟨v, List.mem_append_left _ hv, hrequest⟩
      · obtain ⟨v, hv, hrequest⟩ := ih h
        exact ⟨v, List.mem_append_right _ hv, hrequest⟩
    · obtain ⟨v, hv, hrequest⟩ := mem_cycle_requests h
      exact ⟨v, List.mem_append_left _ hv, hrequest⟩

/-! ### Nothing twice -/

lemma Appends.refl (s : Store) : Appends s s := ⟨[], rfl, List.Pairwise.nil, by simp⟩

lemma Appends.trans {s s' s'' : Store} (h : Appends s s') (h' : Appends s' s'') :
    Appends s s'' := by
  obtain ⟨new, hlog, horder, habove⟩ := h
  obtain ⟨new', hlog', horder', habove'⟩ := h'
  rw [hlog] at hlog' habove'
  refine ⟨new' ++ new, by rw [hlog', List.append_assoc], ?_, fun x hx y hy => ?_⟩
  · exact List.pairwise_append.mpr ⟨horder', horder, fun x hx y hy =>
      habove' x hx y (List.mem_append_left _ hy)⟩
  · rcases List.mem_append.mp hx with hx | hx
    · exact habove' x hx y (List.mem_append_right _ hy)
    · exact habove x hx y hy

/-- A block after all others. -/
lemma appends_write (cfg : Config) (codec : Codec) {block : Block} {n : ℕ}
    (hn : getBlockNumber block = some n) (habove : ∀ y ∈ s.log, y.1 < n) :
    Appends s (s.write cfg codec block) ∧
      ∀ y ∈ (s.write cfg codec block).log, y.1 < n + 1 := by
  rcases s.write_cases cfg codec block with hsame | ⟨m, hm, hlog, -⟩
  · rw [hsame]
    exact ⟨.refl s, fun y hy => Nat.lt_succ_of_lt (habove y hy)⟩
  · obtain rfl : n = m := Option.some.inj (hn.symm.trans hm)
    refine ⟨⟨[(n, block)], hlog, List.pairwise_singleton _ _, fun x hx => ?_⟩, fun y hy => ?_⟩
    · rw [List.mem_singleton.mp hx]
      exact habove
    · rw [hlog] at hy
      rcases List.mem_cons.mp hy with rfl | hy
      · exact Nat.lt_succ_self n
      · exact Nat.lt_succ_of_lt (habove y hy)

/-- The blocks among the messages have the numbers from this one on. -/
def BlocksFrom (start : ℕ) (messages : List PeerMessage) : Prop :=
  ∃ k, (messages.filterMap PeerMessage.block?).map getBlockNumber =
    (List.range' start k).map some

/-- The peer streams block after block, from the one asked for; it may break off anywhere. -/
def StreamAnswer.InOrder : StreamAnswer → Prop
  | .unreachable => True
  | .answers peer => ∀ start messages, peer start u64Max = some messages →
      BlocksFrom start messages

lemma receiveBlocks_appends {messages : List PeerMessage} {start : ℕ}
    (h : BlocksFrom start messages) (habove : ∀ y ∈ s.log, y.1 < start) :
    Appends s (receiveBlocks cfg codec s messages).1 := by
  induction messages generalizing s start with
  | nil => exact .refl s
  | cons m messages ih =>
    obtain ⟨k, hk⟩ := h
    rcases m with (_ | items | code) | _
    · exact ih ⟨k, hk⟩ habove
    · rcases k with _ | k
      · cases hk
      · rw [List.filterMap_cons_some (show PeerMessage.block? _ = some ⟨items⟩ from rfl),
          List.range'_succ, List.map_cons, List.map_cons] at hk
        obtain ⟨hn, hrest⟩ := List.cons.inj hk
        obtain ⟨honce, hbelow⟩ := appends_write cfg codec hn habove
        simp only [receiveBlocks]
        split
        · exact honce.trans (ih ⟨k, hrest⟩ hbelow)
        · exact honce
    · exact ih ⟨k, hk⟩ habove
    · exact .refl s

lemma lt_nextBlock {y : ℕ × Block} (hy : y ∈ s.log) : y.1 < s.nextBlock := by
  have hmem : y.1 ∈ s.log.map Prod.fst := List.mem_map_of_mem hy
  unfold Store.nextBlock
  rcases hmax : s.greatest with _ | m
  · have hnil : s.log = [] := by simpa [Store.greatest] using hmax
    rw [hnil] at hy
    cases hy
  · exact Nat.lt_succ_of_le ((List.max?_eq_some_iff.mp hmax).2 _ hmem)

/-- A turn whose request goes on where the store ends writes nothing twice. -/
lemma takeTurn_appends {turn : PeerTurn}
    (horder : ∀ last answer, turn = .status last answer → answer.InOrder)
    (hresumes : ∀ request ∈ (takeTurn cfg codec known s turn).2.1.toList, request.Resumes) :
    Appends s (takeTurn cfg codec known s turn).1 := by
  rcases takeTurn_cases cfg codec known s turn with ⟨hs, -⟩ | ⟨last, peer, hturn, -, hs, hsome⟩
  · rw [hs]
    exact .refl s
  · have hstart : toU64 (localLatestBlock known + 1) = s.nextBlock := by
      have hrequest := hresumes ⟨known, s, toU64 (localLatestBlock known + 1)⟩ (by simp [hsome])
      exact hrequest
    rw [hs, hstart]
    unfold streamFromPeer
    split
    · exact .refl s
    · next messages hpeer =>
      exact receiveBlocks_appends (horder _ _ hturn _ _ hpeer) fun y hy => lt_nextBlock hy

/-- All peers stream in order. -/
def PeersInOrder (cycles : List (List PeerVisit)) : Prop :=
  ∀ visits ∈ cycles, ∀ visit ∈ visits, ∀ turn ∈ visit.turns, ∀ last answer,
    turn = .status last answer → answer.InOrder

lemma composes_appends : Composes fun s l s' =>
    (∀ request ∈ l, StreamRequest.Resumes request) → Appends s s' where
  nil s _ := .refl s
  append := by
    intro s l s' l' s'' hfirst hrest h
    exact (hfirst fun r hr => h r (List.mem_append_left _ hr)).trans
      (hrest fun r hr => h r (List.mem_append_right _ hr))

lemma loop_appends {cycles : List (List PeerVisit)} (horder : PeersInOrder cycles)
    (h : ∀ request ∈ (runContinuousLoop cfg codec cycles s).requests, request.Resumes) :
    Appends s (runContinuousLoop cfg codec cycles s).store := by
  refine composes_appends.loop (fun s visits hvisits visit hvisit => ?_) s h
  exact composes_appends.visitPeer (fun s turn hturn hresumes =>
    takeTurn_appends (horder visits hvisits visit hvisit turn hturn) hresumes) 0 s

/-- **Continuous backfill resumes where it stopped**, when at the start of each visit to a peer the
worker gets to know the greatest block written and no stream brings a new one before the last
request of the visit: every request asks for the number after the latest block, and peers that
stream in order bring no block twice. -/
theorem continuousBackfill_resumes (cfg : Config) (codec : Codec) (blocks : List Block)
    (cycles : List (List PeerVisit))
    (hvisits : ∀ v ∈ loopVisits cfg codec cycles ((Store.init cfg).writes cfg codec blocks),
      v.1.Informed v.2 ∧ NewLast v.2.greatest v.1.turns) :
    let s := (Store.init cfg).writes cfg codec blocks
    let progress := runContinuousLoop cfg codec cycles s
    (∀ request ∈ progress.requests, request.Resumes) ∧
      (PeersInOrder cycles → Appends s progress.store) := by
  intro s progress
  have hinit : LatestInRange (Store.init cfg) := by
    intro l hl
    cases (Store.init_metadata cfg _).symm.trans hl
  have hresumes : ∀ request ∈ progress.requests, request.Resumes := by
    intro request hmem
    obtain ⟨⟨visit, start⟩, hv, hrequest⟩ := mem_loop_requests hmem
    obtain ⟨⟨hreads, honRecord, hroom⟩, hlast⟩ := hvisits _ hv
    have hknown : visit.known start = start.greatest := by
      rw [PeerVisit.known, show visit.readFails = false from hreads]
      exact honRecord
    rw [hknown] at hrequest
    obtain ⟨h1, h2⟩ := visitPeer_newLast hlast 0 request hrequest
    exact (loop_goesBy cfg codec (hinit.writes blocks) cycles request hmem).resumes
      (h1.trans h2.symm) (h2 ▸ hroom)
  exact ⟨hresumes, fun horder => loop_appends horder hresumes⟩

/-- A peer that answers a request from this number on, and no other. -/
def answersAt (n : ℕ) (messages : List PeerMessage) : StreamAnswer :=
  .answers fun start _ => if start = n then some messages else none

lemma answersAt_inOrder {n : ℕ} {messages : List PeerMessage} (h : BlocksFrom n messages) :
    (answersAt n messages).InOrder := by
  intro start messages' hmessages
  beta_reduce at hmessages
  split at hmessages
  · next hstart =>
    cases hmessages
    rwa [hstart]
  · cases hmessages

/-- A block in a stream. -/
def streamed (n : UInt64) : PeerMessage := .message (some (.blockItems (headerBlock n []).items))

/-- A peer with blocks 2 and 3, whose first stream breaks after block 2. -/
def resumedPeer : List PeerVisit :=
  [⟨false, [.status 3 (answersAt 2 [streamed 2, .error]), .noStatus]⟩,
    ⟨false, [.status 3 (answersAt 3 [streamed 3])]⟩]

lemma resumedPeer_inOrder : PeersInOrder [resumedPeer] := by
  intro visits hvisits visit hvisit turn hturn last answer heq
  obtain rfl := List.mem_singleton.mp hvisits
  subst heq
  simp only [resumedPeer, List.mem_cons, List.not_mem_nil, or_false] at hvisit
  rcases hvisit with rfl | rfl
  · obtain ⟨-, rfl⟩ : last = 3 ∧ answer = answersAt 2 [streamed 2, .error] := by simpa using hturn
    exact answersAt_inOrder ⟨1, rfl⟩
  · obtain ⟨-, rfl⟩ : last = 3 ∧ answer = answersAt 3 [streamed 3] := by simpa using hturn
    exact answersAt_inOrder ⟨1, rfl⟩

/-- The second request asks for block 3. -/
theorem continuousBackfill_resumes_three :
    let s := (Store.init firstConfig).writes firstConfig plainCodec [headerBlock 1 []]
    let progress := runContinuousLoop firstConfig plainCodec [resumedPeer] s
    progress.requests.map StreamRequest.start = [2, 3] ∧
      (∀ request ∈ progress.requests, request.Resumes) ∧ Appends s progress.store := by
  obtain ⟨hresumes, happends⟩ := continuousBackfill_resumes firstConfig plainCodec
    [headerBlock 1 []] [resumedPeer] (by decide +kernel)
  exact ⟨by decide +kernel, hresumes, happends resumedPeer_inOrder⟩

/-- A peer whose stream breaks after blocks 0 and 1. -/
def breakingPeer : PeerTurn := .status 1 (answersAt 0 [streamed 0, streamed 1, .error])

/-- The worker asks again, for the blocks that it has just been given. -/
theorem continuousBackfill_not_resumes : ¬ ∀ (cfg : Config) (codec : Codec) (blocks : List Block)
    (cycles : List (List PeerVisit)), PeersInOrder cycles →
    let s := (Store.init cfg).writes cfg codec blocks
    let progress := runContinuousLoop cfg codec cycles s
    (∀ request ∈ progress.requests, request.Resumes) ∧ Appends s progress.store := by
  intro h
  have horder : PeersInOrder [[⟨false, [breakingPeer, breakingPeer]⟩]] := by
    intro visits hvisits visit hvisit turn hturn last answer heq
    obtain rfl := List.mem_singleton.mp hvisits
    obtain rfl := List.mem_singleton.mp hvisit
    have hbreaking : turn = breakingPeer := by simpa using hturn
    cases hbreaking.symm.trans heq
    exact answersAt_inOrder ⟨2, rfl⟩
  have hresumes := (h firstConfig plainCodec [] _ horder).1
  have hstale : ∃ request ∈ (runContinuousLoop firstConfig plainCodec
      [[⟨false, [breakingPeer, breakingPeer]⟩]] (Store.init firstConfig)).requests,
      request.start ≠ request.store.nextBlock := by decide +kernel
  obtain ⟨request, hmem, hne⟩ := hstale
  exact hne (hresumes request hmem)

end RockNode
