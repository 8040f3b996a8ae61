import RockNode.ContinuousBackfill
import RockNode.GapFills
import RockNode.NodeServices

/-!
Backfill in its gap-fill mode: `run_single_gap_check` and the loop around it.

The gaps on record when the check begins are gone through one after the other. For each of them
the peers are asked in turn, a peer that fails up to four times, until a stream comes to its end
without an error. What the peers do is a parameter: a list of turns for each visit.
-/

namespace RockNode

open RangeTable

/-! ### The worker -/

/-- What the worker meets when it turns to a peer: `get_peer_status` fails, or has no status to
report, or has one; then a stream may be asked for. -/
inductive GapTurn where
  | noConnection
  | noStatus
  | status (response : ServerStatusResponse) (answer : StreamAnswer)

/-- A request for a stream: what the peer says that it has, and the range that is asked for. -/
structure GapRequest where
  status : ServerStatusResponse
  start : ℕ
  last : ℕ

/-- The store, the requests made so far, and how things stand. -/
structure GapProgress where
  store : Store
  requests : List GapRequest
  ending : TurnEnd

/-- Requests made before. -/
def GapProgress.after (requests : List GapRequest) (progress : GapProgress) : GapProgress :=
  { progress with requests := requests ++ progress.requests }

/-- One turn of the loop at a peer. -/
def takeGapTurn (cfg : Config) (codec : Codec) (start last : ℕ) (s : Store) :
    GapTurn → GapProgress
  | .noConnection => ⟨s, [], .failed⟩
  | .noStatus => ⟨s, [], .nextPeer⟩
  | .status response answer =>
    if response.firstAvailableBlock > start ∨ response.lastAvailableBlock < last then
      ⟨s, [], .nextPeer⟩
    else
      match answer with
      | .unreachable => ⟨s, [], .failed⟩
      | .answers peer =>
        let streamed := streamFromPeer cfg codec peer start last s
        ⟨streamed.1, [⟨response, start, last⟩], if streamed.2 then .ended else .failed⟩

/-- The loop at one peer, which goes on where the turns end. -/
def fillFromPeer (cfg : Config) (codec : Codec) (start last : ℕ) :
    ℕ → List GapTurn → Store → GapProgress
  | _, [], s => ⟨s, [], .again⟩
  | retries, turn :: turns, s =>
    let progress := takeGapTurn cfg codec start last s turn
    match progress.ending with
    | .failed =>
      if retries + 1 > peerRetryLimit then { progress with ending := .nextPeer }
      else (fillFromPeer cfg codec start last (retries + 1) turns progress.store).after
        progress.requests
    | _ => progress

/-- The loop over the peers; when none is left the gap is given up for this time. -/
def fillFromPeers (cfg : Config) (codec : Codec) (start last : ℕ) :
    List (List GapTurn) → Store → GapProgress
  | [], s => ⟨s, [], .nextPeer⟩
  | turns :: visits, s =>
    let progress := fillFromPeer cfg codec start last 0 turns s
    match progress.ending with
    | .nextPeer =>
      (fillFromPeers cfg codec start last visits progress.store).after progress.requests
    | _ => progress

/-- The loop over the gaps. The turns of the peers are given for each gap. -/
def fillGaps (cfg : Config) (codec : Codec) (visits : ℕ × ℕ → List (List GapTurn)) :
    List (ℕ × ℕ) → Store → GapProgress
  | [], s => ⟨s, [], .ended⟩
  | gap :: gaps, s =>
    let effectiveStart := max gap.1 cfg.startBlockNumber
    if effectiveStart > gap.2 then fillGaps cfg codec visits gaps s
    else
      let progress := fillFromPeers cfg codec effectiveStart gap.2 (visits gap) s
      match progress.ending with
      | .again => progress
      | _ => (fillGaps cfg codec visits gaps progress.store).after progress.requests

/-- `get_all_gaps`. -/
def getAllGaps (db : Db) : List (ℕ × ℕ) := db.gaps.entries

/-- One check: whether the table can be read, and what the peers do. -/
structure GapCheck where
  readFails : Bool
  visits : ℕ × ℕ → List (List GapTurn)

def runSingleGapCheck (cfg : Config) (codec : Codec) (check : GapCheck) (s : Store) :
    GapProgress :=
  if check.readFails then ⟨s, [], .ended⟩
  else fillGaps cfg codec check.visits (getAllGaps s.db) s

/-- `run_gap_fill_loop`: one check after the other. -/
def runGapFillLoop (cfg : Config) (codec : Codec) : List GapCheck → Store → GapProgress
  | [], s => ⟨s, [], .ended⟩
  | check :: checks, s =>
    let progress := runSingleGapCheck cfg codec check s
    match progress.ending with
    | .ended => (runGapFillLoop cfg codec checks progress.store).after progress.requests
    | _ => progress

/-! ### A rule for the loops -/

variable {cfg : Config} {codec : Codec} {s : Store} {start last : ℕ}

/-- What is kept as long as no stream has come to its end, what holds when one has, and what holds
of every request. -/
structure GapProgress.Keeps (I D : Store → Prop) (Q : GapRequest → Prop) (progress : GapProgress) :
    Prop where
  store : progress.ending ≠ .ended → I progress.store
  ended : progress.ending = .ended → D progress.store
  requests : ∀ request ∈ progress.requests, Q request

variable {I D : Store → Prop} {Q : GapRequest → Prop}

lemma GapProgress.Keeps.after {progress : GapProgress} (h : progress.Keeps I D Q)
    {requests : List GapRequest} (hrequests : ∀ request ∈ requests, Q request) :
    (progress.after requests).Keeps I D Q :=
  ⟨h.store, h.ended, fun request hmem =>
    (List.mem_append.mp hmem).elim (hrequests request) (h.requests request)⟩

/-- What every turn keeps, a visit keeps. -/
lemma fillFromPeer_keeps {turns : List GapTurn}
    (hturn : ∀ s, ∀ turn ∈ turns, I s → (takeGapTurn cfg codec start last s turn).Keeps I D Q)
    (retries : ℕ) (hs : I s) :
    (fillFromPeer cfg codec start last retries turns s).Keeps I D Q := by
  induction turns generalizing retries s with
  | nil => exact ⟨fun _ => hs, fun h => (by cases h), by simp [fillFromPeer]⟩
  | cons turn turns ih =>
    have hfirst := hturn s turn List.mem_cons_self hs
    simp only [fillFromPeer]
    split
    · next hfailed =>
      have hkept := hfirst.store (by rw [hfailed]; exact TurnEnd.noConfusion)
      split
      · exact ⟨fun _ => hkept, fun h => (by cases h), hfirst.requests⟩
      · exact (ih (fun s turn hmem => hturn s turn (List.mem_cons_of_mem _ hmem)) _ hkept).after
          hfirst.requests
    · exact hfirst

/-- What every visit keeps, the search for a peer keeps. -/
lemma fillFromPeers_keeps {visits : List (List GapTurn)}
    (hturn : ∀ turns ∈ visits, ∀ s, ∀ turn ∈ turns, I s →
      (takeGapTurn cfg codec start last s turn).Keeps I D Q) (hs : I s) :
    (fillFromPeers cfg codec start last visits s).Keeps I D Q := by
  induction visits generalizing s with
  | nil => exact ⟨fun _ => hs, fun h => (by cases h), by simp [fillFromPeers]⟩
  | cons turns visits ih =>
    have hfirst := fillFromPeer_keeps (hturn turns List.mem_cons_self) 0 hs
    simp only [fillFromPeers]
    split
    · next hnext =>
      have hkept := hfirst.store (by rw [hnext]; exact TurnEnd.noConfusion)
      exact (ih (fun turns hmem => hturn turns (List.mem_cons_of_mem _ hmem)) hkept).after
        hfirst.requests
    · exact hfirst

/-- What every turn keeps, a check keeps. -/
lemma runSingleGapCheck_keeps {check : GapCheck}
    (hturn : ∀ gap ∈ getAllGaps s.db, ∀ turns ∈ check.visits gap, ∀ s, ∀ turn ∈ turns, I s →
      (takeGapTurn cfg codec (max gap.1 cfg.startBlockNumber) gap.2 s turn).Keeps I I Q)
    (hs : I s) : I (runSingleGapCheck cfg codec check s).store := by
  unfold runSingleGapCheck
  split
  · exact hs
  · generalize getAllGaps s.db = gaps at hturn
    induction gaps generalizing s with
    | nil => exact hs
    | cons gap gaps ih =>
      have hrest := fun gap hmem => hturn gap (List.mem_cons_of_mem _ hmem)
      have hfirst := fillFromPeers_keeps (hturn gap List.mem_cons_self) hs
      have hkept : I (fillFromPeers cfg codec (max gap.1 cfg.startBlockNumber) gap.2
          (check.visits gap) s).store := by
        by_cases hended : (fillFromPeers cfg codec (max gap.1 cfg.startBlockNumber) gap.2
          (check.visits gap) s).ending = .ended
        · exact hfirst.ended hended
        · exact hfirst.store hended
      simp only [fillGaps]
      split
      · exact ih hs hrest
      · split
        · exact hkept
        · exact ih hkept hrest

/-! ### What is asked for -/

/-- A turn that comes to a request has found a peer with the range. -/
lemma takeGapTurn_requests (turn : GapTurn) :
    ∀ request ∈ (takeGapTurn cfg codec start last s turn).requests,
      request.start = start ∧ request.last = last ∧
        request.status.firstAvailableBlock ≤ start ∧ last ≤ request.status.lastAvailableBlock := by
  intro request hmem
  rcases turn with _ | _ | ⟨response, answer⟩
  · cases hmem
  · cases hmem
  · simp only [takeGapTurn] at hmem
    split at hmem
    · cases hmem
    · next hrange =>
      rcases answer with _ | peer
      · cases hmem
      · obtain rfl := List.mem_singleton.mp hmem
        exact ⟨rfl, rfl, not_lt.mp fun hlt => hrange (Or.inl hlt),
          not_lt.mp fun hlt => hrange (Or.inr hlt)⟩

/-- The request is for a gap of the list, from the start block on, at a peer that has it. -/
structure GapRequest.InGap (cfg : Config) (gaps : List (ℕ × ℕ)) (request : GapRequest) : Prop where
  recorded : ∃ gap ∈ gaps, request.start = max gap.1 cfg.startBlockNumber ∧ request.last = gap.2
  nonempty : request.start ≤ request.last
  first : request.status.firstAvailableBlock ≤ request.start
  last : request.last ≤ request.status.lastAvailableBlock

lemma fillGaps_requests {visits : ℕ × ℕ → List (List GapTurn)} (gaps : List (ℕ × ℕ)) (s : Store) :
    ∀ request ∈ (fillGaps cfg codec visits gaps s).requests, request.InGap cfg gaps := by
  induction gaps generalizing s with
  | nil =>
    intro request hmem
    cases hmem
  | cons gap gaps ih =>
    have hlater : ∀ s, ∀ request ∈ (fillGaps cfg codec visits gaps s).requests,
        request.InGap cfg (gap :: gaps) := fun s request hmem => by
      have h := ih s request hmem
      obtain ⟨other, hother, hrange⟩ := h.recorded
      exact ⟨⟨other, List.mem_cons_of_mem _ hother, hrange⟩, h.nonempty, h.first, h.last⟩
    simp only [fillGaps]
    split
    · exact hlater s
    · next hle =>
      have hturn : ∀ s turn, (takeGapTurn cfg codec (max gap.1 cfg.startBlockNumber) gap.2 s
          turn).Keeps (fun _ => True) (fun _ => True) (GapRequest.InGap cfg (gap :: gaps)) := by
        refine fun s turn => ⟨fun _ => trivial, fun _ => trivial, fun request hmem => ?_⟩
        obtain ⟨hstart, hlast, hfirst, hend⟩ := takeGapTurn_requests turn request hmem
        exact ⟨⟨gap, List.mem_cons_self, hstart, hlast⟩, by omega, by omega, by omega⟩
      have hfirst := (fillFromPeers_keeps (s := s)
        (fun turns (_ : turns ∈ visits gap) s turn _ _ => hturn s turn) trivial).requests
      split
      · exact hfirst
      · intro request hmem
        rcases List.mem_append.mp hmem with hmem | hmem
        · exact hfirst request hmem
        · exact hlater _ request hmem

/-- A peer is asked for one gap at most `PEER_RETRY_LIMIT + 1` times. -/
lemma fillFromPeer_length (turns : List GapTurn) {retries : ℕ} (hretries : retries ≤ peerRetryLimit)
    (s : Store) : (fillFromPeer cfg codec start last retries turns s).requests.length + retries ≤
      peerRetryLimit + 1 := by
  have hone : ∀ s turn, (takeGapTurn cfg codec start last s turn).requests.length ≤ 1 := by
    intro s turn
    rcases turn with _ | _ | ⟨response, answer⟩
    · exact Nat.zero_le _
    · exact Nat.zero_le _
    · simp only [takeGapTurn]
      split
      · exact Nat.zero_le _
      · rcases answer with _ | peer
        · exact Nat.zero_le _
        · exact le_rfl
  induction turns generalizing retries s with
  | nil =>
    simp only [fillFromPeer, List.length_nil]
    omega
  | cons turn turns ih =>
    have hfirst := hone s turn
    simp only [fillFromPeer]
    split
    · split
      · simp only
        omega
      · next hmore =>
        have hrest := ih (show retries + 1 ≤ peerRetryLimit by omega)
          (takeGapTurn cfg codec start last s turn).store
        simp only [GapProgress.after, List.length_append]
        omega
    · omega

/-- The requests for one gap: those of one visit after the other, to the peers in the order in which
they are met, with at most `PEER_RETRY_LIMIT + 1` requests in a visit. -/
def ByVisits (cfg : Config) (codec : Codec) (start last : ℕ) (visits : List (List GapTurn))
    (requests : List GapRequest) : Prop :=
  ∃ made : List (List GapRequest), requests = made.flatten ∧
    List.Forall₂ (fun turns visit =>
      ∃ s, visit = (fillFromPeer cfg codec start last 0 turns s).requests)
      (visits.take made.length) made ∧
    ∀ visit ∈ made, visit.length ≤ peerRetryLimit + 1

lemma fillFromPeers_byVisits (visits : List (List GapTurn)) (s : Store) :
    ByVisits cfg codec start last visits
      (fillFromPeers cfg codec start last visits s).requests := by
  induction visits generalizing s with
  | nil => exact ⟨[], rfl, .nil, by simp⟩
  | cons turns visits ih =>
    have hfirst : (fillFromPeer cfg codec start last 0 turns s).requests.length ≤
        peerRetryLimit + 1 := fillFromPeer_length turns (Nat.zero_le _) s
    simp only [fillFromPeers]
    split
    · obtain ⟨made, hmade, hvisits, hlength⟩ :=
        ih (fillFromPeer cfg codec start last 0 turns s).store
      refine ⟨(fillFromPeer cfg codec start last 0 turns s).requests :: made, ?_,
        .cons ⟨s, rfl⟩ hvisits, List.forall_mem_cons.mpr ⟨hfirst, hlength⟩⟩
      rw [List.flatten_cons, ← hmade]
      rfl
    · exact ⟨[(fillFromPeer cfg codec start last 0 turns s).requests], by simp,
        .cons ⟨s, rfl⟩ .nil, by simpa using hfirst⟩

/-- The requests of a check, gap by gap. -/
lemma fillGaps_byVisits (visits : ℕ × ℕ → List (List GapTurn)) (gaps : List (ℕ × ℕ)) (s : Store) :
    ∃ parts, (fillGaps cfg codec visits gaps s).requests = parts.flatten ∧
      List.Forall₂ (fun gap => ByVisits cfg codec (max gap.1 cfg.startBlockNumber) gap.2
        (visits gap)) gaps parts := by
  -- a gap for which nothing is asked
  have hnone : ∀ gap : ℕ × ℕ, ByVisits cfg codec (max gap.1 cfg.startBlockNumber) gap.2
      (visits gap) [] := fun gap => ⟨[], rfl, .nil, by simp⟩
  induction gaps generalizing s with
  | nil => exact ⟨[], rfl, .nil⟩
  | cons gap gaps ih =>
    simp only [fillGaps]
    split
    · obtain ⟨parts, hparts, hgaps⟩ := ih s
      exact ⟨[] :: parts, hparts, .cons (hnone gap) hgaps⟩
    · split
      · refine ⟨(fillFromPeers cfg codec (max gap.1 cfg.startBlockNumber) gap.2 (visits gap)
          s).requests :: gaps.map fun _ => [], by simp, .cons (fillFromPeers_byVisits _ _) ?_⟩
        rw [List.forall₂_map_right_iff]
        exact List.forall₂_same.mpr fun gap _ => hnone gap
      · obtain ⟨parts, hparts, hgaps⟩ := ih (fillFromPeers cfg codec (max gap.1
          cfg.startBlockNumber) gap.2 (visits gap) s).store
        refine ⟨(fillFromPeers cfg codec (max gap.1 cfg.startBlockNumber) gap.2 (visits gap)
          s).requests :: parts, ?_, .cons (fillFromPeers_byVisits _ _) hgaps⟩
        rw [List.flatten_cons, ← hparts]
        rfl

lemma ByVisits.length_le {visits : List (List GapTurn)} {requests : List GapRequest}
    (h : ByVisits cfg codec start last visits requests) :
    requests.length ≤ visits.length * (peerRetryLimit + 1) := by
  obtain ⟨made, rfl, hvisits, hlength⟩ := h
  have hmade : made.length ≤ visits.length := by
    rw [← hvisits.length_eq, List.length_take]
    exact min_le_right _ _
  have hsum := List.sum_le_card_nsmul (made.map List.length) (peerRetryLimit + 1)
    (by simpa using hlength)
  rw [List.length_map, smul_eq_mul] at hsum
  rw [List.length_flatten]
  exact hsum.trans (Nat.mul_le_mul_right _ hmade)

/-- How many requests there are in all. -/
lemma fillGaps_length {visits : ℕ × ℕ → List (List GapTurn)} {peers : ℕ}
    (hpeers : ∀ gap, (visits gap).length ≤ peers) {gaps : List (ℕ × ℕ)}
    {parts : List (List GapRequest)}
    (h : List.Forall₂ (fun gap => ByVisits cfg codec (max gap.1 cfg.startBlockNumber) gap.2
      (visits gap)) gaps parts) :
    parts.flatten.length ≤ gaps.length * (peers * (peerRetryLimit + 1)) := by
  induction h with
  | nil => exact Nat.zero_le _
  | @cons gap part gaps parts hpart _ ih =>
    have hle := hpart.length_le.trans (Nat.mul_le_mul_right (peerRetryLimit + 1) (hpeers gap))
    rw [List.flatten_cons, List.length_append, List.length_cons, Nat.succ_mul]
    omega

/-! ### Every check comes to its end -/

lemma takeGapTurn_ending (s : Store) (turn : GapTurn) :
    (takeGapTurn cfg codec start last s turn).ending = .failed ∨
      (takeGapTurn cfg codec start last s turn).ending = .nextPeer ∨
      (takeGapTurn cfg codec start last s turn).ending = .ended := by
  rcases turn with _ | _ | ⟨response, answer⟩
  · exact Or.inl rfl
  · exact Or.inr (Or.inl rfl)
  · simp only [takeGapTurn]
    split
    · exact Or.inr (Or.inl rfl)
    · rcases answer with _ | peer
      · exact Or.inl rfl
      · simp only
        split
        · exact Or.inr (Or.inr rfl)
        · exact Or.inl rfl

/-- A visit is over after `PEER_RETRY_LIMIT + 1` turns at the latest. -/
lemma fillFromPeer_ends (turns : List GapTurn) {retries : ℕ}
    (hturns : peerRetryLimit < turns.length + retries) (hretries : retries ≤ peerRetryLimit)
    (s : Store) : (fillFromPeer cfg codec start last retries turns s).ending = .nextPeer ∨
      (fillFromPeer cfg codec start last retries turns s).ending = .ended := by
  induction turns generalizing retries s with
  | nil =>
    simp only [List.length_nil] at hturns
    omega
  | cons turn turns ih =>
    simp only [fillFromPeer]
    split
    · split
      · exact Or.inl rfl
      · exact ih (by rw [List.length_cons] at hturns; omega) (by omega) _
    · next hfailed => exact (takeGapTurn_ending s turn).resolve_left hfailed

lemma fillFromPeers_ends {visits : List (List GapTurn)}
    (hturns : ∀ turns ∈ visits, peerRetryLimit < turns.length) (s : Store) :
    (fillFromPeers cfg codec start last visits s).ending ≠ .again := by
  induction visits generalizing s with
  | nil => exact TurnEnd.noConfusion
  | cons turns visits ih =>
    simp only [fillFromPeers]
    split
    · exact ih (fun turns hmem => hturns turns (List.mem_cons_of_mem _ hmem)) _
    · next hnext =>
      have hended := (fillFromPeer_ends turns (hturns turns List.mem_cons_self) (Nat.zero_le _)
        s).resolve_left hnext
      rw [hended]
      exact TurnEnd.noConfusion

lemma fillGaps_ends {visits : ℕ × ℕ → List (List GapTurn)}
    (hturns : ∀ gap, ∀ turns ∈ visits gap, peerRetryLimit < turns.length) (gaps : List (ℕ × ℕ))
    (s : Store) : (fillGaps cfg codec visits gaps s).ending = .ended := by
  induction gaps generalizing s with
  | nil => rfl
  | cons gap gaps ih =>
    simp only [fillGaps]
    split
    · exact ih s
    · split
      · next hagain => exact absurd hagain (fillFromPeers_ends (hturns gap) s)
      · exact ih _

/-! ### A check on a store that has been written to -/

/-- A recorded gap lies above the seed, so it begins at the start block at the earliest. -/
lemma Store.Good.start_le (hg : s.Good cfg) {a b : ℕ} (h : s.db.gaps.get a = some b) :
    cfg.startBlockNumber ≤ a := by
  have hlow : cfg.seed < a := hg.ok.low ⟨a, b, h, le_rfl, hg.canonical.nonempty h⟩
  unfold Config.seed at hlow
  omega

/-- **What a gap check asks for.** At every node that can be reached, and whatever the peers do:
each request is for a whole recorded gap, at or above the start block, and goes to a peer whose
status covers it. The check is over once each peer has been met often enough. Its requests are those
of the visits that it makes for one gap after the other, each peer being visited at most once for a
gap and asked at most `PEER_RETRY_LIMIT + 1` times in a visit. -/
theorem gapCheck_requests (codec : Codec) {node : Node} {ops : List Operation}
    (hrun : run (Node.operate cfg codec) (Node.init cfg) ops = some node) (check : GapCheck)
    (peers : ℕ) (hpeers : ∀ gap, (check.visits gap).length ≤ peers)
    (hturns : ∀ gap, ∀ turns ∈ check.visits gap, peerRetryLimit < turns.length) :
    let progress := runSingleGapCheck cfg codec check node.store
    (∀ request ∈ progress.requests, node.store.db.gaps.get request.start = some request.last ∧
      cfg.startBlockNumber ≤ request.start ∧ request.start ≤ request.last ∧
      request.status.firstAvailableBlock ≤ request.start ∧
      request.last ≤ request.status.lastAvailableBlock) ∧
    progress.requests.length ≤
      (getAllGaps node.store.db).length * (peers * (peerRetryLimit + 1)) ∧
    progress.ending = .ended ∧
    ∃ parts, progress.requests = parts.flatten ∧
      List.Forall₂ (fun gap => ByVisits cfg codec gap.1 gap.2 (check.visits gap))
        (getAllGaps node.store.db) parts := by
  intro progress
  have hg : node.store.Good cfg := (run_good hrun).store
  have hstart : ∀ gap ∈ getAllGaps node.store.db, max gap.1 cfg.startBlockNumber = gap.1 :=
    fun gap hgap => max_eq_left (hg.start_le (SortedMap.get_eq_some.mpr hgap))
  simp only [progress, runSingleGapCheck]
  split
  · refine ⟨by simp, Nat.zero_le _, rfl, (getAllGaps node.store.db).map fun _ => [], by simp, ?_⟩
    rw [List.forall₂_map_right_iff]
    exact List.forall₂_same.mpr fun gap _ => ⟨[], rfl, .nil, by simp⟩
  · obtain ⟨parts, hparts, hgaps⟩ :=
      fillGaps_byVisits check.visits (getAllGaps node.store.db) node.store
    refine ⟨fun request hmem => ?_, ?_, fillGaps_ends hturns _ _, parts, hparts, ?_⟩
    · have hin := fillGaps_requests (getAllGaps node.store.db) node.store request hmem
      obtain ⟨gap, hgap, hfirst, hlast⟩ := hin.recorded
      have hget : node.store.db.gaps.get gap.1 = some gap.2 := SortedMap.get_eq_some.mpr hgap
      rw [hstart gap hgap] at hfirst
      exact ⟨by rw [hfirst, hlast, hget], by rw [hfirst]; exact hg.start_le hget, hin.nonempty,
        hin.first, hin.last⟩
    · rw [hparts]
      exact fillGaps_length hpeers hgaps
    · refine List.forall₂_iff_zip.mpr ⟨hgaps.length_eq, fun {gap part} hmem => ?_⟩
      have hpart := (List.forall₂_iff_zip.mp hgaps).2 hmem
      rwa [hstart gap (List.of_mem_zip hmem).1] at hpart

/-- A peer that has the first ten blocks and sends what it is asked for. -/
def rangePeer (start last : ℕ) : Option (List PeerMessage) :=
  some ((List.range' start (last + 1 - start)).map fun n =>
    .message (some (.blockItems (plainBlock n).items)))

def rangeCheck : GapCheck :=
  ⟨false, fun _ => [List.replicate 4 (.status ⟨0, 9, false⟩ (.answers rangePeer))]⟩

/-- Blocks 1 and 4 are there. -/
def gappedStore : Store :=
  ((Store.init firstConfig).write firstConfig plainCodec (plainBlock 1)).write firstConfig
    plainCodec (plainBlock 4)

def gappedNode : Node := { Node.init firstConfig with store := gappedStore }

lemma run_gappedNode : run (Node.operate firstConfig plainCodec) (Node.init firstConfig)
    [.write (plainBlock 1), .write (plainBlock 4)] = some gappedNode := rfl

theorem gapCheck_requests_pair :
    (runSingleGapCheck firstConfig plainCodec rangeCheck gappedStore).requests.map
      (fun request => (request.start, request.last)) = [(2, 3)] ∧
    (runSingleGapCheck firstConfig plainCodec rangeCheck gappedStore).requests.length ≤
      (getAllGaps gappedStore.db).length * (1 * (peerRetryLimit + 1)) :=
  ⟨by decide +kernel, (gapCheck_requests plainCodec run_gappedNode rangeCheck 1 (fun _ => le_rfl)
    fun _ turns hmem => by rw [List.mem_singleton.mp hmem]; decide).2.1⟩

end RockNode
