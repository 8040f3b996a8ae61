import RockNode.Replication

/-!
`stream_blocks_from_peers`: a stream of blocks for other programs.

The call goes through the peers in up to five rounds, and turns to a peer that fails up to four
times. What it returns is fed by a task, which takes the messages of the peer and passes the blocks
on through a channel of 128 places. What each try meets is a parameter.
-/

namespace RockNode

/-! ### The call -/

def maxPeerConnectionAttempts : ℕ := 5

/-- What a try meets: there is no connection, or `server_status` fails; or there is a status, and
then a stream may be asked for. -/
inductive Meeting where
  | noStatus
  | status (lastAvailableBlock : ℕ) (answer : StreamAnswer)

inductive TryResult where
  | stream (messages : List PeerMessage)
  /-- the peer does not have the range -/
  | behind
  | failed

/-- `try_connect_and_stream`. -/
def tryConnectAndStream (startOpt lastOpt : Option ℕ) : Meeting → TryResult
  | .noStatus => .failed
  | .status peerLatest answer =>
    let start := startOpt.getD peerLatest
    let last := lastOpt.getD u64Max
    if start > last then .failed
    else if start > peerLatest ∧ last ≠ u64Max then .behind
    else
      match answer with
      | .unreachable => .failed
      | .answers peer =>
        match peer start last with
        | none => .failed
        | some messages => .stream messages

/-- The stream, if there is one, and the number of tries made. -/
structure Tries where
  stream : Option (List PeerMessage)
  tries : ℕ

namespace Tries

/-- Tries made before. -/
def after (k : ℕ) (result : Tries) : Tries := { result with tries := k + result.tries }

/-- The loops leave with the first stream. -/
def orElse (result rest : Tries) : Tries :=
  match result.stream with
  | some _ => result
  | none => rest.after result.tries

lemma orElse_eq_some {result rest : Tries} {messages : List PeerMessage}
    (h : (result.orElse rest).stream = some messages) :
    result.stream = some messages ∨ rest.stream = some messages := by
  unfold orElse at h
  split at h
  · exact Or.inl h
  · exact Or.inr h

lemma orElse_ne_none {result rest : Tries} :
    (result.orElse rest).stream ≠ none ↔ result.stream ≠ none ∨ rest.stream ≠ none := by
  unfold orElse
  split
  · next hstream => simp [hstream]
  · next hstream => simp [hstream, after]

end Tries

section Call

variable (startOpt lastOpt : Option ℕ)

/-- The loop at one peer with so many retries left. -/
def tryPeer (meet : ℕ → Meeting) : ℕ → Tries
  | 0 =>
    match tryConnectAndStream startOpt lastOpt (meet peerRetryLimit) with
    | .stream messages => ⟨some messages, 1⟩
    | .behind | .failed => ⟨none, 1⟩
  | left + 1 =>
    match tryConnectAndStream startOpt lastOpt (meet (peerRetryLimit - (left + 1))) with
    | .stream messages => ⟨some messages, 1⟩
    | .behind => ⟨none, 1⟩
    | .failed => (tryPeer meet left).after 1

/-- One round through the peers. -/
def tryPeers : List (ℕ → Meeting) → Tries
  | [] => ⟨none, 0⟩
  | meet :: peers => (tryPeer startOpt lastOpt meet peerRetryLimit).orElse (tryPeers peers)

/-- The rounds, with so many left after the first; the peers stand in the order of each round. -/
def tryRounds (peers : ℕ → List (ℕ → Meeting)) : ℕ → Tries
  | 0 => tryPeers startOpt lastOpt (peers (maxPeerConnectionAttempts - 1))
  | left + 1 =>
    (tryPeers startOpt lastOpt (peers (maxPeerConnectionAttempts - 1 - (left + 1)))).orElse
      (tryRounds peers left)

def connectToPeers (peers : ℕ → List (ℕ → Meeting)) : Tries :=
  tryRounds startOpt lastOpt peers (maxPeerConnectionAttempts - 1)

def streamBlocksFromPeers (peers : ℕ → List (ℕ → Meeting)) : Except String (List PeerMessage) :=
  match (connectToPeers startOpt lastOpt peers).stream with
  | some messages => .ok messages
  | none => .error s!"Failed to connect to any peer after {maxPeerConnectionAttempts} attempts."

end Call

variable {startOpt lastOpt : Option ℕ} {meet : ℕ → Meeting} {round : List (ℕ → Meeting)}
  {peers : ℕ → List (ℕ → Meeting)} {left : ℕ}

/-- The peer gives a stream at one of its tries from `first` on, and fails until then. -/
def Connects (startOpt lastOpt : Option ℕ) (meet : ℕ → Meeting) (first : ℕ) : Prop :=
  ∃ j, first ≤ j ∧ j ≤ peerRetryLimit ∧
    (∀ i, first ≤ i → i < j → tryConnectAndStream startOpt lastOpt (meet i) = .failed) ∧
    ∃ messages, tryConnectAndStream startOpt lastOpt (meet j) = .stream messages

lemma connects_iff (startOpt lastOpt : Option ℕ) (meet : ℕ → Meeting) {first : ℕ}
    (hle : first ≤ peerRetryLimit) : Connects startOpt lastOpt meet first ↔
      match tryConnectAndStream startOpt lastOpt (meet first) with
      | .stream _ => True
      | .behind => False
      | .failed => Connects startOpt lastOpt meet (first + 1) := by
  rcases htry : tryConnectAndStream startOpt lastOpt (meet first) with messages | _ | _
  · exact iff_of_true ⟨first, le_rfl, hle, fun i hi hlt => absurd hlt (not_lt.mpr hi), messages,
      htry⟩ trivial
  · refine iff_of_false ?_ id
    rintro ⟨j, hj, -, hfailed, messages, hstream⟩
    rcases Nat.eq_or_lt_of_le hj with rfl | hlt
    · cases htry.symm.trans hstream
    · cases htry.symm.trans (hfailed first le_rfl hlt)
  · constructor
    · rintro ⟨j, hj, hjle, hfailed, messages, hstream⟩
      rcases Nat.eq_or_lt_of_le hj with rfl | hlt
      · cases htry.symm.trans hstream
      · exact ⟨j, hlt, hjle, fun i hi => hfailed i (Nat.le_of_succ_le hi), messages, hstream⟩
    · rintro ⟨j, hj, hjle, hfailed, hstream⟩
      refine ⟨j, Nat.le_of_succ_le hj, hjle, fun i hi hlt => ?_, hstream⟩
      rcases Nat.eq_or_lt_of_le hi with rfl | hlt'
      · exact htry
      · exact hfailed i hlt' hlt

lemma tryPeer_stream (hleft : left ≤ peerRetryLimit) :
    (tryPeer startOpt lastOpt meet left).stream ≠ none ↔
      Connects startOpt lastOpt meet (peerRetryLimit - left) := by
  induction left with
  | zero =>
    rw [connects_iff _ _ _ (Nat.sub_le _ _)]
    simp only [tryPeer, Nat.sub_zero]
    split
    · simp
    · simp
    · next htry =>
      refine iff_of_false (by simp) ?_
      rintro ⟨j, hj, hle, -⟩
      omega
  | succ left ih =>
    have hnext : peerRetryLimit - (left + 1) + 1 = peerRetryLimit - left := by omega
    rw [connects_iff _ _ _ (Nat.sub_le _ _), hnext]
    simp only [tryPeer]
    split
    · simp
    · simp
    · exact ih (by omega)

lemma tryPeers_stream : (tryPeers startOpt lastOpt round).stream ≠ none ↔
    ∃ meet ∈ round, Connects startOpt lastOpt meet 0 := by
  induction round with
  | nil => simp [tryPeers]
  | cons meet round ih =>
    rw [tryPeers, Tries.orElse_ne_none, ih, tryPeer_stream le_rfl, Nat.sub_self,
      List.exists_mem_cons_iff]

lemma tryRounds_stream (hleft : left < maxPeerConnectionAttempts) :
    (tryRounds startOpt lastOpt peers left).stream ≠ none ↔
      ∃ r, maxPeerConnectionAttempts - 1 - left ≤ r ∧ r < maxPeerConnectionAttempts ∧
        ∃ meet ∈ peers r, Connects startOpt lastOpt meet 0 := by
  induction left with
  | zero =>
    rw [tryRounds, tryPeers_stream, Nat.sub_zero]
    constructor
    · rintro ⟨meet, hmeet⟩
      exact ⟨maxPeerConnectionAttempts - 1, le_rfl, by decide, meet, hmeet⟩
    · rintro ⟨r, hr, hlt, hmeet⟩
      obtain rfl : r = maxPeerConnectionAttempts - 1 := by omega
      exact hmeet
  | succ left ih =>
    rw [tryRounds, Tries.orElse_ne_none, tryPeers_stream, ih (by omega)]
    constructor
    · rintro (⟨meet, hmeet⟩ | ⟨r, hr, hlt, hmeet⟩)
      · exact ⟨_, le_rfl, by omega, meet, hmeet⟩
      · exact ⟨r, by omega, hlt, hmeet⟩
    · rintro ⟨r, hr, hlt, hmeet⟩
      rcases Nat.eq_or_lt_of_le hr with rfl | hgt
      · exact Or.inl hmeet
      · exact Or.inr ⟨r, by omega, hlt, hmeet⟩

/-! ### How many tries -/

lemma tryPeer_tries : (tryPeer startOpt lastOpt meet left).tries ≤ left + 1 := by
  induction left with
  | zero =>
    simp only [tryPeer]
    split <;> exact le_rfl
  | succ left ih =>
    simp only [tryPeer]
    split
    · exact Nat.le_add_left _ _
    · exact Nat.le_add_left _ _
    · simp only [Tries.after]
      omega

/-- The tries of one visit to a peer, which is one round of the loop over the peers. -/
def visitTries (startOpt lastOpt : Option ℕ) (meet : ℕ → Meeting) : ℕ :=
  (tryPeer startOpt lastOpt meet peerRetryLimit).tries

/-- The tries of a round are those of the visits to the first so many peers. -/
lemma tryPeers_tries (startOpt lastOpt : Option ℕ) (round : List (ℕ → Meeting)) :
    ∃ k, (tryPeers startOpt lastOpt round).tries =
      ((round.take k).map (visitTries startOpt lastOpt)).sum := by
  induction round with
  | nil => exact ⟨0, rfl⟩
  | cons meet round ih =>
    obtain ⟨k, hk⟩ := ih
    simp only [tryPeers, Tries.orElse]
    split
    · exact ⟨1, by simp [visitTries]⟩
    · refine ⟨k + 1, ?_⟩
      simp only [Tries.after, hk, List.take_succ_cons, List.map_cons, List.sum_cons, visitTries]

lemma tryRounds_tries (hleft : left < maxPeerConnectionAttempts) :
    ∃ visited : ℕ → ℕ, (tryRounds startOpt lastOpt peers left).tries =
      ∑ r ∈ Finset.Ico (maxPeerConnectionAttempts - 1 - left) maxPeerConnectionAttempts,
        (((peers r).take (visited r)).map (visitTries startOpt lastOpt)).sum := by
  induction left with
  | zero =>
    obtain ⟨k, hk⟩ := tryPeers_tries startOpt lastOpt (peers (maxPeerConnectionAttempts - 1))
    exact ⟨fun _ => k, by simpa [tryRounds, maxPeerConnectionAttempts] using hk⟩
  | succ left ih =>
    have hnext : maxPeerConnectionAttempts - 1 - (left + 1) + 1 =
        maxPeerConnectionAttempts - 1 - left := by omega
    set first := maxPeerConnectionAttempts - 1 - (left + 1) with hfirst
    obtain ⟨k, hk⟩ := tryPeers_tries startOpt lastOpt (peers first)
    obtain ⟨visited, hvisited⟩ := ih (by omega)
    rw [← hnext] at hvisited
    have hsum : ∀ g : ℕ → ℕ, ∑ r ∈ Finset.Ico first maxPeerConnectionAttempts,
          (((peers r).take (Function.update g first k r)).map (visitTries startOpt lastOpt)).sum =
        (tryPeers startOpt lastOpt (peers first)).tries +
          ∑ r ∈ Finset.Ico (first + 1) maxPeerConnectionAttempts,
            (((peers r).take (g r)).map (visitTries startOpt lastOpt)).sum := by
      intro g
      rw [Finset.sum_eq_sum_Ico_succ_bot (by omega), Function.update_self, hk]
      refine congrArg _ (Finset.sum_congr rfl fun r hr => ?_)
      rw [Function.update_of_ne (by have := (Finset.mem_Ico.mp hr).1; omega)]
    simp only [tryRounds, ← hfirst, Tries.orElse]
    split
    · -- there is no further round
      exact ⟨Function.update (fun _ => 0) first k, by rw [hsum]; simp⟩
    · exact ⟨Function.update visited first k, by rw [hsum, ← hvisited]; rfl⟩

lemma connectToPeers_tries (startOpt lastOpt : Option ℕ) (peers : ℕ → List (ℕ → Meeting)) :
    ∃ visited : ℕ → ℕ, (connectToPeers startOpt lastOpt peers).tries =
      ∑ r ∈ Finset.range maxPeerConnectionAttempts,
        (((peers r).take (visited r)).map (visitTries startOpt lastOpt)).sum := by
  rw [Finset.range_eq_Ico]
  exact tryRounds_tries (by decide)

/-- How many tries there are in all. -/
lemma visits_tries_le {N : ℕ} (hN : ∀ r, (peers r).length = N) (visited : ℕ → ℕ) :
    ∑ r ∈ Finset.range maxPeerConnectionAttempts,
      (((peers r).take (visited r)).map (visitTries startOpt lastOpt)).sum ≤
      maxPeerConnectionAttempts * (N * (peerRetryLimit + 1)) := by
  have hround : ∀ r, (((peers r).take (visited r)).map (visitTries startOpt lastOpt)).sum ≤
      N * (peerRetryLimit + 1) := by
    intro r
    have hsum := List.sum_le_card_nsmul (((peers r).take (visited r)).map
      (visitTries startOpt lastOpt)) (peerRetryLimit + 1) (by
        intro tries htries
        obtain ⟨meet, -, rfl⟩ := List.mem_map.mp htries
        exact tryPeer_tries)
    rw [List.length_map, List.length_take, hN, smul_eq_mul] at hsum
    exact hsum.trans (Nat.mul_le_mul_right _ (min_le_right _ _))
  have hsum := Finset.sum_le_card_nsmul (Finset.range maxPeerConnectionAttempts) _
    (N * (peerRetryLimit + 1)) fun r _ => hround r
  rwa [Finset.card_range, smul_eq_mul] at hsum

/-! ### What is asked for -/

/-- The stream answers this request, at a peer with this latest block. -/
def AnswerTo (startOpt lastOpt : Option ℕ) (messages : List PeerMessage) (meeting : Meeting) :
    Prop :=
  ∃ peerLatest peer, meeting = .status peerLatest (.answers peer) ∧
    peer (startOpt.getD peerLatest) (lastOpt.getD u64Max) = some messages ∧
    startOpt.getD peerLatest ≤ lastOpt.getD u64Max ∧
    (startOpt.getD peerLatest ≤ peerLatest ∨ lastOpt.getD u64Max = u64Max)

lemma tryConnectAndStream_stream {meeting : Meeting} {messages : List PeerMessage}
    (h : tryConnectAndStream startOpt lastOpt meeting = .stream messages) :
    AnswerTo startOpt lastOpt messages meeting := by
  rcases meeting with _ | ⟨peerLatest, answer⟩
  · cases h
  · simp only [tryConnectAndStream] at h
    split at h
    · cases h
    next horder =>
    split at h
    · cases h
    next hbehind =>
    rcases answer with _ | peer
    · cases h
    · rcases hpeer : peer (startOpt.getD peerLatest) (lastOpt.getD u64Max) with _ | others
      · simp only [hpeer] at h
        cases h
      · simp only [hpeer] at h
        cases h
        refine ⟨peerLatest, peer, rfl, hpeer, not_lt.mp horder, ?_⟩
        by_contra hnot
        exact hbehind ⟨not_le.mp fun hle => hnot (Or.inl hle), fun heq => hnot (Or.inr heq)⟩

lemma tryPeer_answer {messages : List PeerMessage}
    (h : (tryPeer startOpt lastOpt meet left).stream = some messages) :
    ∃ i, AnswerTo startOpt lastOpt messages (meet i) := by
  induction left with
  | zero =>
    simp only [tryPeer] at h
    split at h
    · next htry =>
      cases h
      exact ⟨_, tryConnectAndStream_stream htry⟩
    · cases h
    · cases h
  | succ left ih =>
    simp only [tryPeer] at h
    split at h
    · next htry =>
      cases h
      exact ⟨_, tryConnectAndStream_stream htry⟩
    · cases h
    · exact ih h

lemma tryPeers_answer {messages : List PeerMessage}
    (h : (tryPeers startOpt lastOpt round).stream = some messages) :
    ∃ meet ∈ round, ∃ i, AnswerTo startOpt lastOpt messages (meet i) := by
  induction round with
  | nil => cases h
  | cons meet round ih =>
    rcases Tries.orElse_eq_some h with h | h
    · exact ⟨meet, List.mem_cons_self, tryPeer_answer h⟩
    · obtain ⟨other, hmem, hanswer⟩ := ih h
      exact ⟨other, List.mem_cons_of_mem _ hmem, hanswer⟩

lemma tryRounds_answer {messages : List PeerMessage}
    (h : (tryRounds startOpt lastOpt peers left).stream = some messages) :
    ∃ r, ∃ meet ∈ peers r, ∃ i, AnswerTo startOpt lastOpt messages (meet i) := by
  induction left with
  | zero => exact ⟨_, tryPeers_answer h⟩
  | succ left ih =>
    rcases Tries.orElse_eq_some h with h | h
    · exact ⟨_, tryPeers_answer h⟩
    · exact ih h

/-- **When the call returns a stream**: exactly when in one of the five rounds one of the peers
gives one within its four tries and fails until then. The stream is the answer to a request for the
range that was asked for. The tries are those of the visits that are made in each round to the first
so many peers; there are at most four tries in a visit, so at most twenty for each peer. -/
theorem streamBlocksFromPeers_connects (startOpt lastOpt : Option ℕ)
    (peers : ℕ → List (ℕ → Meeting)) {N : ℕ} (hN : ∀ r, (peers r).length = N) :
    ((∃ messages, streamBlocksFromPeers startOpt lastOpt peers = .ok messages) ↔
      ∃ r < maxPeerConnectionAttempts, ∃ meet ∈ peers r, Connects startOpt lastOpt meet 0) ∧
    (connectToPeers startOpt lastOpt peers).tries ≤
      maxPeerConnectionAttempts * (N * (peerRetryLimit + 1)) ∧
    (∀ messages, streamBlocksFromPeers startOpt lastOpt peers = .ok messages →
      ∃ r, ∃ meet ∈ peers r, ∃ i, AnswerTo startOpt lastOpt messages (meet i)) ∧
    (∃ visited : ℕ → ℕ, (connectToPeers startOpt lastOpt peers).tries =
      ∑ r ∈ Finset.range maxPeerConnectionAttempts,
        (((peers r).take (visited r)).map (visitTries startOpt lastOpt)).sum) ∧
    ∀ meet, visitTries startOpt lastOpt meet ≤ peerRetryLimit + 1 := by
  have hok : ∀ messages, streamBlocksFromPeers startOpt lastOpt peers = .ok messages ↔
      (connectToPeers startOpt lastOpt peers).stream = some messages := by
    intro messages
    unfold streamBlocksFromPeers
    rcases (connectToPeers startOpt lastOpt peers).stream with _ | others <;> simp
  obtain ⟨visited, hvisited⟩ := connectToPeers_tries startOpt lastOpt peers
  refine ⟨?_, hvisited ▸ visits_tries_le hN visited,
    fun messages h => tryRounds_answer ((hok messages).mp h), ⟨visited, hvisited⟩,
    fun meet => tryPeer_tries⟩
  simp only [hok, ← Option.ne_none_iff_exists']
  unfold connectToPeers
  rw [tryRounds_stream (by decide)]
  simp

/-- One peer, which answers at its second try in the second round. -/
theorem streamBlocksFromPeers_connects_second : ∃ messages,
    streamBlocksFromPeers (some 1) (some 2) (fun r => [fun i => if r = 1 ∧ i = 1 then
      .status 2 (.answers fun _ _ => some []) else .noStatus]) = .ok messages := by
  refine (streamBlocksFromPeers_connects _ _ _ (N := 1) fun _ => rfl).1.mpr
    ⟨1, by decide, _, List.mem_singleton.mpr rfl, 1, by decide, by decide, fun i _ hi => ?_, [],
      rfl⟩
  obtain rfl : i = 0 := by omega
  rfl

/-! ### A range that makes no sense -/

lemma tryConnectAndStream_invalid {start last : ℕ} (hlt : last < start) (meeting : Meeting) :
    tryConnectAndStream (some start) (some last) meeting = .failed := by
  rcases meeting with _ | ⟨peerLatest, answer⟩
  · rfl
  · exact if_pos hlt

section Failing

variable (hfails : ∀ meeting, tryConnectAndStream startOpt lastOpt meeting = .failed)

include hfails

lemma tryPeer_failing : tryPeer startOpt lastOpt meet left = ⟨none, left + 1⟩ := by
  induction left with
  | zero => simp only [tryPeer, hfails]
  | succ left ih =>
    simp only [tryPeer, hfails, ih, Tries.after]
    rw [Nat.add_comm]

lemma visitTries_failing (meet : ℕ → Meeting) :
    visitTries startOpt lastOpt meet = peerRetryLimit + 1 := by
  rw [visitTries, tryPeer_failing hfails]

lemma tryPeers_failing : tryPeers startOpt lastOpt round =
    ⟨none, (round.map (visitTries startOpt lastOpt)).sum⟩ := by
  induction round with
  | nil => rfl
  | cons meet round ih =>
    simp only [tryPeers, tryPeer_failing hfails, ih, Tries.orElse, Tries.after, List.map_cons,
      List.sum_cons, visitTries_failing hfails]

lemma tryRounds_failing (hleft : left < maxPeerConnectionAttempts) :
    tryRounds startOpt lastOpt peers left =
      ⟨none, ∑ r ∈ Finset.Ico (maxPeerConnectionAttempts - 1 - left) maxPeerConnectionAttempts,
        ((peers r).map (visitTries startOpt lastOpt)).sum⟩ := by
  induction left with
  | zero =>
    rw [tryRounds, tryPeers_failing hfails]
    simp [maxPeerConnectionAttempts]
  | succ left ih =>
    have hnext : maxPeerConnectionAttempts - 1 - (left + 1) + 1 =
        maxPeerConnectionAttempts - 1 - left := by omega
    rw [tryRounds, tryPeers_failing hfails, ih (by omega),
      Finset.sum_eq_sum_Ico_succ_bot (show maxPeerConnectionAttempts - 1 - (left + 1) <
        maxPeerConnectionAttempts by omega), hnext]
    rfl

end Failing

/-- **A range that ends before it starts** is not refused: in each of the five rounds every peer is
visited and tried four times, whatever it answers, and the error says that there is no
connection. -/
theorem streamBlocksFromPeers_invalid {start last : ℕ} (hlt : last < start)
    (peers : ℕ → List (ℕ → Meeting)) {N : ℕ} (hN : ∀ r, (peers r).length = N) :
    streamBlocksFromPeers (some start) (some last) peers =
      .error "Failed to connect to any peer after 5 attempts." ∧
    (connectToPeers (some start) (some last) peers).tries = 20 * N ∧
    (connectToPeers (some start) (some last) peers).tries =
      ∑ r ∈ Finset.range maxPeerConnectionAttempts,
        ((peers r).map (visitTries (some start) (some last))).sum ∧
    ∀ meet, visitTries (some start) (some last) meet = peerRetryLimit + 1 := by
  have hfails := tryConnectAndStream_invalid hlt
  have hall : connectToPeers (some start) (some last) peers =
      ⟨none, ∑ r ∈ Finset.range maxPeerConnectionAttempts,
        ((peers r).map (visitTries (some start) (some last))).sum⟩ := by
    rw [Finset.range_eq_Ico]
    exact tryRounds_failing hfails (by decide)
  refine ⟨?_, ?_, by rw [hall], visitTries_failing hfails⟩
  · simp only [streamBlocksFromPeers, hall]
    rfl
  · have hround : ∀ r, ((peers r).map (visitTries (some start) (some last))).sum = N * 4 := by
      intro r
      have hvisits : (peers r).map (visitTries (some start) (some last)) =
          List.replicate N (peerRetryLimit + 1) := by
        rw [← hN r, List.map_eq_replicate_iff]
        exact fun meet _ => visitTries_failing hfails meet
      rw [hvisits, List.sum_replicate, smul_eq_mul]
      rfl
    simp only [hall, hround, Finset.sum_const, Finset.card_range, maxPeerConnectionAttempts,
      smul_eq_mul]
    omega

theorem streamBlocksFromPeers_invalid_pair :
    (connectToPeers (some 10) (some 5) fun _ => [fun _ => .noStatus, fun _ => .noStatus]).tries =
      40 :=
  (streamBlocksFromPeers_invalid (by decide) (fun _ => [fun _ => .noStatus, fun _ => .noStatus])
    (N := 2) fun _ => rfl).2.1

/-! ### The stream that is returned -/

/-- What a consumer of the stream gets. -/
inductive StreamItem where
  | block (block : Block)
  | error

/-- What the messages of a peer come to: the blocks, and the first error, which is the end. -/
def streamItems : List PeerMessage → List StreamItem
  | [] => []
  | .error :: _ => [.error]
  | .message (some (.blockItems items)) :: messages => .block ⟨items⟩ :: streamItems messages
  | .message _ :: messages => streamItems messages

/-- The capacity of the channel. -/
def streamCapacity : ℕ := 128

/-- The task between the peer and the consumer. -/
structure Relay where
  /-- what is still to come from the peer -/
  rest : List PeerMessage
  running : Bool
  queue : List StreamItem
  /-- the receiver has not been dropped -/
  listening : Bool
  received : List StreamItem
  /-- the consumer has come to the end of the stream -/
  ended : Bool

inductive RelayAct where
  /-- the task takes the next message of the peer and deals with it -/
  | forward
  | receive
  | drop

namespace Relay

def init (messages : List PeerMessage) : Relay := ⟨messages, true, [], true, [], false⟩

/-- The task is over. -/
def stop (relay : Relay) : Relay := { relay with running := false }

/-- The task sends an item, which fails when nobody listens. There is no step while the channel is
full. -/
def send (relay : Relay) (item : StreamItem) : Option Relay :=
  if relay.listening then
    if relay.queue.length < streamCapacity then
      some { relay with queue := relay.queue ++ [item] }
    else none
  else some relay.stop

def step (relay : Relay) : RelayAct → Option Relay
  | .forward =>
    if relay.running then
      match relay.rest with
      | [] => some relay.stop
      | .message (some (.blockItems items)) :: rest =>
        { relay with rest := rest }.send (.block ⟨items⟩)
      | .message _ :: rest => some { relay with rest := rest }
      | .error :: rest =>
        ({ relay with rest := rest }.send .error).map Relay.stop
    else none
  | .receive =>
    if relay.listening then
      match relay.queue with
      | item :: queue => some { relay with queue := queue, received := relay.received ++ [item] }
      | [] => if relay.running then none else some { relay with ended := true }
    else none
  | .drop => some { relay with listening := false, queue := [] }

/-- What has been received, what is in the channel and what is still to come make up the stream,
as long as somebody listens. -/
structure Carries (messages : List PeerMessage) (relay : Relay) : Prop where
  received : relay.received <+: streamItems messages
  whole : relay.listening = true → relay.received ++ relay.queue ++
    (if relay.running then streamItems relay.rest else []) = streamItems messages
  bounded : relay.queue.length ≤ streamCapacity
  ended : relay.ended = true → relay.received = streamItems messages

variable {messages : List PeerMessage} {relay relay' : Relay}

lemma carries_init (messages : List PeerMessage) : (init messages).Carries messages :=
  ⟨List.nil_prefix, fun _ => rfl, Nat.zero_le _, fun h => (by cases h)⟩

/-- What a send can do. -/
lemma send_cases {item : StreamItem} (h : relay.send item = some relay') :
    (relay.listening = true ∧ relay.queue.length < streamCapacity ∧
      relay' = { relay with queue := relay.queue ++ [item] }) ∨
    (relay.listening = false ∧ relay' = relay.stop) := by
  unfold send at h
  split at h
  · next hlistening =>
    split at h
    · next hroom => exact Or.inl ⟨hlistening, hroom, (Option.some.inj h).symm⟩
    · cases h
  · next hlistening => exact Or.inr ⟨by simpa using hlistening, (Option.some.inj h).symm⟩

/-- **One step.** -/
lemma Carries.step (h : relay.Carries messages) {act : RelayAct}
    (hstep : relay.step act = some relay') : relay'.Carries messages := by
  cases act with
  | forward =>
    simp only [Relay.step] at hstep
    split at hstep
    · next hrunning =>
      have hwhole := h.whole
      rw [if_pos hrunning] at hwhole
      split at hstep
      · -- the peer has come to its end
        next hrest =>
        cases hstep
        refine ⟨h.received, fun hlistening => ?_, h.bounded, h.ended⟩
        simpa [hrest, streamItems, stop] using hwhole hlistening
      · next items rest hrest =>
        rcases send_cases hstep with ⟨hlistening, hroom, rfl⟩ | ⟨hlistening, rfl⟩
        · refine ⟨h.received, fun _ => ?_, ?_, h.ended⟩
          · simpa [hrest, streamItems, hrunning] using hwhole hlistening
          · simpa using hroom
        · refine ⟨h.received, fun hl => ?_, h.bounded, h.ended⟩
          cases hlistening.symm.trans hl
      · next response rest hblock hrest =>
        cases hstep
        refine ⟨h.received, fun hlistening => ?_, h.bounded, h.ended⟩
        have hsame : streamItems relay.rest = streamItems rest := by
          rcases response with _ | items | code
          · rw [hrest, streamItems]
            exact fun items heq => (by cases heq)
          · exact (hblock items rfl).elim
          · rw [hrest, streamItems]
            exact fun items heq => (by cases heq)
        simpa [hsame, hrunning] using hwhole hlistening
      · next rest hrest =>
        obtain ⟨sent, hsent, rfl⟩ := Option.map_eq_some_iff.mp hstep
        rcases send_cases hsent with ⟨hlistening, hroom, rfl⟩ | ⟨hlistening, rfl⟩
        · refine ⟨h.received, fun _ => ?_, ?_, h.ended⟩
          · simpa [hrest, streamItems, stop] using hwhole hlistening
          · simpa [stop] using hroom
        · refine ⟨h.received, fun hl => ?_, h.bounded, h.ended⟩
          cases hlistening.symm.trans hl
    · cases hstep
  | receive =>
    simp only [Relay.step] at hstep
    split at hstep
    · next hlistening =>
      have hwhole := h.whole hlistening
      split at hstep
      · next item queue hqueue =>
        cases hstep
        rw [hqueue] at hwhole
        have hbounded := h.bounded
        rw [hqueue, List.length_cons] at hbounded
        refine ⟨⟨queue ++ (if relay.running then streamItems relay.rest else []),
          by rw [← hwhole]; simp⟩, fun _ => ?_, Nat.le_of_succ_le hbounded, fun hend => ?_⟩
        · rw [← hwhole]
          simp
        · -- after the end there is nothing in the channel
          have hall := h.ended hend
          rw [← hwhole] at hall
          simp at hall
      · next hqueue =>
        split at hstep
        · cases hstep
        · next hrunning =>
          cases hstep
          refine ⟨h.received, h.whole, h.bounded, fun _ => ?_⟩
          simpa [hqueue, hrunning] using hwhole
    · cases hstep
  | drop =>
    cases hstep
    exact ⟨h.received, fun hl => (by cases hl), Nat.zero_le _, h.ended⟩

/-- Task and consumer do not wait for each other. -/
lemma not_stuck (hlistening : relay.listening = true) :
    (relay.step .forward).isSome = true ∨ (relay.step .receive).isSome = true := by
  rcases hqueue : relay.queue with _ | ⟨item, queue⟩
  · rcases hrunning : relay.running with _ | _
    · right
      simp [step, hlistening, hqueue, hrunning]
    · -- the channel is empty, so that there is room
      left
      have hroom : 0 < streamCapacity := by decide
      rcases hrest : relay.rest with _ | ⟨(_ | items | code) | _, rest⟩ <;>
        simp [step, send, hrunning, hrest, hlistening, hqueue, hroom]
  · right
    simp [step, hlistening, hqueue]

end Relay

/-- **The stream that is returned.** However the task and the consumer take turns: the consumer has
received a first part of the blocks and the error that the peer's messages come to, and all of it
once it is told the end. The channel holds at most 128 items, and as long as the consumer listens
one of the two can go on. -/
theorem relay_received {messages : List PeerMessage} {acts : List RelayAct} {relay : Relay}
    (hrun : run Relay.step (Relay.init messages) acts = some relay) :
    relay.received <+: streamItems messages ∧ relay.queue.length ≤ 128 ∧
    (relay.ended = true → relay.received = streamItems messages) ∧
    (relay.listening = true →
      (relay.step .forward).isSome = true ∨ (relay.step .receive).isSome = true) := by
  have hcarries := run_inv_of_step (fun h hstep => h.step hstep) (Relay.carries_init messages) hrun
  exact ⟨hcarries.received, hcarries.bounded, hcarries.ended, Relay.not_stuck⟩

/-- Two blocks and an error, of which the consumer has the first. -/
theorem relay_received_first : ∃ relay, run Relay.step (Relay.init
      [.message (some (.blockItems [])), .message none, .message (some (.blockItems [])), .error])
      [.forward, .receive, .forward, .forward, .forward] = some relay ∧
    relay.received <+: [.block ⟨[]⟩, .block ⟨[]⟩, .error] := by
  have hsome : (run Relay.step (Relay.init
      [.message (some (.blockItems [])), .message none, .message (some (.blockItems [])), .error])
      [.forward, .receive, .forward, .forward, .forward]).isSome = true := rfl
  obtain ⟨relay, hrun⟩ := Option.isSome_iff_exists.mp hsome
  exact ⟨relay, hrun, (relay_received hrun).1⟩

/-! ### A stream from a node -/

/-- A try meets the node. -/
def Node.meeting (codec : Codec) (lookahead : ℕ) (node : Node) : Meeting :=
  match serverStatus (node.blockReader codec) (node.blockReader codec) with
  | .ok response => .status response.lastAvailableBlock (.answers (node.asPeer codec lookahead))
  | .error _ => .noStatus

/-- Without an error the consumer gets the blocks. -/
lemma streamItems_eq {messages : List PeerMessage} (h : .error ∉ messages) :
    streamItems messages = (messages.filterMap PeerMessage.block?).map .block := by
  induction messages with
  | nil => rfl
  | cons m messages ih =>
    have hrest := ih fun hmem => h (List.mem_cons_of_mem _ hmem)
    rcases m with (_ | items | code) | _
    · exact hrest
    · exact congrArg (StreamItem.block ⟨items⟩ :: ·) hrest
    · exact hrest
    · exact absurd List.mem_cons_self h

lemma tryPeer_first {messages : List PeerMessage}
    (h : tryConnectAndStream startOpt lastOpt (meet 0) = .stream messages) :
    (tryPeer startOpt lastOpt meet peerRetryLimit).stream = some messages := by
  change (tryPeer startOpt lastOpt meet (2 + 1)).stream = some messages
  simp only [tryPeer, peerRetryLimit, h]

lemma connectToPeers_first {messages : List PeerMessage} {others : List (ℕ → Meeting)}
    (hpeers : peers 0 = meet :: others)
    (h : tryConnectAndStream startOpt lastOpt (meet 0) = .stream messages) :
    (connectToPeers startOpt lastOpt peers).stream = some messages := by
  have hround : (tryPeers startOpt lastOpt (peers 0)).stream = some messages := by
    simp only [hpeers, tryPeers, Tries.orElse, tryPeer_first h]
  change (tryRounds startOpt lastOpt peers (3 + 1)).stream = some messages
  simp only [tryRounds, maxPeerConnectionAttempts, Tries.orElse, hround]

variable {cfg : Config} {codec : Codec} {lookahead l : ℕ} {node : Node}
  {request : SubscribeRequest}

/-- **A range from a node.** When the call meets first a node that has the range, has come there by
sound steps and stands still while it streams, it returns a stream, and a consumer that comes to its
end has received every block of the range once, in order and as the node keeps it. -/
theorem streamBlocksFromPeers_range (hsize : 1 ≤ cfg.archiveBatchSize)
    (hreach : RunsTo cfg codec (Node.init cfg) node) (hhas : node.Has request)
    (hlatest : getLatestPersistedBlockNumber node.store.db = some l)
    (hroom : l + lookahead ≤ u64Max) (peers : ℕ → List (ℕ → Meeting))
    {others : List (ℕ → Meeting)} (hpeers : peers 0 = meet :: others)
    (hmeet : meet 0 = node.meeting codec lookahead) :
    ∃ messages, streamBlocksFromPeers (some request.startBlockNumber)
      (some request.endBlockNumber) peers = .ok messages ∧
    ∀ acts relay, run Relay.step (Relay.init messages) acts = some relay → relay.ended = true →
      ∃ blocks : List Block, relay.received = blocks.map .block ∧
        blocks.map getBlockNumber = (List.range' request.startBlockNumber
          (request.endBlockNumber + 1 - request.startBlockNumber)).map some ∧
        ∀ block ∈ blocks, node.store.Keeps block := by
  have hs := (init_serving cfg codec).runsTo hsize hreach
  obtain ⟨messages, hmessages, hne, ⟨k, hrange, -, hall⟩, hkeeps⟩ := hhas.asPeer hs hsize
    fun k hk => by
      cases hlatest.symm.trans hk
      exact hroom
  have htry : tryConnectAndStream (some request.startBlockNumber) (some request.endBlockNumber)
      (meet 0) = .stream messages := by
    obtain ⟨e, he, -⟩ := hhas.earliest
    have hmeeting : meet 0 = .status l (.answers (node.asPeer codec lookahead)) := by
      simp only [hmeet, Node.meeting, serverStatus, Node.blockReader, he, hlatest, Option.getD_some]
    have hordered := hhas.ordered
    have hstart : request.startBlockNumber ≤ l :=
      (hs.latest_spec hlatest).2 _ (hhas.committed _ le_rfl hordered)
    simp only [hmeeting, tryConnectAndStream, Option.getD_some]
    rw [if_neg (by omega), if_neg (by omega), hmessages]
  refine ⟨messages, ?_, fun acts relay hrun hended => ?_⟩
  · simp only [streamBlocksFromPeers, connectToPeers_first hpeers htry]
  · have hcarries := run_inv_of_step (fun h hstep => h.step hstep) (Relay.carries_init messages)
      hrun
    have hlength : k = request.endBlockNumber + 1 - request.startBlockNumber := by
      have := hall hne
      omega
    refine ⟨messages.filterMap PeerMessage.block?, ?_, hlength ▸ hrange, hkeeps⟩
    rw [hcarries.ended hended, streamItems_eq hne]

theorem streamBlocksFromPeers_range_pair : ∃ messages,
    streamBlocksFromPeers (some 1) (some 2) (fun _ => [fun _ => pairNode.meeting plainCodec 10]) =
      .ok messages ∧
    ∀ acts relay, run Relay.step (Relay.init messages) acts = some relay → relay.ended = true →
      ∃ blocks : List Block, relay.received = blocks.map .block ∧
        blocks.map getBlockNumber = [some 1, some 2] := by
  obtain ⟨messages, hok, hrelay⟩ := streamBlocksFromPeers_range (l := 2) (by decide)
    runsTo_pairNode pairNode_has (by decide +kernel) (by decide)
    (fun _ => [fun _ => pairNode.meeting plainCodec 10]) rfl rfl
  refine ⟨messages, hok, fun acts relay hrun hended => ?_⟩
  obtain ⟨blocks, hreceived, hnumbers, -⟩ := hrelay acts relay hrun hended
  exact ⟨blocks, hreceived, hnumbers⟩

end RockNode
