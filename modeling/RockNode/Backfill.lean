import RockNode.ExactMarks
import RockNode.SubscriberStreams

/-!
`stream_from_peer` of the backfill worker: what it writes is what the peer sends.

The answer `Ok` says that the peer's stream came to an end and that every write succeeded. It
does not say that the stream was the one asked for. The mode of the call is for the metrics only.
-/

namespace RockNode

/-- What the client stream yields: a message, perhaps with no response in it, or an error. -/
inductive PeerMessage where
  | message (response : Option SubscribeResponse)
  | error

/-- The blocks among the messages. -/
def PeerMessage.block? : PeerMessage → Option Block
  | .message (some (.blockItems items)) => some ⟨items⟩
  | _ => none

/-- The receive loop, with its result `Ok` or not. -/
def receiveBlocks (cfg : Config) (codec : Codec) : Store → List PeerMessage → Store × Bool
  | s, [] => (s, true)
  | s, .error :: _ => (s, false)
  | s, .message (some (.blockItems items)) :: messages =>
    match (writeBlock cfg codec ⟨items⟩ s.db).2 with
    | .ok _ => receiveBlocks cfg codec (s.write cfg codec ⟨items⟩) messages
    | .err => (s.write cfg codec ⟨items⟩, false)
  | s, .message _ :: messages => receiveBlocks cfg codec s messages

/-- `stream_from_peer`. A peer answers a request with a stream, or the call to it fails. -/
def streamFromPeer (cfg : Config) (codec : Codec) (peer : ℕ → ℕ → Option (List PeerMessage))
    (start last : ℕ) (s : Store) : Store × Bool :=
  match peer start last with
  | none => (s, false)
  | some messages => receiveBlocks cfg codec s messages

/-- The numbers committed by `write_block` between the two states of the store. -/
def writtenBetween (s s' : Store) : Set ℕ :=
  {n | ∃ block, (n, block) ∈ s'.log.take (s'.log.length - s.log.length)}

variable {cfg : Config} {codec : Codec} {s : Store}

/-- A write that returns `Ok` adds the block's number to the log. -/
lemma write_log_of_ok {block : Block} (hok : (writeBlock cfg codec block s.db).2 ≠ .err) :
    ∃ n, getBlockNumber block = some n ∧ (s.write cfg codec block).log = (n, block) :: s.log := by
  unfold writeBlock at hok
  unfold Store.write
  rcases hn : getBlockNumber block with _ | n
  · simp [hn] at hok
  · rcases hb : (prepareBatch cfg codec block n).run s.db with _ | ⟨batch, gap⟩
    · simp [hn, hb] at hok
    · exact ⟨n, rfl, by simp only [hb]⟩

/-- The loop's record: the blocks received, the last one first. -/
lemma receiveBlocks_log {messages : List PeerMessage}
    (hok : (receiveBlocks cfg codec s messages).2 = true) :
    ∃ new, (receiveBlocks cfg codec s messages).1.log = new ++ s.log ∧
      ∀ n, (∃ block, (n, block) ∈ new) ↔
        n ∈ numbersOf (messages.filterMap PeerMessage.block?) := by
  induction messages generalizing s with
  | nil => exact ⟨[], rfl, by simp [numbersOf]⟩
  | cons m messages ih =>
    rcases m with (_ | items | code) | _
    · exact ih hok
    · simp only [receiveBlocks] at hok ⊢
      split at hok
      · next heq =>
        have hwrite : (writeBlock cfg codec ⟨items⟩ s.db).2 ≠ .err := by rw [heq]; simp
        obtain ⟨k, hk, hlog⟩ := write_log_of_ok hwrite
        obtain ⟨new, hnew, hmem⟩ := ih hok
        refine ⟨new ++ [(k, ⟨items⟩)], by rw [hnew, hlog]; simp, fun n => ?_⟩
        simp only [List.filterMap_cons, PeerMessage.block?]
        rw [numbersOf_cons hk, Set.mem_insert_iff, ← hmem]
        simp only [List.mem_append, List.mem_singleton, Prod.mk.injEq, exists_or, exists_and_left,
          exists_eq, and_true]
        exact or_comm
      · cases hok
    · exact ih hok
    · cases hok

/-- A call that returns `Ok` has written what the peer sent. -/
lemma streamFromPeer_written {peer : ℕ → ℕ → Option (List PeerMessage)} {start last : ℕ}
    (hok : (streamFromPeer cfg codec peer start last s).2 = true) :
    ∃ messages, peer start last = some messages ∧
      writtenBetween s (streamFromPeer cfg codec peer start last s).1 =
        numbersOf (messages.filterMap PeerMessage.block?) := by
  rcases hpeer : peer start last with _ | messages
  · simp [streamFromPeer, hpeer] at hok
  · simp only [streamFromPeer, hpeer] at hok ⊢
    obtain ⟨new, hlog, hmem⟩ := receiveBlocks_log hok
    refine ⟨messages, rfl, ?_⟩
    ext n
    rw [← hmem n]
    simp [writtenBetween, hlog]

/-- **A gap fill that reports success has filled the gap exactly when the peer has sent the
blocks of the gap and no others.** -/
theorem gap_filled_iff {peer : ℕ → ℕ → Option (List PeerMessage)} {start last : ℕ}
    (hok : (streamFromPeer cfg codec peer start last s).2 = true) :
    writtenBetween s (streamFromPeer cfg codec peer start last s).1 = Set.Icc start last ↔
      ∃ messages, peer start last = some messages ∧
        numbersOf (messages.filterMap PeerMessage.block?) = Set.Icc start last := by
  obtain ⟨messages, hpeer, hwritten⟩ := streamFromPeer_written hok
  rw [hwritten, hpeer]
  simp

/-- A peer that sends block 6, then block 5. -/
theorem gap_filled_pair :
    writtenBetween (Store.init firstConfig) (streamFromPeer firstConfig plainCodec
      (fun _ _ => some [.message (some (.blockItems (headerBlock 6 []).items)),
        .message (some (.blockItems (headerBlock 5 []).items)),
        .message (some (.status .success))]) 5 6 (Store.init firstConfig)).1 = Set.Icc 5 6 := by
  refine (gap_filled_iff (by decide +kernel)).mpr ⟨_, rfl, ?_⟩
  ext n
  simp only [List.filterMap_cons, PeerMessage.block?, List.filterMap_nil]
  rw [numbersOf_cons (n := 6) rfl, numbersOf_cons (n := 5) rfl]
  simp only [numbersOf, List.not_mem_nil, false_and, exists_false, Set.mem_insert_iff,
    Set.mem_ofPred_eq, or_false, Set.mem_Icc]
  omega

/-- A peer that refuses the request fills the gap as far as the worker can tell. -/
theorem gap_not_filled : ¬ ∀ (cfg : Config) (codec : Codec)
    (peer : ℕ → ℕ → Option (List PeerMessage)) (start last : ℕ) (s : Store),
    (streamFromPeer cfg codec peer start last s).2 = true →
    writtenBetween s (streamFromPeer cfg codec peer start last s).1 = Set.Icc start last := by
  intro h
  have hfilled := h firstConfig plainCodec
    (fun _ _ => some [.message (some (.status .notAvailable))]) 5 5 (Store.init firstConfig) rfl
  have hmem : 5 ∈ Set.Icc 5 5 := by simp
  rw [← hfilled] at hmem
  obtain ⟨block, hblock⟩ := hmem
  cases hblock

/-! ### A peer that runs the same program -/

/-- The messages of a session as they arrive at the other node. -/
def Subscriber.messages (session : Subscriber) : List PeerMessage :=
  session.sent.map fun response => .message (some response)

lemma Subscriber.messages_blocks (session : Subscriber) :
    session.messages.filterMap PeerMessage.block? = session.blocks.map Block.mk := by
  unfold messages blocks
  rw [List.filterMap_map, List.map_filterMap]
  congr 1
  ext response
  cases response <;> rfl

/-- The numbers of a complete stream, from a store that keeps each block under its number. -/
lemma Subscriber.IsExact.numbers {lookahead start : ℕ} {stored : ℕ → Option Bytes}
    {request : SubscribeRequest} {answers : Set (Option ℕ)} {session : Subscriber}
    (h : session.IsExact codec lookahead stored request answers)
    (hcomplete : session.IsComplete) (hstart : session.start = some start)
    (hnumber : ∀ {n bytes block}, stored n = some bytes → codec.decode bytes = some block →
      getBlockNumber block = some n) :
    numbersOf (session.messages.filterMap PeerMessage.block?) =
      Set.Icc start session.request.endBlockNumber := by
  have hlast : start + session.blocks.length = session.request.endBlockNumber + 1 := by
    have hpos := hcomplete.2
    simpa only [position, hstart, Option.map_some, Option.some.injEq] using hpos
  have hblock : ∀ {i} (hi : i < session.blocks.length),
      getBlockNumber ⟨session.blocks.get ⟨i, hi⟩⟩ = some (start + i) := by
    intro i hi
    have hitems := h.consecutive start hstart i hi
    rw [List.getElem?_eq_getElem hi] at hitems
    obtain ⟨bytes, hbytes, hrest⟩ := Option.bind_eq_some_iff.mp hitems.symm
    obtain ⟨block, hdecode, heq⟩ := Option.bind_eq_some_iff.mp hrest
    have hitem : block.items = session.blocks.get ⟨i, hi⟩ := Option.some.inj heq
    rw [← hitem]
    exact hnumber hbytes hdecode
  rw [session.messages_blocks]
  ext n
  simp only [numbersOf, Set.mem_ofPred_eq, List.mem_map, Set.mem_Icc]
  constructor
  · rintro ⟨_, ⟨items, hitems, rfl⟩, hn⟩
    obtain ⟨⟨i, hi⟩, rfl⟩ := List.get_of_mem hitems
    rw [hblock hi, Option.some.injEq] at hn
    omega
  · rintro ⟨hle, hend⟩
    have hi : n - start < session.blocks.length := by omega
    refine ⟨_, ⟨_, List.get_mem _ ⟨n - start, hi⟩, rfl⟩, ?_⟩
    rw [hblock hi, Nat.add_sub_cancel' hle]

/-- **Between two nodes the gap is filled**: when the peer's session streams the whole range and
every write succeeds. -/
theorem peer_session_fills {peer : ℕ → ℕ → Option (List PeerMessage)} {lookahead start last : ℕ}
    {stored : ℕ → Option Bytes} {request : SubscribeRequest} {answers : Set (Option ℕ)}
    {session : Subscriber} (hpeer : peer start last = some session.messages)
    (hlast : session.request.endBlockNumber = last)
    (h : session.IsExact codec lookahead stored request answers)
    (hcomplete : session.IsComplete)
    (hstart : session.start = some start)
    (hnumber : ∀ {n bytes block}, stored n = some bytes → codec.decode bytes = some block →
      getBlockNumber block = some n)
    (hok : (streamFromPeer cfg codec peer start last s).2 = true) :
    writtenBetween s (streamFromPeer cfg codec peer start last s).1 = Set.Icc start last := by
  obtain ⟨messages, hmessages, hwritten⟩ := streamFromPeer_written hok
  rw [hpeer] at hmessages
  cases hmessages
  rw [hwritten, h.numbers hcomplete hstart hnumber, hlast]

end RockNode
