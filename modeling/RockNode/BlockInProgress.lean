import RockNode.Session

/-!
The block a session is putting together.

A property of the block in progress follows the session through its steps if it holds when a
header has been accepted and survives the sets that continue the block. It is stated about the
number of the block, the items received since the accepted header, and the buffer.
-/

namespace RockNode

/-- The items up to and with the first proof. -/
def upToProof : List BlockItem → List BlockItem
  | [] => []
  | item :: items => if item.isProof then [item] else item :: upToProof items

lemma acceptItems_eq (buffer set : List BlockItem) :
    Session.acceptItems buffer set = (buffer ++ upToProof set, set.any BlockItem.isProof) := by
  induction set generalizing buffer with
  | nil => simp [Session.acceptItems, upToProof]
  | cons item set ih =>
    unfold Session.acceptItems upToProof
    split_ifs with h
    · simp [h]
    · rw [ih]
      simp [h]

lemma upToProof_append {items : List BlockItem} (h : items.any BlockItem.isProof = false)
    (set : List BlockItem) : upToProof (items ++ set) = items ++ upToProof set := by
  induction items with
  | nil => rfl
  | cons item items ih =>
    simp only [List.any_cons, Bool.or_eq_false_iff] at h
    simp only [List.cons_append, upToProof, h.1, Bool.false_eq_true, if_false, ih h.2]

lemma upToProof_eq_self {items : List BlockItem} (h : items.any BlockItem.isProof = false) :
    upToProof items = items := by
  simpa [upToProof] using upToProof_append h []

lemma mem_of_mem_upToProof {items : List BlockItem} {item : BlockItem}
    (h : item ∈ upToProof items) : item ∈ items := by
  induction items with
  | nil => exact h
  | cons first items ih =>
    unfold upToProof at h
    split_ifs at h
    · exact List.mem_cons.mpr (.inl (List.mem_singleton.mp h))
    · rcases List.mem_cons.mp h with rfl | h
      · exact List.mem_cons_self
      · exact List.mem_cons_of_mem _ (ih h)

lemma BlockItem.isProof_of_header {item : BlockItem} {header : BlockHeader}
    (h : item.header? = some header) : item.isProof = false := by
  unfold header? at h
  unfold isProof
  split at h
  · next hitem => rw [hitem]
  · cases h

/-- The set starts with a header that carries the number. -/
def StartsWith (n : Int64) (set : List BlockItem) : Prop :=
  ∃ first rest header, set = first :: rest ∧ first.header? = some header ∧
    header.number.toInt64 = n

/-- A header is not a proof, so it stays in front. -/
lemma StartsWith.upToProof {n : Int64} {set : List BlockItem} (h : StartsWith n set) :
    ∃ first rest header, RockNode.upToProof set = first :: rest ∧
      first.header? = some header ∧ header.number = n.toUInt64 := by
  obtain ⟨first, rest, header, rfl, hfirst, rfl⟩ := h
  refine ⟨first, RockNode.upToProof rest, header, ?_, hfirst, by simp⟩
  simp only [RockNode.upToProof, BlockItem.isProof_of_header hfirst, Bool.false_eq_true, if_false]

/-- A valid set with a header starts with it. -/
lemma startsWith_of_validate {cfg : PublishConfig} {n : Int64} {set : List BlockItem}
    (hnumber : headerNumber set = some n) (hvalid : validateBlockItems cfg set true = .ok ()) :
    StartsWith n set := by
  obtain ⟨header, hfind, rfl⟩ := Option.map_eq_some_iff.mp hnumber
  rcases set with _ | ⟨first, rest⟩
  · cases hvalid
  · simp only [validateBlockItems, if_true] at hvalid
    split_ifs at hvalid
    split at hvalid
    · next header' hfirst =>
      have hheader : first.header? = some header' := by simp [BlockItem.header?, hfirst]
      rw [List.findSome?_cons, hheader] at hfind
      cases hfind
      exact ⟨first, rest, header, rfl, hheader, rfl⟩
    · cases hvalid
    · cases hvalid

/-- A property of a block number, the items received and the buffer. -/
abbrev BlockProp := UInt64 → List BlockItem → List BlockItem → Prop

/-- `Q` says what holds of a block in progress and `R` of a complete one: sets without a header
lead from one to the other, and a `BlockEnd` completes what there is. -/
structure BlockRule (Q R : BlockProp) : Prop where
  full : ∀ {n received buffer}, Q n received buffer → R n received buffer
  more : ∀ {n received buffer set}, Q n received buffer → (∀ item ∈ set, item.header? = none) →
    set.any BlockItem.isProof = false → Q n (received ++ set) (buffer ++ set)
  last : ∀ {n received buffer set}, Q n received buffer → (∀ item ∈ set, item.header? = none) →
    set.any BlockItem.isProof = true → R n (received ++ set) (buffer ++ upToProof set)

namespace Session

variable {Q R : BlockProp} {cfg : PublishConfig} {codec : Codec} {id : ℕ}
  {session session' : Session} {world world' : World} {set : List BlockItem}

/-- The property, by what the task is about to do. -/
def InProgress (Q R : BlockProp) (session : Session) : Prop :=
  match session.task with
  | .idle => session.currentBlockAction = some .accept →
      Q session.blockNumber session.received session.itemBuffer
  | .streaming set => Q session.blockNumber session.received session.itemBuffer ∧
      ∀ item ∈ set, item.header? = none
  | .header n set => StartsWith n set
  | .lookup n set => StartsWith n set
  | .elect n set => StartsWith n set
  | .complete => R session.blockNumber session.received session.itemBuffer
  | _ => True

/-- Accepting a set goes on with the block or completes it. -/
lemma handleAccept_inProgress
    (hmore : set.any BlockItem.isProof = false →
      Q session.blockNumber session.received (session.itemBuffer ++ set))
    (hlast : set.any BlockItem.isProof = true →
      R session.blockNumber session.received (session.itemBuffer ++ upToProof set)) :
    (session.handleAccept set).InProgress Q R := by
  unfold handleAccept
  rw [acceptItems_eq]
  rcases hproof : set.any BlockItem.isProof with _ | _
  · intro _
    rw [upToProof_eq_self hproof]
    exact hmore hproof
  · exact hlast hproof

lemma handleBlockItems_inProgress (h : session.currentBlockAction = some .accept →
      Q session.blockNumber session.received session.itemBuffer) :
    (session.handleBlockItems cfg set).InProgress Q R := by
  unfold handleBlockItems
  dsimp only
  split
  · trivial
  · next hvalid =>
    split
    · next n hn => exact startsWith_of_validate hn (by rwa [hn] at hvalid)
    · next hn haction =>
      have hnone : set.findSome? BlockItem.header? = none := by
        simpa [headerNumber] using hn
      exact ⟨h haction, List.findSome?_eq_none_iff.mp hnone⟩
    · trivial

lemma handleRequest_inProgress (rule : BlockRule Q R)
    (h : session.currentBlockAction = some .accept →
      Q session.blockNumber session.received session.itemBuffer) (request : Request) :
    (session.handleRequest cfg request).InProgress Q R := by
  cases request with
  | blockItems set => exact handleBlockItems_inProgress h
  | endOfBlock n =>
    simp only [handleRequest, handleBlockEnd]
    split_ifs with hend
    · exact rule.full (h hend.1)
    · trivial
  | endStream earliest latest => trivial

lemma onHeader_inProgress {latest n : Int64} (h : StartsWith n set) :
    (session.onHeader latest n set).InProgress Q R := by
  unfold onHeader
  split_ifs
  · trivial
  · trivial
  · exact h

lemma onLookup_inProgress {winner : Option ℕ} {n : Int64} (h : StartsWith n set) :
    (session.onLookup id winner n set).InProgress Q R := by
  unfold onLookup
  split
  · split_ifs <;> trivial
  · exact h

lemma onStreaming_inProgress (rule : BlockRule Q R) {winner : Option ℕ}
    (h : Q session.blockNumber session.received session.itemBuffer)
    (hset : ∀ item ∈ set, item.header? = none) :
    (session.onStreaming id winner set).InProgress Q R := by
  unfold onStreaming
  split
  · split_ifs
    · exact handleAccept_inProgress (rule.more h hset) (rule.last h hset)
    · trivial
  · trivial

lemma resetForNextBlock_inProgress : session.resetForNextBlock.InProgress Q R := by
  intro h
  cases h

/-- The header and the set for which the session is about to claim the winner entry. -/
def electing (session : Session) : Option (Int64 × List BlockItem) :=
  match session.task with
  | .elect n set => some (n, set)
  | _ => none

/-- **One step of the session**, in any world: all that is left to show is that the property
holds at an election. -/
theorem step_inProgress {act : SessionAct} (rule : BlockRule Q R) (h : session.InProgress Q R)
    (helect : ∀ e ∈ session.electing, world.blockWinners.get e.1.toUInt64.toNat = none →
      StartsWith e.1 e.2 → (session.onElected e.1 e.2).InProgress Q R)
    (step : Step cfg codec id world session act world' session') :
    session'.InProgress Q R := by
  unfold InProgress at h
  cases step with
  | request here =>
    rw [here] at h
    exact handleRequest_inProgress rule h _
  | header here =>
    rw [here] at h
    exact onHeader_inProgress h
  | lookup here =>
    rw [here] at h
    exact onLookup_inProgress h
  | @elected n set here vacant =>
    rw [here] at h
    have hmem : (n, set) ∈ session.electing := by
      simp only [electing, here]
      rfl
    exact helect (n, set) hmem vacant h
  | streaming here =>
    rw [here] at h
    exact onStreaming_inProgress rule h.1 h.2
  | respondReset => exact resetForNextBlock_inProgress
  | removeAcknowledged => exact resetForNextBlock_inProgress
  | @finish _ _ _ next => cases next <;> trivial
  | _ => trivial

/-- Events only change the queues of a session that is waiting. -/
lemma Hears.inProgress (h : session.Hears session') (hprogress : session.InProgress Q R) :
    session'.InProgress Q R := by
  cases h with
  | nothing => exact hprogress
  | failed | either => trivial

end Session

end RockNode
