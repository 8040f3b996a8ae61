import RockNode.Conversation

/-!
Items of a block that the session has been told to skip.

A publisher that loses the election may have sent more of its block before `SkipBlock` reaches
it. The session has forgotten the block by then: it is reset right after `SkipBlock` is sent, and
to a session without a block, items without a header are an error.
-/

namespace RockNode

/-! ### One call of `handle_request` -/

/-- What a step of the session sends, to whomever. -/
def responses (state : World × Session) : AssemblyAct → List Response
  | .own .go =>
    match state.2.task with
    | .respond response _ => [response]
    | _ => []
  | .own (.visit _) =>
    match state.2.task with
    | .broadcast message _ _ _ => [message]
    | _ => []
  | _ => []

/-- The act does not take the next request and does not end the stream from outside. -/
def SessionAct.inside : SessionAct → Bool
  | .request _ | .hangUp => false
  | _ => true

/-- A call of `handle_request`, with what the others do meanwhile: it has returned when the session
waits for the next request (the result is false) or is about to leave (the result is true). -/
def Handles (cfg : PublishConfig) (codec : Codec) (id : ℕ) (state : World × Session)
    (request : Request) (sent : List Response) (state' : World × Session) : Prop :=
  (state'.2.task = .idle ∨ state'.2.task = .leave) ∧
    ∃ actions : List AssemblyAct, (actions.filterMap AssemblyAct.session?).all SessionAct.inside ∧
      run (recorded (assemblyStep cfg codec id) responses) (state, [])
        (.own (.request request) :: actions) = some (state', sent)

/-- Every call of `handle_request` with one of the sets returns false, sends nothing, and leaves
the session as it was; so whatever comes next is handled as if they had not been sent. -/
def Ignores (cfg : PublishConfig) (codec : Codec) (id : ℕ) (session : Session) :
    List (List BlockItem) → Prop
  | [] => True
  | set :: sets =>
    (∀ world sent state', Handles cfg codec id (world, session) (.blockItems set) sent state' →
      state'.2.task = .idle ∧ sent = [] ∧ state'.2 = session) ∧ Ignores cfg codec id session sets

section

variable {cfg : PublishConfig} {codec : Codec} {id : ℕ} {session : Session}
  {set : List BlockItem}

/-- Without a block, a set without a header is answered with an error, and that is the end. -/
lemma handles_headless (hidle : session.task = .idle) (hnone : session.currentBlockAction = none)
    (hne : set ≠ []) (hsize : set.length ≤ cfg.maxItemsPerSet)
    (hheader : ∀ item ∈ set, item.header? = none) (world : World) :
    ∃ state', Handles cfg codec id (world, session) (.blockItems set)
      [.endStream .error session.blockNumber] state' ∧ state'.2.task = .leave := by
  let session' := session.execute .endError set
  have hrequest : session.step cfg codec id world (.request (.blockItems set)) =
      some (world, session') := by
    have hhandle : session.handleBlockItems cfg set = session' := by
      rw [Session.handleBlockItems_items hne hsize hheader, hnone]
      rfl
    rw [(Session.Step.request hidle).step_eq, Session.handleRequest, hhandle]
  have hrespond : session'.step cfg codec id world .go =
      some (world.send id (.endStream .error session.blockNumber), session'.goto .leave) := rfl
  refine ⟨(world.send id (.endStream .error session.blockNumber), session'.goto .leave),
    ⟨.inr rfl, [.own .go], rfl, ?_⟩, rfl⟩
  simp only [run, recorded, assemblyStep, hrequest, Option.map_some, hrespond]
  rfl

lemma not_ignores_headless {sets : List (List BlockItem)} (hidle : session.task = .idle)
    (hnone : session.currentBlockAction = none) (hne : set ≠ [])
    (hsize : set.length ≤ cfg.maxItemsPerSet) (hheader : ∀ item ∈ set, item.header? = none) :
    ¬ Ignores cfg codec id session (set :: sets) := by
  intro h
  obtain ⟨state, hhandles, -⟩ := handles_headless hidle hnone hne hsize hheader (.init none)
  obtain ⟨-, hsent, -⟩ := h.1 _ _ _ hhandles
  cases hsent

end

/-- **Items of a skipped block.** A session that has just been sent `SkipBlock` ignores the sets
of that block still in flight only if there are none. -/
theorem skipped_items_ignored_iff {cfg : PublishConfig} {codec : Codec} {id : ℕ}
    {session session' : Session} {world world' : World} {n : UInt64}
    {sets : List (List BlockItem)} (hskip : session.task = .respond (.skipBlock n) .reset)
    (hstep : session.step cfg codec id world .go = some (world', session'))
    (hsized : Sized cfg sets) (hheaders : ∀ set ∈ sets, ∀ item ∈ set, item.header? = none) :
    Ignores cfg codec id session' sets ↔ sets = [] := by
  constructor
  · intro h
    obtain rfl : session' = session.resetForNextBlock := by
      rw [(Session.Step.respondReset hskip).step_eq] at hstep
      cases hstep
      rfl
    rcases sets with _ | ⟨set, sets⟩
    · rfl
    · obtain ⟨hne, hsize⟩ := hsized set List.mem_cons_self
      exact absurd h
        (not_ignores_headless rfl rfl hne hsize (hheaders set List.mem_cons_self))
  · rintro rfl
    trivial

theorem skipped_items_ignored_iff_one :
    Ignores tenItems plainCodec 0
        (Session.new.goto (.respond (.skipBlock 5) .reset)).resetForNextBlock [[otherItem]] ↔
      [[otherItem]] = ([] : List (List BlockItem)) := by
  have hskip : (Session.new.goto (.respond (.skipBlock 5) .reset)).step tenItems plainCodec 0
      (.init none) .go = some ((World.init none).send 0 (.skipBlock 5), _) := rfl
  exact skipped_items_ignored_iff rfl hskip (by unfold Sized; decide) (by decide)

/-- The winner table has block 5 with another session, the session is told to skip it, and one more
item of the block ends its stream. -/
theorem skipped_item_ends_stream : ∃ state,
    run (assemblyStep tenItems plainCodec 0) ((World.init none).claim 5 1, .new)
        [.own (.request (.blockItems [headerItem 5])), .own .go, .own .go] = some state ∧
      state.2.task = .respond (.skipBlock 5) .reset ∧
      ∃ state', run (assemblyStep tenItems plainCodec 0) state [.own .go] = some state' ∧
        ¬ Ignores tenItems plainCodec 0 state'.2 [[otherItem]] := by
  refine ⟨_, rfl, rfl, _, rfl, ?_⟩
  exact not_ignores_headless rfl rfl (List.cons_ne_nil _ _) (by decide) (by decide)

end RockNode
