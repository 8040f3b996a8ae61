import RockNode.Acknowledgement
import RockNode.SharedWatermark

/-!
The block number in an `EndOfStream`.

A session that is behind or repeats the last persisted block reports the watermark. In the other
cases it reports the number of a header, of its current block, or 0. And whatever it reports, the
watermark may move before the message is sent.
-/

namespace RockNode

/-- The number in the `EndOfStream` that the session is about to send. -/
def SessionTask.ending : SessionTask → Option UInt64
  | .respond (.endStream _ n) _ => some n
  | _ => none

namespace Session

variable {session session' : Session} {cfg : PublishConfig} {codec : Codec} {id : ℕ}
  {world world' : World} {act : SessionAct} {set : List BlockItem} {n : UInt64}

/-- A set that `validate_block_items` lets pass: it has items, not too many of them, and if there
is a header among them the first one is a header. -/
def WellFormed (cfg : PublishConfig) (set : List BlockItem) : Prop :=
  set.isEmpty = false ∧ set.length ≤ cfg.maxItemsPerSet ∧
    (set.any (fun item => item.header?.isSome) = true →
      set.head?.any (fun item => item.header?.isSome) = true)

instance WellFormed.decidable (cfg : PublishConfig) (set : List BlockItem) :
    Decidable (WellFormed cfg set) :=
  inferInstanceAs (Decidable (_ ∧ _ ∧ (_ → _)))

/-- The requests that come in their turn: a well-formed set, which may lack a header only while
the session accepts a block, and the end of the block that it accepts. -/
def InTurn (cfg : PublishConfig) (session : Session) : Request → Prop
  | .blockItems set => WellFormed cfg set ∧
    (set.any (fun item => item.header?.isSome) = false →
      session.currentBlockAction = some .accept)
  | .endOfBlock n =>
    session.currentBlockAction = some .accept ∧ n.toInt64 = session.currentBlockNumber
  | .endStream _ _ => True

instance InTurn.decidable (cfg : PublishConfig) (session : Session) :
    ∀ request, Decidable (session.InTurn cfg request)
  | .blockItems _ => inferInstanceAs (Decidable (_ ∧ (_ → _)))
  | .endOfBlock _ => inferInstanceAs (Decidable (_ ∧ _))
  | .endStream _ _ => isTrue trivial

/-- What the task finds among the winner entries: no entry of its own for the block of a new
header, and one for the block it streams. -/
def Finds (id : ℕ) (world : World) (session : Session) : SessionTask → Prop
  | .lookup n _ => world.blockWinners.get n.toUInt64.toNat ≠ some id
  | .streaming _ => world.blockWinners.get session.blockNumber.toNat ≠ none
  | _ => True

instance Finds.decidable (id : ℕ) (world : World) (session : Session) :
    ∀ task, Decidable (session.Finds id world task)
  | .lookup _ _ | .streaming _ => inferInstanceAs (Decidable (_ ≠ _))
  | .idle | .header _ _ | .elect _ _ | .behind | .respond _ _ | .complete | .handOver _
  | .subscribe _ | .subscribeAgain _ _ | .waiting _ _ _ | .persisted | .broadcast _ _ _ _
  | .removeAcknowledged | .removeFailed | .removeTimedOut | .endStream _ | .leave | .collect _ _
  | .release _ | .gone | .crashed => isTrue trivial

/-- The failed verification that the task takes notice of is that of another block. -/
def Spared (session : Session) : SessionTask → Prop
  | .waiting key (event :: _) _ => event.event ≠ ⟨session.blockNumber, key⟩
  | _ => True

instance Spared.decidable (session : Session) : ∀ task, Decidable (session.Spared task)
  | .waiting _ (_ :: _) _ => inferInstanceAs (Decidable (_ ≠ _))
  | .waiting _ [] _ => isTrue trivial
  | .idle | .header _ _ | .lookup _ _ | .streaming _ | .elect _ _ | .behind | .respond _ _
  | .complete | .handOver _ | .subscribe _ | .subscribeAgain _ _ | .persisted
  | .broadcast _ _ _ _ | .removeAcknowledged | .removeFailed | .removeTimedOut | .endStream _
  | .leave | .collect _ _ | .release _ | .gone | .crashed => isTrue trivial

/-- A step in which the session has nothing to complain of. -/
def Regular (cfg : PublishConfig) (id : ℕ) (world : World) (session : Session) :
    SessionAct → Prop
  | .request request => session.InTurn cfg request
  | .go => session.Finds id world session.task
  | .takeFailed => session.Spared session.task
  | _ => True

instance Regular.decidable (cfg : PublishConfig) (id : ℕ) (world : World) (session : Session) :
    ∀ act, Decidable (session.Regular cfg id world act)
  | .request request => inferInstanceAs (Decidable (session.InTurn cfg request))
  | .go => inferInstanceAs (Decidable (session.Finds id world session.task))
  | .takeFailed => inferInstanceAs (Decidable (session.Spared session.task))
  | .hangUp | .channelClosed | .takePersisted | .timeout | .visit _ | .finish => isTrue trivial

lemma Hears.ending (h : session.Hears session') :
    session'.task.ending = session.task.ending := by
  cases h with
  | nothing => rfl
  | failed here | either here => rw [here]; rfl

lemma accept_ending : (session.execute .accept set).task.ending = none := by
  unfold execute handleAccept
  dsimp only
  split <;> rfl

/-- The watermark is loaded: a header at it is a duplicate. -/
lemma onHeader_ending {latest m : Int64} (h : n ∈ (session.onHeader latest m set).task.ending) :
    n = latest.toUInt64 := by
  unfold onHeader at h
  split_ifs at h with hlt heq
  · cases h
  · cases h
    rw [← heq]
    rfl
  · cases h

lemma onLookup_ending {m : Int64} {winner : Option ℕ}
    (h : n ∈ (session.onLookup id winner m set).task.ending) : winner = some id := by
  unfold onLookup at h
  split at h
  · split_ifs at h with hid
    · rw [hid]
    · cases h
  · cases h

lemma onStreaming_ending {winner : Option ℕ}
    (h : n ∈ (session.onStreaming id winner set).task.ending) : winner = none := by
  unfold onStreaming at h
  split at h
  · split_ifs at h
    · rw [accept_ending] at h
      cases h
    · cases h
  · rfl

lemma headerNumber_isSome :
    (headerNumber set).isSome = set.any (fun item => item.header?.isSome) := by
  rw [headerNumber, Option.isSome_map, List.isSome_findSome?]

/-- A well-formed set passes the validation. -/
lemma WellFormed.validate (h : WellFormed cfg set) :
    validateBlockItems cfg set (headerNumber set).isSome = .ok () := by
  obtain ⟨hne, hlength, hfirst⟩ := h
  rw [headerNumber_isSome]
  rcases set with _ | ⟨first, rest⟩
  · cases hne
  · simp only [validateBlockItems, Nat.not_lt.mpr hlength, if_false]
    split
    · next hnew =>
      have hheader : first.header?.isSome = true := hfirst hnew
      unfold BlockItem.header? at hheader
      split at hheader
      · next hitem => rw [hitem]
      · cases hheader
    · rfl

/-- A request that comes in its turn is not answered with an `EndOfStream` at once. -/
lemma handleRequest_ending {request : Request} (h : session.InTurn cfg request) :
    (session.handleRequest cfg request).task.ending = none := by
  cases request with
  | blockItems set =>
    obtain ⟨hset, haccept⟩ := h
    rw [← headerNumber_isSome] at haccept
    simp only [handleRequest, handleBlockItems, hset.validate]
    rcases hnumber : headerNumber set with _ | m
    · simp only [haccept (by rw [hnumber]; rfl)]
      rfl
    · rfl
  | endOfBlock m =>
    simp only [handleRequest, handleBlockEnd, if_pos (show _ ∧ _ from h)]
    rfl
  | endStream code latest => rfl

/-- **Where an `EndOfStream` comes from**: in a regular step, from the watermark. -/
lemma Step.ending (step : Step cfg codec id world session act world' session')
    (h : n ∈ session'.task.ending) (hregular : session.Regular cfg id world act) :
    n = world.latestPersistedBlock.toUInt64 := by
  cases step with
  | request =>
    rw [handleRequest_ending hregular] at h
    cases h
  | header => exact onHeader_ending h
  | lookup here =>
    simp only [Regular, here, Finds] at hregular
    exact absurd (onLookup_ending h) hregular
  | elected =>
    unfold onElected at h
    rw [accept_ending] at h
    cases h
  | streaming here =>
    simp only [Regular, here, Finds] at hregular
    exact absurd (onStreaming_ending h) hregular
  | behind =>
    cases h
    rfl
  | takeFailed here mine =>
    simp only [Regular, here, Spared] at hregular
    exact absurd mine hregular
  | @finish _ _ _ next => cases next <;> cases h
  | _ => cases h

end Session

namespace Pipeline

variable {cfg : PipelineConfig} {codec : Codec} {p p' : Pipeline} {act : PipelineAct}

/-- Once a block has been persisted, a session that sends an `EndOfStream` reports the watermark
as it is then. -/
def SendsFrontier : Pipeline → PipelineAct → Prop :=
  AtSession fun p _ session _ => ∀ n ∈ session.task.ending, 0 ≤ p.world.latestPersistedBlock →
    n = p.world.latestPersistedBlock.toUInt64

/-- Once a block has been persisted, the sessions have nothing to complain of. -/
def StepsRegularly (cfg : PipelineConfig) : Pipeline → PipelineAct → Prop :=
  AtSession fun p id session act => 0 ≤ p.world.latestPersistedBlock →
    session.Regular cfg.publish id p.world act

/-- When the watermark is stored, no session is about to report another number. -/
def StoresUnreported : Pipeline → PipelineAct → Prop :=
  AtSession fun p _ session _ => session.task = .persisted →
    ∀ j < p.nextSession, ∀ other ∈ p.sessions j, ∀ n ∈ other.task.ending, n = session.blockNumber

-- at most one number is looked at: a search through all words would not end
instance SendsFrontier.decidable (p : Pipeline) (act : PipelineAct) :
    Decidable (SendsFrontier p act) :=
  have (p : Pipeline) (session : Session) : Decidable (∀ n ∈ session.task.ending,
      0 ≤ p.world.latestPersistedBlock → n = p.world.latestPersistedBlock.toUInt64) :=
    Option.decidableForallMem _
  inferInstanceAs (Decidable (AtSession _ p act))

instance StepsRegularly.decidable (cfg : PipelineConfig) (p : Pipeline) (act : PipelineAct) :
    Decidable (StepsRegularly cfg p act) :=
  inferInstanceAs (Decidable (AtSession _ p act))

instance StoresUnreported.decidable (p : Pipeline) (act : PipelineAct) :
    Decidable (StoresUnreported p act) :=
  have (session other : Session) : Decidable (∀ n ∈ other.task.ending, n = session.blockNumber) :=
    Option.decidableForallMem _
  inferInstanceAs (Decidable (AtSession _ p act))

/-- Every `EndOfStream` on its way has the watermark in it. -/
structure Reports (p : Pipeline) : Prop where
  enrolled : p.Enrolled
  frontier : ∀ {id session n}, p.sessions id = some session → n ∈ session.task.ending →
    0 ≤ p.world.latestPersistedBlock → n = p.world.latestPersistedBlock.toUInt64

lemma init_reports (blocks : List Block) (plugin : StatePlugin) :
    (init cfg codec blocks plugin).Reports :=
  ⟨init_enrolled blocks plugin, fun h => by cases h⟩

lemma Reports.deliver (h : p.Reports) {f : Session → Session}
    (hears : ∀ session : Session, session.Hears (f session)) (henrolled : p'.Enrolled)
    (hsessions : p'.sessions = fun id => (p.sessions id).map f) (hworld : p'.world = p.world) :
    p'.Reports := by
  refine ⟨henrolled, fun {id session' n} hid hn => ?_⟩
  rw [hsessions] at hid
  obtain ⟨session, hsession, rfl⟩ := Option.map_eq_some_iff.mp hid
  rw [(hears session).ending] at hn
  rw [hworld]
  exact h.frontier hsession hn

lemma session_reports (h : p.Reports) {id : ℕ} {sact : SessionAct} {session session' : Session}
    {world : World} (here : p.sessions id = some session)
    (step : session.Step cfg.publish codec id p.world sact world session')
    (hregular : StepsRegularly cfg p (.session id sact))
    (hstore : StoresUnreported p (.session id sact)) :
    Reports { p with
      world := world, sessions := Function.update p.sessions id (some session') } := by
  refine ⟨session_enrolled h.enrolled here step, fun {j other n} hj hn => ?_⟩
  change 0 ≤ world.latestPersistedBlock → n = world.latestPersistedBlock.toUInt64
  rcases step.latest with hlatest | ⟨htask, hlatest⟩
  · rw [hlatest]
    rcases update_sessions hj with ⟨rfl, rfl⟩ | ⟨-, hj⟩
    · exact fun hpersisted => step.ending hn (hregular session here hpersisted)
    · exact h.frontier hj hn
  · -- the watermark moves: the storing session itself goes on to its broadcast
    intro _
    rw [hlatest]
    rcases update_sessions hj with ⟨rfl, rfl⟩ | ⟨-, hj⟩
    · cases step <;> simp_all [SessionTask.ending]
    · exact hstore session here htask j (h.enrolled.id_lt hj) other hj n hn

lemma step_reports (h : p.Reports) (hregular : StepsRegularly cfg p act)
    (hstore : StoresUnreported p act) (hstep : p.step cfg codec act = some p') : p'.Reports := by
  have henrolled := step_enrolled h.enrolled hstep
  cases step_cases hstep with
  | connect =>
    refine ⟨henrolled, fun {id session n} hid hn => ?_⟩
    rcases update_sessions hid with ⟨rfl, rfl⟩ | ⟨-, hid⟩
    · cases hn
    · exact h.frontier hid hn
  | session here step => exact session_reports h here step hregular hstore
  | fail => exact h.deliver (fun _ => Session.deliverFailed_hears _) henrolled rfl rfl
  | broadcast => exact h.deliver (fun _ => Session.deliverPersisted_hears _) henrolled rfl rfl
  | _ => exact ⟨henrolled, h.frontier⟩

/-- **An `EndOfStream` reports the persisted frontier**, in runs in which no session has anything
to complain of once a block is persisted, and the watermark does not move while a message with
another number is on its way. -/
theorem end_stream_frontier {blocks : List Block} {plugin : StatePlugin}
    {actions : List PipelineAct}
    (hcond : Along (step cfg codec)
      (fun p act => StepsRegularly cfg p act ∧ StoresUnreported p act)
      (init cfg codec blocks plugin) actions) :
    Along (step cfg codec) SendsFrontier (init cfg codec blocks plugin) actions := by
  refine along_of_inv (I := Reports) (fun h hP hstep => step_reports h hP.1 hP.2 hstep)
    (fun {p act} h _ => ?_) (init_reports blocks plugin) hcond
  cases act with
  | session id sact => exact fun session here n hn => h.frontier here hn
  | _ => trivial

/-- A session publishes block 5 and, when that is acknowledged, sends one more set of items. -/
def publishThen (set : List BlockItem) : List PipelineAct :=
  publishRun [(itemsOf 5, 3), ([proofOf 5], 1)] ++
    [.session 0 .finish, .session 0 .go, .session 0 (.request (.blockItems set))]

/-- The header of block 5 once more. -/
theorem end_stream_frontier_five :
    ∃ p, run (step verifyingNode plainCodec) (init verifyingNode plainCodec [] .init)
        (publishThen (itemsOf 5) ++ [.session 0 .go, .session 0 .go]) = some p ∧
      (0, .endStream .duplicateBlock 5) ∈ p.world.sent ∧
      Along (step verifyingNode plainCodec) SendsFrontier (init verifyingNode plainCodec [] .init)
        (publishThen (itemsOf 5) ++ [.session 0 .go, .session 0 .go]) := by
  have hsome : ∃ p ∈ run (step verifyingNode plainCodec) (init verifyingNode plainCodec [] .init)
      (publishThen (itemsOf 5) ++ [.session 0 .go, .session 0 .go]),
      (0, Response.endStream .duplicateBlock 5) ∈ p.world.sent := by decide +kernel
  obtain ⟨p, hrun, hsent⟩ := hsome
  exact ⟨p, hrun, hsent, end_stream_frontier (by decide +kernel)⟩

/-- Items in front of the header of block 9: the answer is the number 9, and block 5 is the last
one persisted. -/
theorem end_stream_beyond :
    (∃ p, run (step verifyingNode plainCodec) (init verifyingNode plainCodec [] .init)
        (publishThen (⟨some (.other [])⟩ :: itemsOf 9) ++ [.session 0 .go]) = some p ∧
      (0, .endStream .error 9) ∈ p.world.sent ∧ p.world.latestPersistedBlock = 5) ∧
    ¬ Along (step verifyingNode plainCodec) SendsFrontier (init verifyingNode plainCodec [] .init)
      (publishThen (⟨some (.other [])⟩ :: itemsOf 9) ++ [.session 0 .go]) := by
  have hsome : ∃ p ∈ run (step verifyingNode plainCodec) (init verifyingNode plainCodec [] .init)
      (publishThen (⟨some (.other [])⟩ :: itemsOf 9) ++ [.session 0 .go]),
      (0, Response.endStream .error 9) ∈ p.world.sent ∧ p.world.latestPersistedBlock = 5 := by
    decide +kernel
  refine ⟨?_, by decide +kernel⟩
  obtain ⟨p, hrun, hsent, hlatest⟩ := hsome
  exact ⟨p, hrun, hsent, hlatest⟩

end Pipeline

end RockNode
