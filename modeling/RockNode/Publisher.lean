import RockNode.Conversation

/-!
A publisher that is alone.

One session sends block after block, nobody else publishes, and the pipeline persists every block
while the session waits for it. The proof at the end of a block completes it: the session waits
for the block to be persisted, acknowledges it and is reset. A `BlockEnd` that comes after that
finds a session without a block.
-/

namespace RockNode

/-- A block as a publisher sends it: item sets and perhaps a `BlockEnd`. -/
structure SentBlock where
  number : UInt64
  sets : List (List BlockItem)
  ended : Bool

/-- After the announcement: subscribe twice, take the event, store the watermark, acknowledge
the block to the only session there is, remove the winner entry. -/
def settling (id : ℕ) : List SessionAct :=
  [.go, .go, .takePersisted, .go, .visit id, .finish, .go]

/-- What the session does for the block. -/
def SentBlock.script (id : ℕ) (block : SentBlock) : List SessionAct :=
  turns block.sets ++ [.go, .go] ++ (settling id ++
    if block.ended then [.request (.endOfBlock block.number)] else [])

/-! ### The others -/

/-- The two worlds are the same to a publisher of these numbers. -/
structure World.Same (numbers : List UInt64) (world world' : World) : Prop where
  winners : ∀ n ∈ numbers,
    world'.blockWinners.get n.toNat = world.blockWinners.get n.toNat
  latest : world'.latestPersistedBlock = world.latestPersistedBlock
  active : world'.activeSessions = world.activeSessions
  sent : world'.sent = world.sent

instance World.Same.decidable (numbers : List UInt64) (world world' : World) :
    Decidable (world.Same numbers world') :=
  have : Decidable (∀ n ∈ numbers,
      world'.blockWinners.get n.toNat = world.blockWinners.get n.toNat) :=
    List.decidableBAll _ numbers
  decidable_of_iff ((∀ n ∈ numbers,
      world'.blockWinners.get n.toNat = world.blockWinners.get n.toNat) ∧
    world'.latestPersistedBlock = world.latestPersistedBlock ∧
    world'.activeSessions = world.activeSessions ∧ world'.sent = world.sent)
    ⟨fun h => ⟨h.1, h.2.1, h.2.2.1, h.2.2.2⟩, fun h => ⟨h.winners, h.latest, h.active, h.sent⟩⟩

/-- There is an event for the session to take. -/
def Session.finds (session : Session) : Bool :=
  match session.task with
  | .waiting _ _ (_ :: _) => true
  | _ => false

/-- The key of the block that the session is waiting for. -/
def Session.awaited (session : Session) : Option ℕ :=
  match session.task with
  | .waiting key _ _ => some key
  | _ => none

/-- No other session is active, and the pipeline verifies and persists every block: a session that
looks for the event finds it. -/
def Supports (numbers : List UInt64) (state : World × Session) : AssemblyAct → Prop
  | .own act => act = .takePersisted → state.2.finds
  | .interfere world => state.1.Same numbers world
  | .failed _ => False
  | .persisted event => ∀ key ∈ state.2.awaited, event = ⟨state.2.blockNumber, key⟩

instance Supports.decidable (numbers : List UInt64) (state : World × Session) :
    ∀ act, Decidable (Supports numbers state act)
  | .own _ => inferInstanceAs (Decidable (_ → _))
  | .interfere world => World.Same.decidable numbers state.1 world
  | .failed _ => isFalse not_false
  | .persisted _ => Option.decidableForallMem _

section

variable {numbers : List UInt64} {world world' world'' : World} {n : UInt64} {id : ℕ}

lemma World.Same.refl (world : World) : world.Same numbers world :=
  ⟨fun _ _ => rfl, rfl, rfl, rfl⟩

lemma World.Same.trans (h : world.Same numbers world') (h' : world'.Same numbers world'') :
    world.Same numbers world'' :=
  ⟨fun n hn => (h'.winners n hn).trans (h.winners n hn), h'.latest.trans h.latest,
    h'.active.trans h.active, h'.sent.trans h.sent⟩

lemma World.Same.claim (h : world.Same numbers world') (n : UInt64) (id : ℕ) :
    (world.claim n id).Same numbers (world'.claim n id) := by
  refine ⟨fun k hk => ?_, h.latest, h.active, h.sent⟩
  simp only [World.claim_get, h.winners k hk]

lemma World.Same.unclaim (h : world.Same numbers world') (n : ℕ) :
    (world.unclaim n).Same numbers (world'.unclaim n) := by
  refine ⟨fun k hk => ?_, h.latest, h.active, h.sent⟩
  simp only [World.unclaim_get, h.winners k hk]

lemma World.Same.send (h : world.Same numbers world') (response : Response) :
    (world.send id response).Same numbers (world'.send id response) :=
  ⟨h.winners, h.latest, h.active, by simp only [World.send, h.sent]⟩

lemma World.Same.store (h : world.Same numbers world') (latest : Int64) :
    World.Same numbers { world with latestPersistedBlock := latest }
      { world' with latestPersistedBlock := latest } :=
  ⟨h.winners, rfl, h.active, h.sent⟩

/-- What the session relies on while it is fed the block. -/
lemma same_ground (hn : n ∈ numbers) (hahead : world.latestPersistedBlock < n.toInt64)
    (hvacant : world.blockWinners.get n.toNat = none) :
    Ground id n (world.Same numbers) ((world.claim n id).Same numbers) where
  ahead h := by rw [h.latest]; exact hahead
  vacant h := by rw [h.winners n hn, hvacant]
  elected h := h.claim n id
  owned h := by rw [h.winners n hn]; simp
  cached _ h := ⟨h.winners, h.latest, h.active, h.sent⟩
  announced _ h := ⟨h.winners, h.latest, h.active, h.sent⟩

lemma keeps_of_supports {w₁ w₂ : World} {state : World × Session} {act : AssemblyAct}
    (h : Supports numbers state act) : Keeps (w₁.Same numbers) (w₂.Same numbers) state act := by
  cases act with
  | interfere world => exact ⟨fun h1 => h1.trans h, fun h2 => h2.trans h⟩
  | _ => trivial

end

/-! ### From the announcement to the reset -/

section

variable (id : ℕ) (n : UInt64) (before : World)

/-- The shared state after the block has been stored and acknowledged. -/
def stored : World := { before with latestPersistedBlock := n.toInt64 }
def acknowledged : World := (stored n before).send id (.acknowledgement n)

/-- Where the session stands with a block it has announced, with what it has before it and what
the shared state looks like to it. -/
inductive Settling : List SessionAct → Session → World → Prop
  | subscribe {key session} (here : session.task = .subscribe key)
    (number : session.blockNumber = n) : Settling (settling id) session before
  | again {key session} (here : session.task = .subscribeAgain key [])
    (number : session.blockNumber = n) :
    Settling [.go, .takePersisted, .go, .visit id, .finish, .go] session before
  | waiting {key persisted session} (here : session.task = .waiting key [] persisted)
    (number : session.blockNumber = n) (own : ∀ event ∈ persisted, event = ⟨n, key⟩) :
    Settling [.takePersisted, .go, .visit id, .finish, .go] session before
  | persisted {session} (here : session.task = .persisted) (number : session.blockNumber = n) :
    Settling [.go, .visit id, .finish, .go] session before
  | broadcast {session}
    (here : session.task = .broadcast (.acknowledgement n) [id] [] .acknowledged)
    (number : session.blockNumber = n) :
    Settling [.visit id, .finish, .go] session (stored n before)
  | visited {session}
    (here : session.task = .broadcast (.acknowledgement n) [id] [id] .acknowledged)
    (number : session.blockNumber = n) :
    Settling [.finish, .go] session (acknowledged id n before)
  | remove {session} (here : session.task = .removeAcknowledged)
    (number : session.blockNumber = n) : Settling [.go] session (acknowledged id n before)
  | rested {session : Session} :
    Settling [] session.resetForNextBlock ((acknowledged id n before).unclaim n.toNat)

end

section

variable {cfg : PublishConfig} {codec : Codec} {id : ℕ} {n : UInt64} {numbers : List UInt64}
  {before world shown : World} {session : Session} {script : List SessionAct} {act : SessionAct}

/-- An event for the session is one for its block. -/
lemma Settling.deliverPersisted {event : BlockPersisted}
    (h : Settling id n before script session shown)
    (hevent : ∀ key ∈ session.awaited, event = ⟨session.blockNumber, key⟩) :
    Settling id n before script (session.deliverPersisted event) shown := by
  unfold Session.deliverPersisted
  split
  · next key failed persisted hwait =>
    have hevent : event = ⟨session.blockNumber, key⟩ :=
      hevent key (by simp only [Session.awaited, hwait]; rfl)
    cases h with
    | waiting here number own =>
      cases hwait.symm.trans here
      refine .waiting rfl number fun e he => ?_
      rcases List.mem_append.mp he with he | he
      · exact own e he
      · rw [List.mem_singleton.mp he, hevent, number]
    -- nowhere else does it listen
    | rested => cases hwait
    | _ here => cases hwait.symm.trans here
  · exact h

/-- The session's own steps. -/
lemma Settling.turn (h : Settling id n before (act :: script) session shown)
    (hactive : before.activeSessions = [id]) (hsame : shown.Same numbers world)
    (hfinds : act = .takePersisted → session.finds) :
    ∃ state shown', session.step cfg codec id world act = some state ∧
      Settling id n before script state.2 shown' ∧ shown'.Same numbers state.1 := by
  cases h with
  | @subscribe key _ here number =>
    exact ⟨(world, session.goto (.subscribeAgain key [])), before,
      (Session.Step.subscribe here).step_eq, .again rfl number, hsame⟩
  | @again key _ here number =>
    exact ⟨(world, session.goto (.waiting key [] [])), before,
      (Session.Step.subscribeAgain here).step_eq, .waiting rfl number (by simp), hsame⟩
  | @waiting key persisted _ here number own =>
    rcases persisted with _ | ⟨event, persisted⟩
    · have hfinds := hfinds rfl
      simp [Session.finds, here] at hfinds
    · have hmine : event = ⟨session.blockNumber, key⟩ := by
        rw [own event List.mem_cons_self, number]
      exact ⟨(world, session.goto .persisted), before,
        (Session.Step.takePersisted here hmine).step_eq, .persisted rfl number, hsame⟩
  | persisted here number =>
    refine ⟨_, stored n before, (Session.Step.storeLatest here).step_eq, .broadcast ?_ number, ?_⟩
    · rw [hsame.active, hactive, number]
      rfl
    · rw [number]
      exact hsame.store _
  | broadcast here number =>
    have hmem : id ∈ world.activeSessions := by
      rw [hsame.active]
      simp [stored, hactive]
    exact ⟨_, _, (Session.Step.visit here hmem List.not_mem_nil).step_eq, .visited rfl number,
      hsame.send _⟩
  | visited here number =>
    have hall : ∀ target ∈ [id], target ∈ world.activeSessions → target ∈ [id] :=
      fun target htarget _ => htarget
    exact ⟨_, _, (Session.Step.finish here hall).step_eq, .remove rfl number, hsame⟩
  | remove here number =>
    refine ⟨_, _, (Session.Step.removeAcknowledged here).step_eq, .rested, ?_⟩
    rw [number]
    exact hsame.unclaim _

lemma settling_follows (hactive : before.activeSessions = [id]) :
    Follows (assemblyStep cfg codec id) (Supports numbers) AssemblyAct.session?
      fun script state => ∃ shown, Settling id n before script state.2 shown ∧
        shown.Same numbers state.1 where
  others := by
    rintro script ⟨world, session⟩ act ⟨shown, hsettling, hsame⟩ hsupports hact
    cases act with
    | own act => cases hact
    | interfere world' => exact ⟨_, rfl, shown, hsettling, hsame.trans hsupports⟩
    | failed event => exact hsupports.elim
    | persisted event =>
      exact ⟨_, rfl, shown, hsettling.deliverPersisted hsupports, hsame⟩
  turn := by
    rintro script ⟨world, session⟩ act own ⟨shown, hsettling, hsame⟩ hsupports hact
    cases act with
    | own act =>
      cases hact
      obtain ⟨state, shown', hstep, hnext, hsame'⟩ := hsettling.turn hactive hsame hsupports
      exact ⟨state, hstep, shown', hnext, hsame'⟩
    | _ => cases hact

/-- The session is ready for its next block. -/
structure Ready (numbers : List UInt64) (shown : World) (state : World × Session) : Prop where
  idle : state.2.task = .idle
  empty : state.2.itemBuffer = []
  same : shown.Same numbers state.1

/-- The shared state after a block, as far as the publisher knows it. -/
def published (id : ℕ) (world : World) (n : UInt64) : World :=
  (acknowledged id n (world.claim n id)).unclaim n.toNat

/-- **One block**: it is fed, announced, persisted and acknowledged, and the session is reset. -/
lemma Ready.publish {block : SentBlock} {rest : List SessionAct} {state : World × Session}
    {actions : List AssemblyAct} (h : Ready numbers shown state)
    (hblock : WholeBlock block.number block.sets.flatten) (hsized : Sized cfg block.sets)
    (hn : block.number ∈ numbers) (hactive : shown.activeSessions = [id])
    (hahead : shown.latestPersistedBlock < block.number.toInt64)
    (hvacant : shown.blockWinners.get block.number.toNat = none)
    (hown : actions.filterMap AssemblyAct.session? =
      turns block.sets ++ ([.go, .go] ++ (settling id ++ rest)))
    (hsupports : Along (assemblyStep cfg codec id) (Supports numbers) state actions) :
    ∃ front back state', actions = front ++ back ∧ back.filterMap AssemblyAct.session? = rest ∧
      run (assemblyStep cfg codec id) state front = some state' ∧
      state'.2.currentBlockAction = none ∧ Ready numbers (published id shown block.number) state' ∧
      Along (assemblyStep cfg codec id) (Supports numbers) state' back := by
  obtain ⟨world, session⟩ := state
  rw [← List.append_assoc] at hown
  have hfeeding : Follows (assemblyStep cfg codec id) (Supports numbers) AssemblyAct.session? _ :=
    ((feeding_follows (same_ground hn hahead hvacant) hblock).unrecorded).mono keeps_of_supports
  have hstart : ∃ log, Feeding cfg codec block.number block.sets.flatten (shown.Same numbers)
      ((shown.claim block.number id).Same numbers) (turns block.sets ++ [.go, .go])
      ((world, session), log) :=
    ⟨[], .before h.same (.idle rfl h.idle h.empty rfl hsized)⟩
  obtain ⟨front, back, state₁, rfl, hown₁, hrun₁, ⟨log, hfed⟩, hsupports₁⟩ :=
    hfeeding.phase hstart hown hsupports
  obtain ⟨hsame, hnumber, key, htask, -⟩ := hfed.handed_of_nil
  have hclaimed : (shown.claim block.number id).activeSessions = [id] := hactive
  have hstart' : ∃ shown', Settling id block.number (shown.claim block.number id) (settling id)
      state₁.2 shown' ∧ shown'.Same numbers state₁.1 := ⟨_, .subscribe htask hnumber, hsame⟩
  obtain ⟨front', back', state₂, rfl, hown₂, hrun₂, ⟨shown', hsettled, hsame'⟩, hsupports₂⟩ :=
    (settling_follows hclaimed).phase hstart' hown₁ hsupports₁
  obtain ⟨world₂, session₂⟩ := state₂
  cases hsettled with
  | rested =>
    refine ⟨front ++ front', back', _, (List.append_assoc _ _ _).symm, hown₂, ?_, rfl,
      ⟨rfl, rfl, hsame'⟩, hsupports₂⟩
    rw [run_append hrun₁, hrun₂]

/-! ### The end of a session -/

/-- `handle_request` is going to return true, or has done so. -/
def SessionTask.terminal : SessionTask → Bool
  | .behind | .respond _ .leave | .endStream _ | .leave | .collect _ _ | .release _ | .gone
  | .crashed | .broadcast _ _ _ (.released _) => true
  | _ => false

lemma Session.Step.terminal {session' : Session} {world' : World}
    (step : session.Step cfg codec id world act world' session') (h : session.task.terminal) :
    session'.task.terminal := by
  cases step with
  | @visit _ _ _ next _ here => rw [here] at h; cases next <;> first | rfl | cases h
  | @finish _ _ _ next here => rw [here] at h; cases next <;> first | rfl | cases h
  | behind | respondLeave | endStream | crash | leave | collect | collected | release
  | unregister => rfl
  | request here | hangUp here | header here | lookup here | elected here | occupied here
  | streaming here | respondReset here | respondResend here | complete here | handOver here
  | channelClosed here | subscribe here | subscribeAgain here | takeFailed here
  | ignoreFailed here | takePersisted here | ignorePersisted here | timeout here
  | storeLatest here | removeAcknowledged here | removeFailed here | removeTimedOut here =>
    rw [here] at h
    cases h

/-- A session whose end has begun never waits for a request again. -/
lemma run_terminal {state state' : World × Session} {actions : List AssemblyAct}
    (h : state.2.task.terminal)
    (hrun : run (assemblyStep cfg codec id) state actions = some state') :
    state'.2.task ≠ .idle := by
  have hinv : state'.2.task.terminal := by
    refine run_inv_of_step (I := fun state => state.2.task.terminal) ?_ h hrun
    intro s a s' hs hstep
    have hears : ∀ {session : Session}, s.2.Hears session → session.task.terminal := by
      intro session hears
      cases hears with
      | nothing => exact hs
      | failed here | either here => rw [here] at hs; cases hs
    cases a with
    | own act => exact (Session.step_cases hstep).terminal hs
    | interfere world => cases hstep; exact hs
    | failed event => cases hstep; exact hears (Session.deliverFailed_hears event)
    | persisted event => cases hstep; exact hears (Session.deliverPersisted_hears event)
  intro hidle
  rw [hidle] at hinv
  cases hinv

/-! ### Refusals -/

/-- While the session has nothing to do, the others change nothing that it sees. -/
lemma run_others {actions : List AssemblyAct} (hdeaf : session.Deaf)
    (hsupports : Along (assemblyStep cfg codec id) (Supports numbers) (world, session) actions)
    (hown : ∀ act ∈ actions, act.session? = none) :
    ∃ world', run (assemblyStep cfg codec id) (world, session) actions = some (world', session) ∧
      world.Same numbers world' := by
  induction actions generalizing world with
  | nil => exact ⟨world, rfl, .refl world⟩
  | cons act actions ih =>
    have hact := hown act List.mem_cons_self
    have hstep : ∃ world₁, assemblyStep cfg codec id (world, session) act =
        some (world₁, session) ∧ world.Same numbers world₁ := by
      cases act with
      | own act => cases hact
      | interfere world₁ => exact ⟨world₁, rfl, hsupports.1⟩
      | failed event => exact hsupports.1.elim
      | persisted event =>
        refine ⟨world, ?_, .refl world⟩
        rw [assemblyStep, (Session.deliverPersisted_hears event).eq_of_deaf hdeaf]
    obtain ⟨world₁, hstep, hsame⟩ := hstep
    obtain ⟨world', hrun, hsame'⟩ := ih ((along_cons hstep).mp hsupports).2
      fun a ha => hown a (List.mem_cons_of_mem _ ha)
    exact ⟨world', by rw [run_cons hstep, hrun], hsame.trans hsame'⟩

/-- The session's next step comes in a state that looks the same. -/
lemma run_next {actions : List AssemblyAct} {rest : List SessionAct} (hdeaf : session.Deaf)
    (hsupports : Along (assemblyStep cfg codec id) (Supports numbers) (world, session) actions)
    (hown : actions.filterMap AssemblyAct.session? = act :: rest) :
    ∃ world' back, world.Same numbers world' ∧ back.filterMap AssemblyAct.session? = rest ∧
      Along (assemblyStep cfg codec id) (Supports numbers) (world', session) (.own act :: back) ∧
      run (assemblyStep cfg codec id) (world, session) actions =
        run (assemblyStep cfg codec id) (world', session) (.own act :: back) := by
  obtain ⟨front, next, back, rfl, hfront, hnext, hback⟩ := List.filterMap_eq_cons_iff.mp hown
  obtain rfl : next = .own act := by
    cases next with
    | own act' => cases hnext; rfl
    | _ => cases hnext
  obtain ⟨world', hrun, hsame⟩ := run_others hdeaf hsupports.left hfront
  exact ⟨world', back, hsame, hback, ((along_append hrun _).mp hsupports).2, run_append hrun _⟩

lemma onHeader_terminal {latest m : Int64} {set : List BlockItem} (h : ¬ latest < m) :
    (session.onHeader latest m set).task.terminal := by
  unfold Session.onHeader
  split_ifs with hbehind hsame
  · rfl
  · rfl
  · rw [Int64.lt_iff_toInt_lt] at h hbehind
    exact absurd (Int64.toInt_inj.mp (by omega)) hsame

lemma Ready.deaf {state : World × Session} (h : Ready numbers shown state) : state.2.Deaf := by
  constructor <;> simp [h.idle]

/-- A header at or below the watermark ends the session. -/
lemma Ready.refuse_header {block : SentBlock} {rest : List SessionAct}
    {state state' : World × Session} {actions : List AssemblyAct} (h : Ready numbers shown state)
    (hblock : WholeBlock block.number block.sets.flatten) (hsized : Sized cfg block.sets)
    (hbehind : ¬ shown.latestPersistedBlock < block.number.toInt64)
    (hown : actions.filterMap AssemblyAct.session? = turns block.sets ++ rest)
    (hsupports : Along (assemblyStep cfg codec id) (Supports numbers) state actions)
    (hrun : run (assemblyStep cfg codec id) state actions = some state') :
    state'.2.task ≠ .idle := by
  obtain ⟨number, sets, ended⟩ := block
  rcases sets with _ | ⟨set, sets⟩
  · obtain ⟨_, _, _, _, hnil, -⟩ := hblock
    cases hnil
  obtain ⟨world₁, back, hsame₁, hown₁, hsupports₁, heq⟩ := run_next h.deaf hsupports hown
  rw [heq] at hrun
  have hstep₁ : assemblyStep cfg codec id (world₁, state.2) (.own (.request (.blockItems set))) =
      some (world₁, state.2.goto (.header number.toInt64 set)) :=
    step_request_header h.idle hblock hsized
  rw [run_cons hstep₁] at hrun
  have hdeaf : (state.2.goto (.header number.toInt64 set)).Deaf := by
    constructor <;> simp
  obtain ⟨world₂, back', hsame₂, hown₂, -, heq⟩ :=
    run_next hdeaf ((along_cons hstep₁).mp hsupports₁).2 hown₁
  rw [heq] at hrun
  have hlatest : world₂.latestPersistedBlock = shown.latestPersistedBlock := by
    rw [hsame₂.latest, hsame₁.latest, h.same.latest]
  have hstep₂ : assemblyStep cfg codec id (world₂, state.2.goto (.header number.toInt64 set))
      (.own .go) = some (world₂, (state.2.goto (.header number.toInt64 set)).onHeader
        shown.latestPersistedBlock number.toInt64 set) := by
    rw [← hlatest]
    rfl
  rw [run_cons hstep₂] at hrun
  exact run_terminal (onHeader_terminal hbehind) hrun

/-- So does a `BlockEnd` when there is no block. -/
lemma Ready.refuse_end {rest : List SessionAct} {state state' : World × Session}
    {actions : List AssemblyAct} (h : Ready numbers shown state)
    (hnone : state.2.currentBlockAction = none)
    (hown : actions.filterMap AssemblyAct.session? = .request (.endOfBlock n) :: rest)
    (hsupports : Along (assemblyStep cfg codec id) (Supports numbers) state actions)
    (hrun : run (assemblyStep cfg codec id) state actions = some state') :
    state'.2.task ≠ .idle := by
  obtain ⟨world₁, back, -, -, -, heq⟩ := run_next h.deaf hsupports hown
  rw [heq] at hrun
  obtain ⟨state₁, hstep, hrun⟩ := run_cons_eq_some hrun
  refine run_terminal ?_ hrun
  have hreject : state.2.step cfg codec id world₁ (.request (.endOfBlock n)) =
      some (world₁, state.2.handleBlockEnd n) := by
    rw [(Session.Step.request h.idle).step_eq, Session.handleRequest]
  obtain rfl : (world₁, state.2.handleBlockEnd n) = state₁ :=
    Option.some.inj (hreject.symm.trans hstep)
  have hother : ¬ (state.2.currentBlockAction = some .accept ∧
      n.toInt64 = state.2.currentBlockNumber) := by
    simp [hnone]
  rw [Session.handleBlockEnd, if_neg hother]
  rfl

/-! ### Block after block -/

/-- Every `handle_request` has returned false, and each block has been acknowledged once. -/
def AllServed (cfg : PublishConfig) (codec : Codec) (id : ℕ) (state : World × Session)
    (actions : List AssemblyAct) (blocks : List SentBlock) : Prop :=
  ∃ state', run (assemblyStep cfg codec id) state actions = some state' ∧
    state'.2.task = .idle ∧ state'.1.sent =
      (blocks.map fun block => (id, .acknowledgement block.number)).reverse ++ state.1.sent

/-- No block is followed by a `BlockEnd`, and the numbers go up from the watermark. -/
def Acceptable (latest : Int64) (blocks : List SentBlock) : Prop :=
  (∀ block ∈ blocks, block.ended = false) ∧
    (latest :: blocks.map fun block => block.number.toInt64).IsChain (· < ·)

lemma acceptable_cons {latest : Int64} {block : SentBlock} {blocks : List SentBlock} :
    Acceptable latest (block :: blocks) ↔ block.ended = false ∧ latest < block.number.toInt64 ∧
      Acceptable block.number.toInt64 blocks := by
  simp only [Acceptable, List.forall_mem_cons, List.map_cons, List.isChain_cons_cons]
  tauto

lemma served_append {block : SentBlock} {blocks : List SentBlock} {state state' : World × Session}
    {front back : List AssemblyAct}
    (hrun : run (assemblyStep cfg codec id) state front = some state')
    (hsent : state'.1.sent = (id, .acknowledgement block.number) :: state.1.sent) :
    AllServed cfg codec id state (front ++ back) (block :: blocks) ↔
      AllServed cfg codec id state' back blocks := by
  unfold AllServed
  rw [run_append hrun, hsent]
  simp

lemma Ready.served_iff {blocks : List SentBlock} {state : World × Session}
    {actions : List AssemblyAct} (h : Ready numbers shown state)
    (hblocks : ∀ block ∈ blocks, WholeBlock block.number block.sets.flatten ∧
      Sized cfg block.sets ∧ block.number ∈ numbers)
    (hactive : shown.activeSessions = [id])
    (hvacant : ∀ block ∈ blocks, shown.blockWinners.get block.number.toNat = none)
    (hown : actions.filterMap AssemblyAct.session? = blocks.flatMap (SentBlock.script id))
    (hsupports : Along (assemblyStep cfg codec id) (Supports numbers) state actions) :
    AllServed cfg codec id state actions blocks ↔
      Acceptable shown.latestPersistedBlock blocks := by
  induction blocks generalizing state shown actions with
  | nil =>
    obtain ⟨world', hrun, hsame⟩ := run_others h.deaf hsupports
      (List.filterMap_eq_nil_iff.mp hown)
    refine iff_of_true ⟨_, hrun, h.idle, hsame.sent⟩ ⟨by simp, by simp⟩
  | cons block blocks ih =>
    obtain ⟨hblock, hsized, hn⟩ := hblocks block List.mem_cons_self
    rw [acceptable_cons]
    have hscript : actions.filterMap AssemblyAct.session? =
        turns block.sets ++ ([SessionAct.go, SessionAct.go] ++ (settling id ++
          ((if block.ended then [SessionAct.request (.endOfBlock block.number)] else []) ++
            blocks.flatMap (SentBlock.script id)))) := by
      rw [hown, List.flatMap_cons, SentBlock.script]
      simp only [List.append_assoc]
    by_cases hahead : shown.latestPersistedBlock < block.number.toInt64
    · obtain ⟨front, back, state', rfl, hback, hrun, hnone, hready, hsupports'⟩ :=
        h.publish hblock hsized hn hactive hahead (hvacant block List.mem_cons_self) hscript
          hsupports
      have hsent : state'.1.sent = (id, .acknowledgement block.number) :: state.1.sent := by
        rw [hready.same.sent, h.same.sent]
        rfl
      rw [served_append hrun hsent]
      rcases hended : block.ended with _ | _
      · rw [hended] at hback
        have hvacant' : ∀ b ∈ blocks,
            (published id shown block.number).blockWinners.get b.number.toNat = none := by
          intro b hb
          have hb' := hvacant b (List.mem_cons_of_mem _ hb)
          simp only [published, World.unclaim_get]
          split_ifs with heq
          · rfl
          · simpa [acknowledged, stored, World.send, heq] using hb'
        rw [ih hready (fun b hb => hblocks b (List.mem_cons_of_mem _ hb)) hactive hvacant' hback
          hsupports']
        exact ⟨fun hrest => ⟨rfl, hahead, hrest⟩, fun hall => hall.2.2⟩
      · refine iff_of_false ?_ fun hacceptable => Bool.noConfusion hacceptable.1
        rintro ⟨state'', hrun', hidle, -⟩
        rw [hended] at hback
        exact hready.refuse_end hnone hback hsupports' hrun' hidle
    · refine iff_of_false ?_ fun hacceptable => hahead hacceptable.2.1
      rintro ⟨state', hrun, hidle, -⟩
      exact h.refuse_header hblock hsized hahead hscript hsupports hrun hidle

end

/-- **A publisher that is alone.** One session sends block after block, each from its header to its
proof, some of them followed by a `BlockEnd`; nobody else is active, and every block is persisted
while the session waits for it. Then every `handle_request` returns false and each block is
acknowledged once exactly if no `BlockEnd` was sent and the numbers, as `i64`, go up from the
watermark. -/
theorem publisher_served_iff {cfg : PublishConfig} {codec : Codec} {id : ℕ} {world : World}
    {session : Session} {blocks : List SentBlock} {actions : List AssemblyAct}
    (hidle : session.task = .idle) (hempty : session.itemBuffer = [])
    (hblocks : ∀ block ∈ blocks, WholeBlock block.number block.sets.flatten ∧
      Sized cfg block.sets)
    (hactive : world.activeSessions = [id])
    (hvacant : ∀ block ∈ blocks, world.blockWinners.get block.number.toNat = none)
    (hown : actions.filterMap AssemblyAct.session? = blocks.flatMap (SentBlock.script id))
    (hsupports : Along (assemblyStep cfg codec id) (Supports (blocks.map SentBlock.number))
      (world, session) actions) :
    AllServed cfg codec id (world, session) actions blocks ↔
      Acceptable world.latestPersistedBlock blocks := by
  have hready : Ready (blocks.map SentBlock.number) world (world, session) :=
    ⟨hidle, hempty, .refl world⟩
  refine hready.served_iff (fun block hblock => ?_) hactive hvacant hown hsupports
  obtain ⟨hwhole, hsized⟩ := hblocks block hblock
  exact ⟨hwhole, hsized, List.mem_map_of_mem hblock⟩

/-- Session 0 publishes block `n` under the key, which is then persisted. -/
def publishAlone (n : UInt64) (key : ℕ) (sets : List (List BlockItem)) : List AssemblyAct :=
  (turns sets).map .own ++ [.own .go, .own .go, .own .go, .own .go, .persisted ⟨n, key⟩,
    .own .takePersisted, .own .go, .own (.visit 0), .own .finish, .own .go]

/-- Session 0 has been registered, and nothing else has happened. -/
def aloneWorld : World := { World.init none with activeSessions := [0] }

theorem publisher_served_iff_two :
    AllServed tenItems plainCodec 0 (aloneWorld, .new)
      (publishAlone 5 0 [[headerItem 5], [proofItem 5]] ++
        publishAlone 6 1 [[headerItem 6, proofItem 6]])
      [⟨5, [[headerItem 5], [proofItem 5]], false⟩,
        ⟨6, [[headerItem 6, proofItem 6]], false⟩] := by
  refine (publisher_served_iff rfl rfl ?_ rfl (by decide) rfl (by decide +kernel)).mpr
    (by unfold Acceptable; decide)
  have hpair : ∀ n, WholeBlock n [headerItem n, proofItem n] := fun n =>
    ⟨headerItem n, ⟨n, []⟩, [], proofItem n, rfl, rfl, rfl, by simp, rfl⟩
  rw [List.forall_mem_cons, List.forall_mem_singleton]
  exact ⟨⟨hpair 5, by unfold Sized; decide⟩, hpair 6, by unfold Sized; decide⟩

/-- The publisher sends block 5 and, when it has been acknowledged, its `BlockEnd`. -/
def endFive : List AssemblyAct :=
  publishAlone 5 0 [[headerItem 5], [proofItem 5]] ++ [.own (.request (.endOfBlock 5))]

/-- The session answers with `EndOfStream`. -/
theorem publisher_cut_off :
    endFive.filterMap AssemblyAct.session? =
      SentBlock.script 0 ⟨5, [[headerItem 5], [proofItem 5]], true⟩ ∧
    Along (assemblyStep tenItems plainCodec 0) (Supports [5]) (aloneWorld, .new) endFive ∧
    (∃ state, run (assemblyStep tenItems plainCodec 0) (aloneWorld, .new) endFive = some state ∧
      state.2.task = .respond (.endStream .error 0) .leave) ∧
    ¬ AllServed tenItems plainCodec 0 (aloneWorld, .new) endFive
      [⟨5, [[headerItem 5], [proofItem 5]], true⟩] := by
  have hsome : ∃ state ∈ run (assemblyStep tenItems plainCodec 0) (aloneWorld, .new) endFive,
      state.2.task = .respond (.endStream .error 0) .leave := by decide +kernel
  obtain ⟨state, hrun, htask⟩ := hsome
  refine ⟨rfl, by decide +kernel, ⟨state, hrun, htask⟩, ?_⟩
  rintro ⟨state', hrun', hidle, -⟩
  obtain rfl : state = state' := Option.some.inj (hrun.symm.trans hrun')
  rw [htask] at hidle
  cases hidle

end RockNode
