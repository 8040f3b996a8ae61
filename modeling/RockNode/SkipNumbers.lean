import RockNode.Skips

/-!
The block number in a `SkipBlock`.

A session that loses an election says which block its publisher should skip. If it finds the
winner when it reads the entry, it has made the header its current number; if somebody comes
first between that and its own claim, the current number is still that of an earlier block, or 0.
-/

namespace RockNode

/-! ### Headers received -/

/-- The numbers of the headers in a set. -/
def headersIn (set : List BlockItem) : List UInt64 :=
  (set.filterMap BlockItem.header?).map BlockHeader.number

/-- The headers that a step receives, with the session. -/
def headersReceived (_ : Pipeline) : PipelineAct → List (ℕ × UInt64)
  | .session id (.request (.blockItems set)) => (headersIn set).map (Prod.mk id)
  | _ => []

/-- The number of the header that the session received last. -/
def lastHeader (log : List (ℕ × UInt64)) (id : ℕ) : Option UInt64 :=
  ((log.filter fun e => e.1 = id).getLast?).map Prod.snd

lemma lastHeader_others {log new : List (ℕ × UInt64)} {id : ℕ} (h : ∀ e ∈ new, e.1 ≠ id) :
    lastHeader (log ++ new) id = lastHeader log id := by
  have hnone : new.filter (fun e => e.1 = id) = [] := by simpa using h
  rw [lastHeader, List.filter_append, hnone, List.append_nil, lastHeader]

lemma lastHeader_own {log : List (ℕ × UInt64)} {id : ℕ} {numbers : List UInt64}
    (h : numbers ≠ []) :
    lastHeader (log ++ numbers.map (Prod.mk id)) id = numbers.getLast? := by
  have hall : (numbers.map (Prod.mk id)).filter (fun e => e.1 = id) =
      numbers.map (Prod.mk id) := by simp
  rw [lastHeader, List.filter_append, hall, List.getLast?_append_of_ne_nil _ (by simpa using h),
    List.getLast?_map]
  simp

lemma headersIn_ne_nil {set : List BlockItem} {n : Int64} (h : headerNumber set = some n) :
    headersIn set ≠ [] := by
  obtain ⟨header, hfind, -⟩ := Option.map_eq_some_iff.mp h
  obtain ⟨item, hitem, hheader⟩ := List.exists_of_findSome?_eq_some hfind
  have hmem : header.number ∈ headersIn set :=
    List.mem_map_of_mem (List.mem_filterMap.mpr ⟨item, hitem, hheader⟩)
  exact List.ne_nil_of_mem hmem

namespace Session

variable {session session' : Session} {cfg : PublishConfig} {codec : Codec} {id : ℕ}
  {world world' : World} {act : SessionAct} {set : List BlockItem}

/-- The set whose header the session is dealing with. -/
def asking (session : Session) : Option (List BlockItem) :=
  match session.task with
  | .header _ set | .lookup _ set | .elect _ set => some set
  | _ => none

/-- What the session is about to say to its publisher because the block has a winner, and the set
with the header. -/
def losing (id : ℕ) (world : World) (session : Session) : Option (UInt64 × List BlockItem) :=
  match session.task with
  | .lookup n set =>
    match world.blockWinners.get n.toUInt64.toNat with
    | some w => if w = id then none else some (n.toUInt64, set)
    | none => none
  | .elect n set =>
    match world.blockWinners.get n.toUInt64.toNat with
    | some _ => some (session.blockNumber, set)
    | none => none
  | _ => none

lemma asking_of_losing {e : UInt64 × List BlockItem} (h : e ∈ session.losing id world) :
    e.2 ∈ session.asking := by
  unfold losing at h
  split at h
  · next n set here =>
    have hasks : session.asking = some set := by simp only [asking, here]
    split at h
    · split_ifs at h
      · cases h
      · cases h
        exact hasks
    · cases h
  · next n set here =>
    have hasks : session.asking = some set := by simp only [asking, here]
    split at h
    · cases h
      exact hasks
    · cases h
  · cases h

/-! ### What a step says -/

lemma execute_skipping {action : BlockAction} (h : action ≠ .skip) :
    (session.execute action set).task.skipping = none := by
  cases action with
  | accept =>
    unfold execute handleAccept
    dsimp only
    split_ifs <;> rfl
  | skip => exact absurd rfl h
  | _ => rfl

lemma handleRequest_skipping (request : Request) :
    (session.handleRequest cfg request).task.skipping = none := by
  cases request with
  | blockItems set =>
    simp only [handleRequest, handleBlockItems]
    split
    · rfl
    · split
      · rfl
      · rfl
      · exact execute_skipping (by decide)
  | endOfBlock n =>
    simp only [handleRequest, handleBlockEnd]
    split_ifs <;> rfl
  | endStream earliest latest => rfl

lemma onHeader_skipping {latest n : Int64} :
    (session.onHeader latest n set).task.skipping = none := by
  unfold onHeader
  split_ifs <;> rfl

lemma onStreaming_skipping {winner : Option ℕ} :
    (session.onStreaming id winner set).task.skipping = none := by
  unfold onStreaming
  split
  · split_ifs
    · exact execute_skipping (by decide)
    · rfl
  · rfl

/-- **A session says `SkipBlock` when it has lost**, by the entry it reads or by the race. -/
lemma Step.skipping (step : Step cfg codec id world session act world' session') :
    session'.task.skipping = (session.losing id world).map Prod.fst := by
  have hno : (∀ n set, session.task ≠ .lookup n set) → (∀ n set, session.task ≠ .elect n set) →
      session.losing id world = none := by
    intro hlookup helect
    unfold losing
    split
    · next n set here => exact absurd here (hlookup n set)
    · next n set here => exact absurd here (helect n set)
    · rfl
  cases step with
  | request here => rw [handleRequest_skipping, hno (by simp [here]) (by simp [here])]; rfl
  | header here => rw [onHeader_skipping, hno (by simp [here]) (by simp [here])]; rfl
  | @lookup n set here =>
    simp only [losing, here, onLookup]
    rcases world.blockWinners.get n.toUInt64.toNat with _ | w
    · rfl
    · by_cases hw : w = id
      · simp only [hw, if_true]
        rfl
      · simp only [hw, if_false]
        rfl
  | elected here vacant =>
    simp only [losing, here, vacant, onElected]
    exact execute_skipping (by decide)
  | occupied here taken =>
    simp only [losing, here, taken, onOccupied]
    rfl
  | streaming here => rw [onStreaming_skipping, hno (by simp [here]) (by simp [here])]; rfl
  | @finish _ _ _ next here =>
    rw [hno (by simp [here]) (by simp [here])]
    cases next <;> rfl
  | hangUp here | behind here | respondReset here | respondLeave here | respondResend here
  | complete here | handOver here | channelClosed here | subscribe here | subscribeAgain here
  | takeFailed here | ignoreFailed here | takePersisted here | ignorePersisted here
  | timeout here | storeLatest here | visit here | removeAcknowledged here | removeFailed here
  | removeTimedOut here | endStream here | crash here | leave here | collect here
  | collected here | release here | unregister here =>
    rw [hno (by simp [here]) (by simp [here])]
    rfl

/-- Only the task that is dealing with a header can lose, and it has one way to go on. -/
lemma Step.go_of_losing (step : Step cfg codec id world session act world' session')
    {e : UInt64 × List BlockItem} (h : e ∈ session.losing id world) : act = .go := by
  have hset := asking_of_losing h
  unfold asking at hset
  cases step with
  | header | lookup | elected | occupied => rfl
  | _ => simp_all

/-- A session that has lost can go on. -/
lemma exists_step_of_losing (cfg : PublishConfig) (codec : Codec) {e : UInt64 × List BlockItem}
    (h : e ∈ session.losing id world) :
    ∃ world' session', Step cfg codec id world session .go world' session' := by
  unfold losing at h
  split at h
  · next n set here => exact ⟨_, _, .lookup here⟩
  · next n set here =>
    split at h
    · next w taken => exact ⟨_, _, .occupied here taken⟩
    · cases h
  · cases h

lemma execute_asking (action : BlockAction) : (session.execute action set).asking = none := by
  cases action with
  | accept =>
    unfold execute handleAccept asking
    dsimp only
    split_ifs <;> rfl
  | _ => rfl

/-- A set is asked about when it comes in, and then until the answer is known. -/
lemma Step.asking (step : Step cfg codec id world session act world' session')
    (h : set ∈ session'.asking) :
    (act = .request (.blockItems set) ∧ headersIn set ≠ []) ∨
      (act = .go ∧ set ∈ session.asking) := by
  cases step with
  | @request request here =>
    cases request with
    | blockItems set' =>
      simp only [handleRequest, handleBlockItems] at h
      split at h
      · cases h
      · split at h
        · next n hn =>
          cases h
          exact .inl ⟨rfl, headersIn_ne_nil hn⟩
        · cases h
        · rw [execute_asking] at h
          cases h
    | endOfBlock n =>
      simp only [handleRequest, handleBlockEnd] at h
      split_ifs at h <;> cases h
    | endStream earliest latest => cases h
  | header here =>
    unfold onHeader at h
    split_ifs at h
    · cases h
    · cases h
    · cases h
      exact .inr ⟨rfl, by simp [Session.asking, here]⟩
  | lookup here =>
    unfold onLookup at h
    split at h
    · split_ifs at h <;> cases h
    · cases h
      exact .inr ⟨rfl, by simp [Session.asking, here]⟩
  | elected =>
    unfold onElected at h
    rw [execute_asking] at h
    cases h
  | streaming =>
    unfold onStreaming at h
    split at h
    · split_ifs at h
      · rw [execute_asking] at h
        cases h
      · cases h
    · cases h
  | @finish _ _ _ next => cases next <;> cases h
  | _ => cases h

lemma Hears.asking (h : session.Hears session') : session'.asking = session.asking := by
  cases h with
  | nothing => rfl
  | failed here | either here => simp [Session.asking, here]

lemma Hears.skipping (h : session.Hears session') :
    session'.task.skipping = session.task.skipping := by
  cases h with
  | nothing => rfl
  | failed here | either here => rw [here]; rfl

end Session

/-! ### Runs -/

namespace Pipeline

variable {cfg : PipelineConfig} {codec : Codec} {p : Pipeline} {log : List (ℕ × UInt64)}
  {state state' : Pipeline × List (ℕ × UInt64)} {act : PipelineAct} {β : Type}
  {f : Session → Option β} {g : β → Option UInt64}

/-- What is read off a session agrees with the last header it received. -/
def Matches (f : Session → Option β) (g : β → Option UInt64)
    (state : Pipeline × List (ℕ × UInt64)) : Prop :=
  ∀ id session x, state.1.sessions id = some session → x ∈ f session →
    lastHeader state.2 id = g x

/-- Every `SkipBlock` on its way names the header that its session received last. -/
def SkipsNamed : Pipeline × List (ℕ × UInt64) → Prop :=
  Matches (fun session => session.task.skipping) some

/-- The set that a session is dealing with is the last one with a header. -/
def AsksLast : Pipeline × List (ℕ × UInt64) → Prop :=
  Matches Session.asking fun set => (headersIn set).getLast?

/-- A step of another session receives nothing for this one. -/
lemma headersReceived_other {id j : ℕ} {sact : SessionAct} (h : j ≠ id) :
    ∀ e ∈ headersReceived p (.session id sact), e.1 ≠ j := by
  unfold headersReceived
  split
  · next heq =>
    cases heq
    intro e he
    obtain ⟨n, -, rfl⟩ := List.mem_map.mp he
    exact h.symm
  · simp

lemma headersReceived_go {id : ℕ} : headersReceived p (.session id .go) = [] := rfl

/-- A step keeps the agreement if it keeps it for the session that takes it. -/
lemma step_matches (hnew : f .new = none)
    (hhears : ∀ {session session' : Session}, session.Hears session' → f session' = f session)
    (h : Matches f g state)
    (hstep : recorded (step cfg codec) headersReceived state act = some state')
    (hown : ∀ {id sact session session' x}, act = .session id sact →
      state.1.sessions id = some session → state'.1.sessions id = some session' →
      (∃ world, session.Step cfg.publish codec id state.1.world sact world session') →
      x ∈ f session' → lastHeader state'.2 id = g x) : Matches f g state' := by
  obtain ⟨p, log⟩ := state
  obtain ⟨p', log'⟩ := state'
  obtain ⟨hstep, rfl⟩ := recorded_eq_some hstep
  have hdeliver : ∀ {event : Session → Session},
      (∀ session : Session, session.Hears (event session)) →
      p'.sessions = (fun id => (p.sessions id).map event) →
      headersReceived p act = [] → Matches f g (p', log ++ headersReceived p act) := by
    intro event hears hsessions hobs id session' x hid hx
    simp only [hsessions] at hid
    obtain ⟨session, hsession, rfl⟩ := Option.map_eq_some_iff.mp hid
    rw [hhears (hears session)] at hx
    rw [hobs, List.append_nil]
    exact h id session x hsession hx
  cases step_cases hstep with
  | connect =>
    intro id session x hid hx
    rcases update_sessions hid with ⟨rfl, rfl⟩ | ⟨-, hid⟩
    · rw [hnew] at hx
      cases hx
    · simpa [headersReceived] using h id session x hid hx
  | @session id sact session world session' here sstep =>
    intro j other x hj hx
    rcases update_sessions hj with ⟨rfl, rfl⟩ | ⟨hne, hj'⟩
    · exact hown rfl here hj ⟨world, sstep⟩ hx
    · rw [lastHeader_others (headersReceived_other hne)]
      exact h j other x hj' hx
  | fail => exact hdeliver (fun _ => Session.deliverFailed_hears _) rfl rfl
  | broadcast => exact hdeliver (fun _ => Session.deliverPersisted_hears _) rfl rfl
  | _ => exact fun id session x hid hx => by simpa [headersReceived] using h id session x hid hx

lemma step_asksLast (h : AsksLast state)
    (hstep : recorded (step cfg codec) headersReceived state act = some state') :
    AsksLast state' := by
  refine step_matches rfl (fun hears => hears.asking) h hstep ?_
  rintro id sact session session' set rfl here - ⟨world, sstep⟩ hset
  rw [(recorded_eq_some hstep).2]
  rcases sstep.asking hset with ⟨rfl, hne⟩ | ⟨rfl, hset⟩
  · exact lastHeader_own hne
  · rw [headersReceived_go, List.append_nil]
    exact h id session set here hset

/-- A session that loses says the number of the last header in the set it is dealing with. -/
def LosesNamed : Pipeline → PipelineAct → Prop :=
  AtSession fun p id session act => act = .go →
    ∀ e ∈ session.losing id p.world, (headersIn e.2).getLast? = some e.1

instance LosesNamed.decidable (p : Pipeline) (act : PipelineAct) :
    Decidable (LosesNamed p act) :=
  have (p : Pipeline) (id : ℕ) (session : Session) :
      Decidable (∀ e ∈ session.losing id p.world, (headersIn e.2).getLast? = some e.1) :=
    Option.decidableForallMem _
  inferInstanceAs (Decidable (AtSession _ p act))

lemma losesNamed_of_none (h : p.step cfg codec act = none) : LosesNamed p act := by
  cases act with
  | session id sact =>
    rintro session here rfl e he
    obtain ⟨world, session', hstep⟩ := Session.exists_step_of_losing cfg.publish codec he
    simp [step, sessionStep, Option.mem_def.mp here, hstep.step_eq] at h
  | _ => trivial

/-- **One step.** -/
lemma step_skipsNamed_iff (hasks : AsksLast state) (h : SkipsNamed state)
    (hstep : recorded (step cfg codec) headersReceived state act = some state') :
    SkipsNamed state' ↔ LosesNamed state.1 act := by
  constructor
  · intro hnamed
    cases act with
    | session id sact =>
      rintro session here rfl e he
      obtain ⟨p', log'⟩ := state'
      obtain ⟨hp, rfl⟩ := recorded_eq_some hstep
      cases step_cases hp with
      | @session _ _ session₁ world session' here₁ sstep =>
        cases Option.some.inj (here.symm.trans here₁)
        have hskip : e.1 ∈ session'.task.skipping := by
          rw [sstep.skipping, Option.mem_def.mp he]
          rfl
        have hlast := hnamed id session' e.1 (Function.update_self ..) hskip
        rw [headersReceived_go, List.append_nil] at hlast
        exact (hasks id session e.2 here (Session.asking_of_losing he)).symm.trans hlast
    | _ => trivial
  · intro hloses
    refine step_matches rfl (fun hears => hears.skipping) h hstep ?_
    rintro id sact session session' m rfl here - ⟨world, sstep⟩ hm
    rw [sstep.skipping] at hm
    obtain ⟨e, he, rfl⟩ := Option.map_eq_some_iff.mp hm
    cases sstep.go_of_losing he
    rw [(recorded_eq_some hstep).2, headersReceived_go, List.append_nil,
      hasks id session e.2 here (Session.asking_of_losing he)]
    exact hloses session here rfl e he

/-- **`SkipBlock` names the header received last**, in every state of a run, exactly if every
session that loses says the number of the last header in its set. -/
theorem skip_names_header_iff {blocks : List Block} {plugin : StatePlugin}
    {actions : List PipelineAct} :
    (∀ k state, run (recorded (step cfg codec) headersReceived)
        (init cfg codec blocks plugin, []) (actions.take k) = some state → SkipsNamed state) ↔
      Along (step cfg codec) LosesNamed (init cfg codec blocks plugin) actions := by
  rw [← along_recorded []]
  refine along_iff_of_step (I := AsksLast) (fun h hstep => step_asksLast h hstep)
    (fun hI hQ hstep => step_skipsNamed_iff hI hQ hstep) (fun {s a} hnone => ?_)
    (fun id session x h => by cases h) (fun id session x h => by cases h) actions
  have hstep : s.1.step cfg codec a = none := by simpa [recorded] using hnone
  exact losesNamed_of_none hstep

/-- Sessions 0 and 1 both read the vacant entry of block 5, then session 1 claims it. -/
def raceForFive : List PipelineAct :=
  [.connect, .connect, .session 0 (.request (.blockItems [headerItem 5])),
    .session 1 (.request (.blockItems [headerItem 5])), .session 0 .go, .session 1 .go,
    .session 0 .go, .session 1 .go, .session 1 .go, .session 0 .go, .session 0 .go]

/-- Session 0 is told to skip block 0. -/
theorem skip_names_zero :
    ∃ state, run (recorded (step smallNode plainCodec) headersReceived) (smallStart, [])
        raceForFive = some state ∧
      lastHeader state.2 0 = some 5 ∧ state.1.world.sent = [(0, .skipBlock 0)] := by
  have hsome : ∃ state ∈ run (recorded (step smallNode plainCodec) headersReceived)
      (smallStart, []) raceForFive,
      lastHeader state.2 0 = some 5 ∧ state.1.world.sent = [(0, Response.skipBlock 0)] := by
    decide +kernel
  obtain ⟨state, hrun, hstate⟩ := hsome
  exact ⟨state, hrun, hstate⟩

end Pipeline

end RockNode
