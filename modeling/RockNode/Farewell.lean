import RockNode.Winners

/-!
Whether a publisher is told that its stream ends.

`handle_request` returns true at many places. Where the session refuses what it got, and where a
block was not verified, it has sent one `EndOfStream` by then. A client that ends the stream
itself, a channel that is closed and a block that is not persisted in time get none.
-/

namespace RockNode

def Response.ends : Response → Bool
  | .endStream _ _ => true
  | _ => false

/-- How often the client of the session has been told. -/
def World.farewells (world : World) (id : ℕ) : ℕ :=
  world.sent.countP fun e => id = e.1 ∧ e.2.ends

/-- The session is about to tell its client. -/
def SessionTask.bidding : SessionTask → Bool
  | .respond response _ => response.ends
  | _ => false

/-- How often the client has been told before; after the end it does not matter. -/
def SessionTask.told : SessionTask → Option ℕ
  | .broadcast _ _ _ .failed | .removeFailed => some 1
  | .broadcast _ _ _ (.released _) | .leave | .collect _ _ | .release _ | .gone | .crashed => none
  | _ => some 0

/-- `EndOfStream` goes to the session's own client, and the session does not go on after it. -/
def SessionTask.civil : SessionTask → Bool
  | .respond response .reset => !response.ends
  | .respond response _ => response.ends
  | .broadcast message _ _ _ => !message.ends
  | _ => true

lemma farewells_send (world : World) (id target : ℕ) (response : Response) :
    (world.send target response).farewells id =
      world.farewells id + if id = target ∧ response.ends then 1 else 0 := by
  unfold World.farewells World.send
  simp [List.countP_cons]

namespace SessionTask

variable {task : SessionTask}

lemma civil_of_handled (h : task.handled) : task.civil := by
  cases task with
  | respond response next => cases response <;> cases next <;> first | rfl | cases h
  | _ => first | rfl | cases h

lemma told_of_handled (h : task.handled) : task.told = some 0 := by
  cases task with
  | respond response next => rfl
  | _ => first | rfl | cases h

end SessionTask

namespace Session

variable {session session' : Session} {cfg : PublishConfig} {codec : Codec} {id : ℕ}
  {world world' : World} {act : SessionAct}

lemma Step.civil (step : Step cfg codec id world session act world' session')
    (h : session.task.civil) : session'.task.civil := by
  cases step with
  | request => exact SessionTask.civil_of_handled (handleRequest_handled _)
  | header => exact SessionTask.civil_of_handled onHeader_handled
  | lookup => exact SessionTask.civil_of_handled onLookup_handled
  | elected | occupied => exact SessionTask.civil_of_handled (execute_handled _)
  | streaming => exact SessionTask.civil_of_handled onStreaming_handled
  | visit here => rw [here] at h; exact h
  | @finish _ _ _ next => cases next <;> rfl
  | _ => rfl

/-- **Who is told**: the session's own client, when the session is about to tell it. -/
lemma Step.farewells (step : Step cfg codec id world session act world' session')
    (h : session.task.civil) (j : ℕ) :
    world'.farewells j = world.farewells j + if j = id ∧ session.task.bidding then 1 else 0 := by
  cases step with
  | respondReset here | respondLeave here | respondResend here =>
    rw [farewells_send, here]
    rfl
  | visit here =>
    rw [here] at h
    have hquiet := Bool.not_eq_true' _ |>.mp h
    rw [farewells_send, here, hquiet]
    simp [SessionTask.bidding]
  | request here | hangUp here | header here | lookup here | elected here | occupied here
  | streaming here | behind here | complete here | handOver here | channelClosed here
  | subscribe here | subscribeAgain here | takeFailed here | ignoreFailed here
  | takePersisted here | ignorePersisted here | timeout here | storeLatest here | finish here
  | removeAcknowledged here | removeFailed here | removeTimedOut here | endStream here
  | crash here | leave here | collect here | collected here | release here | unregister here =>
    rw [here]
    simp only [SessionTask.bidding, Bool.false_eq_true, and_false, if_false]
    rfl

/-- What has been said before the next step. -/
lemma Step.told (step : Step cfg codec id world session act world' session')
    (h : session.task.civil) {k : ℕ} (hk : k ∈ session'.task.told) :
    ∃ k₀ ∈ session.task.told, k = k₀ + if session.task.bidding then 1 else 0 := by
  have hsame : session.task.bidding = false → k ∈ session.task.told →
      ∃ k₀ ∈ session.task.told, k = k₀ + if session.task.bidding then 1 else 0 := by
    intro hno hk
    exact ⟨k, hk, by rw [hno]; rfl⟩
  have hzero : session'.task.handled → session.task.bidding = false →
      session.task.told = some 0 →
      ∃ k₀ ∈ session.task.told, k = k₀ + if session.task.bidding then 1 else 0 := by
    intro hhandled hno htold
    rw [SessionTask.told_of_handled hhandled] at hk
    exact hsame hno (by rwa [htold])
  cases step with
  | request here => exact hzero (handleRequest_handled _) (by rw [here]; rfl) (by rw [here]; rfl)
  | header here => exact hzero onHeader_handled (by rw [here]; rfl) (by rw [here]; rfl)
  | lookup here => exact hzero onLookup_handled (by rw [here]; rfl) (by rw [here]; rfl)
  | elected here | occupied here =>
    exact hzero (execute_handled _) (by rw [here]; rfl) (by rw [here]; rfl)
  | streaming here => exact hzero onStreaming_handled (by rw [here]; rfl) (by rw [here]; rfl)
  | respondReset here =>
    rw [here] at h
    have hno : session.task.bidding = false := by
      rw [here]
      exact (Bool.not_eq_true' _).mp h
    exact hsame hno (by rw [here]; exact hk)
  | respondResend here =>
    cases hk
    rw [here] at h
    have hyes : session.task.bidding = true := by rw [here]; exact h
    exact ⟨0, by rw [here]; rfl, by rw [hyes]; rfl⟩
  | @visit _ _ _ next _ here =>
    exact hsame (by rw [here]; rfl) (by rw [here]; cases next <;> exact hk)
  | @finish _ _ _ next here =>
    refine hsame (by rw [here]; rfl) ?_
    rw [here]
    cases next <;> first | exact hk | cases hk
  | behind here | complete here | handOver here | subscribe here | subscribeAgain here
  | takeFailed here | ignoreFailed here | takePersisted here | ignorePersisted here
  | timeout here | storeLatest here | removeAcknowledged here | removeTimedOut here =>
    exact hsame (by rw [here]; rfl) (by rw [here]; exact hk)
  | hangUp | respondLeave | channelClosed | removeFailed | endStream | crash | leave | collect
  | collected | release | unregister => cases hk

/-! ### The exits of `handle_request` -/

/-- The shared state in which `handle_request` returns true with this step. -/
def returnsTrue (cfg : PublishConfig) (codec : Codec) (id : ℕ) (world : World) (session : Session)
    (act : SessionAct) : Option World :=
  match session.task, session.step cfg codec id world act with
  | .idle, _ => none
  | _, some (world', session') => if session'.task = .leave then some world' else none
  | _, none => none

/-- The client has ended the stream, the channel to the verifier is closed, or the block was not
persisted in time. -/
def silent (session : Session) : Bool :=
  match session.task with
  | .endStream _ | .handOver _ | .broadcast _ _ _ .timedOut => true
  | _ => false

lemma returnsTrue_eq_some (h : session.returnsTrue cfg codec id world act = some world') :
    session.task ≠ .idle ∧ ∃ session', Step cfg codec id world session act world' session' ∧
      session'.task = .leave := by
  unfold returnsTrue at h
  split at h
  · cases h
  · next hstep hidle =>
    split_ifs at h with hleave
    cases h
    exact ⟨fun htask => hidle htask, _, step_cases hstep, hleave⟩
  · cases h

/-- **The exits**: a session tells its client with the step, has told it before, or is silent. -/
lemma Step.exit (step : Step cfg codec id world session act world' session')
    (h : session.task.civil) (hidle : session.task ≠ .idle) (hleave : session'.task = .leave) :
    ∃ k₀ ∈ session.task.told, (k₀ + if session.task.bidding then 1 else 0) =
      if session.silent then 0 else 1 := by
  have hhandled : session'.task.handled → False := by
    rw [hleave]
    exact fun hno => by cases hno
  cases step with
  | request here | hangUp here => exact absurd here hidle
  | header => exact (hhandled onHeader_handled).elim
  | lookup => exact (hhandled onLookup_handled).elim
  | elected | occupied => exact (hhandled (execute_handled _)).elim
  | streaming => exact (hhandled onStreaming_handled).elim
  | respondLeave here =>
    rw [here] at h
    have hyes : session.task.bidding = true := by rw [here]; exact h
    have hsilent : session.silent = false := by simp only [silent, here]
    exact ⟨0, by rw [here]; rfl, by rw [hyes, hsilent]; rfl⟩
  | @finish _ _ _ next here =>
    cases next with
    | timedOut => exact ⟨0, by rw [here]; rfl, by simp [SessionTask.bidding, silent, here]⟩
    | _ => cases hleave
  | channelClosed here | endStream here =>
    exact ⟨0, by rw [here]; rfl, by simp [SessionTask.bidding, silent, here]⟩
  | removeFailed here => exact ⟨1, by rw [here]; rfl, by simp [SessionTask.bidding, silent, here]⟩
  | _ => cases hleave

lemma Hears.civil (h : session.Hears session') (hcivil : session.task.civil) :
    session'.task.civil := by
  cases h with
  | nothing => exact hcivil
  | failed | either => rfl

lemma Hears.told (h : session.Hears session') : session'.task.told = session.task.told := by
  cases h with
  | nothing => rfl
  | failed here | either here => rw [here]; rfl

end Session

/-! ### Runs -/

namespace Pipeline

variable {cfg : PipelineConfig} {codec : Codec} {p p' : Pipeline} {act : PipelineAct}

/-- When `handle_request` returns true, the client has been told once. -/
def ToldOnce (cfg : PipelineConfig) (codec : Codec) : Pipeline → PipelineAct → Prop :=
  AtSession fun p id session act =>
    ∀ world ∈ session.returnsTrue cfg.publish codec id p.world act, world.farewells id = 1

/-- `handle_request` does not return true at a silent exit. -/
def NeverSilent (cfg : PipelineConfig) (codec : Codec) : Pipeline → PipelineAct → Prop :=
  AtSession fun p id session act =>
    session.returnsTrue cfg.publish codec id p.world act ≠ none → session.silent = false

/-- Every client has been told as often as its session has said. -/
structure Counted (p : Pipeline) : Prop where
  enrolled : p.Enrolled
  civil : ∀ {id session}, p.sessions id = some session → session.task.civil
  told : ∀ {id session k}, p.sessions id = some session → k ∈ session.task.told →
    p.world.farewells id = k
  unknown : ∀ {id}, p.nextSession ≤ id → p.world.farewells id = 0

lemma init_counted (blocks : List Block) (plugin : StatePlugin) :
    (init cfg codec blocks plugin).Counted where
  enrolled := init_enrolled blocks plugin
  civil h := by cases h
  told h := by cases h
  unknown _ := rfl

lemma Counted.deliver (h : p.Counted) {f : Session → Session}
    (hears : ∀ session : Session, session.Hears (f session)) (henrolled : p'.Enrolled)
    (hsessions : p'.sessions = fun id => (p.sessions id).map f) (hworld : p'.world = p.world)
    (hnext : p'.nextSession = p.nextSession) : p'.Counted where
  enrolled := henrolled
  civil {id session'} hid := by
    rw [hsessions] at hid
    obtain ⟨session, hsession, rfl⟩ := Option.map_eq_some_iff.mp hid
    exact (hears session).civil (h.civil hsession)
  told {id session' k} hid hk := by
    rw [hsessions] at hid
    obtain ⟨session, hsession, rfl⟩ := Option.map_eq_some_iff.mp hid
    rw [(hears session).told] at hk
    rw [hworld]
    exact h.told hsession hk
  unknown hle := by
    rw [hnext] at hle
    rw [hworld]
    exact h.unknown hle

lemma session_counted (h : p.Counted) {id : ℕ} {sact : SessionAct} {session session' : Session}
    {world : World} (here : p.sessions id = some session)
    (step : session.Step cfg.publish codec id p.world sact world session') :
    Counted { p with
      world := world, sessions := Function.update p.sessions id (some session') } where
  enrolled := session_enrolled h.enrolled here step
  civil {j other} hj := by
    rcases update_sessions hj with ⟨rfl, rfl⟩ | ⟨-, hj⟩
    · exact step.civil (h.civil here)
    · exact h.civil hj
  told {j other k} hj hk := by
    change world.farewells j = k
    rw [step.farewells (h.civil here)]
    rcases update_sessions hj with ⟨rfl, rfl⟩ | ⟨hne, hj⟩
    · obtain ⟨k₀, hk₀, rfl⟩ := step.told (h.civil here) hk
      simp [h.told here hk₀]
    · simp [hne, h.told hj hk]
  unknown {j} hle := by
    have hne : j ≠ id := fun hj => absurd (h.enrolled.id_lt here) (by simpa [← hj] using hle)
    change world.farewells j = 0
    rw [step.farewells (h.civil here), h.unknown hle]
    simp [hne]

lemma step_counted (h : p.Counted) (hstep : p.step cfg codec act = some p') : p'.Counted := by
  have henrolled := step_enrolled h.enrolled hstep
  cases step_cases hstep with
  | connect =>
    refine ⟨henrolled, fun {id session} hid => ?_, fun {id session k} hid hk => ?_,
      fun {id} hle => h.unknown (Nat.le_of_succ_le hle)⟩
    · rcases update_sessions hid with ⟨rfl, rfl⟩ | ⟨-, hid⟩
      · rfl
      · exact h.civil hid
    · rcases update_sessions hid with ⟨rfl, rfl⟩ | ⟨-, hid⟩
      · cases hk
        exact h.unknown le_rfl
      · exact h.told hid hk
  | session here step => exact session_counted h here step
  | fail => exact h.deliver (fun _ => Session.deliverFailed_hears _) henrolled rfl rfl rfl
  | broadcast =>
    exact h.deliver (fun _ => Session.deliverPersisted_hears _) henrolled rfl rfl rfl
  | _ => exact ⟨henrolled, h.civil, h.told, h.unknown⟩

/-- **One step.** A client has been told once exactly if the exit is not silent. -/
lemma toldOnce_iff (h : p.Counted) (act : PipelineAct) :
    ToldOnce cfg codec p act ↔ NeverSilent cfg codec p act := by
  cases act with
  | session id sact =>
    refine forall₂_congr fun session here => ?_
    rcases hreturn : session.returnsTrue cfg.publish codec id p.world sact with _ | world
    · simp [hreturn]
    · obtain ⟨hidle, session', step, hleave⟩ := Session.returnsTrue_eq_some hreturn
      obtain ⟨k, hk, hcount⟩ := step.exit (h.civil here) hidle hleave
      have hfarewells : world.farewells id = if session.silent then 0 else 1 := by
        rw [step.farewells (h.civil here), h.told here hk, ← hcount]
        simp
      rcases hsilent : session.silent with _ | _ <;> simp [hreturn, hfarewells, hsilent]
  | _ => exact Iff.rfl

/-- **Every ended stream is told so once**, exactly in the runs in which no `handle_request` returns
true at a silent exit: a client that ends its stream, a closed channel, a timeout. -/
theorem told_once_iff {blocks : List Block} {plugin : StatePlugin} {actions : List PipelineAct} :
    Along (step cfg codec) (ToldOnce cfg codec) (init cfg codec blocks plugin) actions ↔
      Along (step cfg codec) (NeverSilent cfg codec) (init cfg codec blocks plugin) actions :=
  along_congr (fun act h => toldOnce_iff h act) (fun h _ hstep => step_counted h hstep)
    (init_counted blocks plugin) actions

/-- Session 0 publishes block 5, and nothing comes back from the pipeline. -/
def timeoutRun : List PipelineAct :=
  [.connect] ++ sendBlock 0 5 [proofItem 5] ++ goOn 0 4 ++ [.session 0 .timeout] ++ goOn 0 1 ++
    [.session 0 .finish]

/-- A client ends its stream; block 5 is stored. -/
def endStreamRun : List PipelineAct :=
  [.connect, .session 0 (.request (.endStream 0 5)), .session 0 .go]

/-- Neither is told anything. -/
theorem told_nothing :
    (∃ p, run (step smallNode plainCodec) smallStart timeoutRun = some p ∧
      (p.sessions 0).any (fun session => session.task = .leave) ∧ p.world.farewells 0 = 0) ∧
    ∃ p, run (step smallNode plainCodec)
        (init smallNode plainCodec [⟨[headerItem 5, proofItem 5]⟩] .init) endStreamRun = some p ∧
      (p.sessions 0).any (fun session => session.task = .leave) ∧ p.world.farewells 0 = 0 := by
  have htimeout : ∃ p ∈ run (step smallNode plainCodec) smallStart timeoutRun,
      (p.sessions 0).any (fun session => session.task = .leave) ∧ p.world.farewells 0 = 0 := by
    decide +kernel
  have hend : ∃ p ∈ run (step smallNode plainCodec)
      (init smallNode plainCodec [⟨[headerItem 5, proofItem 5]⟩] .init) endStreamRun,
      (p.sessions 0).any (fun session => session.task = .leave) ∧ p.world.farewells 0 = 0 := by
    decide +kernel
  exact ⟨htimeout, hend⟩

end Pipeline

end RockNode
