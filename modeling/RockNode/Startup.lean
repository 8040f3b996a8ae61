import RockNode.Lives

/-!
The node comes up.

`main` wires the channels by the configuration: with the verifier enabled, the receiver of the
published blocks is the verifier's, and persistence is left with the channel of the verified ones.
Then it initializes the plugins one after the other, spawns the server and starts the plugins.
`VerifierPlugin::initialize` leaves it to a task of its own to register its capability, and the
event loop of `PersistencePlugin` looks once, when it begins, whether the capability is registered.
Nothing orders the two tasks. What comes of it is decided by that one look.
-/

namespace RockNode

variable {cfg : PipelineConfig} {codec : Codec}

/-- How far `main` has come. Only the calls that the start of persistence depends on are told
apart. -/
inductive MainTask where
  | initializing
  | startPersistence
  | startVerifier
  | running
  deriving DecidableEq

/-- The event loop of `PersistencePlugin`: not there yet, about to look at the registry, at one of
its two channels, or over. -/
inductive EventLoop where
  | absent
  | spawned
  | verified
  | unverified
  | over
  deriving DecidableEq

/-- The look at the registry. A loop that is to read the published blocks and has no receiver for
them takes the channel to be closed. -/
def EventLoop.look (registered receiver : Bool) : EventLoop :=
  if registered then .verified else if receiver then .unverified else .over

/-- The loop has decided what to read. -/
def EventLoop.Settled (loop : EventLoop) : Prop := loop ≠ .absent ∧ loop ≠ .spawned

structure Startup where
  main : MainTask
  /-- the task that registers the capability has not run yet -/
  registering : Bool
  /-- `ProvidesVerifiedBlocks` is in the registry -/
  registered : Bool
  loop : EventLoop
  /-- the event loop of the verifier is spawned -/
  verifying : Bool
  pipeline : Pipeline

inductive StartupAct where
  | main
  | register
  | look
  | node (act : PipelineAct)

def StartupAct.node? : StartupAct → Option PipelineAct
  | .node act => some act
  | _ => none

namespace Startup

/-- The process starts over what the last one has left on disk. -/
def boot (cfg : PipelineConfig) (p : Pipeline) : Startup where
  main := .initializing
  registering := false
  registered := false
  loop := .absent
  verifying := false
  pipeline := p.restart cfg

/-- There is a verifier only if the configuration enables it. -/
def mainStep (cfg : PipelineConfig) (s : Startup) : Option Startup :=
  match s.main with
  | .initializing => some { s with main := .startPersistence, registering := cfg.verified }
  | .startPersistence => some { s with main := .startVerifier, loop := .spawned }
  | .startVerifier => some { s with main := .running, verifying := cfg.verified }
  | .running => none

/-- What a task of the node goes by, once it is there: a verifier takes what was published, and
persistence takes from the channel it has decided for. The server is spawned when all plugins are
initialized. -/
def config? (cfg : PipelineConfig) (s : Startup) : PipelineAct → Option PipelineConfig
  | .connect => if s.main = .initializing then none else some cfg
  | .verifier => if s.verifying then some { cfg with verified := true } else none
  | .persister =>
    match s.loop with
    | .verified => some { cfg with verified := true }
    | .unverified => some { cfg with verified := false }
    | .absent | .spawned | .over => none
  | _ => some cfg

def nodeStep (cfg : PipelineConfig) (codec : Codec) (s : Startup) (act : PipelineAct) :
    Option Startup := do
  let cfg ← s.config? cfg act
  let p ← s.pipeline.step cfg codec act
  pure { s with pipeline := p }

/-- What the verifier sends to a loop that is over stays in the channel, which nobody reads. -/
def step (cfg : PipelineConfig) (codec : Codec) (s : Startup) : StartupAct → Option Startup
  | .main => s.mainStep cfg
  | .register =>
    if s.registering then some { s with registering := false, registered := true } else none
  | .look =>
    if s.loop = .spawned then
      some { s with loop := .look s.registered (!cfg.verified) }
    else none
  | .node act => s.nodeStep cfg codec act

variable {s s' t : Startup} {act : StartupAct} {acts before after : List StartupAct}
  {p : Pipeline}

/-! ### What a step can do -/

inductive Step (cfg : PipelineConfig) (codec : Codec) (s : Startup) :
    StartupAct → Startup → Prop
  | initializing (here : s.main = .initializing) :
    Step cfg codec s .main { s with main := .startPersistence, registering := cfg.verified }
  | startPersistence (here : s.main = .startPersistence) :
    Step cfg codec s .main { s with main := .startVerifier, loop := .spawned }
  | startVerifier (here : s.main = .startVerifier) :
    Step cfg codec s .main { s with main := .running, verifying := cfg.verified }
  | register (here : s.registering = true) :
    Step cfg codec s .register { s with registering := false, registered := true }
  | look (here : s.loop = .spawned) :
    Step cfg codec s .look { s with loop := .look s.registered (!cfg.verified) }
  | node {act cfg' p} (config : s.config? cfg act = some cfg')
    (next : s.pipeline.step cfg' codec act = some p) :
    Step cfg codec s (.node act) { s with pipeline := p }

lemma step_cases (h : s.step cfg codec act = some s') : Step cfg codec s act s' := by
  cases act with
  | main =>
    simp only [step, mainStep] at h
    split at h <;> cases h
    · exact .initializing ‹_›
    · exact .startPersistence ‹_›
    · exact .startVerifier ‹_›
  | register =>
    simp only [step] at h
    split_ifs at h with here
    cases h
    exact .register here
  | look =>
    simp only [step] at h
    split_ifs at h with here
    cases h
    exact .look here
  | node act =>
    obtain ⟨cfg', hcfg, h⟩ := Option.bind_eq_some_iff.mp h
    obtain ⟨p, hp, h⟩ := Option.bind_eq_some_iff.mp h
    cases h
    exact .node hcfg hp

/-! ### The wiring -/

/-- The tasks are there, and read what they read, as the configuration says. -/
structure Wired (cfg : PipelineConfig) (s : Startup) : Prop where
  registering : s.registering = true → cfg.verified = true
  registered : s.registered = true → cfg.verified = true
  verifying : s.verifying = true → cfg.verified = true
  verified : s.loop = .verified → cfg.verified = true
  unverified : s.loop = .unverified → cfg.verified = false
  absent : s.main = .initializing ∨ s.main = .startPersistence → s.loop = .absent

lemma boot_wired : (boot cfg p).Wired cfg where
  registering h := by cases h
  registered h := by cases h
  verifying h := by cases h
  verified h := by cases h
  unverified h := by cases h
  absent _ := rfl

lemma step_wired (h : s.Wired cfg) (hstep : s.step cfg codec act = some s') : s'.Wired cfg := by
  cases step_cases hstep with
  | initializing here =>
    exact ⟨id, h.registered, h.verifying, h.verified, h.unverified, fun _ => h.absent (.inl here)⟩
  | startPersistence =>
    exact ⟨h.registering, h.registered, h.verifying, fun h => (by cases h), fun h => (by cases h),
      fun h => (by rcases h with h | h <;> cases h)⟩
  | startVerifier =>
    exact ⟨h.registering, h.registered, id, h.verified, h.unverified,
      fun h => (by rcases h with h | h <;> cases h)⟩
  | register here =>
    exact ⟨fun h => (by cases h), fun _ => h.registering here, h.verifying, h.verified,
      h.unverified, h.absent⟩
  | look here =>
    refine ⟨h.registering, h.registered, h.verifying, fun hl => ?_, fun hl => ?_, fun hm => ?_⟩
    · dsimp only [EventLoop.look] at hl
      split_ifs at hl with hreg
      exact h.registered hreg
    · dsimp only [EventLoop.look] at hl
      split_ifs at hl with _ hreceiver
      simpa using hreceiver
    · exact absurd (here.symm.trans (h.absent hm)) (by decide)
  | node =>
    exact ⟨h.registering, h.registered, h.verifying, h.verified, h.unverified, h.absent⟩

/-- Every task that takes a step goes by the configuration. -/
lemma Wired.config_eq (h : s.Wired cfg) {act : PipelineAct} {cfg' : PipelineConfig}
    (hcfg : s.config? cfg act = some cfg') : cfg' = cfg := by
  have hsame : ∀ {b}, cfg.verified = b → { cfg with verified := b } = cfg := by
    rintro _ rfl
    rfl
  unfold config? at hcfg
  split at hcfg
  · split_ifs at hcfg
    exact (Option.some.inj hcfg).symm
  · split_ifs at hcfg with hverifying
    exact (Option.some.inj hcfg).symm.trans (hsame (h.verifying hverifying))
  · split at hcfg
    · next hloop => exact (Option.some.inj hcfg).symm.trans (hsame (h.verified hloop))
    · next hloop => exact (Option.some.inj hcfg).symm.trans (hsame (h.unverified hloop))
    all_goals cases hcfg
  · exact (Option.some.inj hcfg).symm

/-- The start is a run of the node as configured. -/
lemma run_pipeline (hrun : run (step cfg codec) (boot cfg p) acts = some s) :
    run (Pipeline.step cfg codec) (p.restart cfg) (acts.filterMap StartupAct.node?) =
      some s.pipeline := by
  refine run_simulates pipeline (I := Wired cfg) (fun h hstep => step_wired h hstep)
    (fun h hstep hown => ?_) (fun h hstep hown => ?_) boot_wired hrun
  · cases step_cases hstep with
    | node => cases hown
    | _ => rfl
  · cases step_cases hstep with
    | node config next =>
      cases hown
      rwa [h.config_eq config] at next
    | _ => cases hown

/-! ### The look -/

lemma step_registered (hstep : s.step cfg codec act = some s') :
    s'.registered = true ↔ s.registered = true ∨ act = .register := by
  cases step_cases hstep <;> simp

lemma run_registered (hrun : run (step cfg codec) s acts = some t) :
    t.registered = true ↔ s.registered = true ∨ .register ∈ acts := by
  induction acts generalizing s with
  | nil =>
    cases hrun
    simp
  | cons act acts ih =>
    obtain ⟨s', h1, h2⟩ := run_cons_eq_some hrun
    rw [ih h2, step_registered h1, List.mem_cons, or_assoc, @eq_comm _ act]

/-- The loop does not look twice. -/
lemma step_loop (h : s.Wired cfg) (hloop : s.loop.Settled)
    (hstep : s.step cfg codec act = some s') : s'.loop = s.loop := by
  cases step_cases hstep with
  | startPersistence here => exact absurd (h.absent (.inr here)) hloop.1
  | look here => exact absurd here hloop.2
  | _ => rfl

lemma run_loop {loop : EventLoop} (h : s.Wired cfg) (hloop : s.loop = loop)
    (hsettled : loop.Settled) (hrun : run (step cfg codec) s acts = some t) : t.loop = loop := by
  have hkept : t.Wired cfg ∧ t.loop = loop := by
    refine run_inv_of_step (I := fun s => s.Wired cfg ∧ s.loop = loop) ?_ ⟨h, hloop⟩ hrun
    rintro s _ _ ⟨hwired, rfl⟩ hstep
    exact ⟨step_wired hwired hstep, step_loop hwired hsettled hstep⟩
  exact hkept.2

lemma look_settled (registered receiver : Bool) :
    (EventLoop.look registered receiver).Settled := by
  cases registered <;> cases receiver <;> exact ⟨by decide, by decide⟩

/-- What the loop has decided for depends on what came before its look. -/
lemma loop_eq_look
    (hrun : run (step cfg codec) (boot cfg p) (before ++ .look :: after) = some s) :
    ∃ registered, s.loop = .look registered (!cfg.verified) ∧
      (registered = true ↔ .register ∈ before) ∧ (registered = true → cfg.verified = true) := by
  obtain ⟨m, hm, hrest⟩ := run_append_eq_some hrun
  obtain ⟨m', hlook, hafter⟩ := run_cons_eq_some hrest
  have hwired : m.Wired cfg := run_inv_of_step (fun h hs => step_wired h hs) boot_wired hm
  have hloop : m'.loop = .look m.registered (!cfg.verified) := by
    cases step_cases hlook
    rfl
  refine ⟨m.registered, ?_, ?_, hwired.registered⟩
  · exact run_loop (step_wired hwired hlook) hloop (look_settled _ _) hafter
  · rw [run_registered hm]
    simp [boot]

lemma loop_eq_over (hcfg : cfg.verified = true) (hearly : .register ∉ before)
    (hrun : run (step cfg codec) (boot cfg p) (before ++ .look :: after) = some s) :
    s.loop = .over := by
  obtain ⟨registered, hloop, hiff, -⟩ := loop_eq_look hrun
  rw [hloop, Bool.eq_false_iff.mpr fun h => hearly (hiff.mp h), hcfg]
  rfl

end Startup

/-- **However the start interleaves**, the node runs as its configuration says: with the verifier
enabled, persistence never takes a block that the verifier has not passed. But its loop comes to
read the verified blocks only if the capability was registered before it looked; otherwise it is
over. -/
theorem startup_outcome {p : Pipeline} {before after : List StartupAct} {s : Startup}
    (hrun : run (Startup.step cfg codec) (.boot cfg p) (before ++ .look :: after) = some s) :
    run (Pipeline.step cfg codec) (p.restart cfg)
        ((before ++ .look :: after).filterMap StartupAct.node?) = some s.pipeline ∧
      (cfg.verified = false → s.loop = .unverified) ∧
      (cfg.verified = true → .register ∈ before → s.loop = .verified) ∧
      (cfg.verified = true → .register ∉ before → s.loop = .over) := by
  obtain ⟨registered, hloop, hiff, hreg⟩ := Startup.loop_eq_look hrun
  refine ⟨Startup.run_pipeline hrun, fun hcfg => ?_, fun _ hmem => ?_, fun hcfg hmem => ?_⟩
  · have hnot : registered = false := by
      rw [hcfg] at hreg
      simpa using hreg
    rw [hloop, hnot, hcfg]
    rfl
  · rw [hloop, hiff.mpr hmem]
    rfl
  · exact Startup.loop_eq_over hcfg hmem hrun

/-- One publisher sends block 5. -/
def publishFive : List StartupAct := (publishRun [(itemsOf 5, 3), ([proofOf 5], 1)]).map .node

theorem startup_outcome_registered : ∃ s,
    run (Startup.step verifyingNode plainCodec)
        (.boot verifyingNode (.init verifyingNode plainCodec [] .init))
        ([.main, .register, .main] ++ .look :: .main :: publishFive) = some s ∧
      (0, .acknowledgement 5) ∈ s.pipeline.world.sent ∧ s.loop = .verified := by
  have hsome : ∃ s ∈ run (Startup.step verifyingNode plainCodec)
      (.boot verifyingNode (.init verifyingNode plainCodec [] .init))
      ([.main, .register, .main] ++ .look :: .main :: publishFive),
      (0, Response.acknowledgement 5) ∈ s.pipeline.world.sent := by decide +kernel
  obtain ⟨s, hrun, hack⟩ := hsome
  exact ⟨s, hrun, hack, (startup_outcome hrun).2.2.1 rfl (by simp)⟩

/-! ### A loop that looked too early -/

namespace Session

variable {C : UInt64 → Prop} {id : ℕ} {world world' : World} {session session' : Session}
  {act : SessionAct}

/-- A session acknowledges what it has been told. -/
lemma step_tells {cfg : PublishConfig} (hsent : ∀ id n, (id, .acknowledgement n) ∈ world.sent → C n)
    (hk : session.Knows C fun _ => True)
    (step : Step cfg codec id world session act world' session') :
    (∀ id n, (id, .acknowledgement n) ∈ world'.sent → C n) ∧ session'.Knows C fun _ => True := by
  have send : ∀ target {response : Response}, (∀ n, response = .acknowledgement n → C n) →
      ∀ id n, (id, .acknowledgement n) ∈ (world.send target response).sent → C n := by
    intro target response hresponse id n hn
    rcases List.mem_cons.mp hn with heq | hn
    · cases heq
      exact hresponse n rfl
    · exact hsent id n hn
  unfold Knows at hk
  cases step with
  | request => exact ⟨hsent, knows_of_early (handleRequest_early _)⟩
  | header => exact ⟨hsent, knows_of_early onHeader_early⟩
  | lookup => exact ⟨hsent, knows_of_early onLookup_early⟩
  | elected => exact ⟨hsent, knows_of_early (execute_early _)⟩
  | occupied => exact ⟨hsent, knows_of_early (execute_early _)⟩
  | streaming => exact ⟨hsent, knows_of_early onStreaming_early⟩
  | behind => exact ⟨hsent, fun n h => by cases h⟩
  | respondReset here =>
    rw [here] at hk
    exact ⟨send id fun n h => absurd h (hk n), trivial⟩
  | respondLeave here =>
    rw [here] at hk
    exact ⟨send id fun n h => absurd h (hk n), trivial⟩
  | respondResend here =>
    rw [here] at hk
    exact ⟨send id fun n h => absurd h (hk n), fun n h => by cases h⟩
  | subscribeAgain => exact ⟨hsent, fun event he => by cases he⟩
  | takeFailed => exact ⟨hsent, fun n h => by cases h⟩
  | ignoreFailed here =>
    rw [here] at hk
    exact ⟨hsent, hk⟩
  | takePersisted here mine =>
    rw [here] at hk
    have hC := hk _ List.mem_cons_self
    rw [mine] at hC
    exact ⟨hsent, hC⟩
  | ignorePersisted here =>
    rw [here] at hk
    exact ⟨hsent, fun event he => hk event (List.mem_cons_of_mem _ he)⟩
  | storeLatest here =>
    rw [here] at hk
    refine ⟨hsent, fun n hn => ?_⟩
    cases hn
    exact hk
  | visit here =>
    rw [here] at hk
    exact ⟨send _ hk, hk⟩
  | @finish _ _ _ next => exact ⟨hsent, by cases next <;> trivial⟩
  | removeTimedOut => exact ⟨hsent, fun n h => by cases h⟩
  | release => exact ⟨hsent, fun n h => by cases h⟩
  | _ => exact ⟨hsent, trivial⟩

end Session

/-- Nothing has been stored and nothing acknowledged. -/
structure Pipeline.Silent (store : Store) (p : Pipeline) : Prop where
  store : p.store = store
  sent : ∀ id n, (id, .acknowledgement n) ∈ p.world.sent → False
  sessions : ∀ {id session}, p.sessions id = some session →
    session.Knows (fun _ => False) fun _ => True

/-- All depends on persistence. -/
lemma Pipeline.Silent.step {store : Store} {p p' : Pipeline} {act : PipelineAct}
    (h : p.Silent store) (hact : act ≠ .persister) (hstep : p.step cfg codec act = some p') :
    p'.Silent store := by
  cases step_cases hstep with
  | connect =>
    refine ⟨h.store, h.sent, fun hs => ?_⟩
    rcases update_sessions hs with ⟨-, rfl⟩ | ⟨-, hs⟩
    · trivial
    · exact h.sessions hs
  | session here step =>
    obtain ⟨hsent, hknows⟩ := Session.step_tells h.sent (h.sessions here) step
    refine ⟨h.store, hsent, fun hs => ?_⟩
    rcases update_sessions hs with ⟨-, rfl⟩ | ⟨-, hs⟩
    · exact hknows
    · exact h.sessions hs
  | fail =>
    refine ⟨h.store, h.sent, fun hs => ?_⟩
    obtain ⟨old, hold, rfl⟩ := Option.map_eq_some_iff.mp hs
    exact Session.deliverFailed_knows (h.sessions hold) _
  | takeVerified | takeUnverified | fetchBlock | write | broadcast | mark => exact absurd rfl hact
  | _ => exact ⟨h.store, h.sent, h.sessions⟩

namespace Startup

variable {s s' : Startup} {act : StartupAct} {acts : List StartupAct} {p : Pipeline}

/-- Persistence does nothing while its loop has no channel. -/
lemma step_silent {store : Store} (h : s.pipeline.Silent store) (hverified : s.loop ≠ .verified)
    (hunverified : s.loop ≠ .unverified) (hstep : s.step cfg codec act = some s') :
    s'.pipeline.Silent store := by
  cases step_cases hstep with
  | node config next =>
    refine h.step ?_ next
    rintro rfl
    simp only [config?] at config
    split at config
    · exact hverified ‹_›
    · exact hunverified ‹_›
    all_goals cases config
  | _ => exact h

lemma run_silent (hrun : run (step cfg codec) (boot cfg p) acts = some s)
    (hover : s.loop = .over) : s.pipeline.Silent (p.restart cfg).store := by
  have hboot : (p.restart cfg).Silent (p.restart cfg).store :=
    ⟨rfl, fun _ _ h => (by cases h), fun h => (by cases h)⟩
  have hkept : s.Wired cfg ∧ (s.loop ≠ .verified → s.loop ≠ .unverified →
      s.pipeline.Silent (p.restart cfg).store) := by
    refine run_inv_of_step (I := fun s => s.Wired cfg ∧ (s.loop ≠ .verified →
      s.loop ≠ .unverified → s.pipeline.Silent (p.restart cfg).store)) ?_
      ⟨boot_wired, fun _ _ => hboot⟩ hrun
    rintro s _ s' ⟨hwired, hsilent⟩ hstep
    refine ⟨step_wired hwired hstep, fun hv hu => ?_⟩
    -- a loop that has a channel keeps it
    have hv' : s.loop ≠ .verified := fun h =>
      hv ((step_loop hwired ⟨by simp [h], by simp [h]⟩ hstep).trans h)
    have hu' : s.loop ≠ .unverified := fun h =>
      hu ((step_loop hwired ⟨by simp [h], by simp [h]⟩ hstep).trans h)
    exact step_silent (hsilent hv' hu') hv' hu' hstep
  exact hkept.2 (by simp [hover]) (by simp [hover])

end Startup

/-- **A look that comes too early.** When the loop of persistence looks before the verifier has
registered, no published block is stored or acknowledged until the node is started again. (Backfill
writes past the loop; it has no part in these runs.) -/
theorem early_look_persists_nothing {p : Pipeline} {before after : List StartupAct} {s : Startup}
    (hcfg : cfg.verified = true) (hearly : .register ∉ before)
    (hrun : run (Startup.step cfg codec) (.boot cfg p) (before ++ .look :: after) = some s) :
    s.pipeline.store = (p.restart cfg).store ∧
      ∀ id n, (id, .acknowledgement n) ∉ s.pipeline.world.sent := by
  have hsilent := Startup.run_silent hrun (Startup.loop_eq_over hcfg hearly hrun)
  exact ⟨hsilent.store, hsilent.sent⟩

/-- The verifier registers a moment too late. Block 5 is published and verified, and that is all. -/
theorem early_look_persists_nothing_five : ∃ s,
    run (Startup.step verifyingNode plainCodec)
        (.boot verifyingNode (.init verifyingNode plainCodec [] .init))
        ([.main, .main] ++ .look :: [.register, .main] ++ publishFive.take 14) = some s ∧
      s.pipeline.verifiedBlocks = [⟨5, 0⟩] ∧
      ∀ id n, (id, .acknowledgement n) ∉ s.pipeline.world.sent := by
  have hsome : ∃ s ∈ run (Startup.step verifyingNode plainCodec)
      (.boot verifyingNode (.init verifyingNode plainCodec [] .init))
      ([.main, .main] ++ .look :: [.register, .main] ++ publishFive.take 14),
      s.pipeline.verifiedBlocks = [⟨5, 0⟩] := by decide +kernel
  obtain ⟨s, hrun, hverified⟩ := hsome
  refine ⟨s, hrun, hverified, ?_⟩
  rw [List.append_assoc] at hrun
  exact (early_look_persists_nothing rfl (by simp) hrun).2

end RockNode
