import RockNode.InFlight

/-!
The persisted watermark that the sessions share.

A session stores the number of its own block, whatever is there. The watermark does not go back
as long as a session that stores it has the lowest of the blocks in flight, and no block below
the watermark gets in flight.
-/

namespace RockNode

/-- The block is on its way to the store, or its session is about to move the watermark. -/
def SessionTask.inFlight : SessionTask → Bool
  | .handOver _ | .subscribe _ | .subscribeAgain .. | .waiting .. | .persisted => true
  | _ => false

namespace Session

variable {session session' : Session} {cfg : PublishConfig} {codec : Codec} {id : ℕ}
  {world world' : World} {act : SessionAct}

lemma inFlight_of_early (h : session.task.early) : session.task.inFlight = false := by
  cases here : session.task <;> rw [here] at h <;> first | rfl | cases h

lemma Hears.inFlight (h : session.Hears session') :
    session'.task.inFlight = session.task.inFlight := by
  cases h with
  | nothing => rfl
  | failed here | either here => rw [here]; rfl

lemma leaving_of_inFlight (h : session.task.inFlight) : session.task.leaving = none := by
  cases here : session.task <;> rw [here] at h <;> first | rfl | cases h

lemma Fits.accept_of_inFlight (hfits : session.Fits) (h : session.task.inFlight) :
    session.currentBlockAction = some .accept := by
  unfold Fits at hfits
  cases here : session.task <;> rw [here] at h hfits <;> first | exact hfits | cases h

/-- The watermark is stored by sessions that have learned the fate of their block. -/
lemma Step.latest (step : Step cfg codec id world session act world' session') :
    world'.latestPersistedBlock = world.latestPersistedBlock ∨
      (session.task = .persisted ∧
        world'.latestPersistedBlock = session.currentBlockNumber) := by
  cases step with
  | storeLatest here => exact .inr ⟨here, Int64.toInt64_toUInt64 _⟩
  | _ => exact .inl rfl

/-- A block gets in flight in `complete_block`, and its number stays. -/
lemma Step.inFlight (step : Step cfg codec id world session act world' session')
    (h : session'.task.inFlight) :
    (session.task = .complete ∨ (session.task.inFlight ∧ session.task ≠ .persisted)) ∧
      session'.currentBlockNumber = session.currentBlockNumber := by
  cases step with
  | request => rw [inFlight_of_early (handleRequest_early _)] at h; cases h
  | header => rw [inFlight_of_early onHeader_early] at h; cases h
  | lookup => rw [inFlight_of_early onLookup_early] at h; cases h
  | elected | occupied => cases (inFlight_of_early (execute_early _)).symm.trans h
  | streaming => rw [inFlight_of_early onStreaming_early] at h; cases h
  | complete here => exact ⟨.inl here, rfl⟩
  | handOver here | subscribe here | subscribeAgain here | ignoreFailed here
  | takePersisted here | ignorePersisted here => rw [here]; exact ⟨.inr ⟨rfl, by simp⟩, rfl⟩
  | @finish _ _ _ next => cases next <;> cases h
  | _ => cases h

end Session

namespace Pipeline

variable {cfg : PipelineConfig} {codec : Codec} {p p' : Pipeline} {act : PipelineAct}

/-- A session completes a block at or above the watermark. -/
def CompletesAbove : Pipeline → PipelineAct → Prop :=
  AtSession fun p _ session _ =>
    session.task = .complete → p.world.latestPersistedBlock ≤ session.currentBlockNumber

/-- No session but `id` has a block below `n` in flight. -/
def Lowest (p : Pipeline) (id : ℕ) (n : Int64) : Prop :=
  ∀ j < p.nextSession, j ≠ id → ∀ other ∈ p.sessions j, other.task.inFlight →
    n ≤ other.currentBlockNumber

instance (p : Pipeline) (id : ℕ) (n : Int64) : Decidable (p.Lowest id n) :=
  inferInstanceAs (Decidable (∀ j < p.nextSession, _))

/-- A session stores the watermark when no other session has a lower block in flight. -/
def ReportsLowest : Pipeline → PipelineAct → Prop :=
  AtSession fun p id session _ =>
    session.task = .persisted → p.Lowest id session.currentBlockNumber

def CompletesInOrder (p : Pipeline) (act : PipelineAct) : Prop :=
  CompletesAbove p act ∧ ReportsLowest p act

instance (p : Pipeline) (act : PipelineAct) : Decidable (CompletesInOrder p act) :=
  inferInstanceAs (Decidable (AtSession _ p act ∧ AtSession _ p act))

/-- No block in flight lies below the watermark. -/
structure InOrder (p : Pipeline) : Prop where
  enrolled : p.Enrolled
  above : ∀ {id session}, p.sessions id = some session → session.task.inFlight →
    p.world.latestPersistedBlock ≤ session.currentBlockNumber

lemma init_inOrder (blocks : List Block) (plugin : StatePlugin) :
    (init cfg codec blocks plugin).InOrder :=
  ⟨init_enrolled blocks plugin, fun h => by cases h⟩

lemma InOrder.deliver (h : p.InOrder) {f : Session → Session}
    (hears : ∀ session : Session, session.Hears (f session)) (henrolled : p'.Enrolled)
    (hsessions : p'.sessions = fun id => (p.sessions id).map f) (hworld : p'.world = p.world) :
    p'.InOrder := by
  refine ⟨henrolled, fun {id session'} hid htask => ?_⟩
  rw [hsessions] at hid
  obtain ⟨session, hsession, rfl⟩ := Option.map_eq_some_iff.mp hid
  rw [(hears session).inFlight] at htask
  rw [(hears session).number, hworld]
  exact h.above hsession htask

/-- One step of a session, on the numbers in flight and on the watermark. -/
lemma session_inOrder (h : p.InOrder) {id : ℕ} {sact : SessionAct} {session session' : Session}
    {world : World} (here : p.sessions id = some session)
    (step : session.Step cfg.publish codec id p.world sact world session')
    (horder : CompletesInOrder p (.session id sact)) :
    p.world.latestPersistedBlock ≤ world.latestPersistedBlock ∧
      ∀ {j other}, Function.update p.sessions id (some session') j = some other →
        other.task.inFlight → world.latestPersistedBlock ≤ other.currentBlockNumber := by
  have hcomplete := horder.1 session here
  have hpersisted := horder.2 session here
  rcases step.latest with hlatest | ⟨htask, hlatest⟩
  · rw [hlatest]
    refine ⟨Int64.le_refl _, fun hj hflight => ?_⟩
    rcases update_sessions hj with ⟨rfl, rfl⟩ | ⟨-, hj⟩
    · obtain ⟨hbefore, hnumber⟩ := step.inFlight hflight
      rw [hnumber]
      rcases hbefore with hbefore | ⟨hbefore, -⟩
      · exact hcomplete hbefore
      · exact h.above here hbefore
    · exact h.above hj hflight
  · rw [hlatest]
    refine ⟨h.above here (by rw [htask]; rfl), fun {j other} hj hflight => ?_⟩
    rcases update_sessions hj with ⟨rfl, rfl⟩ | ⟨hne, hj⟩
    · -- the session itself has nothing in flight any more
      obtain ⟨hbefore | ⟨-, hbefore⟩, -⟩ := step.inFlight hflight
      · rw [hbefore] at htask
        cases htask
      · exact absurd htask hbefore
    · have hlt : j < p.nextSession := h.enrolled.id_lt hj
      exact hpersisted htask j hlt hne other hj hflight

/-- **The watermark does not go back in one step**, and the blocks in flight stay above it. -/
lemma step_inOrder (h : p.InOrder) (horder : CompletesInOrder p act)
    (hstep : p.step cfg codec act = some p') :
    p'.InOrder ∧ p.world.latestPersistedBlock ≤ p'.world.latestPersistedBlock := by
  have henrolled := step_enrolled h.enrolled hstep
  cases step_cases hstep with
  | connect =>
    refine ⟨⟨henrolled, fun hid hflight => ?_⟩, Int64.le_refl _⟩
    rcases update_sessions hid with ⟨rfl, rfl⟩ | ⟨-, hid⟩
    · cases hflight
    · exact h.above hid hflight
  | session here step =>
    obtain ⟨hlatest, habove⟩ := session_inOrder h here step horder
    exact ⟨⟨henrolled, habove⟩, hlatest⟩
  | fail =>
    exact ⟨h.deliver (fun _ => Session.deliverFailed_hears _) henrolled rfl rfl, Int64.le_refl _⟩
  | broadcast =>
    exact ⟨h.deliver (fun _ => Session.deliverPersisted_hears _) henrolled rfl rfl,
      Int64.le_refl _⟩
  | _ => exact ⟨⟨henrolled, h.above⟩, Int64.le_refl _⟩

end Pipeline

/-- **The shared watermark never goes back** in a run in which sessions complete and report
their blocks in order. -/
theorem shared_watermark_mono {cfg : PipelineConfig} {codec : Codec} {blocks : List Block}
    {plugin : StatePlugin} {before after : List PipelineAct} {p p' : Pipeline}
    (hbefore : Along (Pipeline.step cfg codec) Pipeline.CompletesInOrder
      (.init cfg codec blocks plugin) before)
    (hrun : run (Pipeline.step cfg codec) (.init cfg codec blocks plugin) before = some p)
    (hafter : Along (Pipeline.step cfg codec) Pipeline.CompletesInOrder p after)
    (hrun' : run (Pipeline.step cfg codec) p after = some p') :
    p.world.latestPersistedBlock ≤ p'.world.latestPersistedBlock := by
  have hp : p.InOrder :=
    run_inv (fun h hC hstep => (Pipeline.step_inOrder h hC hstep).1)
      (Pipeline.init_inOrder blocks plugin) hbefore hrun
  have hstart : p.InOrder ∧ p.world.latestPersistedBlock ≤ p.world.latestPersistedBlock :=
    ⟨hp, Int64.le_refl _⟩
  refine (run_inv
    (I := fun q => q.InOrder ∧ p.world.latestPersistedBlock ≤ q.world.latestPersistedBlock)
    (fun h hC hstep => ?_) hstart hafter hrun').2
  obtain ⟨hq, hle⟩ := Pipeline.step_inOrder h.1 hC hstep
  exact ⟨hq, Int64.le_trans h.2 hle⟩

/-- Sessions 0 and 1 stream blocks 5 and 6; the blocks are completed in the order given. -/
def twoBlocksRun (first second : ℕ) (n m : UInt64) : List PipelineAct :=
  [PipelineAct.connect, .connect] ++ sendBlock 0 5 [] ++ sendBlock 1 6 [] ++
    [PipelineAct.session first (.request (.endOfBlock n))] ++ handOver first ++ persistNext ++
    learn first ++ [PipelineAct.persister, .session second (.request (.endOfBlock m))] ++
    handOver second ++ persistNext

theorem shared_watermark_mono_five_six : ∃ p p',
    run (Pipeline.step smallNode plainCodec) smallStart (twoBlocksRun 0 1 5 6) = some p ∧
      run (Pipeline.step smallNode plainCodec) p (learn 1) = some p' ∧
      p.world.latestPersistedBlock = 5 ∧ p'.world.latestPersistedBlock = 6 ∧
      p.world.latestPersistedBlock ≤ p'.world.latestPersistedBlock := by
  have hsome : ∃ p ∈ run (Pipeline.step smallNode plainCodec) smallStart (twoBlocksRun 0 1 5 6),
      p.world.latestPersistedBlock = 5 ∧
      Along (Pipeline.step smallNode plainCodec) Pipeline.CompletesInOrder p (learn 1) ∧
      ∃ p' ∈ run (Pipeline.step smallNode plainCodec) p (learn 1),
        p'.world.latestPersistedBlock = 6 := by decide +kernel
  obtain ⟨p, hrun, hfive, hafter, p', hrun', hsix⟩ := hsome
  exact ⟨p, p', hrun, hrun', hfive, hsix,
    shared_watermark_mono (by decide +kernel) hrun hafter hrun'⟩

/-- Block 6 is completed and acknowledged before block 5. When block 5 is, the watermark goes
back from 6 to 5. -/
theorem shared_watermark_back : ∃ p p',
    run (Pipeline.step smallNode plainCodec) smallStart (twoBlocksRun 1 0 6 5) = some p ∧
      run (Pipeline.step smallNode plainCodec) p (learn 0) = some p' ∧
      p.world.latestPersistedBlock = 6 ∧ p'.world.latestPersistedBlock = 5 := by
  have hsome : ∃ p ∈ run (Pipeline.step smallNode plainCodec) smallStart (twoBlocksRun 1 0 6 5),
      p.world.latestPersistedBlock = 6 ∧
      ∃ p' ∈ run (Pipeline.step smallNode plainCodec) p (learn 0),
        p'.world.latestPersistedBlock = 5 := by decide +kernel
  obtain ⟨p, hrun, hsix, p', hrun', hfive⟩ := hsome
  exact ⟨p, p', hrun, hrun', hsix, hfive⟩

end RockNode
