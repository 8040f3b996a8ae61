import RockNode.Pipeline
import RockNode.Handlers
import RockNode.Assembly
import RockNode.Runs

/-!
The winner table and the sessions it names.

A session makes entries for itself only; all that other tasks do to its entries is to remove
some. So what is known of a session and its own entries has to be shown for the steps of that
session, provided that it survives the loss of entries.
-/

namespace RockNode

lemma World.get_of_unclaim {world : World} {n k id : ℕ}
    (h : (world.unclaim n).blockWinners.get k = some id) :
    k ≠ n ∧ world.blockWinners.get k = some id := by
  rw [World.unclaim_get] at h
  split_ifs at h with hk
  exact ⟨hk, h⟩

namespace Session

variable {session session' : Session} {cfg : PublishConfig} {codec : Codec} {id : ℕ}
  {world world' : World} {act : SessionAct}

lemma Step.other_winner (step : Step cfg codec id world session act world' session') {j n : ℕ}
    (hj : j ≠ id) (h : world'.blockWinners.get n = some j) :
    world.blockWinners.get n = some j := by
  cases step with
  | elected =>
    rw [World.claim_get] at h
    split_ifs at h
    · exact absurd (Option.some.inj h).symm hj
    · exact h
  | removeAcknowledged => exact (World.get_of_unclaim h).2
  | removeFailed => exact (World.get_of_unclaim h).2
  | removeTimedOut => exact (World.get_of_unclaim h).2
  | release => exact (World.get_of_unclaim h).2
  | _ => exact h

lemma Step.still_active (step : Step cfg codec id world session act world' session') {j : ℕ}
    (hj : j ∈ world.activeSessions) (h : j = id → session'.task ≠ .gone) :
    j ∈ world'.activeSessions := by
  cases step with
  | unregister =>
    have hne : j ≠ id := fun hid => h hid rfl
    exact (List.mem_erase_of_ne hne).mpr hj
  | _ => exact hj

lemma Step.not_gone (step : Step cfg codec id world session act world' session') :
    session.task ≠ .gone := by
  intro hgone
  cases step <;> simp_all

lemma Hears.not_gone (h : session.Hears session') (hgone : session'.task ≠ .gone) :
    session.task ≠ .gone := by
  cases h with
  | nothing => exact hgone
  | failed here | either here => simp [here]

end Session

namespace Pipeline

variable {cfg : PipelineConfig} {codec : Codec} {p p' : Pipeline} {act : PipelineAct}

/-! ### Registration -/

/-- Ids are given out in order; the table names sessions that exist; a session is registered
until it is gone. -/
structure Enrolled (p : Pipeline) : Prop where
  fresh : ∀ {id}, p.nextSession ≤ id → p.sessions id = none
  owner : ∀ {n id}, p.world.blockWinners.get n = some id → p.sessions id ≠ none
  active : ∀ {id session}, p.sessions id = some session → session.task ≠ .gone →
    id ∈ p.world.activeSessions

lemma init_enrolled (blocks : List Block) (plugin : StatePlugin) :
    (init cfg codec blocks plugin).Enrolled where
  fresh _ := rfl
  owner h := by cases h
  active h := by cases h

lemma Enrolled.lt (h : p.Enrolled) {id : ℕ} (hid : p.sessions id ≠ none) : id < p.nextSession :=
  not_le.mp fun hle => hid (h.fresh hle)

lemma Enrolled.id_lt (h : p.Enrolled) {id : ℕ} {session : Session}
    (here : p.sessions id = some session) : id < p.nextSession :=
  h.lt (by rw [here]; exact Option.some_ne_none _)

/-- An event is delivered to every session. -/
lemma Enrolled.deliver (h : p.Enrolled) {f : Session → Session}
    (hears : ∀ session : Session, session.Hears (f session))
    (hsessions : p'.sessions = fun id => (p.sessions id).map f)
    (hworld : p'.world = p.world) (hnext : p'.nextSession = p.nextSession) : p'.Enrolled where
  fresh hle := by
    rw [hnext] at hle
    simp only [hsessions, h.fresh hle, Option.map_none]
  owner hget := by
    rw [hworld] at hget
    rw [hsessions]
    simpa using h.owner hget
  active {id session'} hid htask := by
    rw [hsessions] at hid
    obtain ⟨session, hsession, rfl⟩ := Option.map_eq_some_iff.mp hid
    rw [hworld]
    exact h.active hsession ((hears session).not_gone htask)

lemma connect_enrolled (h : p.Enrolled) : p.connect.Enrolled where
  fresh {id} hle := by
    have hne : id ≠ p.nextSession := by
      have : p.nextSession + 1 ≤ id := hle
      omega
    change Function.update p.sessions p.nextSession _ id = none
    rw [Function.update_of_ne hne]
    exact h.fresh (Nat.le_of_succ_le hle)
  owner {n id} hget := by
    have hid : p.sessions id ≠ none := h.owner hget
    change Function.update p.sessions p.nextSession _ id ≠ none
    rwa [Function.update_of_ne (h.lt hid).ne]
  active {id session} hid htask := by
    rcases update_sessions hid with ⟨rfl, -⟩ | ⟨-, hid⟩
    · exact List.mem_cons_self
    · exact List.mem_cons_of_mem _ (h.active hid htask)

lemma session_enrolled (h : p.Enrolled) {id : ℕ} {act : SessionAct} {session session' : Session}
    {world : World} (here : p.sessions id = some session)
    (step : session.Step cfg.publish codec id p.world act world session') :
    Enrolled { p with
      world := world, sessions := Function.update p.sessions id (some session') } where
  fresh {j} hle := by
    have hne : j ≠ id := by
      rintro rfl
      rw [h.fresh hle] at here
      cases here
    change Function.update p.sessions id _ j = none
    rw [Function.update_of_ne hne]
    exact h.fresh hle
  owner {n j} hget := by
    change Function.update p.sessions id _ j ≠ none
    by_cases hj : j = id
    · rw [hj, Function.update_self]
      exact Option.some_ne_none _
    · rw [Function.update_of_ne hj]
      exact h.owner (step.other_winner hj hget)
  active {j other} hother htask := by
    rcases update_sessions hother with ⟨rfl, rfl⟩ | ⟨hj, hother⟩
    · exact step.still_active (h.active here step.not_gone) fun _ => htask
    · exact step.still_active (h.active hother htask) fun hid => absurd hid hj

lemma step_enrolled (h : p.Enrolled) (hstep : p.step cfg codec act = some p') : p'.Enrolled := by
  cases step_cases hstep with
  | connect => exact connect_enrolled h
  | session here step => exact session_enrolled h here step
  | fail => exact h.deliver (fun _ => Session.deliverFailed_hears _) rfl rfl rfl
  | broadcast => exact h.deliver (fun _ => Session.deliverPersisted_hears _) rfl rfl rfl
  | retainVisit => exact ⟨h.fresh, fun hget => h.owner (World.get_of_unclaim hget).2, h.active⟩
  | _ => exact ⟨h.fresh, h.owner, h.active⟩

/-! ### A session and its own entries -/

/-- The blocks the table gives to a session. -/
def own (p : Pipeline) (id : ℕ) : Set ℕ := {n | p.world.blockWinners.get n = some id}

/-- A property of a session and its entries that holds at the start and survives the loss of
entries and the arrival of events. -/
structure Robust (Q : Set ℕ → Session → Prop) : Prop where
  new : Q ∅ .new
  fewer : ∀ {S S' : Set ℕ} {session}, S' ⊆ S → Q S session → Q S' session
  failed : ∀ {S session} event, Q S session → Q S (session.deliverFailed event)
  persisted : ∀ {S session} event, Q S session → Q S (session.deliverPersisted event)

/-- Every session has the property. -/
def Each (Q : Set ℕ → Session → Prop) (p : Pipeline) : Prop :=
  ∀ id session, p.sessions id = some session → Q (p.own id) session

variable {Q : Set ℕ → Session → Prop}

lemma init_each (blocks : List Block) (plugin : StatePlugin) :
    (init cfg codec blocks plugin).Each Q := fun _ _ h => by cases h

lemma Each.deliver (h : p.Each Q) {f : Session → Session}
    (hf : ∀ {S session}, Q S session → Q S (f session))
    (hsessions : p'.sessions = fun id => (p.sessions id).map f)
    (hworld : p'.world = p.world) : p'.Each Q := by
  intro id session' hid
  rw [hsessions] at hid
  obtain ⟨session, hsession, rfl⟩ := Option.map_eq_some_iff.mp hid
  unfold own
  rw [hworld]
  exact hf (h id session hsession)

/-- **One step of the node keeps such a property** if the steps of the session itself do. -/
theorem step_each (robust : Robust Q) (hp : p.Enrolled) (h : p.Each Q)
    (hstep : p.step cfg codec act = some p')
    (hown : ∀ {id sact session world session'}, act = .session id sact →
      p.sessions id = some session →
      session.Step cfg.publish codec id p.world sact world session' →
      Q (p.own id) session → Q {n | world.blockWinners.get n = some id} session') :
    p'.Each Q := by
  cases step_cases hstep with
  | connect =>
    intro id session hid
    rcases update_sessions hid with ⟨rfl, rfl⟩ | ⟨-, hid⟩
    · -- nobody has used this id before
      refine robust.fewer (fun n hn => ?_) robust.new
      exact absurd (hp.lt (hp.owner hn)) (lt_irrefl _)
    · exact h id session hid
  | @session id sact session world session' here step =>
    intro j other hj
    rcases update_sessions hj with ⟨rfl, rfl⟩ | ⟨hne, hj⟩
    · exact hown rfl here step (h j session here)
    · exact robust.fewer (fun n hn => step.other_winner hne hn) (h j other hj)
  | fail => exact h.deliver (robust.failed _) rfl rfl
  | broadcast => exact h.deliver (robust.persisted _) rfl rfl
  | retainVisit =>
    exact fun id session hid =>
      robust.fewer (fun n hn => (World.get_of_unclaim hn).2) (h id session hid)
  | _ => exact h

/-- **And so does every run.** -/
theorem run_each {C : Pipeline → PipelineAct → Prop} {blocks : List Block} {plugin : StatePlugin}
    {actions : List PipelineAct} (robust : Robust Q)
    (hown : ∀ {p id sact session world session'}, C p (.session id sact) →
      p.sessions id = some session →
      session.Step cfg.publish codec id p.world sact world session' →
      Q (p.own id) session → Q {n | world.blockWinners.get n = some id} session')
    (hC : Along (step cfg codec) C (init cfg codec blocks plugin) actions)
    (hrun : run (step cfg codec) (init cfg codec blocks plugin) actions = some p) :
    p.Enrolled ∧ p.Each Q := by
  refine run_inv (I := fun p => p.Enrolled ∧ p.Each Q) ?_
    ⟨init_enrolled blocks plugin, init_each blocks plugin⟩ hC hrun
  rintro p act p' ⟨hp, heach⟩ hact hstep
  refine ⟨step_enrolled hp hstep, step_each robust hp heach hstep ?_⟩
  rintro id sact session world session' rfl here step hQ
  exact hown hact here step hQ

end Pipeline

/-! ### The end of a session -/

namespace Session

variable {session session' : Session} {cfg : PublishConfig} {codec : Codec} {id n : ℕ}
  {world world' : World} {act : SessionAct}

/-- The entry may still be the session's: not once the session has looked at its entries and
this one was not there. -/
def MayOwn (session : Session) (n : ℕ) : Prop :=
  match session.task with
  | .collect todo _ => n ∈ todo
  | .release blocks | .broadcast _ _ _ (.released blocks) => n ∈ blocks
  | .gone => False
  | _ => True

lemma mayOwn_of_early (h : session.task.early) : session.MayOwn n := by
  unfold MayOwn
  split
  · next here => rw [here] at h; cases h
  · next here => rw [here] at h; cases h
  · next here => rw [here] at h; cases h
  · next here => rw [here] at h; cases h
  · trivial

lemma MayOwn.ne_gone (h : session.MayOwn n) : session.task ≠ .gone := by
  intro hgone
  unfold MayOwn at h
  rw [hgone] at h
  exact h

lemma Hears.mayOwn (h : session.Hears session') (hown : session.MayOwn n) : session'.MayOwn n := by
  cases h with
  | nothing => exact hown
  | failed | either => trivial

/-- A session that leaves finds every entry it has, and it makes no new ones. -/
lemma Step.mayOwn (step : Step cfg codec id world session act world' session')
    (h : ∀ n, world.blockWinners.get n = some id → session.MayOwn n)
    (hn : world'.blockWinners.get n = some id) : session'.MayOwn n := by
  unfold MayOwn at h
  cases step with
  | request => exact mayOwn_of_early (handleRequest_early _)
  | header => exact mayOwn_of_early onHeader_early
  | lookup => exact mayOwn_of_early onLookup_early
  | elected => exact mayOwn_of_early (execute_early _)
  | occupied => exact mayOwn_of_early (execute_early _)
  | streaming => exact mayOwn_of_early onStreaming_early
  | leave => exact World.mem_winnersOf.mpr hn
  | collect here =>
    rw [here] at h
    exact h n hn
  | collected here all =>
    rw [here] at h
    exact all n (h n hn) hn
  | @release k rest here =>
    rw [here] at h
    obtain ⟨hne, hget⟩ := World.get_of_unclaim hn
    exact (List.mem_cons.mp (h n hget)).resolve_left hne
  | unregister here =>
    rw [here] at h
    exact absurd (h n hn) List.not_mem_nil
  | @visit _ _ _ next _ here =>
    rw [here] at h
    cases next <;> exact h n hn
  | @finish _ _ _ next here =>
    rw [here] at h
    cases next <;> exact h n hn
  | _ => trivial

end Session

lemma Pipeline.mayOwn_robust :
    Pipeline.Robust fun S session => ∀ n ∈ S, session.MayOwn n where
  new := fun n hn => absurd hn (Set.notMem_empty n)
  fewer hsub h n hn := h n (hsub hn)
  failed event h n hn := (Session.deliverFailed_hears event).mayOwn (h n hn)
  persisted event h n hn := (Session.deliverPersisted_hears event).mayOwn (h n hn)

/-- **Winner entries belong to registered sessions**, at every point of every run. -/
theorem winner_registered {cfg : PipelineConfig} {codec : Codec} {blocks : List Block}
    {plugin : StatePlugin} {actions : List PipelineAct} {p : Pipeline}
    (hrun : run (Pipeline.step cfg codec) (.init cfg codec blocks plugin) actions = some p)
    {n id : ℕ} (hget : p.world.blockWinners.get n = some id) :
    id ∈ p.world.activeSessions := by
  obtain ⟨henrolled, hown⟩ := Pipeline.run_each Pipeline.mayOwn_robust
    (fun _ _ step hown n hn => step.mayOwn hown hn) (along_true _ _) hrun
  obtain ⟨session, hsession⟩ := Option.ne_none_iff_exists'.mp (henrolled.owner hget)
  exact henrolled.active hsession (hown id session hsession n hget).ne_gone

/-! ### Scripts -/

/-- Session `id` goes on by `k` steps. -/
def goOn (id k : ℕ) : List PipelineAct := List.replicate k (.session id .go)

/-- Session `id` sends the header of block `n`, with `rest` in the same set, and decides what to
do with it. -/
def sendBlock (id : ℕ) (n : UInt64) (rest : List BlockItem) : List PipelineAct :=
  .session id (.request (.blockItems (headerItem n :: rest))) :: goOn id 3

/-- Settings with which a run of the node can be followed. -/
def smallNode : PipelineConfig := ⟨zeroConfig, tenItems, true⟩

/-- The node at its start, with an empty store. -/
def smallStart : Pipeline := .init smallNode plainCodec [] .init

theorem winner_registered_five : ∃ p,
    run (Pipeline.step smallNode plainCodec) smallStart ([.connect] ++ sendBlock 0 5 []) =
        some p ∧
      p.world.blockWinners.get 5 = some 0 ∧ 0 ∈ p.world.activeSessions := by
  have hsome : ∃ p ∈ run (Pipeline.step smallNode plainCodec) smallStart
      ([.connect] ++ sendBlock 0 5 []), p.world.blockWinners.get 5 = some 0 := by decide +kernel
  obtain ⟨p, hrun, hget⟩ := hsome
  exact ⟨p, hrun, hget, winner_registered hrun hget⟩

end RockNode
