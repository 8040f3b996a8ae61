import RockNode.Acknowledgement
import RockNode.Cursor

/-!
The node over several lives, with the backfill worker at its side.

A crash may come between any two steps of the tasks. What is in memory is lost: the sessions, the
cache, the channels and what the tasks were about to do. The database stays, and
`PersistencePlugin::initialize` opens it again. The backfill worker writes to it as well, and the
state plugin may miss what is announced.
-/

namespace RockNode

variable {cfg : PipelineConfig} {codec : Codec}

lemma Store.log_subset_write (cfg : Config) (codec : Codec) (s : Store) (block : Block) :
    s.log ⊆ (s.write cfg codec block).log := by
  rcases s.write_cases cfg codec block with h | ⟨n, -, hlog, -⟩
  · rw [h]
    exact List.Subset.refl _
  · rw [hlog]
    exact List.subset_cons_self _ _

/-- What `PersistencePlugin::initialize` makes of a store from which nothing has been archived. -/
def Store.reopen (cfg : Config) (s : Store) : Store := ⟨initializeDb cfg .empty s.db, s.log⟩

lemma Store.Served.reopen {s : Store} (h : s.Served codec) (cfg : Config) :
    (s.reopen cfg).Served codec := by
  have hhot : (s.reopen cfg).db.hotBlocks = s.db.hotBlocks := (initializeDb_same cfg _ s.db).hot
  exact ⟨⟨h.faithful.number, fun hget => h.faithful.hot (hhot ▸ hget)⟩,
    fun hlast => hhot ▸ h.hot hlast⟩

/-- The process dies and starts again: the store and the state are on disk, the rest is gone. -/
def Pipeline.restart (cfg : PipelineConfig) (p : Pipeline) : Pipeline :=
  let store := p.store.reopen cfg.persistence
  { world := .init ((store.db.metadata .latestPersisted).map UInt64.ofNat)
    sessions := fun _ => none
    nextSession := 0
    verifier := .idle
    verifiedBlocks := []
    persister := .idle
    store := store
    statePlugin := p.statePlugin.start cfg.persistence
    stateEvents := []
    cleanup := .idle }

/-- The backfill worker calls `write_block` on its own; nobody is told. -/
def Pipeline.backfill (cfg : PipelineConfig) (codec : Codec) (p : Pipeline) (block : Block) :
    Pipeline :=
  { p with store := p.store.write cfg.persistence codec block }

/-- The state plugin subscribes in a task of its own, when persistence has already been started.
What was announced before is not for it. -/
def Pipeline.subscribe (p : Pipeline) : Pipeline := { p with stateEvents := [] }

/-- There are more events than the channel holds: `recv` fails, and the loop of the state plugin
ends. -/
def Pipeline.lag (p : Pipeline) : Option Pipeline :=
  match p.statePlugin.loop with
  | .waiting _ =>
    some { p with statePlugin := { p.statePlugin with loop := .stopped }, stateEvents := [] }
  | _ => none

inductive LifeAct where
  | node (act : PipelineAct)
  | backfill (block : Block)
  | subscribe
  | lag
  | restart

def Pipeline.live (cfg : PipelineConfig) (codec : Codec) (p : Pipeline) :
    LifeAct → Option Pipeline
  | .node act => p.step cfg codec act
  | .backfill block => some (p.backfill cfg codec block)
  | .subscribe => some p.subscribe
  | .lag => p.lag
  | .restart => some (p.restart cfg)

/-- Sessions accept headers with an empty buffer. -/
def LifeAct.AcceptsEmpty (p : Pipeline) : LifeAct → Prop
  | .node act => AcceptsWhenEmpty p act
  | _ => True

instance (p : Pipeline) (act : LifeAct) : Decidable (act.AcceptsEmpty p) :=
  match act with
  | .node act => inferInstanceAs (Decidable (AcceptsWhenEmpty p act))
  | .backfill _ | .subscribe | .lag | .restart => isTrue trivial

namespace Pipeline

variable {p p' : Pipeline}

lemma lag_eq_some (h : p.lag = some p') : ∃ last, p.statePlugin.loop = .waiting last ∧
    p' = { p with statePlugin := { p.statePlugin with loop := .stopped }, stateEvents := [] } := by
  unfold lag at h
  split at h
  · next last hloop => exact ⟨last, hloop, (Option.some.inj h).symm⟩
  · cases h

lemma restart_sound (h : p.Sound codec) : (p.restart cfg).Sound codec where
  store := h.store.reopen cfg.persistence
  world :=
    { cached := fun _ _ h => by cases h
      received := fun _ h => by cases h
      sent := fun _ _ h => by cases h }
  sessions h := by cases h
  verified _ h := by cases h
  verifier := trivial
  persister := trivial

lemma backfill_sound (h : p.Sound codec) (block : Block) :
    (p.backfill cfg codec block).Sound codec := by
  have hC : ∀ n : UInt64, p.Holds n → (p.backfill cfg codec block).Holds n :=
    fun n hn => Store.Committed.write hn block
  exact ⟨Store.write_served h.store block, h.world.mono hC,
    fun hs => ⟨(h.sessions hs).1, (h.sessions hs).2.mono hC fun _ he => he⟩, h.verified,
    h.verifier, h.persister.mono hC fun _ he => he⟩

/-- **One step in the life of the node.** -/
lemma live_sound {act : LifeAct} (h : p.Sound codec) (hempty : act.AcceptsEmpty p)
    (hstep : p.live cfg codec act = some p') : p'.Sound codec := by
  cases act with
  | node act => exact step_sound h hempty hstep
  | backfill block =>
    cases hstep
    exact backfill_sound h block
  | subscribe =>
    cases hstep
    exact ⟨h.store, h.world, h.sessions, h.verified, h.verifier, h.persister⟩
  | lag =>
    obtain ⟨-, -, rfl⟩ := lag_eq_some hstep
    exact ⟨h.store, h.world, h.sessions, h.verified, h.verifier, h.persister⟩
  | restart =>
    cases hstep
    exact restart_sound h

/-- Nothing that is committed is ever taken back. -/
lemma live_log {act : LifeAct} (hstep : p.live cfg codec act = some p') :
    p.store.log ⊆ p'.store.log := by
  cases act with
  | node act =>
    cases step_cases hstep with
    | write => exact Store.log_subset_write cfg.persistence codec p.store _
    | _ => exact List.Subset.refl _
  | backfill block =>
    cases hstep
    exact Store.log_subset_write cfg.persistence codec p.store block
  | lag =>
    obtain ⟨-, -, rfl⟩ := lag_eq_some hstep
    exact List.Subset.refl _
  | subscribe | restart =>
    cases hstep
    exact List.Subset.refl _

lemma run_log {actions : List LifeAct} (hrun : run (live cfg codec) p actions = some p') :
    p.store.log ⊆ p'.store.log :=
  run_inv_of_step (I := fun q => p.store.log ⊆ q.store.log)
    (fun h hstep => List.Subset.trans h (live_log hstep)) (List.Subset.refl _) hrun

end Pipeline

end RockNode
