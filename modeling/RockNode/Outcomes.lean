import RockNode.Ledger
import RockNode.InFlight

/-!
Outcomes that a session has missed.

A session subscribes to the broadcasts of failures and of persisted blocks after it has sent its
block to the verifier. What is broadcast before the subscription never reaches it, and it ends
up in the timeout. If every outcome is broadcast only once the session that waits for it has
subscribed, a session times out only when there has been none.
-/

namespace RockNode

/-- The receivers of a session that has handed over the block under `key`, with what has arrived
in them; until the session subscribes, nothing has. -/
structure Mailbox where
  key : ℕ
  failed : List BlockVerificationFailed
  persisted : List BlockPersisted

def SessionTask.mailbox : SessionTask → Option Mailbox
  | .subscribe key => some ⟨key, [], []⟩
  | .subscribeAgain key failed => some ⟨key, failed, []⟩
  | .waiting key failed stored => some ⟨key, failed, stored⟩
  | _ => none

/-- The key for which the session is about to subscribe to `BlockPersisted`. -/
def SessionTask.subscribing : SessionTask → Option ℕ
  | .subscribe key | .subscribeAgain key _ => some key
  | _ => none

namespace Mailbox

variable {box : Mailbox} {log log' : List Happening} {n : UInt64}

/-- What has been broadcast about block `n` is in the receivers. -/
structure Complete (box : Mailbox) (log : List Happening) (n : UInt64) : Prop where
  failed : .failed ⟨n, box.key⟩ ∈ log → ∃ f ∈ box.failed, f.event = ⟨n, box.key⟩
  persisted : .persisted ⟨n, box.key⟩ ∈ log → ⟨n, box.key⟩ ∈ box.persisted

lemma Complete.of_fewer (h : box.Complete log n)
    (hfailed : .failed ⟨n, box.key⟩ ∈ log' → .failed ⟨n, box.key⟩ ∈ log)
    (hpersisted : .persisted ⟨n, box.key⟩ ∈ log' → .persisted ⟨n, box.key⟩ ∈ log) :
    box.Complete log' n :=
  ⟨fun he => h.failed (hfailed he), fun he => h.persisted (hpersisted he)⟩

lemma Complete.addFailed (h : box.Complete log n) (f : BlockVerificationFailed) :
    Complete { box with failed := box.failed ++ [f] } (log ++ [.failed f.event]) n where
  failed he := by
    rcases List.mem_append.mp he with he | he
    · obtain ⟨g, hg, hevent⟩ := h.failed he
      exact ⟨g, List.mem_append_left _ hg, hevent⟩
    · have hevent : Happening.failed ⟨n, box.key⟩ = .failed f.event := List.mem_singleton.mp he
      exact ⟨f, List.mem_append_right _ List.mem_cons_self, (Happening.failed.inj hevent).symm⟩
  persisted he := h.persisted (by simpa using he)

lemma Complete.addPersisted (h : box.Complete log n) (event : BlockPersisted) :
    Complete { box with persisted := box.persisted ++ [event] } (log ++ [.persisted event]) n where
  failed he := h.failed (by simpa using he)
  persisted he := by
    rcases List.mem_append.mp he with he | he
    · exact List.mem_append_left _ (h.persisted he)
    · have hevent : Happening.persisted ⟨n, box.key⟩ = .persisted event :=
        List.mem_singleton.mp he
      rw [Happening.persisted.inj hevent]
      exact List.mem_append_right _ List.mem_cons_self

/-- A broadcast about another block changes nothing. -/
lemma Complete.of_other (h : box.Complete log n) {happening : Happening} {event : BlockEvent}
    (hevent : happening = .failed event ∨ happening = .persisted event)
    (hkey : event.cacheKey ≠ box.key) : box.Complete (log ++ [happening]) n := by
  refine h.of_fewer (fun he => ?_) fun he => ?_
  · refine (List.mem_append.mp he).resolve_right fun hlast => hkey ?_
    rcases hevent with rfl | rfl
    · cases List.mem_singleton.mp hlast
      rfl
    · cases List.mem_singleton.mp hlast
  · refine (List.mem_append.mp he).resolve_right fun hlast => hkey ?_
    rcases hevent with rfl | rfl
    · cases List.mem_singleton.mp hlast
    · cases List.mem_singleton.mp hlast
      rfl

end Mailbox

namespace Session

variable {session session' : Session} {cfg : PublishConfig} {codec : Codec} {id : ℕ}
  {world world' : World} {act : SessionAct} {log log' : List Happening}

/-- What has been broadcast about the block of the session is in its receivers, from the time it
has handed the block over until it takes notice. -/
def Heard (log : List Happening) (session : Session) : Prop :=
  ∀ box ∈ session.task.mailbox, box.Complete log session.blockNumber

lemma heard_of_none (h : session.task.mailbox = none) : session.Heard log := by
  intro box hbox
  rw [h] at hbox
  cases hbox

lemma mailbox_of_early (h : session.task.early) : session.task.mailbox = none := by
  cases here : session.task <;> rw [here] at h <;> first | rfl | cases h

/-- A session takes from its receivers only what is not about its own block. -/
lemma Step.heard (step : Step cfg codec id world session act world' session')
    (h : session.Heard log)
    (hnew : ∀ key, session.task = .handOver key →
      .failed ⟨session.blockNumber, key⟩ ∉ log ∧ .persisted ⟨session.blockNumber, key⟩ ∉ log) :
    session'.Heard log := by
  cases step with
  | request => exact heard_of_none (mailbox_of_early (handleRequest_early _))
  | header => exact heard_of_none (mailbox_of_early onHeader_early)
  | lookup => exact heard_of_none (mailbox_of_early onLookup_early)
  | elected | occupied => exact heard_of_none (mailbox_of_early (execute_early _))
  | streaming => exact heard_of_none (mailbox_of_early onStreaming_early)
  | handOver here =>
    intro box hbox
    cases hbox
    obtain ⟨hfailed, hpersisted⟩ := hnew _ here
    exact ⟨fun he => absurd he hfailed, fun he => absurd he hpersisted⟩
  | subscribe here | subscribeAgain here =>
    intro box hbox
    cases hbox
    exact h _ (by rw [here]; rfl)
  | @ignoreFailed key event failed persisted here other =>
    intro box hbox
    cases hbox
    have hbox : Mailbox.Complete ⟨key, event :: failed, persisted⟩ log session.blockNumber :=
      h _ (by rw [here]; rfl)
    refine ⟨fun he => ?_, hbox.persisted⟩
    obtain ⟨f, hf, hevent⟩ := hbox.failed he
    rcases List.mem_cons.mp hf with rfl | hf
    · exact absurd hevent other
    · exact ⟨f, hf, hevent⟩
  | @ignorePersisted key event failed persisted here other =>
    intro box hbox
    cases hbox
    have hbox : Mailbox.Complete ⟨key, failed, event :: persisted⟩ log session.blockNumber :=
      h _ (by rw [here]; rfl)
    refine ⟨hbox.failed, fun he => ?_⟩
    exact (List.mem_cons.mp (hbox.persisted he)).resolve_left fun heq => other heq.symm
  | @finish _ _ _ next => exact heard_of_none (by cases next <;> rfl)
  | _ => exact heard_of_none rfl

/-- A failure reaches the session, or is about another block. -/
lemma deliverFailed_heard {failed : BlockVerificationFailed} (h : session.Heard log)
    (hready : session.task ≠ .subscribe failed.event.cacheKey) :
    (session.deliverFailed failed).Heard (log ++ [.failed failed.event]) := by
  unfold deliverFailed
  split
  · next key events here =>
    intro box hbox
    cases hbox
    exact (h ⟨key, events, []⟩ (by rw [here]; rfl)).addFailed failed
  · next key events persisted here =>
    intro box hbox
    cases hbox
    exact (h ⟨key, events, persisted⟩ (by rw [here]; rfl)).addFailed failed
  · next hagain hwaiting =>
    intro box hbox
    refine (h box hbox).of_other (.inl rfl) fun hkey => hready ?_
    cases here : session.task with
    | subscribe key =>
      rw [here] at hbox
      cases hbox
      rw [hkey]
    | subscribeAgain key events => exact absurd here (hagain key events)
    | waiting key events persisted => exact absurd here (hwaiting key events persisted)
    | _ => rw [here] at hbox; cases hbox

lemma deliverPersisted_heard {event : BlockPersisted} (h : session.Heard log)
    (hready : session.task.subscribing ≠ some event.cacheKey) :
    (session.deliverPersisted event).Heard (log ++ [.persisted event]) := by
  unfold deliverPersisted
  split
  · next key failed persisted here =>
    intro box hbox
    cases hbox
    exact (h ⟨key, failed, persisted⟩ (by rw [here]; rfl)).addPersisted event
  · next hwaiting =>
    intro box hbox
    refine (h box hbox).of_other (.inr rfl) fun hkey => hready ?_
    cases here : session.task with
    | subscribe key | subscribeAgain key events =>
      rw [here] at hbox
      cases hbox
      rw [hkey]
      rfl
    | waiting key failed persisted => exact absurd here (hwaiting key failed persisted)
    | _ => rw [here] at hbox; cases hbox

end Session

/-- The failure the verifier is about to broadcast. -/
def VerifierTask.failing : VerifierTask → Option BlockVerificationFailed
  | .fail failed => some failed
  | _ => none

namespace Pipeline

variable {cfg : PipelineConfig} {codec : Codec} {p p' : Pipeline} {act : PipelineAct}
  {log : List Happening}

/-- A failure is broadcast when the session that handed the block over has subscribed. -/
def FailsToListeners : Pipeline → PipelineAct → Prop :=
  AtVerifier fun p => ∀ failed ∈ p.verifier.failing, ∀ id < p.nextSession,
    ∀ session ∈ p.sessions id, session.task ≠ .subscribe failed.event.cacheKey

/-- A persisted block is broadcast when the session that handed it over has subscribed. -/
def PersistsToListeners : Pipeline → PipelineAct → Prop :=
  AtPersister fun p => ∀ event ∈ p.persister.announcing, ∀ id < p.nextSession,
    ∀ session ∈ p.sessions id, session.task.subscribing ≠ some event.cacheKey

def SendsToListeners (p : Pipeline) (act : PipelineAct) : Prop :=
  FailsToListeners p act ∧ PersistsToListeners p act

instance (p : Pipeline) (act : PipelineAct) : Decidable (SendsToListeners p act) :=
  inferInstanceAs (Decidable (AtVerifier _ p act ∧ AtPersister _ p act))

/-- The ledger is kept, and the sessions have heard what concerns them. -/
structure Attentive (p : Pipeline) (log : List Happening) : Prop where
  enrolled : p.Enrolled
  ledger : p.Ledger log
  heard : ∀ id session, p.sessions id = some session → session.Heard log

/-- A step that broadcasts nothing. -/
lemma heard_quiet {session : Session} (h : session.Heard log)
    (hfail : ∀ failed, act = .verifier → p.verifier ≠ .fail failed)
    (hbroadcast : ∀ event, act = .persister → p.persister ≠ .broadcast event) :
    session.Heard (log ++ p.happens cfg codec act) := by
  intro box hbox
  refine (h box hbox).of_fewer (fun he => ?_) fun he => ?_
  · refine (List.mem_append.mp he).resolve_right fun hnew => ?_
    obtain ⟨_, _, _, _, _, hh⟩ | ⟨failed, hact, hv, -⟩ | ⟨_, _, _, _, _, _, hh⟩ | ⟨_, _, _, hh⟩ :=
      mem_happens hnew
    · cases hh
    · exact hfail failed hact hv
    · cases hh
    · cases hh
  · refine (List.mem_append.mp he).resolve_right fun hnew => ?_
    obtain ⟨_, _, _, _, _, hh⟩ | ⟨_, _, _, hh⟩ | ⟨_, _, _, _, _, _, hh⟩ | ⟨event, hact, hp, -⟩ :=
      mem_happens hnew
    · cases hh
    · cases hh
    · cases hh
    · exact hbroadcast event hact hp

/-- Nothing has been broadcast under a key that has not been handed over. -/
lemma Ledger.nothing_sent (h : p.Ledger log) {id key : ℕ} (hkey : p.HandsOver id key)
    (n : UInt64) : .failed ⟨n, key⟩ ∉ log ∧ .persisted ⟨n, key⟩ ∉ log := by
  have hnot : key ∉ settled log :=
    fun hk => (h.tickets.held hkey).2 (List.mem_append_right _ hk)
  exact ⟨fun he => hnot (List.mem_filterMap.mpr ⟨_, he, rfl⟩),
    fun he => hnot (h.persisted _ he)⟩

/-- **One step of the node**: an outcome reaches the session that waits for it. -/
lemma step_attentive (h : p.Attentive log) (hlisten : SendsToListeners p act)
    (hstep : p.step cfg codec act = some p') :
    p'.Attentive (log ++ p.happens cfg codec act) := by
  have hlt : ∀ {id session}, p.sessions id = some session → id < p.nextSession :=
    fun hs => h.enrolled.id_lt hs
  refine ⟨step_enrolled h.enrolled hstep, step_ledger h.ledger hstep, ?_⟩
  cases step_cases hstep with
  | connect =>
    intro id session hid
    rcases update_sessions hid with ⟨-, rfl⟩ | ⟨-, hid⟩
    · exact Session.heard_of_none rfl
    · exact heard_quiet (h.heard id session hid) (by simp) (by simp)
  | @session id sact session world session' here step =>
    intro j other hj
    rcases update_sessions hj with ⟨rfl, rfl⟩ | ⟨-, hj⟩
    · refine heard_quiet (step.heard (h.heard j session here) fun key hkey => ?_) (by simp)
        (by simp)
      exact h.ledger.nothing_sent ⟨session, here, hkey⟩ _
    · exact heard_quiet (h.heard j other hj) (by simp) (by simp)
  | fail here =>
    intro id session' hid
    obtain ⟨session, hs, rfl⟩ := Option.map_eq_some_iff.mp hid
    have hready := hlisten.1 _ (by rw [here]; rfl) id (hlt hs) session hs
    simp only [happens, here]
    exact Session.deliverFailed_heard (h.heard id session hs) hready
  | broadcast here =>
    intro id session' hid
    obtain ⟨session, hs, rfl⟩ := Option.map_eq_some_iff.mp hid
    have hready := hlisten.2 _ (by rw [here]; rfl) id (hlt hs) session hs
    simp only [happens, here]
    exact Session.deliverPersisted_heard (h.heard id session hs) hready
  | takeReceived here | verify here | pass here | markFailed here =>
    exact fun id session hid => heard_quiet (h.heard id session hid) (by simp [here]) (by simp)
  | takeVerified here | takeUnverified here | fetchBlock here | write here | mark here =>
    exact fun id session hid => heard_quiet (h.heard id session hid) (by simp) (by simp [here])
  | _ => exact fun id session hid => heard_quiet (h.heard id session hid) (by simp) (by simp)

end Pipeline

/-- **No outcome is lost** in a run in which failures and persisted blocks are broadcast only
when the session concerned has subscribed: a session that can time out has neither outcome
behind it. -/
theorem no_lost_outcome {cfg : PipelineConfig} {codec : Codec} {blocks : List Block}
    {plugin : StatePlugin} {actions : List PipelineAct} {p : Pipeline} {log : List Happening}
    (hlisten : Along (Pipeline.stepRecorded cfg codec)
      (fun s act => Pipeline.SendsToListeners s.1 act) (.init cfg codec blocks plugin, []) actions)
    (hrun : run (Pipeline.stepRecorded cfg codec) (.init cfg codec blocks plugin, []) actions =
      some (p, log))
    {id key : ℕ} {session : Session} {failed : List BlockVerificationFailed}
    {persisted : List BlockPersisted} (hsession : p.sessions id = some session)
    (htask : session.task = .waiting key failed persisted)
    (htimeout : (session.step cfg.publish codec id p.world .timeout).isSome) :
    .failed ⟨session.blockNumber, key⟩ ∉ log ∧ .persisted ⟨session.blockNumber, key⟩ ∉ log := by
  have hinv : p.Attentive log := by
    refine run_inv (I := fun s => s.1.Attentive s.2) (fun {s act s'} h hC hstep => ?_)
      ⟨Pipeline.init_enrolled blocks plugin, Pipeline.init_ledger blocks plugin,
        fun _ _ h => by cases h⟩ hlisten hrun
    obtain ⟨hnext, hlog⟩ := recorded_eq_some hstep
    rw [hlog]
    exact Pipeline.step_attentive h hC hnext
  obtain ⟨⟨world', session'⟩, hnext⟩ := Option.isSome_iff_exists.mp htimeout
  cases Session.step_cases hnext with
  | timeout here =>
    rw [htask] at here
    cases here
    have hbox := hinv.heard id session hsession ⟨key, [], []⟩ (by rw [htask]; rfl)
    constructor
    · intro he
      obtain ⟨f, hf, -⟩ := hbox.failed he
      cases hf
    · intro he
      cases hbox.persisted he

theorem no_lost_outcome_five : ∃ p log session,
    run (Pipeline.stepRecorded smallNode plainCodec) (smallStart, [])
        ([.connect] ++ sendBlock 0 5 [proofItem 5] ++ handOver 0) = some (p, log) ∧
      p.sessions 0 = some session ∧ session.task = .waiting 0 [] [] ∧
      .failed ⟨session.blockNumber, 0⟩ ∉ log ∧ .persisted ⟨session.blockNumber, 0⟩ ∉ log := by
  have hsome : ∃ s ∈ run (Pipeline.stepRecorded smallNode plainCodec) (smallStart, [])
      ([.connect] ++ sendBlock 0 5 [proofItem 5] ++ handOver 0),
      ∃ session ∈ s.1.sessions 0, session.task = .waiting 0 [] [] ∧
        (session.step smallNode.publish plainCodec 0 s.1.world .timeout).isSome := by
    decide +kernel
  obtain ⟨⟨p, log⟩, hrun, session, hsession, htask, htimeout⟩ := hsome
  exact ⟨p, log, session, hrun, hsession, htask,
    no_lost_outcome (by decide +kernel) hrun hsession htask htimeout⟩

/-- Session 0 hands block 5 over; the block is verified, stored and broadcast, and only then the
session subscribes. -/
def lateSubscriptionRun : List PipelineAct :=
  [.connect] ++ sendBlock 0 5 [proofItem 5] ++ goOn 0 2 ++ persistNext ++ goOn 0 2

/-- Block 5 has been stored and broadcast, and its session is going to time out. -/
theorem outcome_lost : ∃ p log session,
    run (Pipeline.stepRecorded smallNode plainCodec) (smallStart, []) lateSubscriptionRun =
        some (p, log) ∧
      p.sessions 0 = some session ∧ session.task = .waiting 0 [] [] ∧
      .persisted ⟨session.blockNumber, 0⟩ ∈ log ∧
      (session.step smallNode.publish plainCodec 0 p.world .timeout).isSome := by
  have hsome : ∃ s ∈ run (Pipeline.stepRecorded smallNode plainCodec) (smallStart, [])
      lateSubscriptionRun, ∃ session ∈ s.1.sessions 0, session.task = .waiting 0 [] [] ∧
        .persisted ⟨session.blockNumber, 0⟩ ∈ s.2 ∧
        (session.step smallNode.publish plainCodec 0 s.1.world .timeout).isSome := by
    decide +kernel
  obtain ⟨⟨p, log⟩, hrun, session, hsession, hrest⟩ := hsome
  exact ⟨p, log, session, hrun, hsession, hrest⟩

end RockNode
