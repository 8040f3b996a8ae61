import RockNode.Acknowledgement
import RockNode.Outcomes
import RockNode.SharedWatermark

/-!
Blocks that are taken in once.

After a block has been stored, a session accepts another header of its number if it finds the
watermark below the number and the winner entry vacant. Neither is the case as long as the
session that handed the block over is still waiting when the block is stored and goes on to move
the watermark, the watermark does not go back, and what is stored carries the number that was
announced.
-/

namespace RockNode

/-- Positive numbers of type `i64` keep their order as `u64`. -/
lemma toUInt64_toNat_le {a b : Int64} (h0 : 0 < a) (h : a ≤ b) :
    a.toUInt64.toNat ≤ b.toUInt64.toNat := by
  rw [Int64.lt_iff_toInt_lt] at h0
  rw [Int64.le_iff_toInt_le] at h
  have hzero : (0 : Int64).toInt = 0 := rfl
  have ha : a.toInt = a.toBitVec.toInt := rfl
  have hb : b.toInt = b.toBitVec.toInt := rfl
  rw [BitVec.toInt_eq_toNat_cond] at ha hb
  rw [← Int64.toNat_toBitVec, ← Int64.toNat_toBitVec]
  split_ifs at ha hb <;> omega

/-- A block has been stored, and a header of its number is accepted. -/
def Happening.repeats : Happening → Happening → Bool
  | .stored n _, .accepted m => n = m
  | _, _ => false

/-- No header is accepted after a block of its number has been stored. -/
def IngestedOnce (log : List Happening) : Prop :=
  log.Pairwise fun earlier later => ¬ earlier.repeats later

/-- What has been stored. -/
def Happening.event? : Happening → Option BlockEvent
  | .stored _ event => some event
  | _ => none

/-- The event whose block is about to be stored. -/
def PersistTask.storing : PersistTask → Option BlockEvent
  | .write event _ => some event
  | _ => none

/-- The bound of a clean-up that is under way. -/
def CleanupTask.bound : CleanupTask → Option ℕ
  | .loaded before | .retaining before _ _ => some before
  | .idle => none

namespace Session

variable {session session' : Session} {cfg : PublishConfig} {codec : Codec} {id key : ℕ}
  {world world' : World} {act : SessionAct} {log : List Happening}

/-- The session waits for the outcome under the key, or has learned that its block is stored. -/
def Expects (session : Session) (key : ℕ) : Prop :=
  (∃ box ∈ session.task.mailbox, box.key = key) ∨ session.task = .persisted

lemma not_expects (hbox : session.task.mailbox = none) (htask : session.task ≠ .persisted) :
    ¬ session.Expects key := by
  rintro (⟨box, hmem, -⟩ | h)
  · rw [hbox] at hmem
    cases hmem
  · exact htask h

lemma Expects.inFlight (h : session.Expects key) : session.task.inFlight := by
  rcases h with ⟨box, hbox, -⟩ | h
  · cases here : session.task <;> rw [here] at hbox <;> first | rfl | cases hbox
  · rw [h]
    rfl

lemma Hears.expects (hears : session.Hears session') (h : session.Expects key) :
    session'.Expects key := by
  cases hears with
  | nothing => exact h
  | failed here | either here =>
    unfold Expects at h
    rw [here] at h
    rcases h with ⟨box, hbox, hkey⟩ | h
    · cases hbox
      exact .inl ⟨_, rfl, hkey⟩
    · cases h

/-- A session stops expecting an outcome when it moves the watermark, when it learns that its
block has failed, or when it times out. -/
lemma Step.expects (step : Step cfg codec id world session act world' session')
    (h : session.Expects key) :
    (session'.Expects key ∧ session'.blockNumber = session.blockNumber) ∨
    world'.latestPersistedBlock = session.currentBlockNumber ∨
    (∃ box ∈ session.task.mailbox, box.key = key ∧
      ∃ f ∈ box.failed, f.event = ⟨session.blockNumber, key⟩) ∨
    (act = .timeout ∧ ∃ box ∈ session.task.mailbox, box.key = key) := by
  cases step with
  | storeLatest here => exact .inr (.inl (Int64.toInt64_toUInt64 _))
  | subscribe here | subscribeAgain here | ignoreFailed here | ignorePersisted here =>
    obtain ⟨box, hbox, hkey⟩ := h.resolve_right (by rw [here]; simp)
    rw [here] at hbox
    cases hbox
    exact .inl ⟨.inl ⟨_, rfl, hkey⟩, rfl⟩
  | takePersisted => exact .inl ⟨.inr rfl, rfl⟩
  | takeFailed here mine =>
    obtain ⟨box, hbox, hkey⟩ := h.resolve_right (by rw [here]; simp)
    refine .inr (.inr (.inl ⟨box, hbox, hkey, ?_⟩))
    rw [here] at hbox
    cases hbox
    cases hkey
    exact ⟨_, List.mem_cons_self, mine⟩
  | timeout here =>
    exact .inr (.inr (.inr ⟨rfl, h.resolve_right (by rw [here]; simp)⟩))
  | request here | hangUp here | header here | lookup here | elected here | occupied here
  | streaming here | behind here | respondReset here | respondLeave here | respondResend here
  | complete here | handOver here | channelClosed here | visit here | finish here
  | removeAcknowledged here | removeFailed here | removeTimedOut here | endStream here
  | crash here | leave here | collect here | collected here | release here | unregister here =>
    exact absurd h (not_expects (by rw [here]; rfl) (by rw [here]; simp))

/-- The failures in the receiver have been broadcast. -/
def FailedRecorded (log : List Happening) (session : Session) : Prop :=
  ∀ box ∈ session.task.mailbox, ∀ f ∈ box.failed, .failed f.event ∈ log

lemma failedRecorded_of_none (h : session.task.mailbox = none) : session.FailedRecorded log := by
  intro box hbox
  rw [h] at hbox
  cases hbox

lemma FailedRecorded.append (h : session.FailedRecorded log) (more : List Happening) :
    session.FailedRecorded (log ++ more) :=
  fun box hbox f hf => List.mem_append_left _ (h box hbox f hf)

lemma Step.failedRecorded (step : Step cfg codec id world session act world' session')
    (h : session.FailedRecorded log) : session'.FailedRecorded log := by
  cases step with
  | request => exact failedRecorded_of_none (mailbox_of_early (handleRequest_early _))
  | header => exact failedRecorded_of_none (mailbox_of_early onHeader_early)
  | lookup => exact failedRecorded_of_none (mailbox_of_early onLookup_early)
  | elected | occupied => exact failedRecorded_of_none (mailbox_of_early (execute_early _))
  | streaming => exact failedRecorded_of_none (mailbox_of_early onStreaming_early)
  | handOver =>
    intro box hbox f hf
    cases hbox
    cases hf
  | subscribe here | subscribeAgain here =>
    intro box hbox f hf
    cases hbox
    exact h _ (by rw [here]; rfl) f hf
  | @ignorePersisted key event failed persisted here =>
    intro box hbox f hf
    cases hbox
    exact h ⟨key, failed, event :: persisted⟩ (by rw [here]; rfl) f hf
  | ignoreFailed here =>
    intro box hbox f hf
    cases hbox
    exact h _ (by rw [here]; rfl) f (List.mem_cons_of_mem _ hf)
  | @finish _ _ _ next => exact failedRecorded_of_none (by cases next <;> rfl)
  | _ => exact failedRecorded_of_none rfl

lemma deliverFailed_failedRecorded (h : session.FailedRecorded log)
    (failed : BlockVerificationFailed) :
    (session.deliverFailed failed).FailedRecorded (log ++ [.failed failed.event]) := by
  have hadd : ∀ {key persisted events}, session.task.mailbox = some ⟨key, events, persisted⟩ →
      ∀ f ∈ events ++ [failed], Happening.failed f.event ∈ log ++ [.failed failed.event] := by
    intro key persisted events hbox f hf
    rcases List.mem_append.mp hf with hf | hf
    · exact List.mem_append_left _ (h _ hbox f hf)
    · rw [List.mem_singleton.mp hf]
      exact List.mem_append_right _ List.mem_cons_self
  unfold deliverFailed
  split
  · next here =>
    intro box hbox
    cases hbox
    exact hadd (by rw [here]; rfl)
  · next here =>
    intro box hbox
    cases hbox
    exact hadd (by rw [here]; rfl)
  · exact h.append _

lemma deliverPersisted_failedRecorded (h : session.FailedRecorded log) (event : BlockPersisted) :
    (session.deliverPersisted event).FailedRecorded log := by
  unfold deliverPersisted
  split
  · next key failed persisted here =>
    intro box hbox f hf
    cases hbox
    exact h ⟨key, failed, persisted⟩ (by rw [here]; rfl) f hf
  · exact h

end Session

namespace Pipeline

variable {cfg : PipelineConfig} {codec : Codec} {p p' : Pipeline} {act : PipelineAct}
  {log : List Happening}

/-! ### What a run has to keep to -/

/-- A header is accepted while the watermark is still below it, as it was when the session looked
at it first. -/
def ClaimsAbove : Pipeline → PipelineAct → Prop :=
  AtSession fun p _ session _ => ∀ e ∈ session.electing,
    p.world.blockWinners.get e.1.toUInt64.toNat = none → p.world.latestPersistedBlock < e.1

/-- A session is waiting for the outcome of this event. -/
def Awaited (p : Pipeline) (event : BlockEvent) : Prop :=
  ∃ id < p.nextSession, ∃ session ∈ p.sessions id, session.blockNumber = event.blockNumber ∧
    ∃ box ∈ session.task.mailbox, box.key = event.cacheKey

instance (p : Pipeline) (event : BlockEvent) : Decidable (p.Awaited event) :=
  inferInstanceAs (Decidable (∃ id < p.nextSession, _))

/-- A block is stored while the session that handed it over is waiting for it. -/
def StoresAwaited : Pipeline → PipelineAct → Prop :=
  AtPersister fun p => ∀ event ∈ p.persister.storing, p.Awaited event

/-- A session does not time out when its block has been stored. -/
def TimesOutUnstored (log : List Happening) : Pipeline → PipelineAct → Prop :=
  AtSession fun _ _ session act => act = .timeout → ∀ box ∈ session.task.mailbox,
    ∀ happening ∈ log, happening.event? ≠ some ⟨session.blockNumber, box.key⟩

/-- The conditions under which a block is taken in once. -/
structure Orderly (log : List Happening) (p : Pipeline) (act : PipelineAct) : Prop where
  empty : AcceptsWhenEmpty p act
  claims : ClaimsAbove p act
  completes : CompletesInOrder p act
  stores : StoresAwaited p act
  waits : TimesOutUnstored log p act

instance (log : List Happening) (p : Pipeline) (act : PipelineAct) :
    Decidable (Orderly log p act) :=
  have : Decidable (ClaimsAbove p act) := inferInstanceAs (Decidable (AtSession _ p act))
  have : Decidable (StoresAwaited p act) := inferInstanceAs (Decidable (AtPersister _ p act))
  have : Decidable (TimesOutUnstored log p act) :=
    inferInstanceAs (Decidable (AtSession _ p act))
  decidable_of_iff (AcceptsWhenEmpty p act ∧ ClaimsAbove p act ∧ CompletesInOrder p act ∧
      StoresAwaited p act ∧ TimesOutUnstored log p act)
    ⟨fun ⟨h1, h2, h3, h4, h5⟩ => ⟨h1, h2, h3, h4, h5⟩,
      fun ⟨h1, h2, h3, h4, h5⟩ => ⟨h1, h2, h3, h4, h5⟩⟩

/-! ### The invariant -/

/-- Blocks below the watermark. -/
def below (p : Pipeline) : Set ℕ :=
  {n | 0 < p.world.latestPersistedBlock ∧ n < p.world.latestPersistedBlock.toUInt64.toNat}

lemma below_mono (h : p.world.latestPersistedBlock ≤ p'.world.latestPersistedBlock) :
    p.below ⊆ p'.below := by
  rintro n ⟨hpos, hn⟩
  refine ⟨?_, hn.trans_le (toUInt64_toNat_le hpos h)⟩
  rw [Int64.lt_iff_toInt_lt] at hpos ⊢
  rw [Int64.le_iff_toInt_le] at h
  exact hpos.trans_le h

/-- The watermark has reached the block, or a session is going to move it there. -/
def Covered (p : Pipeline) (event : BlockEvent) : Prop :=
  event.blockNumber.toInt64 ≤ p.world.latestPersistedBlock ∨
    ∃ id session, p.sessions id = some session ∧ session.blockNumber = event.blockNumber ∧
      session.Expects event.cacheKey

structure Ingests (codec : Codec) (p : Pipeline) (log : List Happening) : Prop where
  inOrder : p.InOrder
  sound : p.Sound codec
  ledger : p.Ledger log
  secure : p.Secure p.below
  cleanup : ∀ before ∈ p.cleanup.bound, ∀ n < before, n ∈ p.below
  failed : ∀ id session, p.sessions id = some session → session.FailedRecorded log
  labelled : ∀ n event, .stored n event ∈ log → n = event.blockNumber.toNat
  covered : ∀ n event, .stored n event ∈ log → p.Covered event
  once : IngestedOnce log

lemma init_ingests (blocks : List Block) (plugin : StatePlugin) :
    (init cfg codec blocks plugin).Ingests codec [] where
  inOrder := init_inOrder blocks plugin
  sound := init_sound blocks plugin
  ledger := init_ledger blocks plugin
  secure _ _ h := by cases h
  cleanup _ h := by cases h
  failed _ _ h := by cases h
  labelled _ _ h := by cases h
  covered _ _ h := by cases h
  once := .nil

/-- A block does not both fail and get stored. -/
lemma Ledger.not_failed_stored (h : p.Ledger log) {n : ℕ} {event : BlockEvent}
    (hfailed : .failed event ∈ log) (hstored : .stored n event ∈ log) : False := by
  have hnodup : (settled log).Nodup := (List.nodup_append.mp h.tickets.nodup).2.1
  have hpairwise := List.pairwise_filterMap.mp hnodup
  have : Std.Symm fun a b : Happening => ∀ k, a.settles = some k → ∀ k', b.settles = some k' →
      k ≠ k' := ⟨fun a b hab k hk k' hk' => (hab k' hk' k hk).symm⟩
  exact hpairwise.forall hfailed hstored (by simp) _ rfl _ rfl rfl

/-- **A stored block is out of reach**: where the watermark is below its number, a session owns
its winner entry. -/
lemma Ingests.taken (h : p.Ingests codec log) {n : ℕ} {event : BlockEvent} {m : Int64}
    (hstored : .stored n event ∈ log) (hm : m.toUInt64.toNat = n)
    (habove : p.world.latestPersistedBlock < m) : p.world.blockWinners.get n ≠ none := by
  have hnumber : event.blockNumber = m.toUInt64 :=
    UInt64.toNat_inj.mp ((h.labelled n event hstored).symm.trans hm.symm)
  rcases h.covered n event hstored with hle | ⟨id, session, hs, hblock, hexpects⟩
  · rw [hnumber, Int64.toInt64_toUInt64] at hle
    exact absurd hle (Int64.not_le.mpr habove)
  · have hflight := hexpects.inFlight
    have hlatest := h.inOrder.above hs hflight
    have hsecure := h.secure id session hs
    -- the session relies on the entry, and it is not below the watermark
    have huses : session.Uses n := by
      refine (Session.uses_iff_streams (Session.leaving_of_inFlight hflight)).mpr
        ⟨?_, hsecure.fits.accept_of_inFlight hflight⟩
      rw [hblock, hnumber, hm]
    rcases hsecure.uses n huses with hown | ⟨hpos, hlt⟩
    · rw [show p.world.blockWinners.get n = some id from hown]
      exact Option.some_ne_none _
    · have hle := toUInt64_toNat_le hpos hlatest
      rw [← hm, ← hnumber, ← hblock] at hlt
      exact absurd hle (not_le.mpr hlt)

lemma accepts_eq_some {id n : ℕ} (h : p.accepts id = some n) :
    ∃ session, p.sessions id = some session ∧ ∃ e ∈ session.electing,
      n = e.1.toUInt64.toNat ∧ p.world.blockWinners.get n = none := by
  unfold accepts at h
  rcases hs : p.sessions id with _ | session
  · simp [hs] at h
  rcases he : session.electing with _ | e
  · simp [hs, he] at h
  simp only [hs, he, Option.bind_eq_bind, Option.bind_some] at h
  split_ifs at h with hvacant
  cases h
  exact ⟨session, rfl, e, he, rfl, hvacant⟩

/-- What is stored stays covered. -/
lemma Covered.step (h : p.Ingests codec log) (hC : Orderly log p act)
    (hstep : p.step cfg codec act = some p') {n : ℕ} {event : BlockEvent}
    (hstored : .stored n event ∈ log) : p'.Covered event := by
  have hlatest := (step_inOrder h.inOrder hC.completes hstep).2
  rcases h.covered n event hstored with hle | ⟨id, session, hs, hblock, hexpects⟩
  · exact .inl (Int64.le_trans hle hlatest)
  cases step_cases hstep with
  | connect =>
    have hne : id ≠ p.nextSession :=
      (h.inOrder.enrolled.id_lt hs).ne
    exact .inr ⟨id, session, (Function.update_of_ne hne _ _).trans hs, hblock, hexpects⟩
  | @session j sact other world session' here step =>
    by_cases hj : id = j
    · subst hj
      rw [hs] at here
      cases here
      rcases step.expects hexpects with
        ⟨hgoes, hnumber⟩ | hmoved | ⟨box, hbox, -, f, hf, hevent⟩ | ⟨rfl, box, hbox, hkey⟩
      · exact .inr ⟨id, session', Function.update_self .., hnumber.trans hblock, hgoes⟩
      · left
        rw [← hblock]
        exact (Int64.toInt64_toUInt64 _).trans hmoved.symm ▸ Int64.le_refl _
      · -- the block has been stored, so it has not failed
        have hfailed := h.failed id session hs box hbox f hf
        rw [hevent, hblock] at hfailed
        exact (h.ledger.not_failed_stored hfailed hstored).elim
      · refine absurd ?_ (hC.waits session hs rfl box hbox _ hstored)
        rw [hblock, hkey]
        rfl
    · exact .inr ⟨id, session, (Function.update_of_ne hj _ _).trans hs, hblock, hexpects⟩
  | fail =>
    exact .inr ⟨id, session.deliverFailed _, congrArg (Option.map _) hs,
      (Session.deliverFailed_hears _).blockNumber.trans hblock,
      (Session.deliverFailed_hears _).expects hexpects⟩
  | broadcast =>
    exact .inr ⟨id, session.deliverPersisted _, congrArg (Option.map _) hs,
      (Session.deliverPersisted_hears _).blockNumber.trans hblock,
      (Session.deliverPersisted_hears _).expects hexpects⟩
  | _ => exact .inr ⟨id, session, hs, hblock, hexpects⟩

/-- What a step stores is awaited by a session, and carries the number that was announced. -/
lemma Ingests.stores (h : p.Ingests codec log) (hC : Orderly log p act)
    (hstep : p.step cfg codec act = some p') {n : ℕ} {event : BlockEvent}
    (hnew : .stored n event ∈ p.happens cfg codec act) :
    n = event.blockNumber.toNat ∧ p'.Covered event := by
  obtain ⟨_, _, _, _, _, hh⟩ | ⟨_, _, _, hh⟩ | ⟨m, e, block, rfl, here, hcommit, hh⟩ |
    ⟨_, _, _, hh⟩ := mem_happens hnew
  · cases hh
  · cases hh
  · cases hh
    have hlabel := h.sound.persister
    rw [here] at hlabel
    have hn : getBlockNumber block = some n := by
      obtain ⟨k, hk, hrest⟩ := Option.bind_eq_some_iff.mp hcommit
      obtain ⟨_, -, hpure⟩ := Option.bind_eq_some_iff.mp hrest
      cases hpure
      exact hk
    refine ⟨Option.some.inj (hn.symm.trans hlabel), ?_⟩
    obtain ⟨id, -, session, hs, hblock, hbox⟩ := hC.stores event (by rw [here]; rfl)
    cases step_cases hstep with
    | write => exact .inr ⟨id, session, hs, hblock, .inl hbox⟩
    | takeVerified here' | takeUnverified here' | fetchBlock here' | broadcast here'
    | mark here' =>
      rw [here] at here'
      cases here'
  · cases hh

/-- Nothing is accepted that has been stored. -/
lemma Ingests.once_step (h : p.Ingests codec log) (hC : Orderly log p act) :
    IngestedOnce (log ++ p.happens cfg codec act) := by
  refine List.pairwise_append.mpr ⟨h.once, ?_, ?_⟩
  · -- one step does not do both
    refine List.pairwise_of_forall_mem_list fun a ha b hb hrepeats => ?_
    obtain ⟨_, _, _, rfl, _, rfl⟩ | ⟨_, _, _, rfl⟩ | ⟨n, e, block, rfl, _, _, rfl⟩ |
      ⟨_, _, _, rfl⟩ := mem_happens ha
    · cases hrepeats
    · cases hrepeats
    · obtain ⟨_, _, _, hact, _, _⟩ | ⟨_, _, _, rfl⟩ | ⟨_, _, _, _, _, _, rfl⟩ | ⟨_, _, _, rfl⟩ :=
        mem_happens hb
      · cases hact
      · cases hrepeats
      · cases hrepeats
      · cases hrepeats
    · cases hrepeats
  · intro a ha b hb hrepeats
    obtain ⟨id, sact, n, rfl, haccepts, rfl⟩ | ⟨_, _, _, rfl⟩ | ⟨_, _, _, _, _, _, rfl⟩ |
      ⟨_, _, _, rfl⟩ := mem_happens hb
    · obtain ⟨session, hs, e, he, rfl, hvacant⟩ := accepts_eq_some haccepts
      cases a with
      | stored m event =>
        cases of_decide_eq_true hrepeats
        exact h.taken ha rfl (hC.claims session hs e he hvacant) hvacant
      | _ => cases hrepeats
    · cases a <;> cases hrepeats
    · cases a <;> cases hrepeats
    · cases a <;> cases hrepeats

lemma cleanup_bound_step (h : p.Ingests codec log) (hC : Orderly log p act)
    (hstep : p.step cfg codec act = some p') :
    ∀ before ∈ p'.cleanup.bound, ∀ n < before, n ∈ p'.below := by
  have hlatest := (step_inOrder h.inOrder hC.completes hstep).2
  intro before hbefore n hn
  cases step_cases hstep with
  | @loadCleanup task here bound load =>
    cases task with
    | idle => cases hbefore
    | loaded b =>
      cases hbefore
      obtain ⟨hpos, hsum⟩ := bound before rfl
      exact ⟨hpos, by change n < p.world.latestPersistedBlock.toUInt64.toNat; omega⟩
    | retaining b todo visited => exact absurd rfl (load b todo visited)
  | startRetain here =>
    cases hbefore
    exact below_mono hlatest (h.cleanup before (by rw [here]; rfl) n hn)
  | retainVisit here =>
    cases hbefore
    exact below_mono hlatest (h.cleanup before (by rw [here]; rfl) n hn)
  | finishRetain => cases hbefore
  | _ => exact below_mono hlatest (h.cleanup before hbefore n hn)

lemma failedRecorded_step (h : p.Ingests codec log) (hstep : p.step cfg codec act = some p') :
    ∀ id session, p'.sessions id = some session →
      session.FailedRecorded (log ++ p.happens cfg codec act) := by
  cases step_cases hstep with
  | connect =>
    intro id session hid
    rcases update_sessions hid with ⟨-, rfl⟩ | ⟨-, hid⟩
    · exact Session.failedRecorded_of_none rfl
    · exact (h.failed id session hid).append _
  | @session id sact session world session' here step =>
    intro j other hj
    rcases update_sessions hj with ⟨rfl, rfl⟩ | ⟨-, hj⟩
    · exact (step.failedRecorded (h.failed j session here)).append _
    · exact (h.failed j other hj).append _
  | fail here =>
    intro id session' hid
    obtain ⟨session, hs, rfl⟩ := Option.map_eq_some_iff.mp hid
    simp only [happens, here]
    exact Session.deliverFailed_failedRecorded (h.failed id session hs) _
  | broadcast =>
    intro id session' hid
    obtain ⟨session, hs, rfl⟩ := Option.map_eq_some_iff.mp hid
    exact (Session.deliverPersisted_failedRecorded (h.failed id session hs) _).append _
  | _ => exact fun id session hid => (h.failed id session hid).append _

/-- **One step of the node.** -/
lemma step_ingests (h : p.Ingests codec log) (hC : Orderly log p act)
    (hstep : p.step cfg codec act = some p') :
    p'.Ingests codec (log ++ p.happens cfg codec act) := by
  obtain ⟨horder, hlatest⟩ := step_inOrder h.inOrder hC.completes hstep
  refine ⟨horder, step_sound h.sound hC.empty hstep, step_ledger h.ledger hstep, ?_,
    cleanup_bound_step h hC hstep, failedRecorded_step h hstep, ?_, ?_, h.once_step hC⟩
  · refine step_secure h.secure (below_mono hlatest) ?_ hstep
    rintro n rfl id - session - -
    -- what the clean-up takes lies below the watermark
    cases step_cases hstep with
    | retainVisit here below =>
      exact below_mono hlatest (h.cleanup _ (by rw [here]; rfl) n below)
  · intro n event he
    rcases List.mem_append.mp he with he | he
    · exact h.labelled n event he
    · exact (h.stores hC hstep he).1
  · intro n event he
    rcases List.mem_append.mp he with he | he
    · exact Covered.step h hC hstep he
    · exact (h.stores hC hstep he).2

end Pipeline

/-- **Exactly-once ingestion.** In every run in which headers are accepted with an empty buffer
and above the watermark, blocks are completed and reported in order, a block is stored while its
session waits for it and that session does not time out afterwards, no header is accepted once a
block of its number has been stored. -/
theorem ingested_once {cfg : PipelineConfig} {codec : Codec} {blocks : List Block}
    {plugin : StatePlugin} {actions : List PipelineAct} {p : Pipeline} {log : List Happening}
    (horderly : Along (Pipeline.stepRecorded cfg codec)
      (fun s act => Pipeline.Orderly s.2 s.1 act) (.init cfg codec blocks plugin, []) actions)
    (hrun : run (Pipeline.stepRecorded cfg codec) (.init cfg codec blocks plugin, []) actions =
      some (p, log)) : IngestedOnce log := by
  have hinv : p.Ingests codec log := by
    refine run_inv (I := fun s => s.1.Ingests codec s.2) (fun {s act s'} h hC hstep => ?_)
      (Pipeline.init_ingests blocks plugin) horderly hrun
    obtain ⟨hnext, hlog⟩ := recorded_eq_some hstep
    rw [hlog]
    exact Pipeline.step_ingests h hC hnext
  exact hinv.once

/-- Session 0 publishes block 5 and session 1 then offers it again. -/
def offeredTwiceRun : List PipelineAct :=
  [PipelineAct.connect, .connect] ++ sendBlock 0 5 [proofItem 5] ++ handOver 0 ++
    persistNext ++ learn 0 ++
    [PipelineAct.session 1 (.request (.blockItems [headerItem 5])), .session 1 .go]

theorem ingested_once_five : ∃ p log,
    run (Pipeline.stepRecorded smallNode plainCodec) (smallStart, []) offeredTwiceRun =
        some (p, log) ∧
      log = [.accepted 5, .stored 5 ⟨5, 0⟩, .persisted ⟨5, 0⟩] ∧ IngestedOnce log := by
  have hsome : ∃ s ∈ run (Pipeline.stepRecorded smallNode plainCodec) (smallStart, [])
      offeredTwiceRun, s.2 = [.accepted 5, .stored 5 ⟨5, 0⟩, .persisted ⟨5, 0⟩] := by
    decide +kernel
  obtain ⟨⟨p, log⟩, hrun, hlog⟩ := hsome
  exact ⟨p, log, hrun, hlog, ingested_once (by decide +kernel) hrun⟩

/-- Session 0 times out while its block 5 is still on its way; the block is stored after that,
and session 1 is accepted with a second copy. -/
def storedLateRun : List PipelineAct :=
  [PipelineAct.connect, .connect] ++ sendBlock 0 5 [proofItem 5] ++ handOver 0 ++
    [PipelineAct.session 0 .timeout, .session 0 .go] ++ persistNext ++ sendBlock 1 5 []

theorem ingested_twice : ∃ p log,
    run (Pipeline.stepRecorded smallNode plainCodec) (smallStart, []) storedLateRun =
        some (p, log) ∧
      log = [.accepted 5, .stored 5 ⟨5, 0⟩, .persisted ⟨5, 0⟩, .accepted 5] ∧
      ¬ IngestedOnce log := by
  have hsome : ∃ s ∈ run (Pipeline.stepRecorded smallNode plainCodec) (smallStart, [])
      storedLateRun,
      s.2 = [.accepted 5, .stored 5 ⟨5, 0⟩, .persisted ⟨5, 0⟩, .accepted 5] := by
    decide +kernel
  obtain ⟨⟨p, log⟩, hrun, hlog⟩ := hsome
  refine ⟨p, log, hrun, hlog, ?_⟩
  rw [show log = _ from hlog]
  unfold IngestedOnce
  decide

end RockNode
