import RockNode.InFlight

/-!
Publishers that have been told to skip a block.

A session that has been sent `SkipBlock(n)` is owed an answer: the acknowledgement of the block,
or the request to send it again. As long as it is, somebody has to be responsible for the block,
and that is what the winner entry says. The session which owns the entry answers everybody and
then removes it if the block is through; on a timeout and at its end it removes the entry first.
-/

namespace RockNode

/-- The last that the session was told about block `n` is to skip it; `sent` is the record of
responses, the last one first. -/
def owed : List (ℕ × Response) → ℕ → ℕ → Bool
  | [], _, _ => false
  | (target, response) :: sent, id, n =>
    if target = id then
      match response with
      | .skipBlock m => m.toNat = n || owed sent id n
      | .acknowledgement m | .resendBlock m => m.toNat ≠ n && owed sent id n
      | .endStream _ _ => owed sent id n
    else owed sent id n

lemma owed_of_unaddressed {sent : List (ℕ × Response)} {id n : ℕ} (h : ∀ e ∈ sent, e.1 ≠ id) :
    owed sent id n = false := by
  induction sent with
  | nil => rfl
  | cons e sent ih =>
    obtain ⟨target, response⟩ := e
    have hne : target ≠ id := h _ List.mem_cons_self
    unfold owed
    rw [if_neg hne]
    exact ih fun e he => h e (List.mem_cons_of_mem _ he)

/-- What has been said last is to skip the block, or the session was owed an answer before. -/
lemma owed_cons {target : ℕ} {response : Response} {sent : List (ℕ × Response)} {id n : ℕ}
    (h : owed ((target, response) :: sent) id n) :
    owed sent id n ∨ (target = id ∧ ∃ m, response = .skipBlock m ∧ m.toNat = n) := by
  unfold owed at h
  split_ifs at h with htarget
  · cases response with
    | skipBlock m =>
      rcases Bool.or_eq_true_iff.mp h with hm | h
      · exact .inr ⟨htarget, m, rfl, of_decide_eq_true hm⟩
      · exact .inl h
    | acknowledgement m => exact .inl (Bool.and_eq_true_iff.mp h).2
    | resendBlock m => exact .inl (Bool.and_eq_true_iff.mp h).2
    | endStream status m => exact .inl h
  · exact .inl h

lemma not_owed_acknowledged {sent : List (ℕ × Response)} {id : ℕ} {m : UInt64} :
    owed ((id, .acknowledgement m) :: sent) id m.toNat = false := by
  simp [owed]

lemma not_owed_resend {sent : List (ℕ × Response)} {id : ℕ} {m : UInt64} :
    owed ((id, .resendBlock m) :: sent) id m.toNat = false := by
  simp [owed]

/-- The registered sessions that are owed an answer about block `n`. -/
def World.owing (world : World) (n : ℕ) : Set ℕ :=
  {id | id ∈ world.activeSessions ∧ owed world.sent id n}

/-- The block the session is about to be told to skip. -/
def SessionTask.skipping : SessionTask → Option UInt64
  | .respond (.skipBlock n) .reset => some n
  | _ => none

/-- The session is answering everybody about its block, and is then going to remove the entry. -/
def SessionTask.answering : SessionTask → Bool
  | .broadcast _ _ _ .acknowledged | .broadcast _ _ _ .failed | .removeAcknowledged
  | .removeFailed => true
  | _ => false

/-- The entry that a session on its way out is about to remove. -/
def SessionTask.releasing : SessionTask → Option ℕ
  | .release (n :: _) => some n
  | _ => none

namespace Session

variable {session session' : Session} {cfg : PublishConfig} {codec : Codec} {id n : ℕ}
  {world world' : World} {set : List BlockItem} {act : SessionAct}

/-! ### What sessions say -/

/-- `SkipBlock` is said before a reset only; an answer is about the block of the session. -/
def Spoken (session : Session) : Prop :=
  match session.task with
  | .respond (.skipBlock _) next => next = .reset
  | .broadcast message _ _ .acknowledged => message = .acknowledgement session.blockNumber
  | .broadcast message _ _ .failed => message = .resendBlock session.blockNumber
  | .broadcast message _ _ _ => ∀ m, message ≠ .skipBlock m
  | _ => True

lemma spoken_of_early (h : session.task.early) : session.Spoken := by
  unfold Spoken
  split
  · next response next here =>
    rw [here] at h
    cases next <;> first | rfl | cases h
  · next here => rw [here] at h; cases h
  · next here => rw [here] at h; cases h
  · next here => rw [here] at h; cases h
  · trivial

lemma Step.spoken (h : session.Spoken)
    (step : Step cfg codec id world session act world' session') : session'.Spoken := by
  unfold Spoken at h
  cases step with
  | request => exact spoken_of_early (handleRequest_early _)
  | header => exact spoken_of_early onHeader_early
  | lookup => exact spoken_of_early onLookup_early
  | elected | occupied => exact spoken_of_early (execute_early _)
  | streaming => exact spoken_of_early onStreaming_early
  | respondResend | storeLatest => rfl
  | removeTimedOut | release => exact fun m hm => by cases hm
  | @visit _ _ _ next _ here => rw [here] at h; cases next <;> exact h
  | @finish _ _ _ next => cases next <;> trivial
  | _ => trivial

lemma Hears.spoken (h : session.Hears session') (hspoken : session.Spoken) : session'.Spoken := by
  cases h with
  | nothing => exact hspoken
  | failed | either => trivial

/-- **Only a session that skips a block becomes owed an answer.** -/
lemma Step.owing (step : Step cfg codec id world session act world' session')
    (hspoken : session.Spoken) {j : ℕ} (h : j ∈ world'.owing n) :
    j ∈ world.owing n ∨ (j = id ∧ ∃ m ∈ session.task.skipping, m.toNat = n) := by
  have hsend : ∀ {target response}, j ∈ (world.send target response).owing n →
      (∀ m, response ≠ .skipBlock m) → j ∈ world.owing n := by
    intro target response hj hnot
    refine ⟨hj.1, (owed_cons hj.2).resolve_right ?_⟩
    rintro ⟨-, m, hm, -⟩
    exact hnot m hm
  unfold Spoken at hspoken
  cases step with
  | respondReset here =>
    rcases owed_cons h.2 with howed | ⟨rfl, m, rfl, hm⟩
    · exact .inl ⟨h.1, howed⟩
    · exact .inr ⟨rfl, m, by rw [here]; rfl, hm⟩
  | respondLeave here =>
    refine .inl (hsend h fun m hm => ?_)
    rw [here, hm] at hspoken
    cases hspoken
  | respondResend here =>
    refine .inl (hsend h fun m hm => ?_)
    rw [here, hm] at hspoken
    cases hspoken
  | @visit message todo visited next target here =>
    refine .inl (hsend h fun m hm => ?_)
    rw [here] at hspoken
    cases next with
    | acknowledged => cases hm.symm.trans hspoken
    | failed => cases hm.symm.trans hspoken
    | timedOut => exact hspoken m hm
    | released rest => exact hspoken m hm
  | unregister => exact .inl ⟨List.mem_of_mem_erase h.1, h.2⟩
  | _ => exact .inl h

/-! ### Answers -/

/-- Everybody in `O` is still going to be answered; when the entry is about to be removed there
is nobody left. -/
def Answers (O : Set ℕ) (session : Session) : Prop :=
  match session.task with
  | .broadcast _ todo visited .acknowledged | .broadcast _ todo visited .failed =>
    ∀ j ∈ O, j ∈ todo ∧ j ∉ visited
  | .removeAcknowledged | .removeFailed => ∀ j, j ∉ O
  | _ => True

lemma answers_of_not_answering {O : Set ℕ} (h : session.task.answering = false) :
    session.Answers O := by
  unfold Answers
  split
  · next here => rw [here] at h; cases h
  · next here => rw [here] at h; cases h
  · next here => rw [here] at h; cases h
  · next here => rw [here] at h; cases h
  · trivial

lemma answering_of_early (h : session.task.early) : session.task.answering = false := by
  cases here : session.task <;> rw [here] at h <;> first | rfl | cases h

lemma Answers.fewer {O O' : Set ℕ} (h : session.Answers O) (hsub : O' ⊆ O) :
    session.Answers O' := by
  revert h
  unfold Answers
  split
  · exact fun h j hj => h j (hsub hj)
  · exact fun h j hj => h j (hsub hj)
  · exact fun h j hj => h j (hsub hj)
  · exact fun h j hj => h j (hsub hj)
  · exact id

lemma Hears.answers {O : Set ℕ} (h : session.Hears session') (hanswers : session.Answers O) :
    session'.Answers O := by
  cases h with
  | nothing => exact hanswers
  | failed | either => trivial

/-- A session that has been told to send its block again, or that the block is through, is no
longer owed an answer. -/
lemma visited_answered {target : ℕ} {message : Response} {m : UInt64}
    (hmessage : message = .acknowledgement m ∨ message = .resendBlock m) :
    target ∉ (world.send target message).owing m.toNat := by
  rintro ⟨-, howed⟩
  rcases hmessage with rfl | rfl
  · exact absurd howed (by simp [World.send, not_owed_acknowledged])
  · exact absurd howed (by simp [World.send, not_owed_resend])

/-- **A session answers everybody before it removes its entry.** -/
lemma Step.answers (step : Step cfg codec id world session act world' session')
    (hspoken : session.Spoken) (hskip : session.task.skipping = none)
    (hself : session.task.awaits → id ∉ world.owing session.blockNumber.toNat)
    (h : session.Answers (world.owing session.blockNumber.toNat)) :
    session'.Answers (world'.owing session'.blockNumber.toNat) := by
  have hfewer : world'.owing session.blockNumber.toNat ⊆
      world.owing session.blockNumber.toNat := by
    intro j hj
    refine (step.owing hspoken hj).resolve_right ?_
    rintro ⟨-, m, hm, -⟩
    rw [hskip] at hm
    cases hm
  unfold Answers at h
  unfold Spoken at hspoken
  cases step with
  | request => exact answers_of_not_answering (answering_of_early (handleRequest_early _))
  | header => exact answers_of_not_answering (answering_of_early onHeader_early)
  | lookup => exact answers_of_not_answering (answering_of_early onLookup_early)
  | elected | occupied => exact answers_of_not_answering (answering_of_early (execute_early _))
  | streaming => exact answers_of_not_answering (answering_of_early onStreaming_early)
  | storeLatest => exact fun j hj => ⟨hj.1, List.not_mem_nil⟩
  | respondResend here =>
    intro j hj
    have hne : j ≠ id := by
      rintro rfl
      exact hself (by rw [here]; rfl) (hfewer hj)
    exact ⟨(List.mem_erase_of_ne hne).mpr hj.1, by simpa using hne⟩
  | @visit message todo visited next target here =>
    rw [here] at h hspoken
    cases next with
    | acknowledged =>
      intro j hj
      have hne : j ≠ target := by
        rintro rfl
        exact visited_answered (.inl hspoken) hj
      exact ⟨(h j (hfewer hj)).1, by simpa [hne] using (h j (hfewer hj)).2⟩
    | failed =>
      intro j hj
      have hne : j ≠ target := by
        rintro rfl
        exact visited_answered (.inr hspoken) hj
      exact ⟨(h j (hfewer hj)).1, by simpa [hne] using (h j (hfewer hj)).2⟩
    | timedOut => trivial
    | released rest => trivial
  | @finish message todo visited next here all =>
    rw [here] at h
    cases next with
    | acknowledged => exact fun j hj => (h j hj).2 (all j (h j hj).1 hj.1)
    | failed => exact fun j hj => (h j hj).2 (all j (h j hj).1 hj.1)
    | timedOut => trivial
    | released rest => trivial
  | _ => trivial

/-- When an entry is removed by a session. -/
lemma Step.held (step : Step cfg codec id world session act world' session')
    (h : world.blockWinners.get n ≠ none) :
    world'.blockWinners.get n ≠ none ∨
    (n = session.blockNumber.toNat ∧
      (session.task = .removeAcknowledged ∨ session.task = .removeFailed)) ∨
    (n = session.blockNumber.toNat ∧ session.task = .removeTimedOut) ∨
    n ∈ session.task.releasing := by
  cases step with
  | elected =>
    left
    rw [World.claim_get]
    split_ifs
    · exact Option.some_ne_none _
    · exact h
  | removeAcknowledged here =>
    rw [World.unclaim_get]
    split_ifs with hn
    · exact .inr (.inl ⟨hn, .inl here⟩)
    · exact .inl h
  | removeFailed here =>
    rw [World.unclaim_get]
    split_ifs with hn
    · exact .inr (.inl ⟨hn, .inr here⟩)
    · exact .inl h
  | removeTimedOut here =>
    rw [World.unclaim_get]
    split_ifs with hn
    · exact .inr (.inr (.inl ⟨hn, here⟩))
    · exact .inl h
  | release here =>
    rw [World.unclaim_get]
    split_ifs with hn
    · exact .inr (.inr (.inr (by rw [here, hn]; rfl)))
    · exact .inl h
  | _ => exact .inl h

/-- Responses go to the session itself or to registered ones. -/
lemma Step.addressed (step : Step cfg codec id world session act world' session')
    {e : ℕ × Response} (h : e ∈ world'.sent) :
    e ∈ world.sent ∨ e.1 = id ∨ e.1 ∈ world.activeSessions := by
  cases step with
  | respondReset | respondLeave | respondResend =>
    rcases List.mem_cons.mp h with rfl | h
    · exact .inr (.inl rfl)
    · exact .inl h
  | visit here active =>
    rcases List.mem_cons.mp h with rfl | h
    · exact .inr (.inr active)
    · exact .inl h
  | _ => exact .inl h

lemma Step.active_subset (step : Step cfg codec id world session act world' session') {j : ℕ}
    (h : j ∈ world'.activeSessions) : j ∈ world.activeSessions := by
  cases step with
  | unregister => exact List.mem_of_mem_erase h
  | _ => exact h

/-- The next step of a session that responds before a reset. -/
lemma Step.of_reset (step : Step cfg codec id world session act world' session')
    {response : Response} (here : session.task = .respond response .reset) :
    world' = world.send id response ∧ session' = session.resetForNextBlock := by
  cases step <;> simp_all

/-- What the session streams after a step it was streaming before, or has just claimed. -/
lemma Step.streams (step : Step cfg codec id world session act world' session')
    (hfits : session.Fits) (h : session'.Streams n) :
    session.Streams n ∨ world.blockWinners.get n = none := by
  unfold Fits at hfits
  cases step with
  | request => exact .inl (handleRequest_streams h)
  | header => exact .inl (onHeader_streams h)
  | lookup => exact .inl (onLookup_streams h)
  | elected here vacant =>
    rw [onElected_streams.mp h]
    exact .inr vacant
  | occupied => exact absurd h (execute_not_streams (by decide) n)
  | streaming here =>
    rw [here] at hfits
    exact .inl ⟨(onStreaming_streams h).2, hfits⟩
  | respondReset | removeAcknowledged => cases h.2
  | _ => exact .inl h

end Session

namespace Pipeline

variable {cfg : PipelineConfig} {codec : Codec} {p p' : Pipeline} {act : PipelineAct}

/-! ### What a run has to keep to -/

/-- No registered session is owed an answer about block `n`. -/
def Unowed (p : Pipeline) (n : ℕ) : Prop :=
  ∀ id ∈ p.world.activeSessions, ¬ owed p.world.sent id n

instance (p : Pipeline) (n : ℕ) : Decidable (p.Unowed n) :=
  inferInstanceAs (Decidable (∀ id ∈ p.world.activeSessions, _))

/-- Some session is answering everybody about the block. -/
def Answered (p : Pipeline) (n : UInt64) : Prop :=
  ∃ id < p.nextSession, ∃ session ∈ p.sessions id, session.task.answering ∧
    session.blockNumber = n

instance (p : Pipeline) (n : UInt64) : Decidable (p.Answered n) :=
  inferInstanceAs (Decidable (∃ id < p.nextSession, _))

/-- `SkipBlock` is sent while another session owns the entry and has not begun to answer. -/
def SkipsWhileHeld : Pipeline → PipelineAct → Prop :=
  AtSession fun p id session _ => ∀ n ∈ session.task.skipping,
    (∃ owner ∈ p.world.blockWinners.get n.toNat, owner ≠ id) ∧ ¬ p.Answered n

/-- A session that times out or leaves removes an entry while nobody is owed an answer. -/
def DropsUnowed : Pipeline → PipelineAct → Prop :=
  AtSession fun p _ session _ => (session.task = .removeTimedOut →
    p.Unowed session.blockNumber.toNat) ∧ ∀ n ∈ session.task.releasing, p.Unowed n

/-- So does the clean-up. -/
def RetainsOwed : Pipeline → PipelineAct → Prop := AtRetain fun p n => p.Unowed n

/-- The conditions under which no publisher is forgotten. -/
def AnswersInTime (p : Pipeline) (act : PipelineAct) : Prop :=
  SkipsWhileHeld p act ∧ DropsUnowed p act ∧ RetainsOwed p act

-- the one number a task skips is looked at: a search through all words would not end
instance (p : Pipeline) (id : ℕ) (session : Session) :
    Decidable (∀ n ∈ session.task.skipping,
      (∃ owner ∈ p.world.blockWinners.get n.toNat, owner ≠ id) ∧ ¬ p.Answered n) :=
  Option.decidableForallMem _

instance (p : Pipeline) (act : PipelineAct) : Decidable (AnswersInTime p act) :=
  inferInstanceAs (Decidable (AtSession _ p act ∧ AtSession _ p act ∧ AtRetain _ p act))

/-! ### The invariant -/

/-- What a session knows of those who are owed an answer: it is not one of them for the block it
streams, and it answers them in time. -/
structure Minds (world : World) (id : ℕ) (session : Session) : Prop where
  fits : session.Fits
  spoken : session.Spoken
  streams : ∀ n, session.Streams n → id ∉ world.owing n
  answers : session.Answers (world.owing session.blockNumber.toNat)

lemma Minds.fewer {world world' : World} {id : ℕ} {session : Session}
    (h : Minds world id session) (hsub : ∀ n, world'.owing n ⊆ world.owing n) :
    Minds world' id session :=
  ⟨h.fits, h.spoken, fun n hn hid => h.streams n hn (hsub n hid), h.answers.fewer (hsub _)⟩

structure Remembers (p : Pipeline) : Prop where
  enrolled : p.Enrolled
  known : ∀ id ∈ p.world.activeSessions, id < p.nextSession
  addressed : ∀ e ∈ p.world.sent, e.1 < p.nextSession
  minds : ∀ id session, p.sessions id = some session → Minds p.world id session
  held : ∀ n, ∀ id ∈ p.world.owing n, p.world.blockWinners.get n ≠ none

lemma init_remembers (blocks : List Block) (plugin : StatePlugin) :
    (init cfg codec blocks plugin).Remembers where
  enrolled := init_enrolled blocks plugin
  known _ h := by cases h
  addressed _ h := by cases h
  minds _ _ h := by cases h
  held _ _ h := by cases h.1

lemma new_minds (world : World) (id : ℕ) : Minds world id .new :=
  ⟨.inl rfl, trivial, fun n hn => (by cases hn.2), trivial⟩

lemma connect_remembers (h : p.Remembers) : p.connect.Remembers := by
  -- the new session has not been told anything
  have hfewer : ∀ n, p.connect.world.owing n ⊆ p.world.owing n := by
    rintro n id ⟨hactive, howed⟩
    rcases List.mem_cons.mp hactive with rfl | hactive
    · have hnot : owed p.world.sent p.nextSession n = false :=
        owed_of_unaddressed fun e he => (h.addressed e he).ne
      exact absurd (show owed p.world.sent p.nextSession n from howed) (by simp [hnot])
    · exact ⟨hactive, howed⟩
  refine ⟨connect_enrolled h.enrolled, ?_, ?_, ?_, fun n id hid => h.held n id (hfewer n hid)⟩
  · intro id hid
    rcases List.mem_cons.mp hid with rfl | hid
    · exact Nat.lt_succ_self _
    · exact Nat.lt_succ_of_lt (h.known id hid)
  · exact fun e he => Nat.lt_succ_of_lt (h.addressed e he)
  · intro id session hid
    rcases update_sessions hid with ⟨-, rfl⟩ | ⟨-, hid⟩
    · exact new_minds _ _
    · exact (h.minds id session hid).fewer hfewer

/-- A step of a session that is not told to skip a block. -/
lemma session_remembers (h : p.Remembers) {id : ℕ} {sact : SessionAct}
    {session session' : Session} {world : World} (here : p.sessions id = some session)
    (step : session.Step cfg.publish codec id p.world sact world session')
    (hskip : session.task.skipping = none) (hC : AnswersInTime p (.session id sact)) :
    (∀ j other, Function.update p.sessions id (some session') j = some other →
      Minds world j other) ∧
    ∀ n, ∀ j ∈ world.owing n, world.blockWinners.get n ≠ none := by
  have hminds := h.minds id session here
  have hfewer : ∀ n, world.owing n ⊆ p.world.owing n := by
    intro n j hj
    refine (step.owing hminds.spoken hj).resolve_right ?_
    rintro ⟨-, m, hm, -⟩
    rw [hskip] at hm
    cases hm
  constructor
  · intro j other hj
    rcases update_sessions hj with ⟨rfl, rfl⟩ | ⟨-, hj⟩
    · refine ⟨step.fits hminds.fits, step.spoken hminds.spoken, fun n hn hid => ?_, ?_⟩
      · rcases step.streams hminds.fits hn with hold | hvacant
        · exact hminds.streams n hold (hfewer n hid)
        · exact h.held n j (hfewer n hid) hvacant
      · exact step.answers hminds.spoken hskip
          (fun hawaits => hminds.streams _ ⟨rfl, hminds.fits.accept hawaits⟩) hminds.answers
    · exact (h.minds j other hj).fewer hfewer
  · intro n j hj
    have hown := hfewer n hj
    rcases step.held (h.held n j hown) with hheld | ⟨rfl, htask⟩ | ⟨rfl, htask⟩ | hreleasing
    · exact hheld
    · have hanswers := hminds.answers
      unfold Session.Answers at hanswers
      rcases htask with htask | htask <;> rw [htask] at hanswers <;> exact absurd hown (hanswers j)
    · exact absurd hown.2 ((hC.2.1 session here).1 htask j hown.1)
    · exact absurd hown.2 ((hC.2.1 session here).2 n hreleasing j hown.1)

/-- A session is told to skip a block of which another one owns the entry. -/
lemma skip_remembers (h : p.Remembers) {id : ℕ} {sact : SessionAct}
    {session session' : Session} {world : World} {m : UInt64} (here : p.sessions id = some session)
    (step : session.Step cfg.publish codec id p.world sact world session')
    (hskip : session.task.skipping = some m) (hC : AnswersInTime p (.session id sact)) :
    (∀ j other, Function.update p.sessions id (some session') j = some other →
      Minds world j other) ∧
    ∀ n, ∀ j ∈ world.owing n, world.blockWinners.get n ≠ none := by
  have hspoken := (h.minds id session here).spoken
  obtain ⟨⟨owner, howner, -⟩, hanswered⟩ := hC.1 session here m hskip
  have htask : session.task = .respond (.skipBlock m) .reset := by
    unfold SessionTask.skipping at hskip
    split at hskip
    · next htask => cases hskip; exact htask
    · cases hskip
  have howing : ∀ {n j}, j ∈ world.owing n → j ∈ p.world.owing n ∨ (j = id ∧ m.toNat = n) := by
    intro n j hj
    refine (step.owing hspoken hj).imp_right ?_
    rintro ⟨hj, m', hm', hn⟩
    rw [hskip] at hm'
    cases hm'
    exact ⟨hj, hn⟩
  obtain ⟨rfl, rfl⟩ := step.of_reset htask
  constructor
  · intro j other hj
    rcases update_sessions hj with ⟨-, rfl⟩ | ⟨hne, hj⟩
    · exact ⟨.inl rfl, trivial, fun n hn => (by cases hn.2), trivial⟩
    · have hother := h.minds j other hj
      refine ⟨hother.fits, hother.spoken, fun n hn hid => ?_, ?_⟩
      · exact hother.streams n hn ((howing hid).resolve_right fun hid => hne hid.1)
      · by_cases hnumber : other.blockNumber = m
        · -- nobody is answering about this block
          refine Session.answers_of_not_answering (Bool.eq_false_iff.mpr fun hans => ?_)
          have hlt : j < p.nextSession := h.enrolled.id_lt hj
          exact hanswered ⟨j, hlt, other, hj, hans, hnumber⟩
        · refine hother.answers.fewer fun k hk => (howing hk).resolve_right fun hk => ?_
          exact hnumber (UInt64.toNat_inj.mp hk.2.symm)
  · intro n j hj
    rcases howing hj with hj | ⟨-, rfl⟩
    · exact h.held n j hj
    · rw [show (p.world.send id _).blockWinners.get m.toNat = some owner from howner]
      exact Option.some_ne_none _

lemma Minds.hears {world : World} {id : ℕ} {session session' : Session}
    (h : Minds world id session) (hears : session.Hears session') : Minds world id session' where
  fits := hears.fits h.fits
  spoken := hears.spoken h.spoken
  streams n hn := h.streams n (hears.streams.mp hn)
  answers := by
    rw [hears.blockNumber]
    exact hears.answers h.answers

/-- **One step of the node.** -/
lemma step_remembers (h : p.Remembers) (hC : AnswersInTime p act)
    (hstep : p.step cfg codec act = some p') : p'.Remembers := by
  have henrolled := step_enrolled h.enrolled hstep
  cases step_cases hstep with
  | connect => exact connect_remembers h
  | @session id sact session world session' here step =>
    have hsession : (∀ j other, Function.update p.sessions id (some session') j = some other →
        Minds world j other) ∧
        ∀ n, ∀ j ∈ world.owing n, world.blockWinners.get n ≠ none := by
      rcases hskip : session.task.skipping with _ | m
      · exact session_remembers h here step hskip hC
      · exact skip_remembers h here step hskip hC
    refine ⟨henrolled, fun j hj => h.known j (step.active_subset hj), fun e he => ?_,
      hsession.1, hsession.2⟩
    rcases step.addressed he with he | he | he
    · exact h.addressed e he
    · rw [he]
      exact h.enrolled.id_lt here
    · exact h.known e.1 he
  | fail =>
    refine ⟨henrolled, h.known, h.addressed, fun id session' hid => ?_, h.held⟩
    obtain ⟨session, hs, rfl⟩ := Option.map_eq_some_iff.mp hid
    exact (h.minds id session hs).hears (Session.deliverFailed_hears _)
  | broadcast =>
    refine ⟨henrolled, h.known, h.addressed, fun id session' hid => ?_, h.held⟩
    obtain ⟨session, hs, rfl⟩ := Option.map_eq_some_iff.mp hid
    exact (h.minds id session hs).hears (Session.deliverPersisted_hears _)
  | @retainVisit k =>
    refine ⟨henrolled, h.known, h.addressed,
      fun id session hs => (h.minds id session hs).fewer fun _ => subset_rfl, fun n id hid => ?_⟩
    change (p.world.unclaim k).blockWinners.get n ≠ none
    rw [World.unclaim_get, if_neg]
    · exact h.held n id hid
    · rintro rfl
      exact hC.2.2 id hid.1 hid.2
  | _ =>
    exact ⟨henrolled, h.known, h.addressed,
      fun id session hs => (h.minds id session hs).fewer fun _ => subset_rfl, h.held⟩

end Pipeline

/-- **No skipped publisher is forgotten.** In every run in which `SkipBlock` is sent while
another session owns the entry and has not begun to answer, and in which timeouts, sessions that
leave and the clean-up remove an entry only while nobody is owed an answer about its block,
there is an entry for every block about which a registered session is owed an answer. -/
theorem skipped_remembered {cfg : PipelineConfig} {codec : Codec} {blocks : List Block}
    {plugin : StatePlugin} {actions : List PipelineAct} {p : Pipeline}
    (htime : Along (Pipeline.step cfg codec) Pipeline.AnswersInTime
      (.init cfg codec blocks plugin) actions)
    (hrun : run (Pipeline.step cfg codec) (.init cfg codec blocks plugin) actions = some p)
    {id n : ℕ} (hregistered : id ∈ p.world.activeSessions)
    (howed : owed p.world.sent id n) : p.world.blockWinners.get n ≠ none := by
  have hinv : p.Remembers :=
    run_inv (fun h hC hstep => Pipeline.step_remembers h hC hstep)
      (Pipeline.init_remembers blocks plugin) htime hrun
  exact hinv.held n id ⟨hregistered, howed⟩

theorem skipped_remembered_five : ∃ p,
    run (Pipeline.step smallNode plainCodec) smallStart
        ([.connect, .connect] ++ sendBlock 0 5 [] ++
          [.session 1 (.request (.blockItems [headerItem 5]))] ++ goOn 1 3) = some p ∧
      owed p.world.sent 1 5 ∧ p.world.blockWinners.get 5 ≠ none := by
  have hsome : ∃ p ∈ run (Pipeline.step smallNode plainCodec) smallStart
      ([.connect, .connect] ++ sendBlock 0 5 [] ++
        [.session 1 (.request (.blockItems [headerItem 5]))] ++ goOn 1 3),
      1 ∈ p.world.activeSessions ∧ owed p.world.sent 1 5 := by decide +kernel
  obtain ⟨p, hrun, hregistered, howed⟩ := hsome
  exact ⟨p, hrun, howed, skipped_remembered (by decide +kernel) hrun hregistered howed⟩

/-- Session 1 finds the entry of session 0 for block 5 and is about to be told to skip the block.
Meanwhile session 0 publishes it, acknowledges it to everybody and removes the entry. -/
def skippedLateRun : List PipelineAct :=
  [PipelineAct.connect, .connect] ++ sendBlock 0 5 [proofItem 5] ++
    [PipelineAct.session 1 (.request (.blockItems [headerItem 5]))] ++ goOn 1 2 ++
    handOver 0 ++ persistNext ++ learn 0 ++
    [PipelineAct.session 0 (.visit 0), .session 0 (.visit 1), .session 0 .finish] ++
    goOn 0 1 ++ goOn 1 1

/-- Nobody is going to answer session 1. -/
theorem skipped_forgotten : ∃ p,
    run (Pipeline.step smallNode plainCodec) smallStart skippedLateRun = some p ∧
      1 ∈ p.world.activeSessions ∧ owed p.world.sent 1 5 ∧
      p.world.blockWinners.get 5 = none := by
  have hsome : ∃ p ∈ run (Pipeline.step smallNode plainCodec) smallStart skippedLateRun,
      1 ∈ p.world.activeSessions ∧ owed p.world.sent 1 5 ∧
      p.world.blockWinners.get 5 = none := by decide +kernel
  obtain ⟨p, hrun, hrest⟩ := hsome
  exact ⟨p, hrun, hrest⟩

end RockNode
