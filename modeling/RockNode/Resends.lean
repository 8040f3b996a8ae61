import RockNode.Skips

/-!
`ResendBlock` and the acknowledgement of the same block.

A session asks for a block again when it gives the block up: it holds the winner entry then, or
has just removed it. A session that acknowledges the block holds the entry too. So the two cannot
come in the wrong order, unless the entry changes hands in between: an acknowledged block is
claimed again, a block is claimed while others are still being asked for it, or the clean-up takes
an entry in use.
-/

namespace RockNode

def Response.acknowledged : Response → Option UInt64
  | .acknowledgement m => some m
  | _ => none

/-- Some session has been told that block `n` is through. -/
def World.Acked (world : World) (n : ℕ) : Prop :=
  ∃ e ∈ world.sent, ∃ m ∈ e.2.acknowledged, m.toNat = n

instance World.Acked.decidable (world : World) (n : ℕ) : Decidable (world.Acked n) :=
  have (e : ℕ × Response) : Decidable (∃ m ∈ e.2.acknowledged, m.toNat = n) :=
    Option.decidableExistsMem _
  inferInstanceAs (Decidable (∃ e ∈ world.sent, _))

/-- No `ResendBlock` comes after an acknowledgement of its block; the last response is the first
of the list. -/
def NoLateResend (sent : List (ℕ × Response)) : Prop :=
  sent.Pairwise fun later earlier =>
    ∀ m, later.2 = .resendBlock m → earlier.2 ≠ .acknowledgement m

/-- The block that a session asks the others for when it has removed its own entry. -/
def SessionTask.resending : SessionTask → Option UInt64
  | .broadcast (.resendBlock m) _ _ .timedOut => some m
  | .broadcast (.resendBlock m) _ _ (.released _) => some m
  | _ => none

/-- The number of the winner entry that the session is about to take. -/
def SessionTask.claiming : SessionTask → Option Int64
  | .elect m _ => some m
  | _ => none

/-- The session is telling everybody that its block is through, and then removes the entry. -/
def SessionTask.acknowledging : SessionTask → Bool
  | .broadcast _ _ _ .acknowledged | .removeAcknowledged => true
  | _ => false

namespace Session

variable {session session' : Session} {cfg : PublishConfig} {codec : Codec} {id n : ℕ}
  {world world' : World} {set : List BlockItem} {act : SessionAct}

/-! ### What sessions say of their blocks -/

/-- To its own client a session says that a block is skipped or that the stream ends; to the
others, that a block is through or that it is wanted again. -/
def Phrased (session : Session) : Prop :=
  match session.task with
  | .respond response _ => (∃ m, response = .skipBlock m) ∨ ∃ c m, response = .endStream c m
  | .broadcast message _ _ .acknowledged => message = .acknowledgement session.blockNumber
  | .broadcast message _ _ .failed => message = .resendBlock session.blockNumber
  | .broadcast message _ _ _ => ∃ m, message = .resendBlock m
  | _ => True

lemma execute_phrased {action : BlockAction} (h : action ≠ .resend) :
    (session.execute action set).Phrased := by
  cases action with
  | accept =>
    unfold execute handleAccept Phrased
    dsimp only
    split_ifs <;> trivial
  | skip => exact .inl ⟨_, rfl⟩
  | resend => exact absurd rfl h
  | endBehind => trivial
  | endDuplicate => exact .inr ⟨_, _, rfl⟩
  | endError => exact .inr ⟨_, _, rfl⟩
  | badBlockProof => exact .inr ⟨_, _, rfl⟩

lemma handleRequest_phrased (request : Request) :
    (session.handleRequest cfg request).Phrased := by
  cases request with
  | blockItems set =>
    simp only [handleRequest, handleBlockItems]
    split
    · exact .inr ⟨_, _, rfl⟩
    · split
      · trivial
      · trivial
      · exact execute_phrased (by decide)
  | endOfBlock n =>
    simp only [handleRequest, handleBlockEnd]
    split_ifs
    · trivial
    · exact .inr ⟨_, _, rfl⟩
  | endStream earliest latest => trivial

lemma onHeader_phrased {latest n : Int64} : (session.onHeader latest n set).Phrased := by
  unfold onHeader
  split_ifs
  · exact execute_phrased (by decide)
  · exact execute_phrased (by decide)
  · trivial

lemma onLookup_phrased {winner : Option ℕ} {n : Int64} :
    (session.onLookup id winner n set).Phrased := by
  unfold onLookup
  split
  · split_ifs <;> exact execute_phrased (by decide)
  · trivial

/-- A session that finds its own entry, or none, does not ask its client for the block again. -/
lemma onStreaming_phrased {winner : Option ℕ} (h : ∀ w ∈ winner, w = id) :
    (session.onStreaming id winner set).Phrased := by
  unfold onStreaming
  split
  · next w =>
    rw [if_pos (h w rfl)]
    exact execute_phrased (by decide)
  · exact execute_phrased (by decide)

lemma Step.phrased (step : Step cfg codec id world session act world' session')
    (hstreaming : ∀ set, session.task = .streaming set →
      ∀ w ∈ world.blockWinners.get session.blockNumber.toNat, w = id)
    (h : session.Phrased) : session'.Phrased := by
  unfold Phrased at h
  cases step with
  | request => exact handleRequest_phrased _
  | header => exact onHeader_phrased
  | lookup => exact onLookup_phrased
  | elected | occupied => exact execute_phrased (by decide)
  | streaming here => exact onStreaming_phrased (hstreaming _ here)
  | behind | takeFailed => exact .inr ⟨_, _, rfl⟩
  | respondResend | storeLatest => rfl
  | removeTimedOut | release => exact ⟨_, rfl⟩
  | @visit _ _ _ next _ here => rw [here] at h; cases next <;> exact h
  | @finish _ _ _ next => cases next <;> trivial
  | _ => trivial

lemma Hears.phrased (h : session.Hears session') (hphrased : session.Phrased) :
    session'.Phrased := by
  cases h with
  | nothing => exact hphrased
  | failed | either => trivial

lemma Hears.acknowledging (h : session.Hears session') :
    session'.task.acknowledging = session.task.acknowledging := by
  cases h with
  | nothing => rfl
  | failed here | either here => rw [here]; rfl

lemma Hears.resending (h : session.Hears session') :
    session'.task.resending = session.task.resending := by
  cases h with
  | nothing => rfl
  | failed here | either here => rw [here]; rfl

/-! ### What a step does to the record and to the entries -/

lemma acked_send {target : ℕ} {response : Response} (h : (world.send target response).Acked n) :
    world.Acked n ∨ ∃ m, response = .acknowledgement m ∧ m.toNat = n := by
  obtain ⟨e, he, m, hm, hn⟩ := h
  rcases List.mem_cons.mp he with rfl | he
  · cases response with
    | acknowledgement k =>
      cases hm
      exact .inr ⟨_, rfl, hn⟩
    | _ => cases hm
  · exact .inl ⟨e, he, m, hm, hn⟩

/-- **A block is acknowledged by the session it belongs to.** -/
lemma Step.acked (step : Step cfg codec id world session act world' session')
    (hphrased : session.Phrased) (h : world'.Acked n) :
    world.Acked n ∨ (session.task.acknowledging ∧ session.blockNumber.toNat = n) := by
  unfold Phrased at hphrased
  cases step with
  | respondReset here | respondLeave here | respondResend here =>
    rw [here] at hphrased
    refine .inl ((acked_send h).resolve_right ?_)
    rintro ⟨m, rfl, -⟩
    rcases hphrased with ⟨k, hk⟩ | ⟨c, k, hk⟩ <;> cases hk
  | @visit message todo visited next target here =>
    rw [here] at hphrased ⊢
    rcases acked_send h with h | ⟨m, rfl, hm⟩
    · exact .inl h
    · cases next with
      | acknowledged =>
        cases hphrased
        exact .inr ⟨rfl, hm⟩
      | failed => cases hphrased
      | timedOut | released =>
        obtain ⟨k, hk⟩ := hphrased
        cases hk
  | _ => exact .inl h

/-- A session that acknowledges its block goes on to do so, or removes the entry. -/
lemma Step.acknowledging (step : Step cfg codec id world session act world' session')
    (h : session.task.acknowledging) :
    (session'.task.acknowledging ∧ session'.blockNumber = session.blockNumber) ∨
      world'.blockWinners.get session.blockNumber.toNat = none := by
  cases step with
  | @visit message todo visited next target here =>
    rw [here] at h
    cases next <;> first | exact .inl ⟨rfl, rfl⟩ | cases h
  | @finish message todo visited next here =>
    rw [here] at h
    cases next <;> first | exact .inl ⟨rfl, rfl⟩ | cases h
  | removeAcknowledged =>
    right
    rw [World.unclaim_get, if_pos rfl]
  | request here | hangUp here | header here | lookup here | elected here | occupied here
  | streaming here | behind here | respondReset here | respondLeave here | respondResend here
  | complete here | handOver here | channelClosed here | subscribe here | subscribeAgain here
  | takeFailed here | ignoreFailed here | takePersisted here | ignorePersisted here
  | timeout here | storeLatest here | removeFailed here | removeTimedOut here | endStream here
  | crash here | leave here | collect here | collected here | release here | unregister here =>
    rw [here] at h
    cases h

lemma resending_of_early (h : session.task.early) : session.task.resending = none := by
  cases here : session.task <;> rw [here] at h <;> first | rfl | cases h

/-- Where the others are asked for a block: the entry has just been removed. -/
lemma Step.resending (step : Step cfg codec id world session act world' session') {m : UInt64}
    (h : m ∈ session'.task.resending) :
    (m ∈ session.task.resending ∧ world'.blockWinners = world.blockWinners) ∨
      (session.task = .removeTimedOut ∧ m = session.blockNumber ∧
        world' = world.unclaim session.blockNumber.toNat) ∨
      ∃ k rest, session.task = .release (k :: rest) ∧ m = UInt64.ofNat k ∧
        world' = world.unclaim k := by
  cases step with
  | request => rw [resending_of_early (handleRequest_early _)] at h; cases h
  | header => rw [resending_of_early onHeader_early] at h; cases h
  | lookup => rw [resending_of_early onLookup_early] at h; cases h
  | elected | occupied => cases (resending_of_early (execute_early _)).symm.trans h
  | streaming => rw [resending_of_early onStreaming_early] at h; cases h
  | @visit message todo visited next target here =>
    refine .inl ⟨?_, rfl⟩
    rw [here]
    cases next <;> cases message <;> exact h
  | @finish message todo visited next => cases next <;> cases h
  | removeTimedOut here =>
    cases h
    exact .inr (.inl ⟨here, rfl, rfl⟩)
  | @release k rest here =>
    cases h
    exact .inr (.inr ⟨k, rest, here, rfl, rfl⟩)
  | _ => cases h

/-- Entries are made by sessions that claim a vacant one. -/
lemma Step.claims (step : Step cfg codec id world session act world' session') {j : ℕ}
    (h : world'.blockWinners.get n = some j) :
    world.blockWinners.get n = some j ∨ ∃ m ∈ session.task.claiming,
      world.blockWinners.get m.toUInt64.toNat = none ∧ n = m.toUInt64.toNat ∧
      world'.sent = world.sent := by
  cases step with
  | @elected m set here vacant =>
    rw [World.claim_get] at h
    split_ifs at h with hn
    · exact .inr ⟨m, by rw [here]; rfl, vacant, hn, rfl⟩
    · exact .inl h
  | removeAcknowledged | removeFailed | removeTimedOut | release =>
    exact .inl (World.get_of_unclaim h).2
  | _ => exact .inl h

lemma noLateResend_send {target : ℕ} {response : Response}
    (h : ∀ m, response = .resendBlock m → ¬ world.Acked m.toNat) (hsent : NoLateResend world.sent) :
    NoLateResend (world.send target response).sent := by
  refine List.pairwise_cons.mpr ⟨fun e he m hm hack => h m hm ⟨e, he, m, ?_, rfl⟩, hsent⟩
  rw [hack]
  rfl

/-- **A session asks for its block again only while nobody has acknowledged it**, if that is so of
the block that it gives up and of the one it has given up. -/
lemma Step.noLateResend (step : Step cfg codec id world session act world' session')
    (hphrased : session.Phrased)
    (hfailed : session.task.awaits → session.task.acknowledging = false →
      ¬ world.Acked session.blockNumber.toNat)
    (hresending : ∀ m ∈ session.task.resending, ¬ world.Acked m.toNat)
    (hsent : NoLateResend world.sent) : NoLateResend world'.sent := by
  unfold Phrased at hphrased
  cases step with
  | respondReset here | respondLeave here | respondResend here =>
    rw [here] at hphrased
    refine noLateResend_send (fun m hm => ?_) hsent
    rw [hm] at hphrased
    rcases hphrased with ⟨k, hk⟩ | ⟨c, k, hk⟩ <;> cases hk
  | @visit message todo visited next target here =>
    rw [here] at hphrased hfailed hresending
    refine noLateResend_send (fun m hm => ?_) hsent
    subst hm
    cases next with
    | acknowledged => cases hphrased
    | failed =>
      cases hphrased
      exact hfailed rfl rfl
    | timedOut | released => exact hresending m rfl
  | _ => exact hsent

end Session

namespace Pipeline

variable {cfg : PipelineConfig} {codec : Codec} {p p' : Pipeline} {act : PipelineAct}

/-! ### What a run has to keep to -/

/-- A session takes the entry of a block that has not been acknowledged. -/
def ClaimsUnacked : Pipeline → PipelineAct → Prop :=
  AtSession fun p _ session _ => ∀ m ∈ session.task.claiming,
    p.world.blockWinners.get m.toUInt64.toNat = none → ¬ p.world.Acked m.toUInt64.toNat

/-- Nor is any session still asking the others for it. -/
def ClaimsSettled : Pipeline → PipelineAct → Prop :=
  AtSession fun p _ session _ => ∀ m ∈ session.task.claiming,
    p.world.blockWinners.get m.toUInt64.toNat = none →
      ∀ j < p.nextSession, ∀ other ∈ p.sessions j, other.task.resending ≠ some m.toUInt64

-- at most one number is looked at: a search through all words would not end
instance ClaimsUnacked.decidable (p : Pipeline) (act : PipelineAct) :
    Decidable (ClaimsUnacked p act) :=
  have (p : Pipeline) (session : Session) : Decidable (∀ m ∈ session.task.claiming,
      p.world.blockWinners.get m.toUInt64.toNat = none → ¬ p.world.Acked m.toUInt64.toNat) :=
    Option.decidableForallMem _
  inferInstanceAs (Decidable (AtSession _ p act))

instance ClaimsSettled.decidable (p : Pipeline) (act : PipelineAct) :
    Decidable (ClaimsSettled p act) :=
  have (p : Pipeline) (session : Session) : Decidable (∀ m ∈ session.task.claiming,
      p.world.blockWinners.get m.toUInt64.toNat = none →
        ∀ j < p.nextSession, ∀ other ∈ p.sessions j, other.task.resending ≠ some m.toUInt64) :=
    Option.decidableForallMem _
  inferInstanceAs (Decidable (AtSession _ p act))

/-- Entries change hands only when they are free to. -/
def ChangesHands (p : Pipeline) (act : PipelineAct) : Prop :=
  ClaimsUnacked p act ∧ ClaimsSettled p act ∧ RetainsUsed p act

instance ChangesHands.decidable (p : Pipeline) (act : PipelineAct) :
    Decidable (ChangesHands p act) :=
  inferInstanceAs (Decidable (ClaimsUnacked p act ∧ ClaimsSettled p act ∧ RetainsUsed p act))

/-! ### The invariant -/

/-- What holds of a session: of its entries only the one it is acknowledging belongs to an
acknowledged block, and what it asks the others for is nobody's and not acknowledged. -/
structure Clear (world : World) (id : ℕ) (session : Session) : Prop where
  phrased : session.Phrased
  acked : ∀ {n}, world.blockWinners.get n = some id → world.Acked n →
    session.task.acknowledging ∧ session.blockNumber.toNat = n
  resending : ∀ {m}, m ∈ session.task.resending →
    world.blockWinners.get m.toNat = none ∧ ¬ world.Acked m.toNat

/-- Only the entries and the record matter. -/
lemma Clear.of_eq {world world' : World} {id : ℕ} {session : Session} (h : Clear world id session)
    (hwinners : world'.blockWinners = world.blockWinners) (hsent : world'.sent = world.sent) :
    Clear world' id session where
  phrased := h.phrased
  acked hget hacked := by
    rw [hwinners] at hget
    rw [World.Acked, hsent] at hacked
    exact h.acked hget hacked
  resending hm := by
    rw [World.Acked, hwinners, hsent]
    exact h.resending hm

structure Settled (p : Pipeline) : Prop where
  enrolled : p.Enrolled
  secure : p.Secure ∅
  bounded : ∀ {n}, p.world.blockWinners.get n ≠ none → n < 2 ^ 64
  clear : ∀ {id session}, p.sessions id = some session → Clear p.world id session
  ordered : NoLateResend p.world.sent

lemma init_settled (blocks : List Block) (plugin : StatePlugin) :
    (init cfg codec blocks plugin).Settled where
  enrolled := init_enrolled blocks plugin
  secure _ _ h := by cases h
  bounded h := absurd rfl h
  clear h := by cases h
  ordered := List.Pairwise.nil

/-- A session owns what it relies on. -/
lemma Settled.own (h : p.Settled) {id n : ℕ} {session : Session}
    (here : p.sessions id = some session) (huses : session.Uses n) :
    p.world.blockWinners.get n = some id :=
  ((h.secure id session here).uses n huses).resolve_right (Set.notMem_empty n)

lemma Settled.own_block (h : p.Settled) {id : ℕ} {session : Session}
    (here : p.sessions id = some session) (hawaits : session.task.awaits) :
    p.world.blockWinners.get session.blockNumber.toNat = some id :=
  h.own here (Session.uses_of_awaits (h.secure id session here).fits hawaits)

/-- What a session relies on has not been acknowledged, unless the session is doing so. -/
lemma Settled.not_acked (h : p.Settled) {id n : ℕ} {session : Session}
    (here : p.sessions id = some session) (huses : session.Uses n)
    (hnot : session.task.acknowledging = false) : ¬ p.world.Acked n := by
  intro hacked
  have hack := ((h.clear here).acked (h.own here huses) hacked).1
  rw [hnot] at hack
  cases hack

lemma resending_of_acknowledging {task : SessionTask} (h : task.acknowledging) :
    task.resending = none := by
  cases task with
  | broadcast message todo visited next =>
    cases next <;> first | (cases message <;> rfl) | cases h
  | _ => rfl

lemma awaits_of_acknowledging {task : SessionTask} (h : task.acknowledging) : task.awaits := by
  cases task with
  | broadcast message todo visited next => cases next <;> first | rfl | cases h
  | _ => first | rfl | cases h

section SessionStep

variable {id : ℕ} {sact : SessionAct} {session session' : Session} {world : World}

/-- The sessions that do not move. -/
lemma Settled.clear_other (h : p.Settled) (here : p.sessions id = some session)
    (step : session.Step cfg.publish codec id p.world sact world session')
    (hsettled : ClaimsSettled p (.session id sact)) {j : ℕ} {other : Session} (hne : j ≠ id)
    (hother : p.sessions j = some other) : Clear world j other := by
  have hclear := h.clear hother
  have hphrased := (h.clear here).phrased
  refine ⟨hclear.phrased, fun {n} hget hacked => ?_, fun {m} hm => ⟨?_, fun hacked => ?_⟩⟩
  · have hbefore := step.other_winner hne hget
    rcases step.acked hphrased hacked with hacked | ⟨hack, rfl⟩
    · exact hclear.acked hbefore hacked
    · -- the entry belongs to one session
      rw [h.own_block here (awaits_of_acknowledging hack)] at hbefore
      exact absurd (Option.some.inj hbefore).symm hne
  · by_contra hget
    obtain ⟨owner, howner⟩ := Option.ne_none_iff_exists'.mp hget
    rcases step.claims howner with hbefore | ⟨k, hk, hvacant, hmk, -⟩
    · rw [(hclear.resending hm).1] at hbefore
      cases hbefore
    · have hlt := h.enrolled.id_lt hother
      have hresending := hsettled session here k hk hvacant j hlt other hother
      exact hresending (UInt64.toNat_inj.mp hmk ▸ hm)
  · rcases step.acked hphrased hacked with hacked | ⟨hack, hn⟩
    · exact (hclear.resending hm).2 hacked
    · have hown := h.own_block here (awaits_of_acknowledging hack)
      rw [hn, (hclear.resending hm).1] at hown
      cases hown

/-- What the session is asked about next, it has to itself. -/
lemma Settled.clear_resending (h : p.Settled) (here : p.sessions id = some session)
    (step : session.Step cfg.publish codec id p.world sact world session') {m : UInt64}
    (hm : m ∈ session'.task.resending) :
    world.blockWinners.get m.toNat = none ∧ ¬ world.Acked m.toNat := by
  have hclear := h.clear here
  rcases step.resending hm with ⟨hm, hwinners⟩ | ⟨htask, rfl, rfl⟩ | ⟨k, rest, htask, rfl, rfl⟩
  · refine ⟨hwinners ▸ (hclear.resending hm).1, fun hacked => ?_⟩
    rcases step.acked hclear.phrased hacked with hacked | ⟨hack, -⟩
    · exact (hclear.resending hm).2 hacked
    · rw [resending_of_acknowledging hack] at hm
      cases hm
  · refine ⟨by rw [World.unclaim_get, if_pos rfl], ?_⟩
    exact h.not_acked here (Session.uses_of_awaits (h.secure id session here).fits
      (by rw [htask]; rfl)) (by rw [htask]; rfl)
  · have huses : session.Uses k :=
      (Session.uses_of_leaving (by rw [htask]; rfl)).mpr List.mem_cons_self
    have hlt : k < 2 ^ 64 := h.bounded (by rw [h.own here huses]; exact Option.some_ne_none _)
    rw [UInt64.toNat_ofNat_of_lt' hlt]
    exact ⟨by rw [World.unclaim_get, if_pos rfl], h.not_acked here huses (by rw [htask]; rfl)⟩

/-- The session that moves. -/
lemma Settled.clear_self (h : p.Settled) (here : p.sessions id = some session)
    (step : session.Step cfg.publish codec id p.world sact world session')
    (hunacked : ClaimsUnacked p (.session id sact)) : Clear world id session' := by
  have hclear := h.clear here
  refine ⟨step.phrased (fun set htask w hw => ?_) hclear.phrased, fun {n} hget hacked => ?_,
    h.clear_resending here step⟩
  · have hfits := (h.secure id session here).fits
    unfold Session.Fits at hfits
    rw [htask] at hfits
    have hown := h.own here
      ((Session.uses_iff_streams (by rw [htask]; rfl)).mpr ⟨rfl, hfits⟩)
    rw [hown] at hw
    exact (Option.some.inj hw).symm
  · rcases step.claims hget with hbefore | ⟨m, hm, hvacant, rfl, hsent⟩
    · have hack : session.task.acknowledging ∧ session.blockNumber.toNat = n := by
        rcases step.acked hclear.phrased hacked with hacked | hack
        · exact hclear.acked hbefore hacked
        · exact hack
      rcases step.acknowledging hack.1 with ⟨hstill, hnumber⟩ | hgone
      · exact ⟨hstill, by rw [hnumber]; exact hack.2⟩
      · rw [hack.2, hget] at hgone
        cases hgone
    · -- a block that has just been claimed is not acknowledged
      unfold World.Acked at hacked
      rw [hsent] at hacked
      exact absurd hacked (hunacked session here m hm hvacant)

lemma session_settled (h : p.Settled) (here : p.sessions id = some session)
    (step : session.Step cfg.publish codec id p.world sact world session')
    (hchanges : ChangesHands p (.session id sact))
    (hsecure : Secure ∅ { p with
      world := world, sessions := Function.update p.sessions id (some session') }) :
    Settled { p with
      world := world, sessions := Function.update p.sessions id (some session') } where
  enrolled := session_enrolled h.enrolled here step
  secure := hsecure
  bounded {n} hget := by
    obtain ⟨owner, howner⟩ := Option.ne_none_iff_exists'.mp hget
    rcases step.claims howner with hbefore | ⟨m, -, -, rfl, -⟩
    · exact h.bounded (by rw [hbefore]; exact Option.some_ne_none _)
    · exact m.toUInt64.toNat_lt
  clear hj := by
    rcases update_sessions hj with ⟨rfl, rfl⟩ | ⟨hne, hj⟩
    · exact h.clear_self here step hchanges.1
    · exact h.clear_other here step hchanges.2.1 hne hj
  ordered := by
    refine step.noLateResend (h.clear here).phrased (fun hawaits hnot => ?_)
      (fun m hm => ((h.clear here).resending hm).2) h.ordered
    exact h.not_acked here (Session.uses_of_awaits (h.secure id session here).fits hawaits) hnot

end SessionStep

lemma Clear.hears {world : World} {id : ℕ} {session session' : Session}
    (h : Clear world id session) (hears : session.Hears session') : Clear world id session' where
  phrased := hears.phrased h.phrased
  acked hget hacked := by
    rw [hears.acknowledging, hears.blockNumber]
    exact h.acked hget hacked
  resending hm := h.resending (hears.resending ▸ hm)

/-- An event is delivered to every session. -/
lemma Settled.deliver (h : p.Settled) {f : Session → Session}
    (hears : ∀ session : Session, session.Hears (f session)) (henrolled : p'.Enrolled)
    (hsecure : p'.Secure ∅) (hsessions : p'.sessions = fun id => (p.sessions id).map f)
    (hworld : p'.world = p.world) : p'.Settled where
  enrolled := henrolled
  secure := hsecure
  bounded := hworld ▸ h.bounded
  ordered := hworld ▸ h.ordered
  clear {id session'} hid := by
    rw [hsessions] at hid
    obtain ⟨session, hsession, rfl⟩ := Option.map_eq_some_iff.mp hid
    rw [hworld]
    exact (h.clear hsession).hears (hears session)

lemma connect_settled (h : p.Settled) (hsecure : p.connect.Secure ∅) : p.connect.Settled where
  enrolled := connect_enrolled h.enrolled
  secure := hsecure
  bounded := h.bounded
  ordered := h.ordered
  clear {id session} hid := by
    rcases update_sessions hid with ⟨rfl, rfl⟩ | ⟨-, hid⟩
    · -- nobody has used this id before
      refine ⟨trivial, fun hget _ => ?_, fun hm => by cases hm⟩
      exact absurd (h.enrolled.lt (h.enrolled.owner hget)) (lt_irrefl _)
    · exact (h.clear hid).of_eq rfl rfl

lemma step_settled (h : p.Settled) (hchanges : ChangesHands p act)
    (hstep : p.step cfg codec act = some p') : p'.Settled := by
  have henrolled := step_enrolled h.enrolled hstep
  have hsecure : p'.Secure ∅ := by
    refine step_secure h.secure subset_rfl ?_ hstep
    rintro n rfl id hid session hs huses
    exact absurd huses (hchanges.2.2 id hid session hs)
  cases step_cases hstep with
  | connect => exact connect_settled h hsecure
  | session here step => exact session_settled h here step hchanges hsecure
  | fail => exact h.deliver (fun _ => Session.deliverFailed_hears _) henrolled hsecure rfl rfl
  | broadcast =>
    exact h.deliver (fun _ => Session.deliverPersisted_hears _) henrolled hsecure rfl rfl
  | retainVisit =>
    refine ⟨henrolled, hsecure, fun {n} hget => ?_, fun {id session} hid => ?_, h.ordered⟩
    · obtain ⟨owner, howner⟩ := Option.ne_none_iff_exists'.mp hget
      have hbefore := (World.get_of_unclaim howner).2
      exact h.bounded (by rw [hbefore]; exact Option.some_ne_none _)
    · have hclear := h.clear hid
      refine ⟨hclear.phrased, fun hget hacked => ?_, fun {m} hm => ⟨?_, (hclear.resending hm).2⟩⟩
      · exact hclear.acked (World.get_of_unclaim hget).2 hacked
      · change (p.world.unclaim _).blockWinners.get m.toNat = none
        rw [World.unclaim_get, (hclear.resending hm).1, ite_self]
  | _ =>
    exact ⟨henrolled, hsecure, h.bounded, fun hid => (h.clear hid).of_eq rfl rfl, h.ordered⟩

/-- **No resend after acknowledgement**, in runs in which entries change hands only when they are
free to. -/
theorem no_late_resend {blocks : List Block} {plugin : StatePlugin} {actions : List PipelineAct}
    (hchanges : Along (step cfg codec) ChangesHands (init cfg codec blocks plugin) actions)
    (hrun : run (step cfg codec) (init cfg codec blocks plugin) actions = some p) :
    NoLateResend p.world.sent :=
  (run_inv (fun h hP hstep => step_settled h hP hstep) (init_settled blocks plugin) hchanges
    hrun).ordered

/-- Session 0's block 5 is stored, and sessions 0 and 1 are told. -/
def acknowledgeFive : List PipelineAct :=
  sendBlock 0 5 [proofItem 5] ++ handOver 0 ++ persistNext ++ learn 0 ++
    [.session 0 (.visit 0), .session 0 (.visit 1), .session 0 .finish, .session 0 .go]

/-- Session 1 goes while it has the entry of block `n`, and asks session 0 for the block. -/
def leaveWith (n : ℕ) : List PipelineAct :=
  [.session 1 .hangUp, .session 1 .go, .session 1 (.visit n), .session 1 .finish, .session 1 .go,
    .session 1 (.visit 0)]

/-- Session 0's block 5 is acknowledged; session 1 announces block 6 and goes. -/
theorem no_late_resend_six : ∃ p,
    run (step smallNode plainCodec) smallStart
        ([.connect, .connect] ++ acknowledgeFive ++ sendBlock 1 6 [] ++ leaveWith 6) = some p ∧
      p.world.sent = [(0, .resendBlock 6), (1, .acknowledgement 5), (0, .acknowledgement 5)] ∧
      NoLateResend p.world.sent := by
  have hsome : ∃ p ∈ run (step smallNode plainCodec) smallStart
        ([.connect, .connect] ++ acknowledgeFive ++ sendBlock 1 6 [] ++ leaveWith 6),
      p.world.sent = [(0, .resendBlock 6), (1, .acknowledgement 5), (0, .acknowledgement 5)] := by
    decide +kernel
  obtain ⟨p, hrun, hsent⟩ := hsome
  exact ⟨p, hrun, hsent, no_late_resend (by decide +kernel) hrun⟩

/-- Session 1 announces block 5 and looks at the persisted block. Before it goes on, session 0's
block 5 is acknowledged and the entry removed; then session 1 takes the entry and goes, and
session 0 is asked for block 5 again. -/
theorem late_resend : ∃ p,
    run (step smallNode plainCodec) smallStart
        ([.connect, .connect, .session 1 (.request (.blockItems [headerItem 5])),
          .session 1 .go] ++ acknowledgeFive ++ goOn 1 2 ++ leaveWith 5) = some p ∧
      p.world.sent = [(0, .resendBlock 5), (1, .acknowledgement 5), (0, .acknowledgement 5)] ∧
      ¬ NoLateResend p.world.sent := by
  have hsome : ∃ p ∈ run (step smallNode plainCodec) smallStart
        ([.connect, .connect, .session 1 (.request (.blockItems [headerItem 5])),
          .session 1 .go] ++ acknowledgeFive ++ goOn 1 2 ++ leaveWith 5),
      p.world.sent = [(0, .resendBlock 5), (1, .acknowledgement 5), (0, .acknowledgement 5)] := by
    decide +kernel
  obtain ⟨p, hrun, hsent⟩ := hsome
  refine ⟨p, hrun, hsent, fun h => ?_⟩
  rw [hsent] at h
  exact (List.pairwise_cons.mp h).1 (0, .acknowledgement 5) (by simp) 5 rfl rfl

end Pipeline

end RockNode
