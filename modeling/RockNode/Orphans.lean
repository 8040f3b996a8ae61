import RockNode.Winners

/-!
Winner entries of sessions that have turned to another block.

The table only knows that a session has won a block. The session keeps one current number and
one action, which it changes with the next header it accepts or skips; the entry of the block it
was streaming until then stays behind. If a session never does that while it has an entry, the
entry of a session that is alive is the block it is streaming.
-/

namespace RockNode

/-- The actions after which `handle_request` ends the session. -/
def BlockAction.ends : BlockAction → Bool
  | .endBehind | .endDuplicate | .endError | .badBlockProof => true
  | _ => false

namespace Session

variable {session session' : Session} {cfg : PublishConfig} {codec : Codec} {id n : ℕ}
  {world world' : World} {set : List BlockItem} {act : SessionAct}

/-- The current action is one that ends the session. -/
def Ended (session : Session) : Prop := session.currentBlockAction.any BlockAction.ends

/-- The last call of `handle_request` has returned, and not in order to end the session: the
session waits for the next request, or its client has closed the stream. -/
def Alive (session : Session) : Prop :=
  match session.task with
  | .idle => True
  | .leave | .collect .. | .release _ | .broadcast _ _ _ (.released _) => ¬ session.Ended
  | _ => False

/-- The session is about to accept a header, or to skip one. -/
def turns (session : Session) (id : ℕ) (world : World) : Bool :=
  match session.task with
  | .elect _ _ => true
  | .lookup n _ => (world.blockWinners.get n.toUInt64.toNat).any fun w => w ≠ id
  | _ => false

/-! ### What becomes of the block in progress -/

lemma execute_ended {action : BlockAction} (h : action.ends) :
    (session.execute action set).Ended := by
  unfold Ended
  rw [execute_action]
  exact h

lemma handleRequest_keeps (request : Request) (h : session.Streams n) :
    (session.handleRequest cfg request).Streams n ∨
      (session.handleRequest cfg request).Ended := by
  cases request with
  | blockItems set =>
    simp only [handleRequest, handleBlockItems]
    split
    · exact .inl h
    · split
      · exact .inl h
      · exact .inl h
      · exact .inr (execute_ended rfl)
  | endOfBlock m =>
    simp only [handleRequest, handleBlockEnd]
    split_ifs
    · exact .inl h
    · exact .inr rfl
  | endStream earliest latest => exact .inl h

lemma onHeader_keeps {latest k : Int64} (h : session.Streams n) :
    (session.onHeader latest k set).Streams n ∨ (session.onHeader latest k set).Ended := by
  unfold onHeader
  split_ifs
  · exact .inr (execute_ended rfl)
  · exact .inr (execute_ended rfl)
  · exact .inl h

lemma onLookup_keeps {winner : Option ℕ} {k : Int64} (h : session.Streams n)
    (hwinner : ∀ w ∈ winner, w = id) :
    (session.onLookup id winner k set).Streams n ∨
      (session.onLookup id winner k set).Ended := by
  unfold onLookup
  split
  · next w =>
    rw [if_pos (hwinner w rfl)]
    exact .inr (execute_ended rfl)
  · exact .inl h

lemma onStreaming_keeps (h : session.blockNumber.toNat = n) :
    (session.onStreaming id (some id) set).Streams n := by
  have hmine : session.onStreaming id (some id) set =
      { session with received := session.received ++ set }.execute .accept set := if_pos rfl
  rw [hmine]
  exact ⟨h, rfl⟩

lemma not_ended_of_accept (h : session.currentBlockAction = some .accept) : ¬ session.Ended := by
  simp [Ended, h, BlockAction.ends]

lemma not_ended_of_idle
    (h : session.currentBlockAction = none ∨ session.currentBlockAction = some .accept) :
    ¬ session.Ended := by
  rcases h with h | h
  · simp [Ended, h]
  · exact not_ended_of_accept h

/-! ### The invariant -/

/-- The entries of the session are the block it is streaming, unless it is about to end. -/
structure Bound (S : Set ℕ) (session : Session) : Prop where
  fits : session.Fits
  bound : ∀ n ∈ S, session.Streams n ∨ session.Ended

/-- Where the action is known, a session that has not ended has one entry at most. -/
lemma Bound.streams {S : Set ℕ} (h : session.Bound S) (hended : ¬ session.Ended) (hn : n ∈ S) :
    session.Streams n :=
  (h.bound n hn).resolve_right hended

lemma Bound.hears {S : Set ℕ} (h : session.Bound S) (hears : session.Hears session') :
    session'.Bound S where
  fits := hears.fits h.fits
  bound n hn := by
    rw [hears.streams, Ended, hears.action]
    exact h.bound n hn

lemma bound_robust : Pipeline.Robust fun S session => session.Bound S where
  new := ⟨.inl rfl, fun n hn => absurd hn (Set.notMem_empty n)⟩
  fewer hsub h := ⟨h.fits, fun n hn => h.bound n (hsub hn)⟩
  failed event h := h.hears (deliverFailed_hears event)
  persisted event h := h.hears (deliverPersisted_hears event)

lemma Step.bound (step : Step cfg codec id world session act world' session')
    (h : session.Bound {n | world.blockWinners.get n = some id})
    (hfree : session.turns id world → ∀ n, world.blockWinners.get n ≠ some id) :
    session'.Bound {n | world'.blockWinners.get n = some id} := by
  refine ⟨step.fits h.fits, fun n hn => ?_⟩
  change world'.blockWinners.get n = some id at hn
  have hfits := h.fits
  unfold Fits at hfits
  unfold turns at hfree
  cases step with
  | request here =>
    rw [here] at hfits
    exact handleRequest_keeps _ (h.streams (not_ended_of_idle hfits) hn)
  | header here =>
    rw [here] at hfits
    exact onHeader_keeps (h.streams (not_ended_of_idle hfits) hn)
  | @lookup k set here =>
    rw [here] at hfits hfree
    refine onLookup_keeps (h.streams (not_ended_of_idle hfits) hn) fun w hw => ?_
    -- the entry of another session would make this one skip the block
    by_contra hother
    refine hfree ?_ n hn
    change (world.blockWinners.get k.toUInt64.toNat).any _ = true
    rw [Option.mem_def.mp hw]
    exact decide_eq_true hother
  | @elected k set here =>
    rw [here] at hfree
    rw [World.claim_get] at hn
    split_ifs at hn with hk
    · exact .inl (onElected_streams.mpr hk)
    · exact absurd hn (hfree rfl n)
  | occupied here =>
    rw [here] at hfree
    exact absurd hn (hfree rfl n)
  | streaming here =>
    rw [here] at hfits
    have hnumber : session.blockNumber.toNat = n := (h.streams (not_ended_of_accept hfits) hn).1
    rw [hnumber, hn]
    exact .inl (onStreaming_keeps hnumber)
  | respondReset here =>
    -- what is skipped or sent again has no entry
    rw [here] at hfits
    have haction := h.bound n hn
    rcases hfits with hfits | hfits <;> simp [Streams, Ended, hfits, BlockAction.ends] at haction
  | removeAcknowledged here =>
    rw [here] at hfits
    obtain ⟨hne, hget⟩ := World.get_of_unclaim hn
    exact absurd (h.streams (not_ended_of_accept hfits) hget).1.symm hne
  | removeFailed => exact h.bound n (World.get_of_unclaim hn).2
  | removeTimedOut => exact h.bound n (World.get_of_unclaim hn).2
  | release => exact h.bound n (World.get_of_unclaim hn).2
  | _ => exact h.bound n hn

end Session

/-- A session accepts or skips a header only when the table holds nothing for it. -/
def TurnsWhenFree : Pipeline → PipelineAct → Prop :=
  AtSession fun p id session _ => session.turns id p.world → p.world.winnersOf id = []

instance (p : Pipeline) (act : PipelineAct) : Decidable (TurnsWhenFree p act) :=
  inferInstanceAs (Decidable (AtSession _ p act))

/-- **No orphaned winner.** In every run in which sessions accept and skip headers only while
they own no winner entry, an entry of a session that is alive is the block it is streaming. -/
theorem winner_streams {cfg : PipelineConfig} {codec : Codec} {blocks : List Block}
    {plugin : StatePlugin} {actions : List PipelineAct} {p : Pipeline}
    (hfree : Along (Pipeline.step cfg codec) TurnsWhenFree (.init cfg codec blocks plugin) actions)
    (hrun : run (Pipeline.step cfg codec) (.init cfg codec blocks plugin) actions = some p)
    {n id : ℕ} {session : Session} (hget : p.world.blockWinners.get n = some id)
    (hsession : p.sessions id = some session) (halive : session.Alive) : session.Streams n := by
  have hbound := (Pipeline.run_each Session.bound_robust
    (fun hfree here step hbound => step.bound hbound fun hturns n hn => by
      have hmem := World.mem_winnersOf.mpr hn
      rw [hfree _ here hturns] at hmem
      exact List.not_mem_nil hmem) hfree hrun).2 id session hsession
  refine hbound.streams ?_ hget
  have hfits := hbound.fits
  unfold Session.Alive at halive
  unfold Session.Fits at hfits
  split at halive
  · next here =>
    rw [here] at hfits
    exact Session.not_ended_of_idle hfits
  · exact halive
  · exact halive
  · exact halive
  · exact halive
  · exact halive.elim

theorem winner_streams_five : ∃ p session,
    run (Pipeline.step smallNode plainCodec) smallStart ([.connect] ++ sendBlock 0 5 []) =
        some p ∧
      p.world.blockWinners.get 5 = some 0 ∧ p.sessions 0 = some session ∧ session.Streams 5 := by
  have hsome : ∃ p ∈ run (Pipeline.step smallNode plainCodec) smallStart
      ([.connect] ++ sendBlock 0 5 []), p.world.blockWinners.get 5 = some 0 ∧
        ∃ session ∈ p.sessions 0, session.task = .idle := by decide +kernel
  obtain ⟨p, hrun, hget, session, hsession, hidle⟩ := hsome
  have halive : session.Alive := by rw [Session.Alive, hidle]; trivial
  exact ⟨p, session, hrun, hget, hsession,
    winner_streams (by decide +kernel) hrun hget hsession halive⟩

/-- The header of block 6 comes in the middle of block 5. The session goes on with block 6, and
block 5 stays reserved for it. -/
theorem winner_orphaned : ∃ p session,
    run (Pipeline.step smallNode plainCodec) smallStart
        ([.connect] ++ sendBlock 0 5 [] ++ sendBlock 0 6 []) = some p ∧
      p.world.blockWinners.get 5 = some 0 ∧ 0 ∈ p.world.activeSessions ∧
      p.sessions 0 = some session ∧ session.Alive ∧ ¬ session.Streams 5 := by
  have hsome : ∃ p ∈ run (Pipeline.step smallNode plainCodec) smallStart
      ([.connect] ++ sendBlock 0 5 [] ++ sendBlock 0 6 []),
      p.world.blockWinners.get 5 = some 0 ∧ 0 ∈ p.world.activeSessions ∧
        ∃ session ∈ p.sessions 0, session.task = .idle ∧ ¬ session.Streams 5 := by
    decide +kernel
  obtain ⟨p, hrun, hget, hactive, session, hsession, hidle, hstreams⟩ := hsome
  have halive : session.Alive := by rw [Session.Alive, hidle]; trivial
  exact ⟨p, session, hrun, hget, hactive, hsession, halive, hstreams⟩

end RockNode
