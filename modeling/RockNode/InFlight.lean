import RockNode.Winners

/-!
One copy of a block in flight.

A session that streams a block or waits for its outcome relies on its winner entry, although it
hardly ever looks at it again. Two sessions cannot do so for one block as long as nobody else
removes the entry. Sessions remove only what they rely on themselves; the winner clean-up goes
by the number alone.
-/

namespace RockNode

/-- The entries that a session which leaves is still going to remove; before it leaves there is
no such list. -/
def SessionTask.leaving : SessionTask → Option (List ℕ)
  | .collect _ found => some found
  | .release blocks | .broadcast _ _ _ (.released blocks) => some blocks
  | .leave | .broadcast _ _ _ .timedOut | .gone | .crashed => some []
  | _ => none

/-- The session has sent its block and not left `wait_for_verification_and_persistence`; one
that has timed out and given up its entry only tells the others. -/
def SessionTask.awaits : SessionTask → Bool
  | .subscribe _ | .subscribeAgain .. | .waiting .. | .persisted | .respond _ .resend
  | .broadcast _ _ _ .acknowledged | .broadcast _ _ _ .failed
  | .removeAcknowledged | .removeFailed | .removeTimedOut => true
  | _ => false

namespace Session

variable {session session' : Session} {cfg : PublishConfig} {codec : Codec} {id n : ℕ}
  {world world' : World} {set : List BlockItem} {act : SessionAct}

/-- The session relies on the winner entry of block `n`: it streams the block or waits for its
outcome, or it has found the entry on its way out and is going to remove it. -/
def Uses (session : Session) (n : ℕ) : Prop :=
  match session.task.leaving with
  | some blocks => n ∈ blocks
  | none => session.Streams n

instance (session : Session) (n : ℕ) : Decidable (session.Uses n) :=
  match h : session.task.leaving with
  | some blocks => decidable_of_iff (n ∈ blocks) (by rw [Uses, h])
  | none => decidable_of_iff (session.Streams n) (by rw [Uses, h])

lemma uses_of_leaving {blocks : List ℕ} (h : session.task.leaving = some blocks) :
    session.Uses n ↔ n ∈ blocks := by
  rw [Uses, h]

lemma uses_iff_streams (h : session.task.leaving = none) :
    session.Uses n ↔ session.Streams n := by
  rw [Uses, h]

lemma leaving_of_early (h : session.task.early) : session.task.leaving = none := by
  cases here : session.task <;> rw [here] at h <;> first | rfl | cases h

lemma Hears.leaving (h : session.Hears session') :
    session'.task.leaving = session.task.leaving := by
  cases h with
  | nothing => rfl
  | failed here | either here => rw [here]; rfl

lemma Hears.uses (h : session.Hears session') : session'.Uses n ↔ session.Uses n := by
  rw [Uses, Uses, h.leaving, h.streams]

/-- What the session uses is its own, and no entry is on its list twice. -/
structure Secure (S : Set ℕ) (session : Session) : Prop where
  fits : session.Fits
  uses : ∀ n, session.Uses n → n ∈ S
  nodup : ∀ blocks ∈ session.task.leaving, blocks.Nodup

lemma Secure.mono {S S' : Set ℕ} (h : session.Secure S) (hsub : S ⊆ S') : session.Secure S' :=
  ⟨h.fits, fun n hn => hsub (h.uses n hn), h.nodup⟩

lemma Secure.hears {S : Set ℕ} (h : session.Secure S) (hears : session.Hears session') :
    session'.Secure S where
  fits := hears.fits h.fits
  uses n hn := h.uses n (hears.uses.mp hn)
  nodup := hears.leaving ▸ h.nodup

lemma Secure.of_streams {S : Set ℕ} (hfits : session.Fits) (hleaving : session.task.leaving = none)
    (h : ∀ n, session.Streams n → n ∈ S) : session.Secure S where
  fits := hfits
  uses n hn := h n ((uses_iff_streams hleaving).mp hn)
  nodup blocks hblocks := by rw [hleaving] at hblocks; cases hblocks

lemma Secure.of_leaving {S : Set ℕ} {blocks : List ℕ} (hfits : session.Fits)
    (hleaving : session.task.leaving = some blocks) (h : ∀ n ∈ blocks, n ∈ S)
    (hnodup : blocks.Nodup) : session.Secure S where
  fits := hfits
  uses n hn := h n ((uses_of_leaving hleaving).mp hn)
  nodup found hfound := by
    rw [hleaving] at hfound
    cases hfound
    exact hnodup

/-- Where the session relies on the block it streams. -/
lemma Secure.streams {S : Set ℕ} (h : session.Secure S) (hleaving : session.task.leaving = none)
    {n : ℕ} (hn : session.Streams n) : n ∈ S :=
  h.uses n ((uses_iff_streams hleaving).mpr hn)

lemma Secure.mem {S : Set ℕ} {blocks : List ℕ} (h : session.Secure S)
    (hleaving : session.task.leaving = some blocks) {n : ℕ} (hn : n ∈ blocks) : n ∈ S :=
  h.uses n ((uses_of_leaving hleaving).mpr hn)

lemma Secure.move {S : Set ℕ} (h : session.Secure S) (hfits : session'.Fits)
    (hleaving : session'.task.leaving = session.task.leaving)
    (hstreams : ∀ n, session'.Streams n → session.Streams n) : session'.Secure S where
  fits := hfits
  uses n hn := by
    refine h.uses n ?_
    unfold Uses at hn ⊢
    rw [hleaving] at hn
    split at hn
    · exact hn
    · exact hstreams n hn
  nodup blocks hblocks := by
    rw [hleaving] at hblocks
    exact h.nodup blocks hblocks

/-- A session that leaves without having looked at its entries relies on none. -/
lemma Secure.leave {S : Set ℕ} (hfits : session.Fits) (hleaving : session.task.leaving = some []) :
    session.Secure S :=
  .of_leaving hfits hleaving (fun _ hn => absurd hn List.not_mem_nil) List.nodup_nil

/-- The session relies on what it removes when its block is through. -/
lemma unclaim_own_block {j : ℕ} (haction : session.currentBlockAction = some .accept)
    (hleaving : session.task.leaving = none) (hget : world.blockWinners.get n = some j) :
    (world.unclaim session.blockNumber.toNat).blockWinners.get n = some j ∨ session.Uses n := by
  rw [World.unclaim_get, uses_iff_streams hleaving]
  split_ifs with hn
  · exact .inr ⟨hn.symm, haction⟩
  · exact .inl hget

/-- **A session removes only entries it relies on.** -/
lemma Step.removes (step : Step cfg codec id world session act world' session')
    (hfits : session.Fits) {j : ℕ} (hget : world.blockWinners.get n = some j) :
    world'.blockWinners.get n = some j ∨ session.Uses n := by
  unfold Fits at hfits
  cases step with
  | elected here vacant =>
    refine .inl ?_
    rw [World.claim_get, if_neg, hget]
    rintro rfl
    rw [hget] at vacant
    cases vacant
  | removeAcknowledged here | removeFailed here | removeTimedOut here =>
    rw [here] at hfits
    exact unclaim_own_block hfits (by rw [here]; rfl) hget
  | @release k rest here =>
    rw [World.unclaim_get, uses_of_leaving (by rw [here]; rfl)]
    split_ifs with hn
    · exact .inr (hn ▸ List.mem_cons_self)
    · exact .inl hget
  | _ => exact .inl hget

/-- **A session owns what it relies on**, as far as its own steps go; entries in `B` are
excused. -/
theorem Step.secure {B : Set ℕ} (step : Step cfg codec id world session act world' session')
    (h : session.Secure ({n | world.blockWinners.get n = some id} ∪ B)) :
    session'.Secure ({n | world'.blockWinners.get n = some id} ∪ B) := by
  have hfits := step.fits h.fits
  cases step with
  | request here =>
    exact .of_streams hfits (leaving_of_early (handleRequest_early _))
      fun n hn => h.streams (by rw [here]; rfl) (handleRequest_streams hn)
  | header here =>
    exact .of_streams hfits (leaving_of_early onHeader_early)
      fun n hn => h.streams (by rw [here]; rfl) (onHeader_streams hn)
  | lookup here =>
    exact .of_streams hfits (leaving_of_early onLookup_early)
      fun n hn => h.streams (by rw [here]; rfl) (onLookup_streams hn)
  | elected =>
    refine .of_streams hfits (leaving_of_early (execute_early _)) fun n hn => ?_
    left
    rw [Set.mem_ofPred_eq, World.claim_get, if_pos (onElected_streams.mp hn)]
  | occupied =>
    exact .of_streams hfits (leaving_of_early (execute_early _))
      fun n hn => absurd hn (execute_not_streams (by decide) n)
  | streaming =>
    refine .of_streams hfits (leaving_of_early onStreaming_early) fun n hn => ?_
    obtain ⟨hwinner, hnumber⟩ := onStreaming_streams hn
    rw [hnumber] at hwinner
    exact .inl hwinner
  | respondReset | removeAcknowledged => exact .of_streams hfits rfl fun n hn => by cases hn.2
  | hangUp | respondLeave | channelClosed | removeFailed | removeTimedOut | endStream | crash =>
    exact .leave hfits rfl
  | collect here own fresh =>
    refine .of_leaving hfits rfl (fun m hm => ?_) ?_
    · rcases List.mem_append.mp hm with hm | hm
      · exact h.mem (by rw [here]; rfl) hm
      · rw [List.mem_singleton.mp hm]
        exact .inl own
    · refine List.Nodup.append (h.nodup _ (by rw [here]; rfl)) (List.nodup_singleton _) ?_
      exact List.disjoint_singleton.mpr fresh
  | @release k rest here =>
    have hnodup : (k :: rest).Nodup := h.nodup _ (by rw [here]; rfl)
    refine .of_leaving hfits rfl (fun m hm => ?_) hnodup.of_cons
    have hne : m ≠ k := fun hk => (List.nodup_cons.mp hnodup).1 (hk ▸ hm)
    rcases h.mem (by rw [here]; rfl) (List.mem_cons_of_mem k hm) with hget | hexcused
    · left
      rw [Set.mem_ofPred_eq, World.unclaim_get, if_neg hne]
      exact hget
    · exact .inr hexcused
  | @visit _ _ _ next _ here =>
    exact h.move hfits (by rw [here]; cases next <;> rfl) fun _ hn => hn
  | @finish _ _ _ next here =>
    exact h.move hfits (by rw [here]; cases next <;> rfl) fun _ hn => hn
  | behind here | respondResend here | complete here | handOver here | subscribe here
  | subscribeAgain here | takeFailed here | ignoreFailed here | takePersisted here
  | ignorePersisted here | timeout here | storeLatest here | leave here | collected here
  | unregister here => exact h.move hfits (by rw [here]; rfl) fun _ hn => hn

end Session

namespace Pipeline

variable {cfg : PipelineConfig} {codec : Codec} {p p' : Pipeline} {act : PipelineAct}

/-- The winner clean-up takes an entry only when its owner does not rely on it. -/
def RetainsUsed : Pipeline → PipelineAct → Prop :=
  AtRetain fun p n => ∀ id ∈ p.world.blockWinners.get n, ∀ session ∈ p.sessions id,
    ¬ session.Uses n

instance (p : Pipeline) (act : PipelineAct) : Decidable (RetainsUsed p act) :=
  inferInstanceAs (Decidable (AtRetain _ p act))

/-- Every session owns what it relies on, but for the entries in `B`. -/
def Secure (B : Set ℕ) (p : Pipeline) : Prop := p.Each fun S session => session.Secure (S ∪ B)

/-- **One step of the node.** It may add to the excused entries, and has to if the clean-up takes
one that its owner relies on. -/
lemma step_secure {B B' : Set ℕ} (h : p.Secure B) (hB : B ⊆ B')
    (hretain : ∀ n, act = .retainVisit n → ∀ id ∈ p.world.blockWinners.get n,
      ∀ session ∈ p.sessions id, session.Uses n → n ∈ B')
    (hstep : p.step cfg codec act = some p') : p'.Secure B' := by
  have hmono : ∀ {id session}, p.sessions id = some session → session.Secure (p.own id ∪ B') :=
    fun hs => (h _ _ hs).mono (Set.union_subset_union_right _ hB)
  cases step_cases hstep with
  | connect =>
    intro id session hid
    rcases update_sessions hid with ⟨rfl, rfl⟩ | ⟨-, hid⟩
    · exact .of_streams (.inl rfl) rfl fun n hn => by cases hn.2
    · exact hmono hid
  | @session id sact session world session' here step =>
    intro j other hj
    rcases update_sessions hj with ⟨rfl, rfl⟩ | ⟨hne, hj⟩
    · exact step.secure (hmono here)
    · refine ⟨(hmono hj).fits, fun n hn => ?_, (hmono hj).nodup⟩
      rcases (hmono hj).uses n hn with hget | hexcused
      · rcases step.removes (hmono here).fits hget with hget' | huses
        · exact .inl hget'
        · -- the two sessions do not rely on one entry, unless it is excused
          refine .inr (((hmono here).uses n huses).resolve_left fun hmine => hne ?_)
          exact Option.some.inj (hget.symm.trans hmine)
      · exact .inr hexcused
  | fail =>
    exact Each.deliver (fun id session hs => hmono hs)
      (fun h => h.hears (Session.deliverFailed_hears _)) rfl rfl
  | broadcast =>
    exact Each.deliver (fun id session hs => hmono hs)
      (fun h => h.hears (Session.deliverPersisted_hears _)) rfl rfl
  | @retainVisit k =>
    intro id session hid
    refine ⟨(hmono hid).fits, fun n hn => ?_, (hmono hid).nodup⟩
    rcases (hmono hid).uses n hn with hget | hexcused
    · by_cases hk : n = k
      · subst hk
        exact .inr (hretain n rfl id hget session hid hn)
      · left
        change (p.world.unclaim k).blockWinners.get n = some id
        rw [World.unclaim_get, if_neg hk]
        exact hget
    · exact .inr hexcused
  | _ => exact fun id session hid => hmono hid

end Pipeline

namespace Session

variable {session : Session}

lemma Fits.accept (hfits : session.Fits) (h : session.task.awaits) :
    session.currentBlockAction = some .accept := by
  unfold Fits at hfits
  cases here : session.task with
  | respond response next =>
    rw [here] at h hfits
    cases next <;> first | exact hfits | cases h
  | broadcast message todo visited next =>
    rw [here] at h hfits
    cases next <;> first | exact hfits | cases h
  | _ => rw [here] at h hfits; first | exact hfits | cases h

lemma leaving_of_awaits (h : session.task.awaits) : session.task.leaving = none := by
  cases here : session.task with
  | broadcast message todo visited next =>
    rw [here] at h
    cases next <;> first | rfl | cases h
  | _ => rw [here] at h; first | rfl | cases h

/-- A session that waits for the outcome of its block relies on the entry. -/
lemma uses_of_awaits (hfits : session.Fits) (h : session.task.awaits) :
    session.Uses session.blockNumber.toNat :=
  (uses_iff_streams (leaving_of_awaits h)).mpr ⟨rfl, hfits.accept h⟩

end Session

/-- **At most one copy of a block is in flight.** In every run in which the winner clean-up takes
no entry that its owner relies on, when a session is about to send a block to the verifier, no
session that has sent a block of the same number still waits for its outcome. -/
theorem one_copy_in_flight {cfg : PipelineConfig} {codec : Codec} {blocks : List Block}
    {plugin : StatePlugin} {actions : List PipelineAct} {p : Pipeline}
    (hused : Along (Pipeline.step cfg codec) Pipeline.RetainsUsed (.init cfg codec blocks plugin)
      actions)
    (hrun : run (Pipeline.step cfg codec) (.init cfg codec blocks plugin) actions = some p)
    {id j key : ℕ} {session other : Session} (hsession : p.sessions id = some session)
    (hother : p.sessions j = some other) (hsends : session.task = .handOver key)
    (hwaits : other.task.awaits) : other.blockNumber ≠ session.blockNumber := by
  intro hsame
  have hsecure : p.Secure ∅ := by
    refine run_inv (fun {p act p'} h hC hstep => Pipeline.step_secure h subset_rfl ?_ hstep)
      (fun _ _ h => by cases h) hused hrun
    rintro n rfl id hid session hs huses
    exact absurd huses (hC id hid session hs)
  have hown : ∀ {id session n}, p.sessions id = some session → session.Uses n →
      p.world.blockWinners.get n = some id :=
    fun hs huses => ((hsecure _ _ hs).uses _ huses).resolve_right (Set.notMem_empty _)
  have hfits := (hsecure id session hsession).fits
  unfold Session.Fits at hfits
  rw [hsends] at hfits
  have hmine : p.world.blockWinners.get session.blockNumber.toNat = some id :=
    hown hsession ((Session.uses_iff_streams (by rw [hsends]; rfl)).mpr ⟨rfl, hfits⟩)
  have htheirs : p.world.blockWinners.get other.blockNumber.toNat = some j :=
    hown hother (Session.uses_of_awaits (hsecure j other hother).fits hwaits)
  rw [hsame, hmine] at htheirs
  cases htheirs
  -- one session cannot stand at both places
  rw [hsession] at hother
  cases hother
  rw [hsends] at hwaits
  cases hwaits

/-- The session sends its block to the verifier and subscribes to the outcome. -/
def handOver (id : ℕ) : List PipelineAct := goOn id 4

/-- The verifier and persistence take the next block, up to the broadcast. -/
def persistNext : List PipelineAct := List.replicate 3 .verifier ++ List.replicate 4 .persister

/-- The session learns that its block has been stored, and stores the watermark. -/
def learn (id : ℕ) : List PipelineAct := [.session id .takePersisted, .session id .go]

theorem one_copy_in_flight_five : ∃ p session other,
    run (Pipeline.step smallNode plainCodec) smallStart
        ([.connect, .connect] ++ sendBlock 0 5 [proofItem 5] ++ handOver 0 ++
          sendBlock 1 6 [proofItem 6] ++ goOn 1 1) = some p ∧
      p.sessions 1 = some session ∧ p.sessions 0 = some other ∧
      session.task = .handOver 1 ∧ other.task = .waiting 0 [] [] ∧
      other.blockNumber ≠ session.blockNumber := by
  have hsome : ∃ p ∈ run (Pipeline.step smallNode plainCodec) smallStart
      ([.connect, .connect] ++ sendBlock 0 5 [proofItem 5] ++ handOver 0 ++
        sendBlock 1 6 [proofItem 6] ++ goOn 1 1),
      ∃ session ∈ p.sessions 1, session.task = .handOver 1 ∧
        ∃ other ∈ p.sessions 0, other.task = .waiting 0 [] [] := by decide +kernel
  obtain ⟨p, hrun, session, hsession, hsends, other, hother, hwaits⟩ := hsome
  exact ⟨p, session, other, hrun, hsession, hother, hsends, hwaits,
    one_copy_in_flight (by decide +kernel) hrun hsession hother hsends (by rw [hwaits]; rfl)⟩

/-- Session 0 streams block 5, session 1 has been told that nobody has stored it, session 2
publishes block 5000. The clean-up then drops the entry of block 5, so that session 1 can claim
the block and send it; session 0 completes its own copy without looking at the table. -/
def twoCopiesRun : List PipelineAct :=
  [PipelineAct.connect, .connect, .connect] ++ sendBlock 0 5 [] ++
    [PipelineAct.session 1 (.request (.blockItems [headerItem 5, proofItem 5])),
      .session 1 .go] ++
    sendBlock 2 5000 [proofItem 5000] ++ handOver 2 ++ persistNext ++ learn 2 ++
    [PipelineAct.loadCleanup, .startRetain, .retainVisit 5] ++ goOn 1 2 ++ handOver 1 ++
    [PipelineAct.session 0 (.request (.endOfBlock 5)), .session 0 .go]

theorem two_copies_in_flight : ∃ p session other,
    run (Pipeline.step smallNode plainCodec) smallStart twoCopiesRun = some p ∧
      p.sessions 0 = some session ∧ p.sessions 1 = some other ∧
      session.task = .handOver 2 ∧ other.task = .waiting 1 [] [] ∧
      session.blockNumber = 5 ∧ other.blockNumber = 5 := by
  have hsome : ∃ p ∈ run (Pipeline.step smallNode plainCodec) smallStart twoCopiesRun,
      ∃ session ∈ p.sessions 0, ∃ other ∈ p.sessions 1, session.task = .handOver 2 ∧
        other.task = .waiting 1 [] [] ∧ session.blockNumber = 5 ∧ other.blockNumber = 5 := by
    decide +kernel
  obtain ⟨p, hrun, session, hsession, other, hother, hrest⟩ := hsome
  exact ⟨p, session, other, hrun, hsession, hother, hrest⟩

end RockNode
