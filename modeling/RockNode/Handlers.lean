import RockNode.Session

/-!
What the handlers of a session leave behind.

The methods of `SessionManager` that run between two looks at shared state are many, but what
they can leave behind is little: where the task then stands (`handled`), which action goes with
it (`Fits`), and which block the session is streaming (`Streams`).
-/

namespace RockNode

/-- Where a handler can leave the task: before the hand-over of a block, or at the end of the
session. It acknowledges nothing, and after `SkipBlock` the session goes on. -/
def SessionTask.early : SessionTask → Bool
  | .idle | .header .. | .lookup .. | .elect .. | .streaming _ | .behind | .complete
  | .endStream _ => true
  | .respond (.acknowledgement _) _ | .respond _ .resend | .respond (.skipBlock _) .leave => false
  | .respond _ _ => true
  | _ => false

/-- Exactly where a handler leaves the task: `SkipBlock` and `ResendBlock` are followed by a reset,
`EndOfStream` by the end of the session. -/
def SessionTask.handled : SessionTask → Bool
  | .idle | .header .. | .lookup .. | .elect .. | .streaming _ | .behind | .complete
  | .endStream _ => true
  | .respond (.skipBlock _) .reset | .respond (.resendBlock _) .reset
  | .respond (.endStream _ _) .leave => true
  | _ => false

lemma SessionTask.early_of_handled {task : SessionTask} (h : task.handled) : task.early := by
  cases task with
  | respond response next => cases response <;> cases next <;> first | rfl | cases h
  | _ => first | rfl | cases h

namespace Session

variable {session session' : Session} {cfg : PublishConfig} {codec : Codec} {id : ℕ}
  {world world' : World} {set : List BlockItem} {act : SessionAct}

/-! ### Where the task stands -/

lemma execute_handled (action : BlockAction) : (session.execute action set).task.handled := by
  unfold execute
  cases action with
  | accept =>
    unfold handleAccept
    dsimp only
    split_ifs <;> rfl
  | _ => rfl

lemma handleRequest_handled (request : Request) :
    (session.handleRequest cfg request).task.handled := by
  cases request with
  | blockItems set =>
    simp only [handleRequest, handleBlockItems]
    split
    · rfl
    · split
      · rfl
      · rfl
      · exact execute_handled _
  | endOfBlock n =>
    simp only [handleRequest, handleBlockEnd]
    split_ifs <;> rfl
  | endStream earliest latest => rfl

lemma onHeader_handled {latest n : Int64} : (session.onHeader latest n set).task.handled := by
  unfold onHeader
  split_ifs
  · exact execute_handled _
  · exact execute_handled _
  · rfl

lemma onLookup_handled {winner : Option ℕ} {n : Int64} :
    (session.onLookup id winner n set).task.handled := by
  unfold onLookup
  split
  · split_ifs <;> exact execute_handled _
  · rfl

lemma onStreaming_handled {winner : Option ℕ} :
    (session.onStreaming id winner set).task.handled := by
  unfold onStreaming
  split
  · split_ifs <;> exact execute_handled _
  · exact execute_handled _

lemma execute_early (action : BlockAction) : (session.execute action set).task.early :=
  SessionTask.early_of_handled (execute_handled action)

lemma handleRequest_early (request : Request) :
    (session.handleRequest cfg request).task.early :=
  SessionTask.early_of_handled (handleRequest_handled request)

lemma onHeader_early {latest n : Int64} : (session.onHeader latest n set).task.early :=
  SessionTask.early_of_handled onHeader_handled

lemma onLookup_early {winner : Option ℕ} {n : Int64} :
    (session.onLookup id winner n set).task.early :=
  SessionTask.early_of_handled onLookup_handled

lemma onStreaming_early {winner : Option ℕ} :
    (session.onStreaming id winner set).task.early :=
  SessionTask.early_of_handled onStreaming_handled

/-! ### Which action goes with it -/

/-- The action that goes with the task: none or `Accept` between requests and up to the
election, `Accept` from then on, `Skip` or `Resend` before a reset. -/
def Fits (session : Session) : Prop :=
  match session.task with
  | .idle | .header .. | .lookup .. | .elect .. =>
    session.currentBlockAction = none ∨ session.currentBlockAction = some .accept
  | .streaming _ | .complete | .handOver _ | .subscribe _ | .subscribeAgain .. | .waiting ..
  | .persisted | .respond _ .resend | .broadcast _ _ _ .acknowledged | .broadcast _ _ _ .failed
  | .broadcast _ _ _ .timedOut | .removeAcknowledged | .removeFailed | .removeTimedOut =>
    session.currentBlockAction = some .accept
  | .respond _ .reset =>
    session.currentBlockAction = some .skip ∨ session.currentBlockAction = some .resend
  | _ => True

lemma execute_fits (action : BlockAction) : (session.execute action set).Fits := by
  unfold execute
  cases action with
  | accept =>
    unfold Fits handleAccept
    dsimp only
    split_ifs
    · rfl
    · exact .inr rfl
  | skip => exact .inl rfl
  | resend => exact .inr rfl
  | _ => trivial

lemma handleRequest_fits (request : Request)
    (h : session.currentBlockAction = none ∨ session.currentBlockAction = some .accept) :
    (session.handleRequest cfg request).Fits := by
  cases request with
  | blockItems set =>
    simp only [handleRequest, handleBlockItems]
    split
    · trivial
    · split
      · exact h
      · next haction => exact haction
      · exact execute_fits _
  | endOfBlock n =>
    simp only [handleRequest, handleBlockEnd]
    split_ifs with hend
    · exact hend.1
    · trivial
  | endStream earliest latest => trivial

lemma onHeader_fits {latest n : Int64}
    (h : session.currentBlockAction = none ∨ session.currentBlockAction = some .accept) :
    (session.onHeader latest n set).Fits := by
  unfold onHeader
  split_ifs
  · exact execute_fits _
  · exact execute_fits _
  · exact h

lemma onLookup_fits {winner : Option ℕ} {n : Int64}
    (h : session.currentBlockAction = none ∨ session.currentBlockAction = some .accept) :
    (session.onLookup id winner n set).Fits := by
  unfold onLookup
  split
  · split_ifs <;> exact execute_fits _
  · exact h

lemma onStreaming_fits {winner : Option ℕ} : (session.onStreaming id winner set).Fits := by
  unfold onStreaming
  split
  · split_ifs <;> exact execute_fits _
  · exact execute_fits _

/-- **The action fits the task**, whatever the session does. -/
theorem Step.fits (h : session.Fits)
    (step : Step cfg codec id world session act world' session') : session'.Fits := by
  unfold Fits at h
  cases step with
  | request here => rw [here] at h; exact handleRequest_fits _ h
  | header here => rw [here] at h; exact onHeader_fits h
  | lookup here => rw [here] at h; exact onLookup_fits h
  | elected | occupied => exact execute_fits _
  | streaming => exact onStreaming_fits
  | respondReset | removeAcknowledged => exact .inl rfl
  | @finish _ _ _ next here => rw [here] at h; cases next <;> first | exact h | trivial
  | @visit _ _ _ next _ here => rw [here] at h; cases next <;> exact h
  | respondResend here | complete here | handOver here | subscribe here | subscribeAgain here
  | takeFailed here | ignoreFailed here | takePersisted here | ignorePersisted here
  | timeout here | storeLatest here | removeTimedOut here => rw [here] at h; exact h
  | _ => trivial

lemma Hears.number (h : session.Hears session') :
    session'.currentBlockNumber = session.currentBlockNumber := by
  cases h <;> rfl

lemma Hears.blockNumber (h : session.Hears session') :
    session'.blockNumber = session.blockNumber :=
  congrArg Int64.toUInt64 h.number

lemma Hears.action (h : session.Hears session') :
    session'.currentBlockAction = session.currentBlockAction := by
  cases h <;> rfl

lemma Hears.fits (h : session.Hears session') (hfits : session.Fits) : session'.Fits := by
  cases h with
  | nothing => exact hfits
  | failed here | either here =>
    unfold Fits at hfits
    rw [here] at hfits
    exact hfits

/-! ### Which block it is streaming -/

/-- The session has accepted block `n`, and not turned to anything else since. -/
def Streams (session : Session) (n : ℕ) : Prop :=
  session.blockNumber.toNat = n ∧ session.currentBlockAction = some .accept

instance (session : Session) (n : ℕ) : Decidable (session.Streams n) :=
  inferInstanceAs (Decidable (_ ∧ _))

lemma Hears.streams {n : ℕ} (h : session.Hears session') :
    session'.Streams n ↔ session.Streams n := by
  rw [Streams, Streams, h.blockNumber, h.action]

lemma execute_action (action : BlockAction) :
    (session.execute action set).currentBlockAction = some action := by
  cases action <;> rfl

lemma execute_not_streams {action : BlockAction} (h : action ≠ .accept) (n : ℕ) :
    ¬ (session.execute action set).Streams n := by
  rintro ⟨-, haction⟩
  rw [execute_action] at haction
  exact h (Option.some.inj haction)

variable {m : ℕ}

lemma handleRequest_streams {request : Request}
    (h : (session.handleRequest cfg request).Streams m) : session.Streams m := by
  cases request with
  | blockItems set =>
    simp only [handleRequest, handleBlockItems] at h
    split at h
    · exact h
    · split at h
      · exact h
      · exact h
      · exact absurd h (execute_not_streams (by decide) m)
  | endOfBlock n =>
    simp only [handleRequest, handleBlockEnd] at h
    split_ifs at h
    · exact h
    · cases h.2
  | endStream earliest latest => exact h

lemma onHeader_streams {latest n : Int64} (h : (session.onHeader latest n set).Streams m) :
    session.Streams m := by
  unfold onHeader at h
  split_ifs at h
  · exact absurd h (execute_not_streams (by decide) m)
  · exact absurd h (execute_not_streams (by decide) m)
  · exact h

lemma onLookup_streams {winner : Option ℕ} {n : Int64}
    (h : (session.onLookup id winner n set).Streams m) : session.Streams m := by
  unfold onLookup at h
  split at h
  · split_ifs at h
    · exact absurd h (execute_not_streams (by decide) m)
    · exact absurd h (execute_not_streams (by decide) m)
  · exact h

lemma onStreaming_streams {winner : Option ℕ} (h : (session.onStreaming id winner set).Streams m) :
    winner = some id ∧ session.blockNumber.toNat = m := by
  unfold onStreaming at h
  split at h
  · split_ifs at h with hid
    · exact ⟨by rw [hid], h.1⟩
    · exact absurd h (execute_not_streams (by decide) m)
  · exact absurd h (execute_not_streams (by decide) m)

lemma onElected_streams {n : Int64} :
    (session.onElected n set).Streams m ↔ m = n.toUInt64.toNat :=
  ⟨fun h => h.1.symm, fun h => ⟨h.symm, rfl⟩⟩

end Session

end RockNode
