import RockNode.ArchiveFormat
import RockNode.Runs

/-!
A subscriber session: `SubscriberSession` of the subscriber plugin.

The task stands still wherever it is about to look at the store or at its receiver, to send a
message, or where a shutdown signal can end it. The store it reads belongs to other tasks.
-/

namespace RockNode

/-- `SubscribeStreamResponse.Code`. -/
inductive SubscribeCode where
  | unknown
  | success
  | invalidRequest
  | error
  | invalidStartBlockNumber
  | invalidEndBlockNumber
  | notAvailable
  deriving DecidableEq

inductive SubscribeResponse where
  | blockItems (items : List BlockItem)
  | status (code : SubscribeCode)
  deriving DecidableEq

structure SubscribeRequest where
  startBlockNumber : ℕ
  endBlockNumber : ℕ
  start_le : startBlockNumber ≤ u64Max
  end_le : endBlockNumber ≤ u64Max

/-- The stream has an end: it is not the marker `u64::MAX`. -/
def SubscribeRequest.IsFinite (request : SubscribeRequest) : Prop :=
  request.endBlockNumber ≠ u64Max

instance SubscribeRequest.IsFinite.decidable (request : SubscribeRequest) :
    Decidable request.IsFinite :=
  inferInstanceAs (Decidable (_ ≠ _))

/-- What a session sees of the store; a call without a result is one that fails. -/
structure BlockReader where
  earliest : Option (Option ℕ)
  latest : Option (Option ℕ)
  readBlock : ℕ → Option (Option Bytes)

inductive SubscriberError where
  | validation (message : String) (code : SubscribeCode)
  | persistence
  | clientDisconnected
  | streamLagged
  | timeoutWaitingForBlock (n : ℕ)
  | serverShutdown
  | internal (message : String)
  deriving DecidableEq

def SubscriberError.toStatusCode : SubscriberError → SubscribeCode
  | .validation _ code => code
  | .persistence | .streamLagged | .timeoutWaitingForBlock _ | .serverShutdown
  | .clientDisconnected | .internal _ => .error

/-- The checks of an explicit start against what is stored. There is no result when the addition
overflows. -/
def checkStart (maxFutureLookahead start : ℕ) (earliest latest : Option ℕ) :
    Option (Except SubscriberError ℕ) :=
  match earliest.filter (start < ·), latest with
  | some e, _ =>
    some (.error (.validation
      s!"Requested start block {start} is before earliest available block {e}"
      .invalidStartBlockNumber))
  | none, none => some (.ok start)
  | none, some l => do
    let maxPermitted ← checkedAdd l maxFutureLookahead
    if maxPermitted < start then
      pure (.error (.validation
        (s!"Requested start block {start} is too far in the future " ++
          s!"(latest: {l}, max permitted: {maxPermitted})")
        .notAvailable))
    else pure (.ok start)

/-- `validate_and_check_fulfillment` when both numbers have been read: the first block to send. -/
def validateAndCheckFulfillment (maxFutureLookahead : ℕ) (request : SubscribeRequest)
    (earliest latest : Option ℕ) : Option (Except SubscriberError ℕ) :=
  let start := request.startBlockNumber
  let last := request.endBlockNumber
  if last ≠ u64Max ∧ start ≠ u64Max ∧ last < start then
    some (.error (.validation
      s!"Invalid request: start block {start} cannot be after end block {last}"
      .invalidEndBlockNumber))
  else if start = u64Max then
    if last = u64Max then some (.ok (earliest.getD 0))
    else
      match earliest with
      | some e =>
        if e ≤ last then some (.ok e)
        else
          some (.error (.validation
            (s!"Cannot fulfill request: earliest available block {e} " ++
              s!"is after requested end block {last}")
            .notAvailable))
      | none =>
        some (.error (.validation "Cannot fulfill request: no blocks available yet" .notAvailable))
  else checkStart maxFutureLookahead start earliest latest

/-- Where a stream starts: at the number asked for, and for `u64::MAX` at the earliest block. -/
def SubscribeRequest.firstBlock (request : SubscribeRequest) (earliest : Option ℕ) : ℕ :=
  if request.startBlockNumber = u64Max then earliest.getD 0 else request.startBlockNumber

section Validation

variable {lookahead start : ℕ} {request : SubscribeRequest} {earliest latest : Option ℕ}
  {error : SubscriberError}

/-- A code that says that the stream has not come to its end. -/
def SubscribeCode.IsFailure (code : SubscribeCode) : Prop := code ≠ .success ∧ code ≠ .unknown

lemma checkStart_ok {s : ℕ} (h : checkStart lookahead start earliest latest = some (.ok s)) :
    s = start := by
  unfold checkStart at h
  split at h
  · cases h
  · cases h
    rfl
  · obtain ⟨max, -, h⟩ := Option.bind_eq_some_iff.mp h
    split at h <;> cases h
    rfl

lemma checkStart_error (h : checkStart lookahead start earliest latest = some (.error error)) :
    error.toStatusCode.IsFailure := by
  unfold checkStart at h
  split at h
  · cases h
    simp [SubscribeCode.IsFailure, SubscriberError.toStatusCode]
  · cases h
  · obtain ⟨max, -, h⟩ := Option.bind_eq_some_iff.mp h
    split at h <;> cases h
    simp [SubscribeCode.IsFailure, SubscriberError.toStatusCode]

lemma checkStart_ne_none (hsmall : ∀ l ∈ latest, l + lookahead ≤ u64Max) :
    checkStart lookahead start earliest latest ≠ none := by
  unfold checkStart
  split
  · exact Option.some_ne_none _
  · exact Option.some_ne_none _
  · next l _ =>
    have hadd : checkedAdd l lookahead = some (l + lookahead) :=
      checkedAdd_eq_some.mpr ⟨rfl, hsmall l rfl⟩
    rw [hadd, Option.bind_eq_bind, Option.bind_some]
    split <;> exact Option.some_ne_none _

/-- An accepted request with an end starts before it. -/
lemma validate_ok {s : ℕ}
    (h : validateAndCheckFulfillment lookahead request earliest latest = some (.ok s))
    (hfinite : request.IsFinite) : s ≤ request.endBlockNumber := by
  simp only [validateAndCheckFulfillment] at h
  split at h
  · cases h
  next horder =>
  split at h
  · rw [if_neg hfinite] at h
    split at h
    · split at h <;> cases h
      assumption
    · cases h
  · next hstart =>
    rw [checkStart_ok h]
    exact not_lt.mp fun hlt => horder ⟨hfinite, hstart, hlt⟩

/-- A request that is accepted starts where it should. -/
lemma validate_firstBlock {s : ℕ}
    (h : validateAndCheckFulfillment lookahead request earliest latest = some (.ok s)) :
    s = request.firstBlock earliest := by
  simp only [validateAndCheckFulfillment] at h
  split at h
  · cases h
  split at h
  · next hmax =>
    rw [SubscribeRequest.firstBlock, if_pos hmax]
    split at h
    · cases h
      rfl
    · split at h
      · split at h <;> cases h
        rfl
      · cases h
  · next hmax =>
    rw [SubscribeRequest.firstBlock, if_neg hmax]
    exact checkStart_ok h

lemma validate_error
    (h : validateAndCheckFulfillment lookahead request earliest latest = some (.error error)) :
    error.toStatusCode.IsFailure := by
  simp only [validateAndCheckFulfillment] at h
  split at h
  · cases h
    simp [SubscribeCode.IsFailure, SubscriberError.toStatusCode]
  split at h
  · split at h
    · cases h
    · split at h
      · split at h <;> cases h
        simp [SubscribeCode.IsFailure, SubscriberError.toStatusCode]
      · cases h
        simp [SubscribeCode.IsFailure, SubscriberError.toStatusCode]
  · exact checkStart_error h

lemma validate_ne_none (hsmall : ∀ l ∈ latest, l + lookahead ≤ u64Max) :
    validateAndCheckFulfillment lookahead request earliest latest ≠ none := by
  simp only [validateAndCheckFulfillment]
  split
  · exact Option.some_ne_none _
  split
  · split
    · exact Option.some_ne_none _
    · split
      · split <;> exact Option.some_ne_none _
      · exact Option.some_ne_none _
  · exact checkStart_ne_none hsmall

end Validation

/-- Where the task stands, that is what it is about to do. -/
inductive SubscriberTask where
  /-- `validate_and_check_fulfillment`: read the earliest number, then the latest one -/
  | earliest
  | latest (earliest : Option ℕ)
  /-- the top of the loop: `process_next_block` reads block `n` -/
  | next (n : ℕ)
  | send (n : ℕ) (block : Block)
  /-- `wait_for_new_block`: subscribe, then receive; the unread events carry these numbers -/
  | subscribe (n : ℕ)
  | waiting (n : ℕ) (events : List ℕ)
  /-- `finalize_stream` -/
  | finish (result : Option SubscriberError)
  | done
  /-- the task has panicked -/
  | crashed
  deriving DecidableEq

/-- A session. `start` remembers the validated start; the task does not read it. -/
structure Subscriber where
  request : SubscribeRequest
  task : SubscriberTask
  /-- the messages sent so far, the first one first -/
  sent : List SubscribeResponse
  connected : Bool
  failureCause : Option SubscriberError
  start : Option ℕ

/-- What happens to a session next; `go` where it takes its own next step. -/
inductive SubscriberAct where
  | go
  | lagged
  | closed
  | timeout
  | shutdown
  | disconnect
  deriving DecidableEq

namespace Subscriber

def new (request : SubscribeRequest) : Subscriber := ⟨request, .earliest, [], true, none, none⟩

def goto (session : Subscriber) (task : SubscriberTask) : Subscriber :=
  { session with task := task }

/-- `execute_stream` returns with an error. -/
def fail (session : Subscriber) (error : SubscriberError) : Subscriber :=
  session.goto (.finish (some error))

/-- A message to the client, which is lost when that has gone. -/
def send (session : Subscriber) (response : SubscribeResponse) : Subscriber :=
  if session.connected then { session with sent := session.sent ++ [response] } else session

/-- The request is accepted or refused. -/
def onValidated (session : Subscriber) : Option (Except SubscriberError ℕ) → Subscriber
  | none => session.goto .crashed
  | some (.error error) => session.fail error
  | some (.ok start) => { session with start := some start }.goto (.next start)

/-- `process_next_block` when block `n` has been read. -/
def onRead (codec : Codec) (session : Subscriber) (n : ℕ) : Option (Option Bytes) → Subscriber
  | none => session.fail .persistence
  | some none => session.goto (.subscribe n)
  | some (some bytes) =>
    match codec.decode bytes with
    | none => session.fail .persistence
    | some block => session.goto (.send n block)

/-- `send_block`, and on to the next number. -/
def onSend (session : Subscriber) (n : ℕ) (block : Block) : Subscriber :=
  if session.connected then
    (session.send (.blockItems block.items)).goto
      (if n + 1 ≤ u64Max then .next (n + 1) else .crashed)
  else session.fail .clientDisconnected

/-- The code that `finalize_stream` reports. -/
def finalCode : Option SubscriberError → SubscribeCode
  | none => .success
  | some error => error.toStatusCode

/-- `finalize_stream` and `send_final_status`. -/
def finalize (session : Subscriber) (result : Option SubscriberError) : Subscriber :=
  let session := { session with failureCause := result.or session.failureCause }
  let code := finalCode result
  (if code = .unknown then session else session.send (.status code)).goto .done

/-- One step of the session, which reads the store as it is now. A timeout is noticed only when
nothing is left to receive; the shutdown signals are looked at where the task waits. -/
def step (codec : Codec) (maxFutureLookahead : ℕ) (reader : BlockReader) (session : Subscriber)
    (act : SubscriberAct) : Option Subscriber :=
  match session.task, act with
  | _, .disconnect => some { session with connected := false }
  | .earliest, .go =>
    match reader.earliest with
    | none => some (session.fail .persistence)
    | some earliest => some (session.goto (.latest earliest))
  | .latest earliest, .go =>
    match reader.latest with
    | none => some (session.fail .persistence)
    | some latest => some (session.onValidated
        (validateAndCheckFulfillment maxFutureLookahead session.request earliest latest))
  | .next n, .go =>
    if session.request.IsFinite ∧ session.request.endBlockNumber < n then
      some (session.goto (.finish none))
    else some (session.onRead codec n (reader.readBlock n))
  | .next _, .shutdown => some (session.fail .serverShutdown)
  | .send n block, .go => some (session.onSend n block)
  | .send _ _, .shutdown => some (session.fail .serverShutdown)
  | .subscribe n, .go => some (session.goto (.waiting n []))
  | .waiting n (event :: events), .go =>
    some (session.goto (if n ≤ event then .next n else .waiting n events))
  | .waiting n _, .lagged => some (session.goto (.next n))
  | .waiting _ [], .closed => some (session.fail (.internal "Broadcast channel closed"))
  | .waiting n [], .timeout => some (session.fail (.timeoutWaitingForBlock n))
  | .waiting _ _, .shutdown => some (session.fail .serverShutdown)
  | .finish result, .go => some (session.finalize result)
  | _, _ => none

/-- A `BlockPersisted` event is broadcast: it reaches the session once that has subscribed. -/
def deliver (event : ℕ) (session : Subscriber) : Subscriber :=
  match session.task with
  | .waiting n events => session.goto (.waiting n (events ++ [event]))
  | _ => session

end Subscriber

/-- Where a failure ends the session. -/
def SubscriberTask.IsOpen : SubscriberTask → Prop
  | .earliest | .latest _ | .next _ | .send _ _ | .waiting _ _ => True
  | .subscribe _ | .finish _ | .done | .crashed => False

namespace Subscriber

variable {codec : Codec} {lookahead : ℕ} {reader : BlockReader} {session session' : Subscriber}

/-- **What one step can do.** -/
inductive Step (codec : Codec) (lookahead : ℕ) (reader : BlockReader) (session : Subscriber) :
    Subscriber → Prop where
  | hangsUp : Step codec lookahead reader session { session with connected := false }
  | fails {error} (hopen : session.task.IsOpen) (hcode : error.toStatusCode = .error) :
    Step codec lookahead reader session (session.fail error)
  | begins {e} (htask : session.task = .earliest) (hearliest : reader.earliest = some e) :
    Step codec lookahead reader session (session.goto (.latest e))
  | validates {e l} (htask : session.task = .latest e) (hlatest : reader.latest = some l) :
    Step codec lookahead reader session
      (session.onValidated (validateAndCheckFulfillment lookahead session.request e l))
  | reaches {n} (htask : session.task = .next n) (hfinite : session.request.IsFinite)
      (hend : session.request.endBlockNumber < n) :
    Step codec lookahead reader session (session.goto (.finish none))
  | misses {n} (htask : session.task = .next n)
      (hend : session.request.IsFinite → n ≤ session.request.endBlockNumber)
      (hread : reader.readBlock n = some none) :
    Step codec lookahead reader session (session.goto (.subscribe n))
  | finds {n bytes block} (htask : session.task = .next n)
      (hend : session.request.IsFinite → n ≤ session.request.endBlockNumber)
      (hread : reader.readBlock n = some (some bytes)) (hblock : codec.decode bytes = some block) :
    Step codec lookahead reader session (session.goto (.send n block))
  | sends {n block} (htask : session.task = .send n block) (hconn : session.connected = true) :
    Step codec lookahead reader session
      ((session.send (.blockItems block.items)).goto
        (if n + 1 ≤ u64Max then .next (n + 1) else .crashed))
  | subscribes {n} (htask : session.task = .subscribe n) :
    Step codec lookahead reader session (session.goto (.waiting n []))
  | passes {n event events} (htask : session.task = .waiting n (event :: events))
      (hlt : event < n) :
    Step codec lookahead reader session (session.goto (.waiting n events))
  | wakes {n events} (htask : session.task = .waiting n events) :
    Step codec lookahead reader session (session.goto (.next n))
  | ends {result} (htask : session.task = .finish result) :
    Step codec lookahead reader session (session.finalize result)

lemma onRead_step {n : ℕ} (htask : session.task = .next n)
    (hend : session.request.IsFinite → n ≤ session.request.endBlockNumber) :
    Step codec lookahead reader session (session.onRead codec n (reader.readBlock n)) := by
  have hopen : session.task.IsOpen := by rw [htask]; trivial
  rcases hread : reader.readBlock n with _ | _ | bytes
  · exact .fails hopen rfl
  · exact .misses htask hend hread
  · simp only [onRead]
    rcases hblock : codec.decode bytes with _ | block
    · exact .fails hopen rfl
    · exact .finds htask hend hread hblock

lemma step_cases {act : SubscriberAct}
    (h : session.step codec lookahead reader act = some session') :
    Step codec lookahead reader session session' := by
  unfold step at h
  split at h
  · cases h
    exact .hangsUp
  · next htask =>
    split at h <;> cases h
    · exact .fails (by rw [htask]; trivial) rfl
    · next hearliest => exact .begins htask hearliest
  · next htask =>
    split at h <;> cases h
    · exact .fails (by rw [htask]; trivial) rfl
    · next hlatest => exact .validates htask hlatest
  · next n htask =>
    split at h <;> cases h
    · next hend => exact .reaches htask hend.1 hend.2
    · next hend => exact onRead_step htask fun hf => not_lt.mp fun hlt => hend ⟨hf, hlt⟩
  · next htask =>
    cases h
    exact .fails (by rw [htask]; trivial) rfl
  · next n block htask =>
    cases h
    unfold onSend
    split
    · next hconn => exact .sends htask hconn
    · exact .fails (by rw [htask]; trivial) rfl
  · next htask =>
    cases h
    exact .fails (by rw [htask]; trivial) rfl
  · next htask =>
    cases h
    exact .subscribes htask
  · next n event events htask =>
    cases h
    split
    · exact .wakes htask
    · next hlt => exact .passes htask (not_le.mp hlt)
  · next htask =>
    cases h
    exact .wakes htask
  · next htask =>
    cases h
    exact .fails (by rw [htask]; trivial) rfl
  · next htask =>
    cases h
    exact .fails (by rw [htask]; trivial) rfl
  · next htask =>
    cases h
    exact .fails (by rw [htask]; trivial) rfl
  · next htask =>
    cases h
    exact .ends htask
  · cases h

lemma onValidated_task_ne (e : Option ℕ) (result : Option (Except SubscriberError ℕ)) :
    (session.onValidated result).task ≠ .latest e := by
  rcases result with _ | _ | _ <;> exact SubscriberTask.noConfusion

end Subscriber

end RockNode
