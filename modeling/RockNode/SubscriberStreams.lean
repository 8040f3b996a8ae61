import RockNode.Subscriber

/-!
What a subscriber session sends, whatever the store, the events and the signals do.

The invariant says where the task stands in its stream: the number it works on is the start plus
the number of blocks sent.
-/

namespace RockNode

def SubscribeResponse.items? : SubscribeResponse → Option (List BlockItem)
  | .blockItems items => some items
  | .status _ => none

def SubscribeResponse.code? : SubscribeResponse → Option SubscribeCode
  | .blockItems _ => none
  | .status code => some code

/-- The items of the block stored under a number. -/
def storedItems (codec : Codec) (stored : ℕ → Option Bytes) (n : ℕ) : Option (List BlockItem) := do
  let bytes ← stored n
  let block ← codec.decode bytes
  pure block.items

namespace Subscriber

/-- The blocks sent so far, the first one first. -/
def blocks (session : Subscriber) : List (List BlockItem) :=
  session.sent.filterMap SubscribeResponse.items?

/-- The final statuses sent so far. -/
def codes (session : Subscriber) : List SubscribeCode :=
  session.sent.filterMap SubscribeResponse.code?

/-- The number that comes after the blocks sent. -/
def position (session : Subscriber) : Option ℕ :=
  session.start.map (· + session.blocks.length)

/-- All blocks of a stream with an end have been sent. -/
def IsComplete (session : Subscriber) : Prop :=
  session.request.IsFinite ∧ session.position = some (session.request.endBlockNumber + 1)

end Subscriber

/-! ### The session beside a store that grows -/

/-- A session and the blocks it can read. -/
structure Feed where
  stored : ℕ → Option Bytes
  session : Subscriber

/-- The store takes a new block, a `BlockPersisted` event is broadcast, or something happens to
the session; the two numbers it may read then are whatever they are, and a read may fail. -/
inductive FeedAct where
  | persist (n : ℕ) (bytes : Bytes)
  | announce (n : ℕ)
  | session (earliest latest : Option (Option ℕ)) (failing : Bool) (act : SubscriberAct)

def Feed.reader (feed : Feed) (earliest latest : Option (Option ℕ)) (failing : Bool) :
    BlockReader :=
  ⟨earliest, latest, fun n => if failing then none else some (feed.stored n)⟩

/-- A block that is stored stays as it is. -/
def Feed.step (codec : Codec) (lookahead : ℕ) (feed : Feed) : FeedAct → Option Feed
  | .persist n bytes =>
    if feed.stored n = none then
      some { feed with stored := Function.update feed.stored n (some bytes) }
    else none
  | .announce n => some { feed with session := feed.session.deliver n }
  | .session earliest latest failing act =>
    (feed.session.step codec lookahead (feed.reader earliest latest failing) act).map
      fun session => { feed with session := session }

/-- No number reaches `u64::MAX`. -/
def FeedAct.IsSmall (lookahead : ℕ) : FeedAct → Prop
  | .persist n _ => n < u64Max
  | .announce _ => True
  | .session _ latest _ _ => ∀ l, latest = some (some l) → l + lookahead < u64Max

/-- What a run answers to its session when that asks for the earliest number. -/
def Feed.answers (codec : Codec) (lookahead : ℕ) (feed : Feed) (acts : List FeedAct) :
    Set (Option ℕ) :=
  {e | ∃ before after latest failing feed',
    acts = before ++ .session (some e) latest failing .go :: after ∧
    run (Feed.step codec lookahead) feed before = some feed' ∧ feed'.session.task = .earliest}

/-! ### Where the task stands -/

namespace Subscriber

variable {codec : Codec} {lookahead : ℕ} {stored stored' : ℕ → Option Bytes}
  {session session' : Subscriber}

/-- What has been sent: blocks from the validated start on, then statuses. -/
structure Record (codec : Codec) (stored : ℕ → Option Bytes) (session : Subscriber) : Prop where
  ordered : session.sent = session.blocks.map .blockItems ++ session.codes.map .status
  fetched : ∀ s ∈ session.start, ∀ i < session.blocks.length,
    session.blocks[i]? = storedItems codec stored (s + i)
  refused : session.start = none → session.blocks = []
  bounded : session.request.IsFinite → ∀ s ∈ session.start,
    s ≤ session.request.endBlockNumber ∧
      s + session.blocks.length ≤ session.request.endBlockNumber + 1

/-- How `execute_stream` returns. -/
def Outcome (session : Subscriber) : Option SubscriberError → Prop
  | none => session.IsComplete
  | some error => error.toStatusCode.IsFailure

/-- By the task: its number is the next one to send. -/
def Place (codec : Codec) (stored : ℕ → Option Bytes) (session : Subscriber) : Prop :=
  match session.task with
  | .earliest | .latest _ => session.start = none
  | .next n => session.position = some n
  | .subscribe n | .waiting n _ => session.position = some n ∧
    (session.request.IsFinite → n ≤ session.request.endBlockNumber)
  | .send n block => session.position = some n ∧
    (session.request.IsFinite → n ≤ session.request.endBlockNumber) ∧ n < u64Max ∧
    storedItems codec stored n = some block.items
  | .finish result => session.Outcome result
  | .done => session.Outcome session.failureCause ∧
    (session.codes = [finalCode session.failureCause] ∨
      session.codes = [] ∧ session.connected = false)
  | .crashed => False

/-- Before its end a session has neither sent a status nor noted a failure. -/
def Running (session : Subscriber) : Prop :=
  session.task ≠ .done → session.codes = [] ∧ session.failureCause = none

structure Stands (codec : Codec) (stored : ℕ → Option Bytes) (session : Subscriber) : Prop where
  record : Record codec stored session
  place : Place codec stored session
  running : session.Running

lemma stands_new (request : SubscribeRequest) : Stands codec stored (new request) := by
  refine ⟨⟨rfl, ?_, fun _ => rfl, ?_⟩, rfl, fun _ => ⟨rfl, rfl⟩⟩
  · intro s hs
    cases hs
  · intro _ s hs
    cases hs

/-! ### One step -/

@[simp] lemma send_start (response : SubscribeResponse) :
    (session.send response).start = session.start := by
  unfold send
  split <;> rfl

@[simp] lemma send_request (response : SubscribeResponse) :
    (session.send response).request = session.request := by
  unfold send
  split <;> rfl

@[simp] lemma send_failureCause (response : SubscribeResponse) :
    (session.send response).failureCause = session.failureCause := by
  unfold send
  split <;> rfl

@[simp] lemma send_connected (response : SubscribeResponse) :
    (session.send response).connected = session.connected := by
  unfold send
  split <;> rfl

@[simp] lemma blocks_status (code : SubscribeCode) :
    (session.send (.status code)).blocks = session.blocks := by
  unfold send blocks
  split <;> simp [SubscribeResponse.items?]

lemma codes_status (code : SubscribeCode) :
    (session.send (.status code)).codes =
      session.codes ++ if session.connected then [code] else [] := by
  unfold send codes
  split <;> simp [SubscribeResponse.code?]

lemma blocks_send (hconn : session.connected = true) (items : List BlockItem) :
    (session.send (.blockItems items)).blocks = session.blocks ++ [items] := by
  simp [blocks, send, hconn, SubscribeResponse.items?]

lemma codes_send (hconn : session.connected = true) (items : List BlockItem) :
    (session.send (.blockItems items)).codes = session.codes := by
  simp [codes, send, hconn, SubscribeResponse.code?]

lemma Record.goto (h : Record codec stored session) (task : SubscriberTask) :
    Record codec stored (session.goto task) :=
  ⟨h.ordered, h.fetched, h.refused, h.bounded⟩

/-- A step that only moves the task on. -/
lemma Stands.goto {task : SubscriberTask} (h : Stands codec stored session)
    (hdone : session.task ≠ .done) (hplace : Place codec stored (session.goto task)) :
    Stands codec stored (session.goto task) :=
  ⟨h.record.goto task, hplace, fun _ => h.running hdone⟩

lemma Stands.fail {error : SubscriberError} (h : Stands codec stored session)
    (hdone : session.task ≠ .done) (hcode : error.toStatusCode.IsFailure) :
    Stands codec stored (session.fail error) :=
  h.goto hdone hcode

lemma Stands.hangsUp (h : Stands codec stored session) :
    Stands codec stored { session with connected := false } := by
  refine ⟨⟨h.record.ordered, h.record.fetched, h.record.refused, h.record.bounded⟩, ?_,
    h.running⟩
  obtain ⟨request, task, sent, connected, cause, start⟩ := session
  have hplace := h.place
  cases task with
  | done => exact ⟨hplace.1, hplace.2.imp_right fun hcodes => ⟨hcodes.1, rfl⟩⟩
  | _ => exact hplace

/-- The request is accepted: the stream begins. -/
lemma Stands.accept {s : ℕ} (h : Stands codec stored session) (hdone : session.task ≠ .done)
    (hstart : session.start = none)
    (hs : session.request.IsFinite → s ≤ session.request.endBlockNumber) :
    Stands codec stored ({ session with start := some s }.goto (.next s)) := by
  have hblocks : session.blocks = [] := h.record.refused hstart
  refine ⟨⟨h.record.ordered, ?_, fun _ => hblocks, ?_⟩, ?_, fun _ => h.running hdone⟩
  · intro t _ i hi
    change i < session.blocks.length at hi
    simp [hblocks] at hi
  · intro hfinite t ht
    cases ht
    change s ≤ session.request.endBlockNumber ∧
      s + session.blocks.length ≤ session.request.endBlockNumber + 1
    have := hs hfinite
    simp only [hblocks, List.length_nil]
    omega
  · change (some s).map (· + session.blocks.length) = some s
    simp [hblocks]

/-- The next block is sent. -/
lemma Record.snoc {n : ℕ} {items : List BlockItem} (h : Record codec stored session)
    (hcodes : session.codes = []) (hconn : session.connected = true)
    (hpos : session.position = some n)
    (hend : session.request.IsFinite → n ≤ session.request.endBlockNumber)
    (hitems : storedItems codec stored n = some items) :
    Record codec stored (session.send (.blockItems items)) := by
  obtain ⟨s, hs, rfl⟩ := Option.map_eq_some_iff.mp hpos
  constructor
  · have hsent : (session.send (.blockItems items)).sent = session.sent ++ [.blockItems items] := by
      simp [send, hconn]
    rw [hsent, blocks_send hconn, codes_send hconn, hcodes, h.ordered, hcodes]
    simp
  · intro t ht i hi
    rw [send_start, hs] at ht
    cases ht
    rw [blocks_send hconn] at hi ⊢
    rw [List.length_append, List.length_singleton] at hi
    rcases Nat.lt_or_ge i session.blocks.length with hlt | hge
    · rw [List.getElem?_append_left hlt]
      exact h.fetched s hs i hlt
    · obtain rfl : i = session.blocks.length := by omega
      rw [List.getElem?_concat_length, hitems]
  · intro hnone
    rw [send_start, hs] at hnone
    cases hnone
  · intro hfinite t ht
    rw [send_request] at hfinite ⊢
    rw [send_start, hs] at ht
    cases ht
    have hle := hend hfinite
    rw [blocks_send hconn, List.length_append, List.length_singleton]
    exact ⟨(h.bounded hfinite s hs).1, by omega⟩

lemma Stands.sends {n : ℕ} {block : Block} (h : Stands codec stored session)
    (htask : session.task = .send n block) (hconn : session.connected = true) :
    Stands codec stored ((session.send (.blockItems block.items)).goto
      (if n + 1 ≤ u64Max then .next (n + 1) else .crashed)) := by
  have hplace := h.place
  simp only [Place, htask] at hplace
  obtain ⟨hpos, hend, hlt, hitems⟩ := hplace
  obtain ⟨hcodes, hcause⟩ := h.running (by rw [htask]; simp)
  refine ⟨(h.record.snoc hcodes hconn hpos hend hitems).goto _, ?_, fun _ => ⟨?_, ?_⟩⟩
  · rw [if_pos (Nat.succ_le_of_lt hlt)]
    change (session.send (.blockItems block.items)).position = some (n + 1)
    obtain ⟨s, hs, rfl⟩ := Option.map_eq_some_iff.mp hpos
    simp only [position, send_start, hs, blocks_send hconn, Option.map_some, List.length_append,
      List.length_singleton, Nat.add_assoc]
  · exact (codes_send hconn block.items).trans hcodes
  · exact (send_failureCause (.blockItems block.items)).trans hcause

lemma finalCode_ne_unknown {result : Option SubscriberError} (h : session.Outcome result) :
    finalCode result ≠ .unknown := by
  cases result with
  | none => simp [finalCode]
  | some error => exact h.2

lemma finalize_eq {result : Option SubscriberError} (h : session.Outcome result)
    (hcause : session.failureCause = none) :
    session.finalize result =
      ({ session with failureCause := result }.send (.status (finalCode result))).goto .done := by
  simp only [finalize, if_neg (finalCode_ne_unknown h), hcause, Option.or_none]

lemma Record.status (h : Record codec stored session) (code : SubscribeCode) :
    Record codec stored (session.send (.status code)) := by
  constructor
  · rw [blocks_status, codes_status]
    unfold send
    split
    · rw [List.map_append, ← List.append_assoc, ← h.ordered]
      rfl
    · simpa using h.ordered
  · simpa using h.fetched
  · simpa using h.refused
  · simpa using h.bounded

/-- The session ends: a connected client is told how. -/
lemma Stands.finalize {result : Option SubscriberError} (h : Stands codec stored session)
    (htask : session.task = .finish result) : Stands codec stored (session.finalize result) := by
  have hout : session.Outcome result := by
    have hplace := h.place
    simpa only [Place, htask] using hplace
  obtain ⟨hcodes, hcause⟩ := h.running (by rw [htask]; simp)
  rw [finalize_eq hout hcause]
  set noted : Subscriber := { session with failureCause := result } with hnoted
  have hrecord : Record codec stored noted :=
    ⟨h.record.ordered, h.record.fetched, h.record.refused, h.record.bounded⟩
  refine ⟨(hrecord.status _).goto .done, ⟨?_, ?_⟩, fun hne => absurd rfl hne⟩
  · change (noted.send _).Outcome (noted.send _).failureCause
    rw [send_failureCause]
    cases result with
    | some error => exact hout
    | none =>
      refine ⟨by simpa using hout.1, ?_⟩
      simp only [position, send_start, blocks_status, send_request]
      exact hout.2
  · change (noted.send _).codes = [finalCode (noted.send _).failureCause] ∨
      (noted.send _).codes = [] ∧ (noted.send _).connected = false
    have hnone : noted.codes = [] := hcodes
    rw [codes_status, hnone, send_failureCause, send_connected]
    cases noted.connected <;> simp [hnoted]

/-- What the session may rely on when it looks at the store. -/
structure Shows (lookahead : ℕ) (stored : ℕ → Option Bytes) (reader : BlockReader) : Prop where
  reads : ∀ {n bytes}, reader.readBlock n = some (some bytes) → stored n = some bytes
  latest : ∀ {l}, reader.latest = some (some l) → l + lookahead < u64Max
  small : ∀ {n bytes}, stored n = some bytes → n < u64Max

lemma IsOpen.ne_done {task : SubscriberTask} (h : task.IsOpen) : task ≠ .done := by
  rintro rfl
  exact h

/-- **The invariant of a session, step by step.** -/
theorem Stands.step {reader : BlockReader} (h : Stands codec stored session)
    (hshows : Shows lookahead stored reader)
    (hstep : Step codec lookahead reader session session') : Stands codec stored session' := by
  have hplace := h.place
  cases hstep with
  | hangsUp => exact h.hangsUp
  | fails hopen hcode =>
    exact h.fail (IsOpen.ne_done hopen) (by rw [hcode]; simp [SubscribeCode.IsFailure])
  | begins htask _ =>
    simp only [Place, htask] at hplace
    exact h.goto (by rw [htask]; simp) hplace
  | validates htask hlatest =>
    rename_i e l
    simp only [Place, htask] at hplace
    have hdone : session.task ≠ .done := by rw [htask]; simp
    rcases hv : validateAndCheckFulfillment lookahead session.request e l with _ | error | s
    · refine absurd hv (validate_ne_none fun k hk => ?_)
      cases hk
      exact (hshows.latest hlatest).le
    · exact h.fail hdone (validate_error hv)
    · exact h.accept hdone hplace fun hfinite => validate_ok hv hfinite
  | reaches htask hfinite hend =>
    rename_i n
    simp only [Place, htask] at hplace
    refine h.goto (by rw [htask]; simp) ⟨hfinite, ?_⟩
    change session.position = some (session.request.endBlockNumber + 1)
    obtain ⟨s, hs, rfl⟩ := Option.map_eq_some_iff.mp hplace
    have hle := (h.record.bounded hfinite s hs).2
    rw [hplace, Option.some_inj]
    omega
  | misses htask hend hread =>
    simp only [Place, htask] at hplace
    exact h.goto (by rw [htask]; simp) ⟨hplace, hend⟩
  | finds htask hend hread hblock =>
    simp only [Place, htask] at hplace
    have hstored := hshows.reads hread
    refine h.goto (by rw [htask]; simp) ⟨hplace, hend, hshows.small hstored, ?_⟩
    simp [storedItems, hstored, hblock]
  | sends htask hconn => exact h.sends htask hconn
  | subscribes htask =>
    simp only [Place, htask] at hplace
    exact h.goto (by rw [htask]; simp) hplace
  | passes htask hlt =>
    simp only [Place, htask] at hplace
    exact h.goto (by rw [htask]; simp) hplace
  | wakes htask =>
    simp only [Place, htask] at hplace
    exact h.goto (by rw [htask]; simp) hplace.1
  | ends htask => exact h.finalize htask

lemma storedItems_mono (hmono : ∀ {n bytes}, stored n = some bytes → stored' n = some bytes) {n : ℕ}
    {items : List BlockItem} (h : storedItems codec stored n = some items) :
    storedItems codec stored' n = some items := by
  obtain ⟨bytes, hbytes, hitems⟩ := Option.bind_eq_some_iff.mp h
  exact Option.bind_eq_some_iff.mpr ⟨bytes, hmono hbytes, hitems⟩

/-- The store grows: what has been sent and what is about to be sent stays what is stored. -/
lemma Stands.mono (h : Stands codec stored session)
    (hmono : ∀ {n bytes}, stored n = some bytes → stored' n = some bytes) :
    Stands codec stored' session := by
  refine ⟨⟨h.record.ordered, ?_, h.record.refused, h.record.bounded⟩, ?_, h.running⟩
  · intro s hs i hi
    have hget := h.record.fetched s hs i hi
    rw [List.getElem?_eq_getElem hi] at hget ⊢
    exact (storedItems_mono hmono hget.symm).symm
  · obtain ⟨request, task, sent, connected, cause, start⟩ := session
    have hplace := h.place
    cases task with
    | send n block =>
      obtain ⟨hpos, hend, hlt, hitems⟩ := hplace
      exact ⟨hpos, hend, hlt, storedItems_mono hmono hitems⟩
    | _ => exact hplace

lemma Stands.deliver (h : Stands codec stored session) (event : ℕ) :
    Stands codec stored (session.deliver event) := by
  have hplace := h.place
  unfold Subscriber.deliver
  split
  · next n events htask =>
    simp only [Place, htask] at hplace
    exact h.goto (by rw [htask]; simp) hplace
  · exact h

/-! ### Where the stream starts -/

/-- The session goes by its request and by one of these answers about the earliest number. -/
structure StartsBy (request : SubscribeRequest) (answers : Set (Option ℕ))
    (session : Subscriber) : Prop where
  request_eq : session.request = request
  asked : ∀ e, session.task = .latest e → e ∈ answers
  start : ∀ s ∈ session.start, ∃ e ∈ answers, s = request.firstBlock e

section StartsBy

variable {request : SubscribeRequest} {answers : Set (Option ℕ)}

lemma startsBy_new : StartsBy request answers (new request) where
  request_eq := rfl
  asked e he := by cases he
  start s hs := by cases hs

/-- Neither the request nor the start changes, and nothing is asked. -/
lemma StartsBy.keep (h : StartsBy request answers session)
    (hrequest : session'.request = session.request) (hstart : session'.start = session.start)
    (htask : ∀ e, session'.task = .latest e → session.task = .latest e) :
    StartsBy request answers session' where
  request_eq := hrequest.trans h.request_eq
  asked e he := h.asked e (htask e he)
  start s hs := h.start s (hstart ▸ hs)

lemma StartsBy.deliver (h : StartsBy request answers session) (event : ℕ) :
    StartsBy request answers (session.deliver event) := by
  unfold Subscriber.deliver
  split
  · exact h.keep rfl rfl fun e he => by cases he
  · exact h

/-- Only `go` reads the earliest number. -/
lemma go_of_reads {reader : BlockReader} {act : SubscriberAct} {e : Option ℕ}
    (hstep : session.step codec lookahead reader act = some session')
    (htask : session.task = .earliest) (hlatest : session'.task = .latest e) : act = .go := by
  cases act with
  | go => rfl
  | disconnect =>
    obtain rfl : { session with connected := false } = session' := Option.some.inj hstep
    cases htask.symm.trans hlatest
  | _ =>
    simp only [Subscriber.step, htask] at hstep
    cases hstep

/-- **Only the validation sets a start**, and only from what has been read. -/
lemma StartsBy.step {reader : BlockReader} (h : StartsBy request answers session)
    (hreader : ∀ e, session.task = .earliest → session'.task = .latest e →
      reader.earliest = some e → e ∈ answers)
    (hstep : Step codec lookahead reader session session') :
    StartsBy request answers session' := by
  cases hstep with
  | hangsUp => exact h.keep rfl rfl fun e he => he
  | begins htask hearliest =>
    refine ⟨h.request_eq, fun e he => ?_, h.start⟩
    cases he
    exact hreader _ htask rfl hearliest
  | @validates e l htask =>
    rcases hvalid : validateAndCheckFulfillment lookahead session.request e l with _ | error | s
    · exact h.keep rfl rfl fun e he => by cases he
    · exact h.keep rfl rfl fun e he => by cases he
    · refine ⟨h.request_eq, fun e he => (by cases he), fun s' hs' => ⟨e, h.asked e htask, ?_⟩⟩
      cases hs'
      rw [validate_firstBlock hvalid, h.request_eq]
  | sends =>
    refine h.keep (send_request _) (send_start _) fun e he => ?_
    simp only [goto] at he
    split at he <;> cases he
  | @ends result =>
    have hkeeps : (session.finalize result).request = session.request ∧
        (session.finalize result).start = session.start := by
      simp only [finalize, goto]
      split
      · exact ⟨rfl, rfl⟩
      · exact ⟨send_request _, send_start _⟩
    exact h.keep hkeeps.1 hkeeps.2 fun e he => by cases he
  | _ => exact h.keep rfl rfl fun e he => by cases he

end StartsBy

/-! ### Whole streams -/

/-- Nothing has ended the stream before its time. -/
def Unfailed (session : Subscriber) : Prop :=
  session.failureCause = none ∧ ∀ error, session.task ≠ .finish (some error)

/-- What a client can rely on. -/
structure IsExact (codec : Codec) (lookahead : ℕ) (stored : ℕ → Option Bytes)
    (request : SubscribeRequest) (answers : Set (Option ℕ)) (session : Subscriber) : Prop where
  /-- the stream starts where the request says, or with the earliest block it has read -/
  startsBy : session.StartsBy request answers
  ordered : session.sent = session.blocks.map .blockItems ++ session.codes.map .status
  /-- no number is left out, repeated or out of its turn -/
  consecutive : ∀ s ∈ session.start, ∀ i < session.blocks.length,
    session.blocks[i]? = storedItems codec stored (s + i)
  refused : session.start = none → session.blocks = []
  oneStatus : session.connected = true →
    session.codes.length = if session.task = .done then 1 else 0
  success : SubscribeCode.success ∈ session.codes → session.IsComplete
  bounded : session.request.IsFinite → ∀ s ∈ session.start,
    s ≤ session.request.endBlockNumber ∧
      s + session.blocks.length ≤ session.request.endBlockNumber + 1
  /-- a stream that is complete reports it, with nothing but its own next steps -/
  reports : session.IsComplete → session.Unfailed → session.connected = true → ∀ reader,
    ∃ k ≤ 2, ∃ session',
      run (Subscriber.step codec lookahead reader) session (List.replicate k .go) = some session' ∧
      session'.task = .done ∧ session'.codes = [.success]

/-- A complete stream stands right before its end. -/
lemma Stands.at_end (h : Stands codec stored session) (hcomplete : session.IsComplete)
    (hunfailed : session.Unfailed) :
    session.task = .next (session.request.endBlockNumber + 1) ∨ session.task = .finish none ∨
      session.task = .done := by
  obtain ⟨hfinite, hpos⟩ := hcomplete
  have hplace := h.place
  have hstart : session.start ≠ none := by
    intro hnone
    simp [position, hnone] at hpos
  rcases htask : session.task with _ | e | n | ⟨n, block⟩ | n | ⟨n, events⟩ | result | _ | _ <;>
    simp only [Place, htask] at hplace
  · exact absurd hplace hstart
  · exact absurd hplace hstart
  · rw [hpos] at hplace
    cases hplace
    exact Or.inl rfl
  · have hn := hplace.2.1 hfinite
    rw [hpos] at hplace
    cases hplace.1
    omega
  · have hn := hplace.2 hfinite
    rw [hpos] at hplace
    cases hplace.1
    omega
  · have hn := hplace.2 hfinite
    rw [hpos] at hplace
    cases hplace.1
    omega
  · cases result with
    | none => exact Or.inr (Or.inl rfl)
    | some error => exact absurd htask (hunfailed.2 error)
  · exact Or.inr (Or.inr rfl)

lemma Stands.reports_finish (h : Stands codec stored session) (htask : session.task = .finish none)
    (hconn : session.connected = true) (lookahead : ℕ) (reader : BlockReader) :
    ∃ session', session.step codec lookahead reader .go = some session' ∧
      session'.task = .done ∧ session'.codes = [.success] := by
  have hstep : session.step codec lookahead reader .go = some (session.finalize none) := by
    simp only [Subscriber.step, htask]
  obtain ⟨hcodes, hcause⟩ := h.running (by rw [htask]; simp)
  have hout : session.Outcome none := by
    have hplace := h.place
    simpa only [Place, htask] using hplace
  refine ⟨_, hstep, rfl, ?_⟩
  rw [finalize_eq hout hcause]
  change (Subscriber.send _ _).codes = _
  rw [codes_status, if_pos hconn]
  change session.codes ++ _ = _
  rw [hcodes]
  rfl

lemma Stands.reports (h : Stands codec stored session) (hcomplete : session.IsComplete)
    (hunfailed : session.Unfailed) (hconn : session.connected = true) (reader : BlockReader) :
    ∃ k ≤ 2, ∃ session',
      run (Subscriber.step codec lookahead reader) session (List.replicate k .go) = some session' ∧
      session'.task = .done ∧ session'.codes = [.success] := by
  rcases h.at_end hcomplete hunfailed with htask | htask | htask
  · have hstep : session.step codec lookahead reader .go = some (session.goto (.finish none)) := by
      simp only [Subscriber.step, htask]
      rw [if_pos ⟨hcomplete.1, Nat.lt_succ_self _⟩]
    have hnext : Stands codec stored (session.goto (.finish none)) :=
      h.goto (by rw [htask]; simp) hcomplete
    obtain ⟨session', hlast, hend⟩ := hnext.reports_finish rfl hconn lookahead reader
    exact ⟨2, le_rfl, session', (run_cons hstep _).trans (run_cons hlast _), hend⟩
  · obtain ⟨session', hlast, hend⟩ := h.reports_finish htask hconn lookahead reader
    exact ⟨1, by omega, session', run_cons hlast _, hend⟩
  · have hplace := h.place
    simp only [Place, htask] at hplace
    refine ⟨0, by omega, session, rfl, htask, ?_⟩
    rcases hplace.2 with hcodes | ⟨-, hgone⟩
    · rw [hcodes, hunfailed.1]
      rfl
    · rw [hconn] at hgone
      cases hgone

/-- Where the task stands tells what the client can rely on. -/
theorem Stands.isExact {request : SubscribeRequest} {answers : Set (Option ℕ)}
    (h : Stands codec stored session) (hstarts : session.StartsBy request answers) :
    IsExact codec lookahead stored request answers session where
  startsBy := hstarts
  ordered := h.record.ordered
  consecutive := h.record.fetched
  refused := h.record.refused
  oneStatus := by
    intro hconn
    split
    · next htask =>
      have hplace := h.place
      simp only [Place, htask] at hplace
      rcases hplace.2 with hcodes | ⟨-, hgone⟩
      · rw [hcodes]
        rfl
      · rw [hconn] at hgone
        cases hgone
    · next htask => rw [(h.running htask).1, List.length_nil]
  success := by
    intro hmem
    by_cases htask : session.task = .done
    · have hplace := h.place
      simp only [Place, htask] at hplace
      obtain ⟨hout, hcodes | ⟨hcodes, -⟩⟩ := hplace
      · rw [hcodes, List.mem_singleton] at hmem
        cases hcause : session.failureCause with
        | none => rwa [hcause] at hout
        | some error =>
          rw [hcause] at hout hmem
          exact absurd hmem.symm hout.1
      · rw [hcodes] at hmem
        cases hmem
    · rw [(h.running htask).1] at hmem
      cases hmem
  bounded := h.record.bounded
  reports := h.reports

end Subscriber

/-- The session stands in its stream, and all stored numbers are small. -/
structure Feed.Sound (codec : Codec) (request : SubscribeRequest) (answers : Set (Option ℕ))
    (feed : Feed) : Prop where
  stands : feed.session.Stands codec feed.stored
  startsBy : feed.session.StartsBy request answers
  small : ∀ {n bytes}, feed.stored n = some bytes → n < u64Max

lemma Feed.step_sound {codec : Codec} {lookahead : ℕ} {feed feed' : Feed} {act : FeedAct}
    {request : SubscribeRequest} {answers : Set (Option ℕ)} (h : feed.Sound codec request answers)
    (hsmall : act.IsSmall lookahead)
    (hanswers : ∀ e latest failing, act = .session (some e) latest failing .go →
      feed.session.task = .earliest → e ∈ answers)
    (hstep : feed.step codec lookahead act = some feed') : feed'.Sound codec request answers := by
  cases act with
  | persist n bytes =>
    simp only [Feed.step] at hstep
    split at hstep <;> cases hstep
    next hfree =>
    refine ⟨h.stands.mono fun {m b} hm => ?_, h.startsBy, fun {m b} hm => ?_⟩
    · have hne : m ≠ n := by
        rintro rfl
        rw [hfree] at hm
        cases hm
      exact (Function.update_of_ne hne _ _).trans hm
    · rcases eq_or_ne m n with rfl | hne
      · exact hsmall
      · exact h.small ((Function.update_of_ne hne _ _).symm.trans hm)
  | announce n =>
    cases hstep
    exact ⟨h.stands.deliver n, h.startsBy.deliver n, h.small⟩
  | session earliest latest failing act =>
    obtain ⟨session', hs, rfl⟩ := Option.map_eq_some_iff.mp hstep
    have hcases := Subscriber.step_cases hs
    refine ⟨h.stands.step ⟨fun {n bytes} hread => ?_, fun hl => hsmall _ hl, h.small⟩ hcases,
      h.startsBy.step (fun e htask hlatest he => ?_) hcases, h.small⟩
    · simp only [Feed.reader] at hread
      split at hread
      · cases hread
      · exact Option.some.inj hread
    · obtain rfl : earliest = some e := he
      obtain rfl : act = .go := Subscriber.go_of_reads hs htask hlatest
      exact hanswers e latest failing rfl htask

/-- **Streams are exact.** -/
theorem subscriber_exact {codec : Codec} {lookahead : ℕ} {request : SubscribeRequest}
    {stored : ℕ → Option Bytes} (hstored : ∀ n bytes, stored n = some bytes → n < u64Max)
    {acts : List FeedAct} (hsmall : ∀ act ∈ acts, act.IsSmall lookahead) {feed : Feed}
    (h : run (Feed.step codec lookahead) ⟨stored, .new request⟩ acts = some feed) :
    feed.session.IsExact codec lookahead feed.stored request
      (Feed.answers codec lookahead ⟨stored, .new request⟩ acts) := by
  set first : Feed := ⟨stored, .new request⟩
  have hinit : first.Sound codec request (first.answers codec lookahead acts) :=
    ⟨Subscriber.stands_new request, Subscriber.startsBy_new,
      fun {n bytes} hn => hstored n bytes hn⟩
  have hend : feed.Sound codec request (first.answers codec lookahead acts) := by
    refine run_inv (fun hs hP hstep => Feed.step_sound hs hP.1 ?_ hstep) hinit
      ((along_of_forall hsmall _).and (along_taken first acts)) h
    rintro e latest failing rfl htask
    obtain ⟨before, after, hacts, hrun⟩ := hP.2
    exact ⟨before, after, latest, failing, _, hacts, hrun, htask⟩
  exact hend.stands.isExact hend.startsBy

def liveRequest : SubscribeRequest := ⟨u64Max, 4, le_rfl, by decide⟩

/-- The blocks up to 4 are asked for, and 3 is the earliest one. The second one comes while the
session waits for it. -/
def liveStream : List FeedAct :=
  let go : FeedAct := .session (some (some 3)) (some (some 3)) false .go
  [.persist 3 (plainCodec.encode (headerBlock 3 [])), go, go, go, go, go, go,
    .persist 4 (plainCodec.encode (headerBlock 4 [])), .announce 4, go, go, go, go, go]

theorem subscriber_exact_live :
    ∃ feed, run (Feed.step plainCodec 10) ⟨fun _ => none, .new liveRequest⟩ liveStream = some feed ∧
      feed.session.sent = [.blockItems (headerBlock 3 []).items,
        .blockItems (headerBlock 4 []).items, .status .success] ∧
      feed.session.IsExact plainCodec 10 feed.stored liveRequest
        (Feed.answers plainCodec 10 ⟨fun _ => none, .new liveRequest⟩ liveStream) := by
  have hsome : ∃ feed ∈ run (Feed.step plainCodec 10) ⟨fun _ => none, .new liveRequest⟩ liveStream,
      feed.session.sent = [.blockItems (headerBlock 3 []).items,
        .blockItems (headerBlock 4 []).items, .status .success] := by decide +kernel
  obtain ⟨feed, hrun, hsent⟩ := hsome
  refine ⟨feed, hrun, hsent, subscriber_exact ?_ ?_ hrun⟩
  · intro n bytes hn
    cases hn
  · simp [liveStream, FeedAct.IsSmall, u64Max]

end RockNode
