import RockNode.BlockCache

/-!
A publisher session: `SessionManager` and the task of `publish_block_stream` around it.

The task stands still wherever it is about to touch something that other tasks can change: the
winner table, the persisted watermark, the registered sessions, the cache, a channel. Everything
between two such points is one step.
-/

namespace RockNode

inductive BlockAction where
  | accept
  | skip
  | resend
  | endBehind
  | endDuplicate
  | endError
  | badBlockProof
  deriving DecidableEq

/-- `EndOfStream.Code`, as far as a session sends it. -/
inductive EndCode where
  | error
  | behind
  | duplicateBlock
  | badBlockProof
  deriving DecidableEq

inductive Response where
  | acknowledgement (blockNumber : UInt64)
  | skipBlock (blockNumber : UInt64)
  | resendBlock (blockNumber : UInt64)
  | endStream (status : EndCode) (blockNumber : UInt64)
  deriving DecidableEq

inductive Request where
  | blockItems (set : List BlockItem)
  | endOfBlock (blockNumber : UInt64)
  | endStream (earliest latest : UInt64)
  deriving DecidableEq

/-- The settings of the publish service that its sessions read. -/
structure PublishConfig where
  maxItemsPerSet : ℕ
  winnerCleanupThreshold : ℕ

/-! ### Item sets -/

def BlockItem.header? (item : BlockItem) : Option BlockHeader :=
  match item.item with
  | some (.blockHeader header) => some header
  | _ => none

def BlockItem.isProof (item : BlockItem) : Bool :=
  match item.item with
  | some (.blockProof _) => true
  | _ => false

/-- The first pass of `handle_block_items`: the number in the first header of the set. -/
def headerNumber (set : List BlockItem) : Option Int64 :=
  (set.findSome? BlockItem.header?).map fun header => header.number.toInt64

inductive PublishError where
  | emptyBlockItems
  | tooManyItems (count max : ℕ)
  | missingBlockHeader (blockNumber : Int64)
  deriving DecidableEq

/-- `extract_block_number_from_any_item`. -/
def extractBlockNumber : Item → Option Int64
  | .blockHeader header => some header.number.toInt64
  | .blockProof proof => some proof.block.toInt64
  | _ => none

/-- `validate_block_items`. -/
def validateBlockItems (cfg : PublishConfig) (set : List BlockItem) (isNewBlock : Bool) :
    Except PublishError Unit :=
  match set with
  | [] => .error .emptyBlockItems
  | first :: _ =>
    if set.length > cfg.maxItemsPerSet then .error (.tooManyItems set.length cfg.maxItemsPerSet)
    else if isNewBlock then
      match first.item with
      | some (.blockHeader _) => .ok ()
      | some item => .error (.missingBlockHeader ((extractBlockNumber item).getD (-1)))
      | none => .error (.missingBlockHeader (-1))
    else .ok ()

/-! ### The task -/

/-- What follows a response to the session's own client. -/
inductive AfterResponse where
  | reset
  | leave
  | resend
  deriving DecidableEq

/-- What follows a message to the other sessions. -/
inductive AfterBroadcast where
  | acknowledged
  | failed
  | timedOut
  | released (rest : List ℕ)
  deriving DecidableEq

/-- Where the task of a session stands, that is what it is about to do. -/
inductive SessionTask where
  /-- wait for the next request -/
  | idle
  /-- `get_action_for_header`: load the watermark, read the winner entry, claim it -/
  | header (n : Int64) (set : List BlockItem)
  | lookup (n : Int64) (set : List BlockItem)
  | elect (n : Int64) (set : List BlockItem)
  /-- `get_action_for_currently_streaming`: read the winner entry -/
  | streaming (set : List BlockItem)
  /-- `handle_end_behind`: load the watermark once more -/
  | behind
  | respond (response : Response) (next : AfterResponse)
  /-- `complete_block`: put the block into the cache, then announce it -/
  | complete
  | handOver (key : ℕ)
  /-- `wait_for_verification_and_persistence`: subscribe to both channels, then wait -/
  | subscribe (key : ℕ)
  | subscribeAgain (key : ℕ) (failed : List BlockVerificationFailed)
  | waiting (key : ℕ) (failed : List BlockVerificationFailed) (persisted : List BlockPersisted)
  /-- store the new watermark -/
  | persisted
  /-- iterate over the registered sessions; `todo` were there at the start -/
  | broadcast (message : Response) (todo visited : List ℕ) (next : AfterBroadcast)
  /-- remove the winner entry of the block: acknowledged, failed, timed out -/
  | removeAcknowledged
  | removeFailed
  | removeTimedOut
  /-- `handle_end_stream`: load the watermark -/
  | endStream (latest : UInt64)
  /-- the end of the session: iterate over the winner entries and collect its own, of which
  `todo` were there at the start; remove what was found one by one, then unregister -/
  | leave
  | collect (todo found : List ℕ)
  | release (blocks : List ℕ)
  | gone
  /-- the task has panicked -/
  | crashed
  deriving DecidableEq

/-- A session. `received` remembers the items of the sets accepted since the last accepted
header, that header's set included; the task does not read it. -/
structure Session where
  currentBlockNumber : Int64
  currentBlockAction : Option BlockAction
  itemBuffer : List BlockItem
  task : SessionTask
  received : List BlockItem
  deriving DecidableEq

namespace Session

def new : Session := ⟨0, none, [], .idle, []⟩

/-- The task moves on. -/
def goto (session : Session) (task : SessionTask) : Session := { session with task := task }

@[simp] lemma goto_task (session : Session) (task : SessionTask) :
    (session.goto task).task = task := rfl

/-- The current number as it is reported and used as a key. -/
def blockNumber (session : Session) : UInt64 := session.currentBlockNumber.toUInt64

/-- `reset_for_next_block`, after which the session waits for the next request. -/
def resetForNextBlock (session : Session) : Session :=
  { session with
    itemBuffer := [], currentBlockNumber := 0, currentBlockAction := none, task := .idle }

/-- The item loop of `handle_accept`: the buffer, and whether a proof has completed the block.
What follows a proof in its set is dropped. -/
def acceptItems (buffer : List BlockItem) : List BlockItem → List BlockItem × Bool
  | [] => (buffer, false)
  | item :: set =>
    if item.isProof then (buffer ++ [item], true) else acceptItems (buffer ++ [item]) set

/-- `handle_accept`. -/
def handleAccept (session : Session) (set : List BlockItem) : Session :=
  let result := acceptItems session.itemBuffer set
  { session with itemBuffer := result.1, task := if result.2 then .complete else .idle }

/-- `handle_end_error`. -/
def endErrorResponse (session : Session) (action : BlockAction) : Response :=
  .endStream (if action = .badBlockProof then .badBlockProof else .error) session.blockNumber

/-- The action is stored and executed. -/
def execute (session : Session) (action : BlockAction) (set : List BlockItem) : Session :=
  let session := { session with currentBlockAction := some action }
  match action with
  | .accept => session.handleAccept set
  | .skip => session.goto (.respond (.skipBlock session.blockNumber) .reset)
  | .resend => session.goto (.respond (.resendBlock session.blockNumber) .reset)
  | .endBehind => session.goto .behind
  | .endDuplicate =>
    session.goto (.respond (.endStream .duplicateBlock session.blockNumber) .leave)
  | .endError | .badBlockProof =>
    session.goto (.respond (session.endErrorResponse action) .leave)

/-- `handle_block_items` up to the first look at shared state. -/
def handleBlockItems (cfg : PublishConfig) (session : Session) (set : List BlockItem) : Session :=
  let number := headerNumber set
  match validateBlockItems cfg set number.isSome with
  | .error _ =>
    session.goto (.respond
      (.endStream .error (number.getD session.currentBlockNumber).toUInt64) .leave)
  | .ok () =>
    match number, session.currentBlockAction with
    | some n, _ => session.goto (.header n set)
    | none, some .accept => session.goto (.streaming set)
    | none, _ => session.execute .endError set

/-- `handle_block_end`. -/
def handleBlockEnd (session : Session) (n : UInt64) : Session :=
  if session.currentBlockAction = some .accept ∧ n.toInt64 = session.currentBlockNumber then
    session.goto .complete
  else
    { session with currentBlockAction := some .endError }.goto
      (.respond (session.endErrorResponse .endError) .leave)

/-- `handle_request` up to the first look at shared state. -/
def handleRequest (cfg : PublishConfig) (session : Session) : Request → Session
  | .blockItems set => session.handleBlockItems cfg set
  | .endOfBlock n => session.handleBlockEnd n
  | .endStream _ latest => session.goto (.endStream latest)

/-- `get_action_for_header` when the watermark is loaded. -/
def onHeader (session : Session) (latest n : Int64) (set : List BlockItem) : Session :=
  if n < latest then { session with currentBlockNumber := n }.execute .endBehind set
  else if n = latest then { session with currentBlockNumber := n }.execute .endDuplicate set
  else session.goto (.lookup n set)

/-- When the winner entry has been read. -/
def onLookup (session : Session) (id : ℕ) (winner : Option ℕ) (n : Int64) (set : List BlockItem) :
    Session :=
  match winner with
  | some w =>
    if w = id then { session with currentBlockNumber := n }.execute .endDuplicate set
    else { session with currentBlockNumber := n }.execute .skip set
  | none => session.goto (.elect n set)

/-- The entry was vacant and is now the session's. -/
def onElected (session : Session) (n : Int64) (set : List BlockItem) : Session :=
  { session with currentBlockNumber := n, received := set }.execute .accept set

/-- The entry was taken in the meantime; the current number is left as it was. -/
def onOccupied (session : Session) (set : List BlockItem) : Session :=
  session.execute .skip set

/-- `get_action_for_currently_streaming`, which is only called with the current number. -/
def onStreaming (session : Session) (id : ℕ) (winner : Option ℕ) (set : List BlockItem) :
    Session :=
  match winner with
  | some w =>
    if w = id then { session with received := session.received ++ set }.execute .accept set
    else session.execute .resend set
  | none => session.execute .endError set

/-- The arithmetic of `handle_end_stream` stays in range. -/
def EndStreamInRange (latest : UInt64) (ourLatest : Int64) : Prop :=
  let limit := ourLatest.toUInt64.toNat + 100
  let gap := latest.toInt64.toInt - ourLatest.toInt
  limit ≤ u64Max ∧ (limit < latest.toNat → -2 ^ 63 ≤ gap ∧ gap < 2 ^ 63)

instance (latest : UInt64) (ourLatest : Int64) : Decidable (EndStreamInRange latest ourLatest) :=
  inferInstanceAs (Decidable (_ ∧ (_ → _ ∧ _)))

end Session

/-! ### One step of a session -/

/-- The state that sessions share, and what they hand to other tasks. -/
structure World where
  blockWinners : SortedMap ℕ ℕ
  latestPersistedBlock : Int64
  activeSessions : List ℕ
  cache : BlockDataCache
  /-- the channel to the verifier, the oldest event first -/
  itemsReceived : List BlockItemsReceived
  /-- every response with the session it was sent to, the last one first -/
  sent : List (ℕ × Response)
  now : ℕ

/-- `initialize`: the watermark is what the reader reports, or −1. -/
def World.init (latest : Option UInt64) : World :=
  ⟨.empty, latest.elim (-1) UInt64.toInt64, [], .new, [], [], 0⟩

def World.send (world : World) (id : ℕ) (response : Response) : World :=
  { world with sent := (id, response) :: world.sent }

/-- The vacant winner entry of a block is taken. -/
def World.claim (world : World) (n : UInt64) (id : ℕ) : World :=
  { world with blockWinners := world.blockWinners.put n.toNat id }

/-- The winner entry of a block is removed, whoever owns it. -/
def World.unclaim (world : World) (n : ℕ) : World :=
  { world with blockWinners := world.blockWinners.erase n }

/-- The winner entries of a session. -/
def World.winnersOf (world : World) (id : ℕ) : List ℕ :=
  (world.blockWinners.entries.filter fun e => e.2 = id).map Prod.fst

@[simp] lemma World.claim_get (world : World) (n : UInt64) (id k : ℕ) :
    (world.claim n id).blockWinners.get k =
      if k = n.toNat then some id else world.blockWinners.get k :=
  SortedMap.get_put _ _ _ _

@[simp] lemma World.unclaim_get (world : World) (n k : ℕ) :
    (world.unclaim n).blockWinners.get k = if k = n then none else world.blockWinners.get k :=
  SortedMap.get_erase _ _ _

lemma World.mem_winnersOf {world : World} {id n : ℕ} :
    n ∈ world.winnersOf id ↔ world.blockWinners.get n = some id := by
  unfold World.winnersOf
  rw [SortedMap.get_eq_some]
  simp

/-- What a session can do next; `go` where there is no choice. -/
inductive SessionAct where
  | request (request : Request)
  | hangUp
  | go
  | channelClosed
  | takeFailed
  | takePersisted
  | timeout
  | visit (target : ℕ)
  | finish
  deriving DecidableEq

namespace Session

/-- A failure is broadcast: it reaches the session once that has subscribed. -/
def deliverFailed (event : BlockVerificationFailed) (session : Session) : Session :=
  match session.task with
  | .subscribeAgain key failed => session.goto (.subscribeAgain key (failed ++ [event]))
  | .waiting key failed persisted => session.goto (.waiting key (failed ++ [event]) persisted)
  | _ => session

def deliverPersisted (event : BlockPersisted) (session : Session) : Session :=
  match session.task with
  | .waiting key failed persisted => session.goto (.waiting key failed (persisted ++ [event]))
  | _ => session

/-- What `complete_block` puts into the cache. -/
def blockData (codec : Codec) (session : Session) : BlockData :=
  ⟨session.blockNumber, codec.encode ⟨session.itemBuffer⟩⟩

/-- After the end of a broadcast. -/
def afterBroadcast : AfterBroadcast → SessionTask
  | .acknowledged => .removeAcknowledged
  | .failed => .removeFailed
  | .timedOut => .leave
  | .released rest => .release rest

/-- `ResendBlock` goes to every registered session but this one. -/
def resendOthers (world : World) (id : ℕ) (n : UInt64) (next : AfterBroadcast) : SessionTask :=
  .broadcast (.resendBlock n) (world.activeSessions.erase id) [id] next

/-- One step of the session `id`, with what it does to the shared state. -/
def step (cfg : PublishConfig) (codec : Codec) (id : ℕ) (world : World) (session : Session)
    (act : SessionAct) : Option (World × Session) :=
  match session.task, act with
  | .idle, .request request => some (world, session.handleRequest cfg request)
  | .idle, .hangUp => some (world, session.goto .leave)
  | .header n set, .go => some (world, session.onHeader world.latestPersistedBlock n set)
  | .lookup n set, .go =>
    some (world, session.onLookup id (world.blockWinners.get n.toUInt64.toNat) n set)
  | .elect n set, .go =>
    match world.blockWinners.get n.toUInt64.toNat with
    | none => some (world.claim n.toUInt64 id, session.onElected n set)
    | some _ => some (world, session.onOccupied set)
  | .streaming set, .go =>
    some (world, session.onStreaming id (world.blockWinners.get session.blockNumber.toNat) set)
  | .behind, .go =>
    some (world, session.goto
      (.respond (.endStream .behind world.latestPersistedBlock.toUInt64) .leave))
  | .respond response .reset, .go => some (world.send id response, session.resetForNextBlock)
  | .respond response .leave, .go => some (world.send id response, session.goto .leave)
  | .respond response .resend, .go =>
    some (world.send id response,
      session.goto (resendOthers world id session.blockNumber .failed))
  | .complete, .go =>
    let inserted := world.cache.insert world.now (session.blockData codec)
    some ({ world with cache := inserted.2 },
      { session with itemBuffer := [] }.goto (.handOver inserted.1))
  | .handOver key, .go =>
    some ({ world with itemsReceived := world.itemsReceived ++ [⟨session.blockNumber, key⟩] },
      session.goto (.subscribe key))
  | .handOver _, .channelClosed => some (world, session.goto .leave)
  | .subscribe key, .go => some (world, session.goto (.subscribeAgain key []))
  | .subscribeAgain key failed, .go => some (world, session.goto (.waiting key failed []))
  | .waiting key (event :: failed) persisted, .takeFailed =>
    some (world, session.goto (if event.event = ⟨session.blockNumber, key⟩ then
      .respond (session.endErrorResponse .badBlockProof) .resend
      else .waiting key failed persisted))
  | .waiting key failed (event :: persisted), .takePersisted =>
    some (world, session.goto (if event = ⟨session.blockNumber, key⟩ then .persisted
      else .waiting key failed persisted))
  -- a timeout is noticed only when neither receiver has anything left
  | .waiting _ [] [], .timeout => some (world, session.goto .removeTimedOut)
  | .persisted, .go =>
    some ({ world with latestPersistedBlock := session.blockNumber.toInt64 },
      session.goto (.broadcast (.acknowledgement session.blockNumber) world.activeSessions []
        .acknowledged))
  | .broadcast message todo visited next, .visit target =>
    if target ∈ world.activeSessions ∧ target ∉ visited then
      some (world.send target message,
        session.goto (.broadcast message todo (target :: visited) next))
    else none
  | .broadcast _ todo visited next, .finish =>
    -- a session that was there all the time has been visited
    if ∀ target ∈ todo, target ∈ world.activeSessions → target ∈ visited then
      some (world, session.goto (afterBroadcast next))
    else none
  | .removeAcknowledged, .go =>
    some (world.unclaim session.blockNumber.toNat, session.resetForNextBlock)
  | .removeFailed, .go => some (world.unclaim session.blockNumber.toNat, session.goto .leave)
  | .removeTimedOut, .go =>
    some (world.unclaim session.blockNumber.toNat,
      session.goto (resendOthers world id session.blockNumber .timedOut))
  | .endStream latest, .go =>
    some (world, session.goto
      (if EndStreamInRange latest world.latestPersistedBlock then .leave else .crashed))
  | .leave, .go => some (world, session.goto (.collect (world.winnersOf id) []))
  | .collect todo found, .visit n =>
    if world.blockWinners.get n = some id ∧ n ∉ found then
      some (world, session.goto (.collect todo (found ++ [n])))
    else none
  | .collect todo found, .finish =>
    -- an entry that was there all the time has been visited
    if ∀ n ∈ todo, world.blockWinners.get n = some id → n ∈ found then
      some (world, session.goto (.release found))
    else none
  | .release (n :: rest), .go =>
    some (world.unclaim n,
      session.goto (resendOthers world id (UInt64.ofNat n) (.released rest)))
  | .release [], .go =>
    some ({ world with activeSessions := world.activeSessions.erase id }, session.goto .gone)
  | _, _ => none

/-! ### What a step can do -/

/-- The steps of a session, each with the point of the task it starts from. -/
inductive Step (cfg : PublishConfig) (codec : Codec) (id : ℕ) (world : World) (session : Session) :
    SessionAct → World → Session → Prop
  | request {request} (here : session.task = .idle) :
    Step cfg codec id world session (.request request) world (session.handleRequest cfg request)
  | hangUp (here : session.task = .idle) :
    Step cfg codec id world session .hangUp world (session.goto .leave)
  | header {n set} (here : session.task = .header n set) :
    Step cfg codec id world session .go world (session.onHeader world.latestPersistedBlock n set)
  | lookup {n set} (here : session.task = .lookup n set) :
    Step cfg codec id world session .go world
      (session.onLookup id (world.blockWinners.get n.toUInt64.toNat) n set)
  | elected {n set} (here : session.task = .elect n set)
    (vacant : world.blockWinners.get n.toUInt64.toNat = none) :
    Step cfg codec id world session .go (world.claim n.toUInt64 id) (session.onElected n set)
  | occupied {n set w} (here : session.task = .elect n set)
    (taken : world.blockWinners.get n.toUInt64.toNat = some w) :
    Step cfg codec id world session .go world (session.onOccupied set)
  | streaming {set} (here : session.task = .streaming set) :
    Step cfg codec id world session .go world
      (session.onStreaming id (world.blockWinners.get session.blockNumber.toNat) set)
  | behind (here : session.task = .behind) :
    Step cfg codec id world session .go world (session.goto
      (.respond (.endStream .behind world.latestPersistedBlock.toUInt64) .leave))
  | respondReset {response} (here : session.task = .respond response .reset) :
    Step cfg codec id world session .go (world.send id response) session.resetForNextBlock
  | respondLeave {response} (here : session.task = .respond response .leave) :
    Step cfg codec id world session .go (world.send id response) (session.goto .leave)
  | respondResend {response} (here : session.task = .respond response .resend) :
    Step cfg codec id world session .go (world.send id response)
      (session.goto (resendOthers world id session.blockNumber .failed))
  | complete (here : session.task = .complete) :
    Step cfg codec id world session .go
      { world with cache := (world.cache.insert world.now (session.blockData codec)).2 }
      ({ session with itemBuffer := [] }.goto (.handOver world.cache.nextKey))
  | handOver {key} (here : session.task = .handOver key) :
    Step cfg codec id world session .go
      { world with itemsReceived := world.itemsReceived ++ [⟨session.blockNumber, key⟩] }
      (session.goto (.subscribe key))
  | channelClosed {key} (here : session.task = .handOver key) :
    Step cfg codec id world session .channelClosed world (session.goto .leave)
  | subscribe {key} (here : session.task = .subscribe key) :
    Step cfg codec id world session .go world (session.goto (.subscribeAgain key []))
  | subscribeAgain {key failed} (here : session.task = .subscribeAgain key failed) :
    Step cfg codec id world session .go world (session.goto (.waiting key failed []))
  | takeFailed {key event failed persisted}
    (here : session.task = .waiting key (event :: failed) persisted)
    (mine : event.event = ⟨session.blockNumber, key⟩) :
    Step cfg codec id world session .takeFailed world
      (session.goto (.respond (session.endErrorResponse .badBlockProof) .resend))
  | ignoreFailed {key event failed persisted}
    (here : session.task = .waiting key (event :: failed) persisted)
    (other : event.event ≠ ⟨session.blockNumber, key⟩) :
    Step cfg codec id world session .takeFailed world
      (session.goto (.waiting key failed persisted))
  | takePersisted {key event failed persisted}
    (here : session.task = .waiting key failed (event :: persisted))
    (mine : event = ⟨session.blockNumber, key⟩) :
    Step cfg codec id world session .takePersisted world (session.goto .persisted)
  | ignorePersisted {key event failed persisted}
    (here : session.task = .waiting key failed (event :: persisted))
    (other : event ≠ ⟨session.blockNumber, key⟩) :
    Step cfg codec id world session .takePersisted world
      (session.goto (.waiting key failed persisted))
  | timeout {key} (here : session.task = .waiting key [] []) :
    Step cfg codec id world session .timeout world (session.goto .removeTimedOut)
  | storeLatest (here : session.task = .persisted) :
    Step cfg codec id world session .go
      { world with latestPersistedBlock := session.blockNumber.toInt64 }
      (session.goto (.broadcast (.acknowledgement session.blockNumber) world.activeSessions []
        .acknowledged))
  | visit {message todo visited next target}
    (here : session.task = .broadcast message todo visited next)
    (active : target ∈ world.activeSessions) (fresh : target ∉ visited) :
    Step cfg codec id world session (.visit target) (world.send target message)
      (session.goto (.broadcast message todo (target :: visited) next))
  | finish {message todo visited next}
    (here : session.task = .broadcast message todo visited next)
    (all : ∀ target ∈ todo, target ∈ world.activeSessions → target ∈ visited) :
    Step cfg codec id world session .finish world (session.goto (afterBroadcast next))
  | removeAcknowledged (here : session.task = .removeAcknowledged) :
    Step cfg codec id world session .go (world.unclaim session.blockNumber.toNat)
      session.resetForNextBlock
  | removeFailed (here : session.task = .removeFailed) :
    Step cfg codec id world session .go (world.unclaim session.blockNumber.toNat)
      (session.goto .leave)
  | removeTimedOut (here : session.task = .removeTimedOut) :
    Step cfg codec id world session .go (world.unclaim session.blockNumber.toNat)
      (session.goto (resendOthers world id session.blockNumber .timedOut))
  | endStream {latest} (here : session.task = .endStream latest)
    (inRange : EndStreamInRange latest world.latestPersistedBlock) :
    Step cfg codec id world session .go world (session.goto .leave)
  | crash {latest} (here : session.task = .endStream latest)
    (outOfRange : ¬ EndStreamInRange latest world.latestPersistedBlock) :
    Step cfg codec id world session .go world (session.goto .crashed)
  | leave (here : session.task = .leave) :
    Step cfg codec id world session .go world (session.goto (.collect (world.winnersOf id) []))
  | collect {todo found n} (here : session.task = .collect todo found)
    (own : world.blockWinners.get n = some id) (fresh : n ∉ found) :
    Step cfg codec id world session (.visit n) world
      (session.goto (.collect todo (found ++ [n])))
  | collected {todo found} (here : session.task = .collect todo found)
    (all : ∀ n ∈ todo, world.blockWinners.get n = some id → n ∈ found) :
    Step cfg codec id world session .finish world (session.goto (.release found))
  | release {n rest} (here : session.task = .release (n :: rest)) :
    Step cfg codec id world session .go (world.unclaim n)
      (session.goto (resendOthers world id (UInt64.ofNat n) (.released rest)))
  | unregister (here : session.task = .release []) :
    Step cfg codec id world session .go
      { world with activeSessions := world.activeSessions.erase id } (session.goto .gone)

/-- **The step function, read backwards.** -/
theorem step_cases {cfg : PublishConfig} {codec : Codec} {id : ℕ} {world world' : World}
    {session session' : Session} {act : SessionAct}
    (h : session.step cfg codec id world act = some (world', session')) :
    Step cfg codec id world session act world' session' := by
  unfold step at h
  -- an act that does not fit where the task stands has no result
  cases here : session.task with
  | idle =>
    rw [here] at h
    cases act with
    | request request => cases h; exact .request here
    | hangUp => cases h; exact .hangUp here
    | _ => cases h
  | header n set => rw [here] at h; cases act <;> cases h; exact .header here
  | lookup n set => rw [here] at h; cases act <;> cases h; exact .lookup here
  | elect n set =>
    rw [here] at h
    cases act with
    | go =>
      dsimp only at h
      split at h
      · next vacant => cases h; exact .elected here vacant
      · next taken => cases h; exact .occupied here taken
    | _ => cases h
  | streaming set => rw [here] at h; cases act <;> cases h; exact .streaming here
  | behind => rw [here] at h; cases act <;> cases h; exact .behind here
  | respond response next =>
    rw [here] at h
    cases next with
    | reset => cases act <;> cases h; exact .respondReset here
    | leave => cases act <;> cases h; exact .respondLeave here
    | resend => cases act <;> cases h; exact .respondResend here
  | complete => rw [here] at h; cases act <;> cases h; exact .complete here
  | handOver key =>
    rw [here] at h
    cases act with
    | go => cases h; exact .handOver here
    | channelClosed => cases h; exact .channelClosed here
    | _ => cases h
  | subscribe key => rw [here] at h; cases act <;> cases h; exact .subscribe here
  | subscribeAgain key failed => rw [here] at h; cases act <;> cases h; exact .subscribeAgain here
  | waiting key failed persisted =>
    rw [here] at h
    cases act with
    | takeFailed =>
      cases failed with
      | nil => cases persisted <;> cases h
      | cons event failed =>
        cases h
        split_ifs with mine
        · exact .takeFailed here mine
        · exact .ignoreFailed here mine
    | takePersisted =>
      cases persisted with
      | nil => cases failed <;> cases h
      | cons event persisted =>
        obtain ⟨rfl, rfl⟩ : world = world' ∧ session.goto (if event = ⟨session.blockNumber, key⟩
            then .persisted else .waiting key failed persisted) = session' := by
          cases failed <;> cases h <;> exact ⟨rfl, rfl⟩
        split_ifs with mine
        · exact .takePersisted here mine
        · exact .ignorePersisted here mine
    | timeout => cases failed <;> cases persisted <;> cases h; exact .timeout here
    | _ => cases failed <;> cases persisted <;> cases h
  | persisted => rw [here] at h; cases act <;> cases h; exact .storeLatest here
  | broadcast message todo visited next =>
    rw [here] at h
    cases act with
    | visit target =>
      dsimp only at h
      split_ifs at h with hvisit
      cases h
      exact .visit here hvisit.1 hvisit.2
    | finish =>
      dsimp only at h
      split_ifs at h with hall
      cases h
      exact .finish here hall
    | _ => cases h
  | removeAcknowledged => rw [here] at h; cases act <;> cases h; exact .removeAcknowledged here
  | removeFailed => rw [here] at h; cases act <;> cases h; exact .removeFailed here
  | removeTimedOut => rw [here] at h; cases act <;> cases h; exact .removeTimedOut here
  | endStream latest =>
    rw [here] at h
    cases act <;> cases h
    split_ifs with hrange
    · exact .endStream here hrange
    · exact .crash here hrange
  | leave => rw [here] at h; cases act <;> cases h; exact .leave here
  | collect todo found =>
    rw [here] at h
    cases act with
    | visit n =>
      dsimp only at h
      split_ifs at h with hown
      cases h
      exact .collect here hown.1 hown.2
    | finish =>
      dsimp only at h
      split_ifs at h with hall
      cases h
      exact .collected here hall
    | _ => cases h
  | release blocks =>
    rw [here] at h
    cases blocks with
    | nil => cases act <;> cases h; exact .unregister here
    | cons n rest => cases act <;> cases h; exact .release here
  | gone => rw [here] at h; cases act <;> cases h
  | crashed => rw [here] at h; cases act <;> cases h

/-- **The step function, read forwards.** -/
theorem Step.step_eq {cfg : PublishConfig} {codec : Codec} {id : ℕ} {world world' : World}
    {session session' : Session} {act : SessionAct}
    (h : Step cfg codec id world session act world' session') :
    session.step cfg codec id world act = some (world', session') := by
  unfold step
  cases h with
  | elected here vacant => rw [here]; dsimp only; rw [vacant]
  | occupied here taken => rw [here]; dsimp only; rw [taken]
  | complete here => rw [here]; rfl
  | takeFailed here mine => rw [here]; dsimp only; rw [if_pos mine]
  | ignoreFailed here other => rw [here]; dsimp only; rw [if_neg other]
  -- the order of the patterns asks for the failures first
  | @takePersisted key event failed persisted here mine =>
    rw [here]
    cases failed <;> dsimp only <;> rw [if_pos mine]
  | @ignorePersisted key event failed persisted here other =>
    rw [here]
    cases failed <;> dsimp only <;> rw [if_neg other]
  | visit here active fresh => rw [here]; exact if_pos ⟨active, fresh⟩
  | finish here all => rw [here]; exact if_pos all
  | endStream here inRange => rw [here]; dsimp only; rw [if_pos inRange]
  | crash here outOfRange => rw [here]; dsimp only; rw [if_neg outOfRange]
  | collect here own fresh => rw [here]; exact if_pos ⟨own, fresh⟩
  | collected here all => rw [here]; exact if_pos all
  | _ here => rw [here]

/-- What an event can do to a session: a session that listens has other events to look at. -/
inductive Hears (session : Session) : Session → Prop where
  | nothing : Hears session session
  | failed {key failed failed'} (here : session.task = .subscribeAgain key failed) :
    Hears session (session.goto (.subscribeAgain key failed'))
  | either {key failed persisted failed' persisted'}
    (here : session.task = .waiting key failed persisted) :
    Hears session (session.goto (.waiting key failed' persisted'))

lemma deliverFailed_hears {session : Session} (event : BlockVerificationFailed) :
    session.Hears (session.deliverFailed event) := by
  unfold deliverFailed
  split
  · next here => exact .failed here
  · next here => exact .either here
  · exact .nothing

lemma deliverPersisted_hears {session : Session} (event : BlockPersisted) :
    session.Hears (session.deliverPersisted event) := by
  unfold deliverPersisted
  split
  · next here => exact .either here
  · exact .nothing

end Session

end RockNode
