import RockNode.Assembly
import RockNode.SignedNumbers

/-!
How a publisher's sets reach a session.

The publisher sends the items of a block in sets. The session takes each set through the steps of
`handle_request`, and everything else may go on in between. As long as nobody comes before the
session at the election and nobody takes the winner entry away from it, the block that it hands
over is the items in their order, however they were cut into sets.
-/

namespace RockNode

/-! ### The session's part -/

/-- The step is one of the session itself. -/
def AssemblyAct.session? : AssemblyAct → Option SessionAct
  | .own act => some act
  | _ => none

/-- A set with the header: the watermark, the winner entry and the election. -/
def headerTurn (set : List BlockItem) : List SessionAct :=
  [.request (.blockItems set), .go, .go, .go]

/-- A set that continues a block: the winner entry. -/
def itemsTurn (set : List BlockItem) : List SessionAct := [.request (.blockItems set), .go]

/-- The sets of one block. -/
def turns : List (List BlockItem) → List SessionAct
  | [] => []
  | first :: rest => headerTurn first ++ rest.flatMap itemsTurn

/-! ### What happens to a request -/

namespace Session

variable {session : Session} {cfg : PublishConfig} {set : List BlockItem}

lemma headerNumber_eq_none (h : ∀ item ∈ set, item.header? = none) : headerNumber set = none := by
  rw [headerNumber, List.findSome?_eq_none_iff.mpr h]
  rfl

lemma validate_header {first : BlockItem} {header : BlockHeader} {rest : List BlockItem}
    (hfirst : first.header? = some header) (hsize : (first :: rest).length ≤ cfg.maxItemsPerSet) :
    validateBlockItems cfg (first :: rest) true = .ok () := by
  have hitem : first.item = some (.blockHeader header) := by
    unfold BlockItem.header? at hfirst
    split at hfirst
    · next heq =>
      cases hfirst
      exact heq
    · cases hfirst
  simp only [validateBlockItems, if_neg (Nat.not_lt.mpr hsize), if_true, hitem]

lemma validate_items (hne : set ≠ []) (hsize : set.length ≤ cfg.maxItemsPerSet) :
    validateBlockItems cfg set false = .ok () := by
  cases set with
  | nil => exact absurd rfl hne
  | cons first rest =>
    simp only [validateBlockItems, if_neg (Nat.not_lt.mpr hsize), Bool.false_eq_true, if_false]

lemma handleBlockItems_header {first : BlockItem} {header : BlockHeader} {rest : List BlockItem}
    (hfirst : first.header? = some header) (hsize : (first :: rest).length ≤ cfg.maxItemsPerSet) :
    session.handleBlockItems cfg (first :: rest) =
      session.goto (.header header.number.toInt64 (first :: rest)) := by
  have hnumber : headerNumber (first :: rest) = some header.number.toInt64 := by
    simp [headerNumber, hfirst]
  simp only [handleBlockItems, hnumber, Option.isSome_some, validate_header hfirst hsize]

/-- Without a header it depends on what the session is doing. -/
lemma handleBlockItems_items (hne : set ≠ []) (hsize : set.length ≤ cfg.maxItemsPerSet)
    (hnone : ∀ item ∈ set, item.header? = none) :
    session.handleBlockItems cfg set =
      if session.currentBlockAction = some .accept then session.goto (.streaming set)
      else session.execute .endError set := by
  simp only [handleBlockItems, headerNumber_eq_none hnone, Option.isSome_none,
    validate_items hne hsize]
  rcases session.currentBlockAction with _ | action
  · rfl
  · cases action <;> rfl

/-- A header above the watermark goes on to the winner table. -/
lemma onHeader_ahead {latest n : Int64} (h : latest < n) :
    session.onHeader latest n set = session.goto (.lookup n set) := by
  rw [Int64.lt_iff_toInt_lt] at h
  have hbehind : ¬ n < latest := by rw [Int64.lt_iff_toInt_lt]; omega
  have hsame : n ≠ latest := by rintro rfl; omega
  rw [onHeader, if_neg hbehind, if_neg hsame]

end Session

/-! ### A block in sets -/

/-- Items of which the last one, and no other, is a proof. -/
def ProofLast (items : List BlockItem) : Prop :=
  ∃ body last, items = body ++ [last] ∧ body.any BlockItem.isProof = false ∧ last.isProof = true

/-- The items of block `n`: its header, items that are neither headers nor proofs, its proof. -/
def WholeBlock (n : UInt64) (items : List BlockItem) : Prop :=
  ∃ first header middle last, items = first :: (middle ++ [last]) ∧
    first.header? = some header ∧ header.number = n ∧
    (∀ item ∈ middle, item.header? = none ∧ item.isProof = false) ∧ last.isProof = true

lemma WholeBlock.proofLast {n : UInt64} {items : List BlockItem} (h : WholeBlock n items) :
    ProofLast items := by
  obtain ⟨first, header, middle, last, rfl, hfirst, -, hmiddle, hlast⟩ := h
  refine ⟨first :: middle, last, rfl, ?_, hlast⟩
  rw [List.any_cons, BlockItem.isProof_of_header hfirst, Bool.false_or, List.any_eq_false]
  exact fun item hitem => by simp [(hmiddle item hitem).2]

lemma WholeBlock.tail {n : UInt64} {items : List BlockItem} (h : WholeBlock n items) :
    ∀ item ∈ items.tail, item.header? = none := by
  obtain ⟨first, header, middle, last, rfl, -, -, hmiddle, hlast⟩ := h
  intro item hitem
  rcases List.mem_append.mp hitem with hitem | hitem
  · exact (hmiddle item hitem).1
  · cases List.mem_singleton.mp hitem
    rcases hheader : last.header? with _ | header
    · rfl
    · rw [BlockItem.isProof_of_header hheader] at hlast
      cases hlast

/-- Once some of the block has been sent, no header is left. -/
lemma WholeBlock.later {n : UInt64} {items buffer set : List BlockItem}
    {sets : List (List BlockItem)} (h : WholeBlock n items)
    (hsplit : buffer ++ (set :: sets).flatten = items) (hstarted : buffer ≠ []) :
    ∀ item ∈ set, item.header? = none := by
  intro item hitem
  refine h.tail item ?_
  rw [← hsplit, List.tail_append_of_ne_nil hstarted]
  exact List.mem_append_right _ (List.mem_append_left _ hitem)

/-- Sets that the session takes: none is empty or too large. -/
def Sized (cfg : PublishConfig) (sets : List (List BlockItem)) : Prop :=
  ∀ set ∈ sets, set ≠ [] ∧ set.length ≤ cfg.maxItemsPerSet

lemma Sized.flatten_ne_nil {cfg : PublishConfig} {sets : List (List BlockItem)}
    (h : Sized cfg sets) (hne : sets ≠ []) : sets.flatten ≠ [] := by
  cases sets with
  | nil => exact absurd rfl hne
  | cons set sets =>
    rw [List.flatten_cons]
    exact List.append_ne_nil_of_left_ne_nil (h set List.mem_cons_self).1 _

/-- A set of the block completes it if no set follows, and only then. -/
lemma acceptItems_of_split {cfg : PublishConfig} {items buffer set : List BlockItem}
    {sets : List (List BlockItem)} (hitems : ProofLast items)
    (hsplit : buffer ++ (set :: sets).flatten = items) (hsized : Sized cfg (set :: sets)) :
    Session.acceptItems buffer set = (buffer ++ set, sets.isEmpty) := by
  obtain ⟨body, last, rfl, hbody, hlast⟩ := hitems
  rw [acceptItems_eq]
  rw [List.flatten_cons] at hsplit
  rcases sets with _ | ⟨next, sets⟩
  · obtain ⟨front, final, rfl⟩ := List.eq_nil_or_concat set |>.resolve_left
      (hsized set List.mem_cons_self).1
    simp only [List.flatten_nil, List.append_nil, List.concat_eq_append,
      ← List.append_assoc] at hsplit ⊢
    obtain ⟨rfl, heq⟩ := List.append_inj' hsplit rfl
    cases heq
    have hfront : front.any BlockItem.isProof = false := by
      rw [List.any_append, Bool.or_eq_false_iff] at hbody
      exact hbody.2
    rw [upToProof_append hfront, List.any_append, hfront]
    simp [upToProof, hlast]
  · have hrest : Sized cfg (next :: sets) := fun s hs => hsized s (List.mem_cons_of_mem _ hs)
    obtain ⟨front, final, hfinal⟩ := List.eq_nil_or_concat (next :: sets).flatten |>.resolve_left
      (hrest.flatten_ne_nil (List.cons_ne_nil _ _))
    rw [hfinal, List.concat_eq_append, ← List.append_assoc, ← List.append_assoc] at hsplit
    obtain ⟨rfl, -⟩ := List.append_inj' hsplit rfl
    have hset : set.any BlockItem.isProof = false := by
      simp only [List.any_append, Bool.or_eq_false_iff] at hbody
      exact hbody.1.2
    rw [upToProof_eq_self hset, hset]
    rfl

/-! ### From the header to the announcement -/

/-- What a session gives to the pipeline: the block in the cache, and the event that names it. -/
inductive HandOver where
  | cached (key : ℕ) (block : BlockData)
  | announced (event : BlockItemsReceived)
  deriving DecidableEq

/-- What a step gives to the pipeline. -/
def handOvers (codec : Codec) (state : World × Session) : AssemblyAct → List HandOver
  | .own .go =>
    match state.2.task with
    | .complete => [.cached state.1.cache.nextKey (state.2.blockData codec)]
    | .handOver key => [.announced ⟨state.2.blockNumber, key⟩]
    | _ => []
  | _ => []

/-- The block that was put under a key. -/
def HandOver.blockUnder (key : ℕ) : HandOver → Option BlockData
  | .cached key' block => if key = key' then some block else none
  | .announced _ => none

def HandOver.event? : HandOver → Option BlockItemsReceived
  | .cached _ _ => none
  | .announced event => some event

/-- **The record is what the pipeline has.** After a step of the session the cache holds the block
on record under its key, with everything else as it was, and the channel has got the events on
record. -/
lemma handOvers_spec {cfg : PublishConfig} {codec : Codec} {id : ℕ} {world world' : World}
    {session session' : Session} {act : SessionAct}
    (hstep : session.step cfg codec id world act = some (world', session')) :
    (∀ key, world'.cache.get key =
      ((handOvers codec (world, session) (.own act)).findSome? (HandOver.blockUnder key)).or
        (world.cache.get key)) ∧
    world'.itemsReceived = world.itemsReceived ++
      (handOvers codec (world, session) (.own act)).filterMap HandOver.event? := by
  cases Session.step_cases hstep with
  | complete here =>
    simp only [handOvers, here]
    refine ⟨fun key => ?_, (List.append_nil _).symm⟩
    rw [BlockDataCache.get_insert, List.findSome?_singleton, HandOver.blockUnder]
    split <;> rfl
  | handOver here =>
    simp only [handOvers, here]
    exact ⟨fun _ => rfl, rfl⟩
  | request | hangUp | channelClosed | takeFailed | ignoreFailed | takePersisted
  | ignorePersisted | timeout | visit | finish | collect | collected =>
    exact ⟨fun _ => rfl, (List.append_nil _).symm⟩
  | header here | lookup here | elected here | occupied here | streaming here | behind here
  | respondReset here | respondLeave here | respondResend here | subscribe here
  | subscribeAgain here | storeLatest here | removeAcknowledged here | removeFailed here
  | removeTimedOut here | endStream here | crash here | leave here | release here
  | unregister here =>
    simp only [handOvers, here]
    exact ⟨fun _ => rfl, (List.append_nil _).symm⟩

/-- The acts after a set of the block when `sets` are still to come. -/
def closing (sets : List (List BlockItem)) : List SessionAct := sets.flatMap itemsTurn ++ [.go, .go]

/-- What a session can rely on: `A` until it is elected for the block, `B` from then on. -/
structure Ground (id : ℕ) (n : UInt64) (A B : World → Prop) : Prop where
  ahead : ∀ {world}, A world → world.latestPersistedBlock < n.toInt64
  vacant : ∀ {world}, A world → world.blockWinners.get n.toNat = none
  elected : ∀ {world}, A world → B (world.claim n id)
  owned : ∀ {world}, B world → world.blockWinners.get n.toNat = some id
  cached : ∀ {world} cache, B world → B { world with cache := cache }
  announced : ∀ {world} events, B world → B { world with itemsReceived := events }

/-- The others leave the session what it relies on. -/
def Keeps (A B : World → Prop) (state : World × Session) : AssemblyAct → Prop
  | .interfere world => (A state.1 → A world) ∧ (B state.1 → B world)
  | _ => True

instance Keeps.decidable {A B : World → Prop} [DecidablePred A] [DecidablePred B]
    (state : World × Session) : ∀ act, Decidable (Keeps A B state act)
  | .own _ => isTrue trivial
  | .interfere _ => inferInstanceAs (Decidable ((_ → _) ∧ (_ → _)))
  | .failed _ => isTrue trivial
  | .persisted _ => isTrue trivial

/-- The session has the items so far and waits for the next set, or the block is complete. -/
structure Session.Fed (n : UInt64) (items : List BlockItem) (sets : List (List BlockItem))
    (session : Session) : Prop where
  task : session.task = if sets.isEmpty then .complete else .idle
  accept : session.currentBlockAction = some .accept
  number : session.blockNumber = n
  started : session.itemBuffer ≠ []
  split : session.itemBuffer ++ sets.flatten = items

section

variable (cfg : PublishConfig) (codec : Codec) (n : UInt64) (items : List BlockItem)

/-- Before the election: `script` is what the session has before it. -/
inductive Opening (script : List SessionAct) (session : Session) : Prop
  | idle {sets} (script_eq : script = turns sets ++ [.go, .go]) (here : session.task = .idle)
    (empty : session.itemBuffer = []) (split : sets.flatten = items) (sized : Sized cfg sets)
  | header {set sets} (script_eq : script = .go :: .go :: .go :: closing sets)
    (here : session.task = .header n.toInt64 set) (empty : session.itemBuffer = [])
    (split : (set :: sets).flatten = items) (sized : Sized cfg (set :: sets))
  | lookup {set sets} (script_eq : script = .go :: .go :: closing sets)
    (here : session.task = .lookup n.toInt64 set) (empty : session.itemBuffer = [])
    (split : (set :: sets).flatten = items) (sized : Sized cfg (set :: sets))
  | elect {set sets} (script_eq : script = .go :: closing sets)
    (here : session.task = .elect n.toInt64 set) (empty : session.itemBuffer = [])
    (split : (set :: sets).flatten = items) (sized : Sized cfg (set :: sets))

/-- From the election on, with what the session has given to the pipeline. -/
inductive Going (script : List SessionAct) (session : Session) : List HandOver → Prop
  | fed {sets} (script_eq : script = closing sets) (fed : session.Fed n items sets)
    (sized : Sized cfg sets) : Going script session []
  | streaming {set sets} (script_eq : script = .go :: closing sets)
    (here : session.task = .streaming set) (number : session.blockNumber = n)
    (started : session.itemBuffer ≠ [])
    (split : session.itemBuffer ++ (set :: sets).flatten = items)
    (sized : Sized cfg (set :: sets)) : Going script session []
  | handOver {key} (script_eq : script = [.go]) (here : session.task = .handOver key)
    (number : session.blockNumber = n) :
    Going script session [.cached key ⟨n, codec.encode ⟨items⟩⟩]
  | handed {key} (script_eq : script = []) (here : session.task = .subscribe key)
    (number : session.blockNumber = n) :
    Going script session [.cached key ⟨n, codec.encode ⟨items⟩⟩, .announced ⟨n, key⟩]

variable (A B : World → Prop)

/-- Where a session stands with the block. -/
inductive Feeding (script : List SessionAct) : (World × Session) × List HandOver → Prop
  | before {world session} (ground : A world) (stage : Opening cfg n items script session) :
    Feeding script ((world, session), [])
  | after {world session log} (ground : B world)
    (stage : Going cfg codec n items script session log) : Feeding script ((world, session), log)

end

namespace Session

/-- The session is not listening to the pipeline. -/
def Deaf (session : Session) : Prop :=
  (∀ key failed, session.task ≠ .subscribeAgain key failed) ∧
    ∀ key failed persisted, session.task ≠ .waiting key failed persisted

lemma Hears.eq_of_deaf {session session' : Session} (h : session.Hears session')
    (hdeaf : session.Deaf) : session' = session := by
  cases h with
  | nothing => rfl
  | failed here => exact absurd here (hdeaf.1 _ _)
  | either here => exact absurd here (hdeaf.2 _ _ _)

end Session

section

variable {cfg : PublishConfig} {codec : Codec} {n : UInt64} {items : List BlockItem} {id : ℕ}
  {script : List SessionAct} {session : Session} {world : World} {log : List HandOver}

lemma Opening.deaf (h : Opening cfg n items script session) : session.Deaf := by
  cases h <;> constructor <;> simp_all

lemma Going.deaf (h : Going cfg codec n items script session log) : session.Deaf := by
  cases h with
  | @fed sets _ fed =>
    constructor <;> rw [fed.task] <;> split <;> simp
  | _ => constructor <;> simp_all

variable {A B : World → Prop} {state : (World × Session) × List HandOver}

lemma Feeding.deaf (h : Feeding cfg codec n items A B script state) : state.1.2.Deaf := by
  cases h with
  | before _ stage => exact stage.deaf
  | after _ stage => exact stage.deaf

/-- The steps of the others. -/
lemma Feeding.others {act : AssemblyAct} (h : Feeding cfg codec n items A B script state)
    (hkeeps : Keeps A B state.1 act) (hact : act.session? = none) :
    ∃ state', recorded (assemblyStep cfg codec id) (handOvers codec) state act = some state' ∧
      Feeding cfg codec n items A B script state' := by
  cases act with
  | own act => cases hact
  | interfere world =>
    refine ⟨((world, state.1.2), state.2), by simp [recorded, assemblyStep, handOvers], ?_⟩
    cases h with
    | before ground stage => exact .before (hkeeps.1 ground) stage
    | after ground stage => exact .after (hkeeps.2 ground) stage
  | failed event =>
    have hsame := (Session.deliverFailed_hears event).eq_of_deaf h.deaf
    exact ⟨state, by simp [recorded, assemblyStep, handOvers, hsame], h⟩
  | persisted event =>
    have hsame := (Session.deliverPersisted_hears event).eq_of_deaf h.deaf
    exact ⟨state, by simp [recorded, assemblyStep, handOvers, hsame], h⟩

/-- The set with the header is taken. -/
lemma step_request_header {set : List BlockItem} {sets : List (List BlockItem)}
    (hidle : session.task = .idle) (hblock : WholeBlock n (set :: sets).flatten)
    (hsized : Sized cfg (set :: sets)) :
    session.step cfg codec id world (.request (.blockItems set)) =
      some (world, session.goto (.header n.toInt64 set)) := by
  obtain ⟨hne, hsize⟩ := hsized set List.mem_cons_self
  obtain ⟨first, header, middle, last, hitems, hfirst, rfl, -⟩ := hblock
  rcases set with _ | ⟨item, set⟩
  · exact absurd rfl hne
  · obtain ⟨rfl, -⟩ := List.cons.inj hitems
    rw [(Session.Step.request hidle).step_eq, Session.handleRequest,
      Session.handleBlockItems_header hfirst hsize]

/-- A set of the block is accepted. -/
lemma handleAccept_fed {set : List BlockItem} {sets : List (List BlockItem)}
    (hitems : ProofLast items) (hsplit : session.itemBuffer ++ (set :: sets).flatten = items)
    (hsized : Sized cfg (set :: sets)) (haccept : session.currentBlockAction = some .accept)
    (hnumber : session.blockNumber = n) : (session.handleAccept set).Fed n items sets := by
  have haccepted := acceptItems_of_split hitems hsplit hsized
  refine ⟨?_, haccept, hnumber, ?_, ?_⟩
  · simp only [Session.handleAccept, haccepted]
  · simp only [Session.handleAccept, haccepted]
    exact List.append_ne_nil_of_right_ne_nil _ (hsized set List.mem_cons_self).1
  · simp only [Session.handleAccept, haccepted]
    rwa [List.flatten_cons, ← List.append_assoc] at hsplit

/-- The session's own steps up to its election. -/
lemma Opening.turn (codec : Codec) {act : SessionAct} (hground : Ground id n A B)
    (hblock : WholeBlock n items) (hA : A world) (h : Opening cfg n items (act :: script) session) :
    ∃ state, session.step cfg codec id world act = some state ∧
      handOvers codec (world, session) (.own act) = [] ∧
      Feeding cfg codec n items A B script (state, []) := by
  have hnumber : n.toInt64.toUInt64 = n := by simp
  cases h with
  | @idle sets script_eq here empty split sized =>
    subst split
    rcases sets with _ | ⟨set, sets⟩
    · obtain ⟨_, _, _, _, hnil, -⟩ := hblock
      cases hnil
    · cases script_eq
      exact ⟨_, step_request_header here hblock sized, rfl,
        .before hA (.header rfl rfl empty rfl sized)⟩
  | @header set sets script_eq here empty split sized =>
    cases script_eq
    refine ⟨(world, session.goto (.lookup n.toInt64 set)), ?_, by simp [handOvers, here],
      .before hA (.lookup rfl rfl empty split sized)⟩
    rw [(Session.Step.header here).step_eq, Session.onHeader_ahead (hground.ahead hA)]
  | @lookup set sets script_eq here empty split sized =>
    cases script_eq
    refine ⟨(world, session.goto (.elect n.toInt64 set)), ?_, by simp [handOvers, here],
      .before hA (.elect rfl rfl empty split sized)⟩
    rw [(Session.Step.lookup here).step_eq, hnumber, hground.vacant hA, Session.onLookup]
  | @elect set sets script_eq here empty split sized =>
    cases script_eq
    refine ⟨(world.claim n id, session.onElected n.toInt64 set), ?_, by simp [handOvers, here],
      .after (hground.elected hA) (.fed rfl ?_ fun s hs => sized s (List.mem_cons_of_mem _ hs))⟩
    · have hvacant : world.blockWinners.get n.toInt64.toUInt64.toNat = none := by
        rw [hnumber, hground.vacant hA]
      rw [(Session.Step.elected here hvacant).step_eq, hnumber]
    · exact handleAccept_fed hblock.proofLast (by simpa [empty] using split) sized rfl hnumber

/-- The session's own steps from its election on. -/
lemma Going.turn {act : SessionAct} (hground : Ground id n A B) (hblock : WholeBlock n items)
    (hB : B world) (h : Going cfg codec n items (act :: script) session log) :
    ∃ state, session.step cfg codec id world act = some state ∧
      Feeding cfg codec n items A B script
        (state, log ++ handOvers codec (world, session) (.own act)) := by
  cases h with
  | @fed sets script_eq fed sized =>
    obtain ⟨here, accept, number, started, split⟩ := fed
    rcases sets with _ | ⟨set, sets⟩
    · cases script_eq
      rw [List.flatten_nil, List.append_nil] at split
      have hdata : session.blockData codec = ⟨n, codec.encode ⟨items⟩⟩ := by
        rw [Session.blockData, number, split]
      refine ⟨_, (Session.Step.complete here).step_eq, ?_⟩
      simp only [handOvers, here, hdata, List.nil_append]
      exact .after (hground.cached _ hB) (.handOver rfl rfl number)
    · cases script_eq
      have hidle : session.task = .idle := here
      obtain ⟨hne, hsize⟩ := sized set List.mem_cons_self
      refine ⟨(world, session.goto (.streaming set)), ?_,
        .after hB (.streaming rfl rfl number started split sized)⟩
      rw [(Session.Step.request hidle).step_eq, Session.handleRequest,
        Session.handleBlockItems_items hne hsize (hblock.later split started), accept, if_pos rfl]
  | @streaming set sets script_eq here number started split sized =>
    cases script_eq
    refine ⟨_, (Session.Step.streaming here).step_eq, ?_⟩
    simp only [handOvers, here, List.append_nil, number, hground.owned hB, Session.onStreaming,
      if_true]
    refine .after hB (.fed rfl ?_ fun s hs => sized s (List.mem_cons_of_mem _ hs))
    exact handleAccept_fed hblock.proofLast split sized rfl number
  | @handOver key script_eq here number =>
    cases script_eq
    refine ⟨_, (Session.Step.handOver here).step_eq, ?_⟩
    simp only [handOvers, here, number]
    exact .after (hground.announced _ hB) (.handed rfl rfl number)
  | handed script_eq => cases script_eq

/-- **The session follows its script**, whatever the others do that leaves it its ground. -/
lemma feeding_follows (hground : Ground id n A B) (hblock : WholeBlock n items) :
    Follows (recorded (assemblyStep cfg codec id) (handOvers codec))
      (fun state act => Keeps A B state.1 act) AssemblyAct.session?
      (Feeding cfg codec n items A B) where
  others h hkeeps hact := h.others hkeeps hact
  turn {rest state act own} h _ hact := by
    cases act with
    | own act =>
      cases hact
      cases h with
      | before ground stage =>
        obtain ⟨s, hstep, hlog, hnext⟩ := stage.turn codec hground hblock ground
        exact ⟨(s, []), by simp [recorded, assemblyStep, hstep, hlog], hnext⟩
      | after ground stage =>
        obtain ⟨s, hstep, hnext⟩ := stage.turn hground hblock ground
        exact ⟨_, by simp [recorded, assemblyStep, hstep], hnext⟩
    | _ => cases hact

/-- Before a request the session is idle and has given nothing to the pipeline. -/
lemma Feeding.idle_of_request {request : Request}
    (h : Feeding cfg codec n items A B (.request request :: script) state) :
    state.1.2.task = .idle ∧ state.2 = [] := by
  cases h with
  | before _ stage =>
    cases stage with
    | idle _ here => exact ⟨here, rfl⟩
    | header script_eq => cases script_eq
    | lookup script_eq => cases script_eq
    | elect script_eq => cases script_eq
  | after _ stage =>
    cases stage with
    | @fed sets script_eq fed =>
      rcases sets with _ | ⟨set, sets⟩
      · cases script_eq
      · exact ⟨fed.task, rfl⟩
    | streaming script_eq => cases script_eq
    | handOver script_eq => cases script_eq
    | handed script_eq => cases script_eq

/-- At the end of its script it has handed the block over. -/
lemma Feeding.handed_of_nil (h : Feeding cfg codec n items A B [] state) :
    B state.1.1 ∧ state.1.2.blockNumber = n ∧ ∃ key, state.1.2.task = .subscribe key ∧
      state.2 = [.cached key ⟨n, codec.encode ⟨items⟩⟩, .announced ⟨n, key⟩] := by
  cases h with
  | before _ stage =>
    cases stage with
    | idle script_eq => exact absurd script_eq.symm (List.append_ne_nil_of_right_ne_nil _ (by simp))
    | header script_eq => cases script_eq
    | lookup script_eq => cases script_eq
    | elect script_eq => cases script_eq
  | after ground stage =>
    cases stage with
    | fed script_eq => exact absurd script_eq.symm (List.append_ne_nil_of_right_ne_nil _ (by simp))
    | streaming script_eq => cases script_eq
    | handOver script_eq => cases script_eq
    | @handed key _ here number => exact ⟨ground, number, key, here, rfl⟩

end

/-- The turns of the first sets, when there are others, end before a request. -/
lemma turns_take {sets : List (List BlockItem)} {i : ℕ} (hi : i < sets.length) :
    ∃ set rest, turns sets = turns (sets.take i) ++ .request (.blockItems set) :: rest := by
  cases sets with
  | nil => exact absurd hi (Nat.not_lt_zero i)
  | cons first sets =>
    cases i with
    | zero => exact ⟨first, _, rfl⟩
    | succ i =>
      have hi' : i < sets.length := by simpa using hi
      refine ⟨sets.get ⟨i, hi'⟩, .go :: (sets.drop (i + 1)).flatMap itemsTurn, ?_⟩
      have hsets : sets = sets.take i ++ sets.get ⟨i, hi'⟩ :: sets.drop (i + 1) := by simp
      have hflat : sets.flatMap itemsTurn = (sets.take i).flatMap itemsTurn ++
          (sets.get ⟨i, hi'⟩ :: sets.drop (i + 1)).flatMap itemsTurn := by
        rw [← List.flatMap_append, ← hsets]
      rw [turns, hflat, List.flatMap_cons, ← List.append_assoc]
      rfl

/-! ### Chunking -/

/-- The number is above the watermark and nobody has been elected for it. -/
def Ahead (n : UInt64) (world : World) : Prop :=
  world.latestPersistedBlock.toInt < n.toNat ∧ world.blockWinners.get n.toNat = none

/-- The session is the winner of the block. -/
def Owns (id : ℕ) (n : UInt64) (world : World) : Prop :=
  world.blockWinners.get n.toNat = some id

instance Ahead.decidable (n : UInt64) : DecidablePred (Ahead n) :=
  fun _ => inferInstanceAs (Decidable (_ ∧ _))

instance Owns.decidable (id : ℕ) (n : UInt64) : DecidablePred (Owns id n) :=
  fun _ => inferInstanceAs (Decidable (_ = _))

lemma ahead_ground (id : ℕ) {n : UInt64} (hn : n.toNat < 2 ^ 63) :
    Ground id n (Ahead n) (Owns id n) where
  ahead h := by
    rw [Int64.lt_iff_toInt_lt, toInt64_toInt, if_pos hn]
    exact h.1
  vacant h := h.2
  elected _ := by simp [Owns]
  owned h := h
  cached _ h := h
  announced _ h := h

/-- **Chunking does not matter.** A session without a block is fed the sets of block `n`, and what
the others do in between leaves it the winner entry. However the items are cut into sets, it
is idle again after every set but the last, with nothing handed over, and then it hands over
one block: number `n`, with exactly these items. -/
theorem chunking_irrelevant {cfg : PublishConfig} {codec : Codec} {id : ℕ} {n : UInt64}
    {world : World} {session : Session} {items : List BlockItem} {sets : List (List BlockItem)}
    (hidle : session.task = .idle) (hempty : session.itemBuffer = []) (hn : n.toNat < 2 ^ 63)
    (hahead : Ahead n world) (hblock : WholeBlock n items) (hsplit : sets.flatten = items)
    (hsized : Sized cfg sets) :
    (∀ i < sets.length, ∀ actions : List AssemblyAct,
      actions.filterMap AssemblyAct.session? = turns (sets.take i) →
      Along (assemblyStep cfg codec id) (Keeps (Ahead n) (Owns id n)) (world, session) actions →
      ∃ state, run (recorded (assemblyStep cfg codec id) (handOvers codec))
          ((world, session), []) actions = some (state, []) ∧ state.2.task = .idle) ∧
    ∀ actions : List AssemblyAct,
      actions.filterMap AssemblyAct.session? = turns sets ++ [.go, .go] →
      Along (assemblyStep cfg codec id) (Keeps (Ahead n) (Owns id n)) (world, session) actions →
      ∃ state key, run (recorded (assemblyStep cfg codec id) (handOvers codec))
          ((world, session), []) actions =
        some (state, [.cached key ⟨n, codec.encode ⟨items⟩⟩, .announced ⟨n, key⟩]) ∧
        state.2.task = .subscribe key := by
  have hfollows : Follows (recorded (assemblyStep cfg codec id) (handOvers codec))
      (fun state act => Keeps (Ahead n) (Owns id n) state.1 act) AssemblyAct.session?
      (Feeding cfg codec n items (Ahead n) (Owns id n)) :=
    feeding_follows (ahead_ground id hn) hblock
  have hstart : Feeding cfg codec n items (Ahead n) (Owns id n) (turns sets ++ [.go, .go])
      ((world, session), []) := .before hahead (.idle rfl hidle hempty hsplit hsized)
  constructor
  · intro i hi actions hown hkeeps
    obtain ⟨set, rest, hturns⟩ := turns_take hi
    rw [hturns, ← hown, List.append_assoc] at hstart
    obtain ⟨t, ht, hfeeding⟩ := hfollows.run hstart ((along_recorded []).mpr hkeeps)
    obtain ⟨hidle', hlog⟩ := hfeeding.idle_of_request
    exact ⟨t.1, by rw [ht, ← hlog], hidle'⟩
  · intro actions hown hkeeps
    rw [← hown, ← List.append_nil (actions.filterMap _)] at hstart
    obtain ⟨t, ht, hfeeding⟩ := hfollows.run hstart ((along_recorded []).mpr hkeeps)
    obtain ⟨-, -, key, htask, hlog⟩ := hfeeding.handed_of_nil
    exact ⟨t.1, key, by rw [ht, ← hlog], htask⟩

theorem chunking_irrelevant_three_sets : ∃ state key,
    run (recorded (assemblyStep tenItems plainCodec 0) (handOvers plainCodec))
        ((World.init none, .new), [])
        (sendHeader [headerItem 5] ++ [.interfere { World.init none with
          blockWinners := SortedMap.empty.put 5 0, now := 3 }] ++
          sendItems [otherItem, otherItem] ++ sendItems [proofItem 5] ++ [.own .go, .own .go]) =
      some (state, [.cached key ⟨5, plainCodec.encode
        ⟨[headerItem 5, otherItem, otherItem, proofItem 5]⟩⟩, .announced ⟨5, key⟩]) ∧
      state.2.task = .subscribe key := by
  have hsplit : [[headerItem 5], [otherItem, otherItem], [proofItem 5]].flatten =
      [headerItem 5, otherItem, otherItem, proofItem 5] := rfl
  have hblock : WholeBlock 5 [headerItem 5, otherItem, otherItem, proofItem 5] :=
    ⟨headerItem 5, ⟨5, []⟩, [otherItem, otherItem], proofItem 5, rfl, rfl, rfl, by decide, rfl⟩
  exact (chunking_irrelevant rfl rfl (by decide) (by decide) hblock hsplit
    (by unfold Sized; decide)).2 _ rfl (by decide +kernel)

end RockNode
