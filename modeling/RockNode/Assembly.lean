import RockNode.BlockInProgress
import RockNode.Runs

/-!
How a session puts a block together.

One session is run against an environment that may change everything it shares, at any time and
in any way. What it hands over as block `n` should be the items it received from the set with
the accepted header `n` on, up to the proof or the `BlockEnd` that completes the block.
-/

namespace RockNode

/-- A header with the number `n` and no other header. -/
def HeadedBy (n : UInt64) (items : List BlockItem) : Prop :=
  ∃ first rest header, items = first :: rest ∧ first.header? = some header ∧
    header.number = n ∧ ∀ item ∈ rest, item.header? = none

/-- The items are those received up to the completing proof, from the header `n` on. -/
structure Assembled (n : UInt64) (received items : List BlockItem) : Prop where
  items_eq : items = upToProof received
  headed : HeadedBy n items

/-- Whenever `complete_block` is about to hand a block over, the block is assembled exactly. -/
def Session.AssemblesExactly (session : Session) : Prop :=
  session.task = .complete →
    Assembled session.blockNumber session.received session.itemBuffer

/-! ### The session and its environment -/

/-- A step of the session, or of anything else. -/
inductive AssemblyAct where
  | own (act : SessionAct)
  | interfere (world : World)
  | failed (event : BlockVerificationFailed)
  | persisted (event : BlockPersisted)

def assemblyStep (cfg : PublishConfig) (codec : Codec) (id : ℕ) (state : World × Session) :
    AssemblyAct → Option (World × Session)
  | .own act => state.2.step cfg codec id state.1 act
  | .interfere world => some (world, state.2)
  | .failed event => some (state.1, state.2.deliverFailed event)
  | .persisted event => some (state.1, state.2.deliverPersisted event)

/-- A header is accepted only by a session whose buffer is empty, and with a set that has no
second header before its first proof. -/
def AcceptsCleanly (state : World × Session) : AssemblyAct → Prop
  | .own _ => ∀ e ∈ state.2.electing, state.1.blockWinners.get e.1.toUInt64.toNat = none →
      state.2.itemBuffer = [] ∧ ∀ item ∈ (upToProof e.2).tail, item.header? = none
  | _ => True

instance (state : World × Session) : ∀ act, Decidable (AcceptsCleanly state act)
  | .own _ => inferInstanceAs (Decidable (∀ e ∈ state.2.electing, _ → _))
  | .interfere _ => isTrue trivial
  | .failed _ => isTrue trivial
  | .persisted _ => isTrue trivial

/-! ### The block so far -/

/-- The buffer holds what was received, none of it a proof. -/
structure OpenBlock (n : UInt64) (received buffer : List BlockItem) : Prop where
  buffer_eq : buffer = received
  no_proof : received.any BlockItem.isProof = false
  headed : HeadedBy n received

lemma HeadedBy.append {n : UInt64} {items set : List BlockItem} (h : HeadedBy n items)
    (hset : ∀ item ∈ set, item.header? = none) : HeadedBy n (items ++ set) := by
  obtain ⟨first, rest, header, rfl, hfirst, hnumber, hrest⟩ := h
  refine ⟨first, rest ++ set, header, rfl, hfirst, hnumber, fun item hitem => ?_⟩
  rcases List.mem_append.mp hitem with hi | hi
  · exact hrest item hi
  · exact hset item hi

lemma openBlock_rule : BlockRule OpenBlock Assembled where
  full h := by
    obtain ⟨rfl, hproof, hheaded⟩ := h
    exact ⟨(upToProof_eq_self hproof).symm, hheaded⟩
  more h hset hnone := by
    obtain ⟨rfl, hproof, hheaded⟩ := h
    exact ⟨rfl, by rw [List.any_append, hproof, hnone]; rfl, hheaded.append hset⟩
  last h hset _ := by
    obtain ⟨rfl, hproof, hheaded⟩ := h
    exact ⟨(upToProof_append hproof _).symm,
      hheaded.append fun item hi => hset item (mem_of_mem_upToProof hi)⟩

/-- A clean start: the set of the header is all there is. -/
lemma onElected_assembles {session : Session} {n : Int64} {set : List BlockItem}
    (hset : StartsWith n set) (hempty : session.itemBuffer = [])
    (hone : ∀ item ∈ (upToProof set).tail, item.header? = none) :
    (session.onElected n set).InProgress OpenBlock Assembled := by
  have hheaded : HeadedBy n.toUInt64 (upToProof set) := by
    obtain ⟨first, rest, header, heq, hfirst, hnumber⟩ := hset.upToProof
    rw [heq] at hone ⊢
    exact ⟨first, rest, header, rfl, hfirst, hnumber, hone⟩
  refine Session.handleAccept_inProgress (fun hnone => ⟨?_, hnone, ?_⟩) fun _ => ⟨?_, ?_⟩
  · simp [hempty]
  · rwa [upToProof_eq_self hnone] at hheaded
  · simp [hempty]
  · simpa [hempty, Session.blockNumber] using hheaded

lemma assemblyStep_inProgress {cfg : PublishConfig} {codec : Codec} {id : ℕ}
    {state state' : World × Session} {act : AssemblyAct}
    (h : state.2.InProgress OpenBlock Assembled) (hclean : AcceptsCleanly state act)
    (hstep : assemblyStep cfg codec id state act = some state') :
    state'.2.InProgress OpenBlock Assembled := by
  cases act with
  | own act =>
    refine Session.step_inProgress openBlock_rule h (fun e he vacant hset => ?_)
      (Session.step_cases hstep)
    obtain ⟨hempty, hone⟩ := hclean e he vacant
    exact onElected_assembles hset hempty hone
  | interfere world => cases hstep; exact h
  | failed event => cases hstep; exact (Session.deliverFailed_hears event).inProgress h
  | persisted event => cases hstep; exact (Session.deliverPersisted_hears event).inProgress h

/-- **Block assembly.** In every run of one session against any environment in which headers are
accepted cleanly, each block about to be handed over is assembled exactly. -/
theorem assembly_exact {cfg : PublishConfig} {codec : Codec} {id : ℕ} {world : World}
    {actions : List AssemblyAct} {state : World × Session}
    (hclean : Along (assemblyStep cfg codec id) AcceptsCleanly (world, .new) actions)
    (hrun : run (assemblyStep cfg codec id) (world, .new) actions = some state) :
    state.2.AssemblesExactly := by
  have hinv : state.2.InProgress OpenBlock Assembled :=
    run_inv (I := fun state => state.2.InProgress OpenBlock Assembled)
      (fun h hC hs => assemblyStep_inProgress h hC hs) (fun h => by cases h) hclean hrun
  intro htask
  simpa only [Session.InProgress, htask] using hinv

/-- Items of a block in a request. -/
def headerItem (n : UInt64) : BlockItem := ⟨some (.blockHeader ⟨n, []⟩)⟩
def otherItem : BlockItem := ⟨some (.other [])⟩
def proofItem (n : UInt64) : BlockItem := ⟨some (.blockProof ⟨n, []⟩)⟩

/-- A set is sent and handled by a session that wins what it asks for. -/
def sendHeader (set : List BlockItem) : List AssemblyAct :=
  [.own (.request (.blockItems set)), .own .go, .own .go, .own .go]
def sendItems (set : List BlockItem) : List AssemblyAct :=
  [.own (.request (.blockItems set)), .own .go]

/-- Ten items at most in a set. -/
def tenItems : PublishConfig := ⟨10, 1000⟩

theorem assembly_exact_two_sets : ∃ state,
    run (assemblyStep tenItems plainCodec 0) (World.init none, .new)
        (sendHeader [headerItem 5, otherItem] ++ sendItems [otherItem, proofItem 5]) =
      some state ∧
    state.2.task = .complete ∧ state.2.AssemblesExactly := by
  have hsome : ∃ state ∈ run (assemblyStep tenItems plainCodec 0) (World.init none, .new)
      (sendHeader [headerItem 5, otherItem] ++ sendItems [otherItem, proofItem 5]),
      state.2.task = .complete := by decide +kernel
  obtain ⟨state, hrun, htask⟩ := hsome
  exact ⟨state, hrun, htask, assembly_exact (by decide +kernel) hrun⟩

/-- The header of block 6 comes before block 5 is complete: block 6 starts with header 5. -/
theorem assembly_two_headers : ∃ state,
    run (assemblyStep tenItems plainCodec 0) (World.init none, .new)
        (sendHeader [headerItem 5, otherItem] ++ sendHeader [headerItem 6, proofItem 6]) =
      some state ∧
    ¬ state.2.AssemblesExactly := by
  have hsome : ∃ state ∈ run (assemblyStep tenItems plainCodec 0) (World.init none, .new)
      (sendHeader [headerItem 5, otherItem] ++ sendHeader [headerItem 6, proofItem 6]),
      state.2.task = .complete ∧ state.2.blockNumber = 6 ∧
        state.2.itemBuffer = [headerItem 5, otherItem, headerItem 6, proofItem 6] := by
    decide +kernel
  obtain ⟨state, hrun, htask, hnumber, hbuffer⟩ := hsome
  refine ⟨state, hrun, fun h => ?_⟩
  obtain ⟨first, rest, header, hitems, hfirst, hsix, -⟩ := (h htask).headed
  rw [hbuffer] at hitems
  cases hitems
  cases hfirst
  rw [hnumber] at hsix
  exact absurd hsix (by decide)

end RockNode
