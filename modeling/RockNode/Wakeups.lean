import RockNode.Acknowledgement
import RockNode.ExactMarks
import RockNode.SubscriberStreams

/-!
A subscriber session beside the node: does it wait for a block that is there?

Between its look at the store and its subscription the session hears nothing, and backfill never
says anything. In all other cases the event that follows a commit wakes it.
-/

namespace RockNode

structure Watch where
  node : Pipeline
  subscriber : Subscriber

/-- The node takes a step, backfill writes a block, or something happens to the session. -/
inductive WatchAct where
  | node (act : PipelineAct)
  | backfill (block : Block)
  | subscriber (failing : Bool) (act : SubscriberAct)

namespace Watch

/-- The store as the session sees it. -/
def reader (cfg : PipelineConfig) (codec : Codec) (w : Watch) (failing : Bool) : BlockReader :=
  if failing then ⟨none, none, fun _ => none⟩
  else
    { earliest := some (getEarliestPersistedBlockNumber w.node.store.db)
      latest := some (getLatestPersistedBlockNumber w.node.store.db)
      readBlock := w.node.readBlock cfg codec }

/-- The broadcast of the persistence task reaches the session too. -/
def hear (w : Watch) (act : PipelineAct) : Subscriber :=
  match act, w.node.persister with
  | .persister, .broadcast event => w.subscriber.deliver event.blockNumber.toNat
  | _, _ => w.subscriber

def step (cfg : PipelineConfig) (codec : Codec) (lookahead : ℕ) (w : Watch) :
    WatchAct → Option Watch
  | .node act => (w.node.step cfg codec act).map fun node => ⟨node, w.hear act⟩
  | .backfill block =>
    some { w with
      node := { w.node with store := w.node.store.write cfg.persistence codec block } }
  | .subscriber failing act =>
    (w.subscriber.step codec lookahead (w.reader cfg codec failing) act).map
      fun subscriber => { w with subscriber := subscriber }

/-- The number of the block that a step writes. -/
def writes (w : Watch) : WatchAct → Option ℕ
  | .node .persister =>
    match w.node.persister with
    | .write _ block => getBlockNumber block
    | _ => none
  | .backfill block => getBlockNumber block
  | _ => none

end Watch

/-- The session needs the block, has seen that it is not there and has heard nothing since. -/
def SubscriberTask.Awaits : SubscriberTask → ℕ → Prop
  | .subscribe k, n => k = n
  | .waiting k events, n => k = n ∧ ∀ e ∈ events, e < n
  | _, _ => False

instance SubscriberTask.Awaits.decidable : ∀ (task : SubscriberTask) n, Decidable (task.Awaits n)
  | .subscribe _, _ => inferInstanceAs (Decidable (_ = _))
  | .waiting _ _, _ => inferInstanceAs (Decidable (_ ∧ _))
  | .earliest, _ | .latest _, _ | .next _, _ | .send _ _, _ | .finish _, _ | .done, _
  | .crashed, _ => isFalse id

namespace Watch

variable {cfg : PipelineConfig} {codec : Codec} {lookahead n : ℕ} {w w' : Watch} {act : WatchAct}
  {p p' : Pipeline}

/-! ### What a step does to a block that is awaited -/

lemma readBlock_congr (h : p'.store.db.hotBlocks.get n = p.store.db.hotBlocks.get n) :
    p'.readBlock cfg codec n = p.readBlock cfg codec n := by
  simp only [Pipeline.readBlock, Node.readBlock, hotReadBlock, h]

lemma get_write {s : Store} {block : Block} (hne : getBlockNumber block ≠ some n) :
    (s.write cfg.persistence codec block).db.hotBlocks.get n = s.db.hotBlocks.get n := by
  rcases s.write_cases cfg.persistence codec block with h | ⟨m, hm, -, hhot, -⟩
  · rw [h]
  · have hnm : n ≠ m := by
      rintro rfl
      exact hne hm
    rw [hhot, SortedMap.get_put_of_ne _ _ hnm]

/-- The store changes when the persistence task writes. -/
lemma store_step {act : PipelineAct} (h : p.step cfg codec act = some p') :
    p'.store = p.store ∨ ∃ event block, act = .persister ∧ p.persister = .write event block ∧
      p'.store = p.store.write cfg.persistence codec block := by
  cases Pipeline.step_cases h with
  | write here => exact Or.inr ⟨_, _, rfl, here, rfl⟩
  | _ => exact Or.inl rfl

lemma awaits_deliver {event : ℕ} {session : Subscriber}
    (h : (session.deliver event).task.Awaits n) :
    session.task.Awaits n ∧ ∀ events, session.task = .waiting n events → event < n := by
  unfold Subscriber.deliver at h
  split at h
  · next k events htask =>
    obtain ⟨hk, hlt⟩ := h
    rw [htask]
    refine ⟨⟨hk, fun e he => hlt e (List.mem_append_left _ he)⟩, fun _ _ => ?_⟩
    exact hlt event (List.mem_append_right _ (List.mem_singleton_self event))
  · next hne =>
    refine ⟨h, fun events htask => ?_⟩
    exact absurd htask (hne n events)

lemma awaits_hear {act : PipelineAct} (h : (w.hear act).task.Awaits n) :
    w.subscriber.task.Awaits n := by
  unfold hear at h
  split at h
  · exact (awaits_deliver h).1
  · exact h

/-- The session comes to await a block only by looking and finding nothing. -/
lemma awaits_subscriber {reader : BlockReader} {session session' : Subscriber}
    (hstep : session.Step codec lookahead reader session') (h : session'.task.Awaits n) :
    session.task.Awaits n ∨ reader.readBlock n = some none := by
  cases hstep with
  | hangsUp => exact Or.inl h
  | misses htask hend hread =>
    cases (show _ = n from h)
    exact Or.inr hread
  | subscribes htask =>
    rw [htask]
    exact Or.inl h.1
  | passes htask hlt =>
    rw [htask]
    obtain ⟨rfl, hrest⟩ := h
    refine Or.inl ⟨rfl, fun e he => ?_⟩
    rcases List.mem_cons.mp he with rfl | he
    · exact hlt
    · exact hrest e he
  | validates htask hlatest =>
    rename_i e l
    rcases hv : validateAndCheckFulfillment lookahead session.request e l with _ | error | s <;>
      rw [hv] at h <;> exact h.elim
  | sends htask hconn =>
    split at h <;> exact h.elim
  | _ => exact h.elim

/-- **An awaited block**: it is not there, or it was awaited before, and then it came with this
step or nothing has changed. -/
theorem awaits_step (hstep : w.step cfg codec lookahead act = some w')
    (h : w'.subscriber.task.Awaits n) :
    w'.node.readBlock cfg codec n = some none ∨ w.subscriber.task.Awaits n ∧
      (w.writes act = some n ∨
        w'.node.readBlock cfg codec n = w.node.readBlock cfg codec n) := by
  cases act with
  | node act =>
    obtain ⟨node, hnode, rfl⟩ := Option.map_eq_some_iff.mp hstep
    refine Or.inr ⟨awaits_hear h, ?_⟩
    rcases store_step hnode with hstore | ⟨event, block, rfl, here, hstore⟩
    · exact Or.inr (readBlock_congr (by rw [hstore]))
    · by_cases hn : getBlockNumber block = some n
      · exact Or.inl (by simp only [writes, here, hn])
      · exact Or.inr (readBlock_congr (by rw [hstore, get_write hn]))
  | backfill block =>
    cases hstep
    refine Or.inr ⟨h, ?_⟩
    by_cases hn : getBlockNumber block = some n
    · exact Or.inl hn
    · exact Or.inr (readBlock_congr (get_write hn))
  | subscriber failing act =>
    obtain ⟨session, hs, rfl⟩ := Option.map_eq_some_iff.mp hstep
    rcases awaits_subscriber (Subscriber.step_cases hs) h with hbefore | hread
    · exact Or.inr ⟨hbefore, Or.inr rfl⟩
    · refine Or.inl ?_
      cases failing with
      | true => cases hread
      | false => exact hread

/-! ### No block comes unseen -/

/-- No block is stored while the session awaits it: not between its look and its subscription,
and not while it waits unless an event that will wake it is there already. -/
def Timely (w : Watch) (act : WatchAct) : Prop :=
  ∀ n ∈ w.writes act, ¬ w.subscriber.task.Awaits n

instance Timely.decidable (w : Watch) (act : WatchAct) : Decidable (w.Timely act) :=
  inferInstanceAs (Decidable (∀ n ∈ w.writes act, ¬ w.subscriber.task.Awaits n))

/-- **No subscriber waits for a block that is there**, in runs in which no block comes unseen. -/
theorem no_stored_wait {blocks : List Block} {plugin : StatePlugin} {request : SubscribeRequest}
    {acts : List WatchAct}
    (htimely : Along (Watch.step cfg codec lookahead) Timely
      ⟨.init cfg codec blocks plugin, .new request⟩ acts)
    (hrun : run (Watch.step cfg codec lookahead)
      ⟨.init cfg codec blocks plugin, .new request⟩ acts = some w) :
    ∀ n, w.subscriber.task = .waiting n [] → w.node.readBlock cfg codec n = some none := by
  have hinv : ∀ n, w.subscriber.task.Awaits n → w.node.readBlock cfg codec n = some none := by
    refine run_inv (I := fun w => ∀ n, w.subscriber.task.Awaits n →
      w.node.readBlock cfg codec n = some none) ?_ (fun n hn => hn.elim) htimely hrun
    intro w act w' hw ht hstep n hn
    rcases awaits_step hstep hn with hread | ⟨hbefore, hwrites | hsame⟩
    · exact hread
    · exact absurd hbefore (ht n hwrites)
    · rw [hsame]
      exact hw n hbefore
  intro n htask
  exact hinv n (by rw [htask]; exact ⟨rfl, by simp⟩)

/-- Block 5 is there when the session asks for it; then the session waits for block 6. -/
def caughtUp : List WatchAct :=
  (publishRun [(itemsOf 5, 3), ([proofOf 5], 1)]).map .node ++
    List.replicate 6 (.subscriber false .go)

def fromFive : SubscribeRequest := ⟨5, u64Max, by decide, le_rfl⟩

theorem no_stored_wait_six :
    ∃ w, run (Watch.step verifyingNode plainCodec 10)
        ⟨.init verifyingNode plainCodec [] .init, .new fromFive⟩ caughtUp = some w ∧
      w.subscriber.task = .waiting 6 [] ∧
      w.node.readBlock verifyingNode plainCodec 6 = some none := by
  have hsome : ∃ w ∈ run (Watch.step verifyingNode plainCodec 10)
      ⟨.init verifyingNode plainCodec [] .init, .new fromFive⟩ caughtUp,
      w.subscriber.task = .waiting 6 [] := by decide +kernel
  obtain ⟨w, hrun, htask⟩ := hsome
  exact ⟨w, hrun, htask, no_stored_wait (by decide +kernel) hrun 6 htask⟩

/-- The session looks for block 5, and subscribes when that has been stored and announced: it is
left waiting, while nothing of the node is under way. -/
theorem stored_wait : ∃ w, run (Watch.step verifyingNode plainCodec 10)
      ⟨.init verifyingNode plainCodec [] .init, .new fromFive⟩
      (List.replicate 3 (.subscriber false .go) ++
        (publishRun [(itemsOf 5, 3), ([proofOf 5], 1)]).map .node ++
        [.node .persister, .subscriber false .go]) = some w ∧
    w.subscriber.task = .waiting 5 [] ∧ w.node.persister = .idle ∧
    w.node.readBlock verifyingNode plainCodec 5 ≠ some none := by
  have hsome : ∃ w ∈ run (Watch.step verifyingNode plainCodec 10)
      ⟨.init verifyingNode plainCodec [] .init, .new fromFive⟩
      (List.replicate 3 (.subscriber false .go) ++
        (publishRun [(itemsOf 5, 3), ([proofOf 5], 1)]).map .node ++
        [.node .persister, .subscriber false .go]),
      w.subscriber.task = .waiting 5 [] ∧ w.node.persister = .idle ∧
      w.node.readBlock verifyingNode plainCodec 5 ≠ some none := by decide +kernel
  obtain ⟨w, hrun, h⟩ := hsome
  exact ⟨w, hrun, h⟩

/-! ### A wake-up on its way -/

/-- A block that comes while the session waits for it comes from the persistence task, which
will say so. -/
def Announced (cfg : PipelineConfig) (codec : Codec) (w : Watch) (act : WatchAct) : Prop :=
  ∀ n ∈ w.writes act, w.subscriber.task.Awaits n →
    ∃ event block events, act = .node .persister ∧ w.node.persister = .write event block ∧
      n ≤ event.blockNumber.toNat ∧
      (writeBlock cfg.persistence codec block w.node.store.db).2 ≠ .err ∧
      w.subscriber.task = .waiting n events

/-- The session waits, and the persistence task is about to announce the block. -/
def Waking (w : Watch) (n : ℕ) : Prop :=
  (∃ events, w.subscriber.task = .waiting n events) ∧
    ∃ event, w.node.persister = .broadcast event ∧ n ≤ event.blockNumber.toNat

lemma persister_step {act : PipelineAct} (hact : act ≠ .persister)
    (h : p.step cfg codec act = some p') : p'.persister = p.persister := by
  cases Pipeline.step_cases h <;> first | rfl | exact absurd rfl hact

/-- A session that waits goes on waiting until it wakes. -/
lemma waiting_subscriber {reader : BlockReader} {session session' : Subscriber} {events : List ℕ}
    (hstep : session.Step codec lookahead reader session')
    (htask : session.task = .waiting n events) (h : session'.task.Awaits n) :
    ∃ events', session'.task = .waiting n events' := by
  cases hstep with
  | hangsUp => exact ⟨events, htask⟩
  | passes here hlt =>
    rw [htask] at here
    cases here
    exact ⟨_, rfl⟩
  | misses here | subscribes here | validates here | sends here =>
    rw [htask] at here
    cases here
  | _ => exact h.elim

/-- What is on its way stays on its way until it arrives. -/
lemma waking_step (hstep : w.step cfg codec lookahead act = some w')
    (h : w'.subscriber.task.Awaits n) (hw : w.Waking n) : w'.Waking n := by
  obtain ⟨⟨events, htask⟩, event, here, hle⟩ := hw
  cases act with
  | node act =>
    obtain ⟨node, hnode, rfl⟩ := Option.map_eq_some_iff.mp hstep
    by_cases hact : act = .persister
    · -- the broadcast: the session is not left unaware
      subst hact
      simp only [hear, here] at h
      have hlt := (awaits_deliver h).2 events htask
      omega
    · have hheard : w.hear act = w.subscriber := by
        unfold hear
        split
        · exact absurd rfl hact
        · rfl
      exact ⟨⟨events, by rw [hheard, htask]⟩, event, (persister_step hact hnode).trans here, hle⟩
  | backfill block =>
    cases hstep
    exact ⟨⟨events, htask⟩, event, here, hle⟩
  | subscriber failing act =>
    obtain ⟨session, hs, rfl⟩ := Option.map_eq_some_iff.mp hstep
    exact ⟨waiting_subscriber (Subscriber.step_cases hs) htask h, event, here, hle⟩

/-- The persistence task writes an awaited block: from then on the wake-up is on its way. -/
lemma announced_step (hstep : w.step cfg codec lookahead act = some w')
    (ha : w.Announced cfg codec act) (hwrites : w.writes act = some n)
    (hn : w.subscriber.task.Awaits n) : w'.Waking n := by
  obtain ⟨event, block, events, rfl, here, hle, hok, htask⟩ := ha n hwrites hn
  obtain ⟨node, hnode, rfl⟩ := Option.map_eq_some_iff.mp hstep
  refine ⟨⟨events, by simp only [hear, here, htask]⟩, event, ?_, hle⟩
  change w.node.persisterStep cfg codec = some node at hnode
  simp only [Pipeline.persisterStep, here, Option.some.injEq] at hnode
  rw [← hnode]
  rcases hresult : (writeBlock cfg.persistence codec block w.node.store.db).2 with _ | _
  · rfl
  · exact absurd hresult hok

/-- **A session that waits for a block that is there is about to be woken**, in runs in which
what comes while it waits is announced. -/
theorem stored_wait_ends {blocks : List Block} {plugin : StatePlugin} {request : SubscribeRequest}
    {acts : List WatchAct}
    (hannounced : Along (Watch.step cfg codec lookahead) (Announced cfg codec)
      ⟨.init cfg codec blocks plugin, .new request⟩ acts)
    (hrun : run (Watch.step cfg codec lookahead)
      ⟨.init cfg codec blocks plugin, .new request⟩ acts = some w) {n : ℕ}
    (hn : w.subscriber.task.Awaits n) :
    w.node.readBlock cfg codec n = some none ∨ w.Waking n := by
  refine run_inv (I := fun w => ∀ n, w.subscriber.task.Awaits n →
    w.node.readBlock cfg codec n = some none ∨ w.Waking n) ?_ (fun n hn => hn.elim) hannounced hrun
    n hn
  intro w act w' hw ha hstep n hn
  rcases awaits_step hstep hn with hread | ⟨hbefore, hwrites | hsame⟩
  · exact Or.inl hread
  · exact Or.inr (announced_step hstep ha hwrites hbefore)
  · rw [hsame]
    exact (hw n hbefore).imp_right (waking_step hstep hn)

end Watch

end RockNode
