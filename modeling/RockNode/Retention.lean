import RockNode.ArchivalCycle
import Mathlib.Algebra.Order.Floor.Div

/-!
How many blocks a call of `run_archival_cycle` leaves in the hot tier.

The loop compares the size of the hot tier with `hot_storage_block_count` and then takes out a
whole batch. So the last batch may reach into the blocks that were to stay, unless the blocks
above the count come out as whole batches or the last batch is not complete.
-/

namespace RockNode

variable {cfg : Config} {codec : Codec} {node node' : Node} {op : Operation} {fuel : ℕ}
  {outcomes : List Outcome}

/-! ### Stores without gaps -/

def Operation.isHistorical : Operation → Bool
  | .writeBatch _ _ => true
  | _ => false

/-- Blocks are written one after the other, each with the number after the last one. -/
def WritesNext (cfg : Config) (node : Node) (op : Operation) : Prop :=
  op.isHistorical = false ∧
    ∀ n ∈ op.lands cfg node.store, ∀ p ∈ node.store.log.head?, n = p.1 + 1

instance WritesNext.decidable (cfg : Config) (node : Node) (op : Operation) :
    Decidable (WritesNext cfg node op) :=
  inferInstanceAs (Decidable (_ ∧ _))

/-- The hot tier holds the blocks from the cursor `e` to the last one written, `l`. -/
structure Node.Gapless (cfg : Config) (node : Node) (e l : ℕ) : Prop where
  earliest : node.store.db.metadata .earliestHot = some e
  hot : ∀ n, node.store.db.hotBlocks.get n ≠ none ↔ e ≤ n ∧ n ≤ l
  latest : node.store.db.metadata .latestPersisted = some l ∨
    node.store.db.metadata .latestPersisted = none ∧ l ≤ cfg.seed
  head : node.store.log.head?.map Prod.fst = some l
  numbers : ∀ {i n block}, node.store.log[i]? = some (n, block) → n + i = l
  reaches : l + 1 ≤ e + node.store.log.length
  within : e ≤ l + 1

/-- Before the first write there is nothing. -/
structure Node.Unwritten (node : Node) : Prop where
  log : node.store.log = []
  earliest : node.store.db.metadata .earliestHot = none
  latest : node.store.db.metadata .latestPersisted = none
  hot : ∀ n, node.store.db.hotBlocks.get n = none

lemma Node.init_unwritten (cfg : Config) : (Node.init cfg).Unwritten := by
  refine ⟨rfl, ?_, ?_, SortedMap.get_empty⟩
  · exact (initializeHighestContiguous_same cfg.seed Db.empty).earliest
  · exact (initializeHighestContiguous_same cfg.seed Db.empty).latest

lemma CursorStep.unwritten (hstep : CursorStep cfg codec node op node') (h : node.Unwritten) :
    node'.Unwritten ∨ ∃ e l, node'.Gapless cfg e l := by
  cases hstep with
  | still _ same log =>
    exact Or.inl ⟨log.trans h.log, same.earliest.trans h.earliest, same.latest.trans h.latest,
      fun n => by rw [same.hot, h.hot]⟩
  | wrote block n _ hot earliest latest _ log =>
    refine Or.inr ⟨n, n, ?_, fun m => ?_, ?_, by rw [log]; rfl, fun {i m block'} hi => ?_, ?_,
      by omega⟩
    · rw [earliest, h.earliest, Option.getD_none]
    · rw [hot, SortedMap.get_put]
      split
      · next heq => simp [heq]
      · next hne => simp [h.hot]; omega
    · rw [latest, latestOrSeed, h.latest, Option.getD_none]
      split
      · exact Or.inl rfl
      · exact Or.inr ⟨rfl, by omega⟩
    · rw [log, h.log] at hi
      cases i with
      | zero => cases hi; rfl
      | succ i => simp at hi
    · rw [log, List.length_cons]
      omega
  | skipped _ start earliest _ _ =>
    rw [h.earliest] at earliest
    cases earliest
  | archived _ start pending _ _ =>
    have := pending.earliest
    rw [h.earliest] at this
    cases this

lemma CursorStep.gapless (hsize : 1 ≤ cfg.archiveBatchSize)
    (hstep : CursorStep cfg codec node op node') (hg : node.store.Good cfg) {e l : ℕ}
    (h : node.Gapless cfg e l)
    (hnext : ∀ n ∈ op.lands cfg node.store, ∀ p ∈ node.store.log.head?, n = p.1 + 1) :
    ∃ e l, node'.Gapless cfg e l := by
  cases hstep with
  | still _ same log =>
    refine ⟨e, l, same.earliest.trans h.earliest, fun n => by rw [same.hot, h.hot], ?_,
      by rw [log]; exact h.head, fun hi => h.numbers (log ▸ hi), by rw [log]; exact h.reaches,
      h.within⟩
    rw [same.latest]
    exact h.latest
  | wrote block n commits hot earliest latest _ log =>
    obtain ⟨p, hp, hl⟩ := Option.map_eq_some_iff.mp h.head
    rw [Operation.commits_eq_lands hg] at commits
    obtain rfl : n = l + 1 := hl ▸ hnext n commits p hp
    have hwithin := h.within
    have hreaches := h.reaches
    refine ⟨e, l + 1, ?_, fun m => ?_, ?_, by rw [log]; rfl, fun {i m block'} hi => ?_, ?_,
      by omega⟩
    · rw [earliest, h.earliest, Option.getD_some]
    · rw [hot, SortedMap.get_put]
      split
      · next heq => simp [heq, hwithin]
      · next hne =>
        rw [h.hot]
        omega
    · rw [latest, latestOrSeed]
      rcases h.latest with hlatest | ⟨hlatest, hseed⟩
      · rw [hlatest, Option.getD_some, if_pos (by omega)]
        exact Or.inl rfl
      · rw [hlatest, Option.getD_none]
        split
        · exact Or.inl rfl
        · exact Or.inr ⟨rfl, by omega⟩
    · rw [log] at hi
      cases i with
      | zero => cases hi; rfl
      | succ i =>
        have := h.numbers (by simpa using hi)
        omega
    · rw [log, List.length_cons]
      omega
  | skipped _ start _ db log =>
    exact ⟨e, l, by rw [db]; exact h.earliest, fun n => by rw [db]; exact h.hot n,
      by rw [db]; exact h.latest, by rw [log]; exact h.head, fun hi => h.numbers (log ▸ hi),
      by rw [log]; exact h.reaches, h.within⟩
  | archived _ start pending db log =>
    obtain rfl : e = start := Option.some.inj (h.earliest.symm.trans pending.earliest)
    have hlast := (h.hot _).mp (pending.hot (cfg.archiveBatchSize - 1) (by omega))
    refine ⟨e + cfg.archiveBatchSize, l, ?_, fun n => ?_, ?_, by rw [log]; exact h.head,
      fun hi => h.numbers (log ▸ hi), ?_, by omega⟩
    · rw [db, commitBatch_metadata, deleteBatch_meta, Function.update_self]
    · rw [db, commitBatch_hotBlocks, deleteBatch_hot]
      have := h.hot n
      split
      · simp; omega
      · rw [this]; omega
    · rw [db, commitBatch_metadata, deleteBatch_meta, Function.update_of_ne (by decide)]
      exact h.latest
    · have := h.reaches
      rw [log]
      omega

lemma run_gapless (hsize : 1 ≤ cfg.archiveBatchSize) {ops : List Operation}
    (hrun : run (Node.operate cfg codec) (Node.init cfg) ops = some node)
    (hnext : Along (Node.operate cfg codec) (WritesNext cfg) (Node.init cfg) ops) :
    node.Unwritten ∨ ∃ e l, node.Gapless cfg e l := by
  refine (run_inv (I := fun node => node.Anchored cfg ∧ node.Good cfg ∧
    (node.Unwritten ∨ ∃ e l, node.Gapless cfg e l)) ?_
    ⟨Node.init_anchored cfg, Node.init_good cfg, Or.inl (Node.init_unwritten cfg)⟩ hnext
    hrun).2.2
  rintro node op node' ⟨hanchored, hg, h⟩ hcons hstep
  refine ⟨operate_anchored hanchored hstep, operate_good hg hstep, ?_⟩
  have hcursor := (operate_cursor hanchored.work hstep).1
  rcases h with h | ⟨e, l, h⟩
  · exact hcursor.unwritten h
  · exact Or.inr (hcursor.gapless hsize hg.store h hcons.2)

/-! ### Retention -/

/-- The numbers of the newest blocks, at most so many. -/
def Store.newest (s : Store) (count : ℕ) : List ℕ := (s.log.take count).map Prod.fst

/-- The newest `hot_storage_block_count` blocks stay in the hot tier if they were there. -/
def Retains (cfg : Config) (node node' : Node) : Prop :=
  ∀ n ∈ node.store.newest cfg.hotStorageBlockCount, node.store.db.hotBlocks.get n ≠ none →
    node'.store.db.hotBlocks.get n = node.store.db.hotBlocks.get n

/-- From the cursor to the latest block. -/
def Db.hotSpan (db : Db) (e : ℕ) : ℕ := (db.metadata .latestPersisted).getD 0 + 1 - e

/-- What the loop takes to get down to the count, rounded up to whole batches, is not more than
what is above the count, or it is more than there is. -/
def WholeBatches (cfg : Config) (db : Db) : Prop :=
  ∀ e ∈ db.metadata .earliestHot,
    (db.hotSpan e - cfg.hotStorageBlockCount) ⌈/⌉ cfg.archiveBatchSize * cfg.archiveBatchSize ≤
        db.hotSpan e - cfg.hotStorageBlockCount ∨
      db.hotSpan e < (db.hotSpan e - cfg.hotStorageBlockCount) ⌈/⌉ cfg.archiveBatchSize *
        cfg.archiveBatchSize

/-- Among the newest blocks of the hot tier are those above `l - count`. -/
lemma Node.Gapless.mem_newest {e l n count : ℕ} (h : node.Gapless cfg e l) (hn : e ≤ n)
    (hl : n ≤ l) (hcount : l < n + count) : n ∈ node.store.newest count := by
  have hreaches := h.reaches
  obtain ⟨⟨m, block⟩, hi⟩ : ∃ p, node.store.log[l - n]? = some p :=
    ⟨_, List.getElem?_eq_getElem (by omega)⟩
  have hnumber := h.numbers hi
  refine List.mem_map.mpr ⟨(m, block), List.mem_of_getElem? (i := l - n) ?_, by simp only; omega⟩
  rw [List.getElem?_take, if_pos (by omega), hi]

lemma Node.Gapless.newest_le {e l n count : ℕ} (h : node.Gapless cfg e l)
    (hn : n ∈ node.store.newest count) : n ≤ l ∧ l < n + count := by
  obtain ⟨⟨m, block⟩, hmem, rfl⟩ := List.mem_map.mp hn
  obtain ⟨i, hi⟩ := List.mem_iff_getElem?.mp hmem
  rw [List.getElem?_take] at hi
  split at hi
  · next hlt =>
    have := h.numbers hi
    simp only
    omega
  · cases hi

lemma ceilDiv_le_iff {x c : ℕ} (hc : 1 ≤ c) (j : ℕ) : x ⌈/⌉ c ≤ j ↔ x ≤ j * c := by
  rw [ceilDiv_le_iff_le_mul (by omega), Nat.mul_comm]

section Effect

variable {blocks : ℕ → Block} {k e l : ℕ} (hsize : 1 ≤ cfg.archiveBatchSize)
  (h : CycleEffect cfg codec blocks k node node') (hg : node.Gapless cfg e l)
  (hcount : 1 ≤ cfg.hotStorageBlockCount)

include hsize h hg hcount

/-- The last batch was due and it was complete. -/
lemma CycleEffect.bounds (hk : 1 ≤ k) : node.store.db.hotSpan e = l + 1 - e ∧
    (k - 1) * cfg.archiveBatchSize < node.store.db.hotSpan e - cfg.hotStorageBlockCount ∧
    k * cfg.archiveBatchSize ≤ l + 1 - e := by
  have hdue := h.due e hg.earliest (k - 1) (by omega)
  have hlatest : (node.store.db.metadata .latestPersisted).getD 0 = l := by
    rcases hg.latest with hlatest | ⟨hlatest, -⟩
    · rw [hlatest, Option.getD_some]
    · rw [hlatest, Option.getD_none] at hdue
      omega
  have hmul : cfg.archiveBatchSize ≤ k * cfg.archiveBatchSize := Nat.le_mul_of_pos_left _ hk
  have hleft : Leaves cfg node.store.db k (e + k * cfg.archiveBatchSize - 1) := by
    rw [leaves_iff hg.earliest]
    omega
  have hlast := (hg.hot _).mp (by rw [h.were _ hleft]; simp)
  rw [Db.hotSpan, hlatest]
  rw [hlatest] at hdue
  omega

/-- Nothing that was to stay has left exactly if the batches together are not more than what was
above the count. -/
lemma CycleEffect.retains_iff : Retains cfg node node' ↔
    k * cfg.archiveBatchSize ≤ node.store.db.hotSpan e - cfg.hotStorageBlockCount := by
  have hleaves : ∀ n, Leaves cfg node.store.db k n ↔ e ≤ n ∧ n < e + k * cfg.archiveBatchSize :=
    leaves_iff hg.earliest k
  rcases Nat.eq_zero_or_pos k with rfl | hk
  · refine iff_of_true (fun n _ _ => h.kept n (not_leaves_zero n)) ?_
    rw [Nat.zero_mul]
    exact Nat.zero_le _
  obtain ⟨hspan, -, hfull⟩ := h.bounds hsize hg hcount hk
  have hmul : cfg.archiveBatchSize ≤ k * cfg.archiveBatchSize := Nat.le_mul_of_pos_left _ hk
  rw [hspan]
  constructor
  · -- otherwise the oldest of the blocks that were to stay has left
    intro hretains
    by_contra hover
    obtain ⟨n, hn⟩ : ∃ n, n = max e (l + 1 - cfg.hotStorageBlockCount) := ⟨_, rfl⟩
    have hhot := (hg.hot n).mpr (by omega)
    have hkept := hretains n (hg.mem_newest (by omega) (by omega) (by omega)) hhot
    rw [h.gone n ((hleaves n).mpr (by omega))] at hkept
    exact hhot hkept.symm
  · intro hle n hn _
    obtain ⟨h1, h2⟩ := hg.newest_le hn
    refine h.kept n fun hleft => ?_
    have := (hleaves n).mp hleft
    omega

/-- A call keeps what it should wherever the blocks above the count come out as whole batches. -/
lemma CycleEffect.retains (hwhole : WholeBatches cfg node.store.db) : Retains cfg node node' := by
  rw [h.retains_iff hsize hg hcount]
  rcases Nat.eq_zero_or_pos k with rfl | hk
  · rw [Nat.zero_mul]
    exact Nat.zero_le _
  obtain ⟨hspan, hdue, hfull⟩ := h.bounds hsize hg hcount hk
  set above := node.store.db.hotSpan e - cfg.hotStorageBlockCount with habove
  rcases hwhole e hg.earliest with hle | hlt
  · -- the cursor has not moved over more batches than were due
    have hk' : k ≤ above ⌈/⌉ cfg.archiveBatchSize := by
      by_contra hmore
      have hdue : above ⌈/⌉ cfg.archiveBatchSize ≤ k - 1 := by omega
      have := (ceilDiv_le_iff hsize (k - 1)).mp hdue
      omega
    exact (Nat.mul_le_mul_right _ hk').trans hle
  · -- the batch that would have reached into the rest is not there
    have hk' : k < above ⌈/⌉ cfg.archiveBatchSize :=
      Nat.lt_of_mul_lt_mul_right (hfull.trans_lt (hspan ▸ hlt))
    have := mt (ceilDiv_le_iff (x := above) hsize k).mpr (Nat.not_le.mpr hk')
    omega

/-- When a call that keeps what it should has stopped, there was no other way. -/
lemma CycleEffect.wholeBatches (hstops : CycleStops cfg node'.store.db)
    (hretains : Retains cfg node node') : WholeBatches cfg node.store.db := by
  intro e' he'
  obtain rfl : e = e' := Option.some.inj (hg.earliest.symm.trans he')
  rw [h.retains_iff hsize hg hcount] at hretains
  set above := node.store.db.hotSpan e - cfg.hotStorageBlockCount with habove
  by_cases hreached : above ≤ k * cfg.archiveBatchSize
  · left
    have hq := (ceilDiv_le_iff hsize k).mpr hreached
    exact (Nat.mul_le_mul_right _ hq).trans hretains
  · right
    have hq : k + 1 ≤ above ⌈/⌉ cfg.archiveBatchSize := by
      by_contra hless
      exact hreached ((ceilDiv_le_iff hsize k).mp (by omega))
    have hmul := Nat.mul_le_mul_right cfg.archiveBatchSize hq
    rw [Nat.succ_mul] at hmul
    have he' : node'.store.db.metadata .earliestHot = some (e + k * cfg.archiveBatchSize) := by
      rw [h.earliest, hg.earliest, Option.map_some]
    rcases hstops _ he' with hsmall | ⟨⟨i, hi, hnone⟩, -⟩
    · rw [h.marks .latestPersisted (by decide)] at hsmall
      unfold Db.hotSpan at habove
      omega
    · have hkept : ¬ Leaves cfg node.store.db k (e + k * cfg.archiveBatchSize + i) := by
        rw [leaves_iff hg.earliest]
        omega
      rw [h.kept _ hkept] at hnone
      have hbeyond := mt (hg.hot _).mpr (not_not.mpr hnone)
      have hlatest : (node.store.db.metadata .latestPersisted).getD 0 ≤ l := by
        rcases hg.latest with hlatest | ⟨hlatest, -⟩
        · rw [hlatest, Option.getD_some]
        · rw [hlatest, Option.getD_none]
          exact Nat.zero_le _
      unfold Db.hotSpan
      omega

end Effect

/-- **A call of `run_archival_cycle` keeps the newest blocks in the hot tier if the blocks above the
count come out as whole batches, and a call that returns `Ok` only then.** -/
theorem retention_iff (codec : Codec) (hsize : 1 ≤ cfg.archiveBatchSize) {ops : List Operation}
    (hrun : run (Node.operate cfg codec) (Node.init cfg) ops = some node)
    (hnext : Along (Node.operate cfg codec) (WritesNext cfg) (Node.init cfg) ops)
    (fuel : ℕ) (outcomes : List Outcome) :
    (WholeBatches cfg node.store.db →
      Retains cfg node (node.runArchivalCycle cfg codec fuel outcomes).1) ∧
    ((node.runArchivalCycle cfg codec fuel outcomes).2 = .ok →
      (Retains cfg node (node.runArchivalCycle cfg codec fuel outcomes).1 ↔
        WholeBatches cfg node.store.db)) := by
  have hproper : node.store.db.Proper codec := (run_proper hrun).hot
  obtain ⟨blocks, hholds⟩ := hproper.holds
  obtain ⟨k, heffect, -, hstops⟩ := cycleFrom_effect hsize fuel outcomes hholds
  replace heffect := heffect.archiver .idle
  rcases run_gapless hsize hrun hnext with hnone | ⟨e, l, hg⟩
  · have hretains : Retains cfg node (node.runArchivalCycle cfg codec fuel outcomes).1 := by
      intro n hn
      simp [Store.newest, hnone.log] at hn
    have hwhole : WholeBatches cfg node.store.db := by
      intro e he
      rw [hnone.earliest] at he
      cases he
    exact ⟨fun _ => hretains, fun _ => iff_of_true hretains hwhole⟩
  rcases Nat.eq_zero_or_pos cfg.hotStorageBlockCount with hzero | hcount
  · have hretains : Retains cfg node (node.runArchivalCycle cfg codec fuel outcomes).1 := by
      intro n hn
      simp [Store.newest, hzero] at hn
    have hwhole : WholeBatches cfg node.store.db := by
      intro e _
      rw [hzero, Nat.sub_zero]
      exact le_or_gt _ _
    exact ⟨fun _ => hretains, fun _ => iff_of_true hretains hwhole⟩
  · exact ⟨heffect.retains hsize hg hcount, fun hok =>
      ⟨heffect.wholeBatches hsize hg hcount (hstops hok), heffect.retains hsize hg hcount⟩⟩

/-- A batch is as large as the hot tier is to be. -/
def evenConfig : Config :=
  { pairConfig with hotStorageBlockCount := 2, hot_le := pairConfig.batch_le }

theorem retention_iff_even : ∃ node, run (Node.operate evenConfig plainCodec)
    (Node.init evenConfig) (threeBlocks ++ [.write (headerBlock 3 [])]) = some node ∧
    WholeBatches evenConfig node.store.db ∧
    Retains evenConfig node (node.runArchivalCycle evenConfig plainCodec 3 []).1 := by
  have hsome : ∃ node ∈ run (Node.operate evenConfig plainCodec) (Node.init evenConfig)
      (threeBlocks ++ [.write (headerBlock 3 [])]),
      node.store.db.metadata .earliestHot = some 0 ∧ node.store.db.hotSpan 0 = 4 := by
    decide +kernel
  obtain ⟨node, hrun, hearliest, hspan⟩ := hsome
  have hwhole : WholeBatches evenConfig node.store.db := by
    intro e he
    obtain rfl : 0 = e := Option.some.inj (hearliest.symm.trans he)
    rw [hspan]
    decide
  exact ⟨node, hrun, hwhole, (retention_iff plainCodec (by decide) hrun (by decide +kernel) 3
    []).1 hwhole⟩

/-- Three blocks: the batch takes the older of the two that were to stay. -/
theorem retention_lost : ¬ ∀ (cfg : Config) (codec : Codec) (ops : List Operation) (node : Node)
    (fuel : ℕ) (outcomes : List Outcome), 1 ≤ cfg.archiveBatchSize →
    run (Node.operate cfg codec) (Node.init cfg) ops = some node →
    Along (Node.operate cfg codec) (WritesNext cfg) (Node.init cfg) ops →
    (node.runArchivalCycle cfg codec fuel outcomes).2 = .ok →
    Retains cfg node (node.runArchivalCycle cfg codec fuel outcomes).1 := by
  intro h
  have hsome : ∃ node ∈ run (Node.operate evenConfig plainCodec) (Node.init evenConfig) threeBlocks,
      (node.runArchivalCycle evenConfig plainCodec 3 []).2 = .ok ∧
      1 ∈ node.store.newest 2 ∧ node.store.db.hotBlocks.get 1 ≠ none ∧
      (node.runArchivalCycle evenConfig plainCodec 3 []).1.store.db.hotBlocks.get 1 = none := by
    decide +kernel
  obtain ⟨node, hrun, hok, hnew, hhot, hnone⟩ := hsome
  have hkept := h evenConfig plainCodec threeBlocks node 3 [] (by decide) hrun (by decide +kernel)
    hok 1 hnew hhot
  rw [hnone] at hkept
  exact hhot hkept.symm

end RockNode
