import RockNode.Cursor
import RockNode.DurableRuns

/-!
Which gap fills wake the archiver.

The archiver records an incomplete batch under its real start, the cursor; `write_block` looks
for it under the start that the block number rounds down to. The cursor moves in whole batches
from the first number ever written, so the two agree or disagree for good.
-/

namespace RockNode

open RangeTable

variable {cfg : Config} {codec : Codec} {node node' : Node} {op : Operation}

/-! ### Where the cursor comes from -/

/-- The number of the first block that `write_block` has stored. -/
def Store.firstWritten (s : Store) : Option ℕ := s.log.getLast?.map Prod.fst

/-- Later blocks do not change which one was the first. -/
lemma Store.firstWritten_cons {s s' : Store} {e : ℕ × Block} {first : ℕ}
    (hlog : s'.log = e :: s.log) (h : s.firstWritten = some first) :
    s'.firstWritten = some first := by
  obtain ⟨⟨_, b⟩, hlast, rfl⟩ := Option.map_eq_some_iff.mp h
  rw [Store.firstWritten, hlog, List.getLast?_cons, hlast]
  rfl

/-- The cursor is a whole number of batches past the first number written. -/
structure CursorFrom (cfg : Config) (s : Store) : Prop where
  unset : s.db.metadata .earliestHot = none → s.log = []
  batches : ∀ e, s.db.metadata .earliestHot = some e →
    ∃ first k, s.firstWritten = some first ∧ e = first + k * cfg.archiveBatchSize

lemma Store.init_cursorFrom (cfg : Config) : CursorFrom cfg (Store.init cfg) where
  unset _ := rfl
  batches e he := by
    cases (Store.init_metadata cfg _).symm.trans he

lemma CursorStep.cursorFrom (hstep : CursorStep cfg codec node op node')
    (h : CursorFrom cfg node.store) : CursorFrom cfg node'.store := by
  cases hstep with
  | still _ same log =>
    refine ⟨fun he => ?_, fun e he => ?_⟩
    · rw [log]
      exact h.unset (same.earliest.symm.trans he)
    · rw [Store.firstWritten, log]
      exact h.batches e (same.earliest.symm.trans he)
  | wrote block n _ _ earliest _ _ log =>
    refine ⟨fun he => ?_, fun e he => ?_⟩
    · rw [earliest] at he
      cases he
    rw [earliest] at he
    rcases hold : node.store.db.metadata .earliestHot with _ | e'
    · -- the first write of all
      rw [hold] at he
      cases he
      rw [Store.firstWritten, log, h.unset hold]
      exact ⟨n, 0, rfl, by simp⟩
    · rw [hold] at he
      cases he
      obtain ⟨first, k, hfirst, heq⟩ := h.batches _ hold
      exact ⟨first, k, Store.firstWritten_cons log hfirst, heq⟩
  | skipped _ start _ db log =>
    refine ⟨fun he => ?_, fun e he => ?_⟩
    · rw [log]
      rw [db] at he
      exact h.unset he
    · rw [Store.firstWritten, log]
      rw [db] at he
      exact h.batches e he
  | archived _ start pending db log =>
    have hearliest : node'.store.db.metadata .earliestHot =
        some (start + cfg.archiveBatchSize) := by
      rw [db, commitBatch_metadata, deleteBatch_meta, Function.update_self]
    refine ⟨fun he => ?_, fun e he => ?_⟩
    · rw [hearliest] at he
      cases he
    · rw [hearliest] at he
      cases he
      obtain ⟨first, k, hfirst, heq⟩ := h.batches start pending.earliest
      refine ⟨first, k + 1, by rw [Store.firstWritten, log]; exact hfirst, ?_⟩
      rw [Nat.succ_mul]
      omega

lemma run_cursorFrom {ops : List Operation}
    (hrun : run (Node.operate cfg codec) (Node.init cfg) ops = some node) :
    CursorFrom cfg node.store := by
  suffices hinv : node.Anchored cfg ∧ CursorFrom cfg node.store from hinv.2
  refine run_inv_of_step (I := fun node => node.Anchored cfg ∧ CursorFrom cfg node.store) ?_
    ⟨Node.init_anchored cfg, Store.init_cursorFrom cfg⟩ hrun
  rintro node op node' ⟨h, hfrom⟩ hstep
  exact ⟨operate_anchored h hstep, (operate_cursor h.work hstep).1.cursorFrom hfrom⟩

/-! ### The notification -/

/-- A number of a batch rounds down to the start of the batch exactly when the start is a multiple
of the size. -/
lemma roundDown_eq_iff {b start size : ℕ} (hle : start ≤ b) (hlt : b < start + size) :
    b / size * size = start ↔ size ∣ start := by
  constructor
  · rintro rfl
    exact Nat.dvd_mul_left size _
  · rintro ⟨q, rfl⟩
    have hpos : 0 < size := by omega
    have hq : b / size = q := by
      rw [Nat.div_eq_iff hpos]
      constructor
      · rw [Nat.mul_comm]
        exact hle
      · rw [Nat.mul_comm]
        omega
    rw [hq, Nat.mul_comm]

/-- What a call does that stores a number out of a recorded gap: it looks for the batch under the
rounded number. -/
lemma writeBlock_gapFill (hsize : 1 ≤ cfg.archiveBatchSize) (hcan : Canonical node.store.db.gaps)
    {block : Block} {b : ℕ}
    (hstored : (Operation.write block).commits cfg codec node.store.db = some b)
    (hgap : Covers node.store.db.gaps b) :
    (writeBlock cfg codec block node.store.db).2 =
      .ok (isBatchSkipped (b / cfg.archiveBatchSize * cfg.archiveBatchSize) node.store.db) := by
  have hsome : (gapAt node.store.db.gaps b).isSome = true := (gapAt_isSome hcan b).mpr hgap
  simp only [Operation.commits, Option.bind_eq_bind, Option.bind_eq_some_iff, Option.pure_def,
    Option.some.injEq] at hstored
  obtain ⟨n, hn, prepared, hrun, rfl⟩ := hstored
  rw [prepareBatch_run] at hrun
  obtain ⟨ops, hops, -⟩ := Option.map_eq_some_iff.mp hrun
  have hskipped := fullBatch_skipped cfg codec block n (node.store.db.metadata .latestPersisted)
    (node.store.db.metadata .trueEarliestPersisted) (node.store.db.metadata .earliestHot)
    ((contiguousOps_ensures _ _ _).of_run hops) node.store.db.skippedBatches
  simp only [writeBlock, hn, prepareBatch_run, hops, Option.map_some, hsome, notifyAfterWrite,
    if_true, isBatchSkipped, commitBatch_skippedBatches, hskipped]
  rw [if_neg (by omega)]

/-- **Which gap fills wake the archiver.** In any state the service has reached, a call that stores
a number of the skipped batch out of a recorded gap notifies the archiver exactly when the first
number ever written is a multiple of the batch size. -/
theorem gapFill_notifies_iff (hsize : 1 ≤ cfg.archiveBatchSize) {ops : List Operation}
    (hrun : run (Node.operate cfg codec) (Node.init cfg) ops = some node) {start b : ℕ}
    (hskipped : isBatchSkipped start node.store.db = true) {block : Block}
    (hstored : (Operation.write block).lands cfg node.store = some b) (hle : start ≤ b)
    (hlt : b < start + cfg.archiveBatchSize) (hgap : Covers node.store.db.gaps b) :
    ∃ first, node.store.firstWritten = some first ∧
      ((writeBlock cfg codec block node.store.db).2 = .ok true ↔ cfg.archiveBatchSize ∣ first) := by
  have honly := (run_anchored hrun).skipped
  obtain ⟨first, k, hfirst, heq⟩ := (run_cursorFrom hrun).batches start (honly start hskipped)
  refine ⟨first, hfirst, ?_⟩
  have hg := (run_good hrun).store
  rw [← Operation.commits_eq_lands hg codec] at hstored
  rw [writeBlock_gapFill hsize hg.canonical hstored hgap, WriteResult.ok.injEq]
  calc isBatchSkipped (b / cfg.archiveBatchSize * cfg.archiveBatchSize) node.store.db = true
      ↔ b / cfg.archiveBatchSize * cfg.archiveBatchSize = start := by
        refine ⟨fun h => ?_, fun h => h ▸ hskipped⟩
        exact Option.some.inj ((honly _ h).symm.trans (honly start hskipped))
    _ ↔ cfg.archiveBatchSize ∣ start := roundDown_eq_iff hle hlt
    _ ↔ cfg.archiveBatchSize ∣ first := by
        rw [heq]
        exact Nat.dvd_add_left (Nat.dvd_mul_left _ k)

/-- Two blocks with a gap between them, and the archiver finds the batch at the first one
incomplete. -/
def skippingRun (first third : UInt64) : List Operation :=
  [.write (headerBlock first []), .write (headerBlock third []), .trigger, .archive .ok]

/-- Blocks 0 and 2: block 1 wakes the archiver. -/
theorem gapFill_notifies_iff_even : ∃ node,
    run (Node.operate pairConfig plainCodec) (Node.init pairConfig) (skippingRun 0 2) =
      some node ∧
    isBatchSkipped 0 node.store.db = true ∧ Covers node.store.db.gaps 1 ∧
    (writeBlock pairConfig plainCodec (headerBlock 1 []) node.store.db).2 = .ok true := by
  have hsome : ∃ node ∈ run (Node.operate pairConfig plainCodec) (Node.init pairConfig)
      (skippingRun 0 2), isBatchSkipped 0 node.store.db = true ∧
      (Operation.write (headerBlock 1 [])).lands pairConfig node.store = some 1 ∧
      node.store.db.gaps.get 1 = some 1 ∧ node.store.firstWritten = some 0 := by decide +kernel
  obtain ⟨node, hrun, hskipped, hstored, hget, hzero⟩ := hsome
  have hgap : Covers node.store.db.gaps 1 := ⟨1, 1, hget, le_rfl, le_rfl⟩
  obtain ⟨first, hfirst, hiff⟩ :=
    gapFill_notifies_iff (by decide) hrun hskipped hstored (by decide) (by decide) hgap
  obtain rfl : first = 0 := Option.some.inj (hfirst.symm.trans hzero)
  exact ⟨node, hrun, hskipped, hgap, hiff.mpr (by decide)⟩

/-- Blocks 1 and 3: block 2 completes the skipped batch and the archiver sleeps on. -/
theorem gapFill_not_notifies : ¬ ∀ (cfg : Config) (codec : Codec) (ops : List Operation)
    (node : Node) (start b : ℕ) (block : Block), 1 ≤ cfg.archiveBatchSize →
    run (Node.operate cfg codec) (Node.init cfg) ops = some node →
    isBatchSkipped start node.store.db = true →
    (Operation.write block).lands cfg node.store = some b → start ≤ b →
    b < start + cfg.archiveBatchSize → Covers node.store.db.gaps b →
    (writeBlock cfg codec block node.store.db).2 = .ok true := by
  intro h
  have hsome : ∃ node ∈ run (Node.operate pairConfig plainCodec) (Node.init pairConfig)
      (skippingRun 1 3), isBatchSkipped 1 node.store.db = true ∧
      (Operation.write (headerBlock 2 [])).lands pairConfig node.store = some 2 ∧
      node.store.db.gaps.get 2 = some 2 ∧
      (writeBlock pairConfig plainCodec (headerBlock 2 []) node.store.db).2 = .ok false := by
    decide +kernel
  obtain ⟨node, hrun, hskipped, hstored, hget, hsilent⟩ := hsome
  have hwoken := h _ _ _ node 1 2 _ (by decide) hrun hskipped hstored (by decide) (by decide)
    ⟨2, 2, hget, le_rfl, le_rfl⟩
  rw [hsilent] at hwoken
  cases hwoken

end RockNode
