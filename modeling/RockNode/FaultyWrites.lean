import RockNode.ArchivalCycle
import RockNode.GapFills
import RockNode.Pipeline

/-!
`write_block` when operations of RocksDB fail.

Everything before the commit only fills a batch, so that an error there leaves the database as it
was. After the commit of a block that fills a gap there is still a division and a read.
-/

namespace RockNode

open RangeTable

variable {cfg : Config} {codec : Codec} {block : Block} {db : Db} {n : ℕ}

/-- What becomes of one read. A `get` that fails ends the call with an error. An iterator that
fails ends its scan without one: the entries from some key on are not seen. -/
inductive ReadOutcome where
  | ok
  | error
  | cut (bound : ℕ)

/-- The database as the read sees it. -/
def ReadOutcome.view (db : Db) : ReadOutcome → Option Db
  | .ok => some db
  | .error => none
  | .cut bound => some { db with gaps := db.gaps.below bound }

/-- What fails in one call: among its reads in turn, at the commit, and at the look for a
skipped batch after it. -/
structure WriteFaults where
  reads : List ReadOutcome
  commit : Bool
  check : Bool

/-- `write_block` with these faults. A fault of the arithmetic is a panic of the blocking task,
which the caller sees as an error too. -/
def tryWriteBlock (cfg : Config) (codec : Codec) (block : Block) (faults : WriteFaults) (db : Db) :
    Db × WriteResult :=
  match getBlockNumber block with
  | none => (db, .err)
  | some n =>
    match (prepareBatch cfg codec block n).runSeen (faults.reads.map (·.view db)) db with
    | none => (db, .err)
    | some (batch, wasGapFill) =>
      if faults.commit then (db, .err)
      else
        let db' := commitBatch batch db
        (db', if wasGapFill && faults.check then .err else notifyAfterWrite cfg n wasGapFill db')

/-- Without faults this is the call as it is everywhere else. -/
lemma tryWriteBlock_of_no_faults (cfg : Config) (codec : Codec) (block : Block) (db : Db) :
    tryWriteBlock cfg codec block ⟨[], false, false⟩ db = writeBlock cfg codec block db := by
  unfold tryWriteBlock writeBlock
  rcases getBlockNumber block with _ | n
  · rfl
  · simp only [List.map_nil, Prog.runSeen_nil]
    rcases (prepareBatch cfg codec block n).run db with _ | ⟨batch, wasGapFill⟩
    · rfl
    · simp

/-- Where `process_event` goes after the call. -/
def afterWrite (event : BlockEvent) : WriteResult → PersistTask
  | .ok _ => .broadcast event
  | .err => .mark event

lemma persisterStep_afterWrite {pcfg : PipelineConfig} {p : Pipeline} {event : BlockEvent}
    (h : p.persister = .write event block) :
    ∃ p', p.persisterStep pcfg codec = some p' ∧
      p'.persister = afterWrite event (writeBlock pcfg.persistence codec block p.store.db).2 := by
  unfold Pipeline.persisterStep
  rw [h]
  refine ⟨_, rfl, ?_⟩
  change (match (writeBlock pcfg.persistence codec block p.store.db).2 with
    | .ok _ => PersistTask.broadcast event
    | .err => PersistTask.mark event) = _
  rcases (writeBlock pcfg.persistence codec block p.store.db).2 with _ | _ <;> rfl

/-- A call that returns an error has changed nothing, and a block for which `BlockPersisted` is
withheld has not been stored. -/
structure AllOrNothing (db : Db) (result : Db × WriteResult) : Prop where
  unchanged : result.2 = .err → result.1 = db
  announced : ∀ event, afterWrite event result.2 ≠ .broadcast event → result.1 = db

lemma AllOrNothing.of_unchanged {result : Db × WriteResult} (h : result.2 = .err → result.1 = db) :
    AllOrNothing db result := by
  refine ⟨h, fun event hne => h ?_⟩
  rcases hresult : result.2 with notified | _
  · rw [hresult] at hne
    exact absurd rfl hne
  · rfl

/-! ### What the reads can see -/

/-- The metadata are there, and no gap is seen that is not in the table. -/
structure Sees (db seen : Db) : Prop where
  metadata : seen.metadata = db.metadata
  gaps : ∀ {a b}, seen.gaps.get a = some b → db.gaps.get a = some b

lemma Sees.refl (db : Db) : Sees db db := ⟨rfl, fun h => h⟩

lemma sees_view {outcome : ReadOutcome} {seen : Db} (h : outcome.view db = some seen) :
    Sees db seen := by
  cases outcome with
  | ok =>
    cases h
    exact .refl _
  | error => cases h
  | cut bound =>
    cases h
    refine ⟨rfl, fun {a b} hget => ?_⟩
    change (db.gaps.below bound).get a = some b at hget
    rw [SortedMap.get_below] at hget
    split at hget
    · exact hget
    · cases hget

lemma sees_views {outcomes : List ReadOutcome} {seen : Db}
    (h : some seen ∈ outcomes.map (·.view db)) : Sees db seen := by
  obtain ⟨outcome, -, hview⟩ := List.mem_map.mp h
  exact sees_view hview

/-- A number outside all gaps is not seen inside one. -/
lemma findContainingGap_none (h : ¬ Covers db.gaps n) :
    (findContainingGap n).EnsuresOn (Sees db) (· = none) := by
  refine Prog.EnsuresOn.bind (P := fun entry => containing n entry = none) ?_ fun entry h => h
  refine Prog.ensuresOn_get fun seen hseen => ?_
  rcases hseek : seen.gaps.seekLE n with _ | ⟨a, b⟩
  · rfl
  · have hget := hseen.gaps (SortedMap.seekLE_eq_some.mp hseek).1
    simp only [containing]
    rw [if_neg]
    exact fun hin => h ⟨a, b, hget, hin⟩

/-- The call then does not take the block for a gap fill. -/
lemma prepareBatch_not_gapFill (cfg : Config) (codec : Codec) (block : Block)
    (h : ¬ Covers db.gaps n) :
    (prepareBatch cfg codec block n).EnsuresOn (Sees db) fun r => r.2 = false := by
  refine (findContainingGap_none h).bind fun gap hgap => ?_
  refine (Prog.ensuresOn_true _ _).bind fun persisted _ => ?_
  refine (Prog.ensuresOn_true _ _).bind fun earliest _ => ?_
  refine (Prog.ensuresOn_true _ _).bind fun current _ => ?_
  refine (Prog.ensuresOn_true _ _).bind fun contiguous _ => ?_
  refine (Prog.ensuresOn_true _ _).bind fun hot _ => ?_
  change gap.isSome = false
  rw [hgap]
  rfl

/-! ### Where the numbers end -/

/-- The walk from the last number but one overflows, whatever is seen of the table. -/
lemma walkFrom_last (hgaps : ¬ Covers db.gaps u64Max) :
    (walkFrom u64Max (u64Max - 1)).EnsuresOn (Sees db) fun _ => False := by
  have hfuel : u64Max + 1 - u64Max = 1 := by decide
  have hnext : addU64 (u64Max - 1) 1 = .ret u64Max := addU64_of_le (by decide)
  unfold walkFrom
  rw [hnext]
  change (walk u64Max (u64Max + 1 - u64Max) (u64Max - 1) u64Max).EnsuresOn _ _
  rw [hfuel]
  unfold walk
  rw [if_pos le_rfl]
  refine (findContainingGap_none hgaps).bind fun gap hgap => ?_
  subst hgap
  rw [addU64_of_gt (by decide)]
  trivial

/-- The batch of a call is never made when the call without faults overflows. -/
lemma prepareBatch_overflow {s : Store} (hg : s.Good cfg) (codec : Codec) (block : Block)
    (hin : Covers s.db.gaps n) (h : (prepareBatch cfg codec block n).run s.db = none) :
    (prepareBatch cfg codec block n).EnsuresOn (Sees s.db) fun _ => False := by
  have hlt : highestContiguous s.db < u64Max := hg.ok.highest_lt
  have hmax : latestOrSeed cfg s.db ≤ u64Max := hg.ok.latest_le
  have habove : ∀ {m}, highestContiguous s.db < m →
      (Covers s.db.gaps m ↔ m < latestOrSeed cfg s.db) := hg.ok.above
  -- only the number after the frontier can overflow
  have hn : n = highestContiguous s.db + 1 := by
    by_contra hne
    rw [prepareBatch_run] at h
    rcases Nat.lt_or_ge (highestContiguous s.db + 1) n with hjump | hle
    · rw [contiguousOps_jump hg hjump] at h
      cases h
    · rw [contiguousOps_below hg (by omega)] at h
      cases h
  have hreach : (s.marks cfg).reach n = u64Max := by
    by_contra hne
    rw [prepareBatch_run, hn, contiguousOps_next hg rfl, ← hn, if_neg hne] at h
    cases h
  have hbelow : n < latestOrSeed cfg s.db := (habove (by omega)).mp hin
  have hlatest : n + 1 = latestOrSeed cfg s.db ∧ latestOrSeed cfg s.db = u64Max := by
    rw [Store.marks_reach] at hreach
    split at hreach
    · next hadj => exact ⟨hadj, hreach⟩
    · omega
  have hout : ¬ Covers s.db.gaps u64Max := by
    rw [habove hlt]
    omega
  refine (Prog.ensuresOn_true _ _).bind fun gap _ => ?_
  refine (Prog.ensuresOn_get (P := (· = s.db.metadata .latestPersisted)) fun seen hseen =>
    congrFun hseen.metadata _).bind fun persisted hpersisted => ?_
  refine (Prog.ensuresOn_true _ _).bind fun earliest _ => ?_
  refine (Prog.ensuresOn_get (P := (· = highestContiguous s.db)) fun seen hseen => by
    rw [hseen.metadata]; rfl).bind fun current hcurrent => ?_
  have hnew : max (persisted.getD cfg.seed) n = u64Max := by
    rw [hpersisted]
    change max (latestOrSeed cfg s.db) n = u64Max
    omega
  refine Prog.EnsuresOn.bind (P := fun _ => False) ?_ fun _ h => h.elim
  rw [hnew, hcurrent]
  unfold contiguousOps
  rw [addU64_of_le (by omega)]
  change (if n > highestContiguous s.db + 1 then _ else _ : Prog Db WriteBatch).EnsuresOn _ _
  rw [if_neg (by omega), if_pos hn]
  have hlast : n = u64Max - 1 := by omega
  rw [hlast]
  exact (walkFrom_last hout).bind fun _ h => h.elim

/-! ### A failure after the commit -/

/-- The look for a skipped batch fails after these reads. -/
def lateFault (reads : List ReadOutcome) : WriteFaults := ⟨reads, false, true⟩

lemma tryWriteBlock_late {reads : List ReadOutcome} {batch : WriteBatch}
    (hn : getBlockNumber block = some n)
    (h : (prepareBatch cfg codec block n).runSeen (reads.map (·.view db)) db = some (batch, true)) :
    tryWriteBlock cfg codec block (lateFault reads) db = (commitBatch batch db, .err) := by
  simp [tryWriteBlock, hn, lateFault, h]

/-- Both iterators of `add_gap_range` fail at once, and only the new range is recorded. -/
lemma prepareBatch_blind {s : Store} (hg : s.Good cfg) (codec : Codec) (block : Block)
    (hjump : highestContiguous s.db + 1 < n) :
    (prepareBatch cfg codec block n).runSeen
      (([.ok, .ok, .ok, .ok, .cut 0, .cut 0] : List ReadOutcome).map (·.view s.db)) s.db =
      some (fullBatch cfg codec block n (s.db.metadata .latestPersisted)
        (s.db.metadata .trueEarliestPersisted) (s.db.metadata .earliestHot)
        [.putGap (highestContiguous s.db + 1) (n - 1)], (gapAt s.db.gaps n).isSome) := by
  have hlt : highestContiguous s.db < u64Max := hg.ok.highest_lt
  have hops : contiguousOps n (max (latestOrSeed cfg s.db) n) (highestContiguous s.db) =
      addGapRange (highestContiguous s.db + 1) (n - 1) := by
    unfold contiguousOps
    rw [addU64_of_le (by omega)]
    change (if n > highestContiguous s.db + 1 then _ else _ : Prog Db WriteBatch) = _
    rw [if_pos hjump]
  have hview : ReadOutcome.view s.db (.cut 0) = some { s.db with gaps := .empty } := by
    have hempty : s.db.gaps.below 0 = .empty :=
      SortedMap.ext_get fun k => by simp [SortedMap.get_below]
    rw [ReadOutcome.view, hempty]
  have hrest : (prepareBatch cfg codec block n).runSeen
      (([.ok, .ok, .ok, .ok, .cut 0, .cut 0] : List ReadOutcome).map (·.view s.db)) s.db =
      (contiguousOps n (max (latestOrSeed cfg s.db) n) (highestContiguous s.db) >>= fun ops => do
        let hot ← initializeEarliestHot n
        pure (addBlockToBatch codec block n
          ++ (if max (latestOrSeed cfg s.db) n > latestOrSeed cfg s.db then
            setLatestPersisted (max (latestOrSeed cfg s.db) n) else [])
          ++ (if (s.db.metadata .trueEarliestPersisted).isNone then
            setTrueEarliestPersisted n else [])
          ++ ops ++ hot, (gapAt s.db.gaps n).isSome)).runSeen
        [ReadOutcome.view s.db (.cut 0), ReadOutcome.view s.db (.cut 0)] s.db := rfl
  rw [hrest, hops, hview]
  unfold addGapRange
  rw [if_neg (by omega)]
  rfl

/-- **Every gap fill can fail late.** Some run of the call commits a change and then fails. -/
lemma exists_late {s : Store} (hg : s.Good cfg) (codec : Codec) (block : Block)
    (hin : Covers s.db.gaps n) (h : (prepareBatch cfg codec block n).run s.db ≠ none) :
    ∃ (reads : List ReadOutcome) (batch : WriteBatch),
      (prepareBatch cfg codec block n).runSeen (reads.map (·.view s.db)) s.db =
        some (batch, true) ∧ commitBatch batch s.db ≠ s.db := by
  have hfill : (gapAt s.db.gaps n).isSome = true := (gapAt_isSome hg.canonical n).mpr hin
  have hplain : ∀ {ops}, (contiguousOps n (max (latestOrSeed cfg s.db) n)
      (highestContiguous s.db)).run s.db = some ops →
      (prepareBatch cfg codec block n).runSeen (([] : List ReadOutcome).map (·.view s.db)) s.db =
        some (fullBatch cfg codec block n (s.db.metadata .latestPersisted)
          (s.db.metadata .trueEarliestPersisted) (s.db.metadata .earliestHot) ops, true) := by
    intro ops hops
    rw [List.map_nil, Prog.runSeen_nil, prepareBatch_run, hops, hfill]
    rfl
  rcases Nat.lt_trichotomy n (highestContiguous s.db + 1) with hbelow | hnext | hjump
  · -- the block leaves its gap
    refine ⟨[], _, hplain (contiguousOps_below hg (by omega)), fun hsame => ?_⟩
    have hgaps := congrArg Db.gaps hsame
    rw [commitBatch_gaps, fullBatch_gaps, batchGaps_append] at hgaps
    change batchGaps (splitGap n (gapAt s.db.gaps n)) s.db.gaps = s.db.gaps at hgaps
    have hout := (splitGap_spec hg.canonical hg.bounded n).2.2 n
    rw [hgaps] at hout
    exact (hout.mp hin).2 rfl
  · -- the frontier moves
    have hreach : (s.marks cfg).reach n ≠ u64Max := by
      intro heq
      rw [prepareBatch_run, contiguousOps_next hg hnext, if_pos heq] at h
      exact h rfl
    refine ⟨[], _, hplain ((contiguousOps_next hg hnext).trans (if_neg hreach)),
      fun hsame => ?_⟩
    have hhighest := congrFun (congrArg Db.metadata hsame) .highestContiguous
    rw [commitBatch_metadata, fullBatch_highest] at hhighest
    have hsame : highestContiguous s.db = (s.marks cfg).reach n := by
      rw [highestContiguous, ← hhighest]
      rfl
    rw [Store.marks_reach] at hsame
    split at hsame <;> omega
  · -- with nothing seen of the table, the new range takes the place of the old one
    refine ⟨_, _, (prepareBatch_blind hg codec block hjump).trans (by rw [hfill]), ?_⟩
    intro hsame
    have hgaps := congrArg (fun db => db.gaps.get (highestContiguous s.db + 1)) hsame
    simp only [commitBatch_gaps, fullBatch_gaps] at hgaps
    change (s.db.gaps.put (highestContiguous s.db + 1) (n - 1)).get _ = _ at hgaps
    rw [SortedMap.get_put_self] at hgaps
    obtain ⟨a, b, hget, ha, hb⟩ := hin
    rcases Nat.lt_trichotomy a (highestContiguous s.db + 1) with hlt | rfl | hgt
    · have := hg.canonical.apart hget hgaps.symm hlt
      omega
    · have : b = n - 1 := Option.some.inj (hget.symm.trans hgaps.symm)
      omega
    · have := hg.canonical.apart hgaps.symm hget hgt
      omega

/-- A block outside all gaps is stored without a word, or not stored. -/
lemma tryWriteBlock_unchanged (hn : getBlockNumber block = some n) (h : ¬ Covers db.gaps n)
    (faults : WriteFaults) (herr : (tryWriteBlock cfg codec block faults db).2 = .err) :
    (tryWriteBlock cfg codec block faults db).1 = db := by
  unfold tryWriteBlock at herr ⊢
  simp only [hn] at herr ⊢
  rcases hrun : (prepareBatch cfg codec block n).runSeen (faults.reads.map (·.view db)) db with
    _ | ⟨batch, wasGapFill⟩
  · simp only [hrun]
  · have hfill : wasGapFill = false := (prepareBatch_not_gapFill cfg codec block h).of_runSeen
      (fun _ hmem => sees_views hmem) (Sees.refl db) hrun
    subst hfill
    simp only [hrun] at herr ⊢
    by_cases hcommit : faults.commit = true
    · rw [if_pos hcommit]
    · rw [if_neg hcommit] at herr
      cases herr

/-- **When `write_block` is all or nothing.** In a state that the service can reach, whichever of
its operations fail, a call that returns an error has changed nothing exactly when the block lies in
no recorded gap, or when it is at the end of the numbers, so that the call overflows before the
commit. -/
theorem writeBlock_allOrNothing_iff {ops : List Operation} {node : Node}
    (hrun : run (Node.operate cfg codec) (Node.init cfg) ops = some node) (block : Block) :
    (∀ faults, AllOrNothing node.store.db
      (tryWriteBlock cfg codec block faults node.store.db)) ↔
      ∀ n, getBlockNumber block = some n → gapAt node.store.db.gaps n = none ∨
        node.store.AtEnd cfg n := by
  have hg := (run_good hrun).store
  have hend : ∀ n, (prepareBatch cfg codec block n).run node.store.db = none ↔
      node.store.AtEnd cfg n := prepareBatch_eq_none_iff hg codec block
  constructor
  · intro hall n hn
    by_contra hneither
    rw [not_or, gapAt_eq_none hg.canonical, not_not] at hneither
    obtain ⟨reads, batch, hseen, hchanged⟩ :=
      exists_late hg codec block hneither.1 (mt (hend n).mp hneither.2)
    have hlate := tryWriteBlock_late hn hseen
    have hsame := (hall (lateFault reads)).unchanged (by rw [hlate])
    rw [hlate] at hsame
    exact hchanged hsame
  · intro h faults
    refine .of_unchanged fun herr => ?_
    rcases hn : getBlockNumber block with _ | n
    · simp only [tryWriteBlock, hn]
    · by_cases hin : Covers node.store.db.gaps n
      · have hfault := (hend n).mpr ((h n hn).resolve_left fun hnone =>
          (gapAt_eq_none hg.canonical n).mp hnone hin)
        have hnone : (prepareBatch cfg codec block n).runSeen
            (faults.reads.map (·.view node.store.db)) node.store.db = none := by
          rw [Option.eq_none_iff_forall_ne_some]
          intro result hresult
          exact (prepareBatch_overflow hg codec block hin hfault).of_runSeen
            (fun _ hmem => sees_views hmem) (Sees.refl _) hresult
        simp only [tryWriteBlock, hn, hnone]
      · exact tryWriteBlock_unchanged hn hin faults herr

/-- After block 0 comes block 1, in no gap. -/
theorem writeBlock_allOrNothing_iff_next : ∃ node,
    run (Node.operate zeroConfig plainCodec) (Node.init zeroConfig)
      [.write (headerBlock 0 [])] = some node ∧
    ∀ faults, AllOrNothing node.store.db
      (tryWriteBlock zeroConfig plainCodec (headerBlock 1 []) faults node.store.db) := by
  have hsome : ∃ node ∈ run (Node.operate zeroConfig plainCodec) (Node.init zeroConfig)
      [.write (headerBlock 0 [])], gapAt node.store.db.gaps 1 = none := by decide +kernel
  obtain ⟨node, hrun, hgap⟩ := hsome
  refine ⟨node, hrun, (writeBlock_allOrNothing_iff hrun _).mpr fun n hn => Or.inl ?_⟩
  obtain rfl : 1 = n := Option.some.inj hn
  exact hgap

/-- With batches of no blocks, the block that fills a gap is stored and then the division panics,
although nothing fails. -/
theorem writeBlock_not_allOrNothing : ¬ ∀ (cfg : Config) (codec : Codec) (ops : List Operation)
    (node : Node) (block : Block) (faults : WriteFaults),
    run (Node.operate cfg codec) (Node.init cfg) ops = some node →
      AllOrNothing node.store.db (tryWriteBlock cfg codec block faults node.store.db) := by
  intro h
  have hsome : ∃ node ∈ run (Node.operate emptyBatchConfig plainCodec)
      (Node.init emptyBatchConfig) [.write (headerBlock 2 [])],
      (tryWriteBlock emptyBatchConfig plainCodec (headerBlock 1 []) ⟨[], false, false⟩
        node.store.db).2 = .err ∧
      node.store.db.hotBlocks.get 1 = none ∧
      (tryWriteBlock emptyBatchConfig plainCodec (headerBlock 1 []) ⟨[], false, false⟩
        node.store.db).1.hotBlocks.get 1 ≠ none := by decide +kernel
  obtain ⟨node, hrun, herr, hbefore, hafter⟩ := hsome
  have hsame := (h _ _ _ node _ ⟨[], false, false⟩ hrun).unchanged herr
  rw [hsame] at hafter
  exact hafter hbefore

end RockNode
