import RockNode.DurableRuns
import RockNode.Relocation

/-!
An archival cycle, whatever its steps end in.

The errors of reading the batch, of writing the archive and of the delete commit end the cycle
before anything has left the hot tier. A failed `load_index_file` does not: the blocks are
deleted although nobody can find them in cold storage.
-/

namespace RockNode

variable {cfg : Config} {codec : Codec} {node node' : Node} {n : ℕ} {v : Bytes}

/-- One call of `run_archival_cycle`, with what its steps end in. -/
def archivalCycle (outcomes : List Outcome) : List Operation :=
  .trigger :: outcomes.map .archive

/-- The index is loaded when it comes to that, and a batch is chosen only if its blocks fit the
length field of their records and it stands apart from the chunks that are loaded. -/
def ArchivesSafely (cfg : Config) (codec : Codec) (node : Node) (op : Operation) : Prop :=
  LoadsIndex node op ∧
    AtLoop (fun node => BatchFits cfg codec node.store.db ∧ BatchApart cfg node) node op

instance ArchivesSafely.decidable (cfg : Config) (codec : Codec) (node : Node) (op : Operation) :
    Decidable (ArchivesSafely cfg codec node op) :=
  inferInstanceAs (Decidable (_ ∧ _))

/-- The number is read as these bytes, and the archiver will not change that. -/
structure Kept (cfg : Config) (codec : Codec) (n : ℕ) (v : Bytes) (node : Node) : Prop where
  proper : node.Proper codec
  work : Work cfg codec node n
  read : node.readBlock codec n = some (some v)

lemma attempt_kept (hsize : 1 ≤ cfg.archiveBatchSize) (h : Kept cfg codec n v node)
    {outcome : Outcome} (hsafe : ArchivesSafely cfg codec node (.archive outcome)) :
    Kept cfg codec n v (node.attempt cfg codec outcome) := by
  have hstep := attempt_step h.work hsafe.1
  refine ⟨attempt_proper h.proper outcome, hstep.work hsize h.proper.hot fun hloop => ?_,
    hstep.reads hsize h.proper.loaded h.read⟩
  exact hsafe.2 (by rw [hloop]; rfl)

lemma run_attempts_kept (hsize : 1 ≤ cfg.archiveBatchSize) {outcomes : List Outcome}
    (h : Kept cfg codec n v node)
    (hrun : run (Node.operate cfg codec) node (outcomes.map .archive) = some node')
    (hsafe : Along (Node.operate cfg codec) (ArchivesSafely cfg codec) node
      (outcomes.map .archive)) : Kept cfg codec n v node' := by
  induction outcomes generalizing node with
  | nil =>
    cases hrun
    exact h
  | cons outcome outcomes ih =>
    obtain ⟨hfirst, hrest⟩ := hsafe
    exact ih (attempt_kept hsize h hfirst) hrun hrest

/-- **Archival never makes a block unreadable**, from any store that can be reached and with any
outcome of its steps, as long as the index is loaded and the batch fits and stands apart. -/
theorem archival_keeps_reads {cfg : Config} (codec : Codec) (hsize : 1 ≤ cfg.archiveBatchSize)
    {ops : List Operation} {node node' : Node}
    (hrun : run (Node.operate cfg codec) (Node.init cfg) ops = some node)
    (hidle : node.archiver = .idle) {outcomes : List Outcome}
    (hcycle : run (Node.operate cfg codec) node (archivalCycle outcomes) = some node')
    (hsafe : Along (Node.operate cfg codec) (ArchivesSafely cfg codec) node
      (archivalCycle outcomes)) {n : ℕ} {v : Bytes}
    (hread : node.readBlock codec n = some (some v)) :
    node'.readBlock codec n = some (some v) := by
  have htrigger : node.operate cfg codec .trigger = some { node with archiver := .looping } := by
    simp only [Node.operate, Node.step, hidle]
  rw [archivalCycle, run_cons htrigger] at hcycle
  have hsafe' := ((along_cons htrigger).mp hsafe).2
  have hkept : Kept cfg codec n v { node with archiver := .looping } :=
    ⟨(run_proper hrun).of_archiver rfl (fun h => by cases h), (fun effects h => by cases h), hread⟩
  exact (run_attempts_kept hsize hkept hcycle hsafe').read

/-- A node with two blocks in the hot tier. -/
def twoBlocks : Node :=
  { Node.init pairConfig with
    store := (Store.init pairConfig).writes pairConfig plainCodec
      [headerBlock 0 [5], headerBlock 1 []] }

theorem archival_keeps_reads_pair :
    ∃ node', run (Node.operate pairConfig plainCodec) twoBlocks
        (archivalCycle (List.replicate 7 .ok)) = some node' ∧
      node'.store.db.hotBlocks.get 0 = none ∧
      node'.readBlock plainCodec 0 = some (some (plainCodec.encode (headerBlock 0 [5]))) := by
  have hrun : run (Node.operate pairConfig plainCodec) (Node.init pairConfig)
      [.write (headerBlock 0 [5]), .write (headerBlock 1 [])] = some twoBlocks := by
    simp only [run, Node.operate, Node.step, twoBlocks, Store.writes, List.foldl_cons,
      List.foldl_nil, Node.init]
  have hmoved : ∃ node' ∈ run (Node.operate pairConfig plainCodec) twoBlocks
      (archivalCycle (List.replicate 7 .ok)), node'.store.db.hotBlocks.get 0 = none := by
    decide +kernel
  obtain ⟨node', hcycle, hnone⟩ := hmoved
  exact ⟨node', hcycle, hnone, archival_keeps_reads plainCodec (by decide) hrun rfl hcycle
    (by decide +kernel) (by decide +kernel)⟩

theorem archival_loses_block : ¬ ∀ (cfg : Config) (codec : Codec), 1 ≤ cfg.archiveBatchSize →
    ∀ ops node, run (Node.operate cfg codec) (Node.init cfg) ops = some node →
      node.archiver = .idle → ∀ outcomes node',
        run (Node.operate cfg codec) node (archivalCycle outcomes) = some node' →
        ∀ n v, node.readBlock codec n = some (some v) →
          node'.readBlock codec n = some (some v) := by
  intro h
  have hlost : ∃ node' ∈ run (Node.operate zeroConfig plainCodec)
      { Node.init zeroConfig with
        store := (Store.init zeroConfig).write zeroConfig plainCodec (headerBlock 0 [5]) }
      (archivalCycle (List.replicate 5 .ok ++ [.error [], .ok])),
      node'.readBlock plainCodec 0 = some none := by decide +kernel
  obtain ⟨node', hcycle, hnone⟩ := hlost
  have hkept := h zeroConfig plainCodec le_rfl [.write (headerBlock 0 [5])] _ rfl rfl _ node' hcycle
    0 (plainCodec.encode (headerBlock 0 [5])) (by decide +kernel)
  rw [hnone] at hkept
  cases hkept

end RockNode
