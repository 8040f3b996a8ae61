import RockNode.DurableRuns
import RockNode.Relocation

/-!
Stored blocks do not change.

Neither `write_block` nor `write_block_batch` looks whether a number is stored already: the hot
tier is overwritten, and a historical batch shadows the chunks its archive overlaps. As long as
only new numbers are written, the hot tier and the loaded chunks stay disjoint, but for the
chunk that is just being moved, and every read keeps giving what it gave.
-/

namespace RockNode

variable {cfg : Config} {codec : Codec} {node node' : Node} {n : ℕ} {v : Bytes}

/-! ### The conditions of a run -/

/-- The number is not stored: not in the hot tier and in the range of no loaded chunk. -/
def Free (node : Node) (n : ℕ) : Prop :=
  node.store.db.hotBlocks.get n = none ∧
    ∀ e ∈ node.indices.entries, ¬ (e.1 ≤ n ∧ n ≤ e.2.endBlock)

instance Free.decidable (node : Node) (n : ℕ) : Decidable (Free node n) :=
  inferInstanceAs (Decidable (_ ∧ _))

/-- Only numbers that are not stored yet are written; of a historical batch that is every number
from its first to its last one. -/
def StoresNew (node : Node) : Operation → Prop
  | .write block => ∀ n ∈ getBlockNumber block, Free node n
  | .writeBatch blocks _ => ∀ first ∈ blocks.head? >>= getBlockNumber,
    ∀ last ∈ blocks.getLast? >>= getBlockNumber, ∀ i < last - first + 1, Free node (first + i)
  | _ => True

instance StoresNew.decidable (node : Node) : ∀ op, Decidable (StoresNew node op)
  | .write _ => inferInstanceAs (Decidable (∀ _ ∈ _, _))
  | .writeBatch _ _ => inferInstanceAs (Decidable (∀ _ ∈ _, ∀ _ ∈ _, _))
  | .trigger | .archive _ | .restart _ => isTrue trivial

/-- The process goes on. -/
def Operation.inProcess : Operation → Bool
  | .restart _ => false
  | _ => true

/-- Only new numbers are written, and what is archived fits and is loaded. -/
def WritesOnce (cfg : Config) (codec : Codec) (node : Node) (op : Operation) : Prop :=
  StoresNew node op ∧ LoadsIndex node op ∧
    AtLoop (fun node => BatchFits cfg codec node.store.db) node op

instance WritesOnce.decidable (cfg : Config) (codec : Codec) (node : Node) (op : Operation) :
    Decidable (WritesOnce cfg codec node op) :=
  inferInstanceAs (Decidable (_ ∧ _))

lemma Free.not_loaded (h : Free node n) {k : ℕ} {m : MappedIndex}
    (hm : node.indices.get k = some m) : ¬ (k ≤ n ∧ n ≤ m.endBlock) :=
  h.2 (k, m) (SortedMap.get_eq_some.mp hm)

/-- What is read is not free. -/
lemma Free.not_read (h : Free node n) (hp : ProperIndices node.indices) :
    node.readBlock codec n ≠ some (some v) := by
  intro hread
  rcases readBlock_cases hread with hhot | ⟨k, m, r, hc⟩
  · simp [hotReadBlock, h.1] at hhot
  · obtain ⟨h1, h2, -⟩ := hc.range hp
    exact h.not_loaded (SortedMap.seekLE_eq_some.mp hc.seek).1 ⟨h1, h2⟩

/-! ### The tiers are disjoint -/

/-- A block of the hot tier lies in no loaded chunk but the one that the archiver is at. -/
def TiersDisjoint (cfg : Config) (node : Node) : Prop :=
  ∀ h k m, node.store.db.hotBlocks.get h ≠ none → node.indices.get k = some m → k ≤ h →
    h ≤ m.endBlock → node.store.db.metadata .earliestHot = some k ∧ m.endBlock = cfg.lastOf k

structure Spread (cfg : Config) (codec : Codec) (n : ℕ) (node : Node) : Prop where
  proper : node.Proper codec
  work : Work cfg codec node n
  disjoint : TiersDisjoint cfg node

/-- A complete batch stands apart from every loaded chunk but its own. -/
lemma TiersDisjoint.batchApart (hd : TiersDisjoint cfg node) (hsize : 1 ≤ cfg.archiveBatchSize)
    (hp : ProperIndices node.indices) : BatchApart cfg node := by
  intro start hstart hcomplete
  have hhot : ∀ j, start ≤ j → j ≤ cfg.lastOf start → node.store.db.hotBlocks.get j ≠ none :=
    fun _ => (Pending.of_complete hstart hcomplete).hot_ne_none hsize
  have hlast : start ≤ cfg.lastOf start := by
    unfold Config.lastOf
    omega
  refine apart_iff.mpr fun k m hm => ⟨?_, fun hle => ?_⟩
  · rintro ⟨h1, h2⟩
    obtain ⟨hearliest, -⟩ := hd k k m (hhot k h1.le h2) hm le_rfl (hp k m hm).2.1
    rw [hstart] at hearliest
    cases hearliest
    exact lt_irrefl _ h1
  · by_contra hlt
    obtain ⟨hearliest, hend⟩ := hd start k m (hhot start le_rfl hlast) hm hle (by omega)
    rw [hstart] at hearliest
    cases hearliest
    omega

lemma ArchiverStep.disjoint (hsize : 1 ≤ cfg.archiveBatchSize)
    (hstep : ArchiverStep cfg codec n node node') (hd : TiersDisjoint cfg node) :
    TiersDisjoint cfg node' := by
  intro h k m hhot hm hle hend
  cases hstep with
  | still hot earliest _ indices _ _ =>
    rw [hot] at hhot
    rw [indices] at hm
    rw [earliest]
    exact hd h k m hhot hm hle hend
  | chosen start effects _ _ _ _ eq =>
    subst eq
    exact hd h k m hhot hm hle hend
  | advanced start data index effect effects moving ofChunk eq store _ _ =>
    have hbeside := (ofChunk.touches node effects).beside
    rw [← eq] at hbeside
    rw [store] at hhot ⊢
    by_cases hk : k = start
    · subst hk
      rcases hbeside.own with hsame | ⟨m', hm', hend'⟩
      · exact hd h k m hhot (hsame ▸ hm) hle hend
      · rw [hm] at hm'
        cases hm'
        exact ⟨moving.pending.earliest, hend'⟩
    · exact hd h k m hhot (hbeside.indices k hk ▸ hm) hle hend
  | committed start data index effects moving _ _ eq =>
    subst eq
    simp only [commitBatch_hotBlocks, deleteBatch_hot] at hhot
    split at hhot
    · exact absurd rfl hhot
    · next hout =>
      -- the only chunk with blocks in the hot tier was the one that has left it now
      obtain ⟨hearliest, hlast⟩ := hd h k m hhot hm hle hend
      rw [moving.pending.earliest] at hearliest
      cases hearliest
      unfold Config.lastOf at hlast
      omega

/-! ### Writes -/

lemma write_disjoint (hd : TiersDisjoint cfg node) {block : Block}
    (hfree : ∀ j ∈ getBlockNumber block, Free node j) :
    TiersDisjoint cfg { node with store := node.store.write cfg codec block } := by
  intro h k m hhot hm hle hend
  rcases node.store.write_cases cfg codec block with heq | ⟨j, hj, -, hput, hearliest⟩
  · simp only [heq] at hhot ⊢
    exact hd h k m hhot hm hle hend
  · simp only [hput, SortedMap.get_put] at hhot
    split at hhot
    · next hhj =>
      subst hhj
      exact absurd ⟨hle, hend⟩ ((hfree h hj).not_loaded hm)
    · obtain ⟨h1, h2⟩ := hd h k m hhot hm hle hend
      exact ⟨by simp only [hearliest, h1, Option.getD_some], h2⟩

lemma AtStage.congr {disk disk' : Disk} {indices indices' : Indices} {start last : ℕ}
    {data index : Bytes} {final : Effect} {effects : List Effect}
    (h : AtStage disk indices start last data index final effects)
    (hdisk : ∀ name, Owned start last name → disk'.get name = disk.get name)
    (hindices : indices'.get start = indices.get start) :
    AtStage disk' indices' start last data index final effects := by
  have hdata := hdisk _ (owned_data start last)
  have hindex := hdisk _ (owned_index start last)
  have htempData := hdisk _ (owned_data start last).temp
  have htempIndex := hdisk _ (owned_index start last).temp
  cases h with
  | read => exact .read
  | wroteData h => exact .wroteData (htempData.trans h)
  | wroteIndex h h' => exact .wroteIndex (htempData.trans h) (htempIndex.trans h')
  | movedData h h' => exact .movedData (hdata.trans h) (htempIndex.trans h')
  | movedIndex h h' => exact .movedIndex (hdata.trans h) (hindex.trans h')
  | loaded h h' h'' => exact .loaded (hdata.trans h) (hindex.trans h') (hindices.trans h'')

section Batch

variable {a b : ℕ} (hbeside : Beside a b node node')
  (hfree : ∀ i < b - a + 1, Free node (a + i))

include hbeside hfree

lemma batch_disjoint (hd : TiersDisjoint cfg node) : TiersDisjoint cfg node' := by
  intro h k m hhot hm hle hend
  rw [hbeside.hot] at hhot
  rw [hbeside.earliest]
  by_cases hk : k = a
  · subst hk
    rcases hbeside.own with hsame | ⟨m', hm', hend'⟩
    · exact hd h k m hhot (hsame ▸ hm) hle hend
    · rw [hm] at hm'
      cases hm'
      have := (hfree (h - k) (by omega)).1
      rw [show k + (h - k) = h by omega] at this
      exact absurd this hhot
  · exact hd h k m hhot (hbeside.indices k hk ▸ hm) hle hend

/-- A batch of new numbers does not disturb the archiver's work on a chunk. -/
lemma batch_work (hsize : 1 ≤ cfg.archiveBatchSize) (hw : Work cfg codec node n)
    (harchiver : node'.archiver = node.archiver) : Work cfg codec node' n := by
  intro effects hwork
  rw [harchiver] at hwork
  obtain h | ⟨start, data, index, hm⟩ := hw effects hwork
  · exact Or.inl h
  -- the chunk is in the hot tier, so it shares no number with the batch
  have hapart : ∀ j, a ≤ j → j ≤ max a b → ¬ (start ≤ j ∧ j ≤ cfg.lastOf start) := by
    rintro j h1 h2 ⟨h3, h4⟩
    have := (hfree (j - a) (by omega)).1
    rw [show a + (j - a) = j by omega] at this
    exact hm.pending.hot_ne_none hsize h3 h4 this
  have hlast : start ≤ cfg.lastOf start := by
    unfold Config.lastOf
    omega
  have hout := hapart a le_rfl (le_max_left a b)
  have hne : start ≠ a := by
    rintro rfl
    exact hout ⟨le_rfl, hlast⟩
  refine Or.inr ⟨start, data, index, ⟨?_, ?_⟩, apart_iff.mpr fun k m hk => ?_, ?_, ?_⟩
  · rw [hbeside.earliest, hm.pending.earliest]
  · rw [hbeside.hot]
    exact hm.pending.hot
  · by_cases hka : k = a
    · subst hka
      rcases hbeside.own with hsame | ⟨m', hm', hend'⟩
      · exact apart_iff.mp hm.apart k m (hsame ▸ hk)
      · rw [hk] at hm'
        cases hm'
        refine ⟨fun h => hout ⟨h.1.le, h.2⟩, fun hle => ?_⟩
        by_contra hlt
        exact hapart start hle (by omega) ⟨le_rfl, hlast⟩
    · exact apart_iff.mp hm.apart k m (hbeside.indices k hka ▸ hk)
  · refine hm.stage.congr (fun name howned => hbeside.disk name fun h => ?_)
      (hbeside.indices start hne)
    exact Owned.ne howned h hne rfl
  · rw [hotReadBlock, hbeside.hot]
    exact hm.serves

lemma batch_reads (hp : ProperIndices node.indices)
    (hread : node.readBlock codec n = some (some v)) :
    node'.readBlock codec n = some (some v) := by
  rcases readBlock_cases hread with hhot | ⟨k, m, r, hc⟩
  · refine readBlock_of_hot ?_
    simpa only [hotReadBlock, hbeside.hot] using hhot
  · refine (hc.beside hp hbeside fun hle => ?_).readBlock
    by_contra hka
    have hget : node.indices.get k = some m := (SortedMap.seekLE_eq_some.mp hc.seek).1
    obtain ⟨-, hn, -⟩ := hc.range hp
    exact (hfree 0 (by omega)).not_loaded hget ⟨by omega, by omega⟩

end Batch

/-! ### Runs -/

lemma operate_spread (hsize : 1 ≤ cfg.archiveBatchSize) (h : Spread cfg codec n node)
    {op : Operation} (hin : op.inProcess = true) (honce : WritesOnce cfg codec node op)
    (hstep : node.operate cfg codec op = some node') : Spread cfg codec n node' := by
  refine ⟨operate_proper h.proper hstep, ?_, ?_⟩
  all_goals obtain ⟨hnew, hload, hfits⟩ := honce
  · cases op with
    | write block =>
      cases hstep
      exact h.work.write hsize fun hn => Or.inr (hnew n hn).1
    | writeBatch blocks outcomes =>
      cases hstep
      rcases writeBlockBatch_beside cfg codec node blocks outcomes with
        heq | ⟨a, ha, b, hb, hbeside, harchiver⟩
      · rw [heq]
        exact h.work
      · exact batch_work hbeside (hnew a ha b hb) hsize h.work harchiver
    | trigger =>
      simp only [Node.operate, Node.step] at hstep
      split at hstep
      · cases hstep
        intro effects hwork
        cases hwork
      · cases hstep
        exact h.work
    | archive outcome =>
      cases hstep
      refine (attempt_step h.work hload).work hsize h.proper.hot fun hloop => ⟨?_, ?_⟩
      · exact hfits (by rw [hloop]; rfl)
      · exact h.disjoint.batchApart hsize h.proper.loaded
    | restart entries => cases hin
  · cases op with
    | write block =>
      cases hstep
      exact write_disjoint h.disjoint hnew
    | writeBatch blocks outcomes =>
      cases hstep
      rcases writeBlockBatch_beside cfg codec node blocks outcomes with
        heq | ⟨a, ha, b, hb, hbeside, -⟩
      · rw [heq]
        exact h.disjoint
      · exact batch_disjoint hbeside (hnew a ha b hb) h.disjoint
    | trigger =>
      simp only [Node.operate, Node.step] at hstep
      split at hstep <;> cases hstep <;> exact h.disjoint
    | archive outcome =>
      cases hstep
      exact (attempt_step h.work hload).disjoint hsize h.disjoint
    | restart entries => cases hin

lemma operate_reads (hsize : 1 ≤ cfg.archiveBatchSize) (h : Spread cfg codec n node)
    {op : Operation} (hin : op.inProcess = true) (honce : WritesOnce cfg codec node op)
    (hstep : node.operate cfg codec op = some node')
    (hread : node.readBlock codec n = some (some v)) :
    node'.readBlock codec n = some (some v) := by
  obtain ⟨hnew, hload, -⟩ := honce
  cases op with
  | write block =>
    cases hstep
    refine readBlock_write (fun hn => ?_) hread
    exact (hnew n hn).not_read h.proper.loaded hread
  | writeBatch blocks outcomes =>
    cases hstep
    rcases writeBlockBatch_beside cfg codec node blocks outcomes with
      heq | ⟨a, ha, b, hb, hbeside, -⟩
    · rw [heq]
      exact hread
    · exact batch_reads hbeside (hnew a ha b hb) h.proper.loaded hread
  | trigger =>
    simp only [Node.operate, Node.step] at hstep
    split at hstep <;> cases hstep <;> exact hread
  | archive outcome =>
    cases hstep
    exact (attempt_step h.work hload).reads hsize h.proper.loaded hread
  | restart entries => cases hin

lemma init_spread (cfg : Config) (codec : Codec) (n : ℕ) : Spread cfg codec n (Node.init cfg) := by
  refine ⟨Node.init_proper cfg codec, ?_, ?_⟩
  · intro effects h
    cases h
  · intro h k m hhot
    exact absurd (SortedMap.get_empty h) hhot

/-- **Stored blocks are immutable** in every run of the process in which only new numbers are
written: what has been read once is read ever after. -/
theorem stored_immutable {cfg : Config} (codec : Codec) (hsize : 1 ≤ cfg.archiveBatchSize)
    {ops later : List Operation} {node node' : Node}
    (hrun : run (Node.operate cfg codec) (Node.init cfg) ops = some node)
    (honce : Along (Node.operate cfg codec)
      (fun node op => op.inProcess = true ∧ WritesOnce cfg codec node op) (Node.init cfg) ops)
    {n : ℕ} {v : Bytes} (hread : node.readBlock codec n = some (some v))
    (hlater : run (Node.operate cfg codec) node later = some node')
    (honce' : Along (Node.operate cfg codec)
      (fun node op => op.inProcess = true ∧ WritesOnce cfg codec node op) node later) :
    node'.readBlock codec n = some (some v) := by
  have hspread : Spread cfg codec n node :=
    run_inv (fun h hop hs => operate_spread hsize h hop.1 hop.2 hs) (init_spread cfg codec n) honce
      hrun
  have hboth : Spread cfg codec n node' ∧ node'.readBlock codec n = some (some v) :=
    run_inv (I := fun node => Spread cfg codec n node ∧ node.readBlock codec n = some (some v))
      (fun h hop hs => ⟨operate_spread hsize h.1 hop.1 hop.2 hs,
        operate_reads hsize h.1 hop.1 hop.2 hs h.2⟩) ⟨hspread, hread⟩ honce' hlater
  exact hboth.2

/-- A block is written, a historical batch is stored beside it and the block is archived. -/
theorem stored_immutable_seven :
    ∃ node node', run (Node.operate firstConfig plainCodec) (Node.init firstConfig)
        [.write (headerBlock 7 [5])] = some node ∧
      run (Node.operate firstConfig plainCodec) node
        ([.writeBatch [headerBlock 2 [], headerBlock 3 []] [], .write (headerBlock 8 []),
          .trigger] ++ List.replicate 7 (.archive .ok)) = some node' ∧
      node'.store.db.hotBlocks.get 7 = none ∧
      node'.readBlock plainCodec 7 = some (some (plainCodec.encode (headerBlock 7 [5]))) := by
  have hmoved : ∃ node ∈ run (Node.operate firstConfig plainCodec) (Node.init firstConfig)
        [.write (headerBlock 7 [5])],
      node.readBlock plainCodec 7 = some (some (plainCodec.encode (headerBlock 7 [5]))) ∧
      Along (Node.operate firstConfig plainCodec)
        (fun node op => op.inProcess = true ∧ WritesOnce firstConfig plainCodec node op) node
        ([.writeBatch [headerBlock 2 [], headerBlock 3 []] [], .write (headerBlock 8 []),
          .trigger] ++ List.replicate 7 (.archive .ok)) ∧
      ∃ node' ∈ run (Node.operate firstConfig plainCodec) node
        ([.writeBatch [headerBlock 2 [], headerBlock 3 []] [], .write (headerBlock 8 []),
          .trigger] ++ List.replicate 7 (.archive .ok)),
      node'.store.db.hotBlocks.get 7 = none := by decide +kernel
  obtain ⟨node, hrun, hread, honce', node', hlater, hnone⟩ := hmoved
  exact ⟨node, node', hrun, hlater, hnone, stored_immutable plainCodec (by decide) hrun
    (by decide +kernel) hread hlater honce'⟩

theorem stored_overwritten : ¬ ∀ (cfg : Config) (codec : Codec), 1 ≤ cfg.archiveBatchSize →
    ∀ ops node, run (Node.operate cfg codec) (Node.init cfg) ops = some node →
      (∀ op ∈ ops, op.inProcess = true) → ∀ n v, node.readBlock codec n = some (some v) →
        ∀ later node', run (Node.operate cfg codec) node later = some node' →
          (∀ op ∈ later, op.inProcess = true) → node'.readBlock codec n = some (some v) := by
  intro h
  have hchanged : ∃ node ∈ run (Node.operate zeroConfig plainCodec) (Node.init zeroConfig)
        [.write (headerBlock 0 [5])],
      node.readBlock plainCodec 0 = some (some (plainCodec.encode (headerBlock 0 [5]))) ∧
      ∃ node' ∈ run (Node.operate zeroConfig plainCodec) node [.write (headerBlock 0 [6])],
      node'.readBlock plainCodec 0 = some (some (plainCodec.encode (headerBlock 0 [6]))) := by
    decide +kernel
  obtain ⟨node, hrun, hread, node', hlater, hread'⟩ := hchanged
  have hsame := h zeroConfig plainCodec le_rfl _ node hrun (by simp [Operation.inProcess]) 0 _ hread
    _ node' hlater (by simp [Operation.inProcess])
  rw [hread'] at hsame
  exact absurd hsame (by decide +kernel)

end RockNode
