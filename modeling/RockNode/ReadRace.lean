import RockNode.DurableRuns
import RockNode.Reader
import RockNode.Relocation

/-!
A `read_block` that runs beside the archiver and beside writes of other numbers.

It does not miss a block: once the block has left the hot tier its chunk is loaded, and no
index that is loaded later gets in front of it.
-/

namespace RockNode

variable {cfg : Config} {codec : Codec} {n : ℕ} {s s' : Reading}

/-! ### What runs beside the read -/

def Archiver.isIdle : Archiver → Bool
  | .idle => true
  | _ => false

def Reader.isWaiting : Reader → Bool
  | .waiting => true
  | _ => false

/-- Beside the read there are writes of other numbers and the archiver, which loads its
indices. The number itself is written before the read only, and between two cycles. -/
def ReadScope (n : ℕ) (s : Reading) : ReadAct → Prop
  | .operate (.write block) => getBlockNumber block = some n →
    s.reader.isWaiting = true ∧ s.node.archiver.isIdle = true
  | .operate (.archive outcome) => LoadsIndex s.node (.archive outcome)
  | .operate (.writeBatch _ _) => False
  | .operate (.restart _) => False
  | _ => True

instance ReadScope.decidable (n : ℕ) (s : Reading) : ∀ act, Decidable (ReadScope n s act)
  | .operate (.write _) => inferInstanceAs (Decidable (_ → _ ∧ _))
  | .operate (.archive outcome) =>
    inferInstanceAs (Decidable (LoadsIndex s.node (.archive outcome)))
  | .operate (.writeBatch _ _) => isFalse id
  | .operate (.restart _) => isFalse id
  | .operate .trigger => isTrue trivial
  | .probe | .visit _ | .choose | .fetch => isTrue trivial

/-- Every block of a batch that is archived fits the length field of its record. -/
def ReadFits (cfg : Config) (codec : Codec) (s : Reading) : ReadAct → Prop
  | .operate op => AtLoop (fun node => BatchFits cfg codec node.store.db) s.node op
  | _ => True

instance ReadFits.decidable (cfg : Config) (codec : Codec) (s : Reading) :
    ∀ act, Decidable (ReadFits cfg codec s act)
  | .operate op => inferInstanceAs
    (Decidable (AtLoop (fun node => BatchFits cfg codec node.store.db) s.node op))
  | .probe | .visit _ | .choose | .fetch => isTrue trivial

/-- What RocksDB takes of the actions beside the read. -/
def ReadAct.Storable (codec : Codec) : ReadAct → Prop
  | .operate (.write block) => codec.Storable block
  | _ => True

instance ReadAct.Storable.decidable (codec : Codec) :
    ∀ act, Decidable (ReadAct.Storable codec act)
  | .operate (.write block) => inferInstanceAs (Decidable (codec.Storable block))
  | .operate (.writeBatch _ _) | .operate .trigger | .operate (.archive _)
  | .operate (.restart _) => isTrue trivial
  | .probe | .visit _ | .choose | .fetch => isTrue trivial

/-- `Reading.step` with the limit of RocksDB on the values that are written. -/
def Reading.rocksStep (cfg : Config) (codec : Codec) (n : ℕ) (s : Reading) :
    ReadAct → Option Reading
  | .operate (.write block) =>
    some { s with node := { s.node with store := s.node.store.rocksWrite cfg codec block } }
  | act => s.step cfg codec n act

lemma Reading.rocksStep_eq {act : ReadAct} (h : act.Storable codec) (s : Reading) :
    s.rocksStep cfg codec n act = s.step cfg codec n act := by
  cases act with
  | operate op =>
    cases op with
    | write block =>
      simp only [Reading.rocksStep, Reading.step, Node.operate, Node.step, Option.map_some,
        Store.rocksWrite_eq_write h]
    | _ => rfl
  | _ => rfl

/-! ### Archives that come from the archiver only -/

variable {node node' : Node}

/-- The loaded chunks start one after the other up to the archiver's place. -/
def Ordered (cfg : Config) (node : Node) : Prop :=
  ∀ k m, node.indices.get k = some m → m.endBlock = cfg.lastOf k ∧
    ∃ e, node.store.db.metadata .earliestHot = some e ∧ k ≤ e

lemma Ordered.apart (h : Ordered cfg node) {start : ℕ}
    (hstart : node.store.db.metadata .earliestHot = some start) :
    Apart node.indices start (cfg.lastOf start) := by
  refine apart_iff.mpr fun k m hm => ?_
  obtain ⟨hend, e, he, hle⟩ := h k m hm
  rw [hstart] at he
  cases he
  unfold Config.lastOf at hend ⊢
  omega

structure Served (cfg : Config) (codec : Codec) (n : ℕ) (node : Node) : Prop where
  proper : node.Proper codec
  faithful : node.store.Faithful codec
  ordered : Ordered cfg node
  work : Work cfg codec node n
  reads : ∀ block, node.store.last n = some block →
    node.readBlock codec n = some (some (codec.encode block))

/-- A durable node is in order. -/
lemma Durable.ordered (hd : Durable cfg codec node) : Ordered cfg node := by
  intro k m hm
  obtain ⟨-, hend, hp | hs⟩ := hd.loaded hm
  · exact ⟨hend, k, hp.earliest, le_rfl⟩
  · obtain ⟨j, hj⟩ := hs.passed
    exact ⟨hend, _, hj, Nat.le_add_right _ _⟩

lemma Durable.served (hd : Durable cfg codec node) (hsize : 1 ≤ cfg.archiveBatchSize)
    (hp : node.Proper codec) (n : ℕ) : Served cfg codec n node := by
  refine ⟨hp, hd.faithful, hd.ordered, fun effects hwork => ?_, fun block hlast => ?_⟩
  · rcases hd.work hwork with h | ⟨start, data, index, hpending, hserves, hstage⟩
    · exact Or.inl h
    refine Or.inr ⟨start, data, index, hpending, hd.ordered.apart hpending.earliest, hstage, ?_⟩
    intro h1 h2 bytes hbytes
    unfold Config.lastOf at h2
    obtain ⟨block, r, hlast, hrecord, hread⟩ := hserves n h1 (by omega)
    obtain ⟨value, hvalue⟩ := Option.ne_none_iff_exists'.mp
      (hpending.hot_ne_none hsize h1 (by unfold Config.lastOf; omega))
    obtain ⟨b, hb, rfl⟩ := hd.faithful.hot hvalue
    obtain rfl : block = b := Option.some.inj (hlast.symm.trans hb)
    simp only [hotReadBlock, hvalue, codec.deserialize_serialize, Option.map_some,
      Option.some.injEq] at hbytes
    exact ⟨r, hrecord, hbytes ▸ hread trivial⟩
  · rw [hd.readBlock hsize, hlast, Option.map_some]

lemma ArchiverStep.log (hstep : ArchiverStep cfg codec n node node') :
    node'.store.log = node.store.log := by
  cases hstep with
  | still _ _ log _ _ _ => exact log
  | chosen _ _ _ _ _ _ eq => rw [eq]
  | advanced _ _ _ _ _ _ _ _ store _ _ => rw [store]
  | committed _ _ _ _ _ _ _ eq => rw [eq]

/-- Nothing comes into the hot tier by archival. -/
lemma ArchiverStep.hot_get (hstep : ArchiverStep cfg codec n node node') {j : ℕ} {value : Bytes}
    (h : node'.store.db.hotBlocks.get j = some value) :
    node.store.db.hotBlocks.get j = some value := by
  cases hstep with
  | still hot _ _ _ _ _ => rwa [hot] at h
  | chosen _ _ _ _ _ _ eq => rwa [eq] at h
  | advanced _ _ _ _ _ _ _ _ store _ _ => rwa [store] at h
  | committed _ _ _ _ _ _ _ eq =>
    rw [eq] at h
    simp only [commitBatch_hotBlocks, deleteBatch_hot] at h
    split at h
    · cases h
    · exact h

lemma ArchiverStep.ordered (hstep : ArchiverStep cfg codec n node node') (h : Ordered cfg node) :
    Ordered cfg node' := by
  intro k m hm
  cases hstep with
  | still _ earliest _ indices _ _ =>
    rw [indices] at hm
    rw [earliest]
    exact h k m hm
  | chosen _ _ _ _ _ _ eq =>
    rw [eq] at hm ⊢
    exact h k m hm
  | advanced start data index effect effects moving ofChunk eq store _ _ =>
    have hbeside := (ofChunk.touches node effects).beside
    rw [← eq] at hbeside
    rw [store]
    by_cases hk : k = start
    · subst hk
      rcases hbeside.own with hsame | ⟨m', hm', hend⟩
      · exact h k m (hsame ▸ hm)
      · rw [hm] at hm'
        cases hm'
        exact ⟨hend, k, moving.pending.earliest, le_rfl⟩
    · exact h k m (hbeside.indices k hk ▸ hm)
  | committed start data index effects moving _ _ eq =>
    subst eq
    obtain ⟨hend, e, he, hle⟩ := h k m hm
    rw [moving.pending.earliest] at he
    cases he
    refine ⟨hend, start + cfg.archiveBatchSize, ?_, by omega⟩
    simp only [commitBatch_metadata, deleteBatch_meta]
    rfl

lemma write_last {block : Block} (hne : getBlockNumber block ≠ some n) (st : Store) :
    (st.write cfg codec block).last n = st.last n := by
  rcases st.write_cases cfg codec block with heq | ⟨j, hj, hlog, -, -⟩
  · rw [heq]
  · rw [Store.last, hlog]
    refine (Store.last_cons st.db j n block st.log).trans (if_neg ?_)
    rintro rfl
    exact hne hj

/-- A write keeps a number served; its own one it serves from the hot tier. -/
lemma write_served (hsize : 1 ≤ cfg.archiveBatchSize) (h : Served cfg codec n node) {block : Block}
    (hn : getBlockNumber block = some n → node.archiver = .idle) :
    Served cfg codec n { node with store := node.store.write cfg codec block } := by
  have hproper : Node.Proper codec { node with store := node.store.write cfg codec block } :=
    operate_proper h.proper (show node.operate cfg codec (.write block) = some _ from rfl)
  refine ⟨hproper, Store.write_faithful h.faithful block, ?_,
    h.work.write hsize fun heq => Or.inl (hn heq), ?_⟩
  · intro k m hm
    obtain ⟨hend, e, he, hle⟩ := h.ordered k m hm
    refine ⟨hend, e, ?_, hle⟩
    rcases node.store.write_cases cfg codec block with heq | ⟨j, -, -, -, hearliest⟩
    · rwa [heq]
    · simp only [hearliest, he, Option.getD_some]
  · intro b hb
    by_cases heq : getBlockNumber block = some n
    · -- the block is in the hot tier now, or the call has failed and nothing has changed
      rcases node.store.write_cases cfg codec block with hsame | ⟨j, hj, hlog, hhot, -⟩
      · simp only [hsame] at hb ⊢
        exact h.reads b hb
      · obtain rfl : n = j := Option.some.inj (heq.symm.trans hj)
        rw [Store.last, hlog, List.lookup_cons, beq_self_eq_true] at hb
        cases hb
        refine readBlock_of_hot ?_
        simp only [hotReadBlock, hhot, SortedMap.get_put_self, codec.deserialize_serialize,
          Option.map_some]
    · rw [write_last heq] at hb
      exact readBlock_write heq (h.reads b hb)

lemma attempt_served (hsize : 1 ≤ cfg.archiveBatchSize) (h : Served cfg codec n node)
    {outcome : Outcome} (hload : LoadsIndex node (.archive outcome))
    (hfits : AtLoop (fun node => BatchFits cfg codec node.store.db) node (.archive outcome)) :
    Served cfg codec n (node.attempt cfg codec outcome) := by
  have hstep := attempt_step h.work hload
  have hlast : ∀ j, (node.attempt cfg codec outcome).store.last j = node.store.last j := fun j => by
    rw [Store.last, hstep.log, Store.last]
  refine ⟨attempt_proper h.proper outcome, ⟨?_, ?_⟩, hstep.ordered h.ordered, ?_, ?_⟩
  · intro j block hj
    exact h.faithful.number (hlast j ▸ hj)
  · intro j value hj
    rw [hlast]
    exact h.faithful.hot (hstep.hot_get hj)
  · refine hstep.work hsize h.proper.hot fun hloop => ⟨hfits (by rw [hloop]; rfl), ?_⟩
    exact fun start hstart _ => h.ordered.apart hstart
  · intro block hblock
    exact hstep.reads hsize h.proper.loaded (h.reads block (hlast n ▸ hblock))

/-! ### The read -/

/-- How far the read has come with the block that it is to return. -/
def Reader.Right (codec : Codec) (n : ℕ) (node : Node) (v : Bytes) : Reader → Prop
  | .waiting => True
  | .scanning visited best => ∃ k m r, Cold codec node n k m r v ∧
    (k ∈ visited → best = some (k, m)) ∧
    (k ∉ visited → ∀ k' m', best = some (k', m') → k' < k)
  | .opening path record => ∃ k m, Cold codec node n k m record v ∧ m.dataPath = path
  | .done result => result = some (some v)

/-- The chunk of the number stays the same, so the read stays right. -/
lemma Reader.Right.of_cold {reader : Reader} {v : Bytes} (h : reader.Right codec n node v)
    (hcold : ∀ k m r, Cold codec node n k m r v → Cold codec node' n k m r v) :
    reader.Right codec n node' v := by
  cases reader with
  | waiting => trivial
  | scanning visited best =>
    obtain ⟨k, m, r, hc, hrest⟩ := h
    exact ⟨k, m, r, hcold k m r hc, hrest⟩
  | opening path record =>
    obtain ⟨k, m, hc, hpath⟩ := h
    exact ⟨k, m, hcold k m record hc, hpath⟩
  | done result => exact h

/-- The scan keeps the greatest start at or below the number. -/
lemma better_right {k key : ℕ} {m : MappedIndex} {r : IndexRecord} {v : Bytes}
    {visited : List ℕ} {best : Option (ℕ × MappedIndex)} (hc : Cold codec node n k m r v)
    (hseen : k ∈ visited → best = some (k, m))
    (hbelow : k ∉ visited → ∀ k' m', best = some (k', m') → k' < k) (hkey : key ∉ visited) :
    (k ∈ key :: visited → better n key (node.indices.get key) best = some (k, m)) ∧
    (k ∉ key :: visited → ∀ k' m', better n key (node.indices.get key) best = some (k', m') →
      k' < k) := by
  obtain ⟨hget, hle, hmax⟩ := SortedMap.seekLE_eq_some.mp hc.seek
  simp only at hget hle hmax
  by_cases hk : key = k
  · subst hk
    refine ⟨fun _ => ?_, fun h => absurd List.mem_cons_self h⟩
    rcases best with _ | ⟨k', m'⟩
    · simp only [better, hget, hle, if_true]
    · simp only [better, hget, hle, if_true, (hbelow hkey k' m' rfl).le]
  · have hlt : ∀ m', node.indices.get key = some m' → key ≤ n → key < k := fun m' hm' hn =>
      lt_of_le_of_ne (hmax key m' hm' hn) hk
    constructor
    · intro hmem
      have hbest := hseen ((List.mem_cons.mp hmem).resolve_left fun h => hk h.symm)
      rcases hfound : node.indices.get key with _ | found
      · exact hbest
      · simp only [better, hbest]
        split
        · next hn => rw [if_neg (by have := hlt found hfound hn; omega)]
        · rfl
    · intro hmem k' m' hbetter
      have hold := hbelow fun h => hmem (List.mem_cons_of_mem _ h)
      rcases hfound : node.indices.get key with _ | found
      · rw [hfound] at hbetter
        exact hold k' m' hbetter
      · simp only [better, hfound] at hbetter
        split at hbetter
        · next hn =>
          split at hbetter
          · cases hbetter
            exact hlt _ hfound hn
          · split at hbetter
            · cases hbetter
              exact hlt _ hfound hn
            · exact hold k' m' hbetter
        · exact hold k' m' hbetter

structure Reads (cfg : Config) (codec : Codec) (n : ℕ) (s : Reading) : Prop where
  served : Served cfg codec n s.node
  right : ∀ block, s.node.store.last n = some block →
    s.reader.Right codec n s.node (codec.encode block)

lemma operate_reads_right (hsize : 1 ≤ cfg.archiveBatchSize) (h : Reads cfg codec n s)
    {op : Operation} (hscope : ReadScope n s (.operate op)) (hfits : ReadFits cfg codec s
      (.operate op)) (hstep : s.node.operate cfg codec op = some node') :
    Reads cfg codec n ⟨node', s.reader⟩ := by
  cases op with
  | write block =>
    cases hstep
    refine ⟨write_served hsize h.served fun heq => ?_, fun b hb => ?_⟩
    · have hidle := (hscope heq).2
      unfold Archiver.isIdle at hidle
      split at hidle
      · assumption
      · cases hidle
    · by_cases heq : getBlockNumber block = some n
      · have hwaiting := (hscope heq).1
        unfold Reader.isWaiting at hwaiting
        split at hwaiting
        · next hreader =>
          simp only [hreader]
          trivial
        · cases hwaiting
      · simp only [write_last heq] at hb
        exact (h.right b hb).of_cold fun k m r hc => hc.write heq
  | trigger =>
    simp only [Node.operate, Node.step] at hstep
    split at hstep
    · cases hstep
      have hserved : Served cfg codec n { s.node with archiver := .looping } :=
        ⟨h.served.proper.of_archiver rfl (fun h => by cases h), h.served.faithful,
          h.served.ordered, (fun effects h => by cases h), h.served.reads⟩
      refine ⟨hserved, fun b hb => (h.right b hb).of_cold fun k m r hc => ?_⟩
      exact ⟨hc.hot, hc.seek, hc.record, hc.data⟩
    · cases hstep
      exact h
  | archive outcome =>
    cases hstep
    have harchiver := attempt_step h.served.work hscope
    refine ⟨attempt_served hsize h.served hscope hfits, fun b hb => ?_⟩
    have hlast : s.node.store.last n = some b := by
      rwa [Store.last, harchiver.log] at hb
    exact (h.right b hlast).of_cold fun k m r hc =>
      harchiver.cold hsize h.served.proper.loaded hc
  | writeBatch blocks outcomes => exact hscope.elim
  | restart entries => exact hscope.elim

lemma Reading.step_node {act : ReadAct} (hown : act.own = true)
    (hstep : s.step cfg codec n act = some s') : s'.node = s.node := by
  cases act with
  | operate op => cases hown
  | _ =>
    simp only [Reading.step] at hstep
    repeat' split at hstep
    all_goals
      cases hstep
      try rfl

/-- The read's own steps. -/
lemma Reader.Right.step {v : Bytes} (h : s.reader.Right codec n s.node v)
    (hread : s.node.readBlock codec n = some (some v)) {act : ReadAct}
    (hown : act.own = true) (hstep : s.step cfg codec n act = some s') :
    s'.reader.Right codec n s.node v := by
  cases act with
  | operate op => cases hown
  | probe =>
    simp only [Reading.step] at hstep
    split at hstep
    · split at hstep
      · next hhot => simp only [Node.readBlock, hhot, reduceCtorEq] at hread
      · next bytes hhot =>
        cases hstep
        simp only [Node.readBlock, hhot] at hread
        exact hread
      · next hhot =>
        -- the block has left the hot tier: its chunk is loaded
        cases hstep
        obtain hhot' | ⟨k, m, r, hc⟩ := readBlock_cases hread
        · simp only [hhot, Option.some.injEq, reduceCtorEq] at hhot'
        · exact ⟨k, m, r, hc, fun h => (List.not_mem_nil h).elim, fun _ k' m' h => by cases h⟩
    · cases hstep
  | visit key =>
    simp only [Reading.step] at hstep
    split at hstep
    · next visited best hreader =>
      rw [hreader] at h
      obtain ⟨k, m, r, hc, hseen, hbelow⟩ := h
      split at hstep
      · cases hstep
      · next hkey =>
        cases hstep
        exact ⟨k, m, r, hc, better_right hc hseen hbelow hkey⟩
    · cases hstep
  | choose =>
    simp only [Reading.step] at hstep
    split at hstep
    · next visited best hreader =>
      rw [hreader] at h
      obtain ⟨k, m, r, hc, hseen, -⟩ := h
      split at hstep
      · next hvisited =>
        obtain ⟨hget, -, -⟩ := SortedMap.seekLE_eq_some.mp hc.seek
        have hkey : k ∈ s.node.indices.keys :=
          SortedMap.mem_keys.mpr (Option.ne_none_iff_exists'.mpr ⟨m, hget⟩)
        simp only [hseen (hvisited k hkey), hc.record, Option.some.injEq] at hstep
        cases hstep
        exact ⟨k, m, hc, rfl⟩
      · cases hstep
    · cases hstep
  | fetch =>
    simp only [Reading.step] at hstep
    split at hstep
    · next path record hreader =>
      rw [hreader] at h
      obtain ⟨k, m, hc, rfl⟩ := h
      cases hstep
      simp only [Reader.Right, hc.data, Option.map_some]
    · cases hstep

/-- **Every step, of the read or beside it, keeps the read right.** -/
lemma step_reads (hsize : 1 ≤ cfg.archiveBatchSize) (h : Reads cfg codec n s) {act : ReadAct}
    (hscope : ReadScope n s act) (hfits : ReadFits cfg codec s act)
    (hstep : s.step cfg codec n act = some s') : Reads cfg codec n s' := by
  by_cases hown : act.own = true
  · have hnode := Reading.step_node hown hstep
    refine ⟨hnode ▸ h.served, fun block hlast => ?_⟩
    rw [hnode] at hlast ⊢
    exact (h.right block hlast).step (h.served.reads block hlast) hown hstep
  · cases act with
    | operate op =>
      obtain ⟨node', hop, rfl⟩ := Option.map_eq_some_iff.mp hstep
      exact operate_reads_right hsize h hscope hfits hop
    | _ => exact absurd rfl hown

/-- What the read does alone is always in scope. -/
lemma along_own {acts : List ReadAct} (hown : ∀ act ∈ acts, act.own = true) (s : Reading) :
    Along (Reading.step cfg codec n) (fun s act => ReadScope n s act ∧ ReadFits cfg codec s act) s
      acts := by
  induction acts generalizing s with
  | nil => trivial
  | cons act acts ih =>
    refine ⟨?_, ?_⟩
    · have := hown act List.mem_cons_self
      cases act <;> trivial
    · split
      · exact ih (fun a ha => hown a (List.mem_cons_of_mem _ ha)) _
      · trivial

lemma own_storable {act : ReadAct} (h : act.own = true) : act.Storable codec := by
  cases act with
  | operate op => cases h
  | _ => trivial

/-! ### Runs -/

def Act.toOperation : Act → Operation
  | .write block => .write block
  | .trigger => .trigger
  | .archive => .archive .ok
  | .restart entries => .restart entries

lemma run_toOperation {acts : List Act} (hrun : run (Node.step cfg codec) node acts = some node') :
    run (Node.operate cfg codec) node (acts.map Act.toOperation) = some node' := by
  induction acts generalizing node with
  | nil => exact hrun
  | cons act acts ih =>
    obtain ⟨next, hstep, hrest⟩ := run_cons_eq_some hrun
    have hop : node.operate cfg codec act.toOperation = some next := by
      cases act <;> exact hstep
    rw [List.map_cons, run_cons hop, ih hrest]

/-- **Reads never miss.** A read that begins on any node reached through writes, archival cycles
and restarts, and runs beside an archiver that loads its indices and beside writes of other
numbers, comes to its end by its own steps and returns the block of its number, if RocksDB takes
the written values, every archived block fits its record, and neither the writes before the read
nor one of its own number come during an archival cycle. -/
theorem read_never_misses {cfg : Config} (codec : Codec) (hsize : 1 ≤ cfg.archiveBatchSize) (n : ℕ)
    {acts : List Act} {node : Node}
    (hrun : run (Node.rocksStep cfg codec) (Node.init cfg) acts = some node)
    (hvalues : ∀ act ∈ acts, act.Storable codec)
    (hassumed : Along (Node.rocksStep cfg codec)
      (fun node act => OneAtATime node act ∧ LoadsSucceed node act) (Node.init cfg) acts)
    (hfit : Along (Node.rocksStep cfg codec) (BatchesFit cfg codec) (Node.init cfg) acts)
    {beside : List ReadAct} {s : Reading}
    (hread : run (Reading.rocksStep cfg codec n) ⟨node, .waiting⟩ beside = some s)
    (hvalues' : ∀ act ∈ beside, act.Storable codec)
    (hscope : Along (Reading.rocksStep cfg codec n) (ReadScope n) ⟨node, .waiting⟩ beside)
    (hfit' : Along (Reading.rocksStep cfg codec n) (ReadFits cfg codec) ⟨node, .waiting⟩ beside)
    {block : Block} (hstored : s.node.store.last n = some block) :
    (∀ result, s.reader = .done result → result = some (some (codec.encode block))) ∧
      ∃ own, (∀ act ∈ own, act.own = true) ∧ run (Reading.rocksStep cfg codec n) s own =
        some ⟨s.node, .done (some (some (codec.encode block)))⟩ := by
  have hd : Durable cfg codec node := rocks_durable hsize hrun hvalues hassumed hfit
  have hagree : ∀ act ∈ acts, ∀ node, Node.rocksStep cfg codec node act =
      Node.step cfg codec node act := fun act hact => Node.rocksStep_eq (hvalues act hact)
  have hagree' : ∀ act ∈ beside, ∀ s, Reading.rocksStep cfg codec n s act =
      Reading.step cfg codec n s act := fun act hact => Reading.rocksStep_eq (hvalues' act hact)
  rw [run_agree hagree] at hrun
  rw [run_agree hagree'] at hread
  rw [along_agree hagree'] at hscope hfit'
  have hproper : node.Proper codec := run_proper (run_toOperation hrun)
  have hstart : Reads cfg codec n ⟨node, .waiting⟩ :=
    ⟨hd.served hsize hproper n, fun _ _ => trivial⟩
  have hend : Reads cfg codec n s :=
    run_inv (fun h hc hs => step_reads hsize h hc.1 hc.2 hs) hstart (hscope.and hfit') hread
  refine ⟨fun result hdone => ?_, ?_⟩
  · have hright := hend.right block hstored
    rwa [hdone] at hright
  · obtain ⟨own, result, hown, hfinish⟩ := read_ends cfg codec n s
    have hright : Reads cfg codec n ⟨s.node, .done result⟩ :=
      run_inv (fun h hc hs => step_reads hsize h hc.1 hc.2 hs) hend (along_own hown s) hfinish
    have hresult : result = some (some (codec.encode block)) := hright.right block hstored
    refine ⟨own, hown, ?_⟩
    rw [run_agree fun act hact => Reading.rocksStep_eq (own_storable (hown act hact))]
    exact hresult ▸ hfinish

/-- The chunk of blocks 0 and 1 has just left the hot tier when the read begins; while it goes
through the indices the chunk of blocks 2 and 3 is written, loaded and taken out. -/
def racedRead : List ReadAct :=
  [ReadAct.operate .trigger] ++ List.replicate 7 (ReadAct.operate (.archive .ok)) ++
    [ReadAct.probe, .operate (.write (headerBlock 2 [])), .operate (.write (headerBlock 3 [])),
      .operate (.archive .ok), .operate (.archive .ok), .visit 0] ++
    List.replicate 5 (ReadAct.operate (.archive .ok)) ++
    [ReadAct.visit 2, .choose, .operate (.archive .ok), .fetch]

theorem read_never_misses_one :
    ∃ node s, run (Node.rocksStep pairConfig plainCodec) (Node.init pairConfig)
        [.write (headerBlock 0 []), .write (headerBlock 1 [5])] = some node ∧
      run (Reading.rocksStep pairConfig plainCodec 1) ⟨node, .waiting⟩ racedRead = some s ∧
      ∀ result, s.reader = .done result →
        result = some (some (plainCodec.encode (headerBlock 1 [5]))) := by
  have hraced : ∃ node ∈ run (Node.rocksStep pairConfig plainCodec) (Node.init pairConfig)
        [.write (headerBlock 0 []), .write (headerBlock 1 [5])],
      Along (Reading.rocksStep pairConfig plainCodec 1) (ReadScope 1) ⟨node, .waiting⟩ racedRead ∧
      Along (Reading.rocksStep pairConfig plainCodec 1) (ReadFits pairConfig plainCodec)
        ⟨node, .waiting⟩ racedRead ∧
      ∃ s ∈ run (Reading.rocksStep pairConfig plainCodec 1) ⟨node, .waiting⟩ racedRead,
        s.node.store.last 1 = some (headerBlock 1 [5]) := by decide +kernel
  obtain ⟨node, hrun, hscope, hfit', s, hread, hlast⟩ := hraced
  exact ⟨node, s, hrun, hread, (read_never_misses plainCodec (by decide) 1 hrun (by decide +kernel)
    (by decide +kernel) (by decide +kernel) hread (by decide +kernel) hscope hfit' hlast).1⟩

theorem read_fails : ¬ ∀ (cfg : Config) (codec : Codec), 1 ≤ cfg.archiveBatchSize → ∀ n acts node,
    run (Node.rocksStep cfg codec) (Node.init cfg) acts = some node →
    (∀ act ∈ acts, act.Storable codec) →
    Along (Node.rocksStep cfg codec) (fun node act => OneAtATime node act ∧ LoadsSucceed node act)
      (Node.init cfg) acts → ∀ beside s,
    run (Reading.rocksStep cfg codec n) ⟨node, .waiting⟩ beside = some s →
    (∀ act ∈ beside, act.Storable codec) →
    Along (Reading.rocksStep cfg codec n) (ReadScope n) ⟨node, .waiting⟩ beside → ∀ block,
      s.node.store.last n = some block → ∀ result, s.reader = .done result →
        result = some (some (codec.encode block)) := by
  intro h
  obtain ⟨block, hn, hvalue, hcut⟩ := exists_cut_block
  obtain ⟨node, hrun, halong, hlast, hread⟩ := rocks_archived_zero bincodeCodec hn hvalue
  obtain ⟨own, hown, hdone⟩ := read_alone zeroConfig bincodeCodec 0 node
  have hvalues : ∀ act ∈ own, act.Storable bincodeCodec := fun act hact =>
    own_storable (hown act hact)
  have hagree : ∀ act ∈ own, ∀ s, Reading.rocksStep zeroConfig bincodeCodec 0 s act =
      Reading.step zeroConfig bincodeCodec 0 s act :=
    fun act hact => Reading.rocksStep_eq (hvalues act hact)
  have hscope : Along (Reading.rocksStep zeroConfig bincodeCodec 0) (ReadScope 0)
      ⟨node, .waiting⟩ own :=
    (along_agree hagree _).mpr ((along_own hown _).imp fun h => h.1)
  have hresult := h zeroConfig bincodeCodec le_rfl 0 _ node hrun (loneActs_storable hvalue) halong
    own _ ((run_agree hagree _).trans hdone) hvalues hscope block hlast _ rfl
  rw [hread, hcut] at hresult
  cases hresult

end RockNode
