import RockNode.Relocation
import RockNode.Frontier

/-!
How far the recorded latest and earliest numbers are the largest and the smallest number written.

`write_block` raises the latest number above the value it assumes as long as none is recorded, so
a number up to there leaves no trace. It sets the earliest number only once, and a historical
batch compares it with its first block alone. Every operation of the service keeps the marks in
order.
-/

namespace RockNode

/-- `get_latest_persisted_block_number`. -/
def getLatestPersistedBlockNumber (db : Db) : Option ℕ := db.metadata .latestPersisted

/-- `get_earliest_persisted_block_number`. -/
def getEarliestPersistedBlockNumber (db : Db) : Option ℕ := db.metadata .trueEarliestPersisted

variable {cfg : Config} {codec : Codec}

/-- What a call that returns `Ok` has recorded. -/
lemma writeBlock_ok {db : Db} {block : Block} (h : (writeBlock cfg codec block db).2 ≠ .err) :
    ∃ n, getBlockNumber block = some n ∧
      (writeBlock cfg codec block db).1.metadata .latestPersisted =
        (if latestOrSeed cfg db < n then some n else db.metadata .latestPersisted) ∧
      (writeBlock cfg codec block db).1.metadata .trueEarliestPersisted =
        some ((db.metadata .trueEarliestPersisted).getD n) := by
  unfold writeBlock at h ⊢
  rcases hn : getBlockNumber block with _ | n
  · simp [hn] at h
  rcases hrun : (contiguousOps n (max (latestOrSeed cfg db) n) (highestContiguous db)).run db
    with _ | ops
  · simp [hn, prepareBatch_run, hrun] at h
  · have hops := (contiguousOps_ensures _ _ _).of_run hrun
    refine ⟨n, rfl, ?_, ?_⟩
    · simp only [prepareBatch_run, hrun, Option.map_some, commitBatch_metadata,
        fullBatch_latest _ _ _ _ _ _ _ hops]
      rfl
    · simp only [prepareBatch_run, hrun, Option.map_some, commitBatch_metadata,
        fullBatch_trueEarliest _ _ _ _ _ _ _ hops]
      rcases db.metadata .trueEarliestPersisted with _ | e <;> rfl

/-! ### The latest number -/

/-- One call of `write_block` that returns `Ok`. -/
def writeBlockOk (cfg : Config) (codec : Codec) (db : Db) (block : Block) : Option Db :=
  match writeBlock cfg codec block db with
  | (db', .ok _) => some db'
  | (_, .err) => none

/-- The numbers of the blocks. -/
def numbersOf (blocks : List Block) : Set ℕ :=
  {n | ∃ block ∈ blocks, getBlockNumber block = some n}

lemma numbersOf_cons {block : Block} {n : ℕ} (hn : getBlockNumber block = some n)
    (blocks : List Block) : numbersOf (block :: blocks) = insert n (numbersOf blocks) := by
  ext m
  simp only [numbersOf, Set.mem_insert_iff, Set.mem_ofPred_eq, List.mem_cons, exists_eq_or_imp, hn,
    Option.some.injEq]
  rw [eq_comm]

/-- No number written lies above the recorded one, which is one of them and above the seed. -/
structure LatestOf (cfg : Config) (numbers : Set ℕ) (db : Db) : Prop where
  bound : ∀ n ∈ numbers, n ≤ latestOrSeed cfg db
  real : ∀ k, db.metadata .latestPersisted = some k → cfg.seed < k ∧ k ∈ numbers

lemma LatestOf.write {numbers : Set ℕ} {db db' : Db} {block : Block}
    (h : LatestOf cfg numbers db) (hwrite : writeBlockOk cfg codec db block = some db') :
    ∃ n, getBlockNumber block = some n ∧ LatestOf cfg (insert n numbers) db' := by
  unfold writeBlockOk at hwrite
  split at hwrite
  · next heq =>
    cases hwrite
    have hok : (writeBlock cfg codec block db).2 ≠ .err := by simp [heq]
    obtain ⟨n, hn, hlatest, -⟩ := writeBlock_ok hok
    rw [heq] at hlatest
    simp only at hlatest
    refine ⟨n, hn, ?_⟩
    split at hlatest
    · next hlt =>
      have hnew : latestOrSeed cfg db' = n := by simp [latestOrSeed, hlatest]
      refine ⟨?_, ?_⟩
      · rintro m (rfl | hm)
        · exact hnew.ge
        · rw [hnew]
          exact (h.bound m hm).trans hlt.le
      · intro k hk
        obtain rfl : n = k := Option.some.inj (hlatest.symm.trans hk)
        refine ⟨?_, Set.mem_insert _ _⟩
        rcases hold : db.metadata .latestPersisted with _ | old
        · simpa [latestOrSeed, hold] using hlt
        · have := (h.real old hold).1
          simp only [latestOrSeed, hold, Option.getD_some] at hlt
          omega
    · next hge =>
      have hsame : latestOrSeed cfg db' = latestOrSeed cfg db := by
        simp only [latestOrSeed, hlatest]
      refine ⟨?_, ?_⟩
      · rintro m (rfl | hm)
        · omega
        · rw [hsame]
          exact h.bound m hm
      · intro k hk
        obtain ⟨h1, h2⟩ := h.real k (hlatest ▸ hk)
        exact ⟨h1, Set.mem_insert_of_mem _ h2⟩
  · cases hwrite

/-- The calls, one after the other. -/
lemma LatestOf.writes {numbers : Set ℕ} {db db' : Db} {blocks : List Block}
    (h : LatestOf cfg numbers db) (hrun : run (writeBlockOk cfg codec) db blocks = some db') :
    LatestOf cfg (numbers ∪ numbersOf blocks) db' := by
  induction blocks generalizing numbers db with
  | nil =>
    cases hrun
    simpa [numbersOf] using h
  | cons block blocks ih =>
    obtain ⟨next, hstep, hrest⟩ := run_cons_eq_some hrun
    obtain ⟨n, hn, hnext⟩ := h.write hstep
    rw [numbersOf_cons hn, Set.union_insert, ← Set.insert_union]
    exact ih hnext hrest

/-- **The recorded latest number is the largest one written exactly when that lies above the
seed**, which stands for "nothing written". -/
theorem latest_exact (cfg : Config) (codec : Codec) {blocks : List Block} {db : Db}
    (hrun : run (writeBlockOk cfg codec) (Store.init cfg).db blocks = some db) {m : ℕ}
    (hm : IsGreatest (numbersOf blocks) m) :
    getLatestPersistedBlockNumber db = some m ↔ cfg.seed < m := by
  have hinit : LatestOf cfg ∅ (Store.init cfg).db := by
    refine ⟨by simp, fun k hk => ?_⟩
    cases (Store.init_metadata cfg _).symm.trans hk
  have h := hinit.writes hrun
  rw [Set.empty_union] at h
  constructor
  · exact fun hlatest => (h.real m hlatest).1
  · intro hseed
    have hle := h.bound m hm.1
    rcases hk : db.metadata .latestPersisted with _ | k
    · simp only [latestOrSeed, hk, Option.getD_none] at hle
      omega
    · simp only [latestOrSeed, hk, Option.getD_some] at hle
      have hkm : k ≤ m := hm.2 (h.real k hk).2
      have heq : k = m := by omega
      rw [getLatestPersistedBlockNumber, hk, heq]

/-- Blocks 2 and 1 on a node that starts at block 1. -/
theorem latest_exact_two : ∃ db, run (writeBlockOk firstConfig plainCodec)
      (Store.init firstConfig).db [headerBlock 2 [], headerBlock 1 []] = some db ∧
    getLatestPersistedBlockNumber db = some 2 := by
  have hsome : (run (writeBlockOk firstConfig plainCodec) (Store.init firstConfig).db
      [headerBlock 2 [], headerBlock 1 []]).isSome = true := by decide +kernel
  obtain ⟨db, hrun⟩ := Option.isSome_iff_exists.mp hsome
  refine ⟨db, hrun, (latest_exact firstConfig plainCodec hrun (m := 2) ⟨?_, ?_⟩).mpr ?_⟩
  · exact ⟨headerBlock 2 [], by simp, rfl⟩
  · rintro n ⟨block, hmem, hn⟩
    simp only [List.mem_cons, List.not_mem_nil, or_false] at hmem
    rcases hmem with rfl | rfl
    · exact (Option.some.inj hn).ge
    · exact (Option.some.inj hn) ▸ by decide
  · decide

/-- The first block of a node that starts at block 0 is not recorded as the latest one. -/
theorem latest_unset : ¬ ∀ (cfg : Config) (codec : Codec) (blocks : List Block) (db : Db) (m : ℕ),
    run (writeBlockOk cfg codec) (Store.init cfg).db blocks = some db →
    IsGreatest (numbersOf blocks) m → getLatestPersistedBlockNumber db = some m := by
  intro h
  have hsome : ∃ db ∈ run (writeBlockOk zeroConfig plainCodec) (Store.init zeroConfig).db
      [headerBlock 0 []], getLatestPersistedBlockNumber db = none := by decide +kernel
  obtain ⟨db, hrun, hnone⟩ := hsome
  have hgreatest : IsGreatest (numbersOf [headerBlock 0 []]) 0 := by
    refine ⟨⟨headerBlock 0 [], by simp, rfl⟩, ?_⟩
    rintro n ⟨block, hmem, hn⟩
    obtain rfl := List.mem_singleton.mp hmem
    exact (Option.some.inj hn).ge
  have := h zeroConfig plainCodec [headerBlock 0 []] db 0 hrun hgreatest
  rw [hnone] at this
  cases this

/-! ### The earliest number -/

/-- The numbers that an operation stores, and the first of them. -/
def Operation.numbers : Operation → Set ℕ
  | .write block => numbersOf [block]
  | .writeBatch blocks _ => numbersOf blocks
  | _ => ∅

def Operation.first : Operation → Option ℕ
  | .write block => getBlockNumber block
  | .writeBatch blocks _ => blocks.head? >>= getBlockNumber
  | _ => none

def writtenBy (ops : List Operation) : Set ℕ := {n | ∃ op ∈ ops, n ∈ op.numbers}

/-- Calls that write return `Ok`, and batches are not empty. -/
def Succeeds (cfg : Config) (codec : Codec) (node : Node) : Operation → Prop
  | .write block => (writeBlock cfg codec block node.store.db).2 ≠ .err
  | .writeBatch blocks outcomes =>
    blocks ≠ [] ∧ (node.writeBlockBatchResult cfg codec blocks outcomes).2 = true
  | _ => True

instance (cfg : Config) (codec : Codec) (node : Node) (op : Operation) :
    Decidable (Succeeds cfg codec node op) :=
  match op with
  | .write _ => inferInstanceAs (Decidable (_ ≠ _))
  | .writeBatch _ _ => inferInstanceAs (Decidable (_ ∧ _))
  | .trigger | .archive _ | .restart _ => isTrue trivial

/-- The first numbers of the batches. -/
def batchHeads (ops : List Operation) : Set ℕ :=
  {m | ∃ blocks outcomes, .writeBatch blocks outcomes ∈ ops ∧
    (blocks.head? >>= getBlockNumber) = some m}

/-- The first number written at all, or the first number of a batch. -/
def Leads (ops : List Operation) (m : ℕ) : Prop :=
  ops.findSome? Operation.first = some m ∨ m ∈ batchHeads ops

variable {node node' : Node} {op : Operation} {ops : List Operation}

lemma batchHeads_cons (op : Operation) (ops : List Operation) :
    batchHeads (op :: ops) = batchHeads [op] ∪ batchHeads ops := by
  ext m
  simp [batchHeads, or_and_right, exists_or]

lemma first_of_batchHeads {m : ℕ} (h : m ∈ batchHeads [op]) : op.first = some m := by
  obtain ⟨blocks, outcomes, hmem, hm⟩ := h
  obtain rfl := List.mem_singleton.mp hmem
  exact hm

/-- The smallest of the leaders is recorded, and the archiver will not change that. -/
structure EarliestOf (leaders : Set ℕ) (node : Node) : Prop where
  recorded : ∃ e, node.store.db.metadata .trueEarliestPersisted = some e ∧ IsLeast leaders e
  archiver : node.archiver.OnlyDeletes

/-- Nothing has been written yet, and the archiver has nothing to do. -/
structure Blank (node : Node) : Prop where
  hot : node.store.db.hotBlocks = .empty
  earliestHot : node.store.db.metadata .earliestHot = none
  earliest : node.store.db.metadata .trueEarliestPersisted = none
  disk : node.disk = .empty
  archiver : ∀ effects, node.archiver = .working effects → effects = []

/-- A batch that is stored lowers the earliest number to its first one. -/
lemma writeBlockBatch_ok {blocks : List Block} {outcomes : List Outcome} (hne : blocks ≠ [])
    (h : (node.writeBlockBatchResult cfg codec blocks outcomes).2 = true) :
    ∃ f, (blocks.head? >>= getBlockNumber) = some f ∧
      (node.writeBlockBatch cfg codec blocks outcomes).archiver = node.archiver ∧
      (node.writeBlockBatch cfg codec blocks outcomes).store.db =
        updateTrueEarliestIfLess f node.store.db := by
  unfold Node.writeBlockBatch Node.writeBlockBatchResult at *
  split at h
  · simp [hne] at h
  · next effects indexName harchive =>
    obtain ⟨a, b, files, -, -, -, rfl, rfl⟩ := writeArchive_cases harchive
    have hstore := (finish_touches cfg codec node
      (fileEffects a b files.1 files.2 ++ [Effect.loadIndex (indexFilename a b)]).length outcomes
      (fileEffects_ofChunk a b files.1 files.2)).store
    simp only at h ⊢
    split at h
    · next f hwork hhead => exact ⟨f, hhead, rfl, by simp only [hstore]⟩
    · cases h

lemma updateTrueEarliestIfLess_earliest (f : ℕ) (db : Db) :
    (updateTrueEarliestIfLess f db).metadata .trueEarliestPersisted =
      some (min f ((db.metadata .trueEarliestPersisted).getD f)) := by
  unfold updateTrueEarliestIfLess
  rcases he : db.metadata .trueEarliestPersisted with _ | e
  · simp [setTrueEarliestPersisted, Op.apply, Op.onMeta]
  · simp only [Option.getD_some]
    split
    · next hlt => simp [setTrueEarliestPersisted, Op.apply, Op.onMeta, min_eq_left hlt.le]
    · next hge => rw [he, min_eq_right (by omega)]

/-- The archiver leaves the earliest number alone, however its steps end. -/
lemma attempt_earliest (cfg : Config) (codec : Codec) (h : node.archiver.OnlyDeletes)
    (outcome : Outcome) :
    (node.attempt cfg codec outcome).store.db.metadata .trueEarliestPersisted =
        node.store.db.metadata .trueEarliestPersisted ∧
      (node.attempt cfg codec outcome).archiver.OnlyDeletes := by
  have hidle : (Archiver.idle).OnlyDeletes := fun _ h => by cases h
  have hrest : ∀ {effect effects}, node.archiver = .working (effect :: effects) →
      (Archiver.working effects).OnlyDeletes := by
    rintro effect effects hwork _ ⟨⟩ batch hmem
    exact h _ hwork batch (List.mem_cons_of_mem _ hmem)
  cases outcome with
  | error left =>
    simp only [Node.attempt, Node.fail]
    split
    · exact ⟨rfl, h⟩
    · exact ⟨rfl, hidle⟩
    · next hwork => exact ⟨rfl, hrest hwork⟩
    · exact ⟨rfl, hidle⟩
  | ok =>
    simp only [Node.attempt]
    rcases hpc : node.archiver with _ | _ | effects
    · simp only [Node.archive, hpc]
      exact ⟨trivial, hidle⟩
    · rcases looping_cases cfg codec hpc with
        ⟨db, heq, -, hmeta⟩ | ⟨start, effects, -, -, hbatch, heq⟩
      · rw [heq]
        exact ⟨by simp only [hmeta], hidle⟩
      · rw [heq]
        exact ⟨rfl, archiveBatch_onlyDeletes hbatch⟩
    rcases effects with _ | ⟨effect, effects⟩
    · simp only [Node.archive, hpc]
      exact ⟨trivial, fun _ h => by cases h⟩
    · simp only [Node.archive, hpc]
      cases effect with
      | writeFile name contents => exact ⟨rfl, hrest hpc⟩
      | rename source target =>
        simp only [Node.perform]
        split
        · exact ⟨rfl, hidle⟩
        · exact ⟨rfl, hrest hpc⟩
      | loadIndex name =>
        simp only [Node.perform]
        split
        · exact ⟨rfl, hidle⟩
        · exact ⟨rfl, hrest hpc⟩
      | commit batch =>
        obtain ⟨start, count, new, rfl⟩ := h _ hpc batch List.mem_cons_self
        refine ⟨?_, hrest hpc⟩
        simp only [Node.perform, commitBatch_metadata, deleteBatch_meta]
        rfl
      | fault => exact ⟨rfl, hidle⟩

/-- One operation: a batch adds its first number to the leaders. -/
lemma EarliestOf.operate {leaders : Set ℕ} (h : EarliestOf leaders node)
    (hok : Succeeds cfg codec node op) (hstep : node.operate cfg codec op = some node') :
    EarliestOf (leaders ∪ batchHeads [op]) node' := by
  obtain ⟨⟨e, he, hleast⟩, ha⟩ := h
  cases op with
  | write block =>
    cases hstep
    obtain ⟨n, -, -, hearliest⟩ := writeBlock_ok hok
    refine ⟨⟨e, ?_, by simpa [batchHeads] using hleast⟩, ha⟩
    simp only [Store.write_db, hearliest, he, Option.getD_some]
  | writeBatch blocks outcomes =>
    cases hstep
    obtain ⟨f, hf, harchiver, hstore⟩ := writeBlockBatch_ok hok.1 hok.2
    have hheads : batchHeads [.writeBatch blocks outcomes] = {f} := by
      ext m
      simp only [Option.bind_eq_bind] at hf
      simp [batchHeads, hf, eq_comm]
    refine ⟨⟨min f e, ?_, ?_⟩, ?_⟩
    · simp [hstore, updateTrueEarliestIfLess_earliest, he]
    · rw [hheads, Set.union_singleton]
      exact hleast.insert f
    · rw [harchiver]
      exact ha
  | trigger =>
    simp only [Node.operate, Node.step] at hstep
    split at hstep
    · cases hstep
      exact ⟨⟨e, he, by simpa [batchHeads] using hleast⟩, fun _ h => by cases h⟩
    · cases hstep
      exact ⟨⟨e, he, by simpa [batchHeads] using hleast⟩, ha⟩
  | archive outcome =>
    cases hstep
    obtain ⟨hsame, hdeletes⟩ := attempt_earliest cfg codec ha outcome
    exact ⟨⟨e, hsame.trans he, by simpa [batchHeads] using hleast⟩, hdeletes⟩
  | restart entries =>
    simp only [Node.operate, Node.step] at hstep
    split at hstep
    · cases hstep
      refine ⟨⟨e, ?_, by simpa [batchHeads] using hleast⟩, fun _ h => by cases h⟩
      simp only [Node.restart, initializeDb, he, Option.isNone_some, Bool.false_eq_true, if_false]
      rw [(initializeHighestContiguous_frame _ _).2 _ (by decide), he]
    · cases hstep

/-- The archiver finds nothing to do on a blank node. -/
lemma Blank.attempt (h : Blank node) (outcome : Outcome) :
    Blank (node.attempt cfg codec outcome) := by
  have hidle : ∀ effects, Archiver.idle = .working effects → effects = [] := fun _ h => by cases h
  cases outcome with
  | ok =>
    simp only [Node.attempt, Node.archive]
    split
    · exact h
    · simp only [loopAction, h.earliestHot]
      exact ⟨h.hot, h.earliestHot, h.earliest, h.disk, hidle⟩
    · exact ⟨h.hot, h.earliestHot, h.earliest, h.disk, fun _ h => by cases h⟩
    · next hwork => cases h.archiver _ hwork
  | error left =>
    simp only [Node.attempt, Node.fail]
    split
    · exact h
    · exact ⟨h.hot, h.earliestHot, h.earliest, h.disk, hidle⟩
    · next hwork => cases h.archiver _ hwork
    · next effects _ hwork =>
      obtain rfl := h.archiver effects hwork
      refine ⟨h.hot, h.earliestHot, h.earliest, ?_, hidle⟩
      simp only [leave, h.disk]

/-- The start finds neither a block nor an archive. -/
lemma Blank.restart (h : Blank node) : Blank (node.restart cfg []) := by
  obtain ⟨hhot, hmeta⟩ := initializeHighestContiguous_frame cfg.seed node.store.db
  have hdb : initializeDb cfg (scanAndBuildIndex node.disk []) node.store.db =
      initializeHighestContiguous cfg.seed node.store.db := by
    simp [initializeDb, h.earliest, h.hot, scanAndBuildIndex, earliestOf, SortedMap.keys,
      SortedMap.empty]
  simp only [Node.restart, hdb]
  refine ⟨hhot.trans h.hot, ?_, ?_, h.disk, fun _ h => by cases h⟩
  · rw [hmeta _ (by decide), h.earliestHot]
  · rw [hmeta _ (by decide), h.earliest]

/-- An operation that stores nothing leaves a blank node blank; the first that does begins the
leaders. -/
lemma Blank.operate (h : Blank node) (hok : Succeeds cfg codec node op)
    (hstep : node.operate cfg codec op = some node') :
    match op.first with
    | none => Blank node'
    | some f => EarliestOf {f} node' := by
  have hdeletes : node.archiver.OnlyDeletes := by
    intro effects hwork batch hmem
    rw [h.archiver effects hwork] at hmem
    cases hmem
  cases op with
  | write block =>
    cases hstep
    obtain ⟨n, hn, -, hearliest⟩ := writeBlock_ok hok
    simp only [Operation.first, hn]
    refine ⟨⟨n, ?_, isLeast_singleton⟩, hdeletes⟩
    simp only [Store.write_db, hearliest, h.earliest, Option.getD_none]
  | writeBatch blocks outcomes =>
    cases hstep
    obtain ⟨f, hf, harchiver, hstore⟩ := writeBlockBatch_ok hok.1 hok.2
    simp only [Operation.first, hf]
    refine ⟨⟨f, ?_, isLeast_singleton⟩, by rwa [harchiver]⟩
    simp [hstore, updateTrueEarliestIfLess_earliest, h.earliest]
  | trigger =>
    simp only [Node.operate, Node.step] at hstep
    split at hstep
    · cases hstep
      exact ⟨h.hot, h.earliestHot, h.earliest, h.disk, fun _ h => by cases h⟩
    · cases hstep
      exact h
  | archive outcome =>
    cases hstep
    exact h.attempt outcome
  | restart entries =>
    simp only [Node.operate, Node.step] at hstep
    split at hstep
    · next hperm =>
      cases hstep
      rw [h.disk] at hperm
      obtain rfl : entries = [] := hperm.eq_nil
      exact h.restart
    · cases hstep

lemma EarliestOf.run {leaders : Set ℕ} (h : EarliestOf leaders node)
    (hok : Along (Node.operate cfg codec) (Succeeds cfg codec) node ops)
    (hrun : run (Node.operate cfg codec) node ops = some node') :
    EarliestOf (leaders ∪ batchHeads ops) node' := by
  induction ops generalizing leaders node with
  | nil =>
    cases hrun
    simpa [batchHeads] using h
  | cons op ops ih =>
    obtain ⟨next, hstep, hrest⟩ := run_cons_eq_some hrun
    obtain ⟨hop, hops⟩ := (along_cons hstep).mp hok
    rw [batchHeads_cons, ← Set.union_assoc]
    exact ih (h.operate hop hstep) hops hrest

lemma Blank.run (h : Blank node)
    (hok : Along (Node.operate cfg codec) (Succeeds cfg codec) node ops)
    (hrun : run (Node.operate cfg codec) node ops = some node') {f : ℕ}
    (hf : ops.findSome? Operation.first = some f) : EarliestOf {m | Leads ops m} node' := by
  induction ops generalizing node with
  | nil => cases hf
  | cons op ops ih =>
    obtain ⟨next, hstep, hrest⟩ := run_cons_eq_some hrun
    obtain ⟨hop, hops⟩ := (along_cons hstep).mp hok
    have hnext := h.operate hop hstep
    rcases hfirst : op.first with _ | g
    · rw [hfirst] at hnext
      simp only [List.findSome?_cons, hfirst] at hf
      have hsame : {m | Leads (op :: ops) m} = {m | Leads ops m} := by
        ext m
        have hno : m ∉ batchHeads [op] := fun hm => by
          simp [first_of_batchHeads hm] at hfirst
        simp [Leads, batchHeads_cons op ops, hfirst, hno]
      rw [hsame]
      exact ih hnext hops hrest hf
    · rw [hfirst] at hnext
      have hall : {m | Leads (op :: ops) m} = {g} ∪ batchHeads ops := by
        ext m
        have hg : m ∈ batchHeads [op] → g = m := fun hm =>
          Option.some.inj (hfirst.symm.trans (first_of_batchHeads hm))
        simp only [Leads, batchHeads_cons op ops, List.findSome?_cons, hfirst, Set.mem_ofPred_eq,
          Set.mem_union, Set.mem_singleton_iff, Option.some.injEq]
        tauto
      rw [hall]
      exact hnext.run hops hrest

lemma Operation.first_mem {m : ℕ} (h : op.first = some m) : m ∈ op.numbers := by
  cases op with
  | write block => exact ⟨block, by simp, h⟩
  | writeBatch blocks outcomes =>
    obtain ⟨block, hhead, hm⟩ := Option.bind_eq_some_iff.mp h
    exact ⟨block, List.mem_of_mem_head? hhead, hm⟩
  | trigger => cases h
  | archive outcome => cases h
  | restart entries => cases h

lemma Leads.written {m : ℕ} (h : Leads ops m) : m ∈ writtenBy ops := by
  rcases h with h | ⟨blocks, outcomes, hmem, hm⟩
  · obtain ⟨op, hmem, hm⟩ := List.exists_of_findSome?_eq_some h
    exact ⟨op, hmem, Operation.first_mem hm⟩
  · exact ⟨_, hmem, Operation.first_mem hm⟩

/-- An operation that stores a number and succeeds has a first one. -/
lemma Succeeds.first (h : Succeeds cfg codec node op) {m : ℕ} (hm : m ∈ op.numbers) :
    op.first ≠ none := by
  cases op with
  | write block =>
    obtain ⟨n, hn, -⟩ := writeBlock_ok h
    simp [Operation.first, hn]
  | writeBatch blocks outcomes =>
    obtain ⟨f, hf, -⟩ := writeBlockBatch_ok h.1 h.2
    rw [Operation.first, hf]
    exact Option.some_ne_none f
  | trigger => cases hm
  | archive outcome => cases hm
  | restart entries => cases hm

/-- **The recorded earliest number is the smallest one written exactly when that is the first
number written or the first one of a batch**, whatever the archiver and restarts do. -/
theorem earliest_exact {cfg : Config} {codec : Codec} {ops : List Operation} {node : Node}
    (hok : Along (Node.operate cfg codec) (Succeeds cfg codec) (Node.init cfg) ops)
    (hrun : run (Node.operate cfg codec) (Node.init cfg) ops = some node) {m : ℕ}
    (hm : IsLeast (writtenBy ops) m) :
    getEarliestPersistedBlockNumber node.store.db = some m ↔ Leads ops m := by
  obtain ⟨op, hmem, hop⟩ := hm.1
  obtain ⟨before, hsucceeds⟩ := hok.of_mem hrun hmem
  have hne : ops.findSome? Operation.first ≠ none := fun h =>
    hsucceeds.first hop (List.findSome?_eq_none_iff.mp h op hmem)
  obtain ⟨f, hf⟩ := Option.ne_none_iff_exists'.mp hne
  have hblank : Blank (Node.init cfg) := by
    refine ⟨rfl, rfl, rfl, rfl, fun effects h => ?_⟩
    cases h
  obtain ⟨e, he, hleads, hleast⟩ := (hblank.run hok hrun hf).recorded
  rw [getEarliestPersistedBlockNumber, he, Option.some.injEq]
  constructor
  · rintro rfl
    exact hleads
  · intro h
    exact le_antisymm (hleast h) (hm.2 hleads.written)

/-- Block 5, then the batch of blocks 3 and 4. -/
theorem earliest_exact_three : ∃ node, run (Node.operate zeroConfig plainCodec)
      (Node.init zeroConfig)
      [.write (headerBlock 5 []), .writeBatch [headerBlock 3 [], headerBlock 4 []] []] =
        some node ∧
    getEarliestPersistedBlockNumber node.store.db = some 3 := by
  set ops : List Operation :=
    [.write (headerBlock 5 []), .writeBatch [headerBlock 3 [], headerBlock 4 []] []] with hops
  have hsome : (run (Node.operate zeroConfig plainCodec) (Node.init zeroConfig) ops).isSome = true
      := by decide +kernel
  have hok : Along (Node.operate zeroConfig plainCodec) (Succeeds zeroConfig plainCodec)
      (Node.init zeroConfig) ops := by decide +kernel
  obtain ⟨node, hrun⟩ := Option.isSome_iff_exists.mp hsome
  refine ⟨node, hrun, (earliest_exact hok hrun (m := 3) ⟨?_, ?_⟩).mpr (Or.inr ?_)⟩
  · exact ⟨.writeBatch [headerBlock 3 [], headerBlock 4 []] [], by simp [hops],
      headerBlock 3 [], by simp, rfl⟩
  · rintro n ⟨op, hop, hn⟩
    rw [hops] at hop
    fin_cases hop
    · obtain ⟨block, hblock, hn⟩ := hn
      fin_cases hblock
      exact Option.some.inj hn ▸ by decide
    · obtain ⟨block, hblock, hn⟩ := hn
      fin_cases hblock <;> exact Option.some.inj hn ▸ by decide
  · exact ⟨[headerBlock 3 [], headerBlock 4 []], [], by simp [hops], rfl⟩

/-- Block 5 and then block 3, as in a gap that is filled late: the earliest number stays 5. -/
theorem earliest_too_late : ¬ ∀ (cfg : Config) (codec : Codec) (ops : List Operation)
    (node : Node) (m : ℕ),
    Along (Node.operate cfg codec) (Succeeds cfg codec) (Node.init cfg) ops →
    run (Node.operate cfg codec) (Node.init cfg) ops = some node → IsLeast (writtenBy ops) m →
    getEarliestPersistedBlockNumber node.store.db = some m := by
  intro h
  have hok : Along (Node.operate zeroConfig plainCodec) (Succeeds zeroConfig plainCodec)
      (Node.init zeroConfig) [.write (headerBlock 5 []), .write (headerBlock 3 [])] := by
    decide +kernel
  have hsome : ∃ node ∈ run (Node.operate zeroConfig plainCodec) (Node.init zeroConfig)
      [.write (headerBlock 5 []), .write (headerBlock 3 [])],
      getEarliestPersistedBlockNumber node.store.db = some 5 := by decide +kernel
  obtain ⟨node, hrun, hfive⟩ := hsome
  have hleast : IsLeast (writtenBy [.write (headerBlock 5 []), .write (headerBlock 3 [])]) 3 := by
    refine ⟨⟨.write (headerBlock 3 []), by simp, headerBlock 3 [], by simp, rfl⟩, ?_⟩
    rintro n ⟨op, hop, hn⟩
    fin_cases hop
    · obtain ⟨block, hblock, hn⟩ := hn
      fin_cases hblock
      exact Option.some.inj hn ▸ by decide
    · obtain ⟨block, hblock, hn⟩ := hn
      fin_cases hblock
      exact Option.some.inj hn ▸ by decide
  have hthree := h zeroConfig plainCodec _ node 3 hok hrun hleast
  rw [hfive] at hthree
  cases hthree

/-! ### The marks in runs of the service -/

section

variable {node node' : Node} {op : Operation}

/-- A historical batch changes at most the earliest number. -/
lemma writeBlockBatch_store (cfg : Config) (codec : Codec) (node : Node) (blocks : List Block)
    (outcomes : List Outcome) :
    ((node.writeBlockBatch cfg codec blocks outcomes).store = node.store ∨
      ∃ f ≤ u64Max, (node.writeBlockBatch cfg codec blocks outcomes).store =
        ⟨updateTrueEarliestIfLess f node.store.db, node.store.log⟩) ∧
    (node.writeBlockBatch cfg codec blocks outcomes).archiver = node.archiver := by
  unfold Node.writeBlockBatch Node.writeBlockBatchResult
  split
  · exact ⟨Or.inl rfl, rfl⟩
  · next effects indexName harchive =>
    obtain ⟨a, b, files, -, -, -, rfl, rfl⟩ := writeArchive_cases harchive
    have hstore := (finish_touches cfg codec node
      (fileEffects a b files.1 files.2 ++ [Effect.loadIndex (indexFilename a b)]).length outcomes
      (fileEffects_ofChunk a b files.1 files.2)).store
    simp only
    split
    · next f _ hfirst =>
      obtain ⟨first, -, hf⟩ := Option.bind_eq_some_iff.mp hfirst
      rw [hstore]
      exact ⟨Or.inr ⟨f, getBlockNumber_le hf, rfl⟩, rfl⟩
    · exact ⟨Or.inl hstore, rfl⟩

lemma updateTrueEarliestIfLess_good {s : Store} (hg : s.Good cfg) (f : ℕ) :
    Store.Good cfg ⟨updateTrueEarliestIfLess f s.db, s.log⟩ := by
  have hset : Store.Good cfg ⟨commitBatch (setTrueEarliestPersisted f) s.db, s.log⟩ :=
    (hg.congr (t := ⟨commitBatch (setTrueEarliestPersisted f) s.db, s.log⟩) rfl rfl rfl rfl).1
  unfold updateTrueEarliestIfLess
  split
  · split
    · exact hset
    · exact hg
  · exact hset

/-- A step that fails leaves the store alone. -/
lemma fail_store (node : Node) (left : List Bytes) : (node.fail left).store = node.store := by
  unfold Node.fail
  split <;> rfl

/-- **Every operation of the service keeps the marks good.** -/
lemma operate_good (hg : node.Good cfg) (hstep : node.operate cfg codec op = some node') :
    node'.Good cfg := by
  have hact : ∀ act, node.step cfg codec act = some node' → node'.Good cfg :=
    fun _ h => (Node.step_good hg h).1
  cases op with
  | write block => exact hact (.write block) hstep
  | writeBatch blocks outcomes =>
    cases hstep
    obtain ⟨hstore, harchiver⟩ := writeBlockBatch_store cfg codec node blocks outcomes
    refine ⟨?_, harchiver ▸ hg.archiver⟩
    rcases hstore with hstore | ⟨f, -, hstore⟩
    · rw [hstore]
      exact hg.store
    · rw [hstore]
      exact updateTrueEarliestIfLess_good hg.store f
  | trigger => exact hact .trigger hstep
  | archive outcome =>
    cases hstep
    have harchiver := (attempt_earliest cfg codec hg.archiver outcome).2
    cases outcome with
    | ok => exact (Node.archive_good hg codec).1
    | error left =>
      refine ⟨?_, harchiver⟩
      change (node.fail left).store.Good cfg
      rw [fail_store]
      exact hg.store
  | restart entries => exact hact (.restart entries) hstep

lemma run_good {ops : List Operation}
    (hrun : run (Node.operate cfg codec) (Node.init cfg) ops = some node) : node.Good cfg :=
  run_inv_of_step (fun hg hstep => operate_good hg hstep) (Node.init_good cfg) hrun

end

end RockNode
