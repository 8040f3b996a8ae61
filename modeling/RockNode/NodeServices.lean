import RockNode.Acknowledgement
import RockNode.ArithmeticSafety
import RockNode.ReadRace

/-!
The services that answer from the store: `get_block` of the block access plugin and `server_status`
of the server status plugin.

A call looks at the store several times, and between two looks blocks are written and archived and
the node may start again. What is served is what has been committed, and a number that is refused
is either recorded as missing or lies above everything there is.
-/

namespace RockNode

/-! ### Block access -/

/-- `BlockResponse.Code`. -/
inductive BlockCode where
  | unknown
  | invalidRequest
  | error
  | success
  | notFound
  | notAvailable
  deriving DecidableEq

structure BlockResponse where
  status : BlockCode
  block : Option Block
  deriving DecidableEq

inductive BlockSpecifier where
  | blockNumber (number : UInt64)
  | retrieveLatest (flag : Bool)

/-- `get_latest_block_number`. -/
def getLatestBlockNumber (reader : BlockReader) : Except BlockResponse ℕ :=
  match reader.latest with
  | some (some n) => .ok n
  | some none => .error ⟨.notFound, none⟩
  | none => .error ⟨.unknown, none⟩

/-- `get_target_block_number`: the last `u64` stands for the latest block. -/
def getTargetBlockNumber (reader : BlockReader) : Option BlockSpecifier → Except BlockResponse ℕ
  | some (.blockNumber number) =>
    if number.toNat = u64Max then getLatestBlockNumber reader else .ok number.toNat
  | some (.retrieveLatest true) => getLatestBlockNumber reader
  | some (.retrieveLatest false) | none => .error ⟨.invalidRequest, none⟩

/-- `handle_found_block`. -/
def handleFoundBlock (codec : Codec) (bytes : Bytes) : BlockResponse :=
  if bytes.isEmpty then ⟨.unknown, none⟩
  else
    match codec.decode bytes with
    | some block => ⟨.success, some block⟩
    | none => ⟨.unknown, none⟩

/-- `handle_not_found_block`, with the two numbers as they are read; a read that fails counts as
no number. -/
def handleNotFoundBlock (earliest latest : Option (Option ℕ)) (n : ℕ) : BlockResponse :=
  match earliest.join, latest.join with
  | some e, some l => if n < e ∨ l < n then ⟨.notAvailable, none⟩ else ⟨.notFound, none⟩
  | _, _ => ⟨.notFound, none⟩

/-- The store at each look of a call: for the number of the latest block, for the block, and for
the two numbers that explain a miss. -/
structure Looks where
  target : BlockReader
  read : BlockReader
  earliest : BlockReader
  latest : BlockReader

def getBlock (codec : Codec) (looks : Looks) (request : Option BlockSpecifier) : BlockResponse :=
  match getTargetBlockNumber looks.target request with
  | .error response => response
  | .ok n =>
    match looks.read.readBlock n with
    | none => ⟨.unknown, none⟩
    | some (some bytes) => handleFoundBlock codec bytes
    | some none => handleNotFoundBlock looks.earliest.earliest looks.latest.latest n

/-! ### Server status -/

structure ServerStatusResponse where
  firstAvailableBlock : ℕ
  lastAvailableBlock : ℕ
  onlyLatestState : Bool
  deriving DecidableEq

/-- `server_status`, which reads the earliest number and then the latest one. -/
def serverStatus (atEarliest atLatest : BlockReader) : Except String ServerStatusResponse :=
  match atEarliest.earliest with
  | none => .error "Database error while fetching earliest block"
  | some earliest =>
    match atLatest.latest with
    | none => .error "Database error while fetching latest block"
    | some latest => .ok ⟨earliest.getD 0, latest.getD 0, false⟩

/-! ### Nodes that serve -/

variable {cfg : Config} {codec : Codec} {node node' : Node}

/-- A sound step: blocks are written between archival cycles, index files can be loaded, and what
is archived fits its record. -/
def Act.Sound (cfg : Config) (codec : Codec) (node : Node) (act : Act) : Prop :=
  (OneAtATime node act ∧ LoadsSucceed node act) ∧ BatchesFit cfg codec node act

instance Act.Sound.decidable (cfg : Config) (codec : Codec) (node : Node) (act : Act) :
    Decidable (act.Sound cfg codec node) :=
  inferInstanceAs (Decidable (_ ∧ _))

/-- The later node has come from the earlier one by writes, archival steps and restarts, all of them
sound. -/
def RunsTo (cfg : Config) (codec : Codec) (node node' : Node) : Prop :=
  ∃ acts, run (Node.step cfg codec) node acts = some node' ∧
    Along (Node.step cfg codec) (Act.Sound cfg codec) node acts

/-- What holds of the store and of its two outer marks. -/
structure Serving (cfg : Config) (codec : Codec) (node : Node) : Prop where
  durable : Durable cfg codec node
  good : node.Good cfg
  cursor : node.AtCursor cfg
  latest : ∀ l, getLatestPersistedBlockNumber node.store.db = some l → cfg.seed < l
  earliest : ∀ e, getEarliestPersistedBlockNumber node.store.db = some e → node.store.Committed e
  recorded : node.store.log ≠ [] → getEarliestPersistedBlockNumber node.store.db ≠ none

lemma Store.last_ne_none {s : Store} {n : ℕ} : s.last n ≠ none ↔ s.Committed n := by
  rw [← Option.isSome_iff_ne_none, Store.last, List.lookup_isSome_iff]
  constructor
  · rintro ⟨⟨m, block⟩, hmem, heq⟩
    obtain rfl : n = m := by simpa using heq
    exact ⟨block, hmem⟩
  · rintro ⟨block, hmem⟩
    exact ⟨(n, block), hmem, by simp⟩

lemma init_serving (cfg : Config) (codec : Codec) : Serving cfg codec (Node.init cfg) where
  durable := init_durable cfg codec
  good := Node.init_good cfg
  cursor := .of_not_working fun _ h => by cases h
  latest l h := by cases (Store.init_metadata cfg _).symm.trans h
  earliest e h := by cases (Store.init_metadata cfg _).symm.trans h
  recorded h := absurd rfl h

/-- What was committed stays so. -/
lemma CursorStep.committed {op : Operation} (h : CursorStep cfg codec node op node') {n : ℕ}
    (hn : node.store.Committed n) : node'.store.Committed n := by
  obtain ⟨block, hmem⟩ := hn
  cases h with
  | wrote _ _ _ _ _ _ _ log => exact ⟨block, log ▸ List.mem_cons_of_mem _ hmem⟩
  | still _ _ log | skipped _ _ _ _ log | archived _ _ _ _ log => exact ⟨block, log ▸ hmem⟩

lemma CursorStep.latest {op : Operation} (h : CursorStep cfg codec node op node')
    (hok : (node.store.marks cfg).Ok cfg.seed)
    (hold : ∀ l, getLatestPersistedBlockNumber node.store.db = some l → cfg.seed < l) :
    ∀ l, getLatestPersistedBlockNumber node'.store.db = some l → cfg.seed < l := by
  intro l hl
  unfold getLatestPersistedBlockNumber at hl
  cases h with
  | still _ same _ => exact hold l (same.latest.symm.trans hl)
  | wrote _ n _ _ _ latest _ _ =>
    rw [latest] at hl
    split at hl
    · next hlt =>
      cases hl
      have hseed : cfg.seed ≤ latestOrSeed cfg node.store.db := hok.seed_le.trans hok.highest_le
      omega
    · exact hold l hl
  | skipped _ _ _ db _ =>
    rw [db] at hl
    exact hold l hl
  | archived _ _ _ db _ =>
    rw [db, commitBatch_metadata, deleteBatch_meta] at hl
    exact hold l hl

/-- On a node without blocks no chunk is loaded. -/
lemma Durable.not_loaded (hd : Durable cfg codec node) (hsize : 1 ≤ cfg.archiveBatchSize)
    (hlog : node.store.log = []) (k : ℕ) : node.indices.get k = none := by
  have hlast : ∀ n, node.store.last n = none := fun n => by rw [Store.last, hlog]; rfl
  by_contra hne
  obtain ⟨m, hm⟩ := Option.ne_none_iff_exists'.mp hne
  rcases (hd.loaded hm).2.2 with hpending | hsettled
  · obtain ⟨value, hvalue⟩ := Option.ne_none_iff_exists'.mp (hpending.hot 0 (by omega))
    obtain ⟨block, hblock, -⟩ := hd.faithful.hot hvalue
    cases (hlast _).symm.trans hblock
  · obtain ⟨data, index, -, -, -, hserves⟩ := hsettled.serves
    obtain ⟨block, r, hblock, -⟩ := hserves k le_rfl (by omega)
    cases (hlast _).symm.trans hblock

lemma Durable.not_hot (hd : Durable cfg codec node) (hlog : node.store.log = []) (k : ℕ) :
    node.store.db.hotBlocks.get k = none := by
  by_contra hne
  obtain ⟨value, hvalue⟩ := Option.ne_none_iff_exists'.mp hne
  obtain ⟨block, hblock, -⟩ := hd.faithful.hot hvalue
  rw [Store.last, hlog] at hblock
  cases hblock

lemma SortedMap.head_keys_eq_none {V : Type} {m : SortedMap ℕ V} (h : ∀ k, m.get k = none) :
    m.keys.head? = none := by
  rcases hkeys : m.keys.head? with _ | k
  · rfl
  · exact absurd (h k) (SortedMap.mem_keys.mp (List.mem_of_mem_head? hkeys))

/-- A start takes a block for the earliest one only if there are blocks, and then the earliest one
is on record already. -/
lemma Serving.restart_earliest (h : Serving cfg codec node) {entries : List FileName}
    (hd : Durable cfg codec (node.restart cfg entries)) (hsize : 1 ≤ cfg.archiveBatchSize) :
    getEarliestPersistedBlockNumber (node.restart cfg entries).store.db =
      getEarliestPersistedBlockNumber node.store.db := by
  have hset : ∀ db, getEarliestPersistedBlockNumber (initializeHighestContiguous cfg.seed db) =
      getEarliestPersistedBlockNumber db := fun db =>
    (initializeHighestContiguous_frame cfg.seed db).2 _ (by decide)
  rcases hold : getEarliestPersistedBlockNumber node.store.db with _ | e
  · have hlog : node.store.log = [] := by
      by_contra hne
      exact h.recorded hne hold
    have hcold : (scanAndBuildIndex node.disk entries).keys.head? = none :=
      SortedMap.head_keys_eq_none (hd.not_loaded hsize hlog)
    have hhot : node.store.db.hotBlocks.keys.head? = none :=
      SortedMap.head_keys_eq_none (h.durable.not_hot hlog)
    have hnone : node.store.db.metadata .trueEarliestPersisted = none := hold
    simp only [Node.restart, initializeDb, hnone, Option.isNone_none, if_true, hcold, hhot,
      earliestOf, hset]
    exact hold
  · have hsome : node.store.db.metadata .trueEarliestPersisted = some e := hold
    simp only [Node.restart, initializeDb, hsome, Option.isNone_some, Bool.false_eq_true, if_false,
      hset]
    exact hold

/-- A step that is not a write leaves the earliest number and the log as they are. -/
lemma Serving.step_earliest (h : Serving cfg codec node) (hsize : 1 ≤ cfg.archiveBatchSize)
    {act : Act} (hd : Durable cfg codec node') (hstep : node.step cfg codec act = some node') :
    (∃ block, act = .write block) ∨ (node'.store.log = node.store.log ∧
      getEarliestPersistedBlockNumber node'.store.db =
        getEarliestPersistedBlockNumber node.store.db) := by
  cases act with
  | write block => exact Or.inl ⟨block, rfl⟩
  | trigger =>
    right
    simp only [Node.step] at hstep
    split at hstep <;> cases hstep <;> exact ⟨rfl, rfl⟩
  | archive =>
    right
    cases hstep
    refine ⟨?_, (attempt_earliest cfg codec h.good.archiver .ok).1⟩
    have hcursor : CursorStep cfg codec node (.archive .ok) (node.archive cfg codec) :=
      (archive_cursor h.cursor).1
    cases hcursor with
    | still _ _ log | skipped _ _ _ _ log | archived _ _ _ _ log => exact log
    | wrote _ _ commits => cases commits
  | restart entries =>
    right
    simp only [Node.step] at hstep
    split at hstep <;> cases hstep
    exact ⟨rfl, h.restart_earliest hd hsize⟩

/-- **One step keeps a node serving.** -/
lemma Serving.step (h : Serving cfg codec node) (hsize : 1 ≤ cfg.archiveBatchSize) {act : Act}
    (hact : act.Sound cfg codec node) (hstep : node.step cfg codec act = some node') :
    Serving cfg codec node' := by
  have hd := step_durable h.durable hsize hact.1.1 hact.1.2 hact.2 hstep
  have hop : node.operate cfg codec act.toOperation = some node' := by
    cases act <;> exact hstep
  obtain ⟨hcursor, hat⟩ := operate_cursor h.cursor hop
  refine ⟨hd, (Node.step_good h.good hstep).1, hat, hcursor.latest h.good.store.ok h.latest, ?_, ?_⟩
  all_goals
    rcases h.step_earliest hsize hd hstep with ⟨block, rfl⟩ | ⟨hlog, hsame⟩
  · -- the first block of all is the earliest one
    cases hstep
    intro e he
    rcases node.store.write_cases cfg codec block with heq | ⟨n, -, hlog, -⟩
    · simp only [heq] at he ⊢
      exact h.earliest e he
    · simp only [getEarliestPersistedBlockNumber, Store.write_trueEarliest hlog] at he
      rcases hold : node.store.db.metadata .trueEarliestPersisted with _ | old
      · rw [hold] at he
        cases he
        exact ⟨block, by rw [hlog]; exact List.mem_cons_self⟩
      · rw [hold] at he
        cases he
        exact hcursor.committed (h.earliest old hold)
  · intro e he
    exact hcursor.committed (h.earliest e (hsame ▸ he))
  · cases hstep
    intro hne
    rcases node.store.write_cases cfg codec block with heq | ⟨n, -, hlog, -⟩
    · simp only [heq] at hne ⊢
      exact h.recorded hne
    · simp only [getEarliestPersistedBlockNumber, Store.write_trueEarliest hlog]
      exact Option.some_ne_none _
  · intro hne
    rw [hsame]
    exact h.recorded (hlog ▸ hne)

/-! ### Runs -/

lemma Serving.runsTo (h : Serving cfg codec node) (hsize : 1 ≤ cfg.archiveBatchSize)
    (hreach : RunsTo cfg codec node node') : Serving cfg codec node' := by
  obtain ⟨acts, hrun, hsound⟩ := hreach
  exact run_inv (fun h hact hstep => h.step hsize hact hstep) h hsound hrun

lemma Serving.committed_mono (h : Serving cfg codec node) (hsize : 1 ≤ cfg.archiveBatchSize)
    (hreach : RunsTo cfg codec node node') {n : ℕ} (hn : node.store.Committed n) :
    node'.store.Committed n := by
  obtain ⟨acts, hrun, hsound⟩ := hreach
  refine (run_inv (I := fun node => Serving cfg codec node ∧ node.store.Committed n)
    (fun {s act s'} h hact hstep => ⟨h.1.step hsize hact hstep, ?_⟩) ⟨h, hn⟩ hsound hrun).2
  have hop : s.operate cfg codec act.toOperation = some s' := by
    cases act <;> exact hstep
  exact (operate_cursor h.1.cursor hop).1.committed h.2

/-- The latest number on record is that of the largest block. -/
lemma Serving.latest_spec (h : Serving cfg codec node) {l : ℕ}
    (hl : getLatestPersistedBlockNumber node.store.db = some l) :
    node.store.Committed l ∧ ∀ m, node.store.Committed m → m ≤ l := by
  have hmark : (node.store.marks cfg).latest = l := by
    have hmeta : node.store.db.metadata .latestPersisted = some l := hl
    simp [Store.marks, latestOrSeed, hmeta]
  have hok := h.good.store.ok
  refine ⟨?_, fun m hm => hmark ▸ hok.bound hm⟩
  rcases hok.top with htop | htop
  · have := h.latest l hl
    omega
  · exact hmark ▸ htop

/-- The reads of a node that serves. -/
lemma Serving.readBlock (h : Serving cfg codec node) (hsize : 1 ≤ cfg.archiveBatchSize) (n : ℕ) :
    node.readBlock codec n = some ((node.store.last n).map codec.encode) :=
  h.durable.readBlock hsize n

/-- Above the seed a number that is not committed is recorded as missing, or larger than all. -/
lemma Serving.accounted (h : Serving cfg codec node) {n : ℕ} (hn : cfg.seed < n)
    (hmiss : ¬ node.store.Committed n) :
    gapAt node.store.db.gaps n ≠ none ∨ ∀ m, node.store.Committed m → m < n := by
  by_cases habove : ∃ m, node.store.Committed m ∧ n ≤ m
  · obtain ⟨m, hm, hle⟩ := habove
    left
    rw [Ne, gapAt_eq_none h.good.store.canonical, not_not]
    exact h.good.store.ok.recorded hn hm hle hmiss
  · right
    intro m hm
    by_contra hge
    exact habove ⟨m, hm, not_lt.mp hge⟩

/-! ### What the services answer -/

/-- Of the codec: the empty message is no block with a header. -/
def Codec.EmptyHasNoHeader (codec : Codec) : Prop :=
  ∀ block, codec.decode [] = some block → getBlockNumber block = none

lemma Serving.found (h : Serving cfg codec node) (hempty : codec.EmptyHasNoHeader) {n : ℕ}
    {block : Block} (hlast : node.store.last n = some block) :
    handleFoundBlock codec (codec.encode block) = ⟨.success, some block⟩ := by
  have hne : (codec.encode block).isEmpty = false := by
    rw [List.isEmpty_eq_false_iff]
    intro hnil
    have hnumber := h.durable.faithful.number hlast
    rw [hempty block (hnil ▸ codec.decode_encode block)] at hnumber
    cases hnumber
  simp [handleFoundBlock, hne]

/-- The looks of a call that finds the node in these states. -/
def Node.looks (codec : Codec) (target read earliest latest : Node) : Looks :=
  ⟨target.blockReader codec, read.blockReader codec, earliest.blockReader codec,
    latest.blockReader codec⟩

/-- A look for a block, once its number is known. -/
lemma Serving.getBlock_cases (h : Serving cfg codec node) (hempty : codec.EmptyHasNoHeader)
    (hsize : 1 ≤ cfg.archiveBatchSize) {target : Node} (earliest latest : Node)
    {request : Option BlockSpecifier} {n : ℕ}
    (htarget : getTargetBlockNumber (target.blockReader codec) request = .ok n) :
    (∃ block, node.store.last n = some block ∧
      getBlock codec (Node.looks codec target node earliest latest) request =
        ⟨.success, some block⟩) ∨
    (node.store.last n = none ∧
      getBlock codec (Node.looks codec target node earliest latest) request =
        handleNotFoundBlock (earliest.blockReader codec).earliest
          (latest.blockReader codec).latest n) := by
  have hread : (node.blockReader codec).readBlock n =
      some ((node.store.last n).map codec.encode) := h.readBlock hsize n
  rcases hlast : node.store.last n with _ | block
  · right
    rw [hlast] at hread
    exact ⟨rfl, by simp only [getBlock, Node.looks, htarget, hread, Option.map_none]⟩
  · left
    rw [hlast] at hread
    refine ⟨block, rfl, ?_⟩
    simp only [getBlock, Node.looks, htarget, hread, Option.map_some]
    exact h.found hempty hlast

/-- A number is refused as not available only if it lies before the earliest block or after the
latest one. -/
lemma Serving.not_available {earliest latest : Node} (h : Serving cfg codec latest) {n : ℕ}
    (hstatus : (handleNotFoundBlock (earliest.blockReader codec).earliest
      (latest.blockReader codec).latest n).status = .notAvailable) :
    (∃ e, getEarliestPersistedBlockNumber earliest.store.db = some e ∧ n < e) ∨
      ∀ m, latest.store.Committed m → m < n := by
  unfold handleNotFoundBlock at hstatus
  split at hstatus
  · next e l he hl =>
    have hearliest : getEarliestPersistedBlockNumber earliest.store.db = some e := he
    have hlatest : getLatestPersistedBlockNumber latest.store.db = some l := hl
    split at hstatus
    · next hout =>
      rcases hout with hlt | hlt
      · exact Or.inl ⟨e, hearliest, hlt⟩
      · exact Or.inr fun m hm => ((h.latest_spec hlatest).2 m hm).trans_lt hlt
    · cases hstatus
  · cases hstatus

lemma handleNotFoundBlock_block (earliest latest : Option (Option ℕ)) (n : ℕ) :
    (handleNotFoundBlock earliest latest n).block = none ∧
      ((handleNotFoundBlock earliest latest n).status = .notFound ∨
        (handleNotFoundBlock earliest latest n).status = .notAvailable) := by
  unfold handleNotFoundBlock
  split
  · split
    · exact ⟨rfl, Or.inr rfl⟩
    · exact ⟨rfl, Or.inl rfl⟩
  · exact ⟨rfl, Or.inl rfl⟩

/-- **Block access accounts for every number.** Whatever the node does, by sound steps, between the
looks of the call: it answers with the last block committed under the number at its look for the
block, or it says `NotFound` or `NotAvailable`. Then the number was not committed; above the seed it
was on record as missing, or larger than all that was committed. `NotAvailable` says that it lies
before the earliest block or after every block there is by now. -/
theorem getBlock_accounts (hempty : codec.EmptyHasNoHeader) (hsize : 1 ≤ cfg.archiveBatchSize)
    {node₁ node₂ node₃ node₄ : Node} (h₁ : RunsTo cfg codec (Node.init cfg) node₁)
    (h₂ : RunsTo cfg codec node₁ node₂) (h₃ : RunsTo cfg codec node₂ node₃)
    (h₄ : RunsTo cfg codec node₃ node₄) (number : UInt64) (hnumber : number.toNat ≠ u64Max) :
    let n := number.toNat
    let response := getBlock codec (Node.looks codec node₁ node₂ node₃ node₄)
      (some (.blockNumber number))
    (∃ block, node₂.store.last n = some block ∧ getBlockNumber block = some n ∧
      response = ⟨.success, some block⟩) ∨
    (¬ node₂.store.Committed n ∧ response.block = none ∧
      (response.status = .notFound ∨ response.status = .notAvailable) ∧
      (cfg.seed < n → gapAt node₂.store.db.gaps n ≠ none ∨
        ∀ m, node₂.store.Committed m → m < n) ∧
      (response.status = .notAvailable →
        (∃ e, getEarliestPersistedBlockNumber node₃.store.db = some e ∧ n < e) ∨
          ∀ m, node₄.store.Committed m → m < n)) := by
  intro n response
  have hs₂ := ((init_serving cfg codec).runsTo hsize h₁).runsTo hsize h₂
  have hs₄ := (hs₂.runsTo hsize h₃).runsTo hsize h₄
  have htarget : getTargetBlockNumber (node₁.blockReader codec) (some (.blockNumber number)) =
      .ok n := by
    simp only [getTargetBlockNumber, if_neg hnumber]
    rfl
  rcases hs₂.getBlock_cases hempty hsize node₃ node₄ htarget with
    ⟨block, hlast, hanswer⟩ | ⟨hlast, hanswer⟩
  · exact Or.inl ⟨block, hlast, hs₂.durable.faithful.number hlast, hanswer⟩
  · have hmiss : ¬ node₂.store.Committed n := fun hc => Store.last_ne_none.mpr hc hlast
    have hresponse : response = handleNotFoundBlock (node₃.blockReader codec).earliest
        (node₄.blockReader codec).latest n := hanswer
    rw [hresponse]
    obtain ⟨hblock, hstatus⟩ := handleNotFoundBlock_block (node₃.blockReader codec).earliest
      (node₄.blockReader codec).latest n
    exact Or.inr ⟨hmiss, hblock, hstatus, fun hseed => hs₂.accounted hseed hmiss,
      hs₄.not_available⟩

/-- Nothing need happen between two looks. -/
lemma RunsTo.refl (cfg : Config) (codec : Codec) (node : Node) : RunsTo cfg codec node node :=
  ⟨[], rfl, trivial⟩

lemma plainCodec_emptyHasNoHeader : plainCodec.EmptyHasNoHeader := by
  intro block h
  cases (show plainCodec.decode [] = none from rfl).symm.trans h

/-- Blocks 1 and 3; the first of them is archived. -/
def archivedPair : List Act :=
  [Act.write (headerBlock 1 []), Act.write (headerBlock 3 []), Act.trigger] ++
    List.replicate 8 Act.archive

lemma runsTo_archivedPair : ∃ node, run (Node.step firstConfig plainCodec)
    (Node.init firstConfig) archivedPair = some node ∧
      RunsTo firstConfig plainCodec (Node.init firstConfig) node := by
  have hsome : (run (Node.step firstConfig plainCodec) (Node.init firstConfig)
      archivedPair).isSome = true := by decide +kernel
  obtain ⟨node, hrun⟩ := Option.isSome_iff_exists.mp hsome
  exact ⟨node, hrun, archivedPair, hrun, by decide +kernel⟩

/-- Block 2 is missing, and on record as such. -/
theorem getBlock_accounts_missing : ∃ node, run (Node.step firstConfig plainCodec)
      (Node.init firstConfig) archivedPair = some node ∧ ¬ node.store.Committed 2 ∧
    (gapAt node.store.db.gaps 2 ≠ none ∨ ∀ m, node.store.Committed m → m < 2) := by
  obtain ⟨node, hrun, hreach⟩ := runsTo_archivedPair
  have hnone : (run (Node.step firstConfig plainCodec) (Node.init firstConfig) archivedPair).map
      (fun node => node.store.last 2) = some none := by decide +kernel
  rw [hrun, Option.map_some, Option.some.injEq] at hnone
  have hanswer := getBlock_accounts plainCodec_emptyHasNoHeader (by decide) hreach (.refl _ _ node)
    (.refl _ _ node) (.refl _ _ node) 2 (by decide)
  rcases hanswer with ⟨block, hlast, -⟩ | ⟨hmiss, -, -, haccount, -⟩
  · cases hnone.symm.trans hlast
  · exact ⟨node, hrun, hmiss, haccount (by decide)⟩

/-- **The latest block is there to be had.** Once a latest number is on record, a request for the
latest block is answered with the block of that number, whatever sound steps the node takes between
the look at the number and the look for the block; no block was larger at the first look. -/
theorem getBlock_latest (hempty : codec.EmptyHasNoHeader) (hsize : 1 ≤ cfg.archiveBatchSize)
    {node₁ node₂ : Node} (h₁ : RunsTo cfg codec (Node.init cfg) node₁)
    (h₂ : RunsTo cfg codec node₁ node₂) {l : ℕ}
    (hl : getLatestPersistedBlockNumber node₁.store.db = some l) (node₃ node₄ : Node) :
    (∀ m, node₁.store.Committed m → m ≤ l) ∧
    ∃ block, getBlockNumber block = some l ∧
      ∀ request ∈ [BlockSpecifier.retrieveLatest true, .blockNumber (UInt64.ofNat u64Max)],
        getBlock codec (Node.looks codec node₁ node₂ node₃ node₄) (some request) =
          ⟨.success, some block⟩ := by
  have hs₁ := (init_serving cfg codec).runsTo hsize h₁
  have hs₂ := hs₁.runsTo hsize h₂
  obtain ⟨hcommitted, hbound⟩ := hs₁.latest_spec hl
  obtain ⟨block, hlast, -⟩ := (hs₁.committed_mono hsize h₂ hcommitted).last
  refine ⟨hbound, block, hs₂.durable.faithful.number hlast, fun request hrequest => ?_⟩
  have hlatest : getLatestBlockNumber (node₁.blockReader codec) = .ok l := by
    simp only [getLatestBlockNumber, Node.blockReader, hl]
  have htarget : getTargetBlockNumber (node₁.blockReader codec) (some request) = .ok l := by
    simp only [List.mem_cons, List.not_mem_nil, or_false] at hrequest
    rcases hrequest with rfl | rfl
    · exact hlatest
    · simp only [getTargetBlockNumber]
      rw [if_pos (by decide), hlatest]
  rcases hs₂.getBlock_cases hempty hsize node₃ node₄ htarget with
    ⟨found, hfound, hanswer⟩ | ⟨hnone, -⟩
  · rw [hlast] at hfound
    cases hfound
    exact hanswer
  · cases hlast.symm.trans hnone

theorem getBlock_latest_three : ∃ node block, run (Node.step firstConfig plainCodec)
      (Node.init firstConfig) archivedPair = some node ∧ getBlockNumber block = some 3 ∧
    getBlock plainCodec (Node.looks plainCodec node node node node)
      (some (.retrieveLatest true)) = ⟨.success, some block⟩ := by
  obtain ⟨node, hrun, hreach⟩ := runsTo_archivedPair
  have hthree : (run (Node.step firstConfig plainCodec) (Node.init firstConfig) archivedPair).map
      (fun node => getLatestPersistedBlockNumber node.store.db) = some (some 3) := by
    decide +kernel
  rw [hrun, Option.map_some, Option.some.injEq] at hthree
  obtain ⟨-, block, hnumber, hanswer⟩ := getBlock_latest plainCodec_emptyHasNoHeader (by decide)
    hreach (.refl _ _ node) hthree node node
  exact ⟨node, block, hrun, hnumber, hanswer _ List.mem_cons_self⟩

/-- **The reported range.** At a node that takes sound steps: when there are blocks at the look for
the earliest number and a latest number is on record at the second look, the two ends that
`server_status` reports are numbers of blocks that can be read, the first is not after the last, no
block is beyond the last, and between the two every number above the seed is committed or on record
as missing. -/
theorem serverStatus_range (hsize : 1 ≤ cfg.archiveBatchSize) {node₁ node₂ : Node}
    (h₁ : RunsTo cfg codec (Node.init cfg) node₁) (h₂ : RunsTo cfg codec node₁ node₂)
    (hblocks : node₁.store.log ≠ [])
    (hlatest : getLatestPersistedBlockNumber node₂.store.db ≠ none) :
    ∃ first last, serverStatus (node₁.blockReader codec) (node₂.blockReader codec) =
        .ok ⟨first, last, false⟩ ∧ first ≤ last ∧
      (∀ n ∈ [first, last], ∃ block, getBlockNumber block = some n ∧
        node₂.readBlock codec n = some (some (codec.encode block))) ∧
      (∀ n, node₂.store.Committed n → n ≤ last) ∧
      ∀ n, cfg.seed < n → first ≤ n → n ≤ last →
        node₂.store.Committed n ∨ gapAt node₂.store.db.gaps n ≠ none := by
  have hs₁ := (init_serving cfg codec).runsTo hsize h₁
  have hs₂ := hs₁.runsTo hsize h₂
  obtain ⟨first, hfirst⟩ := Option.ne_none_iff_exists'.mp (hs₁.recorded hblocks)
  obtain ⟨last, hlast⟩ := Option.ne_none_iff_exists'.mp hlatest
  have hcommitted : node₂.store.Committed first :=
    hs₁.committed_mono hsize h₂ (hs₁.earliest first hfirst)
  obtain ⟨htop, hbound⟩ := hs₂.latest_spec hlast
  have hreads : ∀ {n}, node₂.store.Committed n → ∃ block, getBlockNumber block = some n ∧
      node₂.readBlock codec n = some (some (codec.encode block)) := by
    intro n hn
    obtain ⟨block, hblock, -⟩ := hn.last
    exact ⟨block, hs₂.durable.faithful.number hblock, by rw [hs₂.readBlock hsize, hblock]; rfl⟩
  refine ⟨first, last, ?_, hbound first hcommitted, ?_, hbound, fun n hseed _ hle => ?_⟩
  · simp only [serverStatus, Node.blockReader, hfirst, hlast, Option.getD_some]
  · intro n hn
    simp only [List.mem_cons, List.not_mem_nil, or_false] at hn
    rcases hn with rfl | rfl
    · exact hreads hcommitted
    · exact hreads htop
  · by_cases hn : node₂.store.Committed n
    · exact Or.inl hn
    · rcases hs₂.accounted hseed hn with hgap | habove
      · exact Or.inr hgap
      · exact absurd (habove last htop) (not_lt.mpr hle)

theorem serverStatus_range_pair : ∃ node first last, run (Node.step firstConfig plainCodec)
      (Node.init firstConfig) archivedPair = some node ∧
    serverStatus (node.blockReader plainCodec) (node.blockReader plainCodec) =
      .ok ⟨first, last, false⟩ ∧ first ≤ last := by
  obtain ⟨node, hrun, hreach⟩ := runsTo_archivedPair
  have hmarks : (run (Node.step firstConfig plainCodec) (Node.init firstConfig) archivedPair).map
      (fun node => (node.store.log.length, getLatestPersistedBlockNumber node.store.db)) =
        some (2, some 3) := by
    decide +kernel
  rw [hrun, Option.map_some, Option.some.injEq, Prod.mk.injEq] at hmarks
  obtain ⟨first, last, hstatus, hle, -⟩ := serverStatus_range (by decide) hreach (.refl _ _ node)
    (fun hnil => by rw [hnil] at hmarks; cases hmarks.1) (by rw [hmarks.2]; simp)
  exact ⟨node, first, last, hrun, hstatus, hle⟩

end RockNode
