import RockNode.ColdLookup
import RockNode.Cursor
import RockNode.DurableRuns

/-!
`run_archival_cycle` as one call.

Each pass of the loop looks at the batch at the cursor and archives it, or stops: because the hot
tier is small enough, or because the batch is not complete, which is then recorded. What a call
has done when it returns is to move the cursor over some whole batches.
-/

namespace RockNode

/-! ### The call -/

/-- How a call ends. Where a batch has no blocks at all it does not end. -/
inductive CycleEnd where
  | ok
  | err
  | unfinished
  deriving DecidableEq

/-- At most so many passes of the loop. Each step takes its outcome from the list and is fine when
the list is over; what is read at the top of the loop is one step. -/
def Node.cycleFrom (cfg : Config) (codec : Codec) : ℕ → List Outcome → Node → Node × CycleEnd
  | 0, _, node => (node, .unfinished)
  | fuel + 1, outcomes, node =>
    match outcomes.headD .ok with
    | .error _ => (node, .err)
    | .ok =>
      match node.store.db.metadata .earliestHot with
      | none => (node, .ok)
      | some earliestHot =>
        match checkedAdd ((node.store.db.metadata .latestPersisted).getD 0 - earliestHot) 1 with
        | none => (node, .err)
        | some total =>
          if total ≤ cfg.hotStorageBlockCount then (node, .ok)
          else
            match isBatchComplete node.store.db earliestHot cfg.archiveBatchSize with
            | none => (node, .err)
            | some false =>
              ({ node with
                store := ⟨commitBatch (addSkippedBatch earliestHot) node.store.db,
                  node.store.log⟩ }, .ok)
            | some true =>
              match archiveBatch codec node.store.db earliestHot cfg.archiveBatchSize with
              | none => (node, .err)
              | some effects =>
                let done := Node.finish cfg codec effects.length outcomes.tail
                  { node with archiver := .working effects }
                match done.archiver with
                | .working [] =>
                  Node.cycleFrom cfg codec fuel (outcomes.tail.drop effects.length) done
                | _ => (done, .err)

/-- The call; nothing of it is left when it returns. -/
def Node.runArchivalCycle (cfg : Config) (codec : Codec) (fuel : ℕ) (outcomes : List Outcome)
    (node : Node) : Node × CycleEnd :=
  let result := Node.cycleFrom cfg codec fuel outcomes node
  ({ result.1 with archiver := .idle }, result.2)

variable {cfg : Config} {codec : Codec} {node node' : Node} {fuel : ℕ} {outcomes : List Outcome}
  {start last : ℕ}

/-! ### The steps of one archival -/

/-- What a step does to the disk, if it goes on. -/
def Effect.onDisk : Effect → Disk → Option Disk
  | .writeFile name contents, disk => some (disk.put name contents)
  | .rename source target, disk =>
    (disk.get source).map fun contents => (disk.erase source).put target contents
  | _, disk => some disk

@[simp] lemma Effect.onDisk_writeFile (name : FileName) (contents : Bytes) (disk : Disk) :
    (Effect.writeFile name contents).onDisk disk = some (disk.put name contents) := rfl

@[simp] lemma Effect.onDisk_rename (source target : FileName) (disk : Disk) :
    (Effect.rename source target).onDisk disk =
      (disk.get source).map fun contents => (disk.erase source).put target contents := rfl

@[simp] lemma Effect.onDisk_loadIndex (name : FileName) (disk : Disk) :
    (Effect.loadIndex name).onDisk disk = some disk := rfl

def diskAfter : List Effect → Disk → Option Disk
  | [], disk => some disk
  | effect :: effects, disk => effect.onDisk disk >>= diskAfter effects

/-- A step ends the work or has done what it was to do on the disk. -/
lemma attempt_onDisk {effect : Effect} {effects : List Effect}
    (hwork : node.archiver = .working (effect :: effects)) (outcome : Outcome) :
    (node.attempt cfg codec outcome).archiver = .idle ∨
      (node.attempt cfg codec outcome).archiver = .working effects ∧
        effect.onDisk node.disk = some (node.attempt cfg codec outcome).disk := by
  cases outcome with
  | ok =>
    simp only [Node.attempt, Node.archive, hwork]
    cases effect with
    | rename source target =>
      rcases hsource : node.disk.get source with _ | contents
      · simp [Node.perform, hsource]
      · simp [Effect.onDisk, Node.perform, hsource]
    | loadIndex name =>
      simp only [Effect.onDisk, Node.perform]
      split
      · exact Or.inl rfl
      · exact Or.inr ⟨rfl, rfl⟩
    | fault => exact Or.inl rfl
    | _ => exact Or.inr ⟨rfl, rfl⟩
  | error left =>
    simp only [Node.attempt, Node.fail, hwork]
    cases effect with
    | loadIndex name => exact Or.inr ⟨rfl, rfl⟩
    | _ => exact Or.inl rfl

lemma finish_of_idle (cfg : Config) (codec : Codec) (steps : ℕ) (outcomes : List Outcome)
    (h : node.archiver = .idle) : node.finish cfg codec steps outcomes = node := by
  cases steps with
  | zero => rfl
  | succ steps => simp only [Node.finish, h]

lemma finish_cons {effect : Effect} {effects : List Effect}
    (hwork : node.archiver = .working (effect :: effects)) (steps : ℕ) (outcomes : List Outcome) :
    node.finish cfg codec (steps + 1) outcomes =
      (node.attempt cfg codec (outcomes.headD .ok)).finish cfg codec steps outcomes.tail := by
  simp only [Node.finish, hwork]

/-- The work ends before its time or goes through to the end. -/
lemma finish_ends (cfg : Config) (codec : Codec) (outcomes : List Outcome) {node : Node}
    {effects : List Effect} (hwork : node.archiver = .working effects) :
    (node.finish cfg codec effects.length outcomes).archiver = .idle ∨
      (node.finish cfg codec effects.length outcomes).archiver = .working [] ∧
        diskAfter effects node.disk =
          some (node.finish cfg codec effects.length outcomes).disk := by
  induction effects generalizing node outcomes with
  | nil => exact Or.inr ⟨hwork, rfl⟩
  | cons effect effects ih =>
    rw [List.length_cons, finish_cons hwork]
    rcases attempt_onDisk hwork (outcomes.headD .ok) with hidle | ⟨hnext, hdisk⟩
    · rw [finish_of_idle cfg codec _ _ hidle]
      exact Or.inl hidle
    · simp only [diskAfter, hdisk, Option.bind_eq_bind, Option.bind_some]
      exact ih outcomes.tail hnext

/-- The two files are in place when the steps on them have been made. -/
lemma diskAfter_archiveEffects {start last : ℕ} {data index : Bytes} {final : Effect}
    (hfinal : ∀ disk, final.onDisk disk = some disk) {disk disk' : Disk}
    (h : diskAfter (archiveEffects start last data index final) disk = some disk') :
    disk'.get (dataFilename start last) = some data ∧
      disk'.get (indexFilename start last) = some index := by
  have hdt := dataFilename_ne_temp_index start last
  have htt := temp_data_ne_temp_index start last
  simp only [archiveEffects, diskAfter, Effect.onDisk_writeFile, Effect.onDisk_rename,
    Effect.onDisk_loadIndex, hfinal, Option.bind_eq_bind, Option.bind_some,
    SortedMap.get_put_of_ne _ _ htt, SortedMap.get_put_self, Option.map_some,
    get_rename htt.symm hdt.symm, Option.some.injEq] at h
  subst h
  refine ⟨?_, SortedMap.get_put_self _ _ _⟩
  rw [get_rename hdt (dataFilename_ne_indexFilename _ _), SortedMap.get_put_self]

lemma finalEffect_onDisk (start count : ℕ) (disk : Disk) :
    (finalEffect start count).onDisk disk = some disk := by
  unfold finalEffect
  split <;> rfl

lemma finish_of_done (cfg : Config) (codec : Codec) (steps : ℕ) (outcomes : List Outcome)
    (h : node.archiver = .working []) : node.finish cfg codec steps outcomes = node := by
  cases steps with
  | zero => rfl
  | succ steps => simp only [Node.finish, h]

lemma Touches.refl (start last : ℕ) (node : Node) : Touches start last node node :=
  .archiver start last node node.archiver

lemma finalEffect_ne_writeFile {start count : ℕ} {name : FileName} {contents : Bytes} :
    .writeFile name contents ≠ finalEffect start count := by
  unfold finalEffect
  split <;> simp

/-- An archival leaves the store alone until its last step, which makes one commit. -/
lemma finish_store (cfg : Config) (codec : Codec) (steps : ℕ) (outcomes : List Outcome)
    {files : List Effect} (hwork : node.archiver = .working (files ++ [finalEffect start
      cfg.archiveBatchSize])) (hof : ∀ effect ∈ files, OfChunk start last effect) :
    ∃ done, Touches start last node done ∧
      (node.finish cfg codec steps outcomes = done ∧ done.archiver ≠ .working [] ∨
      start + cfg.archiveBatchSize ≤ u64Max ∧ node.finish cfg codec steps outcomes = { done with
        store := ⟨commitBatch (deleteBatch start cfg.archiveBatchSize
          (start + cfg.archiveBatchSize)) node.store.db, node.store.log⟩
        archiver := .working [] }) := by
  induction steps generalizing node outcomes files with
  | zero => exact ⟨node, .refl start last node, Or.inl ⟨rfl, by simp [hwork]⟩⟩
  | succ steps ih =>
    have hfail : ∀ left, Touches start last node (node.fail left) := by
      refine fail_touches hwork fun name contents hmem => ?_
      rcases List.mem_append.mp hmem with hmem | hmem
      · exact hof _ hmem
      · exact absurd (List.mem_singleton.mp hmem) finalEffect_ne_writeFile
    rcases files with _ | ⟨file, files⟩
    · rw [List.nil_append] at hwork
      rw [finish_cons hwork]
      rcases outcomes.headD .ok with _ | left
      · simp only [Node.attempt, Node.archive, hwork]
        rcases hfinal : checkedAdd start cfg.archiveBatchSize with _ | new
        · simp only [finalEffect, hfinal, Node.perform]
          exact ⟨_, .archiver start last node .idle, Or.inl ⟨finish_of_idle _ _ _ _ rfl, by simp⟩⟩
        · obtain ⟨rfl, hle⟩ := checkedAdd_eq_some.mp hfinal
          simp only [finalEffect, hfinal, Node.perform]
          exact ⟨node, .refl start last node, Or.inr ⟨hle, finish_of_done _ _ _ _ rfl⟩⟩
      · have hidle : (node.fail left).archiver = .idle := by
          rcases hfinal : checkedAdd start cfg.archiveBatchSize with _ | new
          · simp only [Node.fail, hwork, finalEffect, hfinal]
          · simp only [Node.fail, hwork, finalEffect, hfinal]
        exact ⟨_, hfail left, Or.inl ⟨finish_of_idle _ _ _ _ hidle, by simp [hidle]⟩⟩
    · rw [List.cons_append] at hwork
      rw [finish_cons hwork]
      have htouches : Touches start last node (node.attempt cfg codec (outcomes.headD .ok)) := by
        rcases outcomes.headD .ok with _ | left
        · simp only [Node.attempt, Node.archive, hwork]
          exact (hof file List.mem_cons_self).touches node _
        · exact hfail left
      rcases attempt_onDisk hwork (outcomes.headD .ok) with hidle | ⟨hnext, -⟩
      · exact ⟨_, htouches, Or.inl ⟨finish_of_idle _ _ _ _ hidle, by rw [hidle]; simp⟩⟩
      · obtain ⟨done, hdone, hends⟩ := ih outcomes.tail hnext fun effect heffect =>
          hof effect (List.mem_cons_of_mem _ heffect)
        rw [htouches.store] at hends
        exact ⟨done, htouches.trans hdone, hends⟩

/-! ### What a call has done -/

/-- The numbers that leave the hot tier when the cursor moves over `k` batches. -/
def Leaves (cfg : Config) (db : Db) (k n : ℕ) : Prop :=
  ∃ e ∈ db.metadata .earliestHot, e ≤ n ∧ n < e + k * cfg.archiveBatchSize

/-- **The effect of a call that has archived `k` batches.** The blocks that have left the hot tier
are those from the old cursor to the new one; they are in archives, one for each batch, and
nothing else in the database has changed but the record of a skipped batch. Before each of the
batches the hot tier counted as too large. -/
structure CycleEffect (cfg : Config) (codec : Codec) (blocks : ℕ → Block) (k : ℕ)
    (node node' : Node) : Prop where
  earliest : node'.store.db.metadata .earliestHot =
    (node.store.db.metadata .earliestHot).map (· + k * cfg.archiveBatchSize)
  were : ∀ n, Leaves cfg node.store.db k n →
    node.store.db.hotBlocks.get n = some (codec.serialize (codec.encode (blocks n)))
  gone : ∀ n, Leaves cfg node.store.db k n → node'.store.db.hotBlocks.get n = none
  kept : ∀ n, ¬ Leaves cfg node.store.db k n →
    node'.store.db.hotBlocks.get n = node.store.db.hotBlocks.get n
  archived : ∀ e ∈ node.store.db.metadata .earliestHot, ∀ i < k,
    ArchivePair codec node'.disk blocks
      (e + i * cfg.archiveBatchSize, cfg.lastOf (e + i * cfg.archiveBatchSize))
  due : ∀ e ∈ node.store.db.metadata .earliestHot, ∀ i < k, cfg.hotStorageBlockCount <
    (node.store.db.metadata .latestPersisted).getD 0 - (e + i * cfg.archiveBatchSize) + 1
  marks : ∀ key, key ≠ .earliestHot → node'.store.db.metadata key = node.store.db.metadata key
  gaps : node'.store.db.gaps = node.store.db.gaps
  log : node'.store.log = node.store.log

/-- Besides its archives a call touches only files of the batch at which it has come to an end. -/
def DiskBeyond (cfg : Config) (k : ℕ) (node node' : Node) : Prop :=
  ∀ name, (∀ e ∈ node.store.db.metadata .earliestHot, ∀ i ≤ k,
    ¬ Owned (e + i * cfg.archiveBatchSize) (cfg.lastOf (e + i * cfg.archiveBatchSize)) name) →
    node'.disk.get name = node.disk.get name

variable {blocks : ℕ → Block} {k : ℕ}

lemma not_leaves_zero (n : ℕ) : ¬ Leaves cfg node.store.db 0 n := by
  rintro ⟨e, -, h1, h2⟩
  omega

/-- A call that has archived nothing. -/
lemma CycleEffect.zero (hhot : node'.store.db.hotBlocks = node.store.db.hotBlocks)
    (hmeta : node'.store.db.metadata = node.store.db.metadata)
    (hgaps : node'.store.db.gaps = node.store.db.gaps) (hlog : node'.store.log = node.store.log) :
    CycleEffect cfg codec blocks 0 node node' where
  earliest := by simp [hmeta]
  were n h := absurd h (not_leaves_zero n)
  gone n h := absurd h (not_leaves_zero n)
  kept n _ := by rw [hhot]
  archived e _ i hi := absurd hi (Nat.not_lt_zero i)
  due e _ i hi := absurd hi (Nat.not_lt_zero i)
  marks key _ := by rw [hmeta]
  gaps := hgaps
  log := hlog

lemma CycleEffect.archiver (h : CycleEffect cfg codec blocks k node node') (a : Archiver) :
    CycleEffect cfg codec blocks k node { node' with archiver := a } :=
  ⟨h.earliest, h.were, h.gone, h.kept, h.archived, h.due, h.marks, h.gaps, h.log⟩

lemma leaves_iff {db : Db} {e : ℕ} (he : db.metadata .earliestHot = some e) (k n : ℕ) :
    Leaves cfg db k n ↔ e ≤ n ∧ n < e + k * cfg.archiveBatchSize := by
  simp [Leaves, he]

lemma ArchivePair.congr {disk disk' : Disk} {r : Range} (h : ArchivePair codec disk blocks r)
    (hdisk : ∀ name, Owned r.1 r.2 name → disk'.get name = disk.get name) :
    ArchivePair codec disk' blocks r := by
  obtain ⟨files, hfiles, hdata, hindex⟩ := h.files
  refine ⟨h.le, h.numbers, files, hfiles, ?_, ?_⟩
  · rw [hdisk _ (owned_data r.1 r.2), hdata]
  · rw [hdisk _ (owned_index r.1 r.2), hindex]

/-- One batch and then the others. -/
lemma CycleEffect.step (hsize : 1 ≤ cfg.archiveBatchSize) {node₁ node₂ node₃ : Node} {e : ℕ}
    (he : node₁.store.db.metadata .earliestHot = some e)
    (h : CycleEffect cfg codec blocks 1 node₁ node₂)
    (h' : CycleEffect cfg codec blocks k node₂ node₃) (hdisk : DiskBeyond cfg k node₂ node₃) :
    CycleEffect cfg codec blocks (k + 1) node₁ node₃ := by
  have he' : node₂.store.db.metadata .earliestHot = some (e + cfg.archiveBatchSize) := by
    rw [h.earliest, he, Option.map_some, Nat.one_mul]
  have hmul : (k + 1) * cfg.archiveBatchSize = k * cfg.archiveBatchSize + cfg.archiveBatchSize :=
    Nat.succ_mul k cfg.archiveBatchSize
  -- the numbers of the first batch, and those of the others
  have hsplit : ∀ n, Leaves cfg node₁.store.db (k + 1) n ↔
      Leaves cfg node₁.store.db 1 n ∨ Leaves cfg node₂.store.db k n := by
    intro n
    rw [leaves_iff he, leaves_iff he, leaves_iff he', hmul, Nat.one_mul]
    omega
  have hapart : ∀ n, Leaves cfg node₁.store.db 1 n → ¬ Leaves cfg node₂.store.db k n := by
    intro n
    rw [leaves_iff he, leaves_iff he', Nat.one_mul]
    omega
  have hshift : ∀ i, e + cfg.archiveBatchSize + i * cfg.archiveBatchSize =
      e + (i + 1) * cfg.archiveBatchSize := fun i => by
    rw [Nat.succ_mul]
    omega
  refine ⟨?_, fun n hn => ?_, fun n hn => ?_, fun n hn => ?_, fun e₀ he₀ i hi => ?_,
    fun e₀ he₀ i hi => ?_, fun key hkey => (h'.marks key hkey).trans (h.marks key hkey),
    h'.gaps.trans h.gaps, h'.log.trans h.log⟩
  · rw [h'.earliest, he', he, Option.map_some, Option.map_some, hmul]
    congr 1
    omega
  · rcases (hsplit n).mp hn with hn | hn
    · exact h.were n hn
    · rw [← h.kept n fun hfirst => hapart n hfirst hn]
      exact h'.were n hn
  · rcases (hsplit n).mp hn with hn | hn
    · rw [h'.kept n (hapart n hn), h.gone n hn]
    · exact h'.gone n hn
  · rw [hsplit, not_or] at hn
    rw [h'.kept n hn.2, h.kept n hn.1]
  · obtain rfl : e = e₀ := Option.some.inj (he.symm.trans he₀)
    cases i with
    | zero =>
      -- the files of the first batch are none of the others'
      refine (h.archived e he 0 (by omega)).congr fun name hname => ?_
      refine hdisk name fun e₂ he₂ j _ howned => ?_
      obtain rfl : e + cfg.archiveBatchSize = e₂ := Option.some.inj (he'.symm.trans he₂)
      exact Owned.ne hname howned (by simp only [Nat.zero_mul]; omega) rfl
    | succ i =>
      rw [← hshift]
      exact h'.archived _ he' i (by omega)
  · obtain rfl : e = e₀ := Option.some.inj (he.symm.trans he₀)
    cases i with
    | zero => exact h.due e he 0 (by omega)
    | succ i =>
      rw [← hshift, ← h.marks .latestPersisted (by decide)]
      exact h'.due _ he' i (by omega)

lemma DiskBeyond.step {node₁ node₂ node₃ : Node} {e : ℕ}
    (he : node₁.store.db.metadata .earliestHot = some e)
    (he' : node₂.store.db.metadata .earliestHot = some (e + cfg.archiveBatchSize))
    (h : DiskBeyond cfg 0 node₁ node₂) (h' : DiskBeyond cfg k node₂ node₃) :
    DiskBeyond cfg (k + 1) node₁ node₃ := by
  intro name hname
  rw [h' name ?_, h name fun e₀ he₀ i hi => hname e₀ he₀ i (by omega)]
  intro e₂ he₂ i hi
  obtain rfl : e + cfg.archiveBatchSize = e₂ := Option.some.inj (he'.symm.trans he₂)
  have := hname e he (i + 1) (by omega)
  rwa [show e + (i + 1) * cfg.archiveBatchSize =
    e + cfg.archiveBatchSize + i * cfg.archiveBatchSize by rw [Nat.succ_mul]; omega] at this

/-! ### One pass -/

/-- The blocks of the hot tier, each under its own number. -/
def HotHolds (codec : Codec) (blocks : ℕ → Block) (db : Db) : Prop :=
  ∀ n value, db.hotBlocks.get n = some value →
    getBlockNumber (blocks n) = some n ∧ value = codec.serialize (codec.encode (blocks n))

lemma HotHolds.proper {db : Db} (h : HotHolds codec blocks db) : db.Proper codec :=
  fun {n value} hvalue => ⟨blocks n, h n value hvalue⟩

lemma Db.Proper.holds {db : Db} (h : db.Proper codec) : ∃ blocks, HotHolds codec blocks db := by
  have hsome : ∀ n, ∃ block, ∀ value, db.hotBlocks.get n = some value →
      getBlockNumber block = some n ∧ value = codec.serialize (codec.encode block) := by
    intro n
    rcases hn : db.hotBlocks.get n with _ | value
    · exact ⟨headerBlock 0 [], fun value hvalue => by cases hvalue⟩
    · obtain ⟨block, hblock⟩ := h hn
      refine ⟨block, fun value' hvalue => ?_⟩
      cases hvalue
      exact hblock
  choose blocks hblocks using hsome
  exact ⟨blocks, hblocks⟩

lemma CycleEffect.holds (h : CycleEffect cfg codec blocks k node node')
    (hholds : HotHolds codec blocks node.store.db) : HotHolds codec blocks node'.store.db := by
  intro n value hvalue
  by_cases hn : Leaves cfg node.store.db k n
  · rw [h.gone n hn] at hvalue
    cases hvalue
  · rw [h.kept n hn] at hvalue
    exact hholds n value hvalue

/-- The files that are written hold the chunk of the hot tier. -/
lemma archivePair_of_batch (hholds : HotHolds codec blocks node.store.db)
    (hsize : 1 ≤ cfg.archiveBatchSize) {chunk : List Block} {files : Bytes × Bytes} {disk : Disk}
    (hfiles : writeRecords codec 0 chunk = some files) (hlen : chunk.length = cfg.archiveBatchSize)
    (hblock : ∀ {i block}, chunk[i]? = some block → getBlockNumber block = some (start + i) ∧
      node.store.db.hotBlocks.get (start + i) = some (codec.serialize (codec.encode block)))
    (hdata : disk.get (dataFilename start (cfg.lastOf start)) = some files.1)
    (hindex : disk.get (indexFilename start (cfg.lastOf start)) = some files.2) :
    ArchivePair codec disk blocks (start, cfg.lastOf start) := by
  have hget : ∀ i < cfg.archiveBatchSize, chunk[i]? = some (blocks (start + i)) ∧
      getBlockNumber (blocks (start + i)) = some (start + i) := by
    intro i hi
    have hi' : chunk[i]? = some _ := List.getElem?_eq_getElem (by omega)
    obtain ⟨hnumber, hvalue⟩ := hholds _ _ (hblock hi').2
    rw [hi', codec.stored_injective hvalue]
    exact ⟨rfl, hnumber⟩
  have hchunk : chunk = chunkOf blocks (start, cfg.lastOf start) := by
    refine List.ext_getElem? fun i => ?_
    by_cases hi : i < cfg.archiveBatchSize
    · have := chunkOf_getElem? (r := (start, cfg.lastOf start)) blocks (n := start + i)
        ⟨by simp, by simp only [Config.lastOf]; omega⟩
      rw [Nat.add_sub_cancel_left] at this
      rw [this, (hget i hi).1]
    · rw [List.getElem?_eq_none (by omega), List.getElem?_eq_none]
      simp only [chunkOf, List.length_map, List.length_range', Config.lastOf]
      omega
  refine ⟨by simp only [Config.lastOf]; omega, ?_, files, by rw [← hchunk]; exact hfiles, hdata,
    hindex⟩
  rintro n ⟨h1, h2⟩
  simp only [Config.lastOf] at h1 h2
  have := (hget (n - start) (by omega)).2
  rwa [show start + (n - start) = n by omega] at this

/-- A pass that archives the batch at the cursor goes through, or fails and leaves the database as
it was. -/
lemma archive_pass (hsize : 1 ≤ cfg.archiveBatchSize) (hholds : HotHolds codec blocks node.store.db)
    (he : node.store.db.metadata .earliestHot = some start)
    (hdue : cfg.hotStorageBlockCount <
      (node.store.db.metadata .latestPersisted).getD 0 - start + 1)
    (hcomplete : isBatchComplete node.store.db start cfg.archiveBatchSize = some true)
    {effects : List Effect}
    (hbatch : archiveBatch codec node.store.db start cfg.archiveBatchSize = some effects)
    {done : Node} (hdone : done = Node.finish cfg codec effects.length outcomes
      { node with archiver := .working effects }) :
    DiskBeyond cfg 0 node done ∧
      (done.archiver = .idle ∧ done.store = node.store ∨
      done.archiver = .working [] ∧ start + cfg.archiveBatchSize ≤ u64Max ∧
        CycleEffect cfg codec blocks 1 node done) := by
  obtain ⟨chunk, files, hfiles, heffects, hlen, hblock⟩ :=
    archiveBatch_effects hholds.proper hsize hcomplete hbatch
  set working : Node := { node with archiver := .working effects } with hworking
  have hwork : working.archiver = .working ((fileEffects start (cfg.lastOf start) files.1 files.2 ++
      [.loadIndex (indexFilename start (cfg.lastOf start))]) ++
        [finalEffect start cfg.archiveBatchSize]) := by
    rw [hworking, heffects]
    rfl
  obtain ⟨x, htouches, hends⟩ := finish_store cfg codec effects.length outcomes hwork
    (fileEffects_ofChunk start (cfg.lastOf start) files.1 files.2)
  have hdisk : done.disk = x.disk := by
    rw [hdone]
    rcases hends with ⟨heq, -⟩ | ⟨-, heq⟩
    · rw [heq]
    · rw [heq]
  refine ⟨fun name hname => ?_, ?_⟩
  · rw [hdisk, htouches.disk name]
    simpa using hname start he 0 le_rfl
  rcases finish_ends cfg codec outcomes (rfl : working.archiver = .working effects) with
    hidle | ⟨hfull, hafter⟩
  · rw [← hdone] at hidle hends
    rcases hends with ⟨rfl, -⟩ | ⟨-, heq⟩
    · exact Or.inl ⟨hidle, htouches.store⟩
    · rw [heq] at hidle
      cases hidle
  · rw [← hdone] at hfull hafter hends
    rcases hends with ⟨rfl, hne⟩ | ⟨hle, heq⟩
    · exact absurd hfull hne
    refine Or.inr ⟨hfull, hle, ?_⟩
    rw [heffects] at hafter
    obtain ⟨hdata, hindex⟩ := diskAfter_archiveEffects (finalEffect_onDisk _ _) hafter
    have hdb : done.store.db = commitBatch (deleteBatch start cfg.archiveBatchSize
        (start + cfg.archiveBatchSize)) node.store.db := by rw [heq]
    have hleaves : ∀ n, Leaves cfg node.store.db 1 n ↔
        start ≤ n ∧ n < start + cfg.archiveBatchSize := fun n => by
      rw [leaves_iff he, Nat.one_mul]
    have hhot : ∀ n, done.store.db.hotBlocks.get n =
        if start ≤ n ∧ n < start + cfg.archiveBatchSize then none
        else node.store.db.hotBlocks.get n := fun n => by
      rw [hdb, commitBatch_hotBlocks, deleteBatch_hot]
    refine ⟨?_, fun n hn => ?_, fun n hn => ?_, fun n hn => ?_, fun e he' i hi => ?_,
      fun e he' i hi => ?_, fun key hkey => ?_, ?_, by rw [heq]⟩
    · rw [hdb, commitBatch_metadata, deleteBatch_meta, Function.update_self, he, Option.map_some,
        Nat.one_mul]
    · have hn' := (hleaves n).mp hn
      have hmem : chunk[n - start]? = some _ := List.getElem?_eq_getElem (by omega)
      have hvalue := (hblock hmem).2
      rw [show start + (n - start) = n by omega] at hvalue
      rw [hvalue, (hholds n _ hvalue).2]
    · rw [hhot, if_pos ((hleaves n).mp hn)]
    · rw [hhot, if_neg fun h => hn ((hleaves n).mpr h)]
    · obtain rfl : start = e := Option.some.inj (he.symm.trans he')
      obtain rfl : i = 0 := by omega
      rw [Nat.zero_mul, Nat.add_zero]
      exact archivePair_of_batch hholds hsize hfiles hlen hblock hdata hindex
    · obtain rfl : start = e := Option.some.inj (he.symm.trans he')
      obtain rfl : i = 0 := by omega
      rwa [Nat.zero_mul, Nat.add_zero]
    · rw [hdb, commitBatch_metadata, deleteBatch_meta, Function.update_of_ne hkey]
    · rw [hdb, commitBatch_gaps, deleteBatch_gaps]

/-! ### The whole call -/

/-- Why the loop stops: there is no cursor, the hot tier is small enough, or the batch at the cursor
lacks a block and is recorded as skipped. -/
def CycleStops (cfg : Config) (db : Db) : Prop :=
  ∀ e ∈ db.metadata .earliestHot,
    (db.metadata .latestPersisted).getD 0 - e + 1 ≤ cfg.hotStorageBlockCount ∨
    (∃ i < cfg.archiveBatchSize, db.hotBlocks.get (e + i) = none) ∧ isBatchSkipped e db = true

lemma batchCompleteFrom_eq_false {db : Db} {start remaining i : ℕ}
    (h : batchCompleteFrom db start remaining i = some false) :
    ∃ j, i ≤ j ∧ j < i + remaining ∧ start + j ≤ u64Max ∧
      db.hotBlocks.get (start + j) = none := by
  induction remaining generalizing i with
  | zero => cases h
  | succ remaining ih =>
    simp only [batchCompleteFrom, Option.bind_eq_bind, Option.bind_eq_some_iff] at h
    obtain ⟨n, hn, h⟩ := h
    obtain ⟨rfl, hle⟩ := checkedAdd_eq_some.mp hn
    split at h
    · next hnone => exact ⟨i, le_rfl, by omega, hle, Option.isNone_iff_eq_none.mp hnone⟩
    · obtain ⟨j, h1, h2, h3⟩ := ih h
      exact ⟨j, by omega, by omega, h3⟩

/-- What one pass of the loop can be. -/
inductive CyclePass (cfg : Config) (codec : Codec) (fuel : ℕ) (outcomes : List Outcome)
    (node : Node) (result : Node × CycleEnd) : Prop
  | failed (left : List Bytes) (fails : outcomes.headD .ok = .error left)
    (eq : result = (node, .err))
  | stopped (action : loopAction cfg codec node.store.db = .stop) (ending : CycleEnd)
    (ends : ending ≠ .unfinished) (stops : ending = .ok → CycleStops cfg node.store.db)
    (eq : result = (node, ending))
  | skipped (start : ℕ) (earliest : node.store.db.metadata .earliestHot = some start)
    (incomplete : isBatchComplete node.store.db start cfg.archiveBatchSize = some false)
    (action : loopAction cfg codec node.store.db = .skip (addSkippedBatch start))
    (eq : result = ({ node with
      store := ⟨commitBatch (addSkippedBatch start) node.store.db, node.store.log⟩ }, .ok))
  | archived (start : ℕ) (earliest : node.store.db.metadata .earliestHot = some start)
    (due : cfg.hotStorageBlockCount <
      (node.store.db.metadata .latestPersisted).getD 0 - start + 1)
    (complete : isBatchComplete node.store.db start cfg.archiveBatchSize = some true)
    (effects : List Effect)
    (batch : archiveBatch codec node.store.db start cfg.archiveBatchSize = some effects)
    (action : loopAction cfg codec node.store.db = .archive effects) (done : Node)
    (finished : done = Node.finish cfg codec effects.length outcomes.tail
      { node with archiver := .working effects })
    (eq : result = match done.archiver with
      | .working [] => Node.cycleFrom cfg codec fuel (outcomes.tail.drop effects.length) done
      | _ => (done, .err))

lemma cycleFrom_pass (cfg : Config) (codec : Codec) (fuel : ℕ) (outcomes : List Outcome)
    (node : Node) :
    CyclePass cfg codec fuel outcomes node (node.cycleFrom cfg codec (fuel + 1) outcomes) := by
  rcases hhead : outcomes.headD .ok with _ | left
  case error => exact .failed left hhead (by simp only [Node.cycleFrom, hhead])
  rcases he : node.store.db.metadata .earliestHot with _ | start
  · refine .stopped (by simp only [loopAction, he]) .ok (by decide) (fun _ e he' => ?_)
      (by simp only [Node.cycleFrom, hhead, he])
    rw [he] at he'
    cases he'
  rcases htotal : checkedAdd ((node.store.db.metadata .latestPersisted).getD 0 - start) 1 with
    _ | total
  · exact .stopped (by simp only [loopAction, he, htotal]) .err (by decide) (fun h => by cases h)
      (by simp only [Node.cycleFrom, hhead, he, htotal])
  obtain ⟨rfl, -⟩ := checkedAdd_eq_some.mp htotal
  by_cases hsmall : (node.store.db.metadata .latestPersisted).getD 0 - start + 1 ≤
    cfg.hotStorageBlockCount
  · refine .stopped (by simp only [loopAction, he, htotal, if_pos hsmall]) .ok (by decide)
      (fun _ e he' => ?_) (by simp only [Node.cycleFrom, hhead, he, htotal, if_pos hsmall])
    obtain rfl : start = e := Option.some.inj (he.symm.trans he')
    exact Or.inl hsmall
  rcases hcomplete : isBatchComplete node.store.db start cfg.archiveBatchSize with _ | _ | _
  · exact .stopped (by simp only [loopAction, he, htotal, if_neg hsmall, hcomplete]) .err
      (by decide) (fun h => by cases h)
      (by simp only [Node.cycleFrom, hhead, he, htotal, if_neg hsmall, hcomplete])
  · exact .skipped start he hcomplete
      (by simp only [loopAction, he, htotal, if_neg hsmall, hcomplete])
      (by simp only [Node.cycleFrom, hhead, he, htotal, if_neg hsmall, hcomplete])
  rcases hbatch : archiveBatch codec node.store.db start cfg.archiveBatchSize with _ | effects
  · exact .stopped (by simp only [loopAction, he, htotal, if_neg hsmall, hcomplete, hbatch]) .err
      (by decide) (fun h => by cases h)
      (by simp only [Node.cycleFrom, hhead, he, htotal, if_neg hsmall, hcomplete, hbatch])
  · exact .archived start he (by omega) hcomplete effects hbatch
      (by simp only [loopAction, he, htotal, if_neg hsmall, hcomplete, hbatch]) _ rfl
      (by simp only [Node.cycleFrom, hhead, he, htotal, if_neg hsmall, hcomplete, hbatch])

/-- **What the passes of a call come to.** -/
lemma cycleFrom_effect (hsize : 1 ≤ cfg.archiveBatchSize) (fuel : ℕ) (outcomes : List Outcome)
    (hholds : HotHolds codec blocks node.store.db) :
    ∃ k, CycleEffect cfg codec blocks k node (node.cycleFrom cfg codec fuel outcomes).1 ∧
      DiskBeyond cfg k node (node.cycleFrom cfg codec fuel outcomes).1 ∧
      ((node.cycleFrom cfg codec fuel outcomes).2 = .ok →
        CycleStops cfg (node.cycleFrom cfg codec fuel outcomes).1.store.db) := by
  induction fuel generalizing outcomes node with
  | zero => exact ⟨0, .zero rfl rfl rfl rfl, fun _ _ => rfl, fun h => by cases h⟩
  | succ fuel ih =>
    have hpass := cycleFrom_pass cfg codec fuel outcomes node
    generalize node.cycleFrom cfg codec (fuel + 1) outcomes = result at hpass ⊢
    cases hpass with
    | failed left _ eq =>
      subst eq
      exact ⟨0, .zero rfl rfl rfl rfl, fun _ _ => rfl, fun h => by cases h⟩
    | stopped _ ending _ stops eq =>
      subst eq
      exact ⟨0, .zero rfl rfl rfl rfl, fun _ _ => rfl, stops⟩
    | skipped start earliest incomplete _ eq =>
      subst eq
      refine ⟨0, .zero rfl rfl rfl rfl, fun _ _ => rfl, fun _ e he => ?_⟩
      obtain rfl : start = e := Option.some.inj (earliest.symm.trans he)
      obtain ⟨i, -, hi, -, hnone⟩ := batchCompleteFrom_eq_false incomplete
      refine Or.inr ⟨⟨i, by omega, hnone⟩, ?_⟩
      change ((node.store.db.skippedBatches.put start ()).get start).isSome = true
      rw [SortedMap.get_put_self]
      rfl
    | archived start earliest due complete effects batch _ done finished eq =>
      obtain ⟨hdisk, ⟨hidle, hstore⟩ | ⟨hfull, -, heffect⟩⟩ :=
        archive_pass hsize hholds earliest due complete batch finished
      · rw [hidle] at eq
        subst eq
        refine ⟨0, ?_, hdisk, fun h => by cases h⟩
        exact .zero (by rw [hstore]) (by rw [hstore]) (by rw [hstore]) (by rw [hstore])
      · rw [hfull] at eq
        subst eq
        obtain ⟨k, hrest, hbeyond, hstops⟩ := ih (outcomes.tail.drop effects.length)
          (heffect.holds hholds)
        have he' := heffect.earliest
        rw [earliest, Option.map_some, Nat.one_mul] at he'
        exact ⟨k + 1, heffect.step hsize earliest hrest hbeyond,
          hdisk.step earliest he' hbeyond, hstops⟩

/-! ### The call among the steps of the service -/

lemma finish_run (cfg : Config) (codec : Codec) (steps : ℕ) (outcomes : List Outcome)
    (node : Node) : ∃ made : List Outcome, run (Node.operate cfg codec) node
      (made.map Operation.archive) = some (node.finish cfg codec steps outcomes) := by
  induction steps generalizing node outcomes with
  | zero => exact ⟨[], rfl⟩
  | succ steps ih =>
    unfold Node.finish
    split
    · obtain ⟨made, hmade⟩ := ih outcomes.tail (node.attempt cfg codec (outcomes.headD .ok))
      exact ⟨outcomes.headD .ok :: made, hmade⟩
    · exact ⟨[], rfl⟩

/-- The passes of a call are steps of the archiver, with nothing in between. -/
lemma cycleFrom_run (cfg : Config) (codec : Codec) (fuel : ℕ) (outcomes : List Outcome)
    (node : Node) (hends : (node.cycleFrom cfg codec fuel outcomes).2 ≠ .unfinished) :
    ∃ made : List Outcome, run (Node.operate cfg codec) { node with archiver := .looping }
      (made.map Operation.archive) =
        some { (node.cycleFrom cfg codec fuel outcomes).1 with archiver := .idle } := by
  induction fuel generalizing outcomes node with
  | zero => exact absurd rfl hends
  | succ fuel ih =>
    have hpass := cycleFrom_pass cfg codec fuel outcomes node
    generalize node.cycleFrom cfg codec (fuel + 1) outcomes = result at hpass hends ⊢
    cases hpass with
    | failed left _ eq =>
      subst eq
      exact ⟨[.error left], rfl⟩
    | stopped action ending _ _ eq =>
      subst eq
      refine ⟨[.ok], ?_⟩
      simp [run, Node.operate, Node.attempt, Node.archive, action]
    | skipped start _ _ action eq =>
      subst eq
      refine ⟨[.ok], ?_⟩
      simp [run, Node.operate, Node.attempt, Node.archive, action]
    | archived start _ _ _ effects _ action done finished eq =>
      -- the top of the loop, the steps of the archival, and the top of the loop again
      have hchoose : Node.operate cfg codec { node with archiver := .looping } (.archive .ok) =
          some { node with archiver := .working effects } := by
        simp [Node.operate, Node.attempt, Node.archive, action]
      obtain ⟨made, hmade⟩ := finish_run cfg codec effects.length outcomes.tail
        { node with archiver := .working effects }
      rw [← finished] at hmade
      rcases finish_ends cfg codec outcomes.tail
        (rfl : Node.archiver { node with archiver := .working effects } = .working effects) with
        hidle | ⟨hfull, -⟩
      · rw [← finished] at hidle
        rw [hidle] at eq
        subst eq
        refine ⟨.ok :: made, ?_⟩
        have hrest : done = { done with archiver := .idle } := by rw [← hidle]
        rw [List.map_cons, run_cons hchoose, hmade]
        exact congrArg some hrest
      · rw [← finished] at hfull
        rw [hfull] at eq
        subst eq
        obtain ⟨rest, hrest⟩ := ih _ done hends
        have hagain : Node.operate cfg codec done (.archive .ok) =
            some { done with archiver := .looping } := by
          simp [Node.operate, Node.attempt, Node.archive, hfull]
        refine ⟨.ok :: (made ++ .ok :: rest), ?_⟩
        rw [List.map_cons, run_cons hchoose, List.map_append, run_append hmade, List.map_cons,
          run_cons hagain, hrest]

/-- A call that returns is a run of the archiver, from when it is triggered to when it is at rest
again. -/
theorem runArchivalCycle_run (hidle : node.archiver = .idle)
    (hends : (node.runArchivalCycle cfg codec fuel outcomes).2 ≠ .unfinished) :
    ∃ made : List Outcome, run (Node.operate cfg codec) node
      (.trigger :: made.map Operation.archive) =
        some (node.runArchivalCycle cfg codec fuel outcomes).1 := by
  obtain ⟨made, hmade⟩ := cycleFrom_run cfg codec fuel outcomes node hends
  refine ⟨made, ?_⟩
  have htrigger : node.operate cfg codec .trigger = some { node with archiver := .looping } := by
    simp [Node.operate, Node.step, hidle]
  rw [run_cons htrigger, hmade]
  rfl

/-- Each pass that goes on moves the cursor, so a call comes to an end. -/
theorem runArchivalCycle_returns (hsize : 1 ≤ cfg.archiveBatchSize)
    (hproper : node.store.db.Proper codec) (hpos : 0 < fuel)
    (hfuel : ∀ e ∈ node.store.db.metadata .earliestHot, u64Max < e + fuel) :
    (node.runArchivalCycle cfg codec fuel outcomes).2 ≠ .unfinished := by
  obtain ⟨blocks, hholds⟩ := hproper.holds
  change (node.cycleFrom cfg codec fuel outcomes).2 ≠ .unfinished
  clear hproper
  induction fuel generalizing outcomes node with
  | zero => omega
  | succ fuel ih =>
    have hpass := cycleFrom_pass cfg codec fuel outcomes node
    generalize node.cycleFrom cfg codec (fuel + 1) outcomes = result at hpass ⊢
    cases hpass with
    | failed left _ eq =>
      subst eq
      simp
    | stopped _ ending ends _ eq =>
      subst eq
      exact ends
    | skipped start _ _ _ eq =>
      subst eq
      simp
    | archived start earliest due complete effects batch _ done finished eq =>
      obtain ⟨-, ⟨hidle, -⟩ | ⟨hfull, hle, heffect⟩⟩ :=
        archive_pass hsize hholds earliest due complete batch finished
      · rw [hidle] at eq
        subst eq
        simp
      · rw [hfull] at eq
        subst eq
        have hroom := hfuel start earliest
        refine ih (by omega) (fun e he => ?_) (heffect.holds hholds)
        rw [heffect.earliest, earliest, Option.map_some, Nat.one_mul] at he
        obtain rfl := Option.some.inj he
        omega

/-! ### Calls in runs of the service -/

/-- **What a call of `run_archival_cycle` that returns `Ok` has done**, from whatever state the
service has reached. -/
theorem archival_cycle_effect (codec : Codec) (hsize : 1 ≤ cfg.archiveBatchSize)
    {ops : List Operation} (hrun : run (Node.operate cfg codec) (Node.init cfg) ops = some node)
    (hok : node.runArchivalCycle cfg codec fuel outcomes = (node', .ok)) :
    (∃ k blocks, CycleEffect cfg codec blocks k node node') ∧ CycleStops cfg node'.store.db ∧
      SkippedAtCursor node.store.db ∧ SkippedAtCursor node'.store.db := by
  obtain ⟨hnode, hends⟩ := Prod.mk.inj hok
  have hanchored := run_anchored hrun
  have hproper : node.store.db.Proper codec := (run_proper hrun).hot
  obtain ⟨blocks, hholds⟩ := hproper.holds
  obtain ⟨k, heffect, -, hstops⟩ := cycleFrom_effect hsize fuel outcomes hholds
  obtain ⟨made, hmade⟩ := cycleFrom_run cfg codec fuel outcomes node (by rw [hends]; decide)
  have hlooping : Node.Anchored cfg { node with archiver := .looping } :=
    ⟨.of_not_working (by simp), hanchored.skipped, hanchored.empty⟩
  have hafter := run_inv_of_step (fun h hstep => operate_anchored h hstep) hlooping hmade
  subst hnode
  exact ⟨⟨k, blocks, heffect.archiver .idle⟩, hstops hends, hanchored.skipped, hafter.skipped⟩

/-- A node that has written three blocks and archives them by two. -/
def threeBlocks : List Operation :=
  [.write (headerBlock 0 []), .write (headerBlock 1 []), .write (headerBlock 2 [])]

theorem archival_cycle_effect_pair : ∃ node node', run (Node.operate pairConfig plainCodec)
    (Node.init pairConfig) threeBlocks = some node ∧
    node.runArchivalCycle pairConfig plainCodec 3 [] = (node', .ok) ∧
    node'.store.db.metadata .earliestHot = some 2 ∧
    (∃ k blocks, CycleEffect pairConfig plainCodec blocks k node node') ∧
    CycleStops pairConfig node'.store.db ∧ SkippedAtCursor node.store.db ∧
    SkippedAtCursor node'.store.db := by
  have hsome : ∃ node ∈ run (Node.operate pairConfig plainCodec) (Node.init pairConfig) threeBlocks,
      (node.runArchivalCycle pairConfig plainCodec 3 []).2 = .ok ∧
      (node.runArchivalCycle pairConfig plainCodec 3 []).1.store.db.metadata .earliestHot =
        some 2 := by
    decide +kernel
  obtain ⟨node, hrun, hok, hearliest⟩ := hsome
  have hcycle : node.runArchivalCycle pairConfig plainCodec 3 [] =
      ((node.runArchivalCycle pairConfig plainCodec 3 []).1, .ok) := Prod.ext rfl hok
  exact ⟨node, _, hrun, hcycle, hearliest,
    archival_cycle_effect plainCodec (by decide) hrun hcycle⟩

/-! ### Whether a call returns -/

/-- The hot tier counts as too large, by a count that is a `u64`. -/
def Oversized (cfg : Config) (db : Db) : Prop :=
  ∃ e ∈ db.metadata .earliestHot,
    cfg.hotStorageBlockCount < (db.metadata .latestPersisted).getD 0 - e + 1 ∧
    (db.metadata .latestPersisted).getD 0 - e + 1 ≤ u64Max

/-- A pass at a hot tier that is small enough returns. -/
lemma cycleFrom_of_not_oversized (h : ¬ Oversized cfg node.store.db) :
    (node.cycleFrom cfg codec 1 []).2 ≠ .unfinished := by
  rcases he : node.store.db.metadata .earliestHot with _ | e
  · simp [Node.cycleFrom, he]
  rcases htotal : checkedAdd ((node.store.db.metadata .latestPersisted).getD 0 - e) 1 with
    _ | total
  · simp [Node.cycleFrom, he, htotal]
  · obtain ⟨rfl, hle⟩ := checkedAdd_eq_some.mp htotal
    have hsmall : (node.store.db.metadata .latestPersisted).getD 0 - e + 1 ≤
        cfg.hotStorageBlockCount := by
      by_contra hlarge
      exact h ⟨e, he, by omega, hle⟩
    simp [Node.cycleFrom, he, htotal, hsmall]

/-- With batches of no blocks every pass finds its batch complete, archives nothing and goes on
from where it was. -/
lemma cycleFrom_unfinished (hzero : cfg.archiveBatchSize = 0)
    (h : Oversized cfg node.store.db) (fuel : ℕ) :
    (node.cycleFrom cfg codec fuel []).2 = .unfinished := by
  induction fuel generalizing node with
  | zero => rfl
  | succ fuel ih =>
    obtain ⟨e, hmem, hdue, hle⟩ := h
    have he : node.store.db.metadata .earliestHot = some e := hmem
    have htotal : checkedAdd ((node.store.db.metadata .latestPersisted).getD 0 - e) 1 =
        some ((node.store.db.metadata .latestPersisted).getD 0 - e + 1) :=
      checkedAdd_eq_some.mpr ⟨rfl, hle⟩
    have hcomplete : isBatchComplete node.store.db e cfg.archiveBatchSize = some true := by
      rw [hzero]
      rfl
    have hbatch : archiveBatch codec node.store.db e cfg.archiveBatchSize = some [] := by
      rw [hzero]
      rfl
    have hpass : node.cycleFrom cfg codec (fuel + 1) [] =
        Node.cycleFrom cfg codec fuel [] { node with archiver := .working [] } := by
      conv_lhs => unfold Node.cycleFrom
      simp only [List.headD_nil, he, htotal, if_neg (Nat.not_le.mpr hdue), hcomplete, hbatch]
      rfl
    rw [hpass]
    exact ih ⟨e, hmem, hdue, hle⟩

/-- **When the archival loop ends.** From whatever state the service has reached, a call in which
nothing fails returns after finitely many passes, unless the batch size is zero and the hot tier
counts as too large: then the loop goes round for ever. -/
theorem runArchivalCycle_terminates_iff {ops : List Operation}
    (hrun : run (Node.operate cfg codec) (Node.init cfg) ops = some node) :
    (∃ fuel, (node.runArchivalCycle cfg codec fuel []).2 ≠ .unfinished) ↔
      1 ≤ cfg.archiveBatchSize ∨ ¬ Oversized cfg node.store.db := by
  constructor
  · rintro ⟨fuel, hends⟩
    by_contra hneither
    rw [not_or, not_not] at hneither
    exact hends (cycleFrom_unfinished (by omega) hneither.2 fuel)
  · rintro (hsize | hsmall)
    · have hproper : node.store.db.Proper codec := (run_proper hrun).hot
      exact ⟨u64Max + 1, runArchivalCycle_returns hsize hproper (by omega) fun e _ => by omega⟩
    · exact ⟨1, cycleFrom_of_not_oversized hsmall⟩

theorem runArchivalCycle_terminates_iff_pair : ∃ node,
    run (Node.operate pairConfig plainCodec) (Node.init pairConfig) threeBlocks = some node ∧
      ∃ fuel, (node.runArchivalCycle pairConfig plainCodec fuel []).2 ≠ .unfinished := by
  have hsome : (run (Node.operate pairConfig plainCodec) (Node.init pairConfig)
      threeBlocks).isSome = true := by decide +kernel
  obtain ⟨node, hrun⟩ := Option.isSome_iff_exists.mp hsome
  exact ⟨node, hrun, (runArchivalCycle_terminates_iff hrun).mpr (Or.inl (by decide))⟩

/-- Batches of no blocks, and no blocks to stay in the hot tier. -/
def emptyBatchConfig : Config := ⟨0, 0, 0, Nat.zero_le _, Nat.zero_le _, Nat.zero_le _⟩

/-- One block, and the archiver never returns. -/
theorem runArchivalCycle_not_terminates :
    ¬ ∀ (cfg : Config) (codec : Codec) (ops : List Operation) (node : Node),
      run (Node.operate cfg codec) (Node.init cfg) ops = some node →
      ∃ fuel, (node.runArchivalCycle cfg codec fuel []).2 ≠ .unfinished := by
  intro h
  have hsome : ∃ node ∈ run (Node.operate emptyBatchConfig plainCodec)
      (Node.init emptyBatchConfig) [.write (headerBlock 0 [])],
      node.store.db.metadata .earliestHot = some 0 ∧
      (node.store.db.metadata .latestPersisted).getD 0 = 0 := by decide +kernel
  obtain ⟨node, hrun, hearliest, hlatest⟩ := hsome
  obtain ⟨fuel, hends⟩ := h _ _ _ node hrun
  refine hends (cycleFrom_unfinished rfl ⟨0, hearliest, ?_⟩ fuel)
  rw [hlatest]
  decide

end RockNode
