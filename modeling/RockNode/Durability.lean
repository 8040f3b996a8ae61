import RockNode.Chunks

/-!
Every step of the node, and every crash between two of them, keeps the invariant of the chunks.
-/

namespace RockNode

variable {cfg : Config} {codec : Codec} {node node' : Node}

/-! ### What a change leaves alone -/

lemma Pending.congr {start : ℕ} (h : Pending cfg node start)
    (hstore : node'.store.db = node.store.db) : Pending cfg node' start := by
  obtain ⟨he, hh⟩ := h
  exact ⟨by rwa [hstore], by rwa [hstore]⟩

/-- A settled chunk stays settled while its files, its mapping and the store stay. -/
lemma Settled.congr {start : ℕ} (h : Settled cfg codec node start)
    (hstore : node'.store = node.store)
    (hdisk : ∀ name, Owned start (cfg.lastOf start) name → node'.disk.get name = node.disk.get name)
    (hindices : node'.indices.get start = node.indices.get start) :
    Settled cfg codec node' start := by
  obtain ⟨hpassed, data, index, hdata, hindex, hload, hserves⟩ := h
  refine ⟨by rwa [hstore], data, index, ?_, ?_, ?_, by rwa [hstore]⟩
  · rw [hdisk _ (owned_data _ _), hdata]
  · rw [hdisk _ (owned_index _ _), hindex]
  · rw [hindices, hload]

/-- The archiver has passed a settled chunk, so it is not the pending one. -/
lemma Settled.ne_pending {start e : ℕ} (hsize : 1 ≤ cfg.archiveBatchSize)
    (hs : Settled cfg codec node start) (hp : node.store.db.metadata .earliestHot = some e) :
    start ≠ e := by
  obtain ⟨k, hk⟩ := hs.passed
  rw [hp] at hk
  have := Nat.mul_le_mul_right cfg.archiveBatchSize (show 1 ≤ k + 1 by omega)
  have := Option.some.inj hk
  omega

/-- A change of the store that keeps the hot tier, the log and the archiver's cursor. -/
lemma Durable.of_store (hd : Durable cfg codec node) {s : Store} {a : Archiver}
    (hlog : s.log = node.store.log) (hhot : s.db.hotBlocks = node.store.db.hotBlocks)
    (hearliest : s.db.metadata .earliestHot = node.store.db.metadata .earliestHot)
    (ha : ∀ {effects}, a = .working effects → effects = []) :
    Durable cfg codec { node with store := s, archiver := a } := by
  have hlast : ∀ n, s.last n = node.store.last n := fun n => by rw [Store.last, hlog]; rfl
  have hsettled : ∀ {start}, Settled cfg codec node start →
      Settled cfg codec { node with store := s, archiver := a } start := by
    rintro start ⟨hpassed, data, index, h1, h2, h3, hserves⟩
    refine ⟨by rwa [hearliest], data, index, h1, h2, h3, ?_⟩
    intro n hn1 hn2
    obtain ⟨block, r, hb, hr, hread⟩ := hserves n hn1 hn2
    refine ⟨block, r, by rw [hlast, hb], hr, fun hnone => hread ?_⟩
    rwa [hhot] at hnone
  have hchunk : ∀ {start}, Pending cfg node start ∨ Settled cfg codec node start →
      Pending cfg { node with store := s, archiver := a } start ∨
        Settled cfg codec { node with store := s, archiver := a } start := by
    rintro start (⟨he, hh⟩ | h)
    · exact Or.inl ⟨by rwa [hearliest], by rwa [hhot]⟩
    · exact Or.inr (hsettled h)
  refine ⟨⟨?_, ?_⟩, ?_, ?_, ?_, fun h => Or.inl (ha h)⟩
  · intro n block h
    rw [hlast] at h
    exact hd.faithful.number h
  · intro n value h
    rw [hhot] at h
    rw [hlast]
    exact hd.faithful.hot h
  · intro n block h hnone
    rw [hlast] at h
    rw [hhot] at hnone
    obtain ⟨start, hs, hn⟩ := hd.kept h hnone
    exact ⟨start, hsettled hs, hn⟩
  · intro name hname hidx
    obtain ⟨start, h1, h2⟩ := hd.files hname hidx
    exact ⟨start, h1, hchunk h2⟩
  · intro start m hm
    obtain ⟨h1, h2, h3⟩ := hd.loaded hm
    exact ⟨h1, h2, hchunk h3⟩

/-- The archiver's place alone says nothing about the blocks. -/
lemma Durable.of_archiver (hd : Durable cfg codec node) {a : Archiver}
    (ha : ∀ {effects}, a = .working effects → effects = []) :
    Durable cfg codec { node with archiver := a } := hd.of_store rfl rfl rfl ha

/-! ### The effects of an archival -/

lemma dataFilename_ne_indexFilename (first last : ℕ) :
    dataFilename first last ≠ indexFilename first last :=
  (indexFilename_ne_of_not_index (isIndexName_data first last)).symm

lemma tempFilename_injective {name name' : FileName} (h : tempFilename name = tempFilename name') :
    name = name' := List.append_cancel_right h

lemma dataFilename_ne_temp_index (first last : ℕ) :
    dataFilename first last ≠ tempFilename (indexFilename first last) :=
  dataFilename_ne_temp _ _ _ (by simp [indexFilename, filenameBase_ne_nil])

lemma temp_data_ne_temp_index (first last : ℕ) :
    tempFilename (dataFilename first last) ≠ tempFilename (indexFilename first last) :=
  fun h => dataFilename_ne_indexFilename _ _ (tempFilename_injective h)

lemma ne_of_not_owned {start last : ℕ} {name name' : FileName} (h : ¬ Owned start last name)
    (h' : Owned start last name') : name ≠ name' := by
  rintro rfl
  exact h h'

lemma ne_of_isIndexName {name name' : FileName} (h : isIndexName name = true)
    (h' : isIndexName name' = false) : name ≠ name' := by
  rintro rfl
  rw [h] at h'
  cases h'

lemma get_rename {disk : Disk} {source target name : FileName} {contents : Bytes}
    (h1 : name ≠ source) (h2 : name ≠ target) :
    ((disk.erase source).put target contents).get name = disk.get name := by
  rw [SortedMap.get_put_of_ne _ _ h2, SortedMap.get_erase, if_neg h1]

/-- The numbers come from the name, the data file from the extension. -/
lemma loadIndexFile_index {disk : Disk} {start last : ℕ} {indices indices' : Indices}
    (h : loadIndexFile disk (indexFilename start last) indices = some indices') :
    ∃ index, disk.get (indexFilename start last) = some index ∧
      indices' = indices.put start ⟨index, start, last, dataFilename start last⟩ := by
  simp only [loadIndexFile, parseBlockRange_eq, withExtension_indexFilename,
    Option.bind_eq_bind, Option.bind_eq_some_iff] at h
  obtain ⟨range, hrange, data, -, index, hindex, h⟩ := h
  split at hrange
  · cases hrange
    split at h
    · cases h
    · exact ⟨index, hindex, (Option.some.inj h).symm⟩
  · cases hrange

/-- A file that is loaded has a name that runs forwards. -/
lemma loadFaults_of_load {disk : Disk} {name : FileName} {indices indices' : Indices}
    (h : loadIndexFile disk name indices = some indices') : loadFaults disk name = false := by
  simp only [loadIndexFile, Option.bind_eq_bind, Option.bind_eq_some_iff] at h
  obtain ⟨range, hrange, data, hdata, index, hindex, h⟩ := h
  split at h
  · cases h
  · next hle =>
    simp only [loadFaults, hrange, hdata, hindex]
    exact decide_eq_false hle

lemma perform_load {node : Node} {name : FileName} {indices : Indices}
    (h : loadIndexFile node.disk name node.indices = some indices) (effects : List Effect) :
    node.perform effects (.loadIndex name) =
      { node with indices := indices, archiver := .working effects } := by
  simp only [Node.perform, loadFaults_of_load h, h, Bool.false_eq_true, if_false,
    Option.getD_some]

/-- What is done to the files and the index of the chunk from `a` to `b`. -/
inductive OfChunk (a b : ℕ) : Effect → Prop
  | write {name : FileName} (h : Owned a b name) (contents : Bytes) :
    OfChunk a b (.writeFile (tempFilename name) contents)
  | moveData : OfChunk a b (.rename (tempFilename (dataFilename a b)) (dataFilename a b))
  | moveIndex : OfChunk a b (.rename (tempFilename (indexFilename a b)) (indexFilename a b))
  | load : OfChunk a b (.loadIndex (indexFilename a b))

/-- A step on the files and the mapping of the chunk from `a` to `b`. -/
structure Touches (a b : ℕ) (node node' : Node) : Prop where
  store : node'.store = node.store
  disk : ∀ name, ¬ Owned a b name → node'.disk.get name = node.disk.get name
  index : ∀ name, isIndexName name = true → name ≠ indexFilename a b →
    node'.disk.get name = node.disk.get name
  indices : ∀ k, k ≠ a → node'.indices.get k = node.indices.get k
  own : node'.indices.get a = node.indices.get a ∨
    ∃ m, node'.indices.get a = some m ∧ m.startBlock = a ∧ m.endBlock = b

lemma Touches.archiver (a b : ℕ) (node : Node) (archiver : Archiver) :
    Touches a b node { node with archiver := archiver } :=
  ⟨rfl, fun _ _ => rfl, fun _ _ _ => rfl, fun _ _ => rfl, Or.inl rfl⟩

lemma touches_rename {a b : ℕ} {name : FileName} (hname : Owned a b name)
    (hidx : isIndexName name = true → name = indexFilename a b) (node : Node)
    (effects : List Effect) :
    Touches a b node (node.perform effects (.rename (tempFilename name) name)) := by
  simp only [Node.perform]
  split
  · exact .archiver a b node _
  · refine ⟨rfl, fun other hother => ?_, fun other hother hne => ?_, fun _ _ => rfl, Or.inl rfl⟩
    · exact get_rename (ne_of_not_owned hother hname.temp) (ne_of_not_owned hother hname)
    · refine get_rename (ne_of_isIndexName hother (isIndexName_temp hname)) ?_
      rintro rfl
      exact hne (hidx hother)

lemma OfChunk.touches {a b : ℕ} {effect : Effect} (h : OfChunk a b effect) (node : Node)
    (effects : List Effect) : Touches a b node (node.perform effects effect) := by
  cases h with
  | write hname contents =>
    refine ⟨rfl, fun other hother => ?_, fun other hother _ => ?_, fun _ _ => rfl, Or.inl rfl⟩
    · exact SortedMap.get_put_of_ne _ _ (ne_of_not_owned hother hname.temp)
    · exact SortedMap.get_put_of_ne _ _ (ne_of_isIndexName hother (isIndexName_temp hname))
  | moveData =>
    refine touches_rename (owned_data a b) (fun hidx => ?_) node effects
    rw [isIndexName_data] at hidx
    cases hidx
  | moveIndex => exact touches_rename (owned_index a b) (fun _ => rfl) node effects
  | load =>
    rcases hload : loadIndexFile node.disk (indexFilename a b) node.indices with _ | indices'
    · simp only [Node.perform, hload]
      split
      · exact .archiver a b node _
      · exact .archiver a b node _
    · rw [perform_load hload]
      obtain ⟨index, -, rfl⟩ := loadIndexFile_index hload
      refine ⟨rfl, fun _ _ => rfl, fun _ _ _ => rfl, fun k hk => ?_, Or.inr ?_⟩
      · exact SortedMap.get_put_of_ne _ _ hk
      · exact ⟨_, SortedMap.get_put_self _ _ _, rfl, rfl⟩

/-- A step of the archiver on the files and the mapping of the pending chunk. -/
lemma Durable.of_pending_change (hd : Durable cfg codec node) (hsize : 1 ≤ cfg.archiveBatchSize)
    {e : ℕ} (hp : Pending cfg node e) (ht : Touches e (cfg.lastOf e) node node')
    (hwork : ∀ {effects}, node'.archiver = .working effects → effects = [] ∨
      ∃ start data index, Pending cfg node' start ∧
        Serves cfg codec node'.store (fun _ => True) start data index ∧
        AtStage node'.disk node'.indices start (cfg.lastOf start) data index
          (finalEffect start cfg.archiveBatchSize) effects) : Durable cfg codec node' := by
  have hp' : Pending cfg node' e := hp.congr (by rw [ht.store])
  have hsettled : ∀ {start}, Settled cfg codec node start → Settled cfg codec node' start := by
    intro start hs
    have hne := hs.ne_pending hsize hp.earliest
    refine hs.congr ht.store ?_ (ht.indices start hne)
    intro name hname
    refine ht.disk name fun howned => ?_
    exact Owned.ne hname howned hne rfl
  have hchunk : ∀ {start}, Pending cfg node start ∨ Settled cfg codec node start →
      Pending cfg node' start ∨ Settled cfg codec node' start := fun h =>
    h.imp (fun h => h.congr (by rw [ht.store])) hsettled
  refine ⟨by rw [ht.store]; exact hd.faithful, ?_, ?_, ?_, hwork⟩
  · intro n block hlast hhot
    rw [ht.store] at hlast hhot
    obtain ⟨start, hs, hn⟩ := hd.kept hlast hhot
    exact ⟨start, hsettled hs, hn⟩
  · intro name hname hidx
    by_cases hne : name = indexFilename e (cfg.lastOf e)
    · exact ⟨e, hne, Or.inl hp'⟩
    · rw [ht.index name hidx hne] at hname
      obtain ⟨start, h1, h2⟩ := hd.files hname hidx
      exact ⟨start, h1, hchunk h2⟩
  · intro start m hm
    by_cases hne : start = e
    · subst hne
      rcases ht.own with hsame | ⟨m', hm', h1, h2⟩
      · obtain ⟨h1, h2, -⟩ := hd.loaded (hsame.symm.trans hm)
        exact ⟨h1, h2, Or.inl hp'⟩
      · obtain rfl : m' = m := Option.some.inj (hm'.symm.trans hm)
        exact ⟨h1, h2, Or.inl hp'⟩
    · rw [ht.indices start hne] at hm
      obtain ⟨h1, h2, h3⟩ := hd.loaded hm
      exact ⟨h1, h2, hchunk h3⟩

/-- One step on: the last one is the commit, with everything in place; every other one leaves
the store alone and leads to the next stage. -/
lemma AtStage.next {start last : ℕ} {data index : Bytes} {final effect : Effect}
    {effects : List Effect}
    (h : AtStage node.disk node.indices start last data index final (effect :: effects))
    (hload : ∀ name, effect = .loadIndex name →
      loadIndexFile node.disk name node.indices ≠ none) :
    (effect = final ∧ effects = [] ∧ node.disk.get (dataFilename start last) = some data ∧
      node.disk.get (indexFilename start last) = some index ∧
      node.indices.get start = some ⟨index, start, last, dataFilename start last⟩) ∨
    (OfChunk start last effect ∧ (node.perform effects effect).store = node.store ∧
      (node.perform effects effect).archiver = .working effects ∧
      AtStage (node.perform effects effect).disk (node.perform effects effect).indices start last
        data index final effects) := by
  generalize hl : effect :: effects = todo at h
  have hdt := dataFilename_ne_temp_index start last
  have htt := temp_data_ne_temp_index start last
  cases h with
  | read =>
    cases hl
    exact Or.inr ⟨.write (owned_data start last) _, rfl, rfl,
      .wroteData (SortedMap.get_put_self _ _ _)⟩
  | wroteData h =>
    cases hl
    refine Or.inr ⟨.write (owned_index start last) _, rfl, rfl, .wroteIndex ?_ ?_⟩
    · simp only [Node.perform]
      rw [SortedMap.get_put_of_ne _ _ htt, h]
    · exact SortedMap.get_put_self _ _ _
  | wroteIndex h h' =>
    cases hl
    simp only [Node.perform, h]
    refine Or.inr ⟨.moveData, trivial, trivial, .movedData ?_ ?_⟩
    · exact SortedMap.get_put_self _ _ _
    · rw [get_rename htt.symm hdt.symm, h']
  | movedData h h' =>
    cases hl
    simp only [Node.perform, h']
    refine Or.inr ⟨.moveIndex, trivial, trivial, .movedIndex ?_ ?_⟩
    · rw [get_rename hdt (dataFilename_ne_indexFilename _ _), h]
    · exact SortedMap.get_put_self _ _ _
  | movedIndex h h' =>
    cases hl
    obtain ⟨indices', hindices⟩ := Option.ne_none_iff_exists'.mp (hload _ rfl)
    obtain ⟨index', hindex', rfl⟩ := loadIndexFile_index hindices
    obtain rfl : index = index' := Option.some.inj (h'.symm.trans hindex')
    rw [perform_load hindices]
    exact Or.inr ⟨.load, rfl, rfl, .loaded h h' (SortedMap.get_put_self _ _ _)⟩
  | loaded h h' h'' =>
    cases hl
    exact Or.inl ⟨rfl, rfl, h, h', h''⟩

section Commit

variable (hd : Durable cfg codec node) (hsize : 1 ≤ cfg.archiveBatchSize) {start : ℕ}
  {data index : Bytes} (hp : Pending cfg node start)
  (hserves : Serves cfg codec node.store (fun _ => True) start data index)

include hd hsize hp hserves

/-- The delete commit: the pending chunk becomes a settled one. -/
lemma commit_durable
    (hdata : node.disk.get (dataFilename start (cfg.lastOf start)) = some data)
    (hindex : node.disk.get (indexFilename start (cfg.lastOf start)) = some index)
    (hload : node.indices.get start = some ⟨index, start, cfg.lastOf start,
      dataFilename start (cfg.lastOf start)⟩) :
    Durable cfg codec (node.perform [] (.commit (deleteBatch start cfg.archiveBatchSize
      (start + cfg.archiveBatchSize)))) := by
  set new := node.perform [] (.commit (deleteBatch start cfg.archiveBatchSize
    (start + cfg.archiveBatchSize))) with hnew
  have hhot : ∀ n, new.store.db.hotBlocks.get n =
      if start ≤ n ∧ n < start + cfg.archiveBatchSize then none
      else node.store.db.hotBlocks.get n := by
    intro n
    rw [hnew]
    simp only [Node.perform, commitBatch_hotBlocks]
    exact deleteBatch_hot _ _ _ _ _
  have hearliest : new.store.db.metadata .earliestHot = some (start + cfg.archiveBatchSize) := by
    rw [hnew]
    simp only [Node.perform, commitBatch_metadata, deleteBatch_meta]
    rfl
  have hown : Settled cfg codec new start := by
    refine ⟨⟨0, by rw [hearliest]; simp⟩, data, index, hdata, hindex, hload, ?_⟩
    intro n h1 h2
    obtain ⟨block, r, hb, hr, hread⟩ := hserves n h1 h2
    exact ⟨block, r, hb, hr, fun _ => hread trivial⟩
  have hsettled : ∀ {a}, Settled cfg codec node a → Settled cfg codec new a := by
    intro a hs
    have hne := hs.ne_pending hsize hp.earliest
    obtain ⟨⟨k, hk⟩, d, i, hd', hi, hl, hsv⟩ := hs
    rw [hp.earliest] at hk
    have hk' : start = a + (k + 1) * cfg.archiveBatchSize := Option.some.inj hk
    refine ⟨⟨k + 1, by rw [hearliest, hk']; congr 1; ring⟩, d, i, hd', hi, hl, ?_⟩
    intro n h1 h2
    obtain ⟨block, r, hb, hr, hread⟩ := hsv n h1 h2
    refine ⟨block, r, hb, hr, fun hnone => hread ?_⟩
    have := Nat.mul_le_mul_right cfg.archiveBatchSize (show 1 ≤ k + 1 by omega)
    have hout := hhot n
    rw [if_neg (by omega)] at hout
    exact hout.symm.trans hnone
  have hchunk : ∀ {a}, Pending cfg node a ∨ Settled cfg codec node a → Settled cfg codec new a := by
    rintro a (h | h)
    · obtain rfl : start = a := Option.some.inj (hp.earliest.symm.trans h.earliest)
      exact hown
    · exact hsettled h
  refine ⟨⟨?_, ?_⟩, ?_, ?_, ?_, ?_⟩
  · exact hd.faithful.number
  · intro n value hv
    rw [hhot] at hv
    split at hv
    · cases hv
    · exact hd.faithful.hot hv
  · intro n block hlast hnone
    by_cases hin : start ≤ n ∧ n < start + cfg.archiveBatchSize
    · exact ⟨start, hown, hin⟩
    · rw [hhot, if_neg hin] at hnone
      obtain ⟨a, hs, hn⟩ := hd.kept hlast hnone
      exact ⟨a, hsettled hs, hn⟩
  · intro name hname hidx
    obtain ⟨a, h1, h2⟩ := hd.files hname hidx
    exact ⟨a, h1, Or.inr (hchunk h2)⟩
  · intro a m hm
    obtain ⟨h1, h2, h3⟩ := hd.loaded hm
    exact ⟨h1, h2, Or.inr (hchunk h3)⟩
  · intro effects' h
    cases h
    exact Or.inl rfl

end Commit

/-- Every effect of an archival keeps the invariant. -/
lemma perform_durable (hd : Durable cfg codec node) (hsize : 1 ≤ cfg.archiveBatchSize)
    {effect : Effect} {effects : List Effect} (hwork : node.archiver = .working (effect :: effects))
    (hload : ∀ name, effect = .loadIndex name →
      loadIndexFile node.disk name node.indices ≠ none) :
    Durable cfg codec (node.perform effects effect) := by
  rcases hd.work hwork with h | ⟨start, data, index, hp, hserves, hstage⟩
  · cases h
  rcases hstage.next hload with ⟨rfl, rfl, hdata, hindex, hloaded⟩ | ⟨hof, hstore, hrest, hnext⟩
  · unfold finalEffect
    split
    · exact hd.of_archiver fun h => by cases h
    · next new hnew =>
      obtain ⟨rfl, -⟩ := checkedAdd_eq_some.mp hnew
      exact commit_durable hd hsize hp hserves hdata hindex hloaded
  · refine hd.of_pending_change hsize hp (hof.touches node effects) fun hwork' => Or.inr ?_
    rw [hrest] at hwork'
    cases hwork'
    exact ⟨start, data, index, hp.congr (by rw [hstore]), by rwa [hstore], hnext⟩

/-! ### The other steps -/

lemma write_durable (hd : Durable cfg codec node) (hidle : node.archiver = .idle)
    (block : Block) :
    Durable cfg codec { node with store := node.store.write cfg codec block } := by
  rcases node.store.write_cases cfg codec block with h | ⟨n, hn, hlog, hhot, hearliest⟩
  · rwa [h]
  have hlast : ∀ m, (node.store.write cfg codec block).last m =
      if m = n then some block else node.store.last m := by
    intro m
    rw [Store.last, hlog]
    exact Store.last_cons node.store.db n m block node.store.log
  have hkeep : ∀ {e}, node.store.db.metadata .earliestHot = some e →
      (node.store.write cfg codec block).db.metadata .earliestHot = some e := by
    intro e he
    rw [hearliest, he]
    rfl
  -- a chunk's number may be written again: then it is in the hot tier and read from there
  have hsettled : ∀ {start}, Settled cfg codec node start →
      Settled cfg codec { node with store := node.store.write cfg codec block } start := by
    rintro start ⟨⟨k, hk⟩, data, index, h1, h2, h3, hserves⟩
    refine ⟨⟨k, hkeep hk⟩, data, index, h1, h2, h3, ?_⟩
    intro m hm1 hm2
    obtain ⟨b, r, hb, hr, hread⟩ := hserves m hm1 hm2
    by_cases hmn : m = n
    · refine ⟨block, r, by rw [hlast, if_pos hmn], hr, fun hnone => ?_⟩
      simp only [hhot, hmn, SortedMap.get_put_self, reduceCtorEq] at hnone
    · refine ⟨b, r, by rw [hlast, if_neg hmn, hb], hr, fun hnone => hread ?_⟩
      simpa only [hhot, SortedMap.get_put_of_ne _ _ hmn] using hnone
  have hchunk : ∀ {start}, Pending cfg node start ∨ Settled cfg codec node start →
      Pending cfg { node with store := node.store.write cfg codec block } start ∨
        Settled cfg codec { node with store := node.store.write cfg codec block } start := by
    rintro start (⟨he, hh⟩ | h)
    · refine Or.inl ⟨hkeep he, fun i hi => ?_⟩
      simp only [hhot, SortedMap.get_put]
      split
      · simp
      · exact hh i hi
    · exact Or.inr (hsettled h)
  refine ⟨Store.write_faithful hd.faithful block, ?_, ?_, ?_, ?_⟩
  · intro m b hb hnone
    simp only [hhot, SortedMap.get_put] at hnone
    simp only [hlast] at hb
    split at hnone
    · cases hnone
    · next hmn =>
      rw [if_neg hmn] at hb
      obtain ⟨start, hs, hm⟩ := hd.kept hb hnone
      exact ⟨start, hsettled hs, hm⟩
  · intro name hname hidx
    obtain ⟨start, h1, h2⟩ := hd.files hname hidx
    exact ⟨start, h1, hchunk h2⟩
  · intro start m hm
    obtain ⟨h1, h2, h3⟩ := hd.loaded hm
    exact ⟨h1, h2, hchunk h3⟩
  · intro effects h
    simp only [hidle] at h
    cases h

/-- The top of the loop: a batch that fits is read as the log has it. -/
lemma looping_durable (hd : Durable cfg codec node) (hsize : 1 ≤ cfg.archiveBatchSize)
    (hloop : node.archiver = .looping) (hfits : BatchFits cfg codec node.store.db) :
    Durable cfg codec (node.archive cfg codec) := by
  simp only [Node.archive, hloop]
  rcases loopAction_cases cfg codec node.store.db with
    haction | ⟨start, hstart, -, ⟨-, haction⟩ | ⟨hcomplete, effects, hbatch, haction⟩⟩
  · simp only [haction]
    exact hd.of_archiver fun h => by cases h
  · simp only [haction]
    exact hd.of_store rfl rfl rfl fun h => by cases h
  · simp only [haction]
    obtain ⟨data, index, rfl, hserves⟩ :=
      archiveBatch_spec hd.faithful hsize hstart hfits hcomplete hbatch
    have hp : Pending cfg node start := .of_complete hstart hcomplete
    refine hd.of_pending_change hsize hp (.archiver _ _ node _) fun hwork => ?_
    cases hwork
    exact Or.inr ⟨start, data, index, hp.congr rfl, hserves, .read⟩

/-! ### Restart -/

lemma loadIndexFile_ne_none {disk : Disk} {name : FileName} {indices : Indices}
    (h : loadIndexFile disk name indices ≠ none) (indices' : Indices) :
    loadIndexFile disk name indices' ≠ none := by
  obtain ⟨i, hi⟩ := Option.ne_none_iff_exists'.mp h
  simp only [loadIndexFile, Option.bind_eq_bind, Option.bind_eq_some_iff] at hi
  obtain ⟨range, hrange, data, hdata, index, hindex, hi⟩ := hi
  split at hi
  · cases hi
  · next hle =>
    simp [loadIndexFile, hrange, hdata, hindex, hle]

/-- The scan, from the indices loaded so far: every index file it meets is loaded under its
first block. -/
lemma scan_get {disk : Disk} {entries : List FileName}
    (hfiles : ∀ name ∈ entries, isIndexName name = true → ∃ start,
      name = indexFilename start (cfg.lastOf start) ∧ loadIndexFile disk name .empty ≠ none)
    (indices : Indices) (start : ℕ) :
    (entries.foldl (fun indices name =>
      if isIndexName name then (loadIndexFile disk name indices).getD indices else indices)
      indices).get start =
    if indexFilename start (cfg.lastOf start) ∈ entries then
      (disk.get (indexFilename start (cfg.lastOf start))).map fun index =>
        ⟨index, start, cfg.lastOf start, dataFilename start (cfg.lastOf start)⟩
    else indices.get start := by
  induction entries generalizing indices with
  | nil => simp
  | cons name entries ih =>
    have hrest := fun name hname => hfiles name (List.mem_cons_of_mem _ hname)
    rw [List.foldl_cons, ih hrest]
    by_cases hmem : indexFilename start (cfg.lastOf start) ∈ entries
    · rw [if_pos hmem, if_pos (List.mem_cons_of_mem _ hmem)]
    rw [if_neg hmem]
    by_cases hidx : isIndexName name = true
    · obtain ⟨a, rfl, hload⟩ := hfiles name List.mem_cons_self hidx
      obtain ⟨indices', hi⟩ := Option.ne_none_iff_exists'.mp (loadIndexFile_ne_none hload indices)
      obtain ⟨index, hindex, rfl⟩ := loadIndexFile_index hi
      rw [if_pos hidx, hi, Option.getD_some, SortedMap.get_put]
      by_cases hstart : start = a
      · subst hstart
        rw [if_pos rfl, if_pos List.mem_cons_self, hindex, Option.map_some]
      · rw [if_neg hstart, if_neg]
        rw [List.mem_cons, not_or]
        exact ⟨Owned.ne (owned_index _ _) (owned_index _ _) hstart, hmem⟩
    · rw [if_neg hidx, if_neg]
      rw [List.mem_cons, not_or]
      refine ⟨?_, hmem⟩
      rintro rfl
      exact hidx (isIndexName_index _ _)

lemma initializeHighestContiguous_frame (value : ℕ) (db : Db) :
    (initializeHighestContiguous value db).hotBlocks = db.hotBlocks ∧
      ∀ key, key ≠ .highestContiguous →
        (initializeHighestContiguous value db).metadata key = db.metadata key := by
  unfold initializeHighestContiguous
  split
  · exact ⟨rfl, fun key hkey => Function.update_of_ne hkey _ _⟩
  · exact ⟨rfl, fun _ _ => rfl⟩

/-- Start-up does not touch the hot tier nor the archiver's cursor. -/
lemma initializeDb_frame (cfg : Config) (indices : Indices) (db : Db) :
    (initializeDb cfg indices db).hotBlocks = db.hotBlocks ∧
      (initializeDb cfg indices db).metadata .earliestHot = db.metadata .earliestHot := by
  have hset : ∀ db : Db, (initializeHighestContiguous cfg.seed db).hotBlocks = db.hotBlocks ∧
      (initializeHighestContiguous cfg.seed db).metadata .earliestHot =
        db.metadata .earliestHot := by
    intro db
    obtain ⟨hhot, hmeta⟩ := initializeHighestContiguous_frame cfg.seed db
    exact ⟨hhot, hmeta _ (by decide)⟩
  unfold initializeDb
  simp only
  split
  · split
    · exact hset (commitBatch (setTrueEarliestPersisted _) db)
    · exact hset db
  · exact hset db

lemma restart_durable (hd : Durable cfg codec node) {entries : List FileName}
    (hperm : entries.Perm node.disk.keys)
    (hload : ∀ name ∈ entries, isIndexName name = true →
      loadIndexFile node.disk name .empty ≠ none) :
    Durable cfg codec (node.restart cfg entries) := by
  have hmem : ∀ name, name ∈ entries ↔ node.disk.get name ≠ none := by
    intro name
    rw [hperm.mem_iff, SortedMap.mem_keys]
  have hget : ∀ start, (scanAndBuildIndex node.disk entries).get start =
      if indexFilename start (cfg.lastOf start) ∈ entries then
        (node.disk.get (indexFilename start (cfg.lastOf start))).map fun index =>
          ⟨index, start, cfg.lastOf start, dataFilename start (cfg.lastOf start)⟩
      else none := by
    intro start
    refine scan_get (fun name hname hidx => ?_) .empty start
    obtain ⟨a, ha, -⟩ := hd.files ((hmem name).mp hname) hidx
    exact ⟨a, ha, hload name hname hidx⟩
  obtain ⟨hhot, hearliest⟩ :=
    initializeDb_frame cfg (scanAndBuildIndex node.disk entries) node.store.db
  have hstore := hd.of_store (s := ⟨initializeDb cfg (scanAndBuildIndex node.disk entries)
    node.store.db, node.store.log⟩) (a := .idle) rfl hhot hearliest fun h => by cases h
  -- what is left is the reader's memory, which the scan has filled from the files
  have hsettled : ∀ {start}, Settled cfg codec { node with
        store := ⟨initializeDb cfg (scanAndBuildIndex node.disk entries) node.store.db,
          node.store.log⟩, archiver := .idle } start →
      Settled cfg codec (node.restart cfg entries) start := by
    rintro start ⟨hpassed, data, index, hdata, hindex, -, hserves⟩
    refine ⟨hpassed, data, index, hdata, hindex, ?_, hserves⟩
    have hin : indexFilename start (cfg.lastOf start) ∈ entries := by
      rw [hmem]
      simp only at hindex
      rw [hindex]
      simp
    simp only at hindex
    rw [Node.restart, hget, if_pos hin, hindex, Option.map_some]
  have hchunk : ∀ {start}, Pending cfg { node with
        store := ⟨initializeDb cfg (scanAndBuildIndex node.disk entries) node.store.db,
          node.store.log⟩, archiver := .idle } start ∨ Settled cfg codec { node with
        store := ⟨initializeDb cfg (scanAndBuildIndex node.disk entries) node.store.db,
          node.store.log⟩, archiver := .idle } start →
      Pending cfg (node.restart cfg entries) start ∨
        Settled cfg codec (node.restart cfg entries) start := fun h =>
    h.imp (fun h => h.congr rfl) hsettled
  refine ⟨hstore.faithful, ?_, ?_, ?_, fun h => by cases h⟩
  · intro n block hlast hnone
    obtain ⟨start, hs, hn⟩ := hstore.kept hlast hnone
    exact ⟨start, hsettled hs, hn⟩
  · intro name hname hidx
    obtain ⟨start, h1, h2⟩ := hstore.files hname hidx
    exact ⟨start, h1, hchunk h2⟩
  · intro start m hm
    rw [Node.restart, hget] at hm
    split at hm
    · next hin =>
      obtain ⟨index, hindex, rfl⟩ := Option.map_eq_some_iff.mp hm
      obtain ⟨a, ha, h2⟩ := hstore.files ((hmem _).mp hin) (isIndexName_index _ _)
      obtain rfl : start = a := by
        by_contra hne
        exact Owned.ne (owned_index _ _) (owned_index _ _) hne ha
      exact ⟨rfl, rfl, hchunk h2⟩
    · cases hm

end RockNode
