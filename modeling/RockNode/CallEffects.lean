import RockNode.Overlap

/-!
What one call of `write_block` does to the watermarks and the gap table.

The effect of a call on a sound database, branch by branch, written out as values, so that what
two calls leave can be compared. A jump over the watermark comes down to one `put` in the gap
table, because nothing is recorded beyond the gap that it extends.
-/

namespace RockNode

open RangeTable Prog

/-! ### The gap a jump extends -/

/-- The range that a jump from the watermark `h` to `n` records in the table: it starts at
`h + 1`, or where the gap starts that reaches up to `h`. -/
def Edge (m : RangeTable) (h n start stop : ℕ) : Prop :=
  (∃ v, m.get start = some v ∧ start ≤ h + 1 ∧ h ≤ v ∧ stop = max v (n - 1)) ∨
    ((∀ k v, m.get k = some v → k ≤ h + 1 → v < h) ∧ start = h + 1 ∧ stop = n - 1)

lemma exists_edge (m : RangeTable) (h n : ℕ) : ∃ start stop, Edge m h n start stop := by
  by_cases hex : ∃ k v, m.get k = some v ∧ k ≤ h + 1 ∧ h ≤ v
  · obtain ⟨k, v, h1, h2, h3⟩ := hex
    exact ⟨k, max v (n - 1), Or.inl ⟨v, h1, h2, h3, rfl⟩⟩
  · refine ⟨h + 1, n - 1, Or.inr ⟨fun k v h1 h2 => ?_, rfl, rfl⟩⟩
    by_contra hlt
    exact hex ⟨k, v, h1, h2, by omega⟩

/-- The table holds nothing from `start` on but an entry at `start` that ends by `stop`. -/
def EndsAt (m : RangeTable) (start stop : ℕ) : Prop :=
  ∀ k v, m.get k = some v → start ≤ k → k = start ∧ v ≤ stop

section Edge

variable {m : RangeTable} {h n start stop : ℕ}

lemma Edge.start_le (he : Edge m h n start stop) : start ≤ h + 1 := by
  rcases he with ⟨v, -, hle, -⟩ | ⟨-, rfl, -⟩
  · exact hle
  · exact le_rfl

lemma Edge.le_stop (he : Edge m h n start stop) : n - 1 ≤ stop := by
  rcases he with ⟨v, -, -, -, rfl⟩ | ⟨-, -, rfl⟩
  · exact le_max_right _ _
  · exact le_rfl

/-- The bounds that `add_gap_range` finds with its reverse iterator. -/
lemma Edge.mergeLeft_eq (hm : Canonical m) (hh : h < u64Max) (he : Edge m h n start stop) :
    mergeLeft (h + 1) (n - 1) (m.seekLE (h + 1)) = (start, stop) := by
  rcases he with ⟨v, hget, hle, hv, rfl⟩ | ⟨hnone, rfl, rfl⟩
  · have hseek : m.seekLE (h + 1) = some (start, v) := by
      refine SortedMap.seekLE_eq_some.mpr ⟨hget, hle, fun k u hk hkle => ?_⟩
      by_contra hlt
      have := hm.apart hget hk (by omega)
      omega
    have htouch : satAdd v 1 ≥ h + 1 := by simp only [satAdd]; omega
    have h1 : (if start < h + 1 then start else h + 1) = start := by split <;> omega
    have h2 : (if v > n - 1 then v else n - 1) = max v (n - 1) := by split <;> omega
    simp only [hseek, mergeLeft, htouch, if_true, h1, h2]
  · rcases hseek : m.seekLE (h + 1) with _ | ⟨k, v⟩
    · rfl
    · obtain ⟨hk, hle, -⟩ := SortedMap.seekLE_eq_some.mp hseek
      have hv := hnone k v hk hle
      have htouch : ¬ satAdd v 1 ≥ h + 1 := by simp only [satAdd]; omega
      simp only [mergeLeft, htouch, if_false]

lemma Edge.endsAt (hm : Canonical m) (hkeys : ∀ k v, m.get k = some v → k ≤ h + 1)
    (he : Edge m h n start stop) : EndsAt m start stop := by
  intro k v hk hle
  have hk1 := hkeys k v hk
  rcases he with ⟨u, hget, -, hu, rfl⟩ | ⟨hnone, rfl, rfl⟩
  · rcases hle.lt_or_eq with hlt | rfl
    · have := hm.apart hget hk hlt
      omega
    · rw [hget] at hk
      cases hk
      exact ⟨rfl, le_max_left _ _⟩
  · have := hnone k v hk hk1
    have := hm.nonempty hk
    omega

/-- What a jump adds to the batch does to any table what one `put` does. -/
lemma addGapOps_put {r : RangeTable}
    (hmerge : mergeLeft (h + 1) (n - 1) (m.seekLE (h + 1)) = (start, stop))
    (hends : EndsAt r start stop) (t : RangeTable) :
    batchGaps (addGapOps (h + 1) (n - 1) (m.seekLE (h + 1)) r.iterFrom) t = t.put start stop := by
  have hkey : ∀ x ∈ r.iterFrom start, x.1 = start ∧ x.2 ≤ stop := by
    intro x hx
    obtain ⟨hget, hle⟩ := SortedMap.mem_iterFrom.mp hx
    exact hends x.1 x.2 hget hle
  have hsorted := r.iterFrom_sorted start
  have herase : (t.erase start).put start stop = t.put start stop := by
    refine SortedMap.ext_get fun k => ?_
    simp only [SortedMap.get_put, SortedMap.get_erase]
    split <;> rfl
  simp only [addGapOps, hmerge]
  rcases hl : r.iterFrom start with _ | ⟨⟨k, v⟩, _ | ⟨y, l⟩⟩
  · rfl
  · obtain ⟨rfl, hv⟩ := hkey (k, v) (by simp [hl])
    simp only [sweepForward]
    split
    · rfl
    · rw [if_neg (by omega)]
      exact herase
  · -- two entries from `start` on would both start there
    rw [hl] at hsorted hkey
    have h1 := (hkey (k, v) (by simp)).1
    have h2 := (hkey y (by simp)).1
    have h3 := (List.pairwise_cons.mp hsorted).1 y (by simp)
    simp only at h1 h3
    omega

end Edge

/-! ### Calls on a sound database -/

/-- What a call relies on: the invariant of the stored metadata, and that nothing is recorded
above the watermark as long as `true_earliest_persisted` is not set. -/
structure Db.Sound (cfg : Config) (db : Db) : Prop where
  good : ∃ log, Store.Good cfg ⟨db, log⟩
  fresh : db.metadata .trueEarliestPersisted = none → latestOrSeed cfg db = highestContiguous db

/-- Where the walk ends when the next block is written. -/
def Db.reach (cfg : Config) (db : Db) : ℕ :=
  if highestContiguous db + 2 = latestOrSeed cfg db then latestOrSeed cfg db
  else highestContiguous db + 1

/-- Committed on `db`, the prepared operations leave this watermark and this gap table. -/
def Yields (db : Db) (ops : Option WriteBatch) (highest : Option ℕ) (gaps : RangeTable) : Prop :=
  ∃ l, ops = some l ∧ batchGaps l db.gaps = gaps ∧
    batchMeta l (fun _ => db.metadata .highestContiguous) .highestContiguous = highest

lemma yields_below (db : Db) (n : ℕ) (gap : Option (ℕ × ℕ)) (highest : ℕ) :
    Yields db (some (splitGap n gap ++ setHighestContiguous highest)) (some highest)
      (batchGaps (splitGap n gap) db.gaps) := by
  refine ⟨_, rfl, ?_, ?_⟩
  · rw [batchGaps_append]; rfl
  · rw [batchMeta_append]; rfl

lemma yields_next (db : Db) (highest : ℕ) :
    Yields db (some (setHighestContiguous highest)) (some highest) db.gaps := ⟨_, rfl, rfl, rfl⟩

lemma yields_jump {m r : RangeTable} {h n start stop : ℕ} (db : Db)
    (hmerge : mergeLeft (h + 1) (n - 1) (m.seekLE (h + 1)) = (start, stop))
    (hends : EndsAt r start stop) :
    Yields db (some (addGapOps (h + 1) (n - 1) (m.seekLE (h + 1)) r.iterFrom))
      (db.metadata .highestContiguous) (db.gaps.put start stop) :=
  ⟨_, rfl, addGapOps_put hmerge hends db.gaps,
    congrFun (batchMeta_of_isGap (addGapOps_isGap _ _ _ _) _) _⟩

lemma Yields.commit {db : Db} {ops : Option WriteBatch} {highest : Option ℕ} {gaps : RangeTable}
    (h : Yields db ops highest gaps) (cfg : Config) (n : ℕ) (p e : Option ℕ) :
    db.tracked.commit cfg n p e ops =
      ⟨if p.getD cfg.seed < n then some n else db.metadata .latestPersisted,
        if e.isNone then some n else db.metadata .trueEarliestPersisted, highest, gaps⟩ := by
  obtain ⟨l, rfl, h1, h2⟩ := h
  simp only [Tracked.commit, Db.tracked, h1, h2]

namespace Db.Sound

variable {cfg : Config} {db : Db} (hs : db.Sound cfg)

include hs

lemma canonical : Canonical db.gaps := by
  obtain ⟨⟨log, hg⟩, -⟩ := hs
  exact hg.canonical

lemma bounded : GapsBounded db.gaps := by
  obtain ⟨⟨log, hg⟩, -⟩ := hs
  exact hg.bounded

lemma highest_eq : db.metadata .highestContiguous = some (highestContiguous db) := by
  obtain ⟨⟨log, hg⟩, -⟩ := hs
  have hset : db.metadata .highestContiguous ≠ none := hg.set
  rcases h : db.metadata .highestContiguous with _ | v
  · exact absurd h hset
  · simp [highestContiguous, h]

lemma bounds : highestContiguous db < u64Max ∧ highestContiguous db ≤ latestOrSeed cfg db ∧
    latestOrSeed cfg db ≤ u64Max ∧ latestOrSeed cfg db ≠ highestContiguous db + 1 := by
  obtain ⟨⟨log, hg⟩, -⟩ := hs
  exact ⟨hg.ok.highest_lt, hg.ok.highest_le, hg.ok.latest_le, hg.ok.latest_ne⟩

/-- Above the watermark exactly the numbers below `latest_persisted` are recorded. -/
lemma above {m : ℕ} (h : highestContiguous db < m) :
    Covers db.gaps m ↔ m < latestOrSeed cfg db := by
  obtain ⟨⟨log, hg⟩, -⟩ := hs
  exact hg.ok.above h

/-- No gap starts beyond the next number: what is recorded there belongs to one gap. -/
lemma key_le {k v : ℕ} (hk : db.gaps.get k = some v) : k ≤ highestContiguous db + 1 := by
  by_contra hlt
  have hv := hs.canonical.nonempty hk
  have hcov := (hs.above (by omega)).mp ⟨k, v, hk, le_rfl, hv⟩
  obtain ⟨a, b, hab, h1, h2⟩ := (hs.above (m := k - 1) (by omega)).mpr (by omega)
  have := hs.canonical.apart hab hk (by omega)
  omega

/-- With something recorded above the watermark, `true_earliest_persisted` is set. -/
lemma earliest_set (h : highestContiguous db < latestOrSeed cfg db) :
    ∃ e, db.metadata .trueEarliestPersisted = some e := by
  refine Option.ne_none_iff_exists'.mp fun hnone => ?_
  have := hs.fresh hnone
  omega

lemma endsAt {n start stop : ℕ} (he : Edge db.gaps (highestContiguous db) n start stop) :
    EndsAt db.gaps start stop :=
  he.endsAt hs.canonical fun _ _ => hs.key_le

variable {n : ℕ} (base : Db)

lemma yields_below (h : n ≤ highestContiguous db) :
    Yields base
      ((contiguousOps n (max (latestOrSeed cfg db) n) (highestContiguous db)).run db)
      (some (highestContiguous db)) (batchGaps (splitGap n (gapAt db.gaps n)) base.gaps) := by
  obtain ⟨⟨log, hg⟩, -⟩ := hs
  rw [show (contiguousOps n (max (latestOrSeed cfg db) n) (highestContiguous db)).run db = _ from
    contiguousOps_below hg h]
  exact RockNode.yields_below base n _ _

lemma run_next (h : n = highestContiguous db + 1) :
    (contiguousOps n (max (latestOrSeed cfg db) n) (highestContiguous db)).run db =
      if db.reach cfg = u64Max then none else some (setHighestContiguous (db.reach cfg)) := by
  obtain ⟨⟨log, hg⟩, -⟩ := hs
  subst h
  exact contiguousOps_next hg rfl

lemma yields_next (h : n = highestContiguous db + 1) (hend : db.reach cfg ≠ u64Max) :
    Yields base
      ((contiguousOps n (max (latestOrSeed cfg db) n) (highestContiguous db)).run db)
      (some (db.reach cfg)) base.gaps := by
  rw [hs.run_next h, if_neg hend]
  exact RockNode.yields_next base _

lemma yields_jump (h : highestContiguous db + 1 < n) {start stop : ℕ}
    (he : Edge db.gaps (highestContiguous db) n start stop) :
    Yields base
      ((contiguousOps n (max (latestOrSeed cfg db) n) (highestContiguous db)).run db)
      (base.metadata .highestContiguous) (base.gaps.put start stop) := by
  have hends := hs.endsAt he
  have hmerge := he.mergeLeft_eq hs.canonical hs.bounds.1
  obtain ⟨⟨log, hg⟩, -⟩ := hs
  rw [show (contiguousOps n (max (latestOrSeed cfg db) n) (highestContiguous db)).run db = _ from
    contiguousOps_jump hg h _]
  exact RockNode.yields_jump base hmerge hends

end Db.Sound

/-! ### One call alone -/

/-- The table without `n`. -/
def fillGap (m : RangeTable) (n : ℕ) : RangeTable := batchGaps (splitGap n (gapAt m n)) m

section Alone

variable {cfg : Config} {db : Db} (codec : Codec) {b : Block} {n : ℕ}

lemma ite_isNone (e : Option ℕ) (n : ℕ) :
    (if e.isNone then some n else e) = some (e.getD n) := by
  rcases e with _ | e <;> rfl

lemma Yields.write {highest : Option ℕ} {gaps : RangeTable} (hn : getBlockNumber b = some n)
    (h : Yields db
      ((contiguousOps n (max (latestOrSeed cfg db) n) (highestContiguous db)).run db)
      highest gaps) :
    (db.write cfg codec b).tracked =
      ⟨if latestOrSeed cfg db < n then some n else db.metadata .latestPersisted,
        some ((db.metadata .trueEarliestPersisted).getD n), highest, gaps⟩ := by
  rw [write_tracked cfg codec db hn, h.commit, ite_isNone]
  rfl

/-- A call that faults changes nothing. -/
lemma write_of_fault (hn : getBlockNumber b = some n)
    (h : (contiguousOps n (max (latestOrSeed cfg db) n) (highestContiguous db)).run db = none) :
    (db.write cfg codec b).tracked = db.tracked := by
  rw [write_tracked cfg codec db hn, h]
  rfl

lemma write_of_none (hn : getBlockNumber b = none) : db.write cfg codec b = db := by
  simp only [Db.write, writeBlock, hn]

/-- Sequences of calls keep the database sound. -/
lemma Db.Sound.write (hs : db.Sound cfg) (b : Block) : (db.write cfg codec b).Sound cfg := by
  obtain ⟨⟨log, hg⟩, hfresh⟩ := hs
  refine ⟨?_, ?_⟩
  · have hgood := Store.write_good hg codec b
    have hdb := Store.write_db cfg codec ⟨db, log⟩ b
    rcases hw : Store.write cfg codec ⟨db, log⟩ b with ⟨db', log'⟩
    rw [hw] at hgood hdb
    exact ⟨log', by rw [Db.write, ← hdb]; exact hgood⟩
  · intro hnone
    rcases hn : getBlockNumber b with _ | n
    · rw [write_of_none codec hn] at hnone ⊢
      exact hfresh hnone
    have htr := write_tracked cfg codec db hn
    rcases hrun : (contiguousOps n (max (latestOrSeed cfg db) n) (highestContiguous db)).run db
      with _ | ops
    · rw [hrun] at htr
      have h1 : db.metadata .trueEarliestPersisted = none :=
        (congrArg Tracked.trueEarliestPersisted htr).symm.trans hnone
      have h2 : latestOrSeed cfg (db.write cfg codec b) = latestOrSeed cfg db :=
        congrArg (fun t => t.latestPersisted.getD cfg.seed) htr
      have h3 : RockNode.highestContiguous (db.write cfg codec b) = highestContiguous db :=
        congrArg (fun t => t.highestContiguous.getD 0) htr
      rw [h2, h3, hfresh h1]
    · rw [hrun] at htr
      have hset := (congrArg Tracked.trueEarliestPersisted htr).symm.trans hnone
      simp only [Tracked.commit, Db.tracked, ite_isNone, reduceCtorEq] at hset

variable (hs : db.Sound cfg) (hn : getBlockNumber b = some n)

include hs hn

lemma write_below (h : n ≤ highestContiguous db) :
    (db.write cfg codec b).tracked =
      ⟨db.metadata .latestPersisted, some ((db.metadata .trueEarliestPersisted).getD n),
        some (highestContiguous db), fillGap db.gaps n⟩ := by
  have := hs.bounds
  rw [(hs.yields_below db h).write codec hn, if_neg (by omega)]
  rfl

lemma write_next (h : n = highestContiguous db + 1) (hend : db.reach cfg ≠ u64Max) :
    (db.write cfg codec b).tracked =
      ⟨if latestOrSeed cfg db < n then some n else db.metadata .latestPersisted,
        some ((db.metadata .trueEarliestPersisted).getD n), some (db.reach cfg), db.gaps⟩ :=
  (hs.yields_next db h hend).write codec hn

lemma write_end (h : n = highestContiguous db + 1) (hend : db.reach cfg = u64Max) :
    (db.write cfg codec b).tracked = db.tracked :=
  write_of_fault codec hn (by rw [hs.run_next h, if_pos hend])

lemma write_jump (h : highestContiguous db + 1 < n) {start stop : ℕ}
    (he : Edge db.gaps (highestContiguous db) n start stop) :
    (db.write cfg codec b).tracked =
      ⟨if latestOrSeed cfg db < n then some n else db.metadata .latestPersisted,
        some ((db.metadata .trueEarliestPersisted).getD n), some (highestContiguous db),
        db.gaps.put start stop⟩ := by
  rw [(hs.yields_jump db h he).write codec hn, hs.highest_eq]

end Alone

/-- The gap table after a jump. -/
lemma Db.Sound.covers_put {cfg : Config} {db : Db} (hs : db.Sound cfg) {n start stop : ℕ}
    (h : highestContiguous db + 1 < n) (hn : n ≤ u64Max)
    (he : Edge db.gaps (highestContiguous db) n start stop) (i : ℕ) :
    Covers (db.gaps.put start stop) i ↔ Covers db.gaps i ∨ (highestContiguous db < i ∧ i < n) := by
  have hspec := (addGapOps_spec hs.canonical hs.bounded
    (show highestContiguous db + 1 ≤ n - 1 by omega) (by omega)).2.2 i
  rw [addGapOps_put (he.mergeLeft_eq hs.canonical hs.bounds.1) (hs.endsAt he)] at hspec
  rw [hspec]
  exact or_congr_right (by omega)

lemma Db.Sound.canonical_fillGap {cfg : Config} {db : Db} (hs : db.Sound cfg) (n : ℕ) :
    Canonical (fillGap db.gaps n) :=
  (splitGap_spec hs.canonical hs.bounded n).1

lemma Db.Sound.covers_fillGap {cfg : Config} {db : Db} (hs : db.Sound cfg) (n i : ℕ) :
    Covers (fillGap db.gaps n) i ↔ Covers db.gaps i ∧ i ≠ n :=
  (splitGap_spec hs.canonical hs.bounded n).2.2 i

/-! ### The branches together -/

/-- The metadata read back from what is tracked. -/
lemma tracked_fields {db : Db} {l e : Option ℕ} {h : ℕ} {g : RangeTable}
    (ht : db.tracked = ⟨l, e, some h, g⟩) :
    db.metadata .latestPersisted = l ∧ db.metadata .trueEarliestPersisted = e ∧
      highestContiguous db = h ∧ db.gaps = g :=
  ⟨congrArg Tracked.latestPersisted ht, congrArg Tracked.trueEarliestPersisted ht,
    congrArg (fun t => t.highestContiguous.getD 0) ht, congrArg Tracked.gaps ht⟩

lemma latestOrSeed_congr (cfg : Config) {db db' : Db}
    (h : db'.metadata .latestPersisted = db.metadata .latestPersisted) :
    latestOrSeed cfg db' = latestOrSeed cfg db :=
  congrArg (Option.getD · cfg.seed) h

/-- The latest number after a call that raises it when its own is greater. -/
lemma latestOrSeed_of_raised {cfg : Config} {db db' : Db} {n : ℕ}
    (h : db'.metadata .latestPersisted =
      if latestOrSeed cfg db < n then some n else db.metadata .latestPersisted) :
    latestOrSeed cfg db' = max (latestOrSeed cfg db) n := by
  by_cases hlt : latestOrSeed cfg db < n
  · rw [if_pos hlt] at h
    rw [max_eq_right hlt.le]
    exact congrArg (Option.getD · cfg.seed) h
  · rw [if_neg hlt] at h
    rw [max_eq_left (by omega)]
    exact latestOrSeed_congr cfg h

/-- What is tracked decides every watermark. -/
lemma tracked_congr (cfg : Config) {db db' : Db} (h : db.tracked = db'.tracked) :
    db.metadata .latestPersisted = db'.metadata .latestPersisted ∧
      db.metadata .trueEarliestPersisted = db'.metadata .trueEarliestPersisted ∧
      latestOrSeed cfg db = latestOrSeed cfg db' ∧
      highestContiguous db = highestContiguous db' ∧ db.gaps = db'.gaps :=
  ⟨congrArg Tracked.latestPersisted h, congrArg Tracked.trueEarliestPersisted h,
    latestOrSeed_congr cfg (congrArg Tracked.latestPersisted h),
    congrArg (fun t => t.highestContiguous.getD 0) h, congrArg Tracked.gaps h⟩

section Branchwise

variable {cfg : Config} {db : Db} (hs : db.Sound cfg) (codec : Codec) {b : Block} {n : ℕ}
  (hn : getBlockNumber b = some n)

include hs hn

/-- What is recorded after a call. -/
lemma write_covers (i : ℕ) : Covers (db.write cfg codec b).gaps i ↔
    (Covers db.gaps i ∧ (i = n → highestContiguous db < n)) ∨
      (highestContiguous db + 1 < n ∧ highestContiguous db < i ∧ i < n) := by
  rcases Nat.lt_trichotomy n (highestContiguous db + 1) with h | h | h
  · rw [(tracked_fields (write_below codec hs hn (by omega))).2.2.2, hs.covers_fillGap]
    have h₁ : (i = n → highestContiguous db < n) ↔ i ≠ n := by omega
    have h₂ : ¬ highestContiguous db + 1 < n := by omega
    tauto
  · have hgaps : (db.write cfg codec b).gaps = db.gaps := by
      by_cases hend : db.reach cfg = u64Max
      · exact congrArg Tracked.gaps (write_end codec hs hn h hend)
      · exact (tracked_fields (write_next codec hs hn h hend)).2.2.2
    have h₁ : i = n → highestContiguous db < n := by omega
    have h₂ : ¬ highestContiguous db + 1 < n := by omega
    rw [hgaps]
    tauto
  · obtain ⟨start, stop, he⟩ := exists_edge db.gaps (highestContiguous db) n
    rw [(tracked_fields (write_jump codec hs hn h he)).2.2.2,
      hs.covers_put h (getBlockNumber_le hn) he]
    have h₁ : i = n → highestContiguous db < n := by omega
    tauto

/-- Where the watermark is after a call. -/
lemma write_highest : highestContiguous (db.write cfg codec b) =
    if n = highestContiguous db + 1 ∧ db.reach cfg ≠ u64Max then db.reach cfg
    else highestContiguous db := by
  rcases Nat.lt_trichotomy n (highestContiguous db + 1) with h | h | h
  · rw [(tracked_fields (write_below codec hs hn (by omega))).2.2.1, if_neg (by omega)]
  · by_cases hend : db.reach cfg = u64Max
    · rw [if_neg (by simp [hend])]
      exact congrArg (fun t => t.highestContiguous.getD 0) (write_end codec hs hn h hend)
    · rw [(tracked_fields (write_next codec hs hn h hend)).2.2.1, if_pos ⟨h, hend⟩]
  · obtain ⟨start, stop, he⟩ := exists_edge db.gaps (highestContiguous db) n
    rw [(tracked_fields (write_jump codec hs hn h he)).2.2.1, if_neg (by omega)]

omit hs in
/-- A number that is not above the latest one leaves `latest_persisted` alone. -/
lemma write_latest_of_le (h : n ≤ latestOrSeed cfg db) :
    (db.write cfg codec b).metadata .latestPersisted = db.metadata .latestPersisted := by
  have htr := congrArg Tracked.latestPersisted (write_tracked cfg codec db hn)
  rcases hrun : (contiguousOps n (max (latestOrSeed cfg db) n) (highestContiguous db)).run db with
    _ | ops
  · rw [hrun] at htr
    exact htr
  · rw [hrun] at htr
    exact htr.trans (if_neg (by change ¬ latestOrSeed cfg db < n; omega))

/-- A number above the latest one becomes the latest. -/
lemma write_latest_of_lt (h : latestOrSeed cfg db < n) (hend : db.reach cfg ≠ u64Max ∨
    n ≠ highestContiguous db + 1) :
    (db.write cfg codec b).metadata .latestPersisted = some n := by
  have hbounds := hs.bounds
  rcases (by omega : n = highestContiguous db + 1 ∨ highestContiguous db + 1 < n) with hb | hb
  · have hend' := hend.resolve_right (by omega)
    rw [(tracked_fields (write_next codec hs hn hb hend')).1, if_pos h]
  · obtain ⟨start, stop, he⟩ := exists_edge db.gaps (highestContiguous db) n
    rw [(tracked_fields (write_jump codec hs hn hb he)).1, if_pos h]

end Branchwise

/-! ### What a call leaves of the other's reads in the gap table -/

section Gaps

variable {cfg : Config} {db : Db} {m n : ℕ}

/-- Filling a block of another gap does not change the gap around `n`. -/
lemma gapAt_fillGap (hs : db.Sound cfg)
    (hne : ∀ gap, gapAt db.gaps m = some gap → gapAt db.gaps n ≠ some gap) :
    gapAt (fillGap db.gaps m) n = gapAt db.gaps n := by
  have hcan := hs.canonical
  have hcan' := hs.canonical_fillGap m
  rcases hm : gapAt db.gaps m with _ | ⟨a, b⟩
  · simp only [fillGap, hm]
    rfl
  obtain ⟨hab, ha, hb⟩ := (gapAt_eq_some hcan).mp hm
  have hsplit : Split db.gaps (fillGap db.gaps m) a b m := by
    simp only [fillGap, hm]
    exact splitGap_split ha
  rcases hn : gapAt db.gaps n with _ | ⟨x, y⟩
  · refine (gapAt_eq_none hcan' n).mpr fun hcov => ?_
    exact (gapAt_eq_none hcan n).mp hn ((hs.covers_fillGap m n).mp hcov).1
  · obtain ⟨hxy, hx, hy⟩ := (gapAt_eq_some hcan).mp hn
    have hxa : x ≠ a := by
      rintro rfl
      rw [hab] at hxy
      cases hxy
      exact hne _ hm hn
    have hxm : x ≠ m + 1 := by
      rintro rfl
      exact hxa (hcan.eq_of_touch hxy hab (by omega) (by omega)).1
    exact (gapAt_eq_some hcan').mpr ⟨by rw [hsplit.other hxa hxm, hxy], hx, hy⟩

/-- Filling a block twice with what was read before the first time does no harm. -/
lemma refill_same (hs : db.Sound cfg) :
    batchGaps (splitGap n (gapAt db.gaps n)) (fillGap db.gaps n) =
      fillGap (fillGap db.gaps n) n := by
  have hnone : gapAt (fillGap db.gaps n) n = none := by
    refine (gapAt_eq_none (hs.canonical_fillGap n) n).mpr fun hcov => ?_
    exact ((hs.covers_fillGap n n).mp hcov).2 rfl
  have hfill : fillGap (fillGap db.gaps n) n = fillGap db.gaps n := by
    rw [fillGap, hnone]
    rfl
  rw [hfill]
  unfold fillGap
  rcases hn : gapAt db.gaps n with _ | ⟨a, b⟩
  · rfl
  obtain ⟨-, ha, -⟩ := (gapAt_eq_some hs.canonical).mp hn
  have h₁ := splitGap_split (m := db.gaps) (b := b) ha
  have h₂ := splitGap_split (m := batchGaps (splitGap n (some (a, b))) db.gaps) (b := b) ha
  refine SortedMap.ext_get fun k => ?_
  by_cases hka : k = a
  · rw [hka, h₂.left, h₁.left]
  · by_cases hkn : k = n + 1
    · rw [hkn, h₂.right, h₁.right]
      split <;> rfl
    · exact h₂.other hka hkn

/-- A jump does not change the gap around a number whose gap ends below the watermark. -/
lemma gapAt_put (hs : db.Sound cfg) {start stop : ℕ} (hm : highestContiguous db + 1 < m)
    (hmax : m ≤ u64Max) (he : Edge db.gaps (highestContiguous db) m start stop)
    (hcan' : Canonical (db.gaps.put start stop)) (hn : n ≤ highestContiguous db)
    (hlow : ∀ x y, gapAt db.gaps n = some (x, y) → y < highestContiguous db) :
    gapAt (db.gaps.put start stop) n = gapAt db.gaps n := by
  have hcan := hs.canonical
  rcases hgap : gapAt db.gaps n with _ | ⟨x, y⟩
  · refine (gapAt_eq_none hcan' n).mpr fun hcov => ?_
    rcases (hs.covers_put hm hmax he n).mp hcov with h | h
    · exact (gapAt_eq_none hcan n).mp hgap h
    · omega
  · obtain ⟨hxy, hx, hy⟩ := (gapAt_eq_some hcan).mp hgap
    have hlt := hlow x y hgap
    have hxs : x ≠ start := by
      rintro rfl
      rcases he with ⟨v, hv, -, hle, -⟩ | ⟨-, rfl, -⟩
      · rw [hxy] at hv
        cases hv
        omega
      · omega
    exact (gapAt_eq_some hcan').mpr ⟨by rw [SortedMap.get_put_of_ne _ _ hxs, hxy], hx, hy⟩

/-- Filling a block whose gap ends below the watermark does not change what a jump extends. -/
lemma edge_fillGap (hs : db.Sound cfg) {start stop : ℕ} (hm : m ≤ highestContiguous db)
    (hlow : ∀ x y, gapAt db.gaps m = some (x, y) → y < highestContiguous db)
    (he : Edge db.gaps (highestContiguous db) n start stop) :
    Edge (fillGap db.gaps m) (highestContiguous db) n start stop := by
  have hcan := hs.canonical
  rcases hgap : gapAt db.gaps m with _ | ⟨a, b⟩
  · simp only [fillGap, hgap]
    exact he
  obtain ⟨hab, ha, hb⟩ := (gapAt_eq_some hcan).mp hgap
  have hlt := hlow a b hgap
  have hsplit : Split db.gaps (fillGap db.gaps m) a b m := by
    simp only [fillGap, hgap]
    exact splitGap_split ha
  rcases he with ⟨v, hget, hle, hv, rfl⟩ | ⟨hnone, rfl, rfl⟩
  · have hsa : start ≠ a := by
      rintro rfl
      rw [hab] at hget
      cases hget
      omega
    have hsm : start ≠ m + 1 := by
      rintro rfl
      exact hsa (hcan.eq_of_touch hget hab (by omega) (by omega)).1
    exact Or.inl ⟨v, by rw [hsplit.other hsa hsm, hget], hle, hv, rfl⟩
  · refine Or.inr ⟨fun k v hk hkle => ?_, rfl, rfl⟩
    rcases hsplit.get_cases hk with h | h | ⟨-, h⟩
    · omega
    · omega
    · exact hnone k v h hkle

/-- A jump made twice extends the gap that the first one has left. -/
lemma edge_put {t : RangeTable} {h start stop : ℕ} (hn : h + 1 < n)
    (he : Edge t h n start stop) : Edge (t.put start stop) h n start stop := by
  have hstop := he.le_stop
  exact Or.inl ⟨stop, SortedMap.get_put_self _ _ _, he.start_le, by omega, by omega⟩

end Gaps

end RockNode
