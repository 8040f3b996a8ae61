import RockNode.GapConvergence

/-!
Writing a block again.

A caller that has not heard back may call `write_block` once more, and the backfill worker does so
with what it has fetched before. A second call rewrites the same values. Only the gap table can
change: the call that extends the contiguous sequence leaves its number on record, and it takes one
more call to take the number out.
-/

namespace RockNode

open RangeTable

variable {cfg : Config} {codec : Codec} {s : Store} {block : Block} {n : ℕ}

/-- The block has been written under `n`, and the database shows it. -/
structure Written (cfg : Config) (codec : Codec) (block : Block) (n : ℕ) (s : Store) : Prop where
  good : s.Good cfg
  hot : s.db.hotBlocks.get n = some (codec.serialize (codec.encode block))
  earliest : s.db.metadata .trueEarliestPersisted ≠ none
  earliestHot : s.db.metadata .earliestHot ≠ none
  latest : n ≤ latestOrSeed cfg s.db
  away : n ≠ highestContiguous s.db + 1

/-- A call that succeeds leaves the block written. -/
lemma written_of_ok (hg : s.Good cfg) (hn : getBlockNumber block = some n)
    (hok : (writeBlock cfg codec block s.db).2 ≠ .err) :
    Written cfg codec block n (s.write cfg codec block) ∧
      (s.marks cfg).write n = some ((s.write cfg codec block).marks cfg) := by
  obtain ⟨m, hm, hlog⟩ := write_log_of_ok hok
  cases hn.symm.trans hm
  have hne : s.write cfg codec block ≠ s := fun heq =>
    List.cons_ne_self (n, block) s.log (hlog.symm.trans (congrArg Store.log heq))
  obtain ⟨m, hm, hlog', hhot, hfirst⟩ := (s.write_cases cfg codec block).resolve_left hne
  cases hn.symm.trans hm
  obtain ⟨m, hm, hw⟩ := (Store.write_marks hg codec block).resolve_left hne
  cases hn.symm.trans hm
  have hplace : n ≤ ((s.write cfg codec block).marks cfg).latest ∧
      n ≠ ((s.write cfg codec block).marks cfg).highest + 1 := by
    have hle := hg.ok.highest_le
    rcases Marks.write_cases hw with ⟨hjump, heq⟩ | ⟨hnext, -, heq⟩ | ⟨hbelow, heq⟩
    · rw [heq]
      simp only
      omega
    · rw [heq]
      have := (s.marks cfg).le_reach n
      simp only
      omega
    · rw [heq]
      simp only
      omega
  refine ⟨⟨Store.write_good hg codec block, ?_, ?_, ?_, hplace.1, hplace.2⟩, hw⟩
  · rw [hhot, SortedMap.get_put_self]
  · rw [Store.write_trueEarliest hlog]
    exact Option.some_ne_none _
  · rw [hfirst]
    exact Option.some_ne_none _

namespace Written

/-- What the marks of a written block become when it is written again. -/
lemma marks_again (h : Written cfg codec block n s) (hn : getBlockNumber block = some n) :
    ((s.write cfg codec block).marks cfg).highest = (s.marks cfg).highest ∧
      ((s.write cfg codec block).marks cfg).gaps =
        {m | m ∈ (s.marks cfg).gaps ∧ ¬ (m = n ∧ n ≤ (s.marks cfg).highest)} := by
  have haway : n ≠ (s.marks cfg).highest + 1 := h.away
  have hlatest : n ≤ (s.marks cfg).latest := h.latest
  have hrefines := Store.write_refines h.good codec hn
  rcases hw : (s.marks cfg).write n with _ | w
  · exact absurd (Marks.write_eq_none.mp hw).1 haway
  rw [hw] at hrefines
  rw [hrefines.2]
  rcases Marks.write_cases hw with ⟨hjump, rfl⟩ | ⟨hnext, -⟩ | ⟨hbelow, rfl⟩
  · -- everything below the block is on record already
    refine ⟨rfl, Set.ext fun m => ?_⟩
    have habove : (s.marks cfg).highest < m → (m ∈ (s.marks cfg).gaps ↔ m < (s.marks cfg).latest) :=
      h.good.ok.above
    constructor
    · rintro (hm | ⟨hlow, hlt⟩)
      · exact ⟨hm, by omega⟩
      · exact ⟨(habove hlow).mpr (by omega), by omega⟩
    · exact fun hm => Or.inl hm.1
  · exact absurd hnext haway
  · refine ⟨rfl, Set.ext fun m => ?_⟩
    constructor
    · exact fun hm => ⟨hm.1, fun heq => hm.2 heq.1⟩
    · exact fun hm => ⟨hm.1, fun heq => hm.2 ⟨heq, hbelow⟩⟩

/-- **Nothing but the gap table changes.** -/
lemma db_again (h : Written cfg codec block n s) (hn : getBlockNumber block = some n) :
    (s.write cfg codec block).db = { s.db with gaps := (s.write cfg codec block).db.gaps } := by
  have hhighest : highestContiguous (s.write cfg codec block).db = highestContiguous s.db :=
    (h.marks_again hn).1
  have hset := h.good.set
  have hset' := (Store.write_good h.good codec block).set
  rcases s.write_eq cfg codec block with heq | ⟨m, ops, hm, hops, heq⟩
  · rw [heq]
  cases hn.symm.trans hm
  have hhot : (s.write cfg codec block).db.hotBlocks = s.db.hotBlocks := by
    rw [heq, commitBatch_hotBlocks, fullBatch_hot _ _ _ _ _ _ _ hops]
    ext1 k
    rw [SortedMap.get_put]
    split
    · next hk => rw [hk, h.hot]
    · rfl
  have hskipped : (s.write cfg codec block).db.skippedBatches = s.db.skippedBatches := by
    rw [heq, commitBatch_skippedBatches, fullBatch_skipped _ _ _ _ _ _ _ hops]
  have hmeta : (s.write cfg codec block).db.metadata = s.db.metadata := by
    funext key
    cases key with
    | latestPersisted =>
      have hlatest : ¬ (s.db.metadata .latestPersisted).getD cfg.seed < n := not_lt.mpr h.latest
      rw [heq, commitBatch_metadata, fullBatch_latest _ _ _ _ _ _ _ hops, if_neg hlatest]
    | earliestHot =>
      obtain ⟨e, he⟩ := Option.ne_none_iff_exists'.mp h.earliestHot
      rw [heq, commitBatch_metadata, fullBatch_earliestHot _ _ _ _ _ _ _ hops, he]
      rfl
    | trueEarliestPersisted =>
      obtain ⟨e, he⟩ := Option.ne_none_iff_exists'.mp h.earliest
      rw [heq, commitBatch_metadata, fullBatch_trueEarliest _ _ _ _ _ _ _ hops, he]
      rfl
    | highestContiguous =>
      obtain ⟨a, ha⟩ := Option.ne_none_iff_exists'.mp hset
      obtain ⟨b, hb⟩ := Option.ne_none_iff_exists'.mp hset'
      simp only [highestContiguous, ha, hb, Option.getD_some] at hhighest
      rw [ha, hb, hhighest]
  rcases hdb : (s.write cfg codec block).db with ⟨hot, metadata, gaps, skipped⟩
  rw [hdb] at hhot hskipped hmeta
  cases hhot
  cases hskipped
  cases hmeta
  rfl

lemma again (h : Written cfg codec block n s) (hn : getBlockNumber block = some n) :
    Written cfg codec block n (s.write cfg codec block) := by
  have hdb := h.db_again hn
  refine ⟨Store.write_good h.good codec block, ?_, ?_, ?_, ?_, ?_⟩ <;> rw [hdb]
  · exact h.hot
  · exact h.earliest
  · exact h.earliestHot
  · exact h.latest
  · exact h.away

/-- When the gap table stays as it is, the database does. -/
lemma db_eq (h : Written cfg codec block n s) (hn : getBlockNumber block = some n)
    (hgaps : ((s.write cfg codec block).marks cfg).gaps = (s.marks cfg).gaps) :
    (s.write cfg codec block).db = s.db := by
  have htable : (s.write cfg codec block).db.gaps = s.db.gaps :=
    (h.again hn).good.canonical.ext h.good.canonical fun m => Set.ext_iff.mp hgaps m
  rw [h.db_again hn, htable]

end Written

/-- **Writing a block again.** At every node that can be reached, after a call that succeeds: a
second call with the same block changes nothing but the gap table, and there it takes out at most
the block's own number, if the first call has extended the contiguous sequence. So it changes
nothing at all unless that number was on record as missing before. A third call changes nothing. -/
theorem write_again {node : Node} {ops : List Operation}
    (hrun : run (Node.operate cfg codec) (Node.init cfg) ops = some node)
    (hn : getBlockNumber block = some n)
    (hok : (writeBlock cfg codec block node.store.db).2 ≠ .err) :
    let s₁ := node.store.write cfg codec block
    let s₂ := s₁.write cfg codec block
    let s₃ := s₂.write cfg codec block
    s₂.db = { s₁.db with gaps := s₂.db.gaps } ∧
    (∀ m, Covers s₂.db.gaps m ↔
      Covers s₁.db.gaps m ∧ ¬ (m = n ∧ n = highestContiguous node.store.db + 1)) ∧
    (s₂.db = s₁.db ↔
      ¬ (n = highestContiguous node.store.db + 1 ∧ Covers node.store.db.gaps n)) ∧
    s₃.db = s₂.db := by
  intro s₁ s₂ s₃
  obtain ⟨h₁, hw⟩ := written_of_ok (run_good hrun).store hn hok
  have h₂ : Written cfg codec block n s₂ := h₁.again hn
  obtain ⟨hhighest, hgaps⟩ := h₁.marks_again hn
  obtain ⟨-, hgaps'⟩ := h₂.marks_again hn
  -- the number is still on record after the first call, and below the frontier, only if that call
  -- has extended the sequence
  have hfirst : n ∈ (s₁.marks cfg).gaps →
      (n ≤ (s₁.marks cfg).highest ↔ n = highestContiguous node.store.db + 1) := by
    intro hmem
    rcases Marks.write_cases hw with ⟨hjump, heq⟩ | ⟨hnext, -, heq⟩ | ⟨-, heq⟩
    · have hjump : highestContiguous node.store.db + 1 < n := hjump
      have hsame : (s₁.marks cfg).highest = highestContiguous node.store.db :=
        congrArg Marks.highest heq
      omega
    · have hreach : (s₁.marks cfg).highest = (node.store.marks cfg).reach n :=
        congrArg Marks.highest heq
      exact ⟨fun _ => hnext, fun _ => hreach ▸ (node.store.marks cfg).le_reach n⟩
    · rw [show (s₁.marks cfg).gaps = _ from congrArg Marks.gaps heq] at hmem
      exact absurd rfl hmem.2
  have hcovers : ∀ m, m ∈ (s₂.marks cfg).gaps ↔ m ∈ (s₁.marks cfg).gaps ∧
      ¬ (m = n ∧ n = highestContiguous node.store.db + 1) := by
    intro m
    rw [show (s₂.marks cfg).gaps = _ from hgaps]
    refine and_congr_right fun hm => not_congr (and_congr_right fun heq => ?_)
    exact hfirst (heq ▸ hm)
  -- a call that extends the sequence leaves the table as it was
  have hsame : n = highestContiguous node.store.db + 1 →
      (s₁.marks cfg).gaps = (node.store.marks cfg).gaps := by
    intro hnext
    rcases Marks.write_cases hw with ⟨hjump, -⟩ | ⟨-, -, heq⟩ | ⟨hbelow, -⟩
    · exact absurd hnext (Nat.ne_of_gt hjump)
    · exact (congrArg Marks.gaps heq).trans rfl
    · exact absurd hnext (Nat.ne_of_lt (Nat.lt_succ_of_le hbelow))
  refine ⟨h₁.db_again hn, hcovers, ⟨fun heq hmissing => ?_, fun hnot => ?_⟩, h₂.db_eq hn ?_⟩
  · have hkept : n ∈ (s₁.marks cfg).gaps := hsame hmissing.1 ▸ hmissing.2
    have hstill : n ∈ (s₂.marks cfg).gaps := by
      change Covers s₂.db.gaps n
      rw [heq]
      exact hkept
    exact ((hcovers n).mp hstill).2 ⟨rfl, hmissing.1⟩
  · refine h₁.db_eq hn (Set.ext fun m => (hcovers m).trans ⟨And.left, fun hm => ⟨hm, ?_⟩⟩)
    rintro ⟨rfl, hnext⟩
    rw [hsame hnext] at hm
    exact hnot ⟨hnext, hm⟩
  · rw [hgaps']
    refine Set.ext fun m => ⟨And.left, fun hm => ⟨hm, ?_⟩⟩
    rintro ⟨rfl, hle⟩
    rw [show (s₂.marks cfg).gaps = _ from hgaps] at hm
    exact hm.2 ⟨rfl, hhighest ▸ hle⟩

/-- Block 2 is on record as missing between 1 and 4. It is written, and written again. -/
theorem write_again_second :
    Covers (gappedStore.write firstConfig plainCodec (plainBlock 2)).db.gaps 2 ∧
    ¬ Covers ((gappedStore.write firstConfig plainCodec (plainBlock 2)).write firstConfig plainCodec
      (plainBlock 2)).db.gaps 2 :=
  ⟨⟨2, 3, by decide +kernel, le_rfl, by decide⟩, fun hcovers =>
    (((write_again run_gappedNode (show getBlockNumber (plainBlock 2) = some 2 from rfl)
      (by decide +kernel)).2.1 2).mp hcovers).2 ⟨rfl, by decide +kernel⟩⟩

end RockNode
