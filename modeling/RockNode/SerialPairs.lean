import RockNode.CallEffects

/-!
Pairs of calls of `write_block` that go well together.

When the overtaken call leaves the same whatever it has read, every interleaving leaves what one
of the two serial orders leaves. The lemmas below say so for the pairs of branches, each with what
it needs of the watermarks and the gap table.
-/

namespace RockNode

open RangeTable Prog

/-! ### Calls that do not disturb each other -/

section Overlap

variable {cfg : Config} {codec : Codec} {db : Db} {a b : Block} {m n : ℕ}

/-- When the first call leaves everything as it was, the second cannot tell. -/
lemma overlap_quiet (hn : getBlockNumber b = some n)
    (hq : (db.write cfg codec a).tracked = db.tracked) (j : ℕ) :
    (overlap cfg codec db a b j).tracked =
      ((db.write cfg codec a).write cfg codec b).tracked := by
  obtain ⟨p, e, ops, hreads, htr⟩ := overlap_tracked cfg codec db a hn j
  obtain ⟨hlat, hear, hL, hh, hgaps⟩ := tracked_congr cfg hq
  rw [htr, write_tracked cfg codec _ hn, hlat, hear, hL, hh]
  cases hreads with
  | new => rw [hlat, hear, hL, hh]
  | latest => rw [hear, hh]
  | earliest => rw [hh]
  | highest k => rw [(contiguousOps_readsOnly _ _ _).runSplit_eq hgaps.symm k]

/-- As long as `true_earliest_persisted` is not set, the two orders of the calls differ in it
only: it is `n`, the number of `b`, when `b` comes first. -/
def Swaps (cfg : Config) (codec : Codec) (db : Db) (a b : Block) (n : ℕ) : Prop :=
  db.metadata .trueEarliestPersisted = none →
    ((db.write cfg codec b).write cfg codec a).tracked =
      { ((db.write cfg codec a).write cfg codec b).tracked with trueEarliestPersisted := some n }

/-- **When the overtaken call does no harm.** Whatever it has read, it leaves the same
`latest_persisted`, watermark and gap table; and if it may have set `true_earliest_persisted`
over the other's value, that is what the opposite order leaves. -/
lemma overlap_of_yields {highest : Option ℕ} {gaps : RangeTable}
    (hn : getBlockNumber b = some n)
    (hset : (db.write cfg codec a).metadata .trueEarliestPersisted =
      some ((db.metadata .trueEarliestPersisted).getD m))
    (hlat : latestOrSeed cfg db < n ∧ ¬ latestOrSeed cfg (db.write cfg codec a) < n →
      (db.write cfg codec a).metadata .latestPersisted = some n)
    (hmono : latestOrSeed cfg db ≤ latestOrSeed cfg (db.write cfg codec a))
    (hnew : Yields (db.write cfg codec a)
      ((contiguousOps n (max (latestOrSeed cfg (db.write cfg codec a)) n)
        (highestContiguous (db.write cfg codec a))).run (db.write cfg codec a)) highest gaps)
    (hmid : Yields (db.write cfg codec a)
      ((contiguousOps n (max (latestOrSeed cfg db) n)
        (highestContiguous (db.write cfg codec a))).run (db.write cfg codec a)) highest gaps)
    (hold : ∀ k, Yields (db.write cfg codec a) (runSplit k db (db.write cfg codec a)
      (contiguousOps n (max (latestOrSeed cfg db) n) (highestContiguous db))) highest gaps)
    (hswap : Swaps cfg codec db a b n) : SerialAfter cfg codec db a b := by
  intro j
  obtain ⟨p, e, ops, hreads, htr⟩ := overlap_tracked cfg codec db a hn j
  have hserial := hnew.write codec hn
  -- the latest number comes out the same, whether the call has read the old or the new one
  have hsame : (if latestOrSeed cfg db < n then some n
      else (db.write cfg codec a).metadata .latestPersisted) =
      if latestOrSeed cfg (db.write cfg codec a) < n then some n
      else (db.write cfg codec a).metadata .latestPersisted := by
    by_cases h1 : latestOrSeed cfg db < n
    · rw [if_pos h1]
      by_cases h2 : latestOrSeed cfg (db.write cfg codec a) < n
      · rw [if_pos h2]
      · rw [if_neg h2, hlat ⟨h1, h2⟩]
    · rw [if_neg h1, if_neg (by omega)]
  have hold' : ∀ {ops}, Yields (db.write cfg codec a) ops highest gaps →
      (overlap cfg codec db a b j).tracked = (db.write cfg codec a).tracked.commit cfg n
        (db.metadata .latestPersisted) (db.metadata .trueEarliestPersisted) ops →
      (overlap cfg codec db a b j).tracked =
          ((db.write cfg codec a).write cfg codec b).tracked ∨
        (overlap cfg codec db a b j).tracked =
          ((db.write cfg codec b).write cfg codec a).tracked := by
    intro ops hy ht
    rw [ht, hy.commit, hset]
    rcases hnone : db.metadata .trueEarliestPersisted with _ | e
    · right
      rw [hswap hnone, hserial]
      exact congrArg (fun l => Tracked.mk l _ _ _) hsame
    · left
      rw [hserial, hset, hnone]
      exact congrArg (fun l => Tracked.mk l _ _ _) hsame
  cases hreads with
  | new => exact Or.inl (htr.trans (write_tracked cfg codec _ hn).symm)
  | latest =>
    left
    rw [htr, hmid.commit, hserial, hset]
    exact congrArg (fun l => Tracked.mk l _ _ _) hsame
  | earliest => exact hold' hmid htr
  | highest k => exact hold' (hold k) htr

/-- When the watermark stays, what the call leaves from the old state's reads covers the case in
which it has read the old latest number only. -/
lemma overlap_of_yields_of_stays {highest : Option ℕ} {gaps : RangeTable}
    (hn : getBlockNumber b = some n)
    (hset : (db.write cfg codec a).metadata .trueEarliestPersisted =
      some ((db.metadata .trueEarliestPersisted).getD m))
    (hlat : latestOrSeed cfg db < n ∧ ¬ latestOrSeed cfg (db.write cfg codec a) < n →
      (db.write cfg codec a).metadata .latestPersisted = some n)
    (hmono : latestOrSeed cfg db ≤ latestOrSeed cfg (db.write cfg codec a))
    (hhigh : highestContiguous (db.write cfg codec a) = highestContiguous db)
    (hnew : Yields (db.write cfg codec a)
      ((contiguousOps n (max (latestOrSeed cfg (db.write cfg codec a)) n)
        (highestContiguous (db.write cfg codec a))).run (db.write cfg codec a)) highest gaps)
    (hold : ∀ k, Yields (db.write cfg codec a) (runSplit k db (db.write cfg codec a)
      (contiguousOps n (max (latestOrSeed cfg db) n) (highestContiguous db))) highest gaps)
    (hswap : Swaps cfg codec db a b n) : SerialAfter cfg codec db a b := by
  refine overlap_of_yields hn hset hlat hmono hnew ?_ hold hswap
  have hzero := hold 0
  rw [runSplit_zero] at hzero
  rw [hhigh]
  exact hzero

/-! ### The other order -/

/-- The first call that commits settles `true_earliest_persisted`. -/
lemma write_trueEarliest {e : ℕ} (he : db.metadata .trueEarliestPersisted = some e) :
    (db.write cfg codec b).metadata .trueEarliestPersisted = some e := by
  rcases hn : getBlockNumber b with _ | n
  · rw [write_of_none codec hn, he]
  have htr := congrArg Tracked.trueEarliestPersisted (write_tracked cfg codec db hn)
  rcases hrun : (contiguousOps n (max (latestOrSeed cfg db) n) (highestContiguous db)).run db with
    _ | ops
  · rw [hrun] at htr
    exact htr.trans he
  · rw [hrun, he] at htr
    exact htr.trans he

/-- A call's effect depends on the block's number and on what is tracked. -/
lemma write_tracked_congr {db' : Db} (h : db.tracked = db'.tracked)
    (ha : getBlockNumber a = some n) (hb : getBlockNumber b = some n) :
    (db.write cfg codec a).tracked = (db'.write cfg codec b).tracked := by
  obtain ⟨hlat, hear, hL, hh, hgaps⟩ := tracked_congr cfg h
  rw [write_tracked cfg codec db ha, write_tracked cfg codec db' hb, hlat, hear, hL, hh, h,
    (contiguousOps_readsOnly _ _ _).run_eq hgaps]

lemma swaps_same (ha : getBlockNumber a = some n) (hb : getBlockNumber b = some n)
    (hset : (db.write cfg codec a).metadata .trueEarliestPersisted =
      some ((db.metadata .trueEarliestPersisted).getD n)) : Swaps cfg codec db a b n := by
  intro hnone
  rw [hnone] at hset
  rw [write_tracked_congr (write_tracked_congr rfl hb ha) ha hb]
  exact congrArg (fun e => Tracked.mk _ e _ _) (write_trueEarliest hset)

/-- A call at or below the watermark commutes with any that does not move the watermark. -/
lemma write_comm (hs : db.Sound cfg) (ha : getBlockNumber a = some m)
    (hb : getBlockNumber b = some n) (hm : m ≤ highestContiguous db)
    (hn : n ≤ highestContiguous db ∨ highestContiguous db + 1 < n) :
    { ((db.write cfg codec a).write cfg codec b).tracked with trueEarliestPersisted := none } =
      { ((db.write cfg codec b).write cfg codec a).tracked with
        trueEarliestPersisted := none } := by
  have hs₁ := hs.write codec a
  have hs₂ := hs.write codec b
  have hmax := getBlockNumber_le hb
  have h₁ := write_below codec hs ha hm
  obtain ⟨hlat₁, -, hh₁, hg₁⟩ := tracked_fields h₁
  have hL₁ := latestOrSeed_congr cfg hlat₁
  -- the tables are canonical and hold the same numbers
  have hgaps : (∀ i, Covers ((db.write cfg codec a).write cfg codec b).gaps i ↔
      Covers ((db.write cfg codec b).write cfg codec a).gaps i) →
      ((db.write cfg codec a).write cfg codec b).gaps =
        ((db.write cfg codec b).write cfg codec a).gaps :=
    (hs₁.write codec b).canonical.ext (hs₂.write codec a).canonical
  rcases hn with hn | hn
  · have h₂ := write_below codec hs hb hn
    obtain ⟨hlat₂, -, hh₂, hg₂⟩ := tracked_fields h₂
    have h₁₂ := write_below codec hs₁ hb (by omega)
    have h₂₁ := write_below codec hs₂ ha (by omega)
    have hcov := hgaps fun i => by
      rw [(tracked_fields h₁₂).2.2.2, (tracked_fields h₂₁).2.2.2, hs₁.covers_fillGap,
        hs₂.covers_fillGap, hg₁, hg₂, hs.covers_fillGap, hs.covers_fillGap]
      exact and_right_comm
    rw [(tracked_fields h₁₂).2.2.2, (tracked_fields h₂₁).2.2.2] at hcov
    rw [h₁₂, h₂₁, hlat₁, hlat₂, hh₁, hh₂, hcov]
  · obtain ⟨start, stop, he⟩ := exists_edge db.gaps (highestContiguous db) n
    obtain ⟨start', stop', he'⟩ := exists_edge (db.write cfg codec a).gaps
      (highestContiguous (db.write cfg codec a)) n
    have h₂ := write_jump codec hs hb hn he
    obtain ⟨hlat₂, -, hh₂, hg₂⟩ := tracked_fields h₂
    have h₁₂ := write_jump codec hs₁ hb (by omega) he'
    have h₂₁ := write_below codec hs₂ ha (by omega)
    have hcov := hgaps fun i => by
      rw [(tracked_fields h₁₂).2.2.2, (tracked_fields h₂₁).2.2.2,
        hs₁.covers_put (by omega) hmax he', hs₂.covers_fillGap, hg₁, hg₂, hs.covers_fillGap,
        hs.covers_put hn hmax he, hh₁]
      -- a number of the new gap is above the watermark, so it is not the one that is filled
      have hne : highestContiguous db < i ∧ i < n → i ≠ m := by omega
      rw [or_and_right, and_iff_left_of_imp hne]
    rw [(tracked_fields h₁₂).2.2.2, (tracked_fields h₂₁).2.2.2] at hcov
    rw [h₁₂, h₂₁, hlat₁, hlat₂, hh₁, hh₂, hL₁, hcov]

lemma swaps_of_comm (hset : (db.write cfg codec b).metadata .trueEarliestPersisted =
      some ((db.metadata .trueEarliestPersisted).getD n))
    (hcomm : { ((db.write cfg codec a).write cfg codec b).tracked with
        trueEarliestPersisted := none } =
      { ((db.write cfg codec b).write cfg codec a).tracked with trueEarliestPersisted := none }) :
    Swaps cfg codec db a b n := by
  intro hnone
  rw [hnone] at hset
  have hear : ((db.write cfg codec b).write cfg codec a).tracked =
      { ((db.write cfg codec b).write cfg codec a).tracked with
        trueEarliestPersisted := some n } :=
    congrArg (fun e => Tracked.mk _ e _ _) (write_trueEarliest hset)
  rw [hear]
  exact congrArg (fun t : Tracked => { t with trueEarliestPersisted := some n }) hcomm.symm

/-! ### Pairs that go well -/

/-- The overtaken call lies at or below the watermark, which the other has not moved. -/
lemma overlap_then_below (hs : db.Sound cfg) (hb : getBlockNumber b = some n)
    (hset : (db.write cfg codec a).metadata .trueEarliestPersisted =
      some ((db.metadata .trueEarliestPersisted).getD m))
    (hmono : latestOrSeed cfg db ≤ latestOrSeed cfg (db.write cfg codec a))
    (hhigh : highestContiguous (db.write cfg codec a) = highestContiguous db)
    (hn : n ≤ highestContiguous db)
    (hrefill : batchGaps (splitGap n (gapAt db.gaps n)) (db.write cfg codec a).gaps =
      fillGap (db.write cfg codec a).gaps n)
    (hswap : Swaps cfg codec db a b n) : SerialAfter cfg codec db a b := by
  have hs' := hs.write codec a
  have hbounds := hs.bounds
  have hwalk : ∀ k, runSplit k db (db.write cfg codec a)
      (walkFrom (max (latestOrSeed cfg db) n) (highestContiguous db)) =
      some (highestContiguous db) := by
    refine walkFrom_split_stop hs.canonical hs'.canonical hbounds.1 ?_
    rcases hbounds.2.1.eq_or_lt with heq | hlt
    · exact Or.inl (by omega)
    · exact Or.inr ⟨(hs.above (by omega)).mpr (by omega),
        (hs'.above (by omega)).mpr (by omega)⟩
  have hold : ∀ k, Yields (db.write cfg codec a) (runSplit k db (db.write cfg codec a)
      (contiguousOps n (max (latestOrSeed cfg db) n) (highestContiguous db)))
      (some (highestContiguous db)) (fillGap (db.write cfg codec a).gaps n) := by
    intro k
    obtain ⟨gap, hgap, hrun⟩ := contiguousOps_below_split hn hbounds.1 hwalk k
    rw [hrun]
    rcases hgap with rfl | rfl
    · rw [← hrefill]
      exact yields_below _ n _ _
    · exact yields_below _ n _ _
  refine overlap_of_yields_of_stays hb hset (fun h => by omega) hmono hhigh ?_ hold hswap
  have hnew := hs'.yields_below (db.write cfg codec a) (n := n) (by omega)
  rw [hhigh] at hnew ⊢
  exact hnew

/-- The overtaken call is a jump, and the other has changed neither the watermark nor the gap
that it extends. -/
lemma overlap_then_jump (hs : db.Sound cfg) (hb : getBlockNumber b = some n)
    (hset : (db.write cfg codec a).metadata .trueEarliestPersisted =
      some ((db.metadata .trueEarliestPersisted).getD m))
    (hlat : latestOrSeed cfg db < n ∧ ¬ latestOrSeed cfg (db.write cfg codec a) < n →
      (db.write cfg codec a).metadata .latestPersisted = some n)
    (hmono : latestOrSeed cfg db ≤ latestOrSeed cfg (db.write cfg codec a))
    (hhigh : highestContiguous (db.write cfg codec a) = highestContiguous db)
    (hn : highestContiguous db + 1 < n) {start stop : ℕ}
    (he : Edge db.gaps (highestContiguous db) n start stop)
    (he' : Edge (db.write cfg codec a).gaps (highestContiguous db) n start stop)
    (hswap : Swaps cfg codec db a b n) : SerialAfter cfg codec db a b := by
  have hs' := hs.write codec a
  have hlt := hs.bounds.1
  have hends : EndsAt (db.write cfg codec a).gaps start stop :=
    hs'.endsAt (by rw [hhigh]; exact he')
  have hold : ∀ k, Yields (db.write cfg codec a) (runSplit k db (db.write cfg codec a)
      (contiguousOps n (max (latestOrSeed cfg db) n) (highestContiguous db)))
      ((db.write cfg codec a).metadata .highestContiguous)
      ((db.write cfg codec a).gaps.put start stop) := by
    intro k
    obtain ⟨left, right, hleft, hright, hrun⟩ := contiguousOps_jump_split hn hlt k
    rw [hrun]
    refine yields_jump _ ?_ ?_
    · rcases hleft with rfl | rfl
      · exact he.mergeLeft_eq hs.canonical hlt
      · exact he'.mergeLeft_eq hs'.canonical hlt
    · rcases hright with rfl | rfl
      · exact hs.endsAt he
      · exact hends
  refine overlap_of_yields_of_stays hb hset hlat hmono hhigh ?_ hold hswap
  refine hs'.yields_jump _ (by omega) ?_
  rw [hhigh]
  exact he'

section Pairs

variable (hs : db.Sound cfg) (ha : getBlockNumber a = some m) (hb : getBlockNumber b = some n)

include hs ha hb

lemma serialAfter_below_below (hm : m ≤ highestContiguous db) (hn : n ≤ highestContiguous db)
    (hne : m ≠ n → ∀ gap, gapAt db.gaps m = some gap → gapAt db.gaps n ≠ some gap) :
    SerialAfter cfg codec db a b := by
  obtain ⟨hlat, hset, hhigh, hgaps⟩ := tracked_fields (write_below codec hs ha hm)
  have hset' := (tracked_fields (write_below codec hs hb hn)).2.1
  refine overlap_then_below hs hb hset (latestOrSeed_congr cfg hlat).ge hhigh hn ?_
    (swaps_of_comm hset' (write_comm hs ha hb hm (Or.inl hn)))
  rw [hgaps]
  by_cases hmn : m = n
  · subst hmn
    exact refill_same hs
  · rw [← gapAt_fillGap hs (hne hmn)]
    rfl

lemma serialAfter_below_jump (hm : m ≤ highestContiguous db) (hn : highestContiguous db + 1 < n)
    (hlow : ∀ x y, gapAt db.gaps m = some (x, y) → y < highestContiguous db) :
    SerialAfter cfg codec db a b := by
  obtain ⟨hlat, hset, hhigh, hgaps⟩ := tracked_fields (write_below codec hs ha hm)
  obtain ⟨start, stop, he⟩ := exists_edge db.gaps (highestContiguous db) n
  have hset' := (tracked_fields (write_jump codec hs hb hn he)).2.1
  have hL := latestOrSeed_congr cfg hlat
  refine overlap_then_jump hs hb hset (fun h => by omega) hL.ge hhigh hn he ?_
    (swaps_of_comm hset' (write_comm hs ha hb hm (Or.inr hn)))
  rw [hgaps]
  exact edge_fillGap hs hm hlow he

/-- A call at the end of the `u64` range faults on either side of a call below it. -/
lemma serialAfter_below_end (hm : m ≤ highestContiguous db) (hn : n = highestContiguous db + 1)
    (hend : db.reach cfg = u64Max) : SerialAfter cfg codec db a b := by
  intro j
  obtain ⟨hlat, -, hhigh, -⟩ := tracked_fields (write_below codec hs ha hm)
  have hs' := hs.write codec a
  have hbounds := hs.bounds
  have hL := latestOrSeed_congr cfg hlat
  have hreach : n = u64Max ∨ (n + 1 = u64Max ∧ max (latestOrSeed cfg db) n = u64Max) := by
    unfold Db.reach at hend
    split at hend <;> omega
  -- beyond the watermark nothing that ends the walk is recorded
  have hcov : ∀ {db' : Db}, db'.Sound cfg → highestContiguous db' = highestContiguous db →
      latestOrSeed cfg db' = latestOrSeed cfg db → ¬ Covers db'.gaps u64Max := by
    intro db' hs' hh hl
    rw [hs'.above (by omega), hl]
    omega
  have hnone : ∀ k, runSplit k db (db.write cfg codec a)
      (contiguousOps n (max (latestOrSeed cfg db) n) (highestContiguous db)) = none :=
    contiguousOps_next_split (o := none) hn hbounds.1 (walkFrom_split_fault hs.canonical
      hs'.canonical (hcov hs rfl rfl) (hcov hs' hhigh hL) hreach)
  have hrun := hnone 0
  rw [runSplit_zero] at hrun
  left
  obtain ⟨p, e, ops, hreads, htr⟩ := overlap_tracked cfg codec db a hb j
  rw [htr, write_tracked cfg codec _ hb, hL, hhigh, hrun]
  cases hreads with
  | new => rw [hL, hhigh, hrun]
  | latest => rw [hhigh, hrun]; rfl
  | earliest => rw [hhigh, hrun]; rfl
  | highest k => rw [hnone k]; rfl

lemma serialAfter_jump_below (hm : highestContiguous db + 1 < m) (hn : n ≤ highestContiguous db)
    (hlow : ∀ x y, gapAt db.gaps n = some (x, y) → y < highestContiguous db) :
    SerialAfter cfg codec db a b := by
  obtain ⟨start, stop, he⟩ := exists_edge db.gaps (highestContiguous db) m
  obtain ⟨hlat, hset, hhigh, hgaps⟩ := tracked_fields (write_jump codec hs ha hm he)
  have hset' := (tracked_fields (write_below codec hs hb hn)).2.1
  have hL := latestOrSeed_of_raised hlat
  refine overlap_then_below hs hb hset (by omega) hhigh hn ?_
    (swaps_of_comm hset' (write_comm hs hb ha hn (Or.inr hm)).symm)
  have hcan := (hs.write codec a).canonical
  rw [hgaps] at hcan ⊢
  rw [fillGap, gapAt_put hs hm (getBlockNumber_le ha) he hcan hn hlow]

lemma serialAfter_jump_same (hm : highestContiguous db + 1 < m) (hmn : n = m) :
    SerialAfter cfg codec db a b := by
  subst hmn
  obtain ⟨start, stop, he⟩ := exists_edge db.gaps (highestContiguous db) n
  obtain ⟨hlat, hset, hhigh, hgaps⟩ := tracked_fields (write_jump codec hs ha hm he)
  have hL := latestOrSeed_of_raised hlat
  refine overlap_then_jump hs hb hset (fun h => ?_) (by omega) hhigh hm he ?_
    (swaps_same ha hb hset)
  · rw [hlat, if_pos h.1]
  · rw [hgaps]
    exact edge_put hm he

/-- The next block beside a later latest one: more than one number is missing behind it. -/
lemma serialAfter_jump_next (hm : latestOrSeed cfg db < m) (hn : n = highestContiguous db + 1)
    (hopen : highestContiguous db + 2 < latestOrSeed cfg db) : SerialAfter cfg codec db a b := by
  have hbounds := hs.bounds
  have hs' := hs.write codec a
  obtain ⟨start, stop, he⟩ := exists_edge db.gaps (highestContiguous db) m
  obtain ⟨hlat, hset, hhigh, -⟩ := tracked_fields (write_jump codec hs ha (by omega) he)
  have hL := latestOrSeed_of_raised hlat
  have hreach : (db.write cfg codec a).reach cfg = n := by
    unfold Db.reach
    rw [if_neg (by omega), hhigh, hn]
  have hold : ∀ k, runSplit k db (db.write cfg codec a)
      (contiguousOps n (max (latestOrSeed cfg db) n) (highestContiguous db)) =
      some (setHighestContiguous n) := by
    refine contiguousOps_next_split (o := some n) hn hbounds.1 ?_
    refine walkFrom_split_stop hs.canonical hs'.canonical (by omega) (Or.inr ⟨?_, ?_⟩)
    · exact (hs.above (by omega)).mpr (by omega)
    · exact (hs'.above (by omega)).mpr (by omega)
  have hyields : ∀ k, Yields (db.write cfg codec a) (runSplit k db (db.write cfg codec a)
      (contiguousOps n (max (latestOrSeed cfg db) n) (highestContiguous db))) (some n)
      (db.write cfg codec a).gaps := by
    intro k
    rw [hold k]
    exact yields_next _ n
  refine overlap_of_yields_of_stays hb hset (fun h => by omega) (by omega) hhigh ?_ hyields ?_
  · have hnew := hs'.yields_next (db.write cfg codec a) (n := n) (by omega) (by omega)
    rwa [hreach] at hnew
  · intro hnone
    have := hs.fresh hnone
    omega

/-- The next block twice, with nothing recorded beyond it. -/
lemma serialAfter_next_same (hm : m = highestContiguous db + 1) (hmn : n = m)
    (hend : db.reach cfg ≠ u64Max) (hclosed : latestOrSeed cfg db = highestContiguous db) :
    SerialAfter cfg codec db a b := by
  subst hmn
  have hs' := hs.write codec a
  have hreach : db.reach cfg = n := by
    unfold Db.reach
    rw [if_neg (by omega), hm]
  obtain ⟨hlat, hset, hhigh, hgaps⟩ := tracked_fields (write_next codec hs ha hm hend)
  have hL := latestOrSeed_of_raised hlat
  -- after the first call the block lies at the watermark, in no gap
  have hfill : fillGap (db.write cfg codec a).gaps n = (db.write cfg codec a).gaps := by
    rw [hgaps, fillGap, (gapAt_eq_none hs.canonical n).mpr]
    · rfl
    · rw [hs.above (by omega)]
      omega
  have hnew := hs'.yields_below (db.write cfg codec a) (n := n) (by omega)
  rw [show batchGaps (splitGap n _) _ = _ from hfill, hhigh] at hnew
  have hold : ∀ k, Yields (db.write cfg codec a) (runSplit k db (db.write cfg codec a)
      (contiguousOps n (max (latestOrSeed cfg db) n) (highestContiguous db)))
      (some (db.reach cfg)) (db.write cfg codec a).gaps := by
    intro k
    rw [(contiguousOps_readsOnly _ _ _).runSplit_eq hgaps.symm,
      ← (contiguousOps_readsOnly _ _ _).run_eq hgaps.symm]
    exact hs.yields_next _ hm hend
  have hmax : max (latestOrSeed cfg db) n = max (latestOrSeed cfg (db.write cfg codec a)) n := by
    omega
  refine overlap_of_yields hb hset (fun h => by rw [hlat, if_pos h.1]) (by omega) ?_ ?_ hold
    (swaps_same ha hb hset)
  · rw [hhigh]
    exact hnew
  · rw [hmax, hhigh]
    exact hnew

/-- The next block and a jump: the jump, read before the next block is there, records it as
missing, as it does when it comes first. -/
lemma serialAfter_next_jump (hm : m = highestContiguous db + 1) (hend : db.reach cfg ≠ u64Max)
    (hn : highestContiguous db + 1 < n) (hopen : highestContiguous db < latestOrSeed cfg db)
    (hfar : n ≤ latestOrSeed cfg db ∨ highestContiguous db + 2 < latestOrSeed cfg db) :
    SerialAfter cfg codec db a b := by
  have hbounds := hs.bounds
  obtain ⟨e, he⟩ := hs.earliest_set (by omega)
  obtain ⟨start, stop, hedge⟩ := exists_edge db.gaps (highestContiguous db) n
  have h₁ := write_next codec hs ha hm hend
  rw [if_neg (by omega), he, Option.getD_some] at h₁
  obtain ⟨hlat₁, hear₁, hhigh₁, hgaps₁⟩ := tracked_fields h₁
  have hL₁ := latestOrSeed_congr cfg hlat₁
  have h₂ := write_jump codec hs hb hn hedge
  rw [he, Option.getD_some] at h₂
  obtain ⟨hlat₂, hear₂, hhigh₂, hgaps₂⟩ := tracked_fields h₂
  have hL₂ := latestOrSeed_of_raised hlat₂
  have hreach : (db.write cfg codec b).reach cfg = db.reach cfg := by
    unfold Db.reach
    rw [hL₂, hhigh₂]
    split <;> split <;> omega
  have h₂₁ := write_next codec (hs.write codec b) ha (by omega) (by omega)
  rw [if_neg (by omega), hlat₂, hear₂, Option.getD_some, hreach, hgaps₂] at h₂₁
  intro j
  obtain ⟨p, e', ops, hreads, htr⟩ := overlap_tracked cfg codec db a hb j
  cases hreads with
  | new => exact Or.inl (htr.trans (write_tracked cfg codec _ hb).symm)
  | latest =>
    left
    rw [htr, write_tracked cfg codec _ hb, hL₁, hlat₁]
  | earliest =>
    left
    rw [htr, write_tracked cfg codec _ hb, hL₁, hlat₁, hear₁, he]
  | highest k =>
    right
    have hy := hs.yields_jump (db.write cfg codec a) hn hedge
    rw [htr, (contiguousOps_readsOnly _ _ _).runSplit_eq hgaps₁.symm,
      ← (contiguousOps_readsOnly _ _ _).run_eq hgaps₁.symm, hy.commit, h₂₁, hgaps₁, hlat₁, hear₁,
      (hs.write codec a).highest_eq, hhigh₁, he]
    rfl

end Pairs

/-- A call for a number between the next one and the latest leaves everything as it is. -/
lemma write_between (hs : db.Sound cfg) (ha : getBlockNumber a = some m)
    (hm : highestContiguous db + 1 < m) (hle : m ≤ latestOrSeed cfg db) :
    (db.write cfg codec a).tracked = db.tracked := by
  obtain ⟨start, stop, hedge⟩ := exists_edge db.gaps (highestContiguous db) m
  obtain ⟨e, he⟩ := hs.earliest_set (by omega)
  have h := write_jump codec hs ha hm hedge
  have hgaps := (tracked_fields h).2.2.2
  have hsame : db.gaps.put start stop = db.gaps := by
    rw [← hgaps]
    refine (hs.write codec a).canonical.ext hs.canonical fun i => ?_
    rw [hgaps, hs.covers_put hm (getBlockNumber_le ha) hedge]
    refine ⟨fun hi => hi.elim id fun hi => (hs.above hi.1).mpr (by omega), Or.inl⟩
  rw [h, if_neg (by omega), hsame, he, Option.getD_some, ← hs.highest_eq, ← he]
  rfl

end Overlap

end RockNode
