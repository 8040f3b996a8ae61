import RockNode.StateManager
import RockNode.RangeTable
import RockNode.Runs

/-!
The gap table of `CF_GAPS` is a set of block numbers.

On a canonical table `find_containing_gap` decides membership, `add_gap_range` adds a range
and `fill_gap_block` removes a number, and both leave the table canonical.
-/

namespace RockNode

open RangeTable

/-- All numbers in the table are `u64`. -/
def GapsBounded (m : RangeTable) : Prop := ∀ {a b}, m.get a = some b → b ≤ u64Max

/-! ### Looking up -/

/-- What `find_containing_gap` answers on the table `m`. -/
def gapAt (m : RangeTable) (n : ℕ) : Option (ℕ × ℕ) := containing n (m.seekLE n)

@[simp] lemma findContainingGap_run (n : ℕ) (db : Db) :
    (findContainingGap n).run db = some (gapAt db.gaps n) := rfl

lemma gapAt_eq_some {m : RangeTable} (hm : Canonical m) {n a b : ℕ} :
    gapAt m n = some (a, b) ↔ m.get a = some b ∧ a ≤ n ∧ n ≤ b := by
  constructor
  · intro h
    rcases hs : m.seekLE n with _ | ⟨a', b'⟩
    · simp [gapAt, hs, containing] at h
    · have hget := (SortedMap.seekLE_eq_some.mp hs).1
      simp only [gapAt, hs, containing] at h
      split at h
      · next hin =>
        simp only [Option.some.injEq, Prod.mk.injEq] at h
        obtain ⟨rfl, rfl⟩ := h
        exact ⟨hget, hin⟩
      · cases h
  · rintro ⟨h, ha, hb⟩
    simp [gapAt, hm.seekLE h ha hb, containing, ha, hb]

lemma gapAt_isSome {m : RangeTable} (hm : Canonical m) (n : ℕ) :
    (gapAt m n).isSome ↔ Covers m n := by
  constructor
  · intro h
    obtain ⟨⟨a, b⟩, hab⟩ := Option.isSome_iff_exists.mp h
    exact ⟨a, b, (gapAt_eq_some hm).mp hab⟩
  · rintro ⟨a, b, hab⟩
    rw [(gapAt_eq_some hm).mpr hab]
    rfl

lemma gapAt_eq_none {m : RangeTable} (hm : Canonical m) (n : ℕ) :
    gapAt m n = none ↔ ¬ Covers m n := by
  rw [← gapAt_isSome hm]
  simp

/-! ### Adding a range -/

/-- The operations `add_gap_range` adds to the batch when its reverse iterator yields `left`
and its forward iterator the entries `right` tells. -/
def addGapOps (start stop : ℕ) (left : Option (ℕ × ℕ)) (right : ℕ → List (ℕ × ℕ)) : WriteBatch :=
  let bounds := mergeLeft start stop left
  let swept := sweepForward bounds.2 (right bounds.1)
  swept.2 ++ [.putGap bounds.1 swept.1]

lemma addGapRange_run {start stop : ℕ} (h : start ≤ stop) (db : Db) :
    (addGapRange start stop).run db =
      some (addGapOps start stop (db.gaps.seekLE start) db.gaps.iterFrom) := by
  unfold addGapRange
  rw [if_neg (by omega)]
  rfl

lemma batchGaps_deletes (ks : List ℕ) (m : RangeTable) (k : ℕ) :
    (batchGaps (ks.map Op.deleteGap) m).get k = if k ∈ ks then none else m.get k := by
  induction ks generalizing m with
  | nil => simp [batchGaps]
  | cons j ks ih =>
    have hstep : batchGaps ((j :: ks).map Op.deleteGap) m =
        batchGaps (ks.map Op.deleteGap) (m.erase j) := rfl
    rw [hstep, ih, SortedMap.get_erase]
    by_cases hk : k ∈ ks <;> by_cases hj : k = j <;> simp [hk, hj]

/-- What the sweep from `e` over a table's entries does: it deletes exactly those that start
at or before one past its final end, and all they cover lies below that end. -/
lemma sweepForward_spec (e : ℕ) (l : List (ℕ × ℕ)) (hs : l.Pairwise (fun a b => a.1 < b.1))
    (hb : ∀ x ∈ l, x.1 ≤ x.2 ∧ x.2 ≤ u64Max) :
    ∃ ks : List ℕ, (sweepForward e l).2 = ks.map Op.deleteGap ∧ e ≤ (sweepForward e l).1 ∧
      (∀ x ∈ l, x.1 ∈ ks ↔ x.1 ≤ (sweepForward e l).1 + 1) ∧
      (∀ x ∈ l, x.1 ∈ ks → x.2 ≤ (sweepForward e l).1) ∧
      (∀ k ∈ ks, ∃ x ∈ l, x.1 = k) ∧
      (∀ n, e < n → n ≤ (sweepForward e l).1 → ∃ x ∈ l, x.1 ≤ n ∧ n ≤ x.2) ∧
      (e ≤ u64Max → (sweepForward e l).1 ≤ u64Max) := by
  induction l generalizing e with
  | nil => exact ⟨[], by simp [sweepForward], by simp [sweepForward], by simp, by simp, by simp,
      fun n h1 h2 => by simp [sweepForward] at h2; omega, fun h => h⟩
  | cons x l ih =>
    obtain ⟨k, v⟩ := x
    obtain ⟨hk, hs'⟩ := List.pairwise_cons.mp hs
    obtain ⟨hkv, hv⟩ := hb (k, v) (by simp)
    have hb' : ∀ y ∈ l, y.1 ≤ y.2 ∧ y.2 ≤ u64Max := fun y hy => hb y (by simp [hy])
    simp only at hk hkv hv
    by_cases hgt : k > satAdd e 1
    · -- the sweep stops here; all later entries start even further right
      have hke : e + 1 < k := by simp only [satAdd] at hgt; omega
      have hr : sweepForward e ((k, v) :: l) = (e, []) := by simp [sweepForward, hgt]
      rw [hr]
      refine ⟨[], rfl, le_rfl, ?_, by simp, by simp, fun n h1 h2 => by simp only at h2; omega,
        fun h => h⟩
      intro y hy
      simp only [List.not_mem_nil, false_iff, not_le]
      rcases List.mem_cons.mp hy with rfl | hy'
      · exact hke
      · have := hk y hy'; omega
    · have hke : k ≤ e + 1 := by simp only [satAdd] at hgt; omega
      set e' := if v > e then v else e with he'
      have hee : e ≤ e' := by rw [he']; split <;> omega
      have hve : v ≤ e' := by rw [he']; split <;> omega
      obtain ⟨ks, h1, h2, h3, h4, h5, h6, h7⟩ := ih e' hs' hb'
      have hr : sweepForward e ((k, v) :: l) =
          ((sweepForward e' l).1, .deleteGap k :: (sweepForward e' l).2) := by
        simp [sweepForward, hgt, he']
      rw [hr]
      refine ⟨k :: ks, by simp [h1], by simp only; omega, ?_, ?_, ?_, ?_, ?_⟩
      · intro y hy
        rcases List.mem_cons.mp hy with rfl | hy'
        · simp only [List.mem_cons, true_or, true_iff]; omega
        · have hne : y.1 ≠ k := by have := hk y hy'; omega
          simp only [List.mem_cons, hne, false_or]
          exact h3 y hy'
      · intro y hy hmem
        rcases List.mem_cons.mp hy with rfl | hy'
        · simp only; omega
        · have hne : y.1 ≠ k := by have := hk y hy'; omega
          simp only [List.mem_cons, hne, false_or] at hmem
          exact h4 y hy' hmem
      · intro j hj
        rcases List.mem_cons.mp hj with rfl | hj'
        · exact ⟨(j, v), by simp, rfl⟩
        · obtain ⟨y, hy, hyj⟩ := h5 j hj'
          exact ⟨y, by simp [hy], hyj⟩
      · intro n hn hn'
        rcases Nat.lt_or_ge e' n with hlt | hge
        · obtain ⟨y, hy, hyn⟩ := h6 n hlt hn'
          exact ⟨y, by simp [hy], hyn⟩
        · -- between the old end and the new one only this entry can lie
          have : n ≤ v := by rw [he'] at hge; split at hge <;> omega
          exact ⟨(k, v), by simp, by simp only; omega, this⟩
      · intro he
        refine h7 ?_
        rw [he']; split <;> omega

/-- The bounds after looking at the gap to the left: they hold both ranges and nothing else,
and no gap further left touches them. -/
lemma mergeLeft_spec {m : RangeTable} (hm : Canonical m) (hb : GapsBounded m) {start stop : ℕ}
    (hle : start ≤ stop) (hstop : stop ≤ u64Max) :
    ∃ s e, mergeLeft start stop (m.seekLE start) = (s, e) ∧ s ≤ start ∧ stop ≤ e ∧ e ≤ u64Max ∧
      (∀ {a b}, m.get a = some b → a < s → b + 1 < s) ∧
      (∀ n, s ≤ n → n ≤ e → (start ≤ n ∧ n ≤ stop) ∨ Covers m n) := by
  rcases hs : m.seekLE start with _ | ⟨k, v⟩
  · refine ⟨start, stop, rfl, le_rfl, le_rfl, hstop, ?_, fun n h1 h2 => Or.inl ⟨h1, h2⟩⟩
    intro a b hab hlt
    rw [SortedMap.seekLE_eq_none.mp hs a hlt.le] at hab
    cases hab
  · obtain ⟨hkv, hks, hmax⟩ := SortedMap.seekLE_eq_some.mp hs
    simp only at hkv hks hmax
    have hv := hb hkv
    have hkle := hm.nonempty hkv
    by_cases htouch : satAdd v 1 ≥ start
    · have hvs : start ≤ v + 1 := by simp only [satAdd] at htouch; omega
      refine ⟨k, max v stop, ?_, hks, le_max_right _ _, max_le hv hstop, ?_, ?_⟩
      · have h1 : (if k < start then k else start) = k := by split <;> omega
        have h2 : (if v > stop then v else stop) = max v stop := by split <;> omega
        simp only [mergeLeft, htouch, if_true, h1, h2]
      · intro a b hab hlt
        exact hm.apart hab hkv hlt
      · intro n h1 h2
        rcases Nat.lt_or_ge v n with hlt | hge
        · exact Or.inl ⟨by omega, by omega⟩
        · exact Or.inr ⟨k, v, hkv, h1, hge⟩
    · have hvs : v + 1 < start := by simp only [satAdd] at htouch; omega
      refine ⟨start, stop, by simp [mergeLeft, htouch], le_rfl, le_rfl, hstop, ?_,
        fun n h1 h2 => Or.inl ⟨h1, h2⟩⟩
      intro a b hab hlt
      have hak := hmax a b hab hlt.le
      rcases Nat.lt_or_ge a k with h | h
      · have := hm.apart hab hkv h; omega
      · have : a = k := by omega
        subst this
        rw [hkv] at hab
        cases hab
        exact hvs

/-- The table after `add_gap_range` is one merged range beside the untouched ones. -/
lemma addGapOps_merged {m : RangeTable} (hm : Canonical m) (hb : GapsBounded m) {start stop : ℕ}
    (hle : start ≤ stop) (hstop : stop ≤ u64Max) :
    ∃ s e, s ≤ start ∧ stop ≤ e ∧ e ≤ u64Max ∧
      Merged m (batchGaps (addGapOps start stop (m.seekLE start) m.iterFrom) m) s e ∧
      (∀ {a b}, m.get a = some b → a < s → b + 1 < s) ∧
      (∀ {a b}, m.get a = some b → s ≤ a → a ≤ e + 1 → b ≤ e) ∧
      (∀ n, s ≤ n → n ≤ e → (start ≤ n ∧ n ≤ stop) ∨ Covers m n) := by
  obtain ⟨s, e₀, hml, hs, he₀, hmax, hleft, hcov⟩ := mergeLeft_spec hm hb hle hstop
  obtain ⟨ks, h1, h2, h3, h4, h5, h6, h7⟩ := sweepForward_spec e₀ (m.iterFrom s)
    (m.iterFrom_sorted s) (fun x hx => by
      have := (SortedMap.mem_iterFrom.mp hx).1
      exact ⟨hm.nonempty this, hb this⟩)
  set e := (sweepForward e₀ (m.iterFrom s)).1 with he
  have hops : addGapOps start stop (m.seekLE start) m.iterFrom =
      ks.map Op.deleteGap ++ [.putGap s e] := by
    simp only [addGapOps, hml, h1, he]
  have hget : ∀ k, (batchGaps (ks.map Op.deleteGap ++ [.putGap s e]) m).get k =
      if k = s then some e else if k ∈ ks then none else m.get k := by
    intro k
    rw [batchGaps_append]
    change (SortedMap.put _ s e).get k = _
    rw [SortedMap.get_put, batchGaps_deletes]
  have hmem : ∀ {a b}, m.get a = some b → s ≤ a → (a, b) ∈ m.iterFrom s := by
    intro a b hab hsa
    exact SortedMap.mem_iterFrom.mpr ⟨hab, hsa⟩
  refine ⟨s, e, hs, by omega, h7 hmax, ?_, hleft, ?_, ?_⟩
  · rw [hops]
    refine ⟨by rw [hget]; simp, ?_, ?_⟩
    · intro k hne hsk hke
      rw [hget, if_neg hne]
      split
      · rfl
      · next hk =>
        rcases hgk : m.get k with _ | v
        · rfl
        · exact absurd ((h3 (k, v) (hmem hgk hsk)).mpr hke) hk
    · intro k hk
      have hks : k ∉ ks := by
        intro hin
        obtain ⟨x, hx, rfl⟩ := h5 k hin
        have hxs := (SortedMap.mem_iterFrom.mp hx).2
        have := (h3 x hx).mp hin
        omega
      rw [hget, if_neg (by omega), if_neg hks]
  · intro a b hab hsa hae
    have hx := hmem hab hsa
    exact h4 _ hx ((h3 _ hx).mpr hae)
  · intro n hsn hne
    rcases Nat.lt_or_ge e₀ n with hlt | hge
    · obtain ⟨x, hx, hxn⟩ := h6 n hlt hne
      exact Or.inr ⟨x.1, x.2, (SortedMap.mem_iterFrom.mp hx).1, hxn⟩
    · exact hcov n hsn hge

/-- **`add_gap_range` adds a range to the set.** -/
theorem addGapOps_spec {m : RangeTable} (hm : Canonical m) (hb : GapsBounded m) {start stop : ℕ}
    (hle : start ≤ stop) (hstop : stop ≤ u64Max) :
    Canonical (batchGaps (addGapOps start stop (m.seekLE start) m.iterFrom) m) ∧
      GapsBounded (batchGaps (addGapOps start stop (m.seekLE start) m.iterFrom) m) ∧
      ∀ n, Covers (batchGaps (addGapOps start stop (m.seekLE start) m.iterFrom) m) n ↔
        Covers m n ∨ (start ≤ n ∧ n ≤ stop) := by
  obtain ⟨s, e, hs, he, hmax, hmrg, hleft, hin, hcov⟩ := addGapOps_merged hm hb hle hstop
  refine ⟨hmrg.canonical hm (by omega) hleft, ?_, fun n => ?_⟩
  · intro a b hab
    by_cases has : a = s
    · subst has; rw [hmrg.start] at hab; cases hab; exact hmax
    · by_cases hmid : s ≤ a ∧ a ≤ e + 1
      · rw [hmrg.inside has hmid.1 hmid.2] at hab; cases hab
      · rw [hmrg.outside (by omega)] at hab; exact hb hab
  · rw [hmrg.covers hin]
    constructor
    · rintro (h | h)
      · exact Or.inl h
      · exact (hcov n h.1 h.2).symm
    · rintro (h | h)
      · exact Or.inl h
      · exact Or.inr ⟨by omega, by omega⟩

/-! ### Filling a block -/

@[simp] lemma fillGapBlock_run (n : ℕ) (db : Db) :
    (fillGapBlock n).run db = some (splitGap n (gapAt db.gaps n)) := rfl

lemma splitGap_split {m : RangeTable} {a b n : ℕ} (ha : a ≤ n) :
    Split m (batchGaps (splitGap n (some (a, b))) m) a b n := by
  have hget : ∀ k, (batchGaps (splitGap n (some (a, b))) m).get k =
      if n < b ∧ k = n + 1 then some b
      else if k = a then (if a < n then some (n - 1) else none) else m.get k := by
    intro k
    by_cases h1 : a < n <;> by_cases h2 : n < b <;>
      simp only [splitGap, batchGaps, gt_iff_lt, h1, h2, if_true, if_false, List.append_nil,
        List.nil_append, List.singleton_append, List.foldl_cons, List.foldl_nil, Op.onGaps,
        SortedMap.get_put, SortedMap.get_erase, true_and, false_and] <;>
      by_cases hk : k = a <;> simp [hk]
  refine ⟨?_, ?_, ?_⟩
  · rw [hget, if_neg (by omega), if_pos rfl]
  · rw [hget]
    by_cases h : n < b
    · simp [h]
    · rw [if_neg (by omega), if_neg (by omega), if_neg h]
  · intro k hka hkn
    rw [hget, if_neg (by omega), if_neg hka]

/-- **`fill_gap_block` removes a number from the set.** -/
theorem splitGap_spec {m : RangeTable} (hm : Canonical m) (hb : GapsBounded m) (n : ℕ) :
    Canonical (batchGaps (splitGap n (gapAt m n)) m) ∧
      GapsBounded (batchGaps (splitGap n (gapAt m n)) m) ∧
      ∀ i, Covers (batchGaps (splitGap n (gapAt m n)) m) i ↔ Covers m i ∧ i ≠ n := by
  rcases hg : gapAt m n with _ | ⟨a, b⟩
  · refine ⟨hm, hb, fun i => ⟨fun h => ⟨h, ?_⟩, fun h => h.1⟩⟩
    rintro rfl
    exact (gapAt_eq_none hm i).mp hg h
  · obtain ⟨hab, ha, hnb⟩ := (gapAt_eq_some hm).mp hg
    have hsp := splitGap_split (m := m) (b := b) ha
    refine ⟨hsp.canonical hm hab ha hnb, ?_, hsp.covers hm hab ha hnb⟩
    intro k v hk
    have := hb hab
    rcases hsp.get_cases hk with h | h | ⟨-, h⟩
    · omega
    · omega
    · exact hb h

/-! ### Sequences of calls -/

/-- A call that changes the gap table, with the numbers it is given. -/
inductive GapCall where
  | addGapRange (start stop : UInt64)
  | fillGapBlock (blockNumber : UInt64)

/-- What the call adds to the batch. -/
def GapCall.prepare : GapCall → Prog Db WriteBatch
  | addGapRange start stop => RockNode.addGapRange start.toNat stop.toNat
  | fillGapBlock blockNumber => RockNode.fillGapBlock blockNumber.toNat

/-- The call with a batch of its own, committed before the next call. -/
def GapCall.commit (db : Db) (call : GapCall) : Option Db :=
  (call.prepare.run db).map fun batch => commitBatch batch db

/-- What the call does to the set. -/
def GapCall.onSet (gaps : Set ℕ) : GapCall → Set ℕ
  | addGapRange start stop => gaps ∪ Set.Icc start.toNat stop.toNat
  | fillGapBlock blockNumber => gaps \ {blockNumber.toNat}

/-- The table stands for the set: its ranges are canonical and cover the set's numbers. -/
structure StandsFor (m : RangeTable) (gaps : Set ℕ) : Prop where
  canonical : Canonical m
  bounded : GapsBounded m
  covers : ∀ n, Covers m n ↔ n ∈ gaps

lemma standsFor_empty : StandsFor .empty ∅ where
  canonical := canonical_empty
  bounded {a b} h := by simp at h
  covers n := ⟨not_covers_empty n, False.elim⟩

/-- One committed call is one step on the set. -/
lemma GapCall.commit_standsFor {db : Db} {gaps : Set ℕ} (h : StandsFor db.gaps gaps)
    (call : GapCall) :
    ∃ db', call.commit db = some db' ∧ StandsFor db'.gaps (call.onSet gaps) := by
  cases call with
  | addGapRange start stop =>
    have hstop : stop.toNat ≤ u64Max := by
      have := stop.toNat_lt
      simp only [u64Max]
      omega
    rcases Nat.lt_or_ge stop.toNat start.toNat with hlt | hle
    · -- a range that ends before it starts is ignored
      refine ⟨db, ?_, ?_⟩
      · simp only [commit, prepare, RockNode.addGapRange, if_pos hlt]
        rfl
      · simpa only [onSet, Set.Icc_eq_empty_of_lt hlt, Set.union_empty] using h
    · refine ⟨_, by simp only [commit, prepare, addGapRange_run hle]; rfl, ?_⟩
      obtain ⟨hcan, hbnd, hcov⟩ := addGapOps_spec h.canonical h.bounded hle hstop
      rw [commitBatch_gaps]
      refine ⟨hcan, hbnd, fun n => ?_⟩
      rw [hcov, h.covers]
      rfl
  | fillGapBlock n =>
    refine ⟨_, by simp only [commit, prepare, fillGapBlock_run]; rfl, ?_⟩
    obtain ⟨hcan, hbnd, hcov⟩ := splitGap_spec h.canonical h.bounded n.toNat
    rw [commitBatch_gaps]
    refine ⟨hcan, hbnd, fun i => ?_⟩
    rw [hcov, h.covers]
    rfl

/-- Any sequence of calls keeps the table standing for the set. -/
lemma GapCall.run_standsFor {db : Db} {gaps : Set ℕ} (h : StandsFor db.gaps gaps)
    (calls : List GapCall) :
    ∃ db', run GapCall.commit db calls = some db' ∧
      StandsFor db'.gaps (calls.foldl GapCall.onSet gaps) := by
  induction calls generalizing db gaps with
  | nil => exact ⟨db, rfl, h⟩
  | cons call calls ih =>
    obtain ⟨db', hcommit, h'⟩ := call.commit_standsFor h
    obtain ⟨db'', hrun, h''⟩ := ih h'
    exact ⟨db'', by rw [run_cons hcommit, hrun], h''⟩

/-- What `find_containing_gap` answers: the range that holds the number, if there is one. -/
lemma StandsFor.gapAt {m : RangeTable} {gaps : Set ℕ} (h : StandsFor m gaps) (n : ℕ) :
    (n ∈ gaps ∧ ∃ a b, RockNode.gapAt m n = some (a, b) ∧ m.get a = some b ∧ a ≤ n ∧ n ≤ b) ∨
      (n ∉ gaps ∧ RockNode.gapAt m n = none) := by
  rcases hgap : RockNode.gapAt m n with _ | ⟨a, b⟩
  · refine Or.inr ⟨?_, rfl⟩
    rw [← h.covers]
    exact (gapAt_eq_none h.canonical n).mp hgap
  · have hab := (gapAt_eq_some h.canonical).mp hgap
    exact Or.inl ⟨(h.covers n).mp ⟨a, b, hab⟩, a, b, rfl, hab⟩

/-- **The gap table is a set of numbers.** However ranges are added and blocks filled, each call
committed before the next, the table is canonical, it covers the numbers that the calls leave in
the set, and `find_containing_gap` finds the range of each of these numbers and no other. -/
theorem gapTable_isSet (db : Db) (hempty : db.gaps = .empty) (calls : List GapCall) :
    ∃ db', run GapCall.commit db calls = some db' ∧ Canonical db'.gaps ∧
      (∀ n, Covers db'.gaps n ↔ n ∈ calls.foldl GapCall.onSet ∅) ∧
      ∀ n : UInt64,
        (n.toNat ∈ calls.foldl GapCall.onSet ∅ ∧
          ∃ a b, (findContainingGap n.toNat).run db' = some (some (a, b)) ∧
            db'.gaps.get a = some b ∧ a ≤ n.toNat ∧ n.toNat ≤ b) ∨
        (n.toNat ∉ calls.foldl GapCall.onSet ∅ ∧
          (findContainingGap n.toNat).run db' = some none) := by
  obtain ⟨db', hrun, h⟩ := GapCall.run_standsFor (hempty ▸ standsFor_empty) calls
  refine ⟨db', hrun, h.canonical, h.covers, fun n => ?_⟩
  rw [findContainingGap_run]
  rcases h.gapAt n.toNat with ⟨hn, a, b, hgap, hab⟩ | ⟨hn, hgap⟩
  · exact Or.inl ⟨hn, a, b, by rw [hgap], hab⟩
  · exact Or.inr ⟨hn, by rw [hgap]⟩

theorem gapTable_isSet_split :
    ∃ db', run GapCall.commit Db.empty [.addGapRange 5 9, .addGapRange 8 6, .fillGapBlock 7] =
      some db' ∧ Canonical db'.gaps ∧ Covers db'.gaps 6 ∧ ¬ Covers db'.gaps 7 := by
  obtain ⟨db', hrun, hcan, hcov, -⟩ := gapTable_isSet .empty rfl
    [.addGapRange 5 9, .addGapRange 8 6, .fillGapBlock 7]
  refine ⟨db', hrun, hcan, (hcov 6).mpr ?_, fun h => ?_⟩
  · simp [GapCall.onSet]
  · simpa [GapCall.onSet] using (hcov 7).mp h

end RockNode
