import RockNode.SerialPairs

/-!
Which pairs of calls of `write_block` get in each other's way.

`Clash` lists the pairs, in terms of the watermarks and the gap table before the calls. Without
a clash every interleaving leaves what one of the two serial orders leaves; with one, the call
that commits last and has read everything before the other's commit leaves something else: a
watermark that has gone back, or a gap that should be filled.
-/

namespace RockNode

open RangeTable Prog

/-- The calls for `m` and `n` clash. -/
inductive Clash (cfg : Config) (db : Db) (m n : ℕ) : Prop
  /-- Both lie above the watermark and `n` becomes the latest block. The next block is not in the
  way of `n` when more than one number behind it is missing. -/
  | above (hm : highestContiguous db < m) (hn : latestOrSeed cfg db < n) (hne : m ≠ n)
      (hnext : m = highestContiguous db + 1 → latestOrSeed cfg db ≤ highestContiguous db + 2)
  /-- One writes the watermark back that the other moves. -/
  | frontier (hm : m ≤ highestContiguous db) (hn : n = highestContiguous db + 1)
      (hend : db.reach cfg ≠ u64Max)
  /-- Both fill the same gap. -/
  | sameGap {gap : ℕ × ℕ} (hm : m ≤ highestContiguous db) (hn : n ≤ highestContiguous db)
      (hne : m ≠ n) (hgap : gapAt db.gaps m = some gap) (hgap' : gapAt db.gaps n = some gap)
  /-- One fills the gap that the other extends. -/
  | openGap {start stop : ℕ} (hm : m ≤ highestContiguous db)
      (hgap : gapAt db.gaps m = some (start, stop)) (hopen : highestContiguous db ≤ stop)
      (hn : highestContiguous db + 1 < n)
  /-- Both bring the next block, which is recorded as missing. -/
  | twice (hm : m = highestContiguous db + 1) (hn : n = highestContiguous db + 1)
      (hlt : highestContiguous db + 1 < latestOrSeed cfg db) (hend : db.reach cfg ≠ u64Max)

section Pair

variable {cfg : Config} {codec : Codec} {db : Db} {a b : Block} {m n : ℕ} (hs : db.Sound cfg)
  (ha : getBlockNumber a = some m) (hb : getBlockNumber b = some n)

include hs ha hb

/-- **Without a clash the overtaken call does no harm.** -/
theorem serialAfter_of_not_clash (h₁ : ¬ Clash cfg db m n) (h₂ : ¬ Clash cfg db n m) :
    SerialAfter cfg codec db a b := by
  have hbounds := hs.bounds
  have hquiet : (db.write cfg codec a).tracked = db.tracked → SerialAfter cfg codec db a b :=
    fun h j => Or.inl (overlap_quiet hb h j)
  rcases Nat.lt_trichotomy m (highestContiguous db + 1) with hm | hm | hm
  · -- `a` lies at or below the watermark
    rcases Nat.lt_trichotomy n (highestContiguous db + 1) with hn | hn | hn
    · refine serialAfter_below_below hs ha hb (by omega) (by omega) fun hne gap hgap hgap' => ?_
      exact h₁ (.sameGap (by omega) (by omega) hne hgap hgap')
    · refine serialAfter_below_end hs ha hb (by omega) hn ?_
      by_contra hend
      exact h₁ (.frontier (by omega) hn hend)
    · refine serialAfter_below_jump hs ha hb (by omega) hn fun x y hgap => ?_
      by_contra hle
      exact h₁ (.openGap (by omega) hgap (by omega) hn)
  · -- `a` is the next block
    by_cases hend : db.reach cfg = u64Max
    · exact hquiet (write_end codec hs ha hm hend)
    rcases Nat.lt_trichotomy n (highestContiguous db + 1) with hn | hn | hn
    · exact absurd (.frontier (by omega) hm hend) h₂
    · refine serialAfter_next_same hs ha hb hm (by omega) hend ?_
      by_contra hne
      exact h₁ (.twice hm hn (by omega) hend)
    · have hfar : n ≤ latestOrSeed cfg db ∨ highestContiguous db + 2 < latestOrSeed cfg db := by
        by_contra hnear
        exact h₁ (.above (by omega) (by omega) (by omega) (by omega))
      exact serialAfter_next_jump hs ha hb hm hend hn (by omega) hfar
  · -- `a` is a jump
    by_cases hle : m ≤ latestOrSeed cfg db
    · exact hquiet (write_between hs ha hm hle)
    rcases Nat.lt_trichotomy n (highestContiguous db + 1) with hn | hn | hn
    · refine serialAfter_jump_below hs ha hb hm (by omega) fun x y hgap => ?_
      by_contra hge
      exact h₂ (.openGap (by omega) hgap (by omega) hm)
    · refine serialAfter_jump_next hs ha hb (by omega) hn ?_
      by_contra hnear
      exact h₂ (.above (by omega) (by omega) (by omega) (by omega))
    · refine serialAfter_jump_same hs ha hb hm ?_
      by_contra hne
      rcases Nat.lt_or_ge (latestOrSeed cfg db) n with hlt | hge
      · exact h₁ (.above (by omega) hlt (by omega) (by omega))
      · exact h₂ (.above (by omega) (by omega) hne (by omega))

/-! ### What a clash leaves -/

omit hs ha hb in
lemma highestContiguous_eq {h : ℕ} (ht : db.tracked.highestContiguous = some h) :
    highestContiguous db = h :=
  congrArg (Option.getD · 0) ht

omit hs ha in
/-- The overtaken call has read everything before the other's commit, and what it leaves has a
property that neither of the serial orders leaves. -/
lemma not_serialAfter {highest : Option ℕ} {gaps : RangeTable}
    (hy : Yields (db.write cfg codec a)
      ((contiguousOps n (max (latestOrSeed cfg db) n) (highestContiguous db)).run db) highest gaps)
    (P : Tracked → Prop) (hP : ∀ e, P ⟨if latestOrSeed cfg db < n then some n
      else (db.write cfg codec a).metadata .latestPersisted, e, highest, gaps⟩)
    (h₁ : ¬ P ((db.write cfg codec a).write cfg codec b).tracked)
    (h₂ : ¬ P ((db.write cfg codec b).write cfg codec a).tracked) :
    ¬ SerialAfter cfg codec db a b := by
  intro hserial
  obtain ⟨j, hj⟩ := exists_overlap_blind cfg codec db a hb
  rw [hy.commit] at hj
  have hPj : P (overlap cfg codec db a b j).tracked := by
    rw [hj]
    exact hP _
  rcases hserial j with h | h
  · exact h₁ (h ▸ hPj)
  · exact h₂ (h ▸ hPj)

/-- Both become the latest block, the larger one first. -/
lemma not_serialAfter_latest (hn : latestOrSeed cfg db < n) (hlt : n < m) :
    ¬ SerialAfter cfg codec db a b := by
  have hbounds := hs.bounds
  have hmax := getBlockNumber_le ha
  have hsa := hs.write codec a
  have hsb := hs.write codec b
  have hend : n = highestContiguous db + 1 → db.reach cfg = n := by
    intro h
    unfold Db.reach
    rw [if_neg (by omega), h]
  have hlat : (db.write cfg codec a).metadata .latestPersisted = some m :=
    write_latest_of_lt hs codec ha (by omega) (Or.inr (by omega))
  have hL : latestOrSeed cfg (db.write cfg codec a) = m := by
    rw [latestOrSeed, hlat, Option.getD_some]
  -- `latest_persisted` goes back; when `n` is the next block, it is also recorded as missing
  obtain ⟨highest, gaps, hy, hgaps⟩ : ∃ highest gaps, Yields (db.write cfg codec a)
      ((contiguousOps n (max (latestOrSeed cfg db) n) (highestContiguous db)).run db) highest gaps ∧
      (n = highestContiguous db + 1 → Covers gaps n) := by
    rcases (by omega : n = highestContiguous db + 1 ∨ highestContiguous db + 1 < n) with h | h
    · refine ⟨_, _, hs.yields_next (db.write cfg codec a) h (by have := hend h; omega), fun _ => ?_⟩
      exact (write_covers hs codec ha n).mpr (Or.inr ⟨by omega, by omega, hlt⟩)
    · obtain ⟨start, stop, he⟩ := exists_edge db.gaps (highestContiguous db) n
      exact ⟨_, _, hs.yields_jump (db.write cfg codec a) h he, fun h' => by omega⟩
  refine not_serialAfter hb hy (fun t => t.latestPersisted = some n ∧
    (n = highestContiguous db + 1 → Covers t.gaps n)) (fun e => ⟨if_pos hn, hgaps⟩) ?_ ?_
  · rintro ⟨h, -⟩
    have hkeep : ((db.write cfg codec a).write cfg codec b).metadata .latestPersisted =
        (db.write cfg codec a).metadata .latestPersisted :=
      write_latest_of_le codec hb (by omega)
    have := Option.some.inj ((hkeep.symm.trans h).symm.trans hlat)
    omega
  · rintro ⟨h, hcov⟩
    rcases (by omega : n = highestContiguous db + 1 ∨ highestContiguous db + 1 < n) with hnext | hj
    · -- `n` is in place when `m` comes, so only numbers beyond it are recorded
      have hhigh := write_highest hs codec hb
      rw [if_pos ⟨hnext, by have := hend hnext; omega⟩, hend hnext] at hhigh
      have hc := (write_covers hsb codec ha n).mp (hcov hnext)
      rw [write_covers hs codec hb n, hs.above (by omega)] at hc
      omega
    · have hhigh := write_highest hs codec hb
      rw [if_neg (by omega)] at hhigh
      have hlatb := write_latest_of_lt hs codec hb hn (Or.inr (by omega))
      have hLb : latestOrSeed cfg (db.write cfg codec b) = n := by
        rw [latestOrSeed, hlatb, Option.getD_some]
      have hlatba := write_latest_of_lt hsb codec ha (by omega) (Or.inr (by omega))
      have := Option.some.inj (hlatba.symm.trans h)
      omega

/-- The number that is latest until `m` comes drops out of the gap when a number below it is
written. -/
lemma not_serialAfter_between (hm : latestOrSeed cfg db < m) (hn : highestContiguous db + 1 < n)
    (hle : n ≤ latestOrSeed cfg db) : ¬ SerialAfter cfg codec db a b := by
  have hcan := hs.canonical
  -- the gap above the watermark ends in front of the latest number
  obtain ⟨x, y, hxy, hx, hy⟩ := (hs.above (m := highestContiguous db + 1) (by omega)).mpr (by omega)
  have hylt : y < latestOrSeed cfg db :=
    (hs.above (by omega)).mp ⟨x, y, hxy, hcan.nonempty hxy, le_rfl⟩
  have hedge : ∀ k, Edge db.gaps (highestContiguous db) k x (max y (k - 1)) :=
    fun k => Or.inl ⟨y, hxy, hx, by omega, rfl⟩
  have hgaps := (tracked_fields (write_jump codec hs ha (by omega) (hedge m))).2.2.2
  refine not_serialAfter hb (hs.yields_jump (db.write cfg codec a) hn (hedge n))
    (fun t => ¬ Covers t.gaps (latestOrSeed cfg db)) (fun e => ?_) ?_ ?_
  · rintro ⟨k, v, hk, h1, h2⟩
    rw [hgaps, SortedMap.get_put] at hk
    split at hk
    · cases hk
      omega
    · next hkx =>
      rw [SortedMap.get_put_of_ne _ _ hkx] at hk
      exact absurd ((hs.above (by omega)).mp ⟨k, v, hk, h1, h2⟩) (lt_irrefl _)
  · have hhigh := write_highest hs codec ha
    rw [if_neg (by omega)] at hhigh
    refine not_not.mpr ((write_covers (hs.write codec a) codec hb _).mpr (Or.inl ⟨?_, by omega⟩))
    exact (write_covers hs codec ha _).mpr (Or.inr ⟨by omega, by omega, hm⟩)
  · have hhigh := write_highest hs codec hb
    rw [if_neg (by omega)] at hhigh
    exact not_not.mpr ((write_covers (hs.write codec b) codec ha _).mpr
      (Or.inr ⟨by omega, by omega, hm⟩))

/-- The watermark passes the latest number, which is then recorded as missing. -/
lemma not_serialAfter_closing (hm : m = highestContiguous db + 1)
    (hL : latestOrSeed cfg db = highestContiguous db + 2) (hn : latestOrSeed cfg db < n) :
    ¬ SerialAfter cfg codec db a b := by
  have hmax := getBlockNumber_le hb
  have hreach : db.reach cfg = latestOrSeed cfg db := by
    unfold Db.reach
    rw [if_pos hL.symm]
  obtain ⟨-, -, hhigh, hgaps⟩ := tracked_fields (write_next codec hs ha hm (by omega))
  obtain ⟨start, stop, he⟩ := exists_edge db.gaps (highestContiguous db) n
  have hstart := he.start_le
  have hstop := he.le_stop
  refine not_serialAfter hb (hs.yields_jump (db.write cfg codec a) (by omega) he)
    (fun t => t.highestContiguous = some (latestOrSeed cfg db) ∧
      Covers t.gaps (latestOrSeed cfg db)) (fun e => ⟨?_, ?_⟩) ?_ ?_
  · rw [(hs.write codec a).highest_eq, hhigh, hreach]
  · exact ⟨start, stop, SortedMap.get_put_self _ _ _, by omega, by omega⟩
  · rintro ⟨-, hcov⟩
    have hc := (write_covers (hs.write codec a) codec hb _).mp hcov
    rw [hgaps, hs.above (by omega)] at hc
    omega
  · rintro ⟨h, -⟩
    have hhighb := write_highest hs codec hb
    rw [if_neg (by omega)] at hhighb
    have hlatb := write_latest_of_lt hs codec hb hn (Or.inr (by omega))
    have hLb : latestOrSeed cfg (db.write cfg codec b) = n := by
      rw [latestOrSeed, hlatb, Option.getD_some]
    have hreachb : (db.write cfg codec b).reach cfg = highestContiguous db + 1 := by
      unfold Db.reach
      rw [if_neg (by omega), hhighb]
    have hhighba := write_highest (hs.write codec b) codec ha
    have heq := highestContiguous_eq h
    rw [hreachb] at hhighba
    split at hhighba <;> omega

/-- The watermark goes back. -/
lemma not_serialAfter_frontier (hm : m = highestContiguous db + 1) (hend : db.reach cfg ≠ u64Max)
    (hn : n ≤ highestContiguous db) : ¬ SerialAfter cfg codec db a b := by
  have hle : ∀ db' : Db, highestContiguous db' < db'.reach cfg := by
    intro db'
    unfold Db.reach
    split <;> omega
  have hhigha := write_highest hs codec ha
  rw [if_pos ⟨hm, hend⟩] at hhigha
  obtain ⟨hlatb, -, hhighb, -⟩ := tracked_fields (write_below codec hs hb hn)
  have hLb := latestOrSeed_congr cfg hlatb
  have hreachb : (db.write cfg codec b).reach cfg = db.reach cfg := by
    simp only [Db.reach, hLb, hhighb]
  refine not_serialAfter hb (hs.yields_below (db.write cfg codec a) hn)
    (fun t => t.highestContiguous = some (highestContiguous db)) (fun e => rfl) ?_ ?_
  · intro h
    have heq := highestContiguous_eq h
    have hhighab := write_highest (hs.write codec a) codec hb
    have h1 := hle db
    have h2 := hle (db.write cfg codec a)
    split at hhighab <;> omega
  · intro h
    have heq := highestContiguous_eq h
    have hhighba := write_highest (hs.write codec b) codec ha
    rw [hreachb, hhighb, if_pos ⟨hm, hend⟩] at hhighba
    have := hle db
    omega

/-- In either order a number at or below the watermark ends up in no gap. -/
lemma not_covers_serial (codec : Codec) (hm : m ≤ highestContiguous db)
    (hn : n ≠ highestContiguous db + 1) :
    ¬ Covers ((db.write cfg codec a).write cfg codec b).gaps m ∧
      ¬ Covers ((db.write cfg codec b).write cfg codec a).gaps m := by
  have hhigha := write_highest hs codec ha
  have hhighb := write_highest hs codec hb
  rw [if_neg (by omega)] at hhigha hhighb
  rw [write_covers (hs.write codec a) codec hb, write_covers (hs.write codec b) codec ha,
    write_covers hs codec ha]
  omega

/-- A filled block is recorded again by a call that fills its gap too. -/
lemma not_serialAfter_sameGap {gap : ℕ × ℕ} (hm : m ≤ highestContiguous db)
    (hn : n ≤ highestContiguous db) (hne : m ≠ n) (hgap : gapAt db.gaps m = some gap)
    (hgap' : gapAt db.gaps n = some gap) : ¬ SerialAfter cfg codec db a b := by
  obtain ⟨x, y⟩ := gap
  obtain ⟨-, hxm, hmy⟩ := (gapAt_eq_some hs.canonical).mp hgap
  obtain ⟨-, hxn, hny⟩ := (gapAt_eq_some hs.canonical).mp hgap'
  obtain ⟨h₁, h₂⟩ := not_covers_serial hs ha hb codec hm (by omega)
  have hsplit := splitGap_split (m := (db.write cfg codec a).gaps) (b := y) hxn
  refine not_serialAfter hb (hs.yields_below (db.write cfg codec a) hn)
    (fun t => Covers t.gaps m) (fun e => ?_) h₁ h₂
  rw [hgap']
  rcases Nat.lt_or_gt_of_ne hne with hlt | hlt
  · exact ⟨x, n - 1, by rw [hsplit.left, if_pos (by omega)], hxm, by omega⟩
  · exact ⟨n + 1, y, by rw [hsplit.right, if_pos (by omega)], by omega, hmy⟩

/-- A filled block is recorded again by a jump that extends its gap. -/
lemma not_serialAfter_openGap {x y : ℕ} (hm : m ≤ highestContiguous db)
    (hgap : gapAt db.gaps m = some (x, y)) (hopen : highestContiguous db ≤ y)
    (hn : highestContiguous db + 1 < n) : ¬ SerialAfter cfg codec db a b := by
  obtain ⟨hxy, hxm, hmy⟩ := (gapAt_eq_some hs.canonical).mp hgap
  obtain ⟨h₁, h₂⟩ := not_covers_serial hs ha hb codec hm (by omega)
  have he : Edge db.gaps (highestContiguous db) n x (max y (n - 1)) :=
    Or.inl ⟨y, hxy, by omega, hopen, rfl⟩
  refine not_serialAfter hb (hs.yields_jump (db.write cfg codec a) hn he)
    (fun t => Covers t.gaps m) (fun e => ?_) h₁ h₂
  exact ⟨x, max y (n - 1), SortedMap.get_put_self _ _ _, hxm, by omega⟩

/-- The next block, written twice at once, stays recorded as missing. -/
lemma not_serialAfter_twice (hm : m = highestContiguous db + 1)
    (hn : n = highestContiguous db + 1) (hlt : highestContiguous db + 1 < latestOrSeed cfg db)
    (hend : db.reach cfg ≠ u64Max) : ¬ SerialAfter cfg codec db a b := by
  have hreach : highestContiguous db < db.reach cfg := by
    unfold Db.reach
    split <;> omega
  have hhigha := write_highest hs codec ha
  have hhighb := write_highest hs codec hb
  rw [if_pos ⟨hm, hend⟩] at hhigha
  rw [if_pos ⟨hn, hend⟩] at hhighb
  refine not_serialAfter hb (hs.yields_next (db.write cfg codec a) hn hend)
    (fun t => Covers t.gaps n) (fun e => ?_) ?_ ?_
  · refine (write_covers hs codec ha n).mpr (Or.inl ⟨(hs.above (by omega)).mpr (by omega), ?_⟩)
    omega
  · intro hcov
    have := (write_covers (hs.write codec a) codec hb n).mp hcov
    omega
  · intro hcov
    have := (write_covers (hs.write codec b) codec ha n).mp hcov
    omega

/-- **A clash does harm.** -/
theorem not_serializable_of_clash (h : Clash cfg db m n) : ¬ Serializable cfg codec db a b := by
  rw [serializable_iff_serialAfter]
  rintro ⟨hab, hba⟩
  have hbounds := hs.bounds
  cases h with
  | above hm hn hne hnext =>
    rcases Nat.lt_or_ge (latestOrSeed cfg db) m with hlt | hge
    · rcases Nat.lt_or_gt_of_ne hne with hmn | hmn
      · exact not_serialAfter_latest hs hb ha hlt hmn hba
      · exact not_serialAfter_latest hs ha hb hn hmn hab
    · rcases (by omega : m = highestContiguous db + 1 ∨ highestContiguous db + 1 < m) with h | h
      · exact not_serialAfter_closing hs ha hb h (by have := hnext h; omega) hn hab
      · exact not_serialAfter_between hs hb ha hn h hge hba
  | frontier hm hn hend => exact not_serialAfter_frontier hs hb ha hn hend hm hba
  | sameGap hm hn hne hgap hgap' => exact not_serialAfter_sameGap hs ha hb hm hn hne hgap hgap' hab
  | openGap hm hgap hopen hn => exact not_serialAfter_openGap hs ha hb hm hgap hopen hn hab
  | twice hm hn hlt hend => exact not_serialAfter_twice hs ha hb hm hn hlt hend hab

end Pair

/-- The two blocks have numbers that clash. -/
def Conflict (cfg : Config) (db : Db) (a b : Block) : Prop :=
  ∃ m ∈ getBlockNumber a, ∃ n ∈ getBlockNumber b, Clash cfg db m n ∨ Clash cfg db n m

lemma serializable_symm {cfg : Config} {codec : Codec} {db : Db} {a b : Block}
    (h : Serializable cfg codec db a b) : Serializable cfg codec db b a := by
  rw [serializable_iff_serialAfter] at h ⊢
  exact h.symm

/-- A block without a number changes nothing and disturbs nobody. -/
lemma serialAfter_of_none {cfg : Config} {codec : Codec} {db : Db} {a b : Block}
    (h : getBlockNumber a = none ∨ getBlockNumber b = none) : SerialAfter cfg codec db a b := by
  intro j
  left
  rcases hb : getBlockNumber b with _ | n
  · rw [overlap, call, hb, runSplit_fault, write_of_none codec hb]
    rfl
  · have ha := h.resolve_right (by simp [hb])
    exact overlap_quiet hb (by rw [write_of_none codec ha]) j

/-- **Two calls on a sound database are serializable exactly when they do not conflict.** -/
theorem Db.Sound.serializable_iff {cfg : Config} {db : Db} (hs : db.Sound cfg) (codec : Codec)
    (a b : Block) : Serializable cfg codec db a b ↔ ¬ Conflict cfg db a b := by
  constructor
  · rintro h ⟨m, ha, n, hb, hclash | hclash⟩
    · exact not_serializable_of_clash hs ha hb hclash h
    · exact not_serializable_of_clash hs hb ha hclash (serializable_symm h)
  · intro h
    rw [serializable_iff_serialAfter]
    rcases ha : getBlockNumber a with _ | m
    · exact ⟨serialAfter_of_none (Or.inl ha), serialAfter_of_none (Or.inr ha)⟩
    rcases hb : getBlockNumber b with _ | n
    · exact ⟨serialAfter_of_none (Or.inr hb), serialAfter_of_none (Or.inl hb)⟩
    have h₁ : ¬ Clash cfg db m n := fun hc => h ⟨m, ha, n, hb, Or.inl hc⟩
    have h₂ : ¬ Clash cfg db n m := fun hc => h ⟨m, ha, n, hb, Or.inr hc⟩
    exact ⟨serialAfter_of_not_clash hs ha hb h₁ h₂, serialAfter_of_not_clash hs hb ha h₂ h₁⟩

end RockNode
