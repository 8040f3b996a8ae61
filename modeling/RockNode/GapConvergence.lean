import RockNode.GapCheck

/-!
What gap checks come to.

A check goes through the recorded numbers in ascending order. The first missing one extends the
contiguous sequence, and so does each one after it; the numbers at or below the frontier are taken
out of the table. So the first check with peers that have the blocks brings the frontier to the
latest block but leaves what it has filled on record, and the second one, which asks for all of it
again, empties the table.
-/

namespace RockNode

open RangeTable

/-! ### A sweep over the recorded numbers -/

namespace Marks

/-- A sweep over the numbers `G`, those on record when it began, has come to `p`. The frontier was
`old` at the beginning, and the latest number is `top`. -/
structure Sweep (seed : ℕ) (G : Set ℕ) (old top p : ℕ) (w : Marks) : Prop where
  ok : w.Ok seed
  latest : w.latest = top
  frontier : old ≤ w.highest
  gaps : w.gaps ⊆ G
  inside : ∀ m ∈ G, w.highest < m → m < top
  below : ∀ m ∈ G, m < p → m ≤ w.highest
  cleared : ∀ m ∈ G, m < p → m ≤ old → m ∉ w.gaps

/-- Each number has been written once so far. -/
structure SweepOnce (seed : ℕ) (G : Set ℕ) (old top p : ℕ) (w : Marks) : Prop where
  sweep : w.Sweep seed G old top p
  ahead : ∀ m ∈ G, p ≤ m → old < m → w.highest < m
  kept : ∀ m ∈ G, old < m → m ∈ w.gaps

variable {seed old top p q n : ℕ} {G : Set ℕ} {w : Marks}

lemma Sweep.start (h : w.Ok seed) : w.Sweep seed w.gaps w.highest w.latest 0 where
  ok := h
  latest := rfl
  frontier := le_rfl
  gaps := subset_rfl
  inside _ hm hlt := (h.above hlt).mp hm
  below m _ hlt := absurd hlt (Nat.not_lt_zero m)
  cleared m _ hlt := absurd hlt (Nat.not_lt_zero m)

lemma SweepOnce.start (h : w.Ok seed) : w.SweepOnce seed w.gaps w.highest w.latest 0 where
  sweep := .start h
  ahead _ _ _ hlt := hlt
  kept _ hm _ := hm

lemma Sweep.mono (h : w.Sweep seed G old top q) (hpq : p ≤ q) : w.Sweep seed G old top p :=
  { h with
    below := fun m hm hlt => h.below m hm (hlt.trans_le hpq)
    cleared := fun m hm hlt => h.cleared m hm (hlt.trans_le hpq) }

/-- Where nothing is on record there is nothing to do. -/
lemma Sweep.skip (h : w.Sweep seed G old top p) (hnone : ∀ m ∈ G, m < q → m < p) :
    w.Sweep seed G old top q :=
  { h with
    below := fun m hm hlt => h.below m hm (hnone m hm hlt)
    cleared := fun m hm hlt => h.cleared m hm (hnone m hm hlt) }

lemma SweepOnce.skip (h : w.SweepOnce seed G old top p) (hpq : p ≤ q)
    (hnone : ∀ m ∈ G, m < q → m < p) : w.SweepOnce seed G old top q :=
  ⟨h.sweep.skip hnone, fun m hm hle => h.ahead m hm (hpq.trans hle), h.kept⟩

/-- The number that the sweep has come to lies at the frontier or below it: what is missing
between the two would have been on record. -/
lemma Sweep.le_succ (h : w.Sweep seed G old top n) (hn : n ∈ G) : n ≤ w.highest + 1 := by
  by_contra hgt
  have htop := h.inside n hn (by omega)
  have hgap : w.highest + 1 ∈ w.gaps :=
    (h.ok.above (Nat.lt_succ_self _)).mpr (by rw [h.latest]; omega)
  have hle := h.below _ (h.gaps hgap) (by omega)
  omega

lemma le_reach (w : Marks) (n : ℕ) : n ≤ w.reach n := by
  unfold reach
  split <;> omega

/-- **One number of a sweep.** -/
lemma Sweep.write (h : w.Sweep seed G old top n) (htop : top < u64Max) (hn : n ∈ G) :
    ∃ w', w.write n = some w' ∧ w'.Sweep seed G old top (n + 1) := by
  have hsucc := h.le_succ hn
  have hlt : w.highest < n → n < top := h.inside n hn
  have hfrontier := h.frontier
  have hreach := w.le_reach n
  rcases hw : w.write n with _ | w'
  · -- the walk ends at the latest number or before it
    obtain ⟨hnext, hmax⟩ := write_eq_none.mp hw
    have := h.latest
    unfold reach at hmax
    split at hmax <;> omega
  · have hle : n ≤ u64Max := by
      have := h.ok.highest_lt
      omega
    have hok' := write_ok h.ok hle hw
    refine ⟨w', rfl, ?_⟩
    rcases write_cases hw with ⟨hjump, -⟩ | ⟨hnext, -, rfl⟩ | ⟨hbelow, rfl⟩
    · omega
    · refine ⟨hok', ?_, ?_, h.gaps, fun m hm hgt => ?_, fun m hm hm' => ?_, fun m hm hm' hold => ?_⟩
      · have := h.latest
        simp only
        omega
      · simp only
        omega
      · simp only at hgt
        exact h.inside m hm (by omega)
      · rcases Nat.lt_succ_iff_lt_or_eq.mp hm' with hbefore | rfl
        · have := h.below m hm hbefore
          simp only
          omega
        · exact hreach
      · exact h.cleared m hm (by omega) hold
    · refine ⟨hok', h.latest, hfrontier, fun m hm => h.gaps hm.1, h.inside, fun m hm hm' => ?_,
        fun m hm hm' hold hgap => ?_⟩
      · rcases Nat.lt_succ_iff_lt_or_eq.mp hm' with hbefore | rfl
        · exact h.below m hm hbefore
        · exact hbelow
      · rcases Nat.lt_succ_iff_lt_or_eq.mp hm' with hbefore | rfl
        · exact h.cleared m hm hbefore hold hgap.1
        · exact hgap.2 rfl

lemma SweepOnce.write (h : w.SweepOnce seed G old top n) (htop : top < u64Max) (hn : n ∈ G) :
    ∃ w', w.write n = some w' ∧ w'.SweepOnce seed G old top (n + 1) := by
  obtain ⟨w', hw, hsweep⟩ := h.sweep.write htop hn
  refine ⟨w', hw, hsweep, fun m hm hle hold => ?_, fun m hm hold => ?_⟩
  · have hahead := h.ahead m hm (by omega) hold
    rcases write_cases hw with ⟨-, rfl⟩ | ⟨hnext, -, rfl⟩ | ⟨-, rfl⟩
    · exact hahead
    · -- the walk may have passed the latest number, and there is nothing on record above it
      have hlast := h.sweep.inside m hm hahead
      have := h.sweep.latest
      simp only [reach]
      split <;> omega
    · exact hahead
  · have hkept := h.kept m hm hold
    rcases write_cases hw with ⟨-, rfl⟩ | ⟨-, -, rfl⟩ | ⟨hbelow, rfl⟩
    · exact Or.inl hkept
    · exact hkept
    · -- a number above the old frontier is not met again
      refine ⟨hkept, fun heq => ?_⟩
      obtain rfl : m = n := heq
      have := h.ahead m hm le_rfl hold
      omega

/-- A sweep over all the numbers brings the frontier to the latest one. -/
lemma Sweep.finished (h : w.Sweep seed G old top p) (hall : ∀ m ∈ G, m < p) :
    w.highest = w.latest := by
  by_contra hne
  have hle := h.ok.highest_le
  have hadj := h.ok.latest_ne
  have hgap : w.highest + 1 ∈ w.gaps := (h.ok.above (Nat.lt_succ_self _)).mpr (by omega)
  have := h.below _ (h.gaps hgap) (hall _ (h.gaps hgap))
  omega

/-- When the frontier is at the latest number, nothing above it is on record. -/
lemma Ok.gaps_le (h : w.Ok seed) (heq : w.highest = w.latest) {m : ℕ} (hm : m ∈ w.gaps) :
    m ≤ w.highest := by
  by_contra hgt
  have := (h.above (not_le.mp hgt)).mp hm
  omega

/-- Of what was on record, a sweep in which no number is met twice leaves what was above the
frontier. -/
lemma SweepOnce.gaps_eq (h : w.SweepOnce seed G old top p) (hall : ∀ m ∈ G, m < p) :
    w.gaps = {m | m ∈ G ∧ old < m} := by
  ext m
  refine ⟨fun hm => ⟨h.sweep.gaps hm, not_le.mp fun hle => ?_⟩, fun hm => h.kept m hm.1 hm.2⟩
  exact h.sweep.cleared m (h.sweep.gaps hm) (hall m (h.sweep.gaps hm)) hle hm

end Marks

/-! ### A stream -/

/-- Conditions on the marks, one for each number, that a walk over the numbers `G` in ascending
order goes through. -/
def March (G : Set ℕ) (P : ℕ → Marks → Prop) : Prop :=
  ∀ {n w}, n ∈ G → P n w → ∃ w', w.write n = some w' ∧ P (n + 1) w'

/-- The walk may pass over numbers that are not in `G`. -/
def Skips (G : Set ℕ) (P : ℕ → Marks → Prop) : Prop :=
  ∀ {p q w}, p ≤ q → (∀ m ∈ G, m < q → m < p) → P p w → P q w

lemma march_sweep {seed old top : ℕ} {G : Set ℕ} (htop : top < u64Max) :
    March G (Marks.Sweep seed G old top) :=
  fun hn h => h.write htop hn

lemma march_sweepOnce {seed old top : ℕ} {G : Set ℕ} (htop : top < u64Max) :
    March G (Marks.SweepOnce seed G old top) :=
  fun hn h => h.write htop hn

/-- The store is in order, and the walk has come to `p`. -/
structure Store.At (cfg : Config) (P : ℕ → Marks → Prop) (p : ℕ) (s : Store) : Prop where
  good : s.Good cfg
  marks : P p (s.marks cfg)

/-- The blocks among the messages are those of `k` numbers from `start` on, in order. -/
def CarriesRange (start k : ℕ) (messages : List PeerMessage) : Prop :=
  (messages.filterMap PeerMessage.block?).map getBlockNumber = (List.range' start k).map some

/-- A stream from a peer that has the range: the blocks in order, and all of them unless it breaks
off with an error. -/
def Delivers (start last : ℕ) (messages : List PeerMessage) : Prop :=
  ∃ k, CarriesRange start k messages ∧ start + k ≤ last + 1 ∧
    (.error ∉ messages → start + k = last + 1)

variable {cfg : Config} {codec : Codec} {s : Store} {start last : ℕ} {G : Set ℕ}
  {P : ℕ → Marks → Prop}

/-- On a store in order a block is refused only if the walk runs past the last `u64`. -/
lemma writeBlock_ne_err (hg : s.Good cfg) (hsize : 1 ≤ cfg.archiveBatchSize) {block : Block} {n : ℕ}
    (hn : getBlockNumber block = some n) (hw : (s.marks cfg).write n ≠ none) :
    (writeBlock cfg codec block s.db).2 ≠ .err := by
  have hend : ¬ s.AtEnd cfg n := fun hend =>
    hw (Marks.write_eq_none.mpr ((Store.overflows_iff hg).mpr hend))
  obtain ⟨⟨batch, wasGapFill⟩, hrun⟩ :=
    Option.ne_none_iff_exists'.mp (mt (prepareBatch_eq_none_iff hg codec block n).mp hend)
  simp only [writeBlock, hn, hrun, notifyAfterWrite]
  split
  · rw [if_neg (by omega)]
    exact WriteResult.noConfusion
  · exact WriteResult.noConfusion

/-- One block of a walk. -/
lemma Store.At.write (hP : March G P) (codec : Codec) {block : Block} {n : ℕ}
    (hn : getBlockNumber block = some n) (hG : n ∈ G) (h : s.At cfg P n) :
    (s.marks cfg).write n ≠ none ∧ (s.write cfg codec block).At cfg P (n + 1) := by
  obtain ⟨w', hw, hnext⟩ := hP hG h.marks
  have hrefines := Store.write_refines h.good codec hn
  rw [hw] at hrefines
  exact ⟨by rw [hw]; exact Option.some_ne_none _, hrefines.1, hrefines.2 ▸ hnext⟩

/-- How far a stream takes a walk: to its end, if it comes to its end. -/
lemma receiveBlocks_marches (hP : March G P) (codec : Codec) {messages : List PeerMessage} {k : ℕ}
    (hmessages : CarriesRange start k messages) (hG : ∀ m, start ≤ m → m < start + k → m ∈ G)
    (h : s.At cfg P start) :
    (∃ j, (receiveBlocks cfg codec s messages).1.At cfg P (start + j) ∧
      ((receiveBlocks cfg codec s messages).2 = true → j = k ∧ .error ∉ messages)) ∧
    (1 ≤ cfg.archiveBatchSize → .error ∉ messages →
      (receiveBlocks cfg codec s messages).2 = true) := by
  induction messages generalizing start k s with
  | nil =>
    have hk : k = 0 := by simpa [CarriesRange] using hmessages.symm
    exact ⟨⟨0, h, fun _ => ⟨hk.symm, by simp⟩⟩, fun _ _ => rfl⟩
  | cons m messages ih =>
    rcases m with (_ | items | code) | _
    · simpa [receiveBlocks] using ih hmessages hG h
    · -- a block: its number is the first of the range
      rcases k with _ | k
      · simp [CarriesRange, PeerMessage.block?] at hmessages
      · have hcons : getBlockNumber ⟨items⟩ = some start ∧ CarriesRange (start + 1) k messages := by
          simpa [CarriesRange, PeerMessage.block?, List.range'_succ] using hmessages
        obtain ⟨hw, hnext⟩ := h.write hP codec hcons.1 (hG start le_rfl (by omega))
        obtain ⟨⟨j, hj, hdone⟩, hgoes⟩ := ih hcons.2 (fun m hle hlt => hG m (by omega) (by omega))
          hnext
        simp only [receiveBlocks]
        rcases hresult : (writeBlock cfg codec ⟨items⟩ s.db).2 with notified | _
        · rw [Nat.add_assoc, Nat.add_comm 1] at hj
          refine ⟨⟨j + 1, hj, fun hok => ?_⟩, fun hsize hne => hgoes hsize (by simpa using hne)⟩
          obtain ⟨rfl, hne⟩ := hdone hok
          exact ⟨rfl, by simpa using hne⟩
        · exact ⟨⟨1, hnext, fun hok => (by cases hok)⟩, fun hsize _ =>
            absurd hresult (writeBlock_ne_err h.good hsize hcons.1 hw)⟩
    · simpa [receiveBlocks] using ih hmessages hG h
    · exact ⟨⟨0, h, fun hok => (by cases hok)⟩, fun _ hne => absurd List.mem_cons_self hne⟩

/-! ### A peer that has the gap -/

namespace GapTurn

/-- What is streamed in the turn are blocks of the range. -/
def Delivers (start last : ℕ) : GapTurn → Prop
  | .status _ (.answers peer) =>
    ∀ messages, peer start last = some messages → RockNode.Delivers start last messages
  | _ => True

/-- A stream of the turn does not break off. -/
def Unbroken (start last : ℕ) : GapTurn → Prop
  | .status _ (.answers peer) => ∀ messages, peer start last = some messages → .error ∉ messages
  | _ => True

/-- The turn does not send the worker to the next peer. -/
def Holds (start last : ℕ) : GapTurn → Prop
  | .noConnection => True
  | .noStatus => False
  | .status response _ =>
    response.firstAvailableBlock ≤ start ∧ last ≤ response.lastAvailableBlock

/-- The peer has the range and streams it without an error. -/
def Serves (start last : ℕ) : GapTurn → Prop
  | .status response (.answers peer) =>
    (response.firstAvailableBlock ≤ start ∧ last ≤ response.lastAvailableBlock) ∧
      ∃ messages, peer start last = some messages ∧ .error ∉ messages
  | _ => False

end GapTurn

/-- One of the first `k` turns serves the range, and until then the worker stays with the peer. -/
def ServesWithin (start last : ℕ) : ℕ → List GapTurn → Prop
  | k + 1, turn :: turns =>
    turn.Serves start last ∨ turn.Holds start last ∧ ServesWithin start last k turns
  | _, _ => False

/-- The peers as they are met: each of them streams blocks of the range or nothing, and one serves
the range before the worker gives it up. -/
structure VisitsServe (start last : ℕ) (visits : List (List GapTurn)) : Prop where
  delivers : ∀ turns ∈ visits, ∀ turn ∈ turns, turn.Delivers start last
  turns : ∀ turns ∈ visits, peerRetryLimit < turns.length
  served : ∃ turns ∈ visits, ServesWithin start last (peerRetryLimit + 1) turns

/-- A walk can be taken up again at any number that it has passed. -/
def Resumable (P : ℕ → Marks → Prop) : Prop := ∀ {p q w}, p ≤ q → P q w → P p w

lemma resumable_sweep {seed old top : ℕ} : Resumable (Marks.Sweep seed G old top) :=
  fun hpq h => h.mono hpq

/-- What one turn does to a walk. After a stream that breaks off the walk begins again. -/
lemma takeGapTurn_marches (hP : March G P) (codec : Codec) (hsize : 1 ≤ cfg.archiveBatchSize)
    {turn : GapTurn} (hturn : turn.Delivers start last)
    (hagain : Resumable P ∨ turn.Unbroken start last)
    (hG : ∀ m, start ≤ m → m ≤ last → m ∈ G) (h : s.At cfg P start) :
    (takeGapTurn cfg codec start last s turn).Keeps (Store.At cfg P start)
      (Store.At cfg P (last + 1)) (fun _ => True) ∧
    (turn.Serves start last → (takeGapTurn cfg codec start last s turn).ending = .ended) := by
  rcases turn with _ | _ | ⟨response, _ | peer⟩
  · exact ⟨⟨fun _ => h, fun hend => (by cases hend), fun _ _ => trivial⟩, False.elim⟩
  · exact ⟨⟨fun _ => h, fun hend => (by cases hend), fun _ _ => trivial⟩, False.elim⟩
  · simp only [takeGapTurn]
    split <;> exact ⟨⟨fun _ => h, fun hend => (by cases hend), fun _ _ => trivial⟩, False.elim⟩
  · simp only [takeGapTurn]
    split
    · next hrange =>
      refine ⟨⟨fun _ => h, fun hend => (by cases hend), fun _ _ => trivial⟩, fun hserves => ?_⟩
      obtain ⟨⟨hfirst, hlast⟩, -⟩ := hserves
      omega
    · rcases hpeer : peer start last with _ | messages
      · simp only [streamFromPeer, hpeer, Bool.false_eq_true, if_false]
        refine ⟨⟨fun _ => h, fun hend => (by cases hend), fun _ _ => trivial⟩, fun hserves => ?_⟩
        obtain ⟨-, messages, hsome, -⟩ := hserves
        cases hpeer.symm.trans hsome
      · obtain ⟨k, hcarries, hle, hall⟩ := hturn messages hpeer
        obtain ⟨⟨j, hj, hdone⟩, hgoes⟩ := receiveBlocks_marches hP codec hcarries
          (fun m hm hlt => hG m hm (by omega)) h
        simp only [streamFromPeer, hpeer]
        rcases hresult : (receiveBlocks cfg codec s messages).2 with _ | _
        · refine ⟨⟨fun _ => ⟨hj.good, ?_⟩, fun hend => (by cases hend), fun _ _ => trivial⟩,
            fun hserves => ?_⟩
          · rcases hagain with hagain | hunbroken
            · exact hagain (Nat.le_add_right _ _) hj.marks
            · exact absurd (hgoes hsize (hunbroken messages hpeer)) (by rw [hresult]; simp)
          · obtain ⟨-, _, hsome, hne⟩ := hserves
            cases hpeer.symm.trans hsome
            exact absurd (hgoes hsize hne) (by rw [hresult]; simp)
        · obtain ⟨rfl, hne⟩ := hdone hresult
          rw [hall hne] at hj
          exact ⟨⟨fun hend => absurd rfl hend, fun _ => hj, fun _ _ => trivial⟩, fun _ => rfl⟩

section Served

variable {I D : Store → Prop} {Q : GapRequest → Prop}

lemma takeGapTurn_holds {turn : GapTurn} (hturn : turn.Holds start last) (s : Store) :
    (takeGapTurn cfg codec start last s turn).ending ≠ .nextPeer := by
  rcases turn with _ | _ | ⟨response, answer⟩
  · exact TurnEnd.noConfusion
  · exact hturn.elim
  · obtain ⟨hfirst, hlast⟩ := hturn
    simp only [takeGapTurn]
    rw [if_neg (by omega)]
    rcases answer with _ | peer
    · exact TurnEnd.noConfusion
    · simp only
      split <;> exact TurnEnd.noConfusion

lemma fillFromPeer_served {turns : List GapTurn} {k retries : ℕ}
    (hturn : ∀ s, ∀ turn ∈ turns, I s → (takeGapTurn cfg codec start last s turn).Keeps I D Q ∧
      (turn.Serves start last → (takeGapTurn cfg codec start last s turn).ending = .ended))
    (hk : k + retries ≤ peerRetryLimit + 1) (hserves : ServesWithin start last k turns) (hs : I s) :
    (fillFromPeer cfg codec start last retries turns s).ending = .ended := by
  induction turns generalizing k retries s with
  | nil => cases k <;> exact hserves.elim
  | cons turn turns ih =>
    rcases k with _ | k
    · exact hserves.elim
    · obtain ⟨hkeeps, hended⟩ := hturn s turn List.mem_cons_self hs
      simp only [fillFromPeer]
      rcases hserves with hserves | ⟨hholds, hlater⟩
      · simp only [hended hserves]
      · split
        · next hfailed =>
          have hkept := hkeeps.store (by rw [hfailed]; exact TurnEnd.noConfusion)
          split
          · -- the last of the turns has been taken
            obtain rfl : k = 0 := by omega
            cases turns <;> exact hlater.elim
          · exact ih (fun s turn hmem => hturn s turn (List.mem_cons_of_mem _ hmem)) (by omega)
              hlater hkept
        · next hfailed =>
          exact ((takeGapTurn_ending s turn).resolve_left hfailed).resolve_left
            (takeGapTurn_holds hholds s)

lemma fillFromPeers_served {visits : List (List GapTurn)}
    (hturn : ∀ turns ∈ visits, ∀ s, ∀ turn ∈ turns, I s →
      (takeGapTurn cfg codec start last s turn).Keeps I D Q ∧
        (turn.Serves start last → (takeGapTurn cfg codec start last s turn).ending = .ended))
    (hturns : ∀ turns ∈ visits, peerRetryLimit < turns.length)
    (hserved : ∃ turns ∈ visits, ServesWithin start last (peerRetryLimit + 1) turns) (hs : I s) :
    (fillFromPeers cfg codec start last visits s).ending = .ended := by
  induction visits generalizing s with
  | nil =>
    obtain ⟨turns, hmem, -⟩ := hserved
    cases hmem
  | cons turns visits ih =>
    have hfirst := hturn turns List.mem_cons_self
    simp only [fillFromPeers]
    split
    · next hnext =>
      -- this peer has been given up, so it is another one that serves
      have hkept := (fillFromPeer_keeps (fun s turn hmem h => (hfirst s turn hmem h).1) 0 hs).store
        (by rw [hnext]; exact TurnEnd.noConfusion)
      obtain ⟨other, hmem, hserves⟩ := hserved
      rcases List.mem_cons.mp hmem with rfl | hmem
      · cases hnext.symm.trans (fillFromPeer_served hfirst le_rfl hserves hs)
      · exact ih (fun turns hmem => hturn turns (List.mem_cons_of_mem _ hmem))
          (fun turns hmem => hturns turns (List.mem_cons_of_mem _ hmem))
          ⟨other, hmem, hserves⟩ hkept
    · next hnext =>
      exact (fillFromPeer_ends turns (hturns turns List.mem_cons_self) (Nat.zero_le _)
        s).resolve_left hnext

end Served

/-! ### A check -/

/-- The table can be read, and each recorded gap is served. -/
structure GapCheck.Served (check : GapCheck) (db : Db) : Prop where
  reads : check.readFails = false
  visits : ∀ gap ∈ getAllGaps db, VisitsServe gap.1 gap.2 (check.visits gap)

/-- No stream of the check breaks off. -/
def GapCheck.Unbroken (check : GapCheck) (db : Db) : Prop :=
  ∀ gap ∈ getAllGaps db, ∀ turns ∈ check.visits gap, ∀ turn ∈ turns, turn.Unbroken gap.1 gap.2

/-- The gaps that lie ahead of a walk over `G` that has come to `p`. -/
structure GapsAhead (cfg : Config) (G : Set ℕ) (p : ℕ) (gaps : List (ℕ × ℕ)) : Prop where
  apart : gaps.Pairwise fun x y => x.2 < y.1
  nonempty : ∀ gap ∈ gaps, gap.1 ≤ gap.2
  start : ∀ gap ∈ gaps, cfg.startBlockNumber ≤ gap.1
  ahead : ∀ gap ∈ gaps, p ≤ gap.1
  covers : ∀ m, p ≤ m → (m ∈ G ↔ ∃ gap ∈ gaps, gap.1 ≤ m ∧ m ≤ gap.2)

lemma GapsAhead.none_before {gap : ℕ × ℕ} {gaps : List (ℕ × ℕ)} {p : ℕ}
    (h : GapsAhead cfg G p (gap :: gaps)) : ∀ m ∈ G, m < gap.1 → m < p := by
  intro m hm hlt
  by_contra hge
  obtain ⟨other, hmem, hle, -⟩ := (h.covers m (not_lt.mp hge)).mp hm
  rcases List.mem_cons.mp hmem with rfl | hmem
  · omega
  · have := List.rel_of_pairwise_cons h.apart hmem
    have := h.nonempty gap List.mem_cons_self
    omega

lemma GapsAhead.tail {gap : ℕ × ℕ} {gaps : List (ℕ × ℕ)} {p : ℕ}
    (h : GapsAhead cfg G p (gap :: gaps)) : GapsAhead cfg G (gap.2 + 1) gaps where
  apart := h.apart.tail
  nonempty other hmem := h.nonempty other (List.mem_cons_of_mem _ hmem)
  start other hmem := h.start other (List.mem_cons_of_mem _ hmem)
  ahead other hmem := List.rel_of_pairwise_cons h.apart hmem
  covers m hm := by
    have hle := h.nonempty gap List.mem_cons_self
    have hp := h.ahead gap List.mem_cons_self
    rw [h.covers m (by omega)]
    constructor
    · rintro ⟨other, hmem, hin⟩
      rcases List.mem_cons.mp hmem with rfl | hmem
      · omega
      · exact ⟨other, hmem, hin⟩
    · rintro ⟨other, hmem, hin⟩
      exact ⟨other, List.mem_cons_of_mem _ hmem, hin⟩

/-- **A walk over the recorded gaps**, each of them served, passes all their numbers. -/
lemma fillGaps_marches (hP : March G P) (hskip : Skips G P) (hsize : 1 ≤ cfg.archiveBatchSize)
    {visits : ℕ × ℕ → List (List GapTurn)} {gaps : List (ℕ × ℕ)} {p : ℕ}
    (hahead : GapsAhead cfg G p gaps)
    (hserved : ∀ gap ∈ gaps, VisitsServe gap.1 gap.2 (visits gap))
    (hagain : Resumable P ∨ ∀ gap ∈ gaps, ∀ turns ∈ visits gap, ∀ turn ∈ turns,
      turn.Unbroken gap.1 gap.2) (h : s.At cfg P p) :
    ∃ q, (fillGaps cfg codec visits gaps s).store.At cfg P q ∧ ∀ m ∈ G, m < q := by
  induction gaps generalizing p s with
  | nil =>
    refine ⟨p, h, fun m hm => not_le.mp fun hle => ?_⟩
    obtain ⟨gap, hmem, -⟩ := (hahead.covers m hle).mp hm
    cases hmem
  | cons gap gaps ih =>
    have hvisits := hserved gap List.mem_cons_self
    have hnonempty := hahead.nonempty gap List.mem_cons_self
    have hstart := hahead.start gap List.mem_cons_self
    have hp := hahead.ahead gap List.mem_cons_self
    have hbegin : s.At cfg P gap.1 := ⟨h.good, hskip hp hahead.none_before h.marks⟩
    have hG : ∀ m, gap.1 ≤ m → m ≤ gap.2 → m ∈ G := fun m hle hge =>
      (hahead.covers m (by omega)).mpr ⟨gap, List.mem_cons_self, hle, hge⟩
    have hturn := fun turns (hturns : turns ∈ visits gap) (s : Store) turn (hmem : turn ∈ turns)
        (hs : s.At cfg P gap.1) => takeGapTurn_marches hP codec hsize
      (hvisits.delivers turns hturns turn hmem)
      (hagain.imp id fun hunbroken => hunbroken gap List.mem_cons_self turns hturns turn hmem) hG hs
    have hended := fillFromPeers_served hturn hvisits.turns hvisits.served hbegin
    have hdone := (fillFromPeers_keeps (fun turns hturns s turn hmem hs =>
      (hturn turns hturns s turn hmem hs).1) hbegin).ended hended
    simp only [fillGaps, max_eq_left hstart]
    rw [if_neg (by omega), hended]
    exact ih hahead.tail (fun other hmem => hserved other (List.mem_cons_of_mem _ hmem))
      (hagain.imp id fun hunbroken other hmem => hunbroken other (List.mem_cons_of_mem _ hmem))
      hdone

/-- The gaps of a store in order lie ahead of a walk that is to begin. -/
lemma Store.Good.gapsAhead (hg : s.Good cfg) :
    GapsAhead cfg (s.marks cfg).gaps 0 (getAllGaps s.db) where
  apart := s.db.gaps.sorted.imp_of_mem fun hx hy hlt => by
    have := hg.canonical.apart (SortedMap.get_eq_some.mpr hx) (SortedMap.get_eq_some.mpr hy) hlt
    omega
  nonempty gap hmem := hg.canonical.nonempty (SortedMap.get_eq_some.mpr hmem)
  start gap hmem := hg.start_le (SortedMap.get_eq_some.mpr hmem)
  ahead gap _ := Nat.zero_le _
  covers m _ := by
    constructor
    · rintro ⟨a, b, hget, hin⟩
      exact ⟨(a, b), SortedMap.get_eq_some.mp hget, hin⟩
    · rintro ⟨⟨a, b⟩, hmem, hin⟩
      exact ⟨a, b, SortedMap.get_eq_some.mpr hmem, hin⟩

lemma runSingleGapCheck_marches (codec : Codec) {check : GapCheck} (hg : s.Good cfg)
    (hP : March (s.marks cfg).gaps P) (hskip : Skips (s.marks cfg).gaps P)
    (hsize : 1 ≤ cfg.archiveBatchSize) (hserved : check.Served s.db)
    (hagain : Resumable P ∨ check.Unbroken s.db) (h : P 0 (s.marks cfg)) :
    ∃ q, (runSingleGapCheck cfg codec check s).store.At cfg P q ∧
      ∀ m ∈ (s.marks cfg).gaps, m < q := by
  simp only [runSingleGapCheck, hserved.reads, Bool.false_eq_true, if_false]
  exact fillGaps_marches hP hskip hsize hg.gapsAhead hserved.visits hagain ⟨hg, h⟩

/-! ### What the checks come to -/

/-- The blocks that arrive between two checks: each is the next one, or one that is there. -/
def InStep (cfg : Config) (codec : Codec) : Store → List Block → Prop
  | _, [] => True
  | s, block :: blocks =>
    (∀ n, getBlockNumber block = some n → n ≤ latestOrSeed cfg s.db + 1) ∧
      InStep cfg codec (s.write cfg codec block) blocks

/-- There is nothing missing up to the latest block. -/
def Store.CaughtUp (cfg : Config) (s : Store) : Prop :=
  highestContiguous s.db = latestOrSeed cfg s.db

instance Store.CaughtUp.decidable (cfg : Config) (s : Store) : Decidable (s.CaughtUp cfg) :=
  inferInstanceAs (Decidable (_ = _))

lemma Store.CaughtUp.write (hg : s.Good cfg) (h : s.CaughtUp cfg) {block : Block}
    (hstep : ∀ n, getBlockNumber block = some n → n ≤ latestOrSeed cfg s.db + 1) :
    (s.write cfg codec block).CaughtUp cfg := by
  have hmarks : (s.marks cfg).highest = (s.marks cfg).latest := h
  rcases Store.write_marks hg codec block with hsame | ⟨n, hn, hw⟩
  · rw [hsame]
    exact h
  · have hle : n ≤ (s.marks cfg).latest + 1 := hstep n hn
    change ((s.write cfg codec block).marks cfg).highest =
      ((s.write cfg codec block).marks cfg).latest
    rcases Marks.write_cases hw with ⟨hjump, -⟩ | ⟨hnext, -, heq⟩ | ⟨-, heq⟩
    · omega
    · rw [heq]
      simp only [Marks.reach]
      rw [if_neg (by omega)]
      omega
    · rw [heq]
      exact hmarks

lemma Store.CaughtUp.writes {blocks : List Block} (hg : s.Good cfg) (h : s.CaughtUp cfg)
    (hstep : InStep cfg codec s blocks) :
    (s.writes cfg codec blocks).Good cfg ∧ (s.writes cfg codec blocks).CaughtUp cfg := by
  induction blocks generalizing s with
  | nil => exact ⟨hg, h⟩
  | cons block blocks ih =>
    exact ih (Store.write_good hg codec block) (h.write hg hstep.1) hstep.2

lemma Store.CaughtUp.committed (hg : s.Good cfg) (h : s.CaughtUp cfg) {n : ℕ} (hseed : cfg.seed < n)
    (hn : n ≤ latestOrSeed cfg s.db) : s.Committed n :=
  hg.ok.sound hseed (hn.trans_eq h.symm)

/-- A check at which each gap is served brings the frontier to the latest block. Nothing is added
to the table, and what was in it up to the old frontier is gone. -/
lemma runSingleGapCheck_catchesUp (codec : Codec) {check : GapCheck} (hg : s.Good cfg)
    (hsize : 1 ≤ cfg.archiveBatchSize) (hmax : latestOrSeed cfg s.db < u64Max)
    (hserved : check.Served s.db) :
    let s' := (runSingleGapCheck cfg codec check s).store
    s'.Good cfg ∧ s'.CaughtUp cfg ∧ latestOrSeed cfg s'.db = latestOrSeed cfg s.db ∧
      ∀ n, Covers s'.db.gaps n → Covers s.db.gaps n ∧ highestContiguous s.db < n := by
  intro s'
  obtain ⟨q, hat, hall⟩ := runSingleGapCheck_marches codec hg (march_sweep hmax)
    (fun _ hnone h => h.skip hnone) hsize hserved (Or.inl resumable_sweep) (.start hg.ok)
  refine ⟨hat.good, hat.marks.finished hall, hat.marks.latest, fun n hn => ?_⟩
  have hold : n ∈ (s.marks cfg).gaps := hat.marks.gaps hn
  exact ⟨hold, not_le.mp fun hle => hat.marks.cleared n hold (hall n hold) hle hn⟩

lemma rangePeer_delivers {start last : ℕ} (hle : start ≤ last) (hlast : last < 2 ^ 64) :
    ∃ messages, rangePeer start last = some messages ∧ .error ∉ messages ∧
      Delivers start last messages := by
  refine ⟨_, rfl, by simp, last + 1 - start, ?_, by omega, fun _ => by omega⟩
  unfold CarriesRange
  rw [List.filterMap_map, List.map_filterMap, ← List.filterMap_eq_map]
  refine List.filterMap_congr fun n hn => ?_
  obtain ⟨-, hlt⟩ := List.mem_range'_1.mp hn
  exact congrArg some (plainBlock_number (by omega))

lemma rangeCheck_served {db : Db} (h : ∀ gap ∈ getAllGaps db, gap.1 ≤ gap.2 ∧ gap.2 ≤ 9) :
    rangeCheck.Served db ∧ rangeCheck.Unbroken db := by
  have hturn : ∀ gap ∈ getAllGaps db, ∀ turns ∈ rangeCheck.visits gap, ∀ turn ∈ turns,
      turn = .status ⟨0, 9, false⟩ (.answers rangePeer) := fun gap _ turns hturns turn hmem =>
    List.eq_of_mem_replicate (List.mem_singleton.mp hturns ▸ hmem)
  have hpeer := fun gap hgap => rangePeer_delivers (h gap hgap).1 (by have := (h gap hgap).2; omega)
  refine ⟨⟨rfl, fun gap hgap => ⟨fun turns hturns turn hmem => ?_, fun turns hturns => ?_, ?_⟩⟩,
    fun gap hgap turns hturns turn hmem => ?_⟩
  · rw [hturn gap hgap turns hturns turn hmem]
    obtain ⟨messages, hsome, -, hdelivers⟩ := hpeer gap hgap
    exact fun other hother => Option.some.inj (hsome.symm.trans hother) ▸ hdelivers
  · rw [List.mem_singleton.mp hturns]
    decide
  · obtain ⟨messages, hsome, hne, -⟩ := hpeer gap hgap
    exact ⟨_, List.mem_singleton.mpr rfl, Or.inl ⟨⟨Nat.zero_le _, (h gap hgap).2⟩, messages, hsome,
      hne⟩⟩
  · rw [hturn gap hgap turns hturns turn hmem]
    obtain ⟨messages, hsome, hne, -⟩ := hpeer gap hgap
    exact fun other hother => Option.some.inj (hsome.symm.trans hother) ▸ hne

end RockNode
