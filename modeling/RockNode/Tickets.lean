import Mathlib.Tactic

/-!
Tickets that are made once and passed on.

A counter makes tickets. Whoever makes one holds it until it is passed on; what has been passed
on is a list, in which tickets change places and from which they may disappear. No ticket is in
two places.
-/

namespace RockNode

variable {ι : Type}

lemma nodup_of_subperm {α : Type} {l l' : List α} (h : l.Subperm l') (hn : l'.Nodup) : l.Nodup := by
  obtain ⟨m, hperm, hsub⟩ := h
  exact hperm.nodup_iff.mp (hn.sublist hsub)

lemma subperm_map {α β : Type} (f : α → β) {l l' : List α} (h : l.Subperm l') :
    (l.map f).Subperm (l'.map f) := by
  obtain ⟨m, hperm, hsub⟩ := h
  exact ⟨m.map f, hperm.map f, hsub.map f⟩

/-- Tickets below `next` have been made; `holds i k` if `i` holds ticket `k`. -/
structure Tickets (next : ℕ) (holds : ι → ℕ → Prop) (passed : List ℕ) : Prop where
  nodup : passed.Nodup
  bound : ∀ k ∈ passed, k < next
  held : ∀ {i k}, holds i k → k < next ∧ k ∉ passed
  unique : ∀ {i j k}, holds i k → holds j k → i = j

namespace Tickets

variable {next : ℕ} {holds holds' : ι → ℕ → Prop} {passed passed' : List ℕ}

lemma none (hholds : ∀ {i k}, ¬ holds i k) : Tickets next holds [] where
  nodup := List.nodup_nil
  bound _ hk := absurd hk List.not_mem_nil
  held h := absurd h hholds
  unique h := absurd h hholds

/-- Tickets change places, or disappear. -/
lemma move (h : Tickets next holds passed) (hpassed : passed'.Subperm passed)
    (hholds : ∀ {i k}, holds' i k → holds i k) : Tickets next holds' passed' where
  nodup := nodup_of_subperm hpassed h.nodup
  bound k hk := h.bound k (hpassed.subset hk)
  held hi := ⟨(h.held (hholds hi)).1, fun hk => (h.held (hholds hi)).2 (hpassed.subset hk)⟩
  unique hi hj := h.unique (hholds hi) (hholds hj)

/-- `i` makes a ticket. -/
lemma make (h : Tickets next holds passed) {i : ι}
    (hholds : ∀ {j k}, holds' j k → (j = i ∧ k = next) ∨ (j ≠ i ∧ holds j k)) :
    Tickets (next + 1) holds' passed where
  nodup := h.nodup
  bound k hk := Nat.lt_succ_of_lt (h.bound k hk)
  held {j k} hj := by
    rcases hholds hj with ⟨-, rfl⟩ | ⟨-, hj⟩
    · exact ⟨Nat.lt_succ_self _, fun hk => lt_irrefl _ (h.bound _ hk)⟩
    · exact ⟨Nat.lt_succ_of_lt (h.held hj).1, (h.held hj).2⟩
  unique {j j' k} hj hj' := by
    rcases hholds hj with ⟨rfl, rfl⟩ | ⟨-, hj⟩ <;> rcases hholds hj' with ⟨rfl, heq⟩ | ⟨-, hj'⟩
    · rfl
    · exact absurd (h.held hj').1 (lt_irrefl _)
    · exact absurd (heq ▸ (h.held hj).1) (lt_irrefl _)
    · exact h.unique hj hj'

/-- `i` passes its ticket on. -/
lemma pass (h : Tickets next holds passed) {i : ι} {k : ℕ} (hi : holds i k)
    (hpassed : passed'.Perm (k :: passed))
    (hholds : ∀ {j k'}, holds' j k' → j ≠ i ∧ holds j k') : Tickets next holds' passed' where
  nodup := hpassed.nodup_iff.mpr (List.nodup_cons.mpr ⟨(h.held hi).2, h.nodup⟩)
  bound k' hk' := by
    rcases List.mem_cons.mp (hpassed.mem_iff.mp hk') with rfl | hk'
    · exact (h.held hi).1
    · exact h.bound k' hk'
  held {j k'} hj := by
    obtain ⟨hne, hj⟩ := hholds hj
    refine ⟨(h.held hj).1, fun hk' => ?_⟩
    rcases List.mem_cons.mp (hpassed.mem_iff.mp hk') with rfl | hk'
    · exact hne (h.unique hj hi)
    · exact (h.held hj).2 hk'
  unique hj hj' := h.unique (hholds hj).2 (hholds hj').2

end Tickets

end RockNode
