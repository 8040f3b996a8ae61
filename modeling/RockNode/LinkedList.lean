import Mathlib.Tactic

/-!
Lists that are linked through a table.

A node is found under its key, which may fail, and names the key of the next one. The walk
follows the links for a bounded number of nodes, whatever the links are like; it records the keys
that it has looked up.
-/

namespace RockNode

namespace LinkedList

variable {κ ν ε : Type} (find : κ → Except ε ν) (link : ν → Option κ)

/-- The walk over at most so many nodes: the keys it looks up and what it returns. -/
def walk : ℕ → Option κ → List κ × Except ε (List ν)
  | 0, _ | _, none => ([], .ok [])
  | k + 1, some key =>
    match find key with
    | .error e => ([key], .error e)
    | .ok node => (key :: (walk k (link node)).1, (walk k (link node)).2.map (node :: ·))

/-- The nodes are linked, one after the other, from the first key to the last one. -/
inductive Segment : Option κ → List ν → Option κ → Prop
  | nil (key : Option κ) : Segment key [] key
  | cons {key : κ} {node : ν} {nodes : List ν} {last : Option κ} (hfind : find key = .ok node)
      (hrest : Segment (link node) nodes last) : Segment (some key) (node :: nodes) last

variable {find link}

@[simp] lemma walk_zero (key : Option κ) : walk find link 0 key = ([], .ok []) := rfl

@[simp] lemma walk_none (k : ℕ) : walk find link k none = ([], .ok []) := by
  cases k <;> rfl

lemma walk_error {key : κ} {e : ε} (h : find key = .error e) (k : ℕ) :
    walk find link (k + 1) (some key) = ([key], .error e) := by
  simp only [walk, h]

lemma walk_ok {key : κ} {node : ν} (h : find key = .ok node) (k : ℕ) :
    walk find link (k + 1) (some key) =
      (key :: (walk find link k (link node)).1,
        (walk find link k (link node)).2.map (node :: ·)) := by
  simp only [walk, h]

/-- The bound holds for the lookups too. -/
theorem walk_length_le (k : ℕ) (key : Option κ) : (walk find link k key).1.length ≤ k := by
  induction k generalizing key with
  | zero => simp
  | succ k ih =>
    rcases key with _ | key
    · simp
    · rcases h : find key with e | node
      · simp [walk_error h]
      · simpa [walk_ok h] using ih (link node)

/-- The keys it looks up are all that the walk depends on. -/
theorem walk_congr {find' : κ → Except ε ν} {k : ℕ} {key : Option κ}
    (h : ∀ j ∈ (walk find link k key).1, find' j = find j) :
    walk find' link k key = walk find link k key := by
  induction k generalizing key with
  | zero => rfl
  | succ k ih =>
    rcases key with _ | key
    · simp
    · rcases hfind : find key with e | node
      · rw [walk_error hfind] at h ⊢
        exact walk_error ((h key List.mem_cons_self).trans hfind) k
      · rw [walk_ok hfind] at h ⊢
        rw [walk_ok ((h key List.mem_cons_self).trans hfind),
          ih fun j hj => h j (List.mem_cons_of_mem _ hj)]

/-- Past a segment the walk goes on with what is left of its bound. -/
theorem Segment.walk {key last : Option κ} {nodes : List ν} (h : Segment find link key nodes last)
    (k : ℕ) : (walk find link (nodes.length + k) key).2 =
      (walk find link k last).2.map (nodes ++ ·) := by
  induction h with
  | nil key =>
    simp only [List.length_nil, Nat.zero_add, List.nil_append]
    rcases (LinkedList.walk find link k key).2 with e | rest <;> rfl
  | @cons key node nodes last hfind hrest ih =>
    have hlen : (node :: nodes).length + k = nodes.length + k + 1 := by
      rw [List.length_cons]
      omega
    rw [hlen, walk_ok hfind, ih]
    rcases (LinkedList.walk find link k last).2 with e | rest <;> rfl

/-- The walk over a list that ends: its first nodes, as many as the bound allows. -/
theorem Segment.walk_take {key : Option κ} {nodes : List ν} (h : Segment find link key nodes none)
    (k : ℕ) : (LinkedList.walk find link k key).2 = .ok (nodes.take k) := by
  induction nodes generalizing key k with
  | nil =>
    cases h
    simp
  | cons node nodes ih =>
    cases h with
    | cons hfind hrest =>
      cases k with
      | zero => rfl
      | succ k =>
        rw [walk_ok hfind, ih hrest]
        rfl

/-- **A finished walk has left nothing out**: it has come to the end of the list or to its
bound. -/
theorem walk_eq_ok {k : ℕ} {key : Option κ} {nodes : List ν}
    (h : (walk find link k key).2 = .ok nodes) :
    ∃ last, Segment find link key nodes last ∧ (last = none ∨ nodes.length = k) := by
  induction k generalizing key nodes with
  | zero =>
    cases h
    exact ⟨key, .nil key, Or.inr rfl⟩
  | succ k ih =>
    rcases key with _ | key
    · cases h
      exact ⟨none, .nil none, Or.inl rfl⟩
    · rcases hfind : find key with e | node
      · rw [walk_error hfind] at h
        cases h
      · rw [walk_ok hfind] at h
        rcases hrest : (walk find link k (link node)).2 with e | rest
        · simp [hrest, Except.map] at h
        · simp only [hrest, Except.map, Except.ok.injEq] at h
          obtain ⟨last, hseg, hend⟩ := ih hrest
          subst h
          exact ⟨last, .cons hfind hseg, hend.imp_right fun h => by rw [List.length_cons, h]⟩

end LinkedList

end RockNode
