import Mathlib.Tactic

/-!
Calls that read a shared state step by step and then change it in one stroke.

A program is a tree of atomic reads that ends in a result or in a fault. Run alone, all its
reads see one state. Run beside a second program, some of its reads may see the state before
the other one has committed and the rest the state after it; `runSplit` says which.
-/

namespace RockNode

/-- A program over the shared state `σ`: one constructor per atomic read. -/
inductive Prog (σ α : Type) where
  | ret (a : α)
  | fault
  | read (k : σ → Prog σ α)

namespace Prog

variable {σ α β : Type}

def bind : Prog σ α → (α → Prog σ β) → Prog σ β
  | ret a, f => f a
  | fault, _ => fault
  | read k, f => read fun s => (k s).bind f

instance : Monad (Prog σ) where
  pure := ret
  bind := bind

/-- The program that reads `q` off the state. -/
def get (q : σ → α) : Prog σ α := read fun s => ret (q s)

/-- All reads see the state `s`; no result is a fault. -/
def run : Prog σ α → σ → Option α
  | ret a, _ => some a
  | fault, _ => none
  | read k, s => (k s).run s

/-- What is left of a program after (at most) `j` reads of the state `s`. -/
def afterReads : ℕ → σ → Prog σ α → Prog σ α
  | j + 1, s, read k => afterReads j s (k s)
  | _, _, p => p

/-- The first `j` reads see `s`, the others `s'`. -/
def runSplit (j : ℕ) (s s' : σ) (p : Prog σ α) : Option α := (afterReads j s p).run s'

@[simp] lemma run_ret (a : α) (s : σ) : (ret a).run s = some a := rfl
@[simp] lemma run_pure (a : α) (s : σ) : (pure a : Prog σ α).run s = some a := rfl
@[simp] lemma run_fault (s : σ) : (fault : Prog σ α).run s = none := rfl
@[simp] lemma run_read (k : σ → Prog σ α) (s : σ) : (read k).run s = (k s).run s := rfl
@[simp] lemma run_get (q : σ → α) (s : σ) : (get q).run s = some (q s) := rfl

@[simp] lemma run_bind (p : Prog σ α) (f : α → Prog σ β) (s : σ) :
    (p >>= f).run s = (p.run s).bind fun a => (f a).run s := by
  change (p.bind f).run s = _
  induction p with
  | ret a => rfl
  | fault => rfl
  | read k ih => exact ih s

@[simp] lemma runSplit_zero (s s' : σ) (p : Prog σ α) : runSplit 0 s s' p = p.run s' := by
  cases p <;> rfl

@[simp] lemma runSplit_ret (j : ℕ) (s s' : σ) (a : α) :
    runSplit j s s' (ret a) = some a := by
  cases j <;> rfl

@[simp] lemma runSplit_pure (j : ℕ) (s s' : σ) (a : α) :
    runSplit j s s' (pure a : Prog σ α) = some a :=
  runSplit_ret j s s' a

@[simp] lemma runSplit_fault (j : ℕ) (s s' : σ) :
    runSplit j s s' (fault : Prog σ α) = none := by
  cases j <;> rfl

@[simp] lemma runSplit_succ_read (j : ℕ) (s s' : σ) (k : σ → Prog σ α) :
    runSplit (j + 1) s s' (read k) = runSplit j s s' (k s) := rfl

/-- When the state has not changed there is nothing to tell the two halves apart. -/
lemma runSplit_same (j : ℕ) (s : σ) (p : Prog σ α) : runSplit j s s p = p.run s := by
  induction p generalizing j with
  | ret a => simp
  | fault => simp
  | read k ih =>
    cases j with
    | zero => simp
    | succ j => simp [ih]

/-- With enough early reads the whole program sees the old state. -/
lemma exists_runSplit_eq_run (s s' : σ) (p : Prog σ α) :
    ∃ j, runSplit j s s' p = p.run s := by
  induction p with
  | ret a => exact ⟨0, rfl⟩
  | fault => exact ⟨0, rfl⟩
  | read k ih =>
    obtain ⟨j, hj⟩ := ih s
    exact ⟨j + 1, hj⟩

/-- A program that begins with `p`: either `p` is done before the state changes, or all that
comes after it sees the new state. -/
lemma runSplit_bind_cases (j : ℕ) (s s' : σ) (p : Prog σ α) (f : α → Prog σ β) :
    (∃ a k, p.run s = some a ∧ runSplit j s s' (p >>= f) = runSplit k s s' (f a)) ∨
      ∃ k, runSplit j s s' (p >>= f) = (runSplit k s s' p).bind fun a => (f a).run s' := by
  induction p generalizing j with
  | ret a => exact Or.inl ⟨a, j, rfl, rfl⟩
  | fault => exact Or.inr ⟨0, runSplit_fault j s s'⟩
  | read g ih =>
    cases j with
    | zero => exact Or.inr ⟨0, by rw [runSplit_zero, runSplit_zero, run_bind]⟩
    | succ j =>
      rcases ih s j with ⟨a, k, h1, h2⟩ | ⟨k, h⟩
      · exact Or.inl ⟨a, k, h1, h2⟩
      · exact Or.inr ⟨k + 1, h⟩

/-- A read at the start sees the old state, or it and everything after it the new one. -/
lemma runSplit_get_cases (j : ℕ) (s s' : σ) (q : σ → α) (f : α → Prog σ β) :
    runSplit j s s' (get q >>= f) = (f (q s')).run s' ∨
      ∃ k, runSplit j s s' (get q >>= f) = runSplit k s s' (f (q s)) := by
  cases j with
  | zero => exact Or.inl (runSplit_zero s s' _)
  | succ j => exact Or.inr ⟨j, rfl⟩

/-- When the change does not show in the result of `p`, the rest decides. -/
lemma runSplit_bind_of_const {s s' : σ} {p : Prog σ α} {o : Option α}
    (h : ∀ k, runSplit k s s' p = o) (f : α → Prog σ β) (j : ℕ) :
    (o = none ∧ runSplit j s s' (p >>= f) = none) ∨
      ∃ a k, o = some a ∧ runSplit j s s' (p >>= f) = runSplit k s s' (f a) := by
  rcases runSplit_bind_cases j s s' p f with ⟨a, k, h1, h2⟩ | ⟨k, h1⟩
  · obtain ⟨i, hi⟩ := exists_runSplit_eq_run s s' p
    exact Or.inr ⟨a, k, by rw [← h i, hi, h1], h2⟩
  · rw [h k] at h1
    rcases o with _ | a
    · exact Or.inl ⟨rfl, h1⟩
    · exact Or.inr ⟨a, 0, rfl, by rw [h1, runSplit_zero]; rfl⟩

/-! ### What a program can end in -/

/-- Every result of the program satisfies `P`, whatever its reads see. -/
def Ensures (P : α → Prop) : Prog σ α → Prop
  | ret a => P a
  | fault => True
  | read k => ∀ s, (k s).Ensures P

lemma ensures_true (p : Prog σ α) : p.Ensures fun _ => True := by
  induction p with
  | ret a => trivial
  | fault => trivial
  | read k ih => exact ih

lemma Ensures.bind {P : α → Prop} {Q : β → Prop} {p : Prog σ α} {f : α → Prog σ β}
    (hp : p.Ensures P) (hf : ∀ a, P a → (f a).Ensures Q) : (p >>= f).Ensures Q := by
  induction p with
  | ret a => exact hf a hp
  | fault => trivial
  | read k ih => exact fun s => ih s (hp s)

lemma Ensures.of_run {P : α → Prop} {p : Prog σ α} (hp : p.Ensures P) {s : σ} {a : α}
    (h : p.run s = some a) : P a := by
  induction p with
  | ret b => cases h; exact hp
  | fault => cases h
  | read k ih => exact ih s (hp s) h

lemma Ensures.of_runSplit {P : α → Prop} {p : Prog σ α} (hp : p.Ensures P) {s s' : σ} {j : ℕ}
    {a : α} (h : runSplit j s s' p = some a) : P a := by
  induction p generalizing j with
  | ret b => rw [runSplit_ret] at h; cases h; exact hp
  | fault => rw [runSplit_fault] at h; cases h
  | read k ih =>
    cases j with
    | zero => rw [runSplit_zero] at h; exact hp.of_run h
    | succ j => exact ih s (hp s) h

/-! ### Reads that fail -/

/-- The first reads see these states, one each; a read that is not given a state fails, and the
program with it. All others see `s`. -/
def runSeen : List (Option σ) → σ → Prog σ α → Option α
  | _, _, ret a => some a
  | _, _, fault => none
  | [], s, read k => runSeen [] s (k s)
  | none :: _, _, read _ => none
  | some s' :: seen, s, read k => runSeen seen s (k s')

@[simp] lemma runSeen_nil (s : σ) (p : Prog σ α) : runSeen [] s p = p.run s := by
  induction p with
  | ret a => rfl
  | fault => rfl
  | read k ih => exact ih s

/-- Every result of the program satisfies `P` when its reads see states with `V`. -/
def EnsuresOn (V : σ → Prop) (P : α → Prop) : Prog σ α → Prop
  | ret a => P a
  | fault => True
  | read k => ∀ s, V s → (k s).EnsuresOn V P

lemma ensuresOn_true (V : σ → Prop) (p : Prog σ α) : p.EnsuresOn V fun _ => True := by
  induction p with
  | ret a => trivial
  | fault => trivial
  | read k ih => exact fun s _ => ih s

lemma ensuresOn_get {V : σ → Prop} {P : α → Prop} {q : σ → α} (h : ∀ s, V s → P (q s)) :
    (get q).EnsuresOn V P := h

lemma EnsuresOn.bind {V : σ → Prop} {P : α → Prop} {Q : β → Prop} {p : Prog σ α}
    {f : α → Prog σ β} (hp : p.EnsuresOn V P) (hf : ∀ a, P a → (f a).EnsuresOn V Q) :
    (p >>= f).EnsuresOn V Q := by
  induction p with
  | ret a => exact hf a hp
  | fault => trivial
  | read k ih => exact fun s hs => ih s (hp s hs)

lemma EnsuresOn.of_runSeen {V : σ → Prop} {P : α → Prop} {p : Prog σ α}
    (hp : p.EnsuresOn V P) {seen : List (Option σ)} {s : σ} (hseen : ∀ s', some s' ∈ seen → V s')
    (hs : V s) {a : α} (h : runSeen seen s p = some a) : P a := by
  induction p generalizing seen with
  | ret b =>
    rw [runSeen] at h
    cases h
    exact hp
  | fault =>
    rw [runSeen] at h
    cases h
  | read k ih =>
    rcases seen with _ | ⟨_ | s', seen⟩
    · exact ih s (hp s hs) hseen h
    · cases h
    · exact ih s' (hp s' (hseen s' List.mem_cons_self))
        (fun s'' hmem => hseen s'' (List.mem_cons_of_mem _ hmem)) h

/-! ### Programs that read a part of the state -/

/-- All reads are of `f` of the state. -/
inductive ReadsOnly {τ : Type} (f : σ → τ) : Prog σ α → Prop
  | ret (a : α) : ReadsOnly f (ret a)
  | fault : ReadsOnly f fault
  | read {k : σ → Prog σ α} (hk : ∀ {s s'}, f s = f s' → k s = k s')
      (h : ∀ s, ReadsOnly f (k s)) : ReadsOnly f (read k)

section ReadsOnly

variable {τ : Type} {f : σ → τ}

lemma ReadsOnly.bind {p : Prog σ α} {g : α → Prog σ β} (hp : ReadsOnly f p)
    (hg : ∀ a, ReadsOnly f (g a)) : ReadsOnly f (p >>= g) := by
  induction hp with
  | ret a => exact hg a
  | fault => exact .fault
  | read hk _ ih => exact .read (fun h => congrArg (· >>= g) (hk h)) ih

lemma readsOnly_get (q : τ → α) : ReadsOnly f (get fun s => q (f s)) :=
  .read (fun h => congrArg (fun t => ret (q t)) h) fun _ => .ret _

/-- A change that leaves `f` alone goes unnoticed. -/
lemma ReadsOnly.runSplit_eq {p : Prog σ α} (hp : ReadsOnly f p) {s s' : σ} (h : f s = f s')
    (j : ℕ) : runSplit j s s' p = p.run s' := by
  induction hp generalizing j with
  | ret a => simp
  | fault => simp
  | read hk _ ih =>
    cases j with
    | zero => rw [runSplit_zero]
    | succ j => rw [runSplit_succ_read, ih s j, run_read, hk h]

lemma ReadsOnly.run_eq {p : Prog σ α} (hp : ReadsOnly f p) {s s' : σ} (h : f s = f s') :
    p.run s = p.run s' := by
  obtain ⟨j, hj⟩ := exists_runSplit_eq_run s s' p
  rw [← hj, hp.runSplit_eq h]

end ReadsOnly

/-! ### Two calls side by side -/

/-- A call is still reading, or it has ended: with a commit or with a fault. -/
inductive Call (σ α : Type) where
  | reading (p : Prog σ α)
  | ended

variable (commit : α → σ → σ)

/-- What a call that ends with `o` does to the state. -/
def settle (o : Option α) (s : σ) : σ :=
  match o with
  | some a => commit a s
  | none => s

/-- One atomic step of a call: a read, the commit of its result, or the end in a fault. -/
def stepCall : Call σ α → σ → Call σ α × σ
  | .reading (.read k), s => (.reading (k s), s)
  | .reading (.ret a), s => (.ended, commit a s)
  | .reading .fault, s => (.ended, s)
  | .ended, s => (.ended, s)

/-- Two calls and the state they share. -/
structure Pair (σ α : Type) where
  first : Call σ α
  second : Call σ α
  state : σ

/-- One step of the scheduler, which picks the first call or the second. -/
def stepPair (c : Pair σ α) : Bool → Pair σ α
  | true =>
    let r := stepCall commit c.first c.state
    { c with first := r.1, state := r.2 }
  | false =>
    let r := stepCall commit c.second c.state
    { c with second := r.1, state := r.2 }

def runPair (c : Pair σ α) (sched : List Bool) : Pair σ α := sched.foldl (stepPair commit) c

/-- Some schedule takes both calls from `s` to their end and leaves the state `s'`. -/
def Interleaves (p q : Prog σ α) (s s' : σ) : Prop :=
  ∃ sched, runPair commit ⟨.reading p, .reading q, s⟩ sched = ⟨.ended, .ended, s'⟩

/-- One call after the other. -/
def sequential (p q : Prog σ α) (s : σ) : σ :=
  settle commit (q.run (settle commit (p.run s) s)) (settle commit (p.run s) s)

/-- `p` commits what it read off `s`; the first `j` reads of `q` were made before that. -/
def overlapped (p q : Prog σ α) (s : σ) (j : ℕ) : σ :=
  settle commit (runSplit j s (settle commit (p.run s) s) q) (settle commit (p.run s) s)

lemma overlapped_zero (p q : Prog σ α) (s : σ) :
    overlapped commit p q s 0 = sequential commit p q s := by
  simp [overlapped, sequential]

lemma runPair_append (c : Pair σ α) (l l' : List Bool) :
    runPair commit c (l ++ l') = runPair commit (runPair commit c l) l' := by
  simp [runPair, List.foldl_append]

lemma runPair_ended (s : σ) (l : List Bool) :
    runPair commit (⟨.ended, .ended, s⟩ : Pair σ α) l = ⟨.ended, .ended, s⟩ := by
  induction l with
  | nil => rfl
  | cons b l ih => cases b <;> exact ih

/-- Once the first call has ended, the second reads the state it left. -/
lemma runPair_ended_first (q : Prog σ α) (s : σ) {s' : σ} {l : List Bool}
    (h : runPair commit ⟨.ended, .reading q, s⟩ l = ⟨.ended, .ended, s'⟩) :
    s' = settle commit (q.run s) s := by
  induction l generalizing q with
  | nil => simp [runPair] at h
  | cons b l ih =>
    rw [runPair, List.foldl_cons] at h
    cases b with
    | true => exact ih q h
    | false =>
      cases q with
      | read k => exact ih (k s) h
      | ret a =>
        exact (congrArg Pair.state ((runPair_ended commit (commit a s) l).symm.trans h)).symm
      | fault => exact (congrArg Pair.state ((runPair_ended commit s l).symm.trans h)).symm

/-- The same pair with its calls in the other order. -/
def Pair.swap (c : Pair σ α) : Pair σ α := ⟨c.second, c.first, c.state⟩

lemma runPair_swap (c : Pair σ α) (l : List Bool) :
    runPair commit c.swap (l.map not) = (runPair commit c l).swap := by
  induction l generalizing c with
  | nil => rfl
  | cons b l ih =>
    cases b with
    | true => exact ih (stepPair commit c true)
    | false => exact ih (stepPair commit c false)

lemma interleaves_symm {p q : Prog σ α} {s s' : σ} (h : Interleaves commit p q s s') :
    Interleaves commit q p s s' := by
  obtain ⟨l, hl⟩ := h
  refine ⟨l.map not, ?_⟩
  have := runPair_swap commit ⟨.reading p, .reading q, s⟩ l
  rw [hl] at this
  exact this

/-- Until one call commits both read `s`; afterwards the other reads what it left. -/
lemma overlapped_of_interleaves {p q : Prog σ α} {s s' : σ}
    (h : Interleaves commit p q s s') :
    (∃ j, s' = overlapped commit p q s j) ∨ (∃ j, s' = overlapped commit q p s j) := by
  obtain ⟨l, hl⟩ := h
  induction l generalizing p q with
  | nil => simp [runPair] at hl
  | cons b l ih =>
    rw [runPair, List.foldl_cons] at hl
    cases b with
    | true =>
      cases p with
      | read k =>
        rcases ih (p := k s) (q := q) hl with ⟨j, hj⟩ | ⟨j, hj⟩
        · exact Or.inl ⟨j, hj⟩
        · exact Or.inr ⟨j + 1, hj⟩
      | ret a =>
        refine Or.inl ⟨0, ?_⟩
        rw [overlapped_zero]
        exact runPair_ended_first commit q (commit a s) hl
      | fault =>
        refine Or.inl ⟨0, ?_⟩
        rw [overlapped_zero]
        exact runPair_ended_first commit q s hl
    | false =>
      have hend : ∀ t, runPair commit ⟨.reading p, .ended, t⟩ l = ⟨.ended, .ended, s'⟩ →
          s' = settle commit (p.run t) t := by
        intro t ht
        have hsw := runPair_swap commit ⟨.reading p, .ended, t⟩ l
        rw [ht] at hsw
        exact runPair_ended_first commit p t hsw
      cases q with
      | read k =>
        rcases ih (p := p) (q := k s) hl with ⟨j, hj⟩ | ⟨j, hj⟩
        · exact Or.inl ⟨j + 1, hj⟩
        · exact Or.inr ⟨j, hj⟩
      | ret a =>
        refine Or.inr ⟨0, ?_⟩
        rw [overlapped_zero]
        exact hend (commit a s) hl
      | fault =>
        refine Or.inr ⟨0, ?_⟩
        rw [overlapped_zero]
        exact hend s hl

/-! ### Every overlap happens -/

lemma exists_runPair_reads (c : Call σ α) (q : Prog σ α) (s : σ) (j : ℕ) :
    ∃ l, runPair commit ⟨c, .reading q, s⟩ l = ⟨c, .reading (afterReads j s q), s⟩ := by
  induction j generalizing q with
  | zero => exact ⟨[], by cases q <;> rfl⟩
  | succ j ih =>
    cases q with
    | read k =>
      obtain ⟨l, hl⟩ := ih (k s)
      exact ⟨false :: l, hl⟩
    | ret a => exact ⟨[], rfl⟩
    | fault => exact ⟨[], rfl⟩

lemma exists_runPair_end (p : Prog σ α) (c : Call σ α) (s : σ) :
    ∃ l, runPair commit ⟨.reading p, c, s⟩ l = ⟨.ended, c, settle commit (p.run s) s⟩ := by
  induction p with
  | ret a => exact ⟨[true], rfl⟩
  | fault => exact ⟨[true], rfl⟩
  | read k ih =>
    obtain ⟨l, hl⟩ := ih s
    exact ⟨true :: l, hl⟩

lemma interleaves_overlapped (p q : Prog σ α) (s : σ) (j : ℕ) :
    Interleaves commit p q s (overlapped commit p q s j) := by
  obtain ⟨l, hl⟩ := exists_runPair_reads commit (.reading p) q s j
  obtain ⟨l', hl'⟩ := exists_runPair_end commit p (.reading (afterReads j s q)) s
  obtain ⟨l'', hl''⟩ := exists_runPair_end commit (afterReads j s q) .ended
    (settle commit (p.run s) s)
  refine ⟨l ++ l' ++ l''.map not, ?_⟩
  have hsw := runPair_swap commit
    ⟨.reading (afterReads j s q), .ended, settle commit (p.run s) s⟩ l''
  rw [hl''] at hsw
  rw [runPair_append, runPair_append, hl, hl']
  exact hsw

/-- **What two calls can leave behind**: one of them commits first, having read only the
initial state, and the other has made some of its reads before that commit. -/
theorem interleaves_iff (p q : Prog σ α) (s s' : σ) :
    Interleaves commit p q s s' ↔
      (∃ j, s' = overlapped commit p q s j) ∨ (∃ j, s' = overlapped commit q p s j) := by
  constructor
  · exact overlapped_of_interleaves commit
  · rintro (⟨j, rfl⟩ | ⟨j, rfl⟩)
    · exact interleaves_overlapped commit p q s j
    · exact interleaves_symm commit (interleaves_overlapped commit q p s j)

end Prog

end RockNode
