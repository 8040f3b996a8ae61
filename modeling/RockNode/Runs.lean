import Mathlib.Tactic

/-!
Runs of a system that takes one action after the other.

A system is a step function; an action that is not possible in a state has no result. A
property of every state of every run is an invariant: it holds at the start and each step
keeps it, possibly only steps that meet a condition in the state they are taken in.
-/

namespace RockNode

variable {σ α : Type}

/-- The state after the actions; there is none when one of them was not possible. -/
def run (step : σ → α → Option σ) : σ → List α → Option σ
  | s, [] => some s
  | s, a :: actions =>
    match step s a with
    | some s' => run step s' actions
    | none => none

/-- Every action of the run meets the condition in the state it is taken in. -/
def Along (step : σ → α → Option σ) (P : σ → α → Prop) : σ → List α → Prop
  | _, [] => True
  | s, a :: actions => P s a ∧
    match step s a with
    | some s' => Along step P s' actions
    | none => True

variable {step : σ → α → Option σ} {P : σ → α → Prop}

instance Along.decidable [∀ s a, Decidable (P s a)] :
    ∀ s actions, Decidable (Along step P s actions)
  | _, [] => isTrue trivial
  | s, a :: actions =>
    have : Decidable (match step s a with
        | some s' => Along step P s' actions
        | none => True) :=
      match step s a with
      | some s' => Along.decidable s' actions
      | none => isTrue trivial
    inferInstanceAs (Decidable (_ ∧ _))

@[simp] lemma run_nil (s : σ) : run step s [] = some s := rfl

lemma run_cons {s s' : σ} {a : α} (h : step s a = some s') (actions : List α) :
    run step s (a :: actions) = run step s' actions := by
  simp only [run, h]

lemma run_cons_eq_some {s t : σ} {a : α} {actions : List α}
    (h : run step s (a :: actions) = some t) :
    ∃ s', step s a = some s' ∧ run step s' actions = some t := by
  rcases hs : step s a with _ | s'
  · simp [run, hs] at h
  · exact ⟨s', rfl, by rwa [run_cons hs] at h⟩

lemma run_append {s t : σ} {actions : List α} (h : run step s actions = some t)
    (actions' : List α) : run step s (actions ++ actions') = run step t actions' := by
  induction actions generalizing s with
  | nil =>
    cases h
    rfl
  | cons a actions ih =>
    obtain ⟨s', h1, h2⟩ := run_cons_eq_some h
    rw [List.cons_append, run_cons h1, ih h2]

lemma run_append_eq_some {s t : σ} {actions actions' : List α}
    (h : run step s (actions ++ actions') = some t) :
    ∃ m, run step s actions = some m ∧ run step m actions' = some t := by
  induction actions generalizing s with
  | nil => exact ⟨s, rfl, h⟩
  | cons a actions ih =>
    obtain ⟨s', h1, h2⟩ := run_cons_eq_some h
    obtain ⟨m, hm, ht⟩ := ih h2
    exact ⟨m, by rw [run_cons h1, hm], ht⟩

lemma along_cons {s s' : σ} {a : α} {actions : List α} (h : step s a = some s') :
    Along step P s (a :: actions) ↔ P s a ∧ Along step P s' actions := by
  simp only [Along, h]

lemma along_append {s t : σ} {actions : List α} (h : run step s actions = some t)
    (actions' : List α) :
    Along step P s (actions ++ actions') ↔ Along step P s actions ∧ Along step P t actions' := by
  induction actions generalizing s with
  | nil =>
    cases h
    exact ⟨fun h => ⟨trivial, h⟩, And.right⟩
  | cons a actions ih =>
    obtain ⟨s', h1, h2⟩ := run_cons_eq_some h
    rw [List.cons_append, along_cons h1, along_cons h1, ih h2, and_assoc]

lemma Along.left {s : σ} {actions actions' : List α}
    (h : Along step P s (actions ++ actions')) : Along step P s actions := by
  induction actions generalizing s with
  | nil => trivial
  | cons a actions ih =>
    refine ⟨h.1, ?_⟩
    have hrest := h.2
    split
    · next s' hs =>
      rw [hs] at hrest
      exact ih hrest
    · trivial

/-- **The invariant rule.** What every step that meets the condition keeps, every run of such
steps keeps. -/
theorem run_inv {I : σ → Prop} (hstep : ∀ {s a s'}, I s → P s a → step s a = some s' → I s')
    {s t : σ} {actions : List α} (hs : I s) (hP : Along step P s actions)
    (h : run step s actions = some t) : I t := by
  induction actions generalizing s with
  | nil => cases h; exact hs
  | cons a actions ih =>
    obtain ⟨s', h1, h2⟩ := run_cons_eq_some h
    obtain ⟨hPa, hPs⟩ := (along_cons h1).mp hP
    exact ih (hstep hs hPa h1) hPs h2

/-- What follows from an invariant at each step holds all along. -/
theorem along_of_inv {I : σ → Prop} {Q : σ → α → Prop}
    (hstep : ∀ {s a s'}, I s → P s a → step s a = some s' → I s')
    (hQ : ∀ {s a}, I s → P s a → Q s a) {s : σ} {actions : List α} (hs : I s)
    (hP : Along step P s actions) : Along step Q s actions := by
  induction actions generalizing s with
  | nil => trivial
  | cons a actions ih =>
    refine ⟨hQ hs hP.1, ?_⟩
    have hrest := hP.2
    split
    · next s' h =>
      rw [h] at hrest
      exact ih (hstep hs hP.1 h) hrest
    · trivial

/-- Two conditions along one run. -/
lemma Along.and {Q : σ → α → Prop} {s : σ} {actions : List α} (hP : Along step P s actions)
    (hQ : Along step Q s actions) : Along step (fun s a => P s a ∧ Q s a) s actions := by
  induction actions generalizing s with
  | nil => trivial
  | cons a actions ih =>
    refine ⟨⟨hP.1, hQ.1⟩, ?_⟩
    have h1 := hP.2
    have h2 := hQ.2
    split
    · next s' hs =>
      rw [hs] at h1 h2
      exact ih h1 h2
    · trivial

/-- A weaker condition along the same run. -/
lemma Along.imp {Q : σ → α → Prop} {s : σ} {actions : List α} (hP : Along step P s actions)
    (hPQ : ∀ {s a}, P s a → Q s a) : Along step Q s actions := by
  induction actions generalizing s with
  | nil => trivial
  | cons a actions ih =>
    refine ⟨hPQ hP.1, ?_⟩
    have h := hP.2
    split
    · next s' hs =>
      rw [hs] at h
      exact ih h
    · trivial

/-- Every action of a run meets the condition somewhere. -/
lemma Along.of_mem {s t : σ} {a : α} {actions : List α} (hP : Along step P s actions)
    (h : run step s actions = some t) (ha : a ∈ actions) : ∃ s', P s' a := by
  induction actions generalizing s with
  | nil => cases ha
  | cons b actions ih =>
    obtain ⟨s', h1, h2⟩ := run_cons_eq_some h
    obtain ⟨hb, hrest⟩ := (along_cons h1).mp hP
    rcases List.mem_cons.mp ha with rfl | ha
    · exact ⟨s, hb⟩
    · exact ih hrest h2 ha

/-- A condition on the actions alone. -/
lemma along_of_forall {Q : α → Prop} {actions : List α} (h : ∀ a ∈ actions, Q a) (s : σ) :
    Along step (fun _ a => Q a) s actions := by
  induction actions generalizing s with
  | nil => trivial
  | cons a actions ih =>
    refine ⟨h a List.mem_cons_self, ?_⟩
    split
    · exact ih (fun b hb => h b (List.mem_cons_of_mem a hb)) _
    · trivial

lemma along_true (s : σ) (actions : List α) : Along step (fun _ _ => True) s actions :=
  along_of_forall (fun _ _ => trivial) s

/-- Every action of a run is taken in the state that the actions before it lead to. -/
lemma along_taken (s : σ) (actions : List α) :
    Along step (fun t a => ∃ before after, actions = before ++ a :: after ∧
      run step s before = some t) s actions := by
  induction actions generalizing s with
  | nil => trivial
  | cons a actions ih =>
    refine ⟨⟨[], actions, rfl, rfl⟩, ?_⟩
    split
    · next s' hs =>
      refine (ih s').imp ?_
      rintro t b ⟨before, after, rfl, hrun⟩
      exact ⟨a :: before, after, rfl, (run_cons hs before).trans hrun⟩
    · trivial

/-- The rule for steps that need no condition. -/
theorem run_inv_of_step {I : σ → Prop} (hstep : ∀ {s a s'}, I s → step s a = some s' → I s')
    {s t : σ} {actions : List α} (hs : I s) (h : run step s actions = some t) : I t :=
  run_inv (P := fun _ _ => True) (fun hI _ h => hstep hI h) hs (along_true s actions) h

/-- **The simulation rule.** When every step either is a step of another system on what `view`
shows, or shows nothing, then a run shows a run of the other system. -/
theorem run_simulates {τ β : Type} {other : τ → β → Option τ} (view : σ → τ) {own : α → Option β}
    {I : σ → Prop} (hI : ∀ {s a s'}, I s → step s a = some s' → I s')
    (hidden : ∀ {s a s'}, I s → step s a = some s' → own a = none → view s' = view s)
    (shown : ∀ {s a s' b}, I s → step s a = some s' → own a = some b →
      other (view s) b = some (view s'))
    {s t : σ} {actions : List α} (hs : I s) (h : run step s actions = some t) :
    run other (view s) (actions.filterMap own) = some (view t) := by
  induction actions generalizing s with
  | nil =>
    cases h
    rfl
  | cons a actions ih =>
    obtain ⟨s', h1, h2⟩ := run_cons_eq_some h
    have hrest := ih (hI hs h1) h2
    rcases hown : own a with _ | b
    · rwa [List.filterMap_cons_none hown, ← hidden hs h1 hown]
    · rwa [List.filterMap_cons_some hown, run_cons (shown hs h1 hown)]

/-! ### Runs with a record -/

variable {ω : Type}

/-- The system with a record of what has happened, to which a step adds what `obs` says. -/
def recorded (step : σ → α → Option σ) (obs : σ → α → List ω) :
    σ × List ω → α → Option (σ × List ω) :=
  fun s a => (step s.1 a).map fun s' => (s', s.2 ++ obs s.1 a)

lemma recorded_eq_some {obs : σ → α → List ω} {s t : σ × List ω} {a : α}
    (h : recorded step obs s a = some t) : step s.1 a = some t.1 ∧ t.2 = s.2 ++ obs s.1 a := by
  obtain ⟨s', hs', rfl⟩ := Option.map_eq_some_iff.mp h
  exact ⟨hs', rfl⟩

/-- A condition on the steps does not depend on what is recorded beside them. -/
lemma along_recorded {obs : σ → α → List ω} {s : σ} {actions : List α} (log : List ω) :
    Along (recorded step obs) (fun s a => P s.1 a) (s, log) actions ↔ Along step P s actions := by
  induction actions generalizing s log with
  | nil => exact Iff.rfl
  | cons a actions ih =>
    unfold Along
    refine and_congr_right fun _ => ?_
    rcases hs : step s a with _ | s'
    · simp [recorded, hs]
    · simpa [recorded, hs] using ih _

/-! ### Conditions and invariants along a run -/

/-- **When a property holds all along.** If a step keeps the property exactly when it meets a
condition, then the property holds in every state of a run exactly when every step meets it. -/
theorem along_iff {f : σ → α → σ} {I Q : σ → Prop} {C : σ → α → Prop}
    (hI : ∀ {s} a, I s → I (f s a)) (hQ : ∀ {s} a, I s → Q s → (Q (f s a) ↔ C s a)) {s : σ}
    (hs : I s) (hq : Q s) (actions : List α) :
    (∀ k, Q ((actions.take k).foldl f s)) ↔ Along (fun s a => some (f s a)) C s actions := by
  induction actions generalizing s with
  | nil => exact ⟨fun _ => trivial, fun _ k => by simpa using hq⟩
  | cons a actions ih =>
    rw [along_cons rfl]
    constructor
    · intro h
      have h1 : Q (f s a) := h 1
      exact ⟨(hQ a hs hq).mp h1, (ih (hI a hs) h1).mp fun k => h (k + 1)⟩
    · rintro ⟨hC, hrest⟩ k
      have h1 : Q (f s a) := (hQ a hs hq).mpr hC
      cases k with
      | zero => exact hq
      | succ k => exact (ih (hI a hs) h1).mpr hrest k

/-- The same for steps that are not always possible. -/
theorem along_iff_of_step {I Q : σ → Prop} {C : σ → α → Prop}
    (hI : ∀ {s a s'}, I s → step s a = some s' → I s')
    (hQ : ∀ {s a s'}, I s → Q s → step s a = some s' → (Q s' ↔ C s a))
    (hnone : ∀ {s a}, step s a = none → C s a) {s : σ} (hs : I s) (hq : Q s) (actions : List α) :
    (∀ k t, run step s (actions.take k) = some t → Q t) ↔ Along step C s actions := by
  induction actions generalizing s with
  | nil =>
    refine ⟨fun _ => trivial, fun _ k t h => ?_⟩
    rw [List.take_nil] at h
    cases h
    exact hq
  | cons a actions ih =>
    rcases hstep : step s a with _ | s'
    · refine ⟨fun _ => ⟨hnone hstep, by simp only [hstep]⟩, fun _ k t h => ?_⟩
      cases k with
      | zero => cases h; exact hq
      | succ k => simp [run, hstep] at h
    · rw [along_cons hstep, ← hQ hs hq hstep]
      constructor
      · intro h
        have h1 : Q s' := h 1 s' (by simp [run, hstep])
        refine ⟨h1, (ih (hI hs hstep) h1).mp fun k t ht => h (k + 1) t ?_⟩
        rw [List.take_succ_cons, run_cons hstep, ht]
      · rintro ⟨h1, hrest⟩ k t ht
        cases k with
        | zero => cases ht; exact hq
        | succ k =>
          rw [List.take_succ_cons, run_cons hstep] at ht
          exact (ih (hI hs hstep) h1).mpr hrest k t ht

/-- Two conditions on steps that agree where an invariant holds agree along every run, when
steps that meet them keep the invariant. -/
theorem along_congr {I : σ → Prop} {Q : σ → α → Prop} (hiff : ∀ {s} a, I s → (P s a ↔ Q s a))
    (hstep : ∀ {s a s'}, I s → Q s a → step s a = some s' → I s') {s : σ} (hs : I s)
    (actions : List α) : Along step P s actions ↔ Along step Q s actions := by
  induction actions generalizing s with
  | nil => exact Iff.rfl
  | cons a actions ih =>
    unfold Along
    rw [hiff a hs]
    refine and_congr_right fun hQ => ?_
    rcases h : step s a with _ | s'
    · exact Iff.rfl
    · exact ih (hstep hs hQ h)

/-! ### Systems that agree on the actions of a run -/

section Agree

variable {step' : σ → α → Option σ} {actions : List α}
  (h : ∀ a ∈ actions, ∀ s, step s a = step' s a)

include h in
lemma run_agree (s : σ) : run step s actions = run step' s actions := by
  induction actions generalizing s with
  | nil => rfl
  | cons a actions ih =>
    have hrest := ih fun b hb => h b (List.mem_cons_of_mem a hb)
    unfold run
    rw [h a List.mem_cons_self s]
    split
    · exact hrest _
    · rfl

include h in
lemma along_agree (s : σ) : Along step P s actions ↔ Along step' P s actions := by
  induction actions generalizing s with
  | nil => exact Iff.rfl
  | cons a actions ih =>
    have hrest := ih fun b hb => h b (List.mem_cons_of_mem a hb)
    unfold Along
    rw [h a List.mem_cons_self s]
    refine and_congr_right fun _ => ?_
    split
    · exact hrest _
    · exact Iff.rfl

end Agree

/-! ### Runs in which a party follows a script -/

variable {β : Type}

/-- Where one of the parties follows a script: `At rest s` says that in the state `s` it has `rest`
before it. Steps of the others keep it there, and its own next step is possible. -/
structure Follows (step : σ → α → Option σ) (P : σ → α → Prop) (own : α → Option β)
    (At : List β → σ → Prop) : Prop where
  others : ∀ {rest s a}, At rest s → P s a → own a = none → ∃ s', step s a = some s' ∧ At rest s'
  turn : ∀ {rest s a b}, At (b :: rest) s → P s a → own a = some b →
    ∃ s', step s a = some s' ∧ At rest s'

/-- **The script rule.** However the steps of the others come in between, the party comes through
the part of its script that it has played. -/
theorem Follows.run {own : α → Option β} {At : List β → σ → Prop} (h : Follows step P own At)
    {actions : List α} {rest : List β} {s : σ} (hs : At (actions.filterMap own ++ rest) s)
    (hP : Along step P s actions) : ∃ t, run step s actions = some t ∧ At rest t := by
  induction actions generalizing s with
  | nil => exact ⟨s, rfl, hs⟩
  | cons a actions ih =>
    have hnext : ∃ s', step s a = some s' ∧ At (actions.filterMap own ++ rest) s' := by
      rcases hown : own a with _ | b
      · rw [List.filterMap_cons_none hown] at hs
        exact h.others hs hP.1 hown
      · rw [List.filterMap_cons_some hown] at hs
        exact h.turn hs hP.1 hown
    obtain ⟨s', hstep, hs'⟩ := hnext
    obtain ⟨t, ht, hrest⟩ := ih hs' ((along_cons hstep).mp hP).2
    exact ⟨t, by rw [run_cons hstep, ht], hrest⟩

/-- Fewer steps of the others, the same script. -/
lemma Follows.mono {Q : σ → α → Prop} {own : α → Option β} {At : List β → σ → Prop}
    (h : Follows step P own At) (hQ : ∀ {s a}, Q s a → P s a) : Follows step Q own At where
  others hs ha hown := h.others hs (hQ ha) hown
  turn hs ha hown := h.turn hs (hQ ha) hown

/-- The record may be left out. -/
lemma Follows.unrecorded {obs : σ → α → List ω} {own : α → Option β}
    {At : List β → σ × List ω → Prop}
    (h : Follows (recorded step obs) (fun s a => P s.1 a) own At) :
    Follows step P own fun rest s => ∃ log, At rest (s, log) where
  others := by
    rintro rest s a ⟨log, hs⟩ ha hown
    obtain ⟨s', hstep, hs'⟩ := h.others hs ha hown
    exact ⟨s'.1, (recorded_eq_some hstep).1, s'.2, hs'⟩
  turn := by
    rintro rest s a b ⟨log, hs⟩ ha hown
    obtain ⟨s', hstep, hs'⟩ := h.turn hs ha hown
    exact ⟨s'.1, (recorded_eq_some hstep).1, s'.2, hs'⟩

/-- **A phase of a longer script.** The party comes to the end of its part, and the run goes on
from there with the rest. -/
theorem Follows.phase {own : α → Option β} {At : List β → σ → Prop} (h : Follows step P own At)
    {actions : List α} {script rest : List β} {s : σ} (hs : At script s)
    (hown : actions.filterMap own = script ++ rest) (hP : Along step P s actions) :
    ∃ front back t, actions = front ++ back ∧ back.filterMap own = rest ∧
      RockNode.run step s front = some t ∧ At [] t ∧ Along step P t back := by
  obtain ⟨front, back, rfl, hfront, hback⟩ := List.filterMap_eq_append_iff.mp hown
  rw [← hfront, ← List.append_nil (front.filterMap own)] at hs
  obtain ⟨t, ht, hend⟩ := h.run hs hP.left
  exact ⟨front, back, t, rfl, hback, ht, hend, ((along_append ht back).mp hP).2⟩

end RockNode
