import Mathlib.Tactic

/-!
First-in first-out queues as lists, the oldest element first.

After any pushes and pops a queue is what it was, followed by what was pushed, less as many
elements at the front as pops found one to take.
-/

namespace RockNode

inductive FifoOp (α : Type) where
  | push (a : α)
  | pop

def FifoOp.map {α β : Type} (f : α → β) : FifoOp α → FifoOp β
  | push a => push (f a)
  | pop => pop

namespace Fifo

variable {α β : Type}

/-- A pop of an empty queue does nothing. -/
def step (q : List α) : FifoOp α → List α
  | .push a => q ++ [a]
  | .pop => q.tail

def exec (q : List α) (ops : List (FifoOp α)) : List α := ops.foldl step q

/-- What the operations push, in order. -/
def pushed : List (FifoOp α) → List α
  | [] => []
  | .push a :: ops => a :: pushed ops
  | .pop :: ops => pushed ops

/-- Some operation is a pop. -/
def pops : List (FifoOp α) → Bool
  | [] => false
  | .push _ :: ops => pops ops
  | .pop :: _ => true

/-- How many elements leave the queue. -/
def removed : List α → List (FifoOp α) → ℕ
  | _, [] => 0
  | q, .push a :: ops => removed (q ++ [a]) ops
  | [], .pop :: ops => removed [] ops
  | _ :: q, .pop :: ops => removed q ops + 1

lemma pushed_append (ops ops' : List (FifoOp α)) :
    pushed (ops ++ ops') = pushed ops ++ pushed ops' := by
  induction ops with
  | nil => rfl
  | cons op ops ih => cases op <;> simp [pushed, ih]

lemma pops_append (ops ops' : List (FifoOp α)) :
    pops (ops ++ ops') = (pops ops || pops ops') := by
  induction ops with
  | nil => rfl
  | cons op ops ih => cases op <;> simp [pops, ih]

lemma exec_map (f : α → β) (q : List α) (ops : List (FifoOp α)) :
    exec (q.map f) (ops.map (FifoOp.map f)) = (exec q ops).map f := by
  induction ops generalizing q with
  | nil => rfl
  | cons op ops ih =>
    cases op with
    | push a => simpa [exec, step, FifoOp.map] using ih (q ++ [a])
    | pop => simpa [exec, step, FifoOp.map] using ih q.tail

theorem exec_eq (q : List α) (ops : List (FifoOp α)) :
    exec q ops = (q ++ pushed ops).drop (removed q ops) := by
  induction ops generalizing q with
  | nil => simp [exec, pushed, removed]
  | cons op ops ih =>
    cases op with
    | push a =>
      calc exec q (.push a :: ops)
          = exec (q ++ [a]) ops := rfl
        _ = ((q ++ [a]) ++ pushed ops).drop (removed (q ++ [a]) ops) := ih (q ++ [a])
        _ = (q ++ pushed (.push a :: ops)).drop (removed q (.push a :: ops)) := by
          simp [pushed, removed]
    | pop =>
      cases q with
      | nil => exact ih []
      | cons x q =>
        calc exec (x :: q) (.pop :: ops)
            = exec q ops := rfl
          _ = (q ++ pushed ops).drop (removed q ops) := ih q
          _ = (x :: q ++ pushed (.pop :: ops)).drop (removed (x :: q) (.pop :: ops)) := by
            simp [pushed, removed]

lemma removed_of_not_pops {q : List α} {ops : List (FifoOp α)} (h : pops ops = false) :
    removed q ops = 0 := by
  induction ops generalizing q with
  | nil => rfl
  | cons op ops ih =>
    cases op with
    | push a => exact ih h
    | pop => cases h

/-- The first pop of a queue that is not empty takes an element. -/
lemma removed_pos {q : List α} {ops : List (FifoOp α)} (hq : q ≠ []) (h : pops ops = true) :
    0 < removed q ops := by
  induction ops generalizing q with
  | nil => cases h
  | cons op ops ih =>
    cases op with
    | push a => exact ih (by simp) h
    | pop =>
      cases q with
      | nil => exact absurd rfl hq
      | cons x q => exact Nat.succ_pos _

/-- When at most the first element leaves, it leaves with the first pop. -/
theorem exec_of_removed_le {q : List α} {ops : List (FifoOp α)}
    (h : removed q ops ≤ min 1 q.length) :
    exec q ops = (if pops ops then q.tail else q) ++ pushed ops := by
  rw [exec_eq]
  cases q with
  | nil =>
    have hzero : removed [] ops = 0 := by simpa using h
    simp [hzero]
  | cons x q =>
    have hle : removed (x :: q) ops ≤ 1 := h.trans (min_le_left _ _)
    cases hp : pops ops with
    | false => simp [removed_of_not_pops hp]
    | true =>
      have hone : removed (x :: q) ops = 1 := by
        have := removed_pos (List.cons_ne_nil x q) hp
        omega
      simp [hone]

end Fifo

end RockNode
