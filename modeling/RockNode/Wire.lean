import Mathlib.Tactic
import Mathlib.Data.List.Lex

/-!
Byte strings: big-endian numbers of a fixed width, and self-delimiting formats.

A format writes a value so that it can be read back from the front of a longer string; formats
of compound values are put together from those of their parts.
-/

namespace RockNode

abbrev Bytes := List UInt8

/-- Bytes are ordered by value, and byte strings lexicographically. -/
instance byteOrder : LinearOrder UInt8 where
  le_refl _ := UInt8.le_refl _
  le_trans _ _ _ := UInt8.le_trans
  lt_iff_le_not_ge a b := by
    rw [UInt8.le_iff_toNat_le, UInt8.le_iff_toNat_le, UInt8.lt_iff_toNat_lt]
    omega
  le_antisymm _ _ := UInt8.le_antisymm
  le_total a b := UInt8.le_total a b
  toDecidableLE := inferInstance

/-! ### Big-endian numbers -/

/-- The `w` big-endian bytes of `n`; what does not fit is cut off. -/
def toBE : ℕ → ℕ → Bytes
  | 0, _ => []
  | w + 1, n => toBE w (n / 256) ++ [UInt8.ofNat (n % 256)]

def ofBE (bytes : Bytes) : ℕ := bytes.foldl (fun acc b => 256 * acc + b.toNat) 0

@[simp] lemma toBE_length (w n : ℕ) : (toBE w n).length = w := by
  induction w generalizing n with
  | zero => rfl
  | succ w ih => simp [toBE, ih]

lemma ofBE_concat (bytes : Bytes) (b : UInt8) :
    ofBE (bytes ++ [b]) = 256 * ofBE bytes + b.toNat := by
  simp [ofBE, List.foldl_append]

lemma ofBE_toBE (w n : ℕ) : ofBE (toBE w n) = n % 256 ^ w := by
  induction w generalizing n with
  | zero => simp [toBE, ofBE, Nat.mod_one]
  | succ w ih =>
    have hb : (UInt8.ofNat (n % 256)).toNat = n % 256 := by
      simp [UInt8.toNat_ofNat']
    rw [toBE, ofBE_concat, ih, hb, pow_succ, Nat.mul_comm (256 ^ w) 256, Nat.mod_mul]
    omega

lemma ofBE_toBE_of_lt {w n : ℕ} (h : n < 256 ^ w) : ofBE (toBE w n) = n := by
  rw [ofBE_toBE, Nat.mod_eq_of_lt h]

/-! ### Strings with a common beginning -/

section Lex

variable {α : Type*} [LinearOrder α]

lemma le_append (a c : List α) : a ≤ a ++ c := by
  induction a with
  | nil => exact not_lt.mp (List.not_lt_nil c)
  | cons x a ih =>
    refine not_lt.mp fun hlt => ?_
    rcases List.cons_lt_cons_iff.mp hlt with hx | ⟨-, ha⟩
    · exact lt_irrefl x hx
    · exact ih.not_gt ha

/-- What lies between a string and a continuation of it is a continuation of it. -/
lemma take_of_between {a b c : List α} (hab : a ≤ b) (hbc : b ≤ a ++ c) :
    b.take a.length = a := by
  induction a generalizing b with
  | nil => rfl
  | cons x a ih =>
    cases b with
    | nil => exact absurd hab (not_le.mpr (List.nil_lt_cons x a))
    | cons y b =>
      have hyx : ¬ y < x := fun h => hab.not_gt (List.cons_lt_cons_iff.mpr (Or.inl h))
      have hxy : ¬ x < y := fun h => hbc.not_gt (List.cons_lt_cons_iff.mpr (Or.inl h))
      obtain rfl : x = y := le_antisymm (not_lt.mp hyx) (not_lt.mp hxy)
      have h1 : a ≤ b :=
        not_lt.mp fun h => hab.not_gt (List.cons_lt_cons_iff.mpr (Or.inr ⟨rfl, h⟩))
      have h2 : b ≤ a ++ c :=
        not_lt.mp fun h => hbc.not_gt (List.cons_lt_cons_iff.mpr (Or.inr ⟨rfl, h⟩))
      rw [List.length_cons, List.take_succ_cons, ih h1 h2]

end Lex

/-! ### Self-delimiting formats -/

/-- A way to write values that can be read back from the front of a string. -/
structure Format (α : Type) where
  enc : α → Bytes
  dec : Bytes → Option (α × Bytes)
  dec_enc : ∀ a rest, dec (enc a ++ rest) = some (a, rest)

namespace Format

variable {α β : Type}

def byte : Format UInt8 where
  enc b := [b]
  dec
    | [] => none
    | b :: rest => some (b, rest)
  dec_enc _ _ := rfl

def u64 : Format UInt64 where
  enc n := toBE 8 n.toNat
  dec bytes :=
    if 8 ≤ bytes.length then some (UInt64.ofNat (ofBE (bytes.take 8)), bytes.drop 8) else none
  dec_enc n rest := by
    have hn : ofBE (toBE 8 n.toNat) = n.toNat := ofBE_toBE_of_lt (by
      have := n.toNat_lt; norm_num at this ⊢; omega)
    simp [hn]

def prod (f : Format α) (g : Format β) : Format (α × β) where
  enc x := f.enc x.1 ++ g.enc x.2
  dec bytes := do
    let (a, rest) ← f.dec bytes
    let (b, rest') ← g.dec rest
    pure ((a, b), rest')
  dec_enc x rest := by
    simp [List.append_assoc, f.dec_enc, g.dec_enc]

def sum (f : Format α) (g : Format β) : Format (α ⊕ β) where
  enc
    | .inl a => 0 :: f.enc a
    | .inr b => 1 :: g.enc b
  dec
    | 0 :: rest => (f.dec rest).map fun x => (.inl x.1, x.2)
    | 1 :: rest => (g.dec rest).map fun x => (.inr x.1, x.2)
    | _ => none
  dec_enc x rest := by
    cases x with
    | inl a => simp [f.dec_enc]
    | inr b => simp [g.dec_enc]

def unit : Format Unit := ⟨fun _ => [], fun bytes => some ((), bytes), fun _ _ => rfl⟩

/-- A format for the values that `f` turns into ones with a format already. -/
def via (g : Format β) (f : α → β) (h : β → α) (hf : ∀ a, h (f a) = a) : Format α where
  enc a := g.enc (f a)
  dec bytes := (g.dec bytes).map fun x => (h x.1, x.2)
  dec_enc a rest := by simp [g.dec_enc, hf]

def option (f : Format α) : Format (Option α) :=
  (sum unit f).via (fun o => o.elim (.inl ()) .inr) (Sum.elim (fun _ => none) some)
    (by rintro (_ | a) <;> rfl)

/-- A length written in ones, closed by a zero. -/
def decCount : Bytes → Option (ℕ × Bytes)
  | 0 :: rest => some (0, rest)
  | 1 :: rest => (decCount rest).map fun x => (x.1 + 1, x.2)
  | _ => none

def decTimes (f : Format α) : ℕ → Bytes → Option (List α × Bytes)
  | 0, bytes => some ([], bytes)
  | k + 1, bytes => do
    let (a, rest) ← f.dec bytes
    let (l, rest') ← decTimes f k rest
    pure (a :: l, rest')

lemma decCount_replicate (k : ℕ) (rest : Bytes) :
    decCount (List.replicate k 1 ++ 0 :: rest) = some (k, rest) := by
  induction k with
  | zero => rfl
  | succ k ih => simp [List.replicate_succ, decCount, ih]

lemma decTimes_flatMap (f : Format α) (l : List α) (rest : Bytes) :
    decTimes f l.length (l.flatMap f.enc ++ rest) = some (l, rest) := by
  induction l with
  | nil => rfl
  | cons a l ih => simp [decTimes, List.append_assoc, f.dec_enc, ih]

lemma decTimes_short {l : Bytes} {k : ℕ} (h : l.length < k) :
    decTimes byte k l = none := by
  induction k generalizing l with
  | zero => omega
  | succ k ih =>
    rcases l with _ | ⟨b, l⟩
    · rfl
    · have hdec : byte.dec (b :: l) = some (b, l) := rfl
      have hrest := ih (l := l) (by simp at h; omega)
      simp [decTimes, hdec, hrest]

lemma decCount_ones (k : ℕ) : decCount (List.replicate k 1) = none := by
  induction k with
  | zero => rfl
  | succ k ih => simp [List.replicate_succ, decCount, ih]

def list (f : Format α) : Format (List α) where
  enc l := List.replicate l.length 1 ++ 0 :: l.flatMap f.enc
  dec bytes := do
    let (k, rest) ← decCount bytes
    decTimes f k rest
  dec_enc l rest := by
    simp [List.append_assoc, decCount_replicate, decTimes_flatMap]

/-- The format as a codec for whole strings: nothing may be left over. -/
def decAll (f : Format α) (bytes : Bytes) : Option α :=
  match f.dec bytes with
  | some (a, []) => some a
  | _ => none

@[simp] lemma decAll_enc (f : Format α) (a : α) : f.decAll (f.enc a) = some a := by
  have := f.dec_enc a []
  rw [List.append_nil] at this
  simp [decAll, this]

end Format

end RockNode
