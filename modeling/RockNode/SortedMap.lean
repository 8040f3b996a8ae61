import Mathlib.Data.List.Basic
import Mathlib.Data.List.Pairwise
import Mathlib.Order.Defs.LinearOrder
import Mathlib.Tactic

/-!
Finite maps that iterate in the order of their keys.

A map is the list of its entries with strictly increasing keys. Besides reading, writing
and deleting one key it offers the two cursors of an ordered key-value store: the last
entry at or below a key, and all entries at or above one, in order.
-/

namespace RockNode

/-- A finite map with its entries in increasing order of the keys. -/
structure SortedMap (K V : Type*) [LinearOrder K] where
  entries : List (K × V)
  sorted : entries.Pairwise (fun a b => a.1 < b.1)

namespace SortedMap

variable {K V : Type*} [LinearOrder K]

deriving instance DecidableEq for SortedMap

def empty : SortedMap K V := ⟨[], List.Pairwise.nil⟩

def get (m : SortedMap K V) (k : K) : Option V :=
  (m.entries.find? (fun e => e.1 = k)).map Prod.snd

def put (m : SortedMap K V) (k : K) (v : V) : SortedMap K V where
  entries := m.entries.filter (fun e => e.1 < k) ++ (k, v) :: m.entries.filter (fun e => k < e.1)
  sorted := by
    refine List.pairwise_append.mpr ⟨m.sorted.filter _, ?_, ?_⟩
    · refine List.pairwise_cons.mpr ⟨fun e he => ?_, m.sorted.filter _⟩
      simpa using (List.mem_filter.mp he).2
    · intro a ha b hb
      have hak : a.1 < k := by simpa using (List.mem_filter.mp ha).2
      rcases List.mem_cons.mp hb with rfl | hb
      · exact hak
      · exact hak.trans (by simpa using (List.mem_filter.mp hb).2)

def erase (m : SortedMap K V) (k : K) : SortedMap K V :=
  ⟨m.entries.filter (fun e => e.1 ≠ k), m.sorted.filter _⟩

/-- The entries whose key is less than `k`. -/
def below (m : SortedMap K V) (k : K) : SortedMap K V :=
  ⟨m.entries.filter (fun e => e.1 < k), m.sorted.filter _⟩

/-- The last entry whose key is at most `k`. -/
def seekLE (m : SortedMap K V) (k : K) : Option (K × V) :=
  (m.entries.filter (fun e => e.1 ≤ k)).getLast?

/-- The entries whose key is at least `k`, in order. -/
def iterFrom (m : SortedMap K V) (k : K) : List (K × V) :=
  m.entries.filter (fun e => k ≤ e.1)

def keys (m : SortedMap K V) : List K := m.entries.map Prod.fst

/-! ### Reading -/

lemma val_unique {m : SortedMap K V} {k : K} {v w : V} (hv : (k, v) ∈ m.entries)
    (hw : (k, w) ∈ m.entries) : v = w := by
  obtain ⟨l, hs⟩ := m
  simp only at hv hw
  induction l with
  | nil => cases hv
  | cons a t ih =>
    obtain ⟨ha, ht⟩ := List.pairwise_cons.mp hs
    rcases List.mem_cons.mp hv with rfl | hv'
    · rcases List.mem_cons.mp hw with h | hw'
      · exact (congrArg Prod.snd h).symm
      · exact absurd (ha _ hw') (lt_irrefl _)
    · rcases List.mem_cons.mp hw with rfl | hw'
      · exact absurd (ha _ hv') (lt_irrefl _)
      · exact ih ht hv' hw'

lemma get_eq_some {m : SortedMap K V} {k : K} {v : V} :
    m.get k = some v ↔ (k, v) ∈ m.entries := by
  constructor
  · intro h
    obtain ⟨e, he, rfl⟩ := Option.map_eq_some_iff.mp h
    have hk : e.1 = k := by simpa using List.find?_some he
    rw [← hk]
    exact List.mem_of_find?_eq_some he
  · intro h
    rcases hf : m.entries.find? (fun e => e.1 = k) with _ | e
    · have := List.find?_eq_none.mp hf _ h
      simp at this
    · have hk : e.1 = k := by simpa using List.find?_some hf
      have he : (k, e.2) ∈ m.entries := by
        rw [← hk]; exact List.mem_of_find?_eq_some hf
      simp [get, hf, val_unique he h]

lemma get_eq_none {m : SortedMap K V} {k : K} :
    m.get k = none ↔ ∀ v, (k, v) ∉ m.entries := by
  rw [Option.eq_none_iff_forall_ne_some]
  exact forall_congr' fun v => not_congr get_eq_some

lemma mem_keys {m : SortedMap K V} {k : K} : k ∈ m.keys ↔ m.get k ≠ none := by
  rw [Option.ne_none_iff_exists']
  simp only [keys, List.mem_map, get_eq_some]
  constructor
  · rintro ⟨⟨j, v⟩, he, rfl⟩
    exact ⟨v, he⟩
  · rintro ⟨v, hv⟩
    exact ⟨(k, v), hv, rfl⟩

@[simp] lemma get_empty (k : K) : (empty : SortedMap K V).get k = none := rfl

lemma mem_put {m : SortedMap K V} {k : K} {v : V} {e : K × V} :
    e ∈ (m.put k v).entries ↔ e = (k, v) ∨ (e ∈ m.entries ∧ e.1 ≠ k) := by
  simp only [put, List.mem_append, List.mem_cons, List.mem_filter, decide_eq_true_eq]
  constructor
  · rintro (⟨h, hlt⟩ | rfl | ⟨h, hlt⟩)
    · exact Or.inr ⟨h, hlt.ne⟩
    · exact Or.inl rfl
    · exact Or.inr ⟨h, hlt.ne'⟩
  · rintro (rfl | ⟨h, hne⟩)
    · exact Or.inr (Or.inl rfl)
    · rcases lt_or_gt_of_ne hne with hlt | hlt
      · exact Or.inl ⟨h, hlt⟩
      · exact Or.inr (Or.inr ⟨h, hlt⟩)

lemma mem_erase {m : SortedMap K V} {k : K} {e : K × V} :
    e ∈ (m.erase k).entries ↔ e ∈ m.entries ∧ e.1 ≠ k := by
  simp [erase, List.mem_filter]

@[simp] lemma get_put_self (m : SortedMap K V) (k : K) (v : V) : (m.put k v).get k = some v :=
  get_eq_some.mpr (mem_put.mpr (Or.inl rfl))

lemma get_put_of_ne (m : SortedMap K V) {k j : K} (v : V) (h : j ≠ k) :
    (m.put k v).get j = m.get j := by
  ext w
  simp [get_eq_some, mem_put, h]

lemma get_put (m : SortedMap K V) (k j : K) (v : V) :
    (m.put k v).get j = if j = k then some v else m.get j := by
  split
  · next h => rw [h, get_put_self]
  · next h => exact get_put_of_ne m v h

lemma get_erase (m : SortedMap K V) (k j : K) :
    (m.erase k).get j = if j = k then none else m.get j := by
  split
  · next h =>
    subst h
    rw [get_eq_none]
    intro v hv
    exact (mem_erase.mp hv).2 rfl
  · next h =>
    ext w
    simp [get_eq_some, mem_erase, h]

lemma get_below (m : SortedMap K V) (k j : K) :
    (m.below k).get j = if j < k then m.get j else none := by
  ext w
  split
  · next h => simp [below, get_eq_some, h]
  · next h => simp [below, get_eq_some, h]

/-! ### Two maps with the same contents are one -/

lemma entries_ext {l l' : List (K × V)} (hs : l.Pairwise (fun a b => a.1 < b.1))
    (hs' : l'.Pairwise (fun a b => a.1 < b.1)) (h : ∀ e, e ∈ l ↔ e ∈ l') : l = l' := by
  refine List.Perm.eq_of_pairwise (fun a b _ _ hab hba => absurd hab hba.asymm) hs hs' ?_
  refine (List.perm_ext_iff_of_nodup ?_ ?_).mpr h
  · exact hs.imp fun hlt heq => by rw [heq] at hlt; exact lt_irrefl _ hlt
  · exact hs'.imp fun hlt heq => by rw [heq] at hlt; exact lt_irrefl _ hlt

@[ext] lemma ext_get {m m' : SortedMap K V} (h : ∀ k, m.get k = m'.get k) : m = m' := by
  obtain ⟨l, hs⟩ := m
  obtain ⟨l', hs'⟩ := m'
  have hl : l = l' := by
    refine entries_ext hs hs' fun e => ?_
    have := h e.1
    rw [← get_eq_some (m := ⟨l, hs⟩), this, get_eq_some]
  subst hl
  rfl

/-- The later write under a key is the one that counts. -/
lemma put_put (m : SortedMap K V) (k : K) (v w : V) : (m.put k v).put k w = m.put k w := by
  ext1 j
  simp only [get_put]
  split <;> rfl

lemma put_comm (m : SortedMap K V) {j k : K} (v w : V) (h : j ≠ k) :
    (m.put j v).put k w = (m.put k w).put j v := by
  ext1 i
  simp only [get_put]
  split
  · next hi =>
    subst hi
    rw [if_neg h.symm]
  · rfl

/-! ### The entries of some keys -/

section Part

variable {P : K → Prop} [DecidablePred P]

/-- The entries whose keys have a property, in order. -/
def part (P : K → Prop) [DecidablePred P] (m : SortedMap K V) : List (K × V) :=
  m.entries.filter fun e => P e.1

lemma mem_part {m : SortedMap K V} {e : K × V} : e ∈ m.part P ↔ e ∈ m.entries ∧ P e.1 := by
  simp [part]

lemma part_sorted (m : SortedMap K V) : (m.part P).Pairwise (fun a b => a.1 < b.1) :=
  m.sorted.filter _

lemma part_put_of_not (m : SortedMap K V) {k : K} (v : V) (hk : ¬ P k) :
    (m.put k v).part P = m.part P := by
  refine entries_ext (part_sorted _) (part_sorted _) fun e => ?_
  rw [mem_part, mem_part, mem_put]
  constructor
  · rintro ⟨rfl | ⟨he, -⟩, hP⟩
    · exact absurd hP hk
    · exact ⟨he, hP⟩
  · rintro ⟨he, hP⟩
    exact ⟨Or.inr ⟨he, fun heq => hk (heq ▸ hP)⟩, hP⟩

/-- A key beyond all others of its kind comes last. -/
lemma part_put_last (m : SortedMap K V) {k : K} (v : V) (hk : P k)
    (hlast : ∀ e ∈ m.part P, e.1 < k) : (m.put k v).part P = m.part P ++ [(k, v)] := by
  refine entries_ext (part_sorted _) ?_ fun e => ?_
  · refine List.pairwise_append.mpr ⟨part_sorted m, List.pairwise_singleton _ _, ?_⟩
    intro a ha b hb
    rw [List.mem_singleton.mp hb]
    exact hlast a ha
  · rw [List.mem_append, mem_part, mem_part, mem_put, List.mem_singleton]
    constructor
    · rintro ⟨rfl | ⟨he, -⟩, hP⟩
      · exact Or.inr rfl
      · exact Or.inl ⟨he, hP⟩
    · rintro (⟨he, hP⟩ | rfl)
      · exact ⟨Or.inr ⟨he, (hlast e (mem_part.mpr ⟨he, hP⟩)).ne⟩, hP⟩
      · exact ⟨Or.inl rfl, hk⟩

lemma part_erase (m : SortedMap K V) (k : K) :
    (m.erase k).part P = (m.part P).filter fun e => e.1 ≠ k := by
  simp only [part, erase, List.filter_filter, Bool.and_comm]

lemma part_erase_of_not (m : SortedMap K V) {k : K} (hk : ¬ P k) :
    (m.erase k).part P = m.part P := by
  rw [part_erase]
  refine List.filter_eq_self.mpr fun e he => ?_
  have hne : e.1 ≠ k := by
    rintro rfl
    exact hk (mem_part.mp he).2
  simpa using hne

end Part

/-! ### Cursors -/

lemma mem_iterFrom {m : SortedMap K V} {k : K} {e : K × V} :
    e ∈ m.iterFrom k ↔ m.get e.1 = some e.2 ∧ k ≤ e.1 := by
  simp [iterFrom, get_eq_some, List.mem_filter]

lemma iterFrom_sorted (m : SortedMap K V) (k : K) :
    (m.iterFrom k).Pairwise (fun a b => a.1 < b.1) :=
  m.sorted.filter _

lemma le_getLast {l : List (K × V)} (hs : l.Pairwise (fun a b => a.1 < b.1)) {e f : K × V}
    (he : l.getLast? = some e) (hf : f ∈ l) : f.1 ≤ e.1 := by
  obtain ⟨ys, rfl⟩ := List.getLast?_eq_some_iff.mp he
  rcases List.mem_append.mp hf with h | h
  · exact ((List.pairwise_append.mp hs).2.2 f h e (by simp)).le
  · rw [List.mem_singleton.mp h]

lemma seekLE_eq_some {m : SortedMap K V} {k : K} {e : K × V} :
    m.seekLE k = some e ↔ m.get e.1 = some e.2 ∧ e.1 ≤ k ∧
      ∀ j v, m.get j = some v → j ≤ k → j ≤ e.1 := by
  have hs : (m.entries.filter (fun e => e.1 ≤ k)).Pairwise (fun a b => a.1 < b.1) :=
    m.sorted.filter _
  constructor
  · intro h
    have hmem := List.mem_of_getLast? h
    simp only [List.mem_filter, decide_eq_true_eq] at hmem
    refine ⟨get_eq_some.mpr hmem.1, hmem.2, fun j v hj hle => ?_⟩
    exact le_getLast hs h (List.mem_filter.mpr ⟨get_eq_some.mp hj, by simpa using hle⟩)
  · rintro ⟨hget, hle, hmax⟩
    have hmem : e ∈ m.entries.filter (fun e => e.1 ≤ k) :=
      List.mem_filter.mpr ⟨get_eq_some.mp hget, by simpa using hle⟩
    rcases hf : (m.entries.filter (fun e => e.1 ≤ k)).getLast? with _ | f
    · rw [List.getLast?_eq_none_iff.mp hf] at hmem
      cases hmem
    · have hfm := List.mem_of_getLast? hf
      simp only [List.mem_filter, decide_eq_true_eq] at hfm
      have h1 : e.1 ≤ f.1 := le_getLast hs hf hmem
      have h2 : f.1 ≤ e.1 := hmax f.1 f.2 (get_eq_some.mpr hfm.1) hfm.2
      have hk : f.1 = e.1 := le_antisymm h2 h1
      have hv : f.2 = e.2 := by
        refine val_unique (m := m) (k := e.1) ?_ (get_eq_some.mp hget)
        rw [← hk]; exact hfm.1
      rw [seekLE, hf, ← Prod.ext hk hv]

lemma seekLE_eq_none {m : SortedMap K V} {k : K} :
    m.seekLE k = none ↔ ∀ j ≤ k, m.get j = none := by
  simp only [seekLE, List.getLast?_eq_none_iff, List.filter_eq_nil_iff, decide_eq_true_eq]
  constructor
  · intro h j hj
    exact get_eq_none.mpr fun v hv => h _ hv hj
  · intro h e he hle
    exact get_eq_none.mp (h e.1 hle) e.2 he

/-- A key that is put is found unless a greater one at or below the bound is there. -/
lemma seekLE_put (m : SortedMap K V) (a k : K) (v : V) :
    (m.put a v).seekLE k = if a ≤ k ∧ ∀ e ∈ m.seekLE k, e.1 ≤ a then some (a, v)
      else m.seekLE k := by
  by_cases hak : a ≤ k
  · rcases hseek : m.seekLE k with _ | e
    · rw [if_pos ⟨hak, by simp⟩, seekLE_eq_some]
      refine ⟨get_put_self _ _ _, hak, fun j w hj hjk => ?_⟩
      by_contra hne
      rw [get_put_of_ne _ _ fun h => hne h.le, seekLE_eq_none.mp hseek j hjk] at hj
      cases hj
    · obtain ⟨hget, hek, hmax⟩ := seekLE_eq_some.mp hseek
      by_cases hea : e.1 ≤ a
      · rw [if_pos ⟨hak, by simpa using hea⟩, seekLE_eq_some]
        refine ⟨get_put_self _ _ _, hak, fun j w hj hjk => ?_⟩
        by_cases hja : j = a
        · exact hja.le
        · rw [get_put_of_ne _ _ hja] at hj
          exact (hmax j w hj hjk).trans hea
      · rw [if_neg fun h => hea (h.2 e rfl), seekLE_eq_some]
        refine ⟨?_, hek, fun j w hj hjk => ?_⟩
        · rwa [get_put_of_ne _ _ fun h => hea h.le]
        · by_cases hja : j = a
          · exact hja ▸ (not_le.mp hea).le
          · rw [get_put_of_ne _ _ hja] at hj
            exact hmax j w hj hjk
  · rw [if_neg fun h => hak h.1]
    have hsame : ∀ j ≤ k, (m.put a v).get j = m.get j := fun j hj =>
      get_put_of_ne _ _ fun h => hak (h ▸ hj)
    rcases hseek : m.seekLE k with _ | e
    · exact seekLE_eq_none.mpr fun j hj => (hsame j hj).trans (seekLE_eq_none.mp hseek j hj)
    · obtain ⟨hget, hek, hmax⟩ := seekLE_eq_some.mp hseek
      refine seekLE_eq_some.mpr ⟨(hsame _ hek).trans hget, hek, fun j w hj hjk => ?_⟩
      exact hmax j w ((hsame j hjk).symm.trans hj) hjk

/-! ### Many entries, one after the other -/

variable {α : Type*}

/-- What is found after the entries of a list is one of them or was there before. -/
lemma get_foldl_put {key : α → K} {val : α → V} {l : List α} {m : SortedMap K V} {k : K} {v : V}
    (h : (l.foldl (fun m x => m.put (key x) (val x)) m).get k = some v) :
    (∃ x ∈ l, key x = k ∧ v = val x) ∨ m.get k = some v := by
  induction l generalizing m with
  | nil => exact Or.inr h
  | cons x l ih =>
    rcases ih h with ⟨y, hy, hkey, hval⟩ | hget
    · exact Or.inl ⟨y, List.mem_cons_of_mem _ hy, hkey, hval⟩
    · rw [get_put] at hget
      split at hget
      · next hk => exact Or.inl ⟨x, List.mem_cons_self, hk.symm, (Option.some.inj hget).symm⟩
      · exact Or.inr hget

lemma get_foldl_put_ne_none {key : α → K} {val : α → V} {l : List α} {m : SortedMap K V} {k : K}
    (h : (∃ x ∈ l, key x = k) ∨ m.get k ≠ none) :
    (l.foldl (fun m x => m.put (key x) (val x)) m).get k ≠ none := by
  induction l generalizing m with
  | nil => simpa using h
  | cons x l ih =>
    refine ih ?_
    rcases h with ⟨y, hy, hkey⟩ | hget
    · rcases List.mem_cons.mp hy with rfl | hy
      · exact Or.inr (by simp [hkey])
      · exact Or.inl ⟨y, hy, hkey⟩
    · right
      rw [get_put]
      split
      · simp
      · exact hget

end SortedMap

end RockNode
