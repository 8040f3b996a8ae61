import Mathlib.Data.Char
import Mathlib.Data.List.Lex
import Mathlib.Tactic

/-!
The names of archive files.

An archive of the blocks `first` to `last` is a pair of files whose names spell the two
numbers with at least ten digits; the reader takes the numbers back from the index file's name.
A number of more than ten digits is written in full but not recognised again.
-/

namespace RockNode

abbrev FileName := List Char

/-- `{:010}`. -/
def pad10 (n : ℕ) : List Char := (Nat.toDigits 10 n).leftpad 10 '0'

def blocksText : List Char := ['b', 'l', 'o', 'c', 'k', 's', '-']
def rbiText : List Char := ['.', 'r', 'b', 'i']

/-- `format!("blocks-{:010}-{:010}", first, last)`. -/
def filenameBase (first last : ℕ) : FileName :=
  blocksText ++ pad10 first ++ '-' :: pad10 last

def dataFilename (first last : ℕ) : FileName := filenameBase first last ++ ['.', 'r', 'b', 'a']
def indexFilename (first last : ℕ) : FileName := filenameBase first last ++ rbiText

/-- `format!("{}.tmp", name)`. -/
def tempFilename (name : FileName) : FileName := name ++ ['.', 't', 'm', 'p']

/-! ### Extensions -/

/-- The part up to the last dot and the part after it; no extension when there is no dot, or
only a leading one. -/
def splitExtension (name : FileName) : FileName × Option FileName :=
  let after := (name.reverse.takeWhile (· ≠ '.')).reverse
  let before := (name.reverse.dropWhile (· ≠ '.')).reverse.dropLast
  if after.length = name.length ∨ before = [] then (name, none) else (before, some after)

def extension (name : FileName) : Option FileName := (splitExtension name).2

def withExtension (name ext : FileName) : FileName := (splitExtension name).1 ++ '.' :: ext

/-! ### Reading the numbers back -/

/-- `\d{10}` at the front, as the number it spells. -/
def tenDigits (s : List Char) : Option (ℕ × List Char) :=
  let d := s.take 10
  if d.length = 10 ∧ d.all Char.isDigit then some (Nat.ofDigitChars 10 d 0, s.drop 10) else none

/-- The given text at the front. -/
def literal (text s : List Char) : Option (List Char) :=
  if text.isPrefixOf s then some (s.drop text.length) else none

/-- `blocks-(\d{10})-(\d{10})\.rbi` at the front. -/
def matchAt (s : List Char) : Option (ℕ × ℕ) := do
  let s ← literal blocksText s
  let (start, s) ← tenDigits s
  let s ← literal ['-'] s
  let (stop, s) ← tenDigits s
  let _ ← literal rbiText s
  pure (start, stop)

/-- `parse_block_range`: the leftmost match. -/
def parseBlockRange : FileName → Option (ℕ × ℕ)
  | [] => none
  | c :: rest =>
    match matchAt (c :: rest) with
    | some r => some r
    | none => parseBlockRange rest

/-! ### Padded numbers -/

lemma pad10_eq (n : ℕ) :
    pad10 n = List.replicate (10 - (Nat.toDigits 10 n).length) '0' ++ Nat.toDigits 10 n := rfl

lemma pad10_isDigit {n : ℕ} {c : Char} (h : c ∈ pad10 n) : c.isDigit = true := by
  rw [pad10_eq, List.mem_append] at h
  rcases h with h | h
  · rw [List.eq_of_mem_replicate h]; decide
  · exact Nat.isDigit_of_mem_toDigits (by decide) (by decide) h

lemma ofDigitChars_pad10 (n : ℕ) : Nat.ofDigitChars 10 (pad10 n) 0 = n := by
  rw [pad10_eq, Nat.ofDigitChars_append, Nat.ofDigitChars_replicate_zero, Nat.mul_zero,
    Nat.ofDigitChars_ten_toDigits]

lemma pad10_injective {m n : ℕ} (h : pad10 m = pad10 n) : m = n := by
  rw [← ofDigitChars_pad10 m, h, ofDigitChars_pad10]

lemma pad10_length (n : ℕ) : (pad10 n).length = max 10 (Nat.toDigits 10 n).length := by
  simp only [pad10_eq, List.length_append, List.length_replicate]
  omega

lemma pad10_length_of_lt {n : ℕ} (h : n < 10 ^ 10) : (pad10 n).length = 10 := by
  have := (Nat.length_toDigits_le_iff (b := 10) (n := n) (k := 10) (by decide) (by decide)).mpr h
  rw [pad10_length]
  omega

lemma lt_pad10_length {n : ℕ} (h : 10 ^ 10 ≤ n) : 10 < (pad10 n).length := by
  have := (Nat.length_toDigits_le_iff (b := 10) (n := n) (k := 10) (by decide) (by decide)).mp.mt
    (by omega)
  rw [pad10_length]
  omega

lemma tenDigits_pad10 {n : ℕ} (h : n < 10 ^ 10) (rest : List Char) :
    tenDigits (pad10 n ++ rest) = some (n, rest) := by
  have hlen := pad10_length_of_lt h
  have htake : (pad10 n ++ rest).take 10 = pad10 n := by rw [← hlen, List.take_left]
  have hdrop : (pad10 n ++ rest).drop 10 = rest := by rw [← hlen, List.drop_left]
  have hall : (pad10 n).all Char.isDigit = true := by
    rw [List.all_eq_true]
    exact fun c hc => pad10_isDigit hc
  simp only [tenDigits, htake, hdrop, hlen, hall, ofDigitChars_pad10, and_self, if_true]

/-- Eleven digits or more: after ten of them there is one more. -/
lemma tenDigits_pad10_of_le {n : ℕ} (h : 10 ^ 10 ≤ n) (rest : List Char) :
    ∃ m c tail, tenDigits (pad10 n ++ rest) = some (m, c :: tail) ∧ c.isDigit = true := by
  have hlen := lt_pad10_length h
  have htake : (pad10 n ++ rest).take 10 = (pad10 n).take 10 :=
    List.take_append_of_le_length (by omega)
  have hdrop : (pad10 n ++ rest).drop 10 = (pad10 n).drop 10 ++ rest :=
    List.drop_append_of_le_length (by omega)
  have hall : ((pad10 n).take 10).all Char.isDigit = true := by
    rw [List.all_eq_true]
    exact fun c hc => pad10_isDigit (List.mem_of_mem_take hc)
  rcases hd : (pad10 n).drop 10 with _ | ⟨c, tail⟩
  · have := congrArg List.length hd
    simp at this
    omega
  · refine ⟨Nat.ofDigitChars 10 ((pad10 n).take 10) 0, c, tail ++ rest, ?_, ?_⟩
    · have hl : ((pad10 n).take 10).length = 10 := by simp; omega
      simp only [tenDigits, htake, hdrop, hd, hl, hall, and_self, if_true, List.cons_append]
    · exact pad10_isDigit (List.mem_of_mem_drop (hd ▸ List.mem_cons_self))

/-! ### Names and numbers -/

lemma literal_append (text s : List Char) : literal text (text ++ s) = some s := by
  simp [literal]

lemma literal_cons_of_ne {a c : Char} {text s : List Char} (h : a ≠ c) :
    literal (a :: text) (c :: s) = none := by
  simp [literal, List.isPrefixOf, h]

lemma indexFilename_eq (first last : ℕ) : indexFilename first last =
    blocksText ++ (pad10 first ++ (['-'] ++ (pad10 last ++ rbiText))) := by
  simp [indexFilename, filenameBase]

lemma matchAt_indexFilename {first last : ℕ} (hf : first < 10 ^ 10) (hl : last < 10 ^ 10) :
    matchAt (indexFilename first last) = some (first, last) := by
  have h5 : literal rbiText rbiText = some [] := by decide
  simp only [matchAt, indexFilename_eq, literal_append, tenDigits_pad10 hf, tenDigits_pad10 hl, h5,
    Option.bind_eq_bind, Option.bind_some, Option.pure_def]

/-- A number that is too long is not followed by what the pattern wants. -/
lemma matchAt_indexFilename_of_le {first last : ℕ} (h : 10 ^ 10 ≤ first ∨ 10 ^ 10 ≤ last) :
    matchAt (indexFilename first last) = none := by
  have hdash : ∀ {c : Char} {s}, c.isDigit = true → literal ['-'] (c :: s) = none := by
    intro c s hc
    exact literal_cons_of_ne (by rintro rfl; exact absurd hc (by decide))
  have hdot : ∀ {c : Char} {s}, c.isDigit = true → literal rbiText (c :: s) = none := by
    intro c s hc
    exact literal_cons_of_ne (by rintro rfl; exact absurd hc (by decide))
  by_cases hf : 10 ^ 10 ≤ first
  · obtain ⟨m, c, tail, h2, h3⟩ := tenDigits_pad10_of_le hf
      (['-'] ++ (pad10 last ++ rbiText))
    simp only [matchAt, indexFilename_eq, literal_append, h2, hdash h3, Option.bind_eq_bind,
      Option.bind_some, Option.bind_none]
  · obtain ⟨m, c, tail, h2, h3⟩ := tenDigits_pad10_of_le (h.resolve_left hf) rbiText
    simp only [matchAt, indexFilename_eq, literal_append, tenDigits_pad10 (Nat.lt_of_not_le hf), h2,
      hdot h3, Option.bind_eq_bind, Option.bind_some, Option.bind_none]

/-- No match begins at a letter other than `b`. -/
lemma parseBlockRange_append {s : List Char} (h : ∀ c ∈ s, c ≠ 'b') (t : List Char) :
    parseBlockRange (s ++ t) = parseBlockRange t := by
  induction s with
  | nil => rfl
  | cons c s ih =>
    have hc : literal blocksText (c :: (s ++ t)) = none :=
      literal_cons_of_ne (h c List.mem_cons_self).symm
    have hm : matchAt (c :: (s ++ t)) = none := by
      simp only [matchAt, hc, Option.bind_eq_bind, Option.bind_none]
    rw [List.cons_append, parseBlockRange, hm]
    exact ih fun d hd => h d (List.mem_cons_of_mem _ hd)

/-- **The reader gets the numbers back exactly when both have at most ten digits.** -/
theorem parseBlockRange_eq (first last : ℕ) :
    parseBlockRange (indexFilename first last) =
      if first < 10 ^ 10 ∧ last < 10 ^ 10 then some (first, last) else none := by
  have hcons : indexFilename first last =
      'b' :: ((['l', 'o', 'c', 'k', 's', '-'] ++ pad10 first ++ '-' :: pad10 last ++ ['.', 'r']) ++
        ['b', 'i']) := by
    simp [indexFilename, filenameBase, blocksText, rbiText]
  have htail : parseBlockRange ((['l', 'o', 'c', 'k', 's', '-'] ++ pad10 first ++
      '-' :: pad10 last ++ ['.', 'r']) ++ ['b', 'i']) = none := by
    rw [parseBlockRange_append]
    · decide
    · intro c hc
      have hdigit : ∀ {n}, c ∈ pad10 n → c ≠ 'b' := by
        rintro n hn rfl
        exact absurd (pad10_isDigit hn) (by decide)
      simp only [List.mem_append, List.mem_cons] at hc
      rcases hc with ((hc | hc) | (rfl | hc)) | hc
      · rintro rfl; revert hc; decide
      · exact hdigit hc
      · decide
      · exact hdigit hc
      · rintro rfl; revert hc; decide
  rw [hcons, parseBlockRange, htail, ← hcons]
  by_cases h : first < 10 ^ 10 ∧ last < 10 ^ 10
  · rw [if_pos h, matchAt_indexFilename h.1 h.2]
  · rw [if_neg h, matchAt_indexFilename_of_le (by omega)]

example : parseBlockRange (indexFilename 7 12) = some (7, 12) := by decide +kernel

lemma digit_lt {c : Char} (h : c.isDigit = true) : c.toNat - '0'.toNat < 10 := by
  simp only [Char.isDigit, Bool.and_eq_true, decide_eq_true_eq, ge_iff_le,
    UInt32.le_iff_toNat_le] at h
  have h1 : c.toNat = c.val.toNat := rfl
  have h2 : '0'.val.toNat = 48 := rfl
  have h3 : '9'.val.toNat = 57 := rfl
  have h4 : '0'.toNat = 48 := rfl
  omega

lemma ofDigitChars_lt {d : List Char} (h : d.all Char.isDigit = true) (init : ℕ) :
    Nat.ofDigitChars 10 d init < (init + 1) * 10 ^ d.length := by
  induction d generalizing init with
  | nil => simp [Nat.ofDigitChars]
  | cons c d ih =>
    rw [List.all_cons, Bool.and_eq_true] at h
    have hc := digit_lt h.1
    rw [Nat.ofDigitChars_cons, List.length_cons, Nat.pow_succ']
    calc Nat.ofDigitChars 10 d (10 * init + (c.toNat - '0'.toNat))
        < (10 * init + (c.toNat - '0'.toNat) + 1) * 10 ^ d.length := ih h.2 _
      _ ≤ (10 * (init + 1)) * 10 ^ d.length := Nat.mul_le_mul_right _ (by omega)
      _ = (init + 1) * (10 * 10 ^ d.length) := by ring

lemma tenDigits_lt {s : List Char} {n : ℕ} {rest : List Char} (h : tenDigits s = some (n, rest)) :
    n < 10 ^ 10 := by
  simp only [tenDigits] at h
  split at h
  · next hd =>
    cases h
    have := ofDigitChars_lt hd.2 0
    rwa [hd.1, Nat.zero_add, Nat.one_mul] at this
  · cases h

/-- No name spells a number of more than ten digits. -/
lemma parseBlockRange_lt {name : FileName} {r : ℕ × ℕ} (h : parseBlockRange name = some r) :
    r.1 < 10 ^ 10 ∧ r.2 < 10 ^ 10 := by
  induction name with
  | nil => cases h
  | cons c rest ih =>
    rw [parseBlockRange] at h
    split at h
    · next found hmatch =>
      cases h
      simp only [matchAt, Option.bind_eq_bind, Option.bind_eq_some_iff] at hmatch
      obtain ⟨s, -, ⟨first, s'⟩, hfirst, s'', -, ⟨last, s'''⟩, hlast, -, -, hr⟩ := hmatch
      cases hr
      exact ⟨tenDigits_lt hfirst, tenDigits_lt hlast⟩
    · exact ih h

/-! ### Names are told apart -/

/-- The digits in front of a character that is none. -/
lemma takeWhile_pad10 (n : ℕ) {c : Char} (hc : c.isDigit = false) (rest : List Char) :
    (pad10 n ++ c :: rest).takeWhile Char.isDigit = pad10 n := by
  rw [List.takeWhile_append_of_pos (fun d hd => pad10_isDigit hd)]
  simp [hc]

lemma filenameBase_first {first last first' last' : ℕ} {s t : List Char}
    (h : filenameBase first last ++ s = filenameBase first' last' ++ t) : first = first' := by
  have h1 : pad10 first ++ '-' :: (pad10 last ++ s) =
      pad10 first' ++ '-' :: (pad10 last' ++ t) := by
    simpa [filenameBase] using h
  have h2 := congrArg (List.takeWhile Char.isDigit) h1
  rw [takeWhile_pad10 _ (by decide), takeWhile_pad10 _ (by decide)] at h2
  exact pad10_injective h2

lemma splitExtension_append (stem : FileName) {ext : FileName} (hs : stem ≠ [])
    (he : '.' ∉ ext) : splitExtension (stem ++ '.' :: ext) = (stem, some ext) := by
  have hrev : (stem ++ '.' :: ext).reverse = ext.reverse ++ '.' :: stem.reverse := by simp
  have hall : ∀ c ∈ ext.reverse, (decide (c ≠ '.')) = true := by
    intro c hc
    rw [decide_eq_true_iff]
    rintro rfl
    exact he (List.mem_reverse.mp hc)
  have htake : ((stem ++ '.' :: ext).reverse.takeWhile (· ≠ '.')).reverse = ext := by
    rw [hrev, List.takeWhile_append_of_pos hall]
    simp
  have hdrop : ((stem ++ '.' :: ext).reverse.dropWhile (· ≠ '.')).reverse.dropLast = stem := by
    rw [hrev, List.dropWhile_append_of_pos hall]
    simp
  simp only [splitExtension, htake, hdrop]
  rw [if_neg]
  simp only [List.length_append, List.length_cons, hs, or_false]
  omega

lemma filenameBase_ne_nil (first last : ℕ) : filenameBase first last ≠ [] := by
  simp [filenameBase]

lemma extension_indexFilename (first last : ℕ) :
    extension (indexFilename first last) = some ['r', 'b', 'i'] := by
  have h : indexFilename first last = filenameBase first last ++ '.' :: ['r', 'b', 'i'] := rfl
  rw [extension, h, splitExtension_append _ (filenameBase_ne_nil _ _) (by decide)]

lemma withExtension_indexFilename (first last : ℕ) :
    withExtension (indexFilename first last) ['r', 'b', 'a'] = dataFilename first last := by
  have h : indexFilename first last = filenameBase first last ++ '.' :: ['r', 'b', 'i'] := rfl
  rw [withExtension, h, splitExtension_append _ (filenameBase_ne_nil _ _) (by decide)]
  rfl

lemma extension_dataFilename (first last : ℕ) :
    extension (dataFilename first last) = some ['r', 'b', 'a'] := by
  have h : dataFilename first last = filenameBase first last ++ '.' :: ['r', 'b', 'a'] := rfl
  rw [extension, h, splitExtension_append _ (filenameBase_ne_nil _ _) (by decide)]

lemma extension_tempFilename {name : FileName} (h : name ≠ []) :
    extension (tempFilename name) = some ['t', 'm', 'p'] := by
  have h1 : tempFilename name = name ++ '.' :: ['t', 'm', 'p'] := rfl
  rw [extension, h1, splitExtension_append _ h (by decide)]

end RockNode
