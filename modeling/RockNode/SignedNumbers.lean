import RockNode.Session

/-!
Block numbers as `i64`.

A session keeps `u64` block numbers as `i64`, and the watermark, which is −1 while nothing is
stored, too. Two numbers on the same side of 2^63 keep their order and their distance; two on
different sides change places.
-/

namespace RockNode

/-- What a number is as `i64`. -/
lemma toInt64_toInt (n : UInt64) :
    n.toInt64.toInt = if n.toNat < 2 ^ 63 then (n.toNat : ℤ) else n.toNat - 2 ^ 64 := by
  have hbits : n.toInt64.toBitVec = n.toBitVec := rfl
  have hnat : n.toBitVec.toNat = n.toNat := rfl
  rw [← n.toInt64.toInt_toBitVec, hbits, BitVec.toInt_eq_toNat_cond, hnat]
  split <;> split <;> omega

/-! ### The watermark at start-up -/

@[simp] lemma World.init_none : (World.init none).latestPersistedBlock = -1 := rfl

@[simp] lemma World.init_some (l : UInt64) :
    (World.init (some l)).latestPersistedBlock = l.toInt64 := rfl

/-! ### Headers -/

section

variable (stored : Option UInt64) (n : UInt64)

/-- **`get_action_for_header` compares natural numbers.** With `stored` as the latest block at
start-up, a header `n` is behind exactly if its number is lower, and a duplicate by the watermark
exactly if it is the same; what is reported is the latest block and the header's number. -/
structure HeaderExact : Prop where
  behind : ∀ (session : Session) (set : List BlockItem),
    (session.onHeader (World.init stored).latestPersistedBlock n.toInt64 set).task = .behind ↔
      ∃ l ∈ stored, n.toNat < l.toNat
  duplicate : ∀ (session : Session) (set : List BlockItem),
    (session.onHeader (World.init stored).latestPersistedBlock n.toInt64 set).task =
      .respond (.endStream .duplicateBlock n) .leave ↔ ∃ l ∈ stored, n.toNat = l.toNat
  latest : ∀ l ∈ stored, (World.init stored).latestPersistedBlock.toUInt64 = l
  number : n.toInt64.toUInt64 = n

/-- The header and the latest block lie on the same side of 2^63, or nothing is stored and the
header is below it. -/
def SameSide : Prop :=
  match stored with
  | some l => n.toNat < 2 ^ 63 ↔ l.toNat < 2 ^ 63
  | none => n.toNat < 2 ^ 63

end

lemma onHeader_behind_iff (session : Session) (latest n : Int64) (set : List BlockItem) :
    (session.onHeader latest n set).task = .behind ↔ n < latest := by
  unfold Session.onHeader
  split
  · next h => simp [h, Session.execute]
  · next h =>
    split
    · simp [h, Session.execute]
    · simp [h]

lemma onHeader_duplicate_iff (session : Session) (latest : Int64) (n : UInt64)
    (set : List BlockItem) : (session.onHeader latest n.toInt64 set).task =
      .respond (.endStream .duplicateBlock n) .leave ↔ n.toInt64 = latest := by
  unfold Session.onHeader
  split
  · next h =>
    have hne : n.toInt64 ≠ latest := by
      rintro rfl
      exact Int64.lt_irrefl h
    simp [hne, Session.execute]
  · split
    · next h =>
      subst h
      simp [Session.execute, Session.blockNumber]
    · next h => simp [h]

lemma headerExact_iff (stored : Option UInt64) (n : UInt64) : HeaderExact stored n ↔
    (n.toInt64 < (World.init stored).latestPersistedBlock ↔ ∃ l ∈ stored, n.toNat < l.toNat) ∧
    (n.toInt64 = (World.init stored).latestPersistedBlock ↔ ∃ l ∈ stored, n.toNat = l.toNat) := by
  constructor
  · intro h
    rw [← h.behind .new [], ← h.duplicate .new [], onHeader_behind_iff, onHeader_duplicate_iff]
    exact ⟨Iff.rfl, Iff.rfl⟩
  · rintro ⟨hbehind, hduplicate⟩
    refine ⟨fun session set => ?_, fun session set => ?_, ?_, UInt64.toUInt64_toInt64 n⟩
    · rw [onHeader_behind_iff, hbehind]
    · rw [onHeader_duplicate_iff, hduplicate]
    · rintro l rfl
      exact UInt64.toUInt64_toInt64 l

lemma headerExact_iff_sameSide (stored : Option UInt64) (n : UInt64) :
    HeaderExact stored n ↔ SameSide stored n := by
  rw [headerExact_iff]
  have hlt := n.toNat_lt
  cases stored with
  | none =>
    -- below 2^63 the number is above −1; the others are at or below it
    rw [World.init_none, Int64.lt_iff_toInt_lt, ← Int64.toInt_inj, toInt64_toInt]
    have hone : (-1 : Int64).toInt = -1 := by decide
    simp only [hone, SameSide, Option.not_mem_none, false_and, exists_false, iff_false]
    split <;> omega
  | some l =>
    have hl := l.toNat_lt
    simp only [World.init_some, SameSide, Option.mem_some_iff, exists_eq_left',
      Int64.lt_iff_toInt_lt, ← Int64.toInt_inj, toInt64_toInt]
    split <;> split <;> omega

/-! ### `EndStream` requests -/

/-- **`handle_end_stream` counts in natural numbers.** Nothing overflows, the latest block is
compared as what it is, and the gap that is logged is the distance of the two numbers. -/
structure EndStreamExact (stored : Option UInt64) (latest : UInt64) : Prop where
  inRange : Session.EndStreamInRange latest (World.init stored).latestPersistedBlock
  compared : ∃ l ∈ stored, (World.init stored).latestPersistedBlock.toUInt64 = l
  gap : ∀ l ∈ stored, l.toNat + 100 < latest.toNat →
    latest.toInt64.toInt - (World.init stored).latestPersistedBlock.toInt = latest.toNat - l.toNat

/-- A block is stored, it is not one of the last hundred, and a publisher that is far ahead is on
the same side of 2^63. -/
def NearEnough (stored : Option UInt64) (latest : UInt64) : Prop :=
  match stored with
  | some l => l.toNat + 100 ≤ u64Max ∧
    (l.toNat + 100 < latest.toNat → l.toNat < 2 ^ 63 → latest.toNat < 2 ^ 63)
  | none => False

lemma endStreamExact_iff_nearEnough (stored : Option UInt64) (latest : UInt64) :
    EndStreamExact stored latest ↔ NearEnough stored latest := by
  cases stored with
  | none =>
    refine iff_of_false (fun h => ?_) id
    obtain ⟨l, hl, -⟩ := h.compared
    cases hl
  | some l =>
    have hl := l.toNat_lt
    have hlatest := latest.toNat_lt
    have hcast : (World.init (some l)).latestPersistedBlock.toUInt64 = l :=
      UInt64.toUInt64_toInt64 l
    constructor
    · rintro ⟨hrange, -, hgap⟩
      simp only [Session.EndStreamInRange, hcast] at hrange
      refine ⟨hrange.1, fun hfar hside => ?_⟩
      have := hgap l rfl hfar
      rw [World.init_some, toInt64_toInt, toInt64_toInt, if_pos hside] at this
      split at this <;> omega
    · rintro ⟨hmax, hside⟩
      have hdistance : l.toNat + 100 < latest.toNat →
          latest.toInt64.toInt - (World.init (some l)).latestPersistedBlock.toInt =
            latest.toNat - l.toNat := by
        intro hfar
        rw [World.init_some, toInt64_toInt, toInt64_toInt]
        split <;> split <;> omega
      refine ⟨⟨by rw [hcast]; exact hmax, fun hfar => ?_⟩, ⟨l, rfl, hcast⟩, ?_⟩
      · rw [hcast] at hfar
        have := hside hfar
        rw [hdistance hfar]
        omega
      · rintro m ⟨⟩
        exact hdistance

/-- **When the signed arithmetic is that of block numbers**, for a header and for an `EndStream`
request with this number. -/
theorem signed_arithmetic_iff (stored : Option UInt64) (n : UInt64) :
    (HeaderExact stored n ↔ SameSide stored n) ∧
      (EndStreamExact stored n ↔ NearEnough stored n) :=
  ⟨headerExact_iff_sameSide stored n, endStreamExact_iff_nearEnough stored n⟩

/-- On an empty node the header 2^63 is behind, and every `EndStream` request overflows. -/
theorem signed_arithmetic_empty :
    (¬ ∀ (stored : Option UInt64) (n : UInt64), HeaderExact stored n) ∧
      ¬ ∀ (stored : Option UInt64) (n : UInt64), EndStreamExact stored n := by
  constructor
  · intro h
    have hbehind := (h none (2 ^ 63)).behind .new []
    have hless : (2 ^ 63 : UInt64).toInt64 < (World.init none).latestPersistedBlock := by
      decide +kernel
    obtain ⟨l, hl, -⟩ := hbehind.mp ((onHeader_behind_iff _ _ _ _).mpr hless)
    cases hl
  · intro h
    have hrange := (h none 0).inRange.1
    exact absurd hrange (by decide)

end RockNode
