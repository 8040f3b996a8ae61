import RockNode.Wire

/-!
Blocks of the stream and the codecs they pass through.

A message keeps the fields that some modelled function reads; whatever else it carries is one
byte string. The codecs are third-party (prost, bincode, zstd), so they are a parameter: a
function each way and the law that decoding undoes encoding.
-/

namespace RockNode

/-- The largest `u64`. -/
def u64Max : ℕ := 2 ^ 64 - 1

/-- `u64::saturating_add`. -/
def satAdd (a b : ℕ) : ℕ := min (a + b) u64Max

/-- `a + b` on `u64`; an overflow is an arithmetic fault. -/
def checkedAdd (a b : ℕ) : Option ℕ := if a + b ≤ u64Max then some (a + b) else none

structure BlockHeader where
  number : UInt64
  rest : Bytes
  deriving DecidableEq

structure BlockProof where
  block : UInt64
  rest : Bytes
  deriving DecidableEq

/-- The value of a singleton update or a queue push: a variant the state plugin stores, as its
encoding, or one it only warns about. -/
inductive StateValue where
  | handled (encoding : Bytes)
  | unhandled
  deriving DecidableEq

inductive ChangeOperation where
  | mapUpdate (key value : Option Bytes)
  | mapDelete (key : Option Bytes)
  | singletonUpdate (newValue : Option StateValue)
  | queuePush (value : Option StateValue)
  | queuePop
  | other
  deriving DecidableEq

structure StateChange where
  stateId : UInt32
  changeOperation : Option ChangeOperation
  deriving DecidableEq

structure StateChanges where
  consensusTimestamp : Option Bytes
  stateChanges : List StateChange
  deriving DecidableEq

inductive Item where
  | blockHeader (header : BlockHeader)
  | blockProof (proof : BlockProof)
  | stateChanges (set : StateChanges)
  | other (rest : Bytes)
  deriving DecidableEq

structure BlockItem where
  item : Option Item
  deriving DecidableEq

structure Block where
  items : List BlockItem
  deriving DecidableEq

/-- `get_block_number`: the number in the header that must come first. -/
def getBlockNumber (block : Block) : Option ℕ :=
  match block.items.head? with
  | some ⟨some (.blockHeader header)⟩ => some header.number.toNat
  | _ => none

lemma getBlockNumber_le {block : Block} {n : ℕ} (h : getBlockNumber block = some n) :
    n ≤ u64Max := by
  unfold getBlockNumber at h
  split at h
  · next header _ =>
    have := header.number.toNat_lt
    simp only [Option.some.injEq] at h
    simp only [u64Max]
    omega
  · cases h

/-- A block that holds nothing but its header. -/
def headerBlock (n : UInt64) (rest : Bytes) : Block := ⟨[⟨some (.blockHeader ⟨n, rest⟩)⟩]⟩

/-- The encodings a block passes through on its way to disk and back. -/
structure Codec where
  encode : Block → Bytes
  decode : Bytes → Option Block
  serialize : Bytes → Bytes
  deserialize : Bytes → Option Bytes
  compress : Bytes → Bytes
  decompress : Bytes → Option Bytes
  decode_encode : ∀ block, decode (encode block) = some block
  deserialize_serialize : ∀ contents, deserialize (serialize contents) = some contents
  decompress_compress : ∀ contents, decompress (compress contents) = some contents

attribute [simp] Codec.decode_encode Codec.deserialize_serialize Codec.decompress_compress

/-! ### A codec with these laws -/

namespace Format

def bytes : Format Bytes := byte.list

lemma bytes_enc (x : Bytes) : bytes.enc x = List.replicate x.length 1 ++ 0 :: x := by
  simp [bytes, list, byte]

/-- Nothing can be read from a string that is cut short. -/
lemma decAll_take {x : Bytes} {m : ℕ} (h : m < (bytes.enc x).length) :
    bytes.decAll ((bytes.enc x).take m) = none := by
  have hdec : bytes.dec ((bytes.enc x).take m) = none := by
    rw [bytes_enc] at h ⊢
    simp only [List.length_append, List.length_replicate, List.length_cons] at h
    change (decCount _).bind (fun r => decTimes byte r.1 r.2) = none
    rcases Nat.lt_or_ge x.length m with hlt | hge
    · obtain ⟨j, rfl⟩ : ∃ j, m = x.length + (j + 1) := ⟨m - x.length - 1, by omega⟩
      have htake : (List.replicate x.length (1 : UInt8) ++ 0 :: x).take (x.length + (j + 1)) =
          List.replicate x.length 1 ++ 0 :: x.take j := by
        rw [List.take_append]
        simp
      rw [htake, decCount_replicate]
      exact decTimes_short (by simp; omega)
    · rw [List.take_append_of_le_length (by simpa using hge), List.take_replicate,
        Nat.min_eq_left hge, decCount_ones]
      rfl
  simp [decAll, hdec]

def stateValue : Format StateValue :=
  (sum bytes unit).via
    (fun | .handled e => .inl e | .unhandled => .inr ())
    (Sum.elim .handled fun _ => .unhandled) (by rintro (_ | _) <;> rfl)

def changeOperation : Format ChangeOperation :=
  (sum (bytes.option.prod bytes.option) (sum bytes.option
    (sum stateValue.option (sum stateValue.option (sum unit unit))))).via
    (fun
      | .mapUpdate k v => .inl (k, v)
      | .mapDelete k => .inr (.inl k)
      | .singletonUpdate v => .inr (.inr (.inl v))
      | .queuePush v => .inr (.inr (.inr (.inl v)))
      | .queuePop => .inr (.inr (.inr (.inr (.inl ()))))
      | .other => .inr (.inr (.inr (.inr (.inr ())))))
    (Sum.elim (fun x => .mapUpdate x.1 x.2) (Sum.elim .mapDelete (Sum.elim .singletonUpdate
      (Sum.elim .queuePush (Sum.elim (fun _ => .queuePop) fun _ => .other)))))
    (by rintro (_ | _) <;> rfl)

def stateChange : Format StateChange :=
  (u64.prod changeOperation.option).via (fun c => (c.stateId.toUInt64, c.changeOperation))
    (fun x => ⟨x.1.toUInt32, x.2⟩) (by rintro ⟨i, o⟩; simp)

def item : Format Item :=
  (sum (u64.prod bytes) (sum (u64.prod bytes) (sum (bytes.option.prod stateChange.list) bytes))).via
    (fun
      | .blockHeader h => .inl (h.number, h.rest)
      | .blockProof p => .inr (.inl (p.block, p.rest))
      | .stateChanges s => .inr (.inr (.inl (s.consensusTimestamp, s.stateChanges)))
      | .other r => .inr (.inr (.inr r)))
    (Sum.elim (fun x => .blockHeader ⟨x.1, x.2⟩) (Sum.elim (fun x => .blockProof ⟨x.1, x.2⟩)
      (Sum.elim (fun x => .stateChanges ⟨x.1, x.2⟩) .other)))
    (by rintro (_ | _) <;> rfl)

def block : Format Block :=
  item.option.list.via (fun b => b.items.map BlockItem.item) (fun l => ⟨l.map BlockItem.mk⟩)
    (by
      rintro ⟨l⟩
      have h : BlockItem.mk ∘ BlockItem.item = id := rfl
      simp [h])

end Format

/-- A codec that stores everything as it is, with delimiters. -/
def plainCodec : Codec where
  encode := Format.block.enc
  decode := Format.block.decAll
  serialize := Format.bytes.enc
  deserialize := Format.bytes.decAll
  compress := Format.bytes.enc
  decompress := Format.bytes.decAll
  decode_encode := Format.block.decAll_enc
  deserialize_serialize := Format.bytes.decAll_enc
  decompress_compress := Format.bytes.decAll_enc

lemma length_encode (n : UInt64) (rest : Bytes) :
    (plainCodec.encode (headerBlock n rest)).length = 2 * rest.length + 13 := by
  simp [plainCodec, Format.block, Format.item, Format.via, Format.list, Format.option, Format.sum,
    Format.prod, Format.u64, headerBlock, Format.bytes_enc]
  omega

end RockNode
