import RockNode.Archiver
import RockNode.WriteSpec

/-!
The length of a stored value.

RocksDB takes values of up to `u32::MAX` bytes. The `put` of a longer one is refused, but
`put_cf` does not hand the refusal on: `write_block` commits what is left of its batch, returns
`Ok` and has stored no block. For a block whose value is taken the call is `Store.write`.
-/

namespace RockNode

variable {cfg : Config} {codec : Codec}

def u32Max : ℕ := 2 ^ 32 - 1

/-- A batch takes every operation except the `put` of a value that is too long. -/
def Op.isTaken : Op → Bool
  | .putHot _ value => decide (value.length ≤ u32Max)
  | _ => true

/-- `commit_batch` on what the batch has taken. -/
def commitTaken (batch : WriteBatch) (db : Db) : Db := commitBatch (batch.filter Op.isTaken) db

/-- RocksDB takes the value of the block. -/
def Codec.Storable (codec : Codec) (block : Block) : Prop :=
  (codec.serialize (codec.encode block)).length ≤ u32Max

instance Codec.Storable.decidable (codec : Codec) (block : Block) :
    Decidable (codec.Storable block) :=
  inferInstanceAs (Decidable (_ ≤ _))

/-- One call of `write_block`, with a batch that may refuse the block. -/
def Store.rocksWrite (cfg : Config) (codec : Codec) (s : Store) (block : Block) : Store :=
  match getBlockNumber block with
  | none => s
  | some n =>
    match (prepareBatch cfg codec block n).run s.db with
    | none => s
    | some (batch, _) => ⟨commitTaken batch s.db, (n, block) :: s.log⟩

/-! ### What is left of a batch -/

/-- Of the batch of `write_block` only the block itself can be refused, and nothing else in it
touches the hot tier. -/
lemma fullBatch_mem {block : Block} {n : ℕ} {p e h : Option ℕ} {ops : WriteBatch}
    (hops : ∀ o ∈ ops, o.isContiguous = true) {o : Op}
    (ho : o ∈ fullBatch cfg codec block n p e h ops) :
    o = .putHot n (codec.serialize (codec.encode block)) ∨
      (o.isTaken = true ∧ ∀ m, o.onHot m = m) := by
  have hmeta : ∀ {k v} {c : Prop} [Decidable c], o ∈ (if c then [Op.putMeta k v] else []) →
      o.isTaken = true ∧ ∀ m, o.onHot m = m := by
    intro k v c _ hmem
    split at hmem
    · rw [List.mem_singleton.mp hmem]
      exact ⟨rfl, fun _ => rfl⟩
    · cases hmem
  simp only [fullBatch, List.mem_append] at ho
  rcases ho with (((ho | ho) | ho) | ho) | ho
  · exact Or.inl (List.mem_singleton.mp ho)
  · exact Or.inr (hmeta ho)
  · exact Or.inr (hmeta ho)
  · have hcontiguous := hops o ho
    cases o with
    | putHot k v => cases hcontiguous
    | deleteHot k => cases hcontiguous
    | _ => exact Or.inr ⟨rfl, fun _ => rfl⟩
  · exact Or.inr (hmeta ho)

/-- A call of `write_block` comes to nothing, or it commits what its batch takes. -/
lemma Store.rocksWrite_cases (cfg : Config) (codec : Codec) (s : Store) (block : Block) :
    (s.write cfg codec block = s ∧ s.rocksWrite cfg codec block = s) ∨ ∃ n batch,
      s.write cfg codec block = ⟨commitBatch batch s.db, (n, block) :: s.log⟩ ∧
      s.rocksWrite cfg codec block = ⟨commitTaken batch s.db, (n, block) :: s.log⟩ ∧
      ∀ o ∈ batch, o = .putHot n (codec.serialize (codec.encode block)) ∨
        (o.isTaken = true ∧ ∀ m, o.onHot m = m) := by
  unfold Store.write Store.rocksWrite
  rcases getBlockNumber block with _ | n
  · exact Or.inl ⟨rfl, rfl⟩
  rcases hrun : (contiguousOps n (max (latestOrSeed cfg s.db) n) (highestContiguous s.db)).run s.db
    with _ | ops
  · exact Or.inl (by simp only [prepareBatch_run, hrun, Option.map_none, and_self])
  · have hprepared := prepareBatch_run cfg codec block n s.db
    rw [hrun, Option.map_some] at hprepared
    simp only [hprepared]
    refine Or.inr ⟨n, _, rfl, rfl, fun o ho => ?_⟩
    exact fullBatch_mem ((contiguousOps_ensures _ _ _).of_run hrun) ho

/-- **A value that is short enough is taken**: the call is the one without a limit. -/
theorem Store.rocksWrite_eq_write {s : Store} {block : Block} (h : codec.Storable block) :
    s.rocksWrite cfg codec block = s.write cfg codec block := by
  rcases s.rocksWrite_cases cfg codec block with ⟨hw, hr⟩ | ⟨n, batch, hw, hr, hbatch⟩
  · rw [hw, hr]
  · have htaken : batch.filter Op.isTaken = batch := by
      refine List.filter_eq_self.mpr fun o ho => ?_
      rcases hbatch o ho with rfl | ⟨ho, -⟩
      · exact decide_eq_true h
      · exact ho
    rw [hw, hr, commitTaken, htaken]

/-- **A longer one is not stored**, although the call commits its batch. -/
theorem Store.rocksWrite_refused {s : Store} {block : Block} (h : ¬ codec.Storable block) :
    (s.rocksWrite cfg codec block).db.hotBlocks = s.db.hotBlocks := by
  rcases s.rocksWrite_cases cfg codec block with ⟨-, hr⟩ | ⟨n, batch, -, hr, hbatch⟩
  · rw [hr]
  · have hleft : ∀ o ∈ batch.filter Op.isTaken, ∀ m, o.onHot m = m := by
      intro o ho
      obtain ⟨hmem, htaken⟩ := List.mem_filter.mp ho
      rcases hbatch o hmem with rfl | ⟨-, hhot⟩
      · exact absurd (of_decide_eq_true htaken) h
      · exact hhot
    rw [hr, commitTaken, commitBatch_hotBlocks]
    exact batchHot_of_forall hleft _

/-! ### Nodes -/

/-- What RocksDB takes of an action. -/
def Act.Storable (codec : Codec) : Act → Prop
  | .write block => codec.Storable block
  | _ => True

instance Act.Storable.decidable (codec : Codec) : ∀ act, Decidable (Act.Storable codec act)
  | .write block => inferInstanceAs (Decidable (codec.Storable block))
  | .trigger | .archive | .restart _ => isTrue trivial

/-- `Node.step` with the limit of RocksDB on the values that are written. -/
def Node.rocksStep (cfg : Config) (codec : Codec) (node : Node) : Act → Option Node
  | .write block => some { node with store := node.store.rocksWrite cfg codec block }
  | act => node.step cfg codec act

lemma Node.rocksStep_eq {act : Act} (h : act.Storable codec) (node : Node) :
    node.rocksStep cfg codec act = node.step cfg codec act := by
  cases act with
  | write block => simp only [Node.rocksStep, Node.step, Store.rocksWrite_eq_write h]
  | _ => rfl

end RockNode
