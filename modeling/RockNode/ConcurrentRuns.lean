import RockNode.Clash
import RockNode.Frontier

/-!
Overlapping calls of `write_block` over whole runs.

A run is made of calls, alone or two at a time in any interleaving, of the batches that the
archiver commits and of restarts. All overlapping pairs of a run are serializable exactly when
no pair conflicts in the state in which it begins.
-/

namespace RockNode

open RangeTable Prog

def Db.init (cfg : Config) : Db := initializeHighestContiguous cfg.seed Db.empty

/-- What changes the database. The archiver's batches and the indices found by a restart are
arbitrary, which adds runs and leaves none out. -/
inductive StoreAct where
  | write (block : Block)
  | together (a b : Block) (schedule : List Bool)
  | archived (start count newEarliestHot : ℕ)
  | skipped (start : ℕ)
  | restart (indices : Indices)

/-- A schedule that does not take both calls to their end is not possible. -/
def Db.step (cfg : Config) (codec : Codec) (db : Db) : StoreAct → Option Db
  | .write block => some (db.write cfg codec block)
  | .together a b schedule =>
    match runPair commitCall ⟨.reading (call cfg codec a), .reading (call cfg codec b), db⟩
        schedule with
    | ⟨.ended, .ended, db'⟩ => some db'
    | _ => none
  | .archived start count new => some (commitBatch (deleteBatch start count new) db)
  | .skipped start => some (commitBatch (addSkippedBatch start) db)
  | .restart indices => some (initializeDb cfg indices db)

/-- Two calls that overlap are serializable. -/
def StoreAct.IsSerializable (cfg : Config) (codec : Codec) (db : Db) : StoreAct → Prop
  | .together a b _ => Serializable cfg codec db a b
  | _ => True

/-- Two calls that overlap do not conflict. -/
def StoreAct.IsApart (cfg : Config) (db : Db) : StoreAct → Prop
  | .together a b _ => ¬ Conflict cfg db a b
  | _ => True

/-! ### Soundness along a run -/

lemma Db.init_sound (cfg : Config) : (Db.init cfg).Sound cfg := by
  refine ⟨⟨[], Store.init_good cfg⟩, fun _ => ?_⟩
  simp [Db.init, initializeHighestContiguous, setHighestContiguous, Db.empty, latestOrSeed,
    highestContiguous, Op.apply, Op.onMeta]

/-- Soundness is a matter of what is tracked. -/
lemma Db.Sound.congr {cfg : Config} {db db' : Db} (hs : db.Sound cfg)
    (h : db'.tracked = db.tracked) : db'.Sound cfg := by
  have hlat : db'.metadata .latestPersisted = db.metadata .latestPersisted :=
    congrArg Tracked.latestPersisted h
  have hhigh : db'.metadata .highestContiguous = db.metadata .highestContiguous :=
    congrArg Tracked.highestContiguous h
  have hear : db'.metadata .trueEarliestPersisted = db.metadata .trueEarliestPersisted :=
    congrArg Tracked.trueEarliestPersisted h
  obtain ⟨⟨log, hg⟩, hfresh⟩ := hs
  refine ⟨⟨log, (hg.congr (t := ⟨db', log⟩) (congrArg Tracked.gaps h) hhigh hlat rfl).1⟩, ?_⟩
  intro hnone
  rw [hear] at hnone
  rw [latestOrSeed, highestContiguous, hlat, hhigh]
  exact hfresh hnone

lemma Db.Sound.restart {cfg : Config} {db : Db} (hs : db.Sound cfg) (indices : Indices) :
    (initializeDb cfg indices db).Sound cfg := by
  obtain ⟨⟨log, hg⟩, hfresh⟩ := hs
  obtain ⟨hgood, hmarks⟩ := initializeDb_marks hg indices
  have hlatest : latestOrSeed cfg (initializeDb cfg indices db) = latestOrSeed cfg db :=
    congrArg Marks.latest hmarks
  have hhighest : highestContiguous (initializeDb cfg indices db) = highestContiguous db :=
    congrArg Marks.highest hmarks
  refine ⟨⟨log, hgood⟩, fun hnone => ?_⟩
  rw [hlatest, hhighest]
  refine hfresh ?_
  -- start-up never unsets `true_earliest_persisted`
  rcases hear : db.metadata .trueEarliestPersisted with _ | e
  · rfl
  have hkeep : initializeDb cfg indices db = initializeHighestContiguous cfg.seed db := by
    simp [initializeDb, hear]
  rw [hkeep] at hnone
  unfold initializeHighestContiguous at hnone
  split at hnone
  · exact absurd (hnone.symm.trans hear) (by simp)
  · exact absurd (hnone.symm.trans hear) (by simp)

lemma Db.Sound.step {cfg : Config} {codec : Codec} {db db' : Db} {act : StoreAct}
    (hs : db.Sound cfg) (hapart : act.IsApart cfg db) (h : db.step cfg codec act = some db') :
    db'.Sound cfg := by
  cases act with
  | write block =>
    cases h
    exact hs.write codec block
  | together a b schedule =>
    simp only [Db.step] at h
    split at h
    · next db'' hrun =>
      cases h
      rcases (hs.serializable_iff codec a b).mpr hapart db' ⟨schedule, hrun⟩ with h | h
      · exact ((hs.write codec a).write codec b).congr h
      · exact ((hs.write codec b).write codec a).congr h
    · cases h
  | archived start count new =>
    cases h
    refine hs.congr ?_
    simp only [Db.tracked, commitBatch_metadata, commitBatch_gaps, deleteBatch_meta,
      deleteBatch_gaps]
    rfl
  | skipped start =>
    cases h
    exact hs.congr rfl
  | restart indices =>
    cases h
    exact hs.restart indices

/-- **Overlapping calls are serializable exactly when they do not conflict**, all along every
run. -/
theorem serializable_iff_apart (cfg : Config) (codec : Codec) (acts : List StoreAct) :
    Along (Db.step cfg codec) (StoreAct.IsSerializable cfg codec) (Db.init cfg) acts ↔
      Along (Db.step cfg codec) (StoreAct.IsApart cfg) (Db.init cfg) acts := by
  refine along_congr (I := Db.Sound cfg) (fun {db} act hs => ?_)
    (fun hs hapart h => hs.step hapart h) (Db.init_sound cfg) acts
  cases act with
  | together a b schedule => exact hs.serializable_iff codec a b
  | _ => exact Iff.rfl

/-- Blocks 1 and 2 at once on an empty node that starts at block 1: the call for block 1 has
made its five reads when block 2 is committed, and sets `latest_persisted` back to 1. -/
theorem serializable_lost : ¬ ∀ (cfg : Config) (codec : Codec) (acts : List StoreAct),
    Along (Db.step cfg codec) (StoreAct.IsSerializable cfg codec) (Db.init cfg) acts := by
  intro h
  have hserial : Serializable firstConfig plainCodec (Db.init firstConfig) (headerBlock 1 [])
      (headerBlock 2 []) := (h firstConfig plainCodec [.together _ _ []]).1
  have hlost : (overlap firstConfig plainCodec (Db.init firstConfig) (headerBlock 2 [])
      (headerBlock 1 []) 5).metadata .latestPersisted = some 1 := by decide +kernel
  have h₁ : (((Db.init firstConfig).write firstConfig plainCodec (headerBlock 1 [])).write
      firstConfig plainCodec (headerBlock 2 [])).metadata .latestPersisted = some 2 := by
    decide +kernel
  have h₂ : (((Db.init firstConfig).write firstConfig plainCodec (headerBlock 2 [])).write
      firstConfig plainCodec (headerBlock 1 [])).metadata .latestPersisted = some 2 := by
    decide +kernel
  rcases ((serializable_iff_serialAfter _ _ _ _ _).mp hserial).2 5 with h | h
  · exact absurd (hlost.symm.trans ((congrArg Tracked.latestPersisted h).trans h₂)) (by decide)
  · exact absurd (hlost.symm.trans ((congrArg Tracked.latestPersisted h).trans h₁)) (by decide)

end RockNode
