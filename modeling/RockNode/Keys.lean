import RockNode.Pipeline
import RockNode.Handlers

/-!
Cache keys on their way from a session to the verifier.

`complete_block` puts the block into the cache, which makes a new key, and announces it in the
next step. In between the session holds the key; no other step of a session has to do with keys.
-/

namespace RockNode

namespace Session

variable {session session' : Session} {cfg : PublishConfig} {codec : Codec} {id : ℕ}
  {world world' : World} {set : List BlockItem}

/-- The session does not hold a key that it has not announced. -/
def HandsNothing (session : Session) : Prop := ∀ key, session.task ≠ .handOver key

lemma handsNothing_of_early (h : session.task.early) : session.HandsNothing := by
  intro key hkey
  rw [hkey] at h
  cases h

/-- A key is made in `complete_block` and announced in the next step; no other step of a session
has to do with keys. -/
lemma Step.keys {act : SessionAct}
    (step : Step cfg codec id world session act world' session') :
    (world'.cache = world.cache ∧ world'.itemsReceived = world.itemsReceived ∧
      session'.HandsNothing) ∨
    (world' = { world with
        cache := (world.cache.insert world.now (session.blockData codec)).2 } ∧
      session'.task = .handOver world.cache.nextKey) ∨
    ∃ key, session.task = .handOver key ∧ world'.cache = world.cache ∧
      world'.itemsReceived = world.itemsReceived ++ [⟨session.blockNumber, key⟩] ∧
      session'.HandsNothing := by
  cases step with
  | request => exact .inl ⟨rfl, rfl, handsNothing_of_early (handleRequest_early _)⟩
  | header => exact .inl ⟨rfl, rfl, handsNothing_of_early onHeader_early⟩
  | lookup => exact .inl ⟨rfl, rfl, handsNothing_of_early onLookup_early⟩
  | elected => exact .inl ⟨rfl, rfl, handsNothing_of_early (execute_early _)⟩
  | occupied => exact .inl ⟨rfl, rfl, handsNothing_of_early (execute_early _)⟩
  | streaming => exact .inl ⟨rfl, rfl, handsNothing_of_early onStreaming_early⟩
  | complete => exact .inr (.inl ⟨rfl, rfl⟩)
  | handOver here => exact .inr (.inr ⟨_, here, rfl, rfl, fun key h => by cases h⟩)
  | @finish _ _ _ next => exact .inl ⟨rfl, rfl, fun key h => by cases next <;> cases h⟩
  | _ => exact .inl ⟨rfl, rfl, fun key h => by cases h⟩

lemma Hears.handOver {key : ℕ} (h : session.Hears session')
    (htask : session'.task = .handOver key) : session.task = .handOver key := by
  cases h with
  | nothing => exact htask
  | failed | either => cases htask

end Session

namespace Pipeline

variable {p p' : Pipeline}

/-- The session is about to send the event for the key. -/
def HandsOver (p : Pipeline) (id key : ℕ) : Prop :=
  ∃ session, p.sessions id = some session ∧ session.task = .handOver key

/-- Where the sessions stand after one of them has moved. -/
lemma handsOver_update {id j key : ℕ} {session : Session}
    (h : ∃ s, Function.update p.sessions id (some session) j = some s ∧ s.task = .handOver key) :
    (j = id ∧ session.task = .handOver key) ∨ (j ≠ id ∧ p.HandsOver j key) := by
  obtain ⟨s, hs, htask⟩ := h
  rcases update_sessions hs with ⟨rfl, rfl⟩ | ⟨hne, hs⟩
  · exact .inl ⟨rfl, htask⟩
  · exact .inr ⟨hne, s, hs, htask⟩

/-- A session that hands nothing over leaves the others as they are. -/
lemma handsOver_others {id j key : ℕ} {session : Session} (hnothing : session.HandsNothing)
    (h : ∃ s, Function.update p.sessions id (some session) j = some s ∧ s.task = .handOver key) :
    j ≠ id ∧ p.HandsOver j key :=
  (handsOver_update h).resolve_left fun hid => hnothing key hid.2

/-- A session that has made a key hands over that one. -/
lemma handsOver_made {id j key new : ℕ} {session : Session} (htask : session.task = .handOver new)
    (h : ∃ s, Function.update p.sessions id (some session) j = some s ∧ s.task = .handOver key) :
    (j = id ∧ key = new) ∨ (j ≠ id ∧ p.HandsOver j key) := by
  refine (handsOver_update h).imp_left fun hid => ⟨hid.1, ?_⟩
  have hkey := hid.2
  rw [htask] at hkey
  cases hkey
  rfl

/-- A broadcast does not change what the sessions hold. -/
lemma handsOver_map {f : Session → Session}
    (hears : ∀ session : Session, session.Hears (f session))
    {id key : ℕ} (h : ∃ session, (p.sessions id).map f = some session ∧
      session.task = .handOver key) : p.HandsOver id key := by
  obtain ⟨session, hs, htask⟩ := h
  obtain ⟨old, hold, rfl⟩ := Option.map_eq_some_iff.mp hs
  exact ⟨old, hold, (hears old).handOver htask⟩

end Pipeline

end RockNode
