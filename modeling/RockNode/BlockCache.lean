import RockNode.Block
import RockNode.SortedMap

/-!
The block cache and the events that carry its keys through the node.

A block in the pipeline is handed on as a number and a cache key. An entry leaves the cache when
it is marked for removal, or in a clean-up when it has become too old.
-/

namespace RockNode

structure BlockData where
  blockNumber : UInt64
  contents : Bytes
  deriving DecidableEq

/-- A block number and the key of its data. -/
structure BlockEvent where
  blockNumber : UInt64
  cacheKey : ℕ
  deriving DecidableEq

abbrev BlockItemsReceived := BlockEvent
abbrev BlockVerified := BlockEvent
abbrev BlockPersisted := BlockEvent

structure BlockVerificationFailed where
  event : BlockEvent
  reason : String
  deriving DecidableEq

/-- Keys are drawn at random in the source; here they are counted, so that they are fresh. Each
entry has the time of its insertion. -/
structure BlockDataCache where
  entries : SortedMap ℕ (BlockData × ℕ)
  cleanupQueue : List ℕ
  nextKey : ℕ

namespace BlockDataCache

/-- `CACHE_TTL_SECONDS`. -/
def ttl : ℕ := 60

def new : BlockDataCache := ⟨.empty, [], 0⟩

def insert (cache : BlockDataCache) (now : ℕ) (data : BlockData) : ℕ × BlockDataCache :=
  (cache.nextKey,
    { cache with
      entries := cache.entries.put cache.nextKey (data, now), nextKey := cache.nextKey + 1 })

def get (cache : BlockDataCache) (key : ℕ) : Option BlockData :=
  (cache.entries.get key).map Prod.fst

/-- `mark_for_removal`: the entry goes at once; only a key that has none is queued. -/
def markForRemoval (cache : BlockDataCache) (key : ℕ) : BlockDataCache :=
  match cache.entries.get key with
  | some _ => { cache with entries := cache.entries.erase key }
  | none => { cache with cleanupQueue := cache.cleanupQueue.insert key }

/-- The entries that have outlived the TTL. -/
def staleKeys (cache : BlockDataCache) (now : ℕ) : List ℕ :=
  (cache.entries.entries.filter fun e => ttl < now - e.2.2).map Prod.fst

/-- One round of `run_cleanup_task`: the queued keys first, then the stale ones. -/
def cleanup (cache : BlockDataCache) (now : ℕ) : BlockDataCache :=
  let drained : BlockDataCache :=
    { cache with
      entries := cache.cleanupQueue.foldl SortedMap.erase cache.entries, cleanupQueue := [] }
  { drained with entries := (drained.staleKeys now).foldl SortedMap.erase drained.entries }

/-! ### What the operations do to a lookup -/

@[simp] lemma insert_fst (cache : BlockDataCache) (now : ℕ) (data : BlockData) :
    (cache.insert now data).1 = cache.nextKey := rfl

@[simp] lemma insert_nextKey (cache : BlockDataCache) (now : ℕ) (data : BlockData) :
    (cache.insert now data).2.nextKey = cache.nextKey + 1 := rfl

lemma get_insert (cache : BlockDataCache) (now : ℕ) (data : BlockData) (key : ℕ) :
    (cache.insert now data).2.get key =
      if key = cache.nextKey then some data else cache.get key := by
  unfold get insert
  rw [SortedMap.get_put]
  split_ifs <;> rfl

@[simp] lemma markForRemoval_nextKey (cache : BlockDataCache) (key : ℕ) :
    (cache.markForRemoval key).nextKey = cache.nextKey := by
  unfold markForRemoval
  split <;> rfl

lemma get_markForRemoval (cache : BlockDataCache) (key j : ℕ) :
    (cache.markForRemoval key).get j = if j = key then none else cache.get j := by
  unfold markForRemoval get
  split
  · rw [SortedMap.get_erase]
    split_ifs <;> rfl
  · next hnone =>
    split_ifs with h
    · rw [h, hnone]
      rfl
    · rfl

lemma get_foldl_erase {V : Type} (keys : List ℕ) (m : SortedMap ℕ V) (j : ℕ) :
    (keys.foldl SortedMap.erase m).get j = if j ∈ keys then none else m.get j := by
  induction keys generalizing m with
  | nil => rfl
  | cons k keys ih =>
    rw [List.foldl_cons, ih, SortedMap.get_erase]
    by_cases hk : j = k <;> by_cases hj : j ∈ keys <;> simp [hk, hj]

@[simp] lemma cleanup_nextKey (cache : BlockDataCache) (now : ℕ) :
    (cache.cleanup now).nextKey = cache.nextKey := rfl

/-- A clean-up only takes entries away. -/
lemma get_cleanup (cache : BlockDataCache) (now j : ℕ) :
    (cache.cleanup now).get j = none ∨ (cache.cleanup now).get j = cache.get j := by
  unfold get cleanup
  dsimp only
  rw [get_foldl_erase, get_foldl_erase]
  split_ifs
  · exact .inl rfl
  · exact .inl rfl
  · exact .inr rfl

/-- The same data under every key. -/
structure SameData (cache cache' : BlockDataCache) : Prop where
  get_eq : ∀ key, cache'.get key = cache.get key
  nextKey_eq : cache'.nextKey = cache.nextKey
  queue_subset : cache'.cleanupQueue ⊆ cache.cleanupQueue

lemma SameData.of_eq {cache cache' : BlockDataCache} (h : cache' = cache) :
    cache.SameData cache' := by
  subst h
  exact ⟨fun _ => rfl, rfl, fun _ hk => hk⟩

lemma SameData.refl (cache : BlockDataCache) : cache.SameData cache := .of_eq rfl

/-- Nothing goes if nothing is stale and the queued keys have no entry. -/
lemma cleanup_sameData {cache : BlockDataCache} {now : ℕ} (hstale : cache.staleKeys now = [])
    (hqueue : ∀ key ∈ cache.cleanupQueue, cache.get key = none) :
    cache.SameData (cache.cleanup now) := by
  have hentries : cache.cleanupQueue.foldl SortedMap.erase cache.entries = cache.entries := by
    ext1 key
    rw [get_foldl_erase]
    split_ifs with hkey
    · have hnone := hqueue key hkey
      unfold get at hnone
      exact (Option.map_eq_none_iff.mp hnone).symm
    · rfl
  have hstale' : staleKeys { cache with cleanupQueue := [] } now = [] := hstale
  refine ⟨fun key => ?_, rfl, List.nil_subset _⟩
  unfold get cleanup
  dsimp only
  rw [hentries, hstale']
  rfl

end BlockDataCache

end RockNode
