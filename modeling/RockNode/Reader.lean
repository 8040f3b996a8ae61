import RockNode.Storage

/-!
`read_block` step by step: the hot tier, the loaded indices one after the other, the data file.

Other tasks may run between any two of these steps. When nothing does, the read is the one that
`Node.readBlock` makes at once; and wherever it stands, it can come to its end alone.
-/

namespace RockNode

/-! ### The reader -/

inductive Reader where
  | waiting
  | scanning (visited : List ℕ) (best : Option (ℕ × MappedIndex))
  | opening (path : FileName) (record : IndexRecord)
  | done (result : Option (Option Bytes))

/-- `filter(key <= block_number).max_by_key(key)`, one entry further. -/
def better (n key : ℕ) (found : Option MappedIndex) (best : Option (ℕ × MappedIndex)) :
    Option (ℕ × MappedIndex) :=
  match found with
  | none => best
  | some m =>
    if key ≤ n then
      match best with
      | none => some (key, m)
      | some (k, _) => if k ≤ key then some (key, m) else best
    else best

structure Reading where
  node : Node
  reader : Reader

inductive ReadAct where
  | operate (op : Operation)
  | probe
  | visit (key : ℕ)
  | choose
  | fetch

/-- The iteration comes to the place of every key once, whether there is an entry or not; when
it ends it has been at the place of every entry. -/
def Reading.step (cfg : Config) (codec : Codec) (n : ℕ) (s : Reading) : ReadAct → Option Reading
  | .operate op => (s.node.operate cfg codec op).map fun node => { s with node := node }
  | .probe =>
    match s.reader with
    | .waiting =>
      match hotReadBlock codec s.node.store.db n with
      | none => some { s with reader := .done none }
      | some (some bytes) => some { s with reader := .done (some (some bytes)) }
      | some none => some { s with reader := .scanning [] none }
    | _ => none
  | .visit key =>
    match s.reader with
    | .scanning visited best =>
      if key ∈ visited then none
      else some { s with
        reader := .scanning (key :: visited) (better n key (s.node.indices.get key) best) }
    | _ => none
  | .choose =>
    match s.reader with
    | .scanning visited best =>
      if ∀ key ∈ s.node.indices.keys, key ∈ visited then
        match best with
        | none => some { s with reader := .done (some none) }
        | some (_, m) =>
          match m.getRecord n with
          | none => some { s with reader := .done (some none) }
          | some record => some { s with reader := .opening m.dataPath record }
      else none
    | _ => none
  | .fetch =>
    match s.reader with
    | .opening path record =>
      some { s with reader := .done ((readRecord codec (s.node.disk.get path) record).map some) }
    | _ => none

/-- The steps of the read itself. -/
def ReadAct.own : ReadAct → Bool
  | .operate _ => false
  | _ => true

/-! ### A read that nothing interrupts -/

/-- Through the entries in their order, the best one is the last one below. -/
lemma foldl_better (n : ℕ) (indices : Indices) :
    indices.entries.foldl (fun best e => better n e.1 (some e.2) best) none =
      indices.seekLE n := by
  obtain ⟨entries, hsorted⟩ := indices
  simp only [SortedMap.seekLE]
  induction entries using List.reverseRecOn with
  | nil => rfl
  | append_singleton entries e ih =>
    obtain ⟨hs, -, hlt⟩ := List.pairwise_append.mp hsorted
    rw [List.foldl_append, List.foldl_cons, List.foldl_nil, ih hs, List.filter_append]
    by_cases he : e.1 ≤ n
    · have hone : [e].filter (fun e => e.1 ≤ n) = [e] := by simp [he]
      rw [hone, List.getLast?_concat]
      rcases hlast : (entries.filter fun e => e.1 ≤ n).getLast? with _ | f
      · simp only [better, he, if_true, hlast]
      · have hf := (List.mem_filter.mp (List.mem_of_getLast? hlast)).1
        simp only [better, he, if_true, hlast, (hlt f hf e (by simp)).le]
    · have hnone : [e].filter (fun e => e.1 ≤ n) = [] := by simp [he]
      rw [hnone, List.append_nil]
      simp only [better, he, if_false]

lemma run_visits (cfg : Config) (codec : Codec) (n : ℕ) {node : Node}
    {entries : List (ℕ × MappedIndex)} (hmem : ∀ e ∈ entries, e ∈ node.indices.entries)
    (hsorted : entries.Pairwise fun a b => a.1 < b.1) {visited : List ℕ}
    (hnew : ∀ e ∈ entries, e.1 ∉ visited) (best : Option (ℕ × MappedIndex)) :
    ∃ visited', (∀ e ∈ entries, e.1 ∈ visited') ∧ (∀ k ∈ visited, k ∈ visited') ∧
      run (Reading.step cfg codec n) ⟨node, .scanning visited best⟩
        (entries.map fun e => .visit e.1) =
      some ⟨node, .scanning visited'
        (entries.foldl (fun best e => better n e.1 (some e.2) best) best)⟩ := by
  induction entries generalizing visited best with
  | nil => exact ⟨visited, by simp, fun _ h => h, rfl⟩
  | cons e entries ih =>
    obtain ⟨hfirst, hrest⟩ := List.pairwise_cons.mp hsorted
    have hget : node.indices.get e.1 = some e.2 :=
      SortedMap.get_eq_some.mpr (hmem e List.mem_cons_self)
    have hstep : Reading.step cfg codec n ⟨node, .scanning visited best⟩ (.visit e.1) =
        some ⟨node, .scanning (e.1 :: visited) (better n e.1 (some e.2) best)⟩ := by
      simp only [Reading.step, hnew e List.mem_cons_self, if_false, hget]
    have hnew' : ∀ f ∈ entries, f.1 ∉ e.1 :: visited := by
      intro f hf hin
      rcases List.mem_cons.mp hin with heq | hin
      · exact (hfirst f hf).ne heq.symm
      · exact hnew f (List.mem_cons_of_mem _ hf) hin
    obtain ⟨visited', h1, h2, hrun⟩ := ih (fun f hf => hmem f (List.mem_cons_of_mem _ hf)) hrest
      hnew' (better n e.1 (some e.2) best)
    refine ⟨visited', ?_, fun k hk => h2 k (List.mem_cons_of_mem _ hk), ?_⟩
    · intro f hf
      rcases List.mem_cons.mp hf with rfl | hf
      · exact h2 f.1 List.mem_cons_self
      · exact h1 f hf
    · rw [List.map_cons, run_cons hstep, hrun, List.foldl_cons]

/-- The scan is over; what is left is the record and the data file. -/
lemma run_choose (cfg : Config) (codec : Codec) (n : ℕ) {node : Node} {visited : List ℕ}
    (hvisited : ∀ key ∈ node.indices.keys, key ∈ visited) (best : Option (ℕ × MappedIndex)) :
    ∃ acts, (∀ act ∈ acts, act.own = true) ∧
      run (Reading.step cfg codec n) ⟨node, .scanning visited best⟩ acts =
        some ⟨node, .done (match best with
          | none => some none
          | some (_, m) =>
            match m.getRecord n with
            | none => some none
            | some r => (readRecord codec (node.disk.get m.dataPath) r).map some)⟩ := by
  rcases best with _ | ⟨k, m⟩
  · exact ⟨[.choose], by simp [ReadAct.own], by simp only [run, Reading.step, if_pos hvisited]⟩
  · rcases hrecord : m.getRecord n with _ | r
    · refine ⟨[.choose], by simp [ReadAct.own], ?_⟩
      simp only [run, Reading.step, if_pos hvisited, hrecord]
    · refine ⟨[.choose, .fetch], by simp [ReadAct.own], ?_⟩
      simp only [run, Reading.step, if_pos hvisited, hrecord]

lemma own_visits {entries : List (ℕ × MappedIndex)} {acts : List ReadAct}
    (h : ∀ act ∈ acts, act.own = true) :
    ∀ act ∈ (entries.map fun e => .visit e.1) ++ acts, act.own = true := by
  intro act hact
  rcases List.mem_append.mp hact with hact | hact
  · obtain ⟨e, -, rfl⟩ := List.mem_map.mp hact
    rfl
  · exact h act hact

/-- **A read that nothing interrupts is `read_block`.** -/
lemma read_alone (cfg : Config) (codec : Codec) (n : ℕ) (node : Node) :
    ∃ acts, (∀ act ∈ acts, act.own = true) ∧
      run (Reading.step cfg codec n) ⟨node, .waiting⟩ acts =
        some ⟨node, .done (node.readBlock codec n)⟩ := by
  rcases hhot : hotReadBlock codec node.store.db n with _ | _ | bytes
  · refine ⟨[.probe], by simp [ReadAct.own], ?_⟩
    simp only [run, Reading.step, Node.readBlock, hhot]
  · obtain ⟨visited, hall, -, hvisits⟩ := run_visits cfg codec n (fun _ h => h)
      node.indices.sorted (fun _ _ => List.not_mem_nil) none
    have hvisited : ∀ key ∈ node.indices.keys, key ∈ visited := by
      intro key hkey
      obtain ⟨e, he, rfl⟩ := List.mem_map.mp hkey
      exact hall e he
    obtain ⟨acts, hacts, hchoose⟩ := run_choose cfg codec n hvisited (node.indices.seekLE n)
    have hprobe : Reading.step cfg codec n ⟨node, .waiting⟩ .probe =
        some ⟨node, .scanning [] none⟩ := by
      simp only [Reading.step, hhot]
    refine ⟨.probe :: ((node.indices.entries.map fun e => .visit e.1) ++ acts), ?_, ?_⟩
    · intro act hact
      rcases List.mem_cons.mp hact with rfl | hact
      · rfl
      · exact own_visits hacts act hact
    · rw [run_cons hprobe, run_append hvisits, foldl_better, hchoose]
      simp only [Node.readBlock, hhot]
      rfl
  · refine ⟨[.probe], by simp [ReadAct.own], ?_⟩
    simp only [run, Reading.step, Node.readBlock, hhot]

/-- From wherever it stands, the read comes to its end by its own steps. -/
lemma read_ends (cfg : Config) (codec : Codec) (n : ℕ) (s : Reading) :
    ∃ acts result, (∀ act ∈ acts, act.own = true) ∧
      run (Reading.step cfg codec n) s acts = some ⟨s.node, .done result⟩ := by
  obtain ⟨node, reader⟩ := s
  cases reader with
  | waiting =>
    obtain ⟨acts, hacts, hrun⟩ := read_alone cfg codec n node
    exact ⟨acts, _, hacts, hrun⟩
  | scanning visited best =>
    have hrest : ∀ e ∈ node.indices.entries.filter fun e => e.1 ∉ visited, e.1 ∉ visited :=
      fun e he => by simpa using (List.mem_filter.mp he).2
    obtain ⟨visited', hall, hold, hvisits⟩ := run_visits cfg codec n
      (fun e he => (List.mem_filter.mp he).1) (node.indices.sorted.filter _) hrest best
    have hvisited : ∀ key ∈ node.indices.keys, key ∈ visited' := by
      intro key hkey
      obtain ⟨e, he, rfl⟩ := List.mem_map.mp hkey
      by_cases hin : e.1 ∈ visited
      · exact hold e.1 hin
      · exact hall e (List.mem_filter.mpr ⟨he, by simpa using hin⟩)
    obtain ⟨acts, hacts, hchoose⟩ := run_choose cfg codec n hvisited _
    exact ⟨_, _, own_visits hacts, by rw [run_append hvisits, hchoose]⟩
  | opening path record => exact ⟨[.fetch], _, by simp [ReadAct.own], rfl⟩
  | done result => exact ⟨[], result, by simp, rfl⟩

end RockNode
