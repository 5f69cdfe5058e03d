import LibreFang.Memory.Consolidation
import Mathlib.Data.List.Pairwise

/-!
# What a sweep absorbs

* `Marks`: the rows with some keys become inactive, and nothing else happens to the table.
* `foldl_compareRow_marks`: what one keeper absorbs; **`sweepRows_marks`**: what is absorbed among
  the rows of an agent has a keeper that is not absorbed.
* `Swept`: the state after some agents; **`swept_sweep`**: after all of them.
-/

namespace LibreFang.Memory

open Floats LibreFang.Session

/-! ## Similar texts -/

theorem textSimilarity_comm (a b : List Char) : textSimilarity a b = textSimilarity b a := by
  unfold textSimilarity
  dsimp only
  rw [Finset.union_comm, Finset.inter_comm]
  exact if_congr and_comm rfl rfl

theorem Similar.symm {casing : Casing} {a b : List Char} (h : Similar casing a b) :
    Similar casing b a := by
  unfold Similar at h ⊢
  rwa [textSimilarity_comm]

/-! ## Rows become inactive -/

/-- The row is inactive if its key is one of these. -/
def markDeleted (ids : List String) (m : Row) : Row :=
  if m.id ∈ ids then { m with deleted := true } else m

variable {ids : List String}

theorem markDeleted_of_not_mem {m : Row} (h : m.id ∉ ids) :
    markDeleted ids m = m := if_neg h

theorem markDeleted_id (ids : List String) (m : Row) : (markDeleted ids m).id = m.id := by
  unfold markDeleted
  split
  · rfl
  · rfl

theorem markDeleted_nil (m : Row) : markDeleted [] m = m := markDeleted_of_not_mem List.not_mem_nil

theorem markDeleted_append (ids ids' : List String) (m : Row) :
    markDeleted (ids' ++ ids) m = markDeleted ids' (markDeleted ids m) := by
  unfold markDeleted
  by_cases hids : m.id ∈ ids
  · rw [if_pos (List.mem_append_right _ hids), if_pos hids]
    dsimp only
    rw [ite_self]
  · rw [if_neg hids]
    refine if_congr ?_ rfl rfl
    rw [List.mem_append, or_iff_left hids]

theorem markDeleted_active {m : Row}
    (h : (markDeleted ids m).deleted = false) : m.id ∉ ids ∧ markDeleted ids m = m := by
  by_cases hids : m.id ∈ ids
  · unfold markDeleted at h
    rw [if_pos hids] at h
    cases h
  · exact ⟨hids, markDeleted_of_not_mem hids⟩

/-- The rows with these keys become inactive, and nothing else happens to the table. -/
structure Marks (s : Sweep) (ids : List String) (s' : Sweep) : Prop where
  rows : s'.rows = s.rows.map (markDeleted ids)
  absorbed : s'.absorbed = ids ++ s.absorbed
  merged : s'.merged = s.merged + ids.length
  nodup : ids.Nodup
  fresh : ∀ id ∈ ids, id ∉ s.absorbed

theorem Marks.refl (s : Sweep) : Marks s [] s where
  rows := by
    rw [List.map_congr_left fun m _ => markDeleted_nil m]
    exact (List.map_id' s.rows).symm
  absorbed := rfl
  merged := rfl
  nodup := List.nodup_nil
  fresh := fun _ hid => absurd hid List.not_mem_nil

theorem Marks.trans {s s' s'' : Sweep} {ids ids' : List String} (h : Marks s ids s')
    (h' : Marks s' ids' s'') : Marks s (ids' ++ ids) s'' where
  rows := by
    rw [h'.rows, h.rows, List.map_map]
    exact (List.map_congr_left fun m _ => markDeleted_append ids ids' m).symm
  absorbed := by rw [h'.absorbed, h.absorbed, List.append_assoc]
  merged := by
    rw [h'.merged, h.merged, List.length_append]
    omega
  nodup := by
    refine List.nodup_append.mpr ⟨h'.nodup, h.nodup, fun id hid id' hid' heq => ?_⟩
    subst heq
    refine h'.fresh id hid ?_
    rw [h.absorbed]
    exact List.mem_append_left _ hid'
  fresh := by
    intro id hid
    rcases List.mem_append.mp hid with hid | hid
    · have hnot := h'.fresh id hid
      rw [h.absorbed, List.mem_append, not_or] at hnot
      exact hnot.2
    · exact h.fresh id hid

theorem Marks.absorbed_mono {s s' : Sweep} (h : Marks s ids s') {id : String}
    (hid : id ∈ s.absorbed) : id ∈ s'.absorbed := by
  rw [h.absorbed]
  exact List.mem_append_right _ hid

theorem Marks.merged_mono {s s' : Sweep} (h : Marks s ids s') : s.merged ≤ s'.merged := by
  rw [h.merged]
  exact Nat.le_add_right _ _

/-! ## One keeper -/

section Keeper

variable {keeper : Row}

theorem marks_absorb {row : Row} {s : Sweep} (hconf : AtMost row.confidence keeper.confidence)
    (hfresh : row.id ∉ s.absorbed) : Marks s [row.id] (absorb keeper row s) where
  rows := by
    have hkeep : ¬ keeper.confidence.1.lt row.confidence.1 = true := by
      rw [show keeper.confidence.1.lt row.confidence.1 = false from hconf]
      exact Bool.false_ne_true
    unfold absorb setDeleted markDeleted
    dsimp only
    rw [if_neg hkeep]
    exact List.map_congr_left fun m _ => if_congr List.mem_singleton.symm rfl rfl
  absorbed := rfl
  merged := rfl
  nodup := List.nodup_singleton _
  fresh := fun id hid => by rwa [List.mem_singleton.mp hid]

theorem compareRow_marks (casing : Casing) {row : Row} (s : Sweep)
    (hconf : AtMost row.confidence keeper.confidence) :
    ∃ ids, Marks s ids (compareRow casing keeper s row) ∧
      (∀ id ∈ ids, row.id = id ∧ Similar casing keeper.content row.content) ∧
      (s.merged ≤ maxMergesPerRun → (compareRow casing keeper s row).merged ≤ maxMergesPerRun) ∧
      ((compareRow casing keeper s row).merged < maxMergesPerRun →
        Similar casing keeper.content row.content →
          row.id ∈ (compareRow casing keeper s row).absorbed) := by
  have hnone : ∀ id ∈ ([] : List String),
      row.id = id ∧ Similar casing keeper.content row.content :=
    fun id hid => absurd hid List.not_mem_nil
  unfold compareRow
  split
  · next hfull => exact ⟨[], Marks.refl s, hnone, fun h => h, fun h => absurd hfull (Nat.not_le.mpr h)⟩
  · next hroom =>
    split
    · next habsorbed => exact ⟨[], Marks.refl s, hnone, fun h => h, fun _ _ => habsorbed⟩
    · next hfresh =>
      split
      · next hsimilar =>
        refine ⟨[row.id], marks_absorb hconf hfresh, fun id hid => ?_, fun _ => ?_,
          fun _ _ => List.mem_cons_self⟩
        · exact ⟨(List.mem_singleton.mp hid).symm, hsimilar⟩
        · exact Nat.not_le.mp hroom
      · next hsimilar => exact ⟨[], Marks.refl s, hnone, fun h => h, fun _ h => absurd h hsimilar⟩

theorem foldl_compareRow_marks (casing : Casing) {rows : List Row} (s : Sweep)
    (hconf : ∀ row ∈ rows, AtMost row.confidence keeper.confidence) :
    ∃ ids, Marks s ids (rows.foldl (compareRow casing keeper) s) ∧
      (∀ id ∈ ids, ∃ row ∈ rows, row.id = id ∧ Similar casing keeper.content row.content) ∧
      (s.merged ≤ maxMergesPerRun →
        (rows.foldl (compareRow casing keeper) s).merged ≤ maxMergesPerRun) ∧
      ((rows.foldl (compareRow casing keeper) s).merged < maxMergesPerRun →
        ∀ row ∈ rows, Similar casing keeper.content row.content →
          row.id ∈ (rows.foldl (compareRow casing keeper) s).absorbed) := by
  induction rows generalizing s with
  | nil =>
    exact ⟨[], Marks.refl s, fun id hid => absurd hid List.not_mem_nil, fun h => h,
      fun _ row hrow => absurd hrow List.not_mem_nil⟩
  | cons row rows ih =>
    obtain ⟨hrow, hrows⟩ := List.forall_mem_cons.mp hconf
    obtain ⟨ids, hmarks, hids, hcap, hall⟩ := compareRow_marks casing s hrow
    obtain ⟨ids', hmarks', hids', hcap', hall'⟩ := ih (compareRow casing keeper s row) hrows
    rw [List.foldl_cons]
    refine ⟨ids' ++ ids, hmarks.trans hmarks', fun id hid => ?_, fun h => hcap' (hcap h),
      fun hroom row' hrow' hsimilar => ?_⟩
    · rcases List.mem_append.mp hid with hid | hid
      · obtain ⟨row', hmem, h⟩ := hids' id hid
        exact ⟨row', List.mem_cons_of_mem _ hmem, h⟩
      · exact ⟨row, List.mem_cons_self, hids id hid⟩
    · rcases List.mem_cons.mp hrow' with rfl | hrow'
      · exact hmarks'.absorbed_mono (hall (hmarks'.merged_mono.trans_lt hroom) hsimilar)
      · exact hall' hroom row' hrow' hsimilar

end Keeper

/-! ## The rows of an agent -/

/-- What is absorbed among some rows has a keeper among them that is not. -/
def HasKeeper (casing : Casing) (rows : List Row) (absorbed : List String) (row : Row) : Prop :=
  ∃ keeper ∈ rows, keeper.id ∉ absorbed ∧ AtMost row.confidence keeper.confidence ∧
    Similar casing keeper.content row.content

theorem sweepRows_marks (casing : Casing) {rows : List Row} (s : Sweep)
    (hnodup : (rows.map Row.id).Nodup)
    (hsorted : rows.Pairwise fun a b => AtMost b.confidence a.confidence) :
    ∃ ids, Marks s ids (sweepRows casing rows s) ∧
      (∀ id ∈ ids, ∃ row ∈ rows, row.id = id ∧
        HasKeeper casing rows (sweepRows casing rows s).absorbed row) ∧
      (s.merged ≤ maxMergesPerRun → (sweepRows casing rows s).merged ≤ maxMergesPerRun) ∧
      ((sweepRows casing rows s).merged < maxMergesPerRun → rows.Pairwise fun a b =>
        a.id ∉ (sweepRows casing rows s).absorbed → b.id ∉ (sweepRows casing rows s).absorbed →
          ¬ Similar casing a.content b.content) := by
  induction rows generalizing s with
  | nil =>
    exact ⟨[], Marks.refl s, fun id hid => absurd hid List.not_mem_nil, fun h => h,
      fun _ => .nil⟩
  | cons keeper rows ih =>
    rw [List.map_cons, List.nodup_cons] at hnodup
    rw [List.pairwise_cons] at hsorted
    rw [sweepRows]
    by_cases hkeeper : keeper.id ∈ s.absorbed
    · -- an absorbed row keeps nothing
      rw [if_pos hkeeper]
      obtain ⟨ids, hmarks, hids, hcap, hall⟩ := ih s hnodup.2 hsorted.2
      refine ⟨ids, hmarks, fun id hid => ?_, hcap, fun hroom => ?_⟩
      · obtain ⟨row, hrow, hid, k, hk, h⟩ := hids id hid
        exact ⟨row, List.mem_cons_of_mem _ hrow, hid, k, List.mem_cons_of_mem _ hk, h⟩
      · refine List.pairwise_cons.mpr ⟨fun b _ hnot => ?_, hall hroom⟩
        exact absurd (hmarks.absorbed_mono hkeeper) hnot
    · rw [if_neg hkeeper]
      obtain ⟨ids, hmarks, hids, hcap, hall⟩ :=
        foldl_compareRow_marks casing s hsorted.1
      obtain ⟨ids', hmarks', hids', hcap', hall'⟩ :=
        ih (rows.foldl (compareRow casing keeper) s) hnodup.2 hsorted.2
      -- the keeper stays: what is absorbed from now on stands behind it
      have hstays : keeper.id ∉
          (sweepRows casing rows (rows.foldl (compareRow casing keeper) s)).absorbed := by
        rw [hmarks'.absorbed, hmarks.absorbed, List.mem_append, List.mem_append, not_or, not_or]
        refine ⟨fun hid => ?_, fun hid => ?_, hkeeper⟩
        · obtain ⟨row, hrow, heq, -⟩ := hids' _ hid
          exact hnodup.1 (heq ▸ List.mem_map_of_mem hrow)
        · obtain ⟨row, hrow, heq, -⟩ := hids _ hid
          exact hnodup.1 (heq ▸ List.mem_map_of_mem hrow)
      refine ⟨ids' ++ ids, hmarks.trans hmarks', fun id hid => ?_, fun h => hcap' (hcap h),
        fun hroom => ?_⟩
      · rcases List.mem_append.mp hid with hid | hid
        · obtain ⟨row, hrow, hid, k, hk, h⟩ := hids' id hid
          exact ⟨row, List.mem_cons_of_mem _ hrow, hid, k, List.mem_cons_of_mem _ hk, h⟩
        · obtain ⟨row, hrow, hid, hsimilar⟩ := hids id hid
          exact ⟨row, List.mem_cons_of_mem _ hrow, hid, keeper, List.mem_cons_self, hstays,
            hsorted.1 row hrow, hsimilar⟩
      · refine List.pairwise_cons.mpr ⟨fun b hb _ hnot hsimilar => hnot ?_, hall' hroom⟩
        exact hmarks'.absorbed_mono (hall (hmarks'.merged_mono.trans_lt hroom) b hb hsimilar)

/-! ## All agents -/

section Agents

variable {casing : Casing} (plan : Plan) {rows : List Row} {done : List String} {s : Sweep}
  {ids : List String}

/-- The state after some agents: their rows with these keys have been absorbed, each by a row that is
still active, and of two active rows of one of them none absorbs the other. -/
structure Swept (casing : Casing) (rows : List Row) (done : List String) (s : Sweep)
    (ids : List String) : Prop where
  rows_eq : s.rows = rows.map (markDeleted ids)
  merged_eq : s.merged = ids.length
  cap : s.merged ≤ maxMergesPerRun
  keepers : ∀ id ∈ ids, ∃ row ∈ rows, row.id = id ∧ row.deleted = false ∧ row.agentId ∈ done ∧
    ∃ keeper ∈ rows, keeper.deleted = false ∧ keeper.agentId = row.agentId ∧ keeper.id ∉ ids ∧
      AtMost row.confidence keeper.confidence ∧ Similar casing keeper.content row.content
  settled : s.merged < maxMergesPerRun → ∀ a ∈ rows, ∀ b ∈ rows, a.deleted = false →
    b.deleted = false → a.agentId ∈ done → b.agentId = a.agentId → a.id ∉ ids → b.id ∉ ids →
      a.id ≠ b.id → ¬ Similar casing a.content b.content

theorem swept_start (casing : Casing) (rows : List Row) : Swept casing rows [] ⟨rows, [], 0⟩ [] where
  rows_eq := by
    rw [List.map_congr_left fun m _ => markDeleted_nil m]
    exact (List.map_id' rows).symm
  merged_eq := rfl
  cap := Nat.zero_le _
  keepers := fun _ hid => absurd hid List.not_mem_nil
  settled := fun _ _ _ _ _ _ _ hdone => absurd hdone List.not_mem_nil

theorem mem_activeRows {agentId : String} {m : Row} :
    m ∈ activeRows (rows.map (markDeleted ids)) agentId ↔
      m ∈ rows ∧ m.deleted = false ∧ m.agentId = agentId ∧ m.id ∉ ids := by
  unfold activeRows
  rw [List.mem_filter, List.mem_map, Bool.and_eq_true, Bool.not_eq_true', decide_eq_true_iff]
  constructor
  · rintro ⟨⟨m₀, hm₀, rfl⟩, hactive, hagent⟩
    obtain ⟨hnot, hsame⟩ := markDeleted_active hactive
    rw [hsame] at hactive hagent ⊢
    exact ⟨hm₀, hactive, hagent, hnot⟩
  · rintro ⟨hm, hactive, hagent, hnot⟩
    exact ⟨⟨m, hm, markDeleted_of_not_mem hnot⟩, hactive, hagent⟩

theorem eq_of_id_eq (hnodup : (rows.map Row.id).Nodup) {a b : Row} (ha : a ∈ rows) (hb : b ∈ rows)
    (h : a.id = b.id) : a = b := List.inj_on_of_nodup_map hnodup ha hb h

theorem swept_sweepAgent (hnodup : (rows.map Row.id).Nodup) (h : Swept casing rows done s ids)
    {agentId : String} (hagent : agentId ∉ done) :
    ∃ ids', Swept casing rows (agentId :: done) (sweepAgent casing plan s agentId) ids' := by
  have hperm := plan.perm_byConfidence (activeRows s.rows agentId)
  have hsorted := plan.pairwise_byConfidence (activeRows s.rows agentId)
  have hmem : ∀ m, m ∈ plan.byConfidence (activeRows s.rows agentId) ↔
      m ∈ rows ∧ m.deleted = false ∧ m.agentId = agentId ∧ m.id ∉ ids := by
    intro m
    rw [hperm.mem_iff, h.rows_eq]
    exact mem_activeRows
  have hnodup' : ((plan.byConfidence (activeRows s.rows agentId)).map Row.id).Nodup := by
    refine (hperm.map Row.id).nodup_iff.mpr ?_
    have hids : s.rows.map Row.id = rows.map Row.id := by
      rw [h.rows_eq, List.map_map]
      exact List.map_congr_left fun m _ => markDeleted_id ids m
    have hfilter : ((activeRows s.rows agentId).map Row.id).Sublist (s.rows.map Row.id) :=
      List.filter_sublist.map Row.id
    rw [hids] at hfilter
    exact hnodup.sublist hfilter
  obtain ⟨new, hmarks, hnew, hcap, hall⟩ :=
    sweepRows_marks casing { s with absorbed := [] } hnodup' hsorted
  have habsorbed := hmarks.absorbed
  dsimp only at habsorbed
  rw [List.append_nil] at habsorbed
  rw [habsorbed] at hnew hall
  refine ⟨new ++ ids, ?_, ?_, hcap h.cap, fun id hid => ?_, fun hroom => ?_⟩
  · refine hmarks.rows.trans ?_
    dsimp only
    rw [h.rows_eq, List.map_map]
    exact (List.map_congr_left fun m _ => markDeleted_append ids new m).symm
  · refine hmarks.merged.trans ?_
    dsimp only
    rw [h.merged_eq, List.length_append, Nat.add_comm]
  · rcases List.mem_append.mp hid with hid | hid
    · obtain ⟨row, hrow, hid, keeper, hkeeper, hnot, hconf, hsimilar⟩ := hnew id hid
      obtain ⟨hrow, hactive, hof, -⟩ := (hmem row).mp hrow
      obtain ⟨hkeeper, hactive', hof', hnot'⟩ := (hmem keeper).mp hkeeper
      refine ⟨row, hrow, hid, hactive, hof ▸ List.mem_cons_self, keeper, hkeeper, hactive',
        hof'.trans hof.symm, fun hmem' => ?_, hconf, hsimilar⟩
      exact (List.mem_append.mp hmem').elim hnot hnot'
    · obtain ⟨row, hrow, hid, hactive, hdone, keeper, hkeeper, hactive', hof, hnot, hrest⟩ :=
        h.keepers id hid
      refine ⟨row, hrow, hid, hactive, List.mem_cons_of_mem _ hdone, keeper, hkeeper, hactive', hof,
        fun hmem' => ?_, hrest⟩
      rcases List.mem_append.mp hmem' with hmem' | hmem'
      · -- this agent's rows are not those of an earlier agent
        obtain ⟨row', hrow', heq, -⟩ := hnew _ hmem'
        obtain ⟨hrow', -, hof', -⟩ := (hmem row').mp hrow'
        have hsame := eq_of_id_eq hnodup hrow' hkeeper heq
        rw [hsame, hof] at hof'
        exact hagent (hof' ▸ hdone)
      · exact hnot hmem'
  · intro a ha b hb hactive hactive' hdone hof hnot hnot' hne
    rw [List.mem_append, not_or] at hnot hnot'
    have hroom' : s.merged < maxMergesPerRun := (hmarks.merged_mono).trans_lt hroom
    rcases List.mem_cons.mp hdone with hthis | hdone
    · have hpairs := hall hroom
      have ha' := (hmem a).mpr ⟨ha, hactive, hthis, hnot.2⟩
      have hb' := (hmem b).mpr ⟨hb, hactive', hof.trans hthis, hnot'.2⟩
      have hsymm : Std.Symm fun a b : Row => a.id ∉ new → b.id ∉ new →
          ¬ Similar casing a.content b.content :=
        ⟨fun a b hab hnot hnot' hsimilar => hab hnot' hnot hsimilar.symm⟩
      exact hpairs.forall ha' hb' (fun heq => hne (congrArg Row.id heq)) hnot.1 hnot'.1
    · exact h.settled hroom' a ha b hb hactive hactive' hdone hof hnot.2 hnot'.2 hne

theorem swept_foldl (hnodup : (rows.map Row.id).Nodup) {agents : List String}
    (h : Swept casing rows done s ids) (hagents : agents.Nodup)
    (hapart : ∀ agentId ∈ agents, agentId ∉ done) :
    ∃ done' ids', (∀ agentId, agentId ∈ done' ↔ agentId ∈ agents ∨ agentId ∈ done) ∧
      Swept casing rows done' (agents.foldl (sweepAgent casing plan) s) ids' := by
  induction agents generalizing done s ids with
  | nil =>
    exact ⟨done, ids, fun agentId => (or_iff_right List.not_mem_nil).symm, h⟩
  | cons agentId agents ih =>
    rw [List.nodup_cons] at hagents
    obtain ⟨hthis, hrest⟩ := List.forall_mem_cons.mp hapart
    obtain ⟨ids', hswept⟩ := swept_sweepAgent plan hnodup h hthis
    have hapart' : ∀ a ∈ agents, a ∉ agentId :: done := by
      intro a ha hmem
      rcases List.mem_cons.mp hmem with rfl | hmem
      · exact hagents.1 ha
      · exact hrest a ha hmem
    obtain ⟨done', ids'', hdone, hswept'⟩ := ih hswept hagents.2 hapart'
    refine ⟨done', ids'', fun a => ?_, hswept'⟩
    rw [hdone, List.mem_cons, List.mem_cons]
    exact ⟨fun h => h.elim (fun h => .inl (.inr h)) (fun h => h.elim (fun h => .inl (.inl h)) .inr),
      fun h => h.elim (fun h => h.elim (fun h => .inr (.inl h)) .inl) (fun h => .inr (.inr h))⟩

variable (casing) in
/-- **All agents with active memories.** -/
theorem swept_sweep (hnodup : (rows.map Row.id).Nodup) :
    ∃ done ids, (∀ m ∈ rows, m.deleted = false → m.agentId ∈ done) ∧
      Swept casing rows done (sweep casing plan rows) ids := by
  obtain ⟨done, ids, hdone, hswept⟩ := swept_foldl plan hnodup (swept_start casing rows)
    (plan.nodup_distinct _ : (agentIds plan rows).Nodup) fun _ _ => List.not_mem_nil
  refine ⟨done, ids, fun m hm hactive => (hdone _).mpr (.inl ?_), hswept⟩
  refine (plan.mem_distinct _ _).mpr (List.mem_map_of_mem (List.mem_filter.mpr ⟨hm, ?_⟩))
  rw [hactive]
  rfl

end Agents

end LibreFang.Memory
