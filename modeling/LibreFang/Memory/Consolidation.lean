import LibreFang.Lib.Rounding
import LibreFang.Lib.Text
import LibreFang.Session.Markers
import Mathlib.Data.Finset.Card

/-!
# The consolidation of memories

Now and then the memories that were not accessed for a week lose confidence, and of memories of one
agent with nearly the same words only the most confident one stays active.

* `textSimilarity`: the share of common words, in single precision.
* `Row`, `MemoryTable`: the rows of the table; `Plan`: the orders that the database chooses.
* `decay`: the update of the confidences; it fails as a whole.
-/

namespace LibreFang.Memory

open Floats LibreFang.Session

/-! ## Similar texts -/

/-- `text_similarity`. -/
def textSimilarity (a b : List Char) : ℚ :=
  let wordsA := (Text.splitWhitespace a).toFinset
  let wordsB := (Text.splitWhitespace b).toFinset
  if wordsA = ∅ ∧ wordsB = ∅ then 0
  else if (wordsA ∪ wordsB).card = 0 then 0
  else single (single (wordsA ∩ wordsB).card / single (wordsA ∪ wordsB).card)

/-- Two contents are merged. -/
def Similar (casing : Casing) (a b : List Char) : Prop :=
  single (9 / 10) < textSimilarity (casing.toLowercase a) (casing.toLowercase b)

instance (casing : Casing) (a b : List Char) : Decidable (Similar casing a b) :=
  inferInstanceAs (Decidable (_ < _))

/-- A `REAL` that is not `NULL`. -/
abbrev Confidence := {c : F64 // c.IsReal}

/-- One confidence is not more than another one. -/
def AtMost (a b : Confidence) : Prop := b.1.lt a.1 = false

/-- A row of `memories`. -/
structure Row where
  id : String
  agentId : String
  content : List Char
  confidence : Confidence
  accessedAt : String
  deleted : Bool
  deriving DecidableEq

/-- The table; `id` is its primary key. -/
structure MemoryTable where
  rows : List Row
  nodup : (rows.map Row.id).Nodup

/-- What the database chooses: the order of distinct values and of rows with one confidence. -/
structure Plan where
  distinct : List String → List String
  nodup_distinct : ∀ names, (distinct names).Nodup
  mem_distinct : ∀ names name, name ∈ distinct names ↔ name ∈ names
  byConfidence : List Row → List Row
  perm_byConfidence : ∀ rows, (byConfidence rows).Perm rows
  pairwise_byConfidence : ∀ rows,
    (byConfidence rows).Pairwise fun a b => AtMost b.confidence a.confidence

/-- `0.1`. -/
def tenth : Confidence := ⟨nearest (1 / 10), isReal_nearest _⟩

/-- The rows of the update: active, not accessed since the cutoff, with more than `0.1`. -/
def Row.decays (cutoff : String) (m : Row) : Bool :=
  !m.deleted && decide (m.accessedAt < cutoff) && tenth.1.lt m.confidence.1

/-- `MAX(0.1, confidence * ?1)`; a product that is no number is `NULL`. -/
def decayed (factor : F64) (c : Confidence) : Option Confidence :=
  if h : c.1.mul factor = .nan then none
  else some (if tenth.1.lt (c.1.mul factor) then ⟨c.1.mul factor, isReal_mul h⟩ else tenth)

/-- The update of one row. -/
def decayRow (factor : F64) (cutoff : String) (m : Row) : Option Row :=
  if m.decays cutoff then (decayed factor m.confidence).map fun c => { m with confidence := c }
  else some m

/-- The update; no confidence may become `NULL`. -/
def decay (factor : F64) (cutoff : String) (rows : List Row) : Option (List Row) :=
  rows.mapM (decayRow factor cutoff)

/-! ## Merging -/

/-- `MAX_MERGES_PER_RUN`. -/
def maxMergesPerRun : ℕ := 100

/-- The table, the rows of this agent that have been absorbed, and the number of merges. -/
structure Sweep where
  rows : List Row
  absorbed : List String
  merged : ℕ

/-- `UPDATE memories SET deleted = 1 WHERE id = ?1`. -/
def setDeleted (id : String) (rows : List Row) : List Row :=
  rows.map fun m => if m.id = id then { m with deleted := true } else m

/-- `UPDATE memories SET confidence = ?1 WHERE id = ?2`. -/
def setConfidence (c : Confidence) (id : String) (rows : List Row) : List Row :=
  rows.map fun m => if m.id = id then { m with confidence := c } else m

/-- The keeper absorbs a row. -/
def absorb (keeper row : Row) (s : Sweep) : Sweep where
  rows :=
    let rows := setDeleted row.id s.rows
    if keeper.confidence.1.lt row.confidence.1 then setConfidence row.confidence keeper.id rows
    else rows
  absorbed := row.id :: s.absorbed
  merged := s.merged + 1

/-- A row is compared with the keeper. Every loop has ended when there are enough merges. -/
def compareRow (casing : Casing) (keeper : Row) (s : Sweep) (row : Row) : Sweep :=
  if maxMergesPerRun ≤ s.merged then s
  else if row.id ∈ s.absorbed then s
  else if Similar casing keeper.content row.content then absorb keeper row s
  else s

/-- The loop over the rows of an agent. -/
def sweepRows (casing : Casing) : List Row → Sweep → Sweep
  | [], s => s
  | keeper :: rows, s =>
    sweepRows casing rows
      (if keeper.id ∈ s.absorbed then s else rows.foldl (compareRow casing keeper) s)

/-- The active rows of an agent. -/
def activeRows (rows : List Row) (agentId : String) : List Row :=
  rows.filter fun m => !m.deleted && m.agentId = agentId

/-- The rows of one agent. -/
def sweepAgent (casing : Casing) (plan : Plan) (s : Sweep) (agentId : String) : Sweep :=
  sweepRows casing (plan.byConfidence (activeRows s.rows agentId)) { s with absorbed := [] }

/-- The agents with active memories. -/
def agentIds (plan : Plan) (rows : List Row) : List String :=
  plan.distinct ((rows.filter fun m => !m.deleted).map Row.agentId)

/-- The loop over the agents. -/
def sweep (casing : Casing) (plan : Plan) (rows : List Row) : Sweep :=
  (agentIds plan rows).foldl (sweepAgent casing plan) ⟨rows, [], 0⟩

/-! ## Nothing changes the keys -/

theorem map_id_setDeleted (id : String) (rows : List Row) :
    (setDeleted id rows).map Row.id = rows.map Row.id := by
  unfold setDeleted
  rw [List.map_map]
  refine List.map_congr_left fun m _ => ?_
  rw [Function.comp_apply]
  split
  · rfl
  · rfl

theorem map_id_setConfidence (c : Confidence) (id : String) (rows : List Row) :
    (setConfidence c id rows).map Row.id = rows.map Row.id := by
  unfold setConfidence
  rw [List.map_map]
  refine List.map_congr_left fun m _ => ?_
  rw [Function.comp_apply]
  split
  · rfl
  · rfl

theorem map_id_compareRow (casing : Casing) (keeper : Row) (s : Sweep) (row : Row) :
    (compareRow casing keeper s row).rows.map Row.id = s.rows.map Row.id := by
  unfold compareRow
  split
  · rfl
  · split
    · rfl
    · split
      · unfold absorb
        dsimp only
        split
        · rw [map_id_setConfidence, map_id_setDeleted]
        · exact map_id_setDeleted _ _
      · rfl

theorem map_id_foldl_compareRow (casing : Casing) (keeper : Row) (rows : List Row) (s : Sweep) :
    (rows.foldl (compareRow casing keeper) s).rows.map Row.id = s.rows.map Row.id := by
  induction rows generalizing s with
  | nil => rfl
  | cons row rows ih => rw [List.foldl_cons, ih, map_id_compareRow]

theorem map_id_sweepRows (casing : Casing) (rows : List Row) (s : Sweep) :
    (sweepRows casing rows s).rows.map Row.id = s.rows.map Row.id := by
  induction rows generalizing s with
  | nil => rfl
  | cons keeper rows ih =>
    rw [sweepRows, ih]
    split
    · rfl
    · exact map_id_foldl_compareRow _ _ _ _

theorem map_id_sweep (casing : Casing) (plan : Plan) (rows : List Row) :
    (sweep casing plan rows).rows.map Row.id = rows.map Row.id := by
  have hfold : ∀ (agents : List String) (s : Sweep),
      (agents.foldl (sweepAgent casing plan) s).rows.map Row.id = s.rows.map Row.id := by
    intro agents
    induction agents with
    | nil => exact fun s => rfl
    | cons agentId agents ih =>
      intro s
      rw [List.foldl_cons, ih]
      exact map_id_sweepRows _ _ _
  exact hfold _ _

theorem decayRow_id {factor : F64} {cutoff : String} {m m' : Row}
    (h : decayRow factor cutoff m = some m') : m'.id = m.id := by
  unfold decayRow at h
  split at h
  · obtain ⟨c, -, rfl⟩ := Option.map_eq_some_iff.mp h
    rfl
  · rw [← Option.some.inj h]

theorem map_id_decay {factor : F64} {cutoff : String} {rows rows' : List Row}
    (h : decay factor cutoff rows = some rows') : rows'.map Row.id = rows.map Row.id := by
  unfold decay at h
  induction rows generalizing rows' with
  | nil =>
    rw [List.mapM_nil] at h
    rw [← Option.some.inj h]
  | cons m rows ih =>
    rw [List.mapM_cons] at h
    obtain ⟨m', hm, h⟩ := Option.bind_eq_some_iff.mp h
    obtain ⟨tail, htail, h⟩ := Option.bind_eq_some_iff.mp h
    rw [← Option.some.inj h, List.map_cons, List.map_cons, decayRow_id hm, ih htail]

/-- The engine; its rate is an `f32` and is used as an `f64`. -/
structure ConsolidationEngine where
  decayRate : F64

/-- What a run reports. -/
structure ConsolidationReport where
  memoriesMerged : ℕ
  memoriesDecayed : ℕ

/-- `1.0 - decay_rate`. -/
def ConsolidationEngine.decayFactor (engine : ConsolidationEngine) : F64 :=
  (F64.finite 1).sub engine.decayRate

/-- `consolidate`; the cutoff is the time seven days ago, as a text. -/
def consolidate (casing : Casing) (plan : Plan) (engine : ConsolidationEngine) (cutoff : String)
    (t : MemoryTable) : Option (ConsolidationReport × MemoryTable) :=
  match h : decay engine.decayFactor cutoff t.rows with
  | none => none
  | some rows =>
    let s := sweep casing plan rows
    some (⟨s.merged, t.rows.countP (Row.decays cutoff)⟩,
      ⟨s.rows, by rw [map_id_sweep, map_id_decay h]; exact t.nodup⟩)

end LibreFang.Memory
