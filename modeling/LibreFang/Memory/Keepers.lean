import LibreFang.Memory.Sweeps
import LibreFang.Session.Strip
import Mathlib.Data.List.Dedup

/-!
# What a consolidation keeps

* `KeepsRow`: a row after a run; `Consolidated`: a table after a run. Every fact is still there, in
  its own row or in one that is as confident and has nearly the same words.
* `CannotRise`: the rate is not negative, or nothing finite decays.
* **`consolidate_exact`**: a run does this in exactly these cases.
-/

namespace LibreFang.Memory

open Floats LibreFang.Session

/-! ## Decay -/

theorem tenth_eq : tenth.1 = .finite (3602879701896397 / 36028797018963968) := by
  decide +kernel

theorem AtMost.refl (c : Confidence) : AtMost c c := F64.lt_irrefl c.1

theorem of_tenth_lt {c : Confidence} (h : tenth.1.lt c.1 = true) :
    c.1 = .infinity false ∨
      ∃ q, c.1 = .finite q ∧ IsBinary q ∧ 0 < q ∧ -1022 ≤ Int.log 2 q := by
  obtain ⟨c, hreal⟩ := c
  rw [tenth_eq] at h
  cases c with
  | nan => cases h
  | infinity s =>
    cases s with
    | false => exact .inl rfl
    | true => cases h
  | finite q =>
    have hlt : (3602879701896397 / 36028797018963968 : ℚ) < q := of_decide_eq_true h
    have hpos : 0 < q := lt_trans (by norm_num) hlt
    have hlog : -4 ≤ Int.log 2 q := (Int.zpow_le_iff_le_log (by norm_num) hpos).mp
      (le_trans (by norm_num) hlt.le)
    exact .inr ⟨q, rfl, hreal, hpos, by omega⟩

variable {factor : F64}

theorem tenth_atMost_decayed {c c' : Confidence} (h : decayed factor c = some c') :
    AtMost tenth c' := by
  unfold decayed at h
  split at h
  · cases h
  · rw [← Option.some.inj h]
    split
    · next hlt => exact F64.lt_asymm hlt
    · exact AtMost.refl tenth

theorem decayed_atMost {rate : F64} {c c' : Confidence}
    (hrate : rate.lt (.finite (-2 ^ (-53 : ℤ))) = false) (hc : tenth.1.lt c.1 = true)
    (h : decayed ((F64.finite 1).sub rate) c = some c') : AtMost c' c := by
  unfold decayed at h
  split at h
  · cases h
  · rw [← Option.some.inj h]
    split
    · unfold AtMost
      dsimp only
      rcases of_tenth_lt hc with hinf | ⟨q, hq, hbinary, hpos, -⟩
      · rw [hinf]
        cases (F64.infinity false).mul ((F64.finite 1).sub rate) with
        | nan => rfl
        | infinity s => rfl
        | finite q => rfl
      · rw [hq]
        exact F64.not_lt_mul_one_sub hbinary hpos hrate
    · exact F64.lt_asymm hc

theorem decayed_rises {rate : F64} {c : Confidence}
    (hrate : rate.lt (.finite (-2 ^ (-53 : ℤ))) = true) (hc : tenth.1.lt c.1 = true) :
    ∃ c', decayed ((F64.finite 1).sub rate) c = some c' ∧
      (c.1 = .infinity false ∨ ¬ AtMost c' c) := by
  rcases of_tenth_lt hc with hinf | ⟨q, hq, -, hpos, hnormal⟩
  · have hmul : c.1.mul ((F64.finite 1).sub rate) = .infinity false := by
      rw [hinf]
      exact F64.infinity_mul_one_sub hrate
    have hsome : c.1.mul ((F64.finite 1).sub rate) ≠ .nan := by
      rw [hmul]
      exact F64.noConfusion
    exact ⟨_, dif_neg hsome, .inl hinf⟩
  · have hlt : c.1.lt (c.1.mul ((F64.finite 1).sub rate)) = true := by
      rw [hq]
      exact F64.lt_mul_one_sub hpos hnormal hrate
    have hsome : c.1.mul ((F64.finite 1).sub rate) ≠ .nan := by
      intro hnan
      rw [hnan, hq] at hlt
      cases hlt
    have hmore : tenth.1.lt (c.1.mul ((F64.finite 1).sub rate)) = true := by
      rw [tenth_eq] at hc ⊢
      rw [hq] at hc hlt ⊢
      cases hmul : (F64.finite q).mul ((F64.finite 1).sub rate) with
      | nan =>
        rw [hmul] at hlt
        cases hlt
      | infinity s =>
        rw [hmul] at hlt
        exact hlt
      | finite p =>
        rw [hmul] at hlt
        exact decide_eq_true ((of_decide_eq_true hc).trans (of_decide_eq_true hlt))
    refine ⟨_, dif_neg hsome, .inr ?_⟩
    rw [if_pos hmore]
    unfold AtMost
    rw [Bool.not_eq_false]
    exact hlt

/-! ## Rows -/

/-- A row after a run: no confidence rises or becomes less than `0.1`. -/
structure KeepsRow (m m' : Row) : Prop where
  id : m'.id = m.id
  agentId : m'.agentId = m.agentId
  content : m'.content = m.content
  atMost : AtMost m'.confidence m.confidence
  atLeast : AtMost m.confidence m'.confidence ∨ AtMost tenth m'.confidence
  deleted : m.deleted = true → m'.deleted = true

theorem decayRow_eq {cutoff : String} {m m' : Row} (h : decayRow factor cutoff m = some m') :
    m' = { m with confidence := m'.confidence } ∧
      (m'.confidence = m.confidence ∨ m.decays cutoff = true ∧
        decayed factor m.confidence = some m'.confidence) := by
  unfold decayRow at h
  split at h
  · next hdecays =>
    obtain ⟨c, hc, rfl⟩ := Option.map_eq_some_iff.mp h
    exact ⟨rfl, .inr ⟨hdecays, hc⟩⟩
  · rw [← Option.some.inj h]
    exact ⟨rfl, .inl rfl⟩

theorem tenth_lt_of_decays {cutoff : String} {m : Row} (h : m.decays cutoff = true) :
    tenth.1.lt m.confidence.1 = true := by
  unfold Row.decays at h
  rw [Bool.and_eq_true] at h
  exact h.2

theorem forall₂_decay {cutoff : String} {rows rows' : List Row}
    (h : decay factor cutoff rows = some rows') :
    List.Forall₂ (fun m m' => decayRow factor cutoff m = some m') rows rows' := by
  unfold decay at h
  induction rows generalizing rows' with
  | nil =>
    rw [List.mapM_nil] at h
    rw [← Option.some.inj h]
    exact .nil
  | cons m rows ih =>
    rw [List.mapM_cons] at h
    obtain ⟨m', hm, h⟩ := Option.bind_eq_some_iff.mp h
    obtain ⟨tail, htail, h⟩ := Option.bind_eq_some_iff.mp h
    rw [← Option.some.inj h]
    exact .cons hm (ih htail)

theorem exists_decay (cutoff : String) (rows : List Row)
    (h : ∀ m ∈ rows, ∃ m', decayRow factor cutoff m = some m') :
    ∃ rows', decay factor cutoff rows = some rows' := by
  induction rows with
  | nil => exact ⟨[], rfl⟩
  | cons m rows ih =>
    obtain ⟨hm, hrows⟩ := List.forall_mem_cons.mp h
    obtain ⟨m', hm'⟩ := hm
    obtain ⟨tail, htail⟩ := ih hrows
    refine ⟨m' :: tail, ?_⟩
    unfold decay at htail ⊢
    rw [List.mapM_cons, hm', htail]
    rfl

theorem exists_right_of_forall₂ {α β : Type*} {R : α → β → Prop} {as : List α} {bs : List β}
    (h : List.Forall₂ R as bs) {a : α} (ha : a ∈ as) : ∃ b ∈ bs, R a b := by
  induction h with
  | nil => cases ha
  | cons hab _ ih =>
    rcases List.mem_cons.mp ha with rfl | ha
    · exact ⟨_, List.mem_cons_self, hab⟩
    · obtain ⟨b, hb, hab⟩ := ih ha
      exact ⟨b, List.mem_cons_of_mem _ hb, hab⟩

theorem exists_left_of_forall₂ {α β : Type*} {R : α → β → Prop} {as : List α} {bs : List β}
    (h : List.Forall₂ R as bs) {b : β} (hb : b ∈ bs) : ∃ a ∈ as, R a b := by
  obtain ⟨a, ha, hab⟩ := exists_right_of_forall₂ h.flip hb
  exact ⟨a, ha, hab⟩

/-! ## A run -/

/-- A table after a run. -/
structure Consolidated (casing : Casing) (t : MemoryTable) (report : ConsolidationReport)
    (t' : MemoryTable) : Prop where
  rows : List.Forall₂ KeepsRow t.rows t'.rows
  kept : ∀ m ∈ t.rows, m.deleted = false → ∃ m' ∈ t'.rows, m'.id = m.id ∧
    (m'.deleted = false ∨ ∃ keeper ∈ t'.rows, keeper.deleted = false ∧
      keeper.agentId = m.agentId ∧ AtMost m'.confidence keeper.confidence ∧
        Similar casing keeper.content m.content)
  merged : ∃ ids : List String, ids.length = report.memoriesMerged ∧
    ids.length ≤ maxMergesPerRun ∧ ∀ m ∈ t.rows, ∀ m' ∈ t'.rows, m'.id = m.id →
      (m'.deleted = true ↔ m.deleted = true ∨ m.id ∈ ids)
  settled : report.memoriesMerged < maxMergesPerRun → ∀ a ∈ t'.rows, ∀ b ∈ t'.rows,
    a.deleted = false → b.deleted = false → b.agentId = a.agentId → a.id ≠ b.id →
      ¬ Similar casing a.content b.content
  again : report.memoriesMerged < maxMergesPerRun →
    ∀ (plan : Plan) (engine : ConsolidationEngine) (cutoff : String)
      (report' : ConsolidationReport) (t'' : MemoryTable),
      consolidate casing plan engine cutoff t' = some (report', t'') → report'.memoriesMerged = 0

/-- The rate is not negative, to the precision of `1.0 - rate`, or nothing finite decays. -/
def CannotRise (engine : ConsolidationEngine) (cutoff : String) (t : MemoryTable) : Prop :=
  engine.decayRate.lt (.finite (-2 ^ (-53 : ℤ))) = false ∨
    ∀ m ∈ t.rows, m.decays cutoff = true → m.confidence.1 = .infinity false

/-- A run: every row decays, and the rows with some keys are absorbed. -/
structure Ran (casing : Casing) (plan : Plan) (engine : ConsolidationEngine) (cutoff : String)
    (t : MemoryTable) (report : ConsolidationReport) (t' : MemoryTable) (rows : List Row)
    (done ids : List String) : Prop where
  decay_eq : decay engine.decayFactor cutoff t.rows = some rows
  agents : ∀ m ∈ rows, m.deleted = false → m.agentId ∈ done
  swept : Swept casing rows done (sweep casing plan rows) ids
  table : t'.rows = rows.map (markDeleted ids)
  report_eq : report.memoriesMerged = ids.length

section Run

variable {casing : Casing} {plan : Plan} {engine : ConsolidationEngine} {cutoff : String}
  {t t' : MemoryTable} {report : ConsolidationReport} {rows : List Row} {done ids : List String}

theorem exists_ran (h : consolidate casing plan engine cutoff t = some (report, t')) :
    ∃ rows done ids, Ran casing plan engine cutoff t report t' rows done ids := by
  unfold consolidate at h
  split at h
  · cases h
  · next rows hdecay =>
    have hnodup : (rows.map Row.id).Nodup := by
      rw [map_id_decay hdecay]
      exact t.nodup
    obtain ⟨done, ids, hdone, hswept⟩ := swept_sweep casing plan hnodup
    obtain ⟨hreport, htable⟩ := Prod.mk.inj (Option.some.inj h)
    refine ⟨rows, done, ids, hdecay, hdone, hswept, ?_, ?_⟩
    · rw [← htable]
      exact hswept.rows_eq
    · rw [← hreport]
      exact hswept.merged_eq

theorem Ran.exists_row (h : Ran casing plan engine cutoff t report t' rows done ids) {m : Row}
    (hm : m ∈ t.rows) :
    ∃ d ∈ rows, decayRow engine.decayFactor cutoff m = some d ∧ markDeleted ids d ∈ t'.rows := by
  obtain ⟨d, hd, hdecay⟩ := exists_right_of_forall₂ (forall₂_decay h.decay_eq) hm
  rw [h.table]
  exact ⟨d, hd, hdecay, List.mem_map_of_mem hd⟩

theorem Ran.exists_of_row (h : Ran casing plan engine cutoff t report t' rows done ids) {m' : Row}
    (hm' : m' ∈ t'.rows) : ∃ d ∈ rows, m' = markDeleted ids d ∧
      ∃ m ∈ t.rows, decayRow engine.decayFactor cutoff m = some d := by
  rw [h.table, List.mem_map] at hm'
  obtain ⟨d, hd, rfl⟩ := hm'
  obtain ⟨m, hm, hdecay⟩ := exists_left_of_forall₂ (forall₂_decay h.decay_eq) hd
  exact ⟨d, hd, rfl, m, hm, hdecay⟩

theorem Ran.nodup (h : Ran casing plan engine cutoff t report t' rows done ids) :
    (rows.map Row.id).Nodup := by
  rw [map_id_decay h.decay_eq]
  exact t.nodup

/-! ## The rows of a run -/

theorem markDeleted_confidence (ids : List String) (m : Row) :
    (markDeleted ids m).confidence = m.confidence := by
  unfold markDeleted
  split
  · rfl
  · rfl

theorem markDeleted_deleted (ids : List String) (m : Row) :
    (markDeleted ids m).deleted = true ↔ m.deleted = true ∨ m.id ∈ ids := by
  unfold markDeleted
  split
  · next hmem => exact iff_of_true rfl (.inr hmem)
  · next hnot => exact (or_iff_left hnot).symm

theorem decayRow_fields {m d : Row} (h : decayRow factor cutoff m = some d) :
    d.id = m.id ∧ d.agentId = m.agentId ∧ d.content = m.content ∧ d.deleted = m.deleted := by
  obtain ⟨heq, -⟩ := decayRow_eq h
  rw [heq]
  exact ⟨rfl, rfl, rfl, rfl⟩

theorem decayRow_atMost (h : CannotRise engine cutoff t) {m d : Row} (hm : m ∈ t.rows)
    (hdecay : decayRow engine.decayFactor cutoff m = some d) :
    AtMost d.confidence m.confidence := by
  obtain ⟨-, hsame | ⟨hdecays, hdecayed⟩⟩ := decayRow_eq hdecay
  · rw [hsame]
    exact AtMost.refl _
  · rcases h with hrate | hinf
    · exact decayed_atMost hrate (tenth_lt_of_decays hdecays) hdecayed
    · unfold AtMost
      rw [hinf m hm hdecays]
      cases d.confidence.1 with
      | nan => rfl
      | infinity s => rfl
      | finite q => rfl

theorem keepsRow_markDeleted {m d : Row} (h : decayRow factor cutoff m = some d)
    (hle : AtMost d.confidence m.confidence) (ids : List String) :
    KeepsRow m (markDeleted ids d) := by
  obtain ⟨hid, hagent, hcontent, hdeleted⟩ := decayRow_fields h
  have hfields : (markDeleted ids d).agentId = d.agentId ∧
      (markDeleted ids d).content = d.content := by
    unfold markDeleted
    split
    · exact ⟨rfl, rfl⟩
    · exact ⟨rfl, rfl⟩
  refine ⟨(markDeleted_id ids d).trans hid, hfields.1.trans hagent, hfields.2.trans hcontent,
    ?_, ?_, fun hm => (markDeleted_deleted ids d).mpr (.inl (hdeleted.trans hm))⟩
  · rw [markDeleted_confidence]
    exact hle
  · rw [markDeleted_confidence]
    obtain ⟨-, hsame | ⟨-, hdecayed⟩⟩ := decayRow_eq h
    · rw [hsame]
      exact .inl (AtMost.refl _)
    · exact .inr (tenth_atMost_decayed hdecayed)

theorem Ran.rows_kept (h : Ran casing plan engine cutoff t report t' rows done ids)
    (hrise : CannotRise engine cutoff t) : List.Forall₂ KeepsRow t.rows t'.rows := by
  rw [h.table, List.forall₂_map_right_iff]
  have hall : ∀ {as bs : List Row},
      List.Forall₂ (fun m d => decayRow engine.decayFactor cutoff m = some d) as bs →
        (∀ m ∈ as, m ∈ t.rows) → List.Forall₂ (fun m d => KeepsRow m (markDeleted ids d)) as bs := by
    intro as bs hdecay
    induction hdecay with
    | nil => exact fun _ => .nil
    | cons hab _ ih =>
      intro hmem
      obtain ⟨hm, hrest⟩ := List.forall_mem_cons.mp hmem
      exact .cons (keepsRow_markDeleted hab (decayRow_atMost hrise hm hab) ids) (ih hrest)
  exact hall (forall₂_decay h.decay_eq) fun _ hm => hm

theorem Ran.fact_kept (h : Ran casing plan engine cutoff t report t' rows done ids) {m : Row}
    (hm : m ∈ t.rows) (hactive : m.deleted = false) : ∃ m' ∈ t'.rows, m'.id = m.id ∧
      (m'.deleted = false ∨ ∃ keeper ∈ t'.rows, keeper.deleted = false ∧
        keeper.agentId = m.agentId ∧ AtMost m'.confidence keeper.confidence ∧
          Similar casing keeper.content m.content) := by
  obtain ⟨d, hd, hdecay, hmem⟩ := h.exists_row hm
  obtain ⟨hid, hagent, hcontent, hdeleted⟩ := decayRow_fields hdecay
  refine ⟨markDeleted ids d, hmem, (markDeleted_id ids d).trans hid, ?_⟩
  by_cases hids : d.id ∈ ids
  · obtain ⟨row, hrow, heq, -, -, keeper, hkeeper, hactive', hof, hnot, hconf, hsimilar⟩ :=
      h.swept.keepers d.id hids
    have hsame := eq_of_id_eq h.nodup hrow hd heq
    subst hsame
    have hkeeper' : keeper ∈ t'.rows := by
      rw [h.table]
      exact List.mem_map.mpr ⟨keeper, hkeeper, markDeleted_of_not_mem hnot⟩
    rw [markDeleted_confidence]
    rw [hcontent] at hsimilar
    exact .inr ⟨keeper, hkeeper', hactive', hof.trans hagent, hconf, hsimilar⟩
  · rw [markDeleted_of_not_mem hids]
    exact .inl (hdeleted.trans hactive)

theorem Ran.deleted_iff (h : Ran casing plan engine cutoff t report t' rows done ids) {m m' : Row}
    (hm : m ∈ t.rows) (hm' : m' ∈ t'.rows) (hid : m'.id = m.id) :
    m'.deleted = true ↔ m.deleted = true ∨ m.id ∈ ids := by
  obtain ⟨d, -, rfl, m₀, hm₀, hdecay⟩ := h.exists_of_row hm'
  obtain ⟨hid₀, -, -, hdeleted⟩ := decayRow_fields hdecay
  rw [markDeleted_id, hid₀] at hid
  have hsame := eq_of_id_eq t.nodup hm₀ hm hid
  subst hsame
  rw [markDeleted_deleted, hdeleted, hid₀]

theorem Ran.not_similar (h : Ran casing plan engine cutoff t report t' rows done ids)
    (hroom : report.memoriesMerged < maxMergesPerRun) {a b : Row} (ha : a ∈ t'.rows)
    (hb : b ∈ t'.rows) (hactive : a.deleted = false) (hactive' : b.deleted = false)
    (hof : b.agentId = a.agentId) (hne : a.id ≠ b.id) : ¬ Similar casing a.content b.content := by
  obtain ⟨d, hd, rfl, -⟩ := h.exists_of_row ha
  obtain ⟨e, he, rfl, -⟩ := h.exists_of_row hb
  obtain ⟨hnot, hsame⟩ := markDeleted_active hactive
  obtain ⟨hnot', hsame'⟩ := markDeleted_active hactive'
  rw [hsame] at hactive hof hne ⊢
  rw [hsame'] at hactive' hof hne ⊢
  have hroom' : (sweep casing plan rows).merged < maxMergesPerRun := by
    rwa [h.swept.merged_eq, ← h.report_eq]
  exact h.swept.settled hroom' d hd e he hactive hactive' (h.agents d hd hactive) hof hnot hnot' hne

theorem Ran.merges_nothing (h : Ran casing plan engine cutoff t report t' rows done ids)
    (hsettled : ∀ a ∈ t.rows, ∀ b ∈ t.rows, a.deleted = false → b.deleted = false →
      b.agentId = a.agentId → a.id ≠ b.id → ¬ Similar casing a.content b.content) :
    report.memoriesMerged = 0 := by
  rw [h.report_eq, List.length_eq_zero_iff, List.eq_nil_iff_forall_not_mem]
  intro id hid
  obtain ⟨row, hrow, heq, hactive, -, keeper, hkeeper, hactive', hof, hnot, -, hsimilar⟩ :=
    h.swept.keepers id hid
  obtain ⟨m, hm, hdecay⟩ := exists_left_of_forall₂ (forall₂_decay h.decay_eq) hrow
  obtain ⟨k, hk, hdecay'⟩ := exists_left_of_forall₂ (forall₂_decay h.decay_eq) hkeeper
  obtain ⟨hmid, hagent, hcontent, hdeleted⟩ := decayRow_fields hdecay
  obtain ⟨hkid, hagent', hcontent', hdeleted'⟩ := decayRow_fields hdecay'
  have hne : k.id ≠ m.id := by
    rw [← hkid, ← hmid, heq]
    rintro rfl
    exact hnot hid
  refine hsettled k hk m hm (hdeleted'.symm.trans hactive') (hdeleted.symm.trans hactive)
    ?_ hne ?_
  · rw [← hagent, ← hagent', hof]
  · rwa [← hcontent, ← hcontent']

theorem Ran.consolidated (h : Ran casing plan engine cutoff t report t' rows done ids)
    (hrise : CannotRise engine cutoff t) : Consolidated casing t report t' where
  rows := h.rows_kept hrise
  kept := fun _ hm hactive => h.fact_kept hm hactive
  merged := by
    refine ⟨ids, h.report_eq.symm, ?_, fun _ hm _ hm' hid => h.deleted_iff hm hm' hid⟩
    rw [← h.swept.merged_eq]
    exact h.swept.cap
  settled := fun hroom _ ha _ hb hactive hactive' hof hne =>
    h.not_similar hroom ha hb hactive hactive' hof hne
  again := by
    intro hroom plan' engine' cutoff' report' t'' hrun
    obtain ⟨rows', done', ids', hran⟩ := exists_ran hrun
    exact hran.merges_nothing fun _ ha _ hb hactive hactive' hof hne =>
      h.not_similar hroom ha hb hactive hactive' hof hne

/-! ## Negative rates -/

theorem exists_decayRow (hrate : engine.decayRate.lt (.finite (-2 ^ (-53 : ℤ))) = true) (m : Row) :
    ∃ d, decayRow engine.decayFactor cutoff m = some d := by
  unfold decayRow
  split
  · next hdecays =>
    obtain ⟨c, hc, -⟩ := decayed_rises hrate (tenth_lt_of_decays hdecays)
    exact ⟨_, Option.map_eq_some_iff.mpr ⟨c, hc, rfl⟩⟩
  · exact ⟨m, rfl⟩

variable (casing plan) in
theorem exists_consolidate (hrows : decay engine.decayFactor cutoff t.rows = some rows) :
    ∃ report t', consolidate casing plan engine cutoff t = some (report, t') := by
  unfold consolidate
  split
  · next hnone => exact absurd (hnone.symm.trans hrows) (Option.some_ne_none _).symm
  · exact ⟨_, _, rfl⟩

theorem Ran.not_consolidated (h : Ran casing plan engine cutoff t report t' rows done ids)
    (hrate : engine.decayRate.lt (.finite (-2 ^ (-53 : ℤ))) = true) {m : Row} (hm : m ∈ t.rows)
    (hdecays : m.decays cutoff = true) (hfinite : m.confidence.1 ≠ .infinity false) :
    ¬ Consolidated casing t report t' := by
  intro hall
  obtain ⟨c, hc, hinf | hrises⟩ := decayed_rises hrate (tenth_lt_of_decays hdecays)
  · exact hfinite hinf
  · obtain ⟨m', hm', hkeeps⟩ := exists_right_of_forall₂ hall.rows hm
    obtain ⟨d, -, hdecay, hd⟩ := h.exists_row hm
    have hsame : m' = markDeleted ids d := by
      refine eq_of_id_eq t'.nodup hm' hd ?_
      rw [hkeeps.id, markDeleted_id, decayRow_id hdecay]
    unfold decayRow at hdecay
    rw [if_pos hdecays] at hdecay
    obtain ⟨c', hc', rfl⟩ := Option.map_eq_some_iff.mp hdecay
    have hle := hkeeps.atMost
    rw [hsame, markDeleted_confidence] at hle
    have hcc : c' = c := Option.some.inj (hc'.symm.trans hc)
    subst hcc
    exact hrises hle

end Run

/-- **What a run does.** -/
theorem consolidate_exact (casing : Casing) (plan : Plan) (engine : ConsolidationEngine)
    (cutoff : String) (t : MemoryTable) :
    (∀ report t', consolidate casing plan engine cutoff t = some (report, t') →
      Consolidated casing t report t') ↔ CannotRise engine cutoff t := by
  constructor
  · intro hall
    by_contra hrise
    unfold CannotRise at hrise
    rw [not_or, Bool.not_eq_false] at hrise
    obtain ⟨hrate, hrise⟩ := hrise
    push Not at hrise
    obtain ⟨m, hm, hdecays, hfinite⟩ := hrise
    obtain ⟨rows, hrows⟩ := exists_decay cutoff t.rows fun m _ => exists_decayRow hrate m
    obtain ⟨report, t', hrun⟩ := exists_consolidate casing plan hrows
    obtain ⟨rows, done, ids, hran⟩ := exists_ran hrun
    exact hran.not_consolidated hrate hm hdecays hfinite (hall report t' hrun)
  · intro hrise report t' hrun
    obtain ⟨rows, done, ids, hran⟩ := exists_ran hrun
    exact hran.consolidated hrise

/-! ## A memory that becomes more confident -/

/-- Rows with equal confidence stay in their order. -/
def samplePlan : Plan where
  distinct := List.dedup
  nodup_distinct := List.nodup_dedup
  mem_distinct := fun _ _ => List.mem_dedup
  byConfidence := fun rows => rows.mergeSort fun a b => !a.confidence.1.lt b.confidence.1
  perm_byConfidence := fun rows => List.mergeSort_perm rows _
  pairwise_byConfidence := by
    intro rows
    refine (List.pairwise_mergeSort (fun a b c hab hbc => ?_) (fun a b => ?_) rows).imp
      fun hab => by rwa [Bool.not_eq_true'] at hab
    · rw [Bool.not_eq_true'] at hab hbc ⊢
      by_contra hac
      rw [Bool.not_eq_false] at hac
      rcases F64.lt_or_lt b.confidence.2 hac with h | h
      · exact Bool.false_ne_true (hab.symm.trans h)
      · exact Bool.false_ne_true (hbc.symm.trans h)
    · cases h : a.confidence.1.lt b.confidence.1 with
      | false => rfl
      | true =>
        rw [F64.lt_asymm h]
        rfl

/-- A memory of January with full confidence. -/
def sampleRow : Row where
  id := "memory"
  agentId := "agent"
  content := "the fact".toList
  confidence := ⟨.finite 1, isBinary_one⟩
  accessedAt := "2026-01-01T00:00:00+00:00"
  deleted := false

/-- A table with this memory. -/
def sampleTable : MemoryTable := ⟨[sampleRow], List.nodup_singleton _⟩

/-- An engine whose rate is minus one. -/
def risingEngine : ConsolidationEngine := ⟨.finite (-1)⟩

/-- Its confidence becomes two. -/
theorem rising_confidence : ¬ ∀ (casing : Casing) (plan : Plan) (engine : ConsolidationEngine)
    (cutoff : String) (t : MemoryTable) (report : ConsolidationReport) (t' : MemoryTable),
      consolidate casing plan engine cutoff t = some (report, t') →
        Consolidated casing t report t' := by
  intro h
  have hrate : risingEngine.decayRate.lt (.finite (-2 ^ (-53 : ℤ))) = true := by decide +kernel
  obtain ⟨rows, hrows⟩ := exists_decay "2026-02-01T00:00:00+00:00" sampleTable.rows
    fun m _ => exists_decayRow hrate m
  obtain ⟨report, t', hrun⟩ := exists_consolidate dotCasing samplePlan hrows
  obtain ⟨rows, done, ids, hran⟩ := exists_ran hrun
  refine hran.not_consolidated hrate (List.mem_singleton_self sampleRow) (by decide +kernel) ?_
    (h _ _ _ _ _ _ _ hrun)
  exact F64.noConfusion

end LibreFang.Memory
