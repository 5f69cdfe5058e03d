import Mathlib.Data.List.AList

/-!
# Tables

A map from keys to values, with the operations of a concurrent map that works on one entry at a
time.

* `Table.mapVal`: a table with the same keys and other values.
* `Table.retain`: the entries that meet a condition.
* **`Table.lookup_iff_mem`**: what `List.lookup` finds in a list of pairs whose keys are distinct.
* `Table.Forall`: a property of all stored values; **`Forall.insert`**, **`Forall.erase`** and
  **`Forall.update`** keep it.
-/

/-- A finite map; every key occurs once. -/
abbrev Table (κ ν : Type*) := AList fun _ : κ => ν

/-- A key and its value. -/
abbrev Table.Entry (κ ν : Type*) := Sigma fun _ : κ => ν

namespace Table

variable {κ ν μ : Type*} {t : Table κ ν}

/-- The table with the values mapped. -/
def mapVal (f : κ → ν → μ) (t : Table κ ν) : Table κ μ where
  entries := t.entries.map fun e => ⟨e.1, f e.1 e.2⟩
  nodupKeys := by
    have h := t.nodupKeys
    unfold List.NodupKeys List.keys at h ⊢
    rwa [List.map_map]

/-- Every entry rewritten in place. -/
def update (f : κ → ν → ν) (t : Table κ ν) : Table κ ν where
  entries := t.entries.map fun e => ⟨e.1, f e.1 e.2⟩
  nodupKeys := by
    have h := t.nodupKeys
    unfold List.NodupKeys List.keys at h ⊢
    rwa [List.map_map]

theorem keys_update (f : κ → ν → ν) (t : Table κ ν) : (t.update f).keys = t.keys := by
  simp [update, AList.keys, List.keys]

/-- The entries that meet a condition. -/
def retain (p : κ → ν → Bool) (t : Table κ ν) : Table κ ν where
  entries := t.entries.filter fun e => p e.1 e.2
  nodupKeys := t.nodupKeys.sublist List.filter_sublist

theorem length_keys_retain_le (p : κ → ν → Bool) (t : Table κ ν) :
    (t.retain p).keys.length ≤ t.keys.length := by
  simp only [AList.keys, List.keys, List.length_map, retain]
  exact List.length_filter_le ..

section Lookup

variable [DecidableEq κ]

theorem dlookup_map (f : κ → ν → μ) (k : κ) (l : List (Entry κ ν)) :
    List.dlookup k (l.map fun e => (⟨e.1, f e.1 e.2⟩ : Entry κ μ)) =
      (List.dlookup k l).map (f k) := by
  induction l with
  | nil => rfl
  | cons e l ih =>
    obtain ⟨k', v⟩ := e
    by_cases h : k = k'
    · subst h
      simp
    · rw [List.map_cons, List.dlookup_cons_ne _ _ h, List.dlookup_cons_ne _ _ h, ih]

@[simp] theorem lookup_mapVal (f : κ → ν → μ) (k : κ) :
    (t.mapVal f).lookup k = (t.lookup k).map (f k) :=
  dlookup_map f k t.entries

variable {k : κ}

theorem mem_mapVal {f : κ → ν → μ} : k ∈ t.mapVal f ↔ k ∈ t := by
  rw [← AList.lookup_isSome, ← AList.lookup_isSome, lookup_mapVal, Option.isSome_map]

@[simp] theorem lookup_update (f : κ → ν → ν) (k : κ) :
    (t.update f).lookup k = (t.lookup k).map (f k) :=
  dlookup_map f k t.entries

/-- The value of a key rewritten in place, if it has one. -/
def modify (k : κ) (f : ν → ν) (t : Table κ ν) : Table κ ν :=
  t.update fun k' v => if k' = k then f v else v

theorem keys_modify (k : κ) (f : ν → ν) (t : Table κ ν) : (t.modify k f).keys = t.keys :=
  keys_update ..

theorem lookup_retain (p : κ → ν → Bool) (k : κ) :
    (t.retain p).lookup k = (t.lookup k).filter (p k) := by
  apply Option.ext
  intro v
  rw [← Option.mem_def, AList.mem_lookup_iff, ← Option.mem_def, Option.mem_filter_iff,
    AList.mem_lookup_iff]
  exact List.mem_filter

@[simp] theorem lookup_modify_self (k : κ) (f : ν → ν) :
    (t.modify k f).lookup k = (t.lookup k).map f := by
  rw [modify, lookup_update]
  congr 1
  funext v
  rw [if_pos rfl]

theorem lookup_modify_ne {k k' : κ} (f : ν → ν) (h : k' ≠ k) :
    (t.modify k f).lookup k' = t.lookup k' := by
  rw [modify, lookup_update]
  cases t.lookup k' with
  | none => rfl
  | some v => simp [h]

theorem perm_erase {v : ν} (h : t.lookup k = some v) :
    t.entries.Perm (⟨k, v⟩ :: (t.erase k).entries) := by
  have hkey : k ∈ t.entries.keys := AList.lookup_isSome.mp (Option.isSome_of_eq_some h)
  obtain ⟨v', before, after, hbefore, heq, herase⟩ := List.exists_of_kerase hkey
  have hmem : (⟨k, v'⟩ : Entry κ ν) ∈ t.entries := by
    rw [heq]
    exact List.mem_append_right _ List.mem_cons_self
  obtain rfl : v' = v := Option.some.inj ((List.mem_dlookup_iff t.nodupKeys).mpr hmem ▸ h)
  show t.entries.Perm (_ :: List.kerase k t.entries)
  rw [herase, heq]
  exact List.perm_middle

theorem erase_of_notMem (h : k ∉ t) : (t.erase k).entries = t.entries :=
  List.kerase_of_notMem_keys h

end Lookup

/-- The entries rewritten in order, up to and with the first one that stops the visit. -/
def visitEntries (f : κ → ν → ν × Bool) :
    List (Entry κ ν) → List (Entry κ ν) × Bool
  | [] => ([], false)
  | e :: l =>
    match f e.1 e.2 with
    | (v, true) => (⟨e.1, v⟩ :: l, true)
    | (v, false) => (⟨e.1, v⟩ :: (visitEntries f l).1, (visitEntries f l).2)

theorem keys_visitEntries (f : κ → ν → ν × Bool) (l : List (Entry κ ν)) :
    (visitEntries f l).1.keys = l.keys := by
  induction l with
  | nil => rfl
  | cons e l ih =>
    rw [visitEntries]
    rcases f e.1 e.2 with ⟨v, _ | _⟩
    · simp [ih]
    · rfl

/-- Every entry rewritten in place, until one of them stops the visit, and whether one did. -/
def visit (f : κ → ν → ν × Bool) (t : Table κ ν) : Table κ ν × Bool :=
  (⟨(visitEntries f t.entries).1, by
      have h := t.nodupKeys
      rwa [List.NodupKeys, ← keys_visitEntries f] at h⟩,
    (visitEntries f t.entries).2)

variable {f : κ → ν → ν × Bool}

theorem visitEntries_of_not_stopped {l : List (Entry κ ν)} (h : (visitEntries f l).2 = false) :
    (visitEntries f l).1 = l.map fun e => ⟨e.1, (f e.1 e.2).1⟩ := by
  induction l with
  | nil => rfl
  | cons e l ih =>
    rw [visitEntries] at h ⊢
    rcases hf : f e.1 e.2 with ⟨v, _ | _⟩
    · rw [hf] at h
      rw [List.map_cons, hf, ih h]
    · rw [hf] at h
      cases h

section Lookup

variable [DecidableEq κ]

theorem dlookup_visitEntries (f : κ → ν → ν × Bool) (k : κ) (l : List (Entry κ ν)) :
    List.dlookup k (visitEntries f l).1 = List.dlookup k l ∨
      List.dlookup k (visitEntries f l).1 = (List.dlookup k l).map fun v => (f k v).1 := by
  induction l with
  | nil => exact .inl rfl
  | cons e l ih =>
    obtain ⟨k', v⟩ := e
    rw [visitEntries]
    rcases hf : f k' v with ⟨v', _ | _⟩
    all_goals
      by_cases h : k = k'
      · subst h
        exact .inr (by simp [hf])
    · rw [List.dlookup_cons_ne _ _ h, List.dlookup_cons_ne _ _ h]
      exact ih
    · rw [List.dlookup_cons_ne _ _ h, List.dlookup_cons_ne _ _ h]
      exact .inl rfl

theorem lookup_visit (f : κ → ν → ν × Bool) (k : κ) :
    (t.visit f).1.lookup k = t.lookup k ∨
      (t.visit f).1.lookup k = (t.lookup k).map fun v => (f k v).1 :=
  dlookup_visitEntries f k t.entries

theorem lookup_visit_of_not_stopped (h : (t.visit f).2 = false) (k : κ) :
    (t.visit f).1.lookup k = (t.lookup k).map fun v => (f k v).1 := by
  have hall := visitEntries_of_not_stopped h
  unfold visit AList.lookup
  dsimp only
  rw [hall]
  exact dlookup_map (fun k v => (f k v).1) k t.entries

theorem not_stopped_of_lookup (h : (t.visit f).2 = false) {v : ν}
    (hv : t.lookup k = some v) : (f k v).2 = false := by
  have hmem := List.of_mem_dlookup (Option.mem_def.mpr hv)
  have hstop : (visitEntries f t.entries).2 = false := h
  revert hmem hstop
  generalize t.entries = l
  induction l with
  | nil =>
    intro hmem
    cases hmem
  | cons e l ih =>
    intro hmem hstop
    rw [visitEntries] at hstop
    rcases hf : f e.1 e.2 with ⟨v', _ | _⟩
    · rw [hf] at hstop
      rcases List.mem_cons.mp hmem with rfl | hmem
      · exact congrArg Prod.snd hf
      · exact ih hmem hstop
    · rw [hf] at hstop
      cases hstop

end Lookup

/-! ## A property of all values -/

section Forall

variable [DecidableEq κ] {P : κ → ν → Prop}

/-- Every stored value has the property. -/
def Forall (P : κ → ν → Prop) (t : Table κ ν) : Prop := ∀ k v, t.lookup k = some v → P k v

theorem Forall.insert {v : ν} (h : t.Forall P) (hv : P k v) : Forall P (AList.insert k v t) := by
  intro k' v' h'
  by_cases hk : k' = k
  · subst hk
    rw [AList.lookup_insert] at h'
    exact Option.some.inj h' ▸ hv
  · rw [AList.lookup_insert_ne hk] at h'
    exact h k' v' h'

theorem Forall.erase (h : t.Forall P) (k : κ) : Forall P (AList.erase k t) := by
  intro k' v' h'
  by_cases hk : k' = k
  · subst hk
    rw [AList.lookup_erase] at h'
    cases h'
  · rw [AList.lookup_erase_ne hk] at h'
    exact h k' v' h'

theorem Forall.update {f : κ → ν → ν} (h : t.Forall P) (hf : ∀ k v, P k v → P k (f k v)) :
    (t.update f).Forall P := by
  intro k v' h'
  rw [lookup_update] at h'
  obtain ⟨v, hv, rfl⟩ := Option.map_eq_some_iff.mp h'
  exact hf k v (h k v hv)

theorem Forall.modify {f : ν → ν} (h : t.Forall P) (hf : ∀ v, P k v → P k (f v)) :
    (t.modify k f).Forall P := by
  refine h.update fun k' v hv => ?_
  by_cases hk : k' = k
  · rw [if_pos hk]
    subst hk
    exact hf v hv
  · rwa [if_neg hk]

end Forall

theorem lookup_iff_mem [BEq κ] [LawfulBEq κ] {entries : List (κ × ν)}
    (h : (entries.map (·.1)).Nodup) {key : κ} {value : ν} :
    entries.lookup key = some value ↔ (key, value) ∈ entries := by
  rw [List.lookup_eq_some_iff]
  constructor
  · rintro ⟨front, rest, rfl, -⟩
    exact List.mem_append_right _ List.mem_cons_self
  · intro hmem
    obtain ⟨front, rest, rfl⟩ := List.append_of_mem hmem
    refine ⟨front, rest, rfl, fun e he => ?_⟩
    rw [List.map_append, List.map_cons, List.nodup_append] at h
    rw [bne_iff_ne]
    exact (h.2.2 e.1 (List.mem_map_of_mem he) key List.mem_cons_self).symm

end Table
