import LibreFang.Session.Repair

/-!
# Calls and their replies

The two adjacency properties the repair passes work on, and what keeps them.

* `Paired`: every call of an assistant message is answered by the message after it.
* `Follows U`: a result for an id in `U` directly follows a message calling that id.
* `calls`: the ids of all calls, in order; every pass after phase 2 keeps them.
-/

namespace LibreFang.Session

/-- The calls of the history, in order. -/
def calls (ms : List Message) : List String := ms.flatMap idsNeeded

/-- Every call of an assistant message is answered by the user message after it. -/
def Paired (ms : List Message) : Prop :=
  ∀ i m, ms[i]? = some m → ∀ x ∈ idsNeeded m, x ∈ adjacentResults ms[i + 1]?

/-- Every result for an id in `U` directly follows a message calling that id. -/
def Follows (U : String → Prop) (ms : List Message) : Prop :=
  ∀ i m, ms[i]? = some m → ∀ x ∈ toolResultIds m, U x →
    ∃ j p, i = j + 1 ∧ ms[j]? = some p ∧ x ∈ idsNeeded p

/-- `ToolResult` blocks occur only in user messages. -/
def ResultsInUser (ms : List Message) : Prop := ∀ m ∈ ms, toolResultIds m ≠ [] → m.role = .user

/-! ## Calls -/

variable {m : Message} {x : String}

theorem mem_idsNeeded : x ∈ idsNeeded m ↔ m.role = .assistant ∧ x ∈ toolUseIds m := by
  unfold idsNeeded
  split_ifs with h <;> simp [h]

theorem idsNeeded_of_role_ne (h : m.role ≠ .assistant) : idsNeeded m = [] := if_neg h

theorem idsNeeded_congr {m m' : Message} (hr : m'.role = m.role) (hu : toolUseIds m' = toolUseIds m) :
    idsNeeded m' = idsNeeded m := by
  unfold idsNeeded
  rw [hr, hu]

theorem nonEmpty_of_idsNeeded (h : x ∈ idsNeeded m) :
    m.nonEmpty = true := nonEmpty_of_toolUse (mem_idsNeeded.mp h).2

theorem mem_adjacentResults {o : Option Message} :
    x ∈ adjacentResults o ↔ ∃ n, o = some n ∧ n.role = .user ∧ x ∈ toolResultIds n := by
  cases o with
  | none => simp [adjacentResults]
  | some n =>
    simp only [adjacentResults]
    split_ifs with h <;> simp [h]

@[simp] theorem calls_nil : calls [] = [] := rfl

@[simp] theorem calls_cons (m : Message) (ms : List Message) :
    calls (m :: ms) = idsNeeded m ++ calls ms := rfl

variable {ms : List Message}

theorem mem_calls_of_getElem? {i : ℕ} (h : ms[i]? = some m) (hx : x ∈ idsNeeded m) : x ∈ calls ms :=
  List.mem_flatMap.mpr ⟨m, List.mem_of_getElem? h, hx⟩

theorem index_unique (hc : (calls ms).count x ≤ 1) {i j : ℕ}
    {m n : Message} (hi : ms[i]? = some m) (hm : x ∈ idsNeeded m) (hj : ms[j]? = some n)
    (hn : x ∈ idsNeeded n) : i = j := by
  induction ms generalizing i j with
  | nil => simp at hi
  | cons a ms ih =>
    rw [calls_cons, List.count_append] at hc
    have hpos : ∀ {l : List String}, x ∈ l → 0 < l.count x := List.count_pos_iff.mpr
    cases i with
    | zero =>
      cases j with
      | zero => rfl
      | succ j =>
        obtain rfl : a = m := by simpa using hi
        have h₁ := hpos hm
        have hj : ms[j]? = some n := by simpa using hj
        have h₂ := hpos (mem_calls_of_getElem? hj hn)
        omega
    | succ i =>
      cases j with
      | zero =>
        obtain rfl : a = n := by simpa using hj
        have h₁ := hpos hn
        have hi : ms[i]? = some m := by simpa using hi
        have h₂ := hpos (mem_calls_of_getElem? hi hm)
        omega
      | succ j =>
        have := ih (by omega) (by simpa using hi) (by simpa using hj)
        omega

theorem calls_filter (keep : Message → Bool)
    (hk : ∀ m ∈ ms, idsNeeded m ≠ [] → keep m = true) : calls (ms.filter keep) = calls ms := by
  induction ms with
  | nil => rfl
  | cons m ms ih =>
    have ih := ih fun n hn => hk n (List.mem_cons_of_mem _ hn)
    by_cases h : keep m = true
    · rw [List.filter_cons_of_pos h, calls_cons, calls_cons, ih]
    · have hm : idsNeeded m = [] := by
        by_contra hne
        exact h (hk m List.mem_cons_self hne)
      rw [List.filter_cons_of_neg h, calls_cons, hm, List.nil_append, ih]

/-! ## The adjacency properties on a list with a first message -/

theorem paired_cons :
    Paired (m :: ms) ↔ (∀ x ∈ idsNeeded m, x ∈ adjacentResults ms.head?) ∧ Paired ms := by
  constructor
  · intro h
    refine ⟨fun x hx => ?_, fun i n hi x hx => ?_⟩
    · have := h 0 m rfl x hx
      rwa [List.getElem?_cons_succ, ← List.head?_eq_getElem?] at this
    · simpa using h (i + 1) n (by simpa using hi) x hx
  · rintro ⟨h₀, h⟩ i n hi x hx
    cases i with
    | zero =>
      obtain rfl : m = n := by simpa using hi
      rw [List.getElem?_cons_succ, ← List.head?_eq_getElem?]
      exact h₀ x hx
    | succ i => simpa using h i n (by simpa using hi) x hx

theorem paired_nil : Paired [] := fun _ _ h => by simp at h

/-- `Follows`, with the message before the list. -/
def FollowsFrom (U : String → Prop) (prev : Option Message) : List Message → Prop
  | [] => True
  | m :: ms => (∀ x ∈ toolResultIds m, U x → ∃ p, prev = some p ∧ x ∈ idsNeeded p) ∧
      FollowsFrom U (some m) ms

theorem followsFrom_iff (U : String → Prop) (prev : Option Message) (ms : List Message) :
    FollowsFrom U prev ms ↔ ∀ (i : ℕ) (m : Message), ms[i]? = some m →
      ∀ x ∈ toolResultIds m, U x → ∃ p : Message, (prev :: ms.map some)[i]? = some (some p) ∧ x ∈ idsNeeded p := by
  induction ms generalizing prev with
  | nil => simp [FollowsFrom]
  | cons a ms ih =>
    rw [FollowsFrom, ih]
    constructor
    · rintro ⟨h₀, h⟩ i m hi x hx hU
      cases i with
      | zero =>
        obtain rfl : a = m := by simpa using hi
        obtain ⟨p, hp, hxp⟩ := h₀ x hx hU
        exact ⟨p, by simp [hp], hxp⟩
      | succ i => exact h i m (by simpa using hi) x hx hU
    · intro h
      refine ⟨fun x hx hU => ?_, fun i m hi x hx hU => h (i + 1) m (by simpa using hi) x hx hU⟩
      obtain ⟨p, hp, hxp⟩ := h 0 a rfl x hx hU
      exact ⟨p, by simpa using hp, hxp⟩

theorem follows_iff_from (U : String → Prop) (ms : List Message) :
    Follows U ms ↔ FollowsFrom U none ms := by
  rw [followsFrom_iff]
  refine forall_congr' fun i => forall_congr' fun m => forall_congr' fun hi =>
    forall_congr' fun x => forall_congr' fun hx => forall_congr' fun hU => ?_
  constructor
  · rintro ⟨j, p, rfl, hp, hxp⟩
    exact ⟨p, by simp [hp], hxp⟩
  · rintro ⟨p, hp, hxp⟩
    cases i with
    | zero => simp at hp
    | succ i => exact ⟨i, p, rfl, by simpa using hp, hxp⟩

/-! ## Dropping messages -/

/-- **Dropping messages keeps the pairs**, when no message with calls and no user message with
results is dropped. -/
theorem paired_filter (keep : Message → Bool) (h : Paired ms)
    (hc : ∀ m ∈ ms, idsNeeded m ≠ [] → keep m = true)
    (hr : ∀ m ∈ ms, m.role = .user → toolResultIds m ≠ [] → keep m = true) :
    Paired (ms.filter keep) := by
  induction ms with
  | nil => exact paired_nil
  | cons m ms ih =>
    obtain ⟨h₀, h⟩ := paired_cons.mp h
    have ih := ih h (fun n hn => hc n (List.mem_cons_of_mem _ hn))
      (fun n hn => hr n (List.mem_cons_of_mem _ hn))
    by_cases hm : keep m = true
    · rw [List.filter_cons_of_pos hm]
      refine paired_cons.mpr ⟨fun x hx => ?_, ih⟩
      obtain ⟨n, hn, hrole, hxn⟩ := mem_adjacentResults.mp (h₀ x hx)
      refine mem_adjacentResults.mpr ⟨n, ?_, hrole, hxn⟩
      cases ms with
      | nil => simp at hn
      | cons a ms =>
        obtain rfl : a = n := by simpa using hn
        have : keep a = true :=
          hr a (by simp) hrole (List.ne_nil_of_mem hxn)
        rw [List.filter_cons_of_pos this, List.head?_cons]
    · rw [List.filter_cons_of_neg hm]
      exact ih

variable {U : String → Prop}

theorem followsFrom_of_idsNeeded_nil (hm : idsNeeded m = [])
    (prev : Option Message) (h : FollowsFrom U (some m) ms) : FollowsFrom U prev ms := by
  cases ms with
  | nil => trivial
  | cons a ms =>
    refine ⟨fun x hx hU => ?_, h.2⟩
    obtain ⟨p, hp, hxp⟩ := h.1 x hx hU
    obtain rfl : m = p := by simpa using hp
    simp [hm] at hxp

theorem followsFrom_filter (keep : Message → Bool)
    (hc : ∀ m ∈ ms, idsNeeded m ≠ [] → keep m = true) (prev : Option Message)
    (h : FollowsFrom U prev ms) : FollowsFrom U prev (ms.filter keep) := by
  induction ms generalizing prev with
  | nil => trivial
  | cons m ms ih =>
    have ih := ih fun n hn => hc n (List.mem_cons_of_mem _ hn)
    by_cases hm : keep m = true
    · rw [List.filter_cons_of_pos hm]
      exact ⟨h.1, ih (some m) h.2⟩
    · rw [List.filter_cons_of_neg hm]
      have hn : idsNeeded m = [] := by
        by_contra hne
        exact hm (hc m List.mem_cons_self hne)
      exact ih prev (followsFrom_of_idsNeeded_nil hn prev h.2)

/-- **Dropping messages without calls keeps results behind their calls.** -/
theorem follows_filter (keep : Message → Bool)
    (hc : ∀ m ∈ ms, idsNeeded m ≠ [] → keep m = true) (h : Follows U ms) :
    Follows U (ms.filter keep) := by
  rw [follows_iff_from] at h ⊢
  exact followsFrom_filter keep hc none h

/-! ## Rewriting messages -/

/-- A rewritten message: same role, same calls, no result lost. -/
structure Rewrite (m m' : Message) : Prop where
  role : m'.role = m.role
  uses : toolUseIds m' = toolUseIds m
  results : toolResultIds m ⊆ toolResultIds m'

theorem Rewrite.refl (m : Message) : Rewrite m m := ⟨rfl, rfl, fun _ h => h⟩

theorem Rewrite.trans {a b c : Message} (h₁ : Rewrite a b) (h₂ : Rewrite b c) : Rewrite a c :=
  ⟨h₂.role.trans h₁.role, h₂.uses.trans h₁.uses, fun _ h => h₂.results (h₁.results h)⟩

theorem Rewrite.idsNeeded {m m' : Message} (h : Rewrite m m') : idsNeeded m' = idsNeeded m :=
  idsNeeded_congr h.role h.uses

theorem rewrite_extend (m : Message) {bs : List ContentBlock}
    (hb : bs.filterMap ContentBlock.useId? = []) : Rewrite m (m.extend bs) where
  role := rfl
  uses := by rw [toolUseIds_extend, hb, List.append_nil]
  results := by rw [toolResultIds_extend]; exact List.subset_append_left _ _

/-- **Rewriting messages keeps the pairs.** -/
theorem paired_of_forall₂ {ms ms' : List Message} (h : List.Forall₂ Rewrite ms ms')
    (hp : Paired ms) : Paired ms' := by
  induction h with
  | nil => exact paired_nil
  | @cons m m' ms ms' hm hrest ih =>
    obtain ⟨h₀, hp⟩ := paired_cons.mp hp
    refine paired_cons.mpr ⟨fun x hx => ?_, ih hp⟩
    rw [hm.idsNeeded] at hx
    obtain ⟨n, hn, hrole, hxn⟩ := mem_adjacentResults.mp (h₀ x hx)
    cases hrest with
    | nil => simp at hn
    | @cons a a' _ _ ha _ =>
      obtain rfl : a = n := by simpa using hn
      exact mem_adjacentResults.mpr ⟨a', rfl, ha.role.trans hrole, ha.results hxn⟩

theorem calls_of_forall₂ {ms ms' : List Message} (h : List.Forall₂ Rewrite ms ms') :
    calls ms' = calls ms := by
  induction h with
  | nil => rfl
  | cons hm _ ih => rw [calls_cons, calls_cons, hm.idsNeeded, ih]

end LibreFang.Session
