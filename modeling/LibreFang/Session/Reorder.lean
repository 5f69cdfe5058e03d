import Mathlib.Data.List.Forall2
import LibreFang.Session.Adjacent

/-!
# Reordering keeps the pairs

Phase 2b moves a result of an id called once behind that call. On a history whose calls are
paired, nothing it moves was needed where it stood.

* `Placed kept acc`: what each insertion keeps of the messages after the removals.
* **`paired_reorder`**, **`follows_reorder`**: the history after the pass.
-/

namespace LibreFang.Session

variable {b : ContentBlock}

/-- The id is carried by one call of the history. -/
def CalledOnce (ms : List Message) (x : String) : Prop := (calls ms).count x = 1

instance (ms : List Message) (x : String) : Decidable (CalledOnce ms x) :=
  inferInstanceAs (Decidable (_ = _))

section Lookup

variable {ms : List Message} {x : String} {t : ℕ}

theorem toolUseIndex_of_not_calledOnce (h : ¬CalledOnce ms x) : toolUseIndex ms x = none :=
  if_neg h

theorem toolUseIndex_of_calledOnce (h : CalledOnce ms x) :
    toolUseIndex ms x = ms.findIdx? fun m => decide (x ∈ idsNeeded m) := if_pos h

theorem toolUseIndex_eq_some :
    toolUseIndex ms x = some t ↔ CalledOnce ms x ∧ ∃ m, ms[t]? = some m ∧ x ∈ idsNeeded m := by
  constructor
  · intro h
    by_cases hc : CalledOnce ms x
    · rw [toolUseIndex_of_calledOnce hc, List.findIdx?_eq_some_iff_getElem] at h
      obtain ⟨ht, hx, -⟩ := h
      exact ⟨hc, ms[t], List.getElem?_eq_getElem ht, of_decide_eq_true hx⟩
    · rw [toolUseIndex_of_not_calledOnce hc] at h
      cases h
  · rintro ⟨hc, m, hm, hx⟩
    rw [toolUseIndex_of_calledOnce hc]
    cases hf : ms.findIdx? fun m => decide (x ∈ idsNeeded m) with
    | none =>
      have := List.findIdx?_eq_none_iff.mp hf m (List.mem_of_getElem? hm)
      exact absurd hx (of_decide_eq_false this)
    | some i =>
      rw [List.findIdx?_eq_some_iff_getElem] at hf
      obtain ⟨hi, hxi, -⟩ := hf
      rw [index_unique hc.le (List.getElem?_eq_getElem hi) (of_decide_eq_true hxi) hm hx]

theorem exists_toolUseIndex (h : CalledOnce ms x) : ∃ t, toolUseIndex ms x = some t := by
  have hx : x ∈ calls ms := List.count_pos_iff.mp (by rw [h]; exact Nat.one_pos)
  obtain ⟨m, hm, hxm⟩ := List.mem_flatMap.mp hx
  obtain ⟨i, hi⟩ := List.mem_iff_getElem?.mp hm
  exact ⟨i, toolUseIndex_eq_some.mpr ⟨h, m, hi, hxm⟩⟩

theorem misplacedTarget_eq_some {idx : ℕ} :
    misplacedTarget ms idx b = some t ↔
      ∃ x, b.resultId? = some x ∧ toolUseIndex ms x = some t ∧ idx ≠ t + 1 := by
  unfold misplacedTarget
  cases hb : b.resultId? with
  | none => simp
  | some x =>
    simp only [Option.bind_some, Option.some.injEq, exists_eq_left']
    cases toolUseIndex ms x with
    | none => simp
    | some s =>
      by_cases h : idx = s + 1
      · simp only [h, ne_eq, not_true_eq_false, if_false, reduceCtorEq, Option.some.injEq, false_iff]
        rintro ⟨rfl, hne⟩
        exact hne rfl
      · simp only [ne_eq, h, not_false_eq_true, if_true, Option.some.injEq]
        exact ⟨fun hst => ⟨hst, hst ▸ h⟩, fun hst => hst.1⟩

theorem mem_misplaced {i : ℕ} :
    (i, b, t) ∈ misplaced ms ↔
      ∃ m, ms[i]? = some m ∧ m.role = .user ∧ b ∈ m.blocks ∧ misplacedTarget ms i b = some t := by
  simp only [misplaced, List.mem_flatMap, Prod.exists, List.mem_zipIdx_iff_getElem?]
  constructor
  · rintro ⟨m, j, hm, h⟩
    split_ifs at h with hrole
    · obtain ⟨c, hc, h⟩ := List.mem_filterMap.mp h
      obtain ⟨s, hs, h⟩ := Option.map_eq_some_iff.mp h
      obtain ⟨rfl, rfl, rfl⟩ : j = i ∧ c = b ∧ s = t := by simpa using h
      exact ⟨m, hm, hrole, hc, hs⟩
    · simp at h
  · rintro ⟨m, hm, hrole, hb, ht⟩
    refine ⟨m, i, hm, ?_⟩
    rw [if_pos hrole]
    exact List.mem_filterMap.mpr ⟨b, hb, by simp [ht]⟩

end Lookup

/-! ## Removing the misplaced results -/

/-- Where the misplaced results are: the index and the id. -/
def misplacedSources (ms : List Message) : List (ℕ × Option String) :=
  (misplaced ms).map fun mv => (mv.1, mv.2.1.resultId?)

/-- The history without its misplaced results. -/
def stripMisplaced (ms : List Message) : List Message :=
  ms.zipIdx.map fun (m, idx) => removeMisplaced (misplacedSources ms) idx m

section Strip

variable {ms : List Message} {x : String} {i : ℕ} {m : Message}

theorem mem_misplacedSources (h : (i, some x) ∈ misplacedSources ms) :
    ∃ t, toolUseIndex ms x = some t ∧ i ≠ t + 1 := by
  obtain ⟨⟨j, b, t⟩, hmv, h⟩ := List.mem_map.mp h
  obtain ⟨rfl, hb⟩ : j = i ∧ b.resultId? = some x := by simpa using h
  obtain ⟨-, -, -, -, ht⟩ := mem_misplaced.mp hmv
  obtain ⟨y, hy, hty, hne⟩ := misplacedTarget_eq_some.mp ht
  obtain rfl : x = y := by simpa [hb] using hy
  exact ⟨t, hty, hne⟩

theorem mem_misplacedSources_of (hm : ms[i]? = some m) (hrole : m.role = .user)
    (hx : x ∈ toolResultIds m) {t : ℕ} (ht : toolUseIndex ms x = some t) (hne : i ≠ t + 1) :
    (i, some x) ∈ misplacedSources ms := by
  obtain ⟨b, hb, hbx⟩ := mem_toolResultIds.mp hx
  refine List.mem_map.mpr ⟨(i, b, t), mem_misplaced.mpr ⟨m, hm, hrole, hb, ?_⟩, by simp [hbx]⟩
  exact misplacedTarget_eq_some.mpr ⟨x, hbx, ht, hne⟩

theorem getElem?_stripMisplaced (ms : List Message) (i : ℕ) :
    (stripMisplaced ms)[i]? = ms[i]?.map (removeMisplaced (misplacedSources ms) i) := by
  rw [stripMisplaced, List.getElem?_map, List.getElem?_zipIdx]
  cases ms[i]? with
  | none => rfl
  | some m => simp

@[simp] theorem removeMisplaced_role (sources : List (ℕ × Option String)) (i : ℕ) (m : Message) :
    (removeMisplaced sources i m).role = m.role := by
  unfold removeMisplaced
  split_ifs <;> simp

@[simp] theorem toolUseIds_removeMisplaced (sources : List (ℕ × Option String)) (i : ℕ)
    (m : Message) : toolUseIds (removeMisplaced sources i m) = toolUseIds m := by
  unfold removeMisplaced
  split_ifs with hrole
  · unfold toolUseIds
    rw [filter_blocks, List.filterMap_filter]
    refine List.filterMap_congr fun b _ => ?_
    cases b <;> simp [ContentBlock.useId?, ContentBlock.resultId?]
  · rfl

@[simp] theorem idsNeeded_removeMisplaced (sources : List (ℕ × Option String)) (i : ℕ)
    (m : Message) : idsNeeded (removeMisplaced sources i m) = idsNeeded m :=
  idsNeeded_congr (removeMisplaced_role _ _ _) (toolUseIds_removeMisplaced _ _ _)

theorem mem_toolResultIds_removeMisplaced {sources : List (ℕ × Option String)} :
    x ∈ toolResultIds (removeMisplaced sources i m) ↔
      x ∈ toolResultIds m ∧ (m.role = .user → (i, some x) ∉ sources) := by
  unfold removeMisplaced
  split_ifs with hrole
  · simp only [mem_toolResultIds, filter_blocks, List.mem_filter, hrole, forall_const]
    constructor
    · rintro ⟨b, ⟨hb, hkeep⟩, hbx⟩
      exact ⟨⟨b, hb, hbx⟩, by simpa [hbx] using hkeep⟩
    · rintro ⟨⟨b, hb, hbx⟩, hnot⟩
      exact ⟨b, ⟨hb, by simpa [hbx] using hnot⟩, hbx⟩
  · simp [hrole]

theorem calls_stripMisplaced (ms : List Message) : calls (stripMisplaced ms) = calls ms := by
  unfold calls stripMisplaced
  rw [List.flatMap_map]
  simp only [idsNeeded_removeMisplaced]
  rw [← List.flatMap_map (f := Prod.fst) (g := idsNeeded), List.zipIdx_map_fst]

theorem paired_stripMisplaced (h : Paired ms) : Paired (stripMisplaced ms) := by
  intro i m' hi x hx
  rw [getElem?_stripMisplaced, Option.map_eq_some_iff] at hi
  obtain ⟨m, hm, rfl⟩ := hi
  rw [idsNeeded_removeMisplaced] at hx
  obtain ⟨n, hn, hrole, hxn⟩ := mem_adjacentResults.mp (h i m hm x hx)
  rw [getElem?_stripMisplaced, hn]
  refine mem_adjacentResults.mpr ⟨_, rfl, by simp [hrole], ?_⟩
  refine mem_toolResultIds_removeMisplaced.mpr ⟨hxn, fun _ hsrc => ?_⟩
  obtain ⟨t, ht, hne⟩ := mem_misplacedSources hsrc
  obtain ⟨hc, p, hp, hxp⟩ := toolUseIndex_eq_some.mp ht
  exact hne (by rw [index_unique hc.le hm hx hp hxp])

theorem follows_stripMisplaced (h : ResultsInUser ms) :
    Follows (CalledOnce ms) (stripMisplaced ms) := by
  intro i m' hi x hx hc
  rw [getElem?_stripMisplaced, Option.map_eq_some_iff] at hi
  obtain ⟨m, hm, rfl⟩ := hi
  obtain ⟨hxm, hsrc⟩ := mem_toolResultIds_removeMisplaced.mp hx
  have hrole : m.role = .user := h m (List.mem_of_getElem? hm) (List.ne_nil_of_mem hxm)
  obtain ⟨t, ht⟩ := exists_toolUseIndex hc
  obtain ⟨-, p, hp, hxp⟩ := toolUseIndex_eq_some.mp ht
  refine ⟨t, removeMisplaced (misplacedSources ms) t p, ?_, ?_, by simpa using hxp⟩
  · by_contra hne
    exact hsrc hrole (mem_misplacedSources_of hm hrole hxm ht hne)
  · rw [getElem?_stripMisplaced, hp, Option.map_some]

theorem stripMisplaced_of_nil (h : misplaced ms = []) : stripMisplaced ms = ms := by
  refine List.ext_getElem? fun i => ?_
  rw [getElem?_stripMisplaced]
  cases hm : ms[i]? with
  | none => rfl
  | some m =>
    simp only [Option.map_some, Option.some.injEq, removeMisplaced, misplacedSources, h,
      List.map_nil, List.not_mem_nil, decide_false, Bool.and_false, Bool.not_false]
    obtain ⟨role, content, pinned, timestamp⟩ := m
    cases content <;> simp [Message.mapBlocks]

end Strip

/-! ## Placing the results behind their calls -/

theorem getElem?_of_forall₂ {ms ms' : List Message} (h : List.Forall₂ Rewrite ms ms') {i : ℕ}
    {m : Message} (hm : ms[i]? = some m) : ∃ m', ms'[i]? = some m' ∧ Rewrite m m' := by
  induction h generalizing i with
  | nil => simp at hm
  | @cons a a' ms ms' ha _ ih =>
    cases i with
    | zero =>
      obtain rfl : a = m := by simpa using hm
      exact ⟨a', rfl, ha⟩
    | succ i => simpa using ih (by simpa using hm)

theorem forall₂_set {ms ms' : List Message} (h : List.Forall₂ Rewrite ms ms') {i : ℕ}
    {m' m'' : Message} (hm : ms'[i]? = some m') (hr : Rewrite m' m'') :
    List.Forall₂ Rewrite ms (ms'.set i m'') := by
  induction h generalizing i with
  | nil => simp at hm
  | @cons a a' ms ms' ha hrest ih =>
    cases i with
    | zero =>
      obtain rfl : a' = m' := by simpa using hm
      exact .cons (ha.trans hr) hrest
    | succ i => exact .cons ha (ih (by simpa using hm))

variable {U : String → Prop}

theorem follows_set {ms : List Message} {i : ℕ} {p n : Message}
    {bs : List ContentBlock} (h : Follows U ms) (hp : ms[i]? = some p) (hn : ms[i + 1]? = some n)
    (hu : bs.filterMap ContentBlock.useId? = [])
    (hb : ∀ x ∈ bs.filterMap ContentBlock.resultId?, x ∈ idsNeeded p) :
    Follows U (ms.set (i + 1) (n.extend bs)) := by
  have hlt : i + 1 < ms.length := (List.getElem?_eq_some_iff.mp hn).1
  -- a predecessor keeps its calls, whichever message it is
  have hkeep : ∀ (j : ℕ) (q : Message), ms[j]? = some q →
      ∃ q' : Message, (ms.set (i + 1) (n.extend bs))[j]? = some q' ∧ idsNeeded q' = idsNeeded q := by
    intro j q hq
    by_cases hj : i + 1 = j
    · subst hj
      obtain rfl : n = q := by simpa [hn] using hq
      exact ⟨n.extend bs, by rw [List.getElem?_set_self hlt],
        (rewrite_extend n hu).idsNeeded⟩
    · exact ⟨q, by rw [List.getElem?_set_ne hj, hq], rfl⟩
  intro k m hk x hx hU
  have hold : ∀ m₀ : Message, ms[k]? = some m₀ → x ∈ toolResultIds m₀ →
      ∃ (j : ℕ) (q : Message), k = j + 1 ∧ (ms.set (i + 1) (n.extend bs))[j]? = some q ∧ x ∈ idsNeeded q := by
    intro m₀ hm₀ hx₀
    obtain ⟨j, q, rfl, hq, hxq⟩ := h k m₀ hm₀ x hx₀ hU
    obtain ⟨q', hq', he⟩ := hkeep j q hq
    exact ⟨j, q', rfl, hq', he ▸ hxq⟩
  by_cases hki : i + 1 = k
  · subst hki
    rw [List.getElem?_set_self hlt] at hk
    obtain rfl := Option.some.inj hk
    rw [toolResultIds_extend, List.mem_append] at hx
    rcases hx with hx | hx
    · exact hold n hn hx
    · obtain ⟨q', hq', he⟩ := hkeep i p hp
      exact ⟨i, q', rfl, hq', he ▸ hb x hx⟩
  · rw [List.getElem?_set_ne hki] at hk
    exact hold m hk hx

/-- What the insertions keep of the messages after the removals. -/
structure Placed (U : String → Prop) (kept acc : List Message) : Prop where
  rewrite : List.Forall₂ Rewrite kept acc
  follows : Follows U acc

/-- **One insertion**, behind a message that calls every id it answers. -/
theorem placed_placeResults {kept acc : List Message} (h : Placed U kept acc)
    (hp : Paired kept) {pos : ℕ} {q : Message} (hq : kept[pos]? = some q) (hne : idsNeeded q ≠ [])
    {bs : List ContentBlock} (hu : bs.filterMap ContentBlock.useId? = [])
    (hb : ∀ x ∈ bs.filterMap ContentBlock.resultId?, x ∈ idsNeeded q) :
    Placed U kept (placeResults acc (pos + 1) bs) := by
  obtain ⟨x, hx⟩ := List.exists_mem_of_ne_nil _ hne
  obtain ⟨n, hn, hrole, -⟩ := mem_adjacentResults.mp (hp pos q hq x hx)
  obtain ⟨q', hq', hqq⟩ := getElem?_of_forall₂ h.rewrite hq
  obtain ⟨n', hn', hnn⟩ := getElem?_of_forall₂ h.rewrite hn
  have hrole' : n'.role = .user := hnn.role.trans hrole
  have heq : placeResults acc (pos + 1) bs = acc.set (pos + 1) (n'.extend bs) := by
    simp only [placeResults, hn', if_pos hrole']
  rw [heq]
  exact ⟨forall₂_set h.rewrite hn' (rewrite_extend n' hu),
    follows_set h.follows hq' hn' hu (by rwa [hqq.idsNeeded])⟩

/-- The results moved behind the assistant message `t`. -/
def movedTo (ms : List Message) (t : ℕ) : List ContentBlock :=
  ((misplaced ms).filter fun mv => mv.2.2 == t).map fun mv => mv.2.1

/-- One round of the insertion loop. -/
def placeAt (ms kept : List Message) (t : ℕ) (acc : List Message) : List Message :=
  match currentPosition (toolUseIndex ms) kept t with
  | some pos => placeResults acc (pos + 1) (movedTo ms t)
  | none => acc

section Place

variable {ms : List Message} {t : ℕ}

theorem mem_movedTo (h : b ∈ movedTo ms t) :
    ∃ x, b.resultId? = some x ∧ toolUseIndex ms x = some t := by
  obtain ⟨⟨i, c, s⟩, hf, rfl⟩ := List.mem_map.mp h
  obtain ⟨hmv, hs⟩ := List.mem_filter.mp hf
  obtain rfl : s = t := by simpa using hs
  obtain ⟨-, -, -, -, ht⟩ := mem_misplaced.mp hmv
  obtain ⟨x, hx, hxt, -⟩ := misplacedTarget_eq_some.mp ht
  exact ⟨x, hx, hxt⟩

theorem useId?_of_resultId? {x : String} (h : b.resultId? = some x) : b.useId? = none := by
  cases b <;> simp_all [ContentBlock.resultId?, ContentBlock.useId?]

theorem movedTo_uses : (movedTo ms t).filterMap ContentBlock.useId? = [] :=
  List.filterMap_eq_nil_iff.mpr fun _ hb =>
    let ⟨_, hx, _⟩ := mem_movedTo hb
    useId?_of_resultId? hx

theorem currentPosition_spec {keep : Message → Bool} {pos : ℕ}
    (h : currentPosition (toolUseIndex ms) ((stripMisplaced ms).filter keep) t = some pos) :
    ∃ q, ((stripMisplaced ms).filter keep)[pos]? = some q ∧ idsNeeded q ≠ [] ∧
      ∀ x, toolUseIndex ms x = some t → x ∈ idsNeeded q := by
  obtain ⟨⟨q, j⟩, hqj, h⟩ := List.mem_filterMap.mp (List.mem_of_getLast? h)
  rw [List.mem_zipIdx_iff_getElem?] at hqj
  simp only at h
  split_ifs at h with hany
  obtain rfl : j = pos := by simpa using h
  obtain ⟨y, hy, hyt⟩ := List.any_eq_true.mp hany
  have hyt : toolUseIndex ms y = some t := by simpa using hyt
  refine ⟨q, hqj, List.ne_nil_of_mem hy, fun x hx => ?_⟩
  -- the message stood at some index of the history, and that index is `t`
  have hq : q ∈ stripMisplaced ms := List.mem_of_mem_filter (List.mem_of_getElem? hqj)
  obtain ⟨k, hk⟩ := List.mem_iff_getElem?.mp hq
  rw [getElem?_stripMisplaced, Option.map_eq_some_iff] at hk
  obtain ⟨m, hm, rfl⟩ := hk
  rw [idsNeeded_removeMisplaced] at hy ⊢
  obtain ⟨hc, p, hp, hyp⟩ := toolUseIndex_eq_some.mp hyt
  obtain rfl : k = t := index_unique hc.le hm hy hp hyp
  obtain ⟨-, p', hp', hxp⟩ := toolUseIndex_eq_some.mp hx
  obtain rfl : m = p' := by simpa [hm] using hp'
  exact hxp

theorem placed_placeAt {keep : Message → Bool} {acc : List Message}
    (hp : Paired ((stripMisplaced ms).filter keep))
    (h : Placed U ((stripMisplaced ms).filter keep) acc) :
    Placed U ((stripMisplaced ms).filter keep)
      (placeAt ms ((stripMisplaced ms).filter keep) t acc) := by
  unfold placeAt
  cases hpos : currentPosition (toolUseIndex ms) ((stripMisplaced ms).filter keep) t with
  | none => exact h
  | some pos =>
    obtain ⟨q, hq, hne, hcalls⟩ := currentPosition_spec hpos
    refine placed_placeResults h hp hq hne movedTo_uses fun x hx => ?_
    obtain ⟨b, hb, hbx⟩ := List.mem_filterMap.mp hx
    obtain ⟨y, hy, hyt⟩ := mem_movedTo hb
    obtain rfl : x = y := by simpa [hbx] using hy
    exact hcalls x hyt

end Place

/-! ## The whole pass -/

/-- The messages after the removals. -/
def keptMessages (ms : List Message) : List Message := (stripMisplaced ms).filter Message.nonEmpty

theorem reorder_eq (ms : List Message) :
    (reorderToolResults ms).1 =
      if (misplaced ms).isEmpty then ms
      else ((List.range ms.length).filter fun t => decide (t ∈ (misplaced ms).map fun mv => mv.2.2)).foldr
        (placeAt ms (keptMessages ms)) (keptMessages ms) := by
  unfold reorderToolResults
  simp only
  split_ifs <;> rfl

section Pass

variable {ms : List Message}

theorem paired_keptMessages (h : Paired ms) : Paired (keptMessages ms) :=
  paired_filter _ (paired_stripMisplaced h)
    (fun _ _ hne => let ⟨_, hx⟩ := List.exists_mem_of_ne_nil _ hne; nonEmpty_of_idsNeeded hx)
    (fun _ _ _ hne => let ⟨_, hx⟩ := List.exists_mem_of_ne_nil _ hne; nonEmpty_of_toolResult hx)

theorem follows_keptMessages (h : ResultsInUser ms) : Follows (CalledOnce ms) (keptMessages ms) :=
  follows_filter _
    (fun _ _ hne => let ⟨_, hx⟩ := List.exists_mem_of_ne_nil _ hne; nonEmpty_of_idsNeeded hx)
    (follows_stripMisplaced h)

theorem calls_keptMessages (ms : List Message) : calls (keptMessages ms) = calls ms := by
  rw [keptMessages, calls_filter, calls_stripMisplaced]
  exact fun _ _ hne => let ⟨_, hx⟩ := List.exists_mem_of_ne_nil _ hne; nonEmpty_of_idsNeeded hx

theorem placed_foldr (h : Paired ms) (hf : Follows U (keptMessages ms))
    (targets : List ℕ) : Placed U (keptMessages ms)
      (targets.foldr (placeAt ms (keptMessages ms)) (keptMessages ms)) := by
  induction targets with
  | nil => exact ⟨List.forall₂_same.mpr fun m _ => Rewrite.refl m, hf⟩
  | cons t targets ih => exact placed_placeAt (paired_keptMessages h) ih

theorem rewrite_foldr (h : Paired ms) (targets : List ℕ) :
    List.Forall₂ Rewrite (keptMessages ms)
      (targets.foldr (placeAt ms (keptMessages ms)) (keptMessages ms)) :=
  (placed_foldr (U := fun _ => False) h (fun _ _ _ _ _ hU => hU.elim) targets).rewrite

/-- **Phase 2b keeps the pairs.** -/
theorem paired_reorder (h : Paired ms) : Paired (reorderToolResults ms).1 := by
  rw [reorder_eq]
  split_ifs
  · exact h
  · exact paired_of_forall₂ (rewrite_foldr h _) (paired_keptMessages h)

theorem calls_reorder (h : Paired ms) : calls (reorderToolResults ms).1 = calls ms := by
  rw [reorder_eq]
  split_ifs
  · rfl
  · rw [calls_of_forall₂ (rewrite_foldr h _), calls_keptMessages]

/-- **After phase 2b the results of an id called once stand behind the call.** -/
theorem follows_reorder (h : Paired ms) (hr : ResultsInUser ms) :
    Follows (CalledOnce (reorderToolResults ms).1) (reorderToolResults ms).1 := by
  have hc : CalledOnce (reorderToolResults ms).1 = CalledOnce ms := by
    unfold CalledOnce
    rw [calls_reorder h]
  rw [hc, reorder_eq]
  split_ifs with he
  · have := follows_stripMisplaced hr
    rwa [stripMisplaced_of_nil (List.isEmpty_iff.mp he)] at this
  · exact (placed_foldr h (follows_keptMessages hr) _).follows

end Pass

end LibreFang.Session
