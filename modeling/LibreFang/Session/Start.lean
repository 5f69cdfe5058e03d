import LibreFang.Session.Content
import LibreFang.Lib.Runs

/-!
# A history that starts with a user turn

`ensureStartsWithUser` drops what stands before the first user message and repairs the rest, again
and again. A repair can lengthen the history, and it can drop the user message just exposed.

* `others`: the messages that are not from the user.
* **`ensureStartsWithUser_breaks`**: the loop breaks on every history, within `others ms + 1`
  rounds, and what it leaves starts with a user message or holds none.
-/

namespace LibreFang.Session

/-- One round of the loop of `ensure_starts_with_user`; `none` when the loop breaks. -/
def startRound (ms : List Message) : Option (List Message) :=
  match ms.findIdx? fun m => m.role = .user with
  | none | some 0 => none
  | some i => some (validateAndRepair (ms.drop i))

/-- `ensure_starts_with_user`, with a bound on the rounds. -/
def ensureStartsWithUser (fuel : ℕ) (ms : List Message) : Option (List Message) :=
  Loops.run startRound fuel ms

/-! ## Counting the messages that are not from the user -/

/-- How many messages are not from the user. -/
def others (ms : List Message) : ℕ := ms.countP fun m => m.role ≠ .user

variable {ms : List Message}

/-- What a message of the role counts. -/
def Role.weight : Role → ℕ
  | .user => 0
  | .system | .assistant => 1

theorem Role.weight_of_ne {r : Role} (h : r ≠ .user) : r.weight = 1 := by
  cases r <;> first | rfl | exact absurd rfl h

@[simp] theorem others_nil : others [] = 0 := rfl

@[simp] theorem others_cons (m : Message) (ms : List Message) :
    others (m :: ms) = others ms + m.role.weight := by
  unfold others
  rw [List.countP_cons]
  cases h : m.role <;> simp [Role.weight]

@[simp] theorem others_append (ms ms' : List Message) :
    others (ms ++ ms') = others ms + others ms' := List.countP_append

theorem others_filter_le (keep : Message → Bool) (ms : List Message) :
    others (ms.filter keep) ≤ others ms := List.filter_sublist.countP_le

theorem others_forall₂ {ms' : List Message}
    (h : List.Forall₂ (fun m m' => m'.role = m.role) ms ms') : others ms' = others ms := by
  induction h with
  | nil => rfl
  | cons hm _ ih => rw [others_cons, others_cons, ih, hm]

theorem others_map {f : Message → Message} (h : ∀ m, (f m).role = m.role) (ms : List Message) :
    others (ms.map f) = others ms :=
  others_forall₂ (List.forall₂_map_right_iff.mpr (List.forall₂_same.mpr fun m _ => h m))

theorem others_placeResults (ms : List Message) (pos : ℕ) (bs : List ContentBlock) :
    others (placeResults ms pos bs) = others ms := by
  rcases placeResults_shape ms pos bs with ⟨l₁, m, l₂, rfl, -, -, h⟩ | ⟨l₁, l₂, rfl, h⟩
  · rw [h]
    simp
  · rw [h]
    simp [resultMessage, Role.weight]

theorem others_foldr_place {α : Type} (place : α → List Message → List Message) (l : List α)
    (h : ∀ a acc, others (place a acc) = others acc) : others (l.foldr place ms) = others ms := by
  induction l with
  | nil => rfl
  | cons a l ih => rw [List.foldr_cons, h, ih]

/-! ## No pass adds a message that is not from the user -/

theorem others_dropOrphans (ids : List String) (ms : List Message) :
    others (dropOrphans ids ms).1 ≤ others ms := by
  refine (others_filter_le _ _).trans_eq ?_
  exact others_map (fun m => mapBlocks_role m _) ms

theorem stripResults_role (m : Message) : (stripResults m).role = m.role := by
  unfold stripResults
  split_ifs
  · exact mapBlocks_role m _
  · rfl

theorem others_rescue (ms : List Message) :
    others (rescueMisplacedToolResults ms).1 ≤ others ms := by
  unfold rescueMisplacedToolResults
  simp only
  split_ifs
  · exact le_rfl
  · refine (others_filter_le _ _).trans_eq ?_
    rw [others_foldr_place _ _ fun r acc => others_placeResults acc _ _]
    exact others_map stripResults_role ms

theorem others_enforce (ms : List Message) :
    others (enforceAdjacentToolResultPairs ms).1 = others ms := by
  fun_induction enforceAdjacentToolResultPairs ms with
  | case1 => rfl
  | case2 m missing hmiss => rfl
  | case3 m missing hmiss => simp [resultMessage, Role.weight]
  | case4 m next rest missing hmiss r ih => rw [others_cons, others_cons m, ih]
  | case5 m next rest missing hmiss hrole r ih =>
    rw [others_cons, others_cons, others_cons m, others_cons next, extend_role, ih]
  | case6 m next rest missing hmiss hrole r ih =>
    rw [others_cons, others_cons, others_cons m, ih]
    rfl

theorem others_keptMessages (ms : List Message) : others (keptMessages ms) ≤ others ms := by
  refine (others_filter_le _ _).trans_eq ?_
  refine others_forall₂ (List.forall₂_iff_get.mpr ⟨by simp [stripMisplaced], fun i hi hi' => ?_⟩)
  simp [stripMisplaced]

theorem others_reorder (ms : List Message) : others (reorderToolResults ms).1 ≤ others ms := by
  rw [reorder_eq]
  split_ifs
  · exact le_rfl
  · rw [others_foldr_place]
    · exact others_keptMessages ms
    · intro t acc
      unfold placeAt
      split
      · exact others_placeResults _ _ _
      · rfl

theorem others_insertSynthetic (ms : List Message) :
    others (insertSyntheticResults ms).1 = others ms := by
  unfold insertSyntheticResults
  simp only
  split_ifs
  · rfl
  · exact others_foldr_place _ _ fun g acc => others_placeResults acc _ _

theorem others_dedupMessages (collision : String → Bool)
    (kept : String → Option ToolExecutionStatus) (seen : List String) (ms : List Message) :
    others (dedupMessages collision kept seen ms) = others ms := by
  induction ms generalizing seen with
  | nil => rfl
  | cons m ms ih => rw [dedupMessages, others_cons, others_cons, ih, mapBlocks_role]

theorem others_deduplicate (ms : List Message) :
    others (deduplicateToolResults ms).1 ≤ others ms := by
  rw [deduplicate_eq]
  exact (others_filter_le _ _).trans_eq (others_dedupMessages _ _ _ ms)

theorem others_mergeLoop (last : Message) (ms : List Message) :
    others (mergeLoop last ms).1 ≤ others (last :: ms) := by
  induction ms generalizing last with
  | nil => exact le_rfl
  | cons m ms ih =>
    simp only [mergeLoop]
    split_ifs with hm
    · refine (ih (mergeContent last m)).trans ?_
      simp only [mergeContent, others_cons, extend_role]
      omega
    · have := ih m
      simp only [others_cons] at this ⊢
      omega

theorem others_mergeConsecutive (ms : List Message) :
    others (mergeConsecutive ms).1 ≤ others ms := by
  cases ms with
  | nil => exact le_rfl
  | cons m ms => exact others_mergeLoop m ms

/-- **The repair adds user messages only.** -/
theorem others_validateAndRepair (ms : List Message) :
    others (validateAndRepair ms) ≤ others ms := by
  rw [validateAndRepair_eq, others_map fun m => mapBlocks_role m _]
  calc others (mergeConsecutive _).1
      ≤ others (removeAbortedAssistantMessages _) := others_mergeConsecutive _
    _ ≤ others (deduplicateToolResults _).1 := others_filter_le _ _
    _ ≤ others (insertSyntheticResults _).1 := others_deduplicate _
    _ = others (reorderToolResults _).1 := others_insertSynthetic _
    _ ≤ others (enforceAdjacentToolResultPairs _).1 := others_reorder _
    _ = others (rescueMisplacedToolResults _).1 := others_enforce _
    _ ≤ others (dropOrphans (collectToolUseIds ms) ms).1 := others_rescue _
    _ ≤ others ms := others_dropOrphans _ ms

/-! ## The loop -/

theorem others_drop_lt {i : ℕ} (h : ms.findIdx? (fun m => decide (m.role = .user)) = some (i + 1)) :
    others (ms.drop (i + 1)) < others ms := by
  cases ms with
  | nil => simp at h
  | cons m ms =>
    rw [List.findIdx?_cons] at h
    split_ifs at h with hm
    · simp at h
    · have hle : others (ms.drop i) ≤ others ms := (List.drop_sublist i ms).countP_le
      have hrole : m.role ≠ .user := by simpa using hm
      rw [List.drop_succ_cons, others_cons, Role.weight_of_ne hrole]
      omega

theorem others_startRound (ms ms' : List Message) (h : startRound ms = some ms') :
    others ms' < others ms := by
  unfold startRound at h
  split at h
  · simp at h
  · simp at h
  · rename_i i hi hfind
    obtain rfl := Option.some.inj h
    cases i with
    | zero => exact absurd rfl hi
    | succ i => exact (others_validateAndRepair _).trans_lt (others_drop_lt hfind)

/-- The history starts with a user message, unless it holds none. -/
def StartsWithUser (ms : List Message) : Prop :=
  (∃ m rest, ms = m :: rest ∧ m.role = .user) ∨ ∀ m ∈ ms, m.role ≠ .user

theorem startsWithUser_of_break (h : startRound ms = none) : StartsWithUser ms := by
  unfold startRound at h
  split at h
  · rename_i hfind
    exact Or.inr fun m hm => by simpa using List.findIdx?_eq_none_iff.mp hfind m hm
  · rename_i hfind
    cases ms with
    | nil => simp at hfind
    | cons m rest =>
      rw [List.findIdx?_cons] at hfind
      split_ifs at hfind with hm
      · exact Or.inl ⟨m, rest, rfl, by simpa using hm⟩
      · simp at hfind
  · simp at h

/-- **The loop breaks on every history**, and what it leaves starts with a user message or holds
none. -/
theorem ensureStartsWithUser_breaks (ms : List Message) :
    ∃ out, (∀ fuel, others ms < fuel → ensureStartsWithUser fuel ms = some out) ∧
      StartsWithUser out := by
  obtain ⟨out, hbreak, hrun⟩ := Loops.run_of_measure others others_startRound ms
  exact ⟨out, hrun, startsWithUser_of_break hbreak⟩

end LibreFang.Session
