import Mathlib.Order.Bounds.Basic
import LibreFang.Session.Pairing

/-!
# Where a history may be cut

`findSafeTrimPoint` looks for the message at which the kept part of a history starts: forward from
the least number of messages to trim, then backward.

* `Exchanges`: the strict contract between calls and results, both ways; **`Exchanges.append`**,
  **`Exchanges.take`**: whole exchanges, put together and cut.
* **`findSafeTrimPoint_keeps_exchanges`**: the kept part meets the contract and starts with a
  question of the user, and the cut is the first one a trim may use.
-/

namespace LibreFang.Session

variable {ms : List Message} {i : ℕ}

/-- `is_safe_boundary`. The scans ask for indices of the history only. -/
def isSafeBoundary (ms : List Message) (i : ℕ) : Bool :=
  match ms[i]? with
  | none => false
  | some msg =>
    if msg.role ≠ .user || messageIsOnlyToolResults msg then false
    else if 0 < i then
      match ms[i - 1]? with
      | none => true
      | some prev => !(prev.role == .assistant && messageHasToolUse prev)
    else true

/-- The end of the forward scan: at least two messages stay. -/
def trimUpper (ms : List Message) : ℕ := if 2 < ms.length then ms.length - 1 else ms.length

/-- `find_safe_trim_point`. -/
def findSafeTrimPoint (ms : List Message) (minTrim : ℕ) : Option ℕ :=
  if ms.length ≤ minTrim then none
  else
    match (List.range' minTrim (trimUpper ms - minTrim)).find? (isSafeBoundary ms) with
    | some i => some i
    | none => (List.range minTrim).reverse.find? (isSafeBoundary ms)

/-- The strict contract: every call of an assistant message is answered by the user message right
after it, and every result stands right behind the assistant message with its call. -/
structure Exchanges (ms : List Message) : Prop where
  answered : Paired ms
  preceded : Follows (fun _ => True) ms

/-! ## Whole exchanges -/

section

variable {a b : List Message}

/-- **Whole exchanges, put together.** -/
theorem Exchanges.append (ha : Exchanges a) (hb : Exchanges b) : Exchanges (a ++ b) := by
  constructor
  · intro k m hk x hx
    by_cases hlt : k < a.length
    · rw [List.getElem?_append_left hlt] at hk
      have hanswer := ha.answered k m hk x hx
      -- the answer is in the first part, so the last message of that part needs none
      have hnext : k + 1 < a.length := by
        by_contra hge
        rw [List.getElem?_eq_none (by omega)] at hanswer
        simp [adjacentResults] at hanswer
      rwa [List.getElem?_append_left hnext]
    · rw [List.getElem?_append_right (by omega)] at hk ⊢
      have hanswer := hb.answered (k - a.length) m hk x hx
      rwa [show k + 1 - a.length = k - a.length + 1 by omega]
  · intro k m hk x hx _
    by_cases hlt : k < a.length
    · rw [List.getElem?_append_left hlt] at hk
      obtain ⟨j, p, rfl, hp, hxp⟩ := ha.preceded k m hk x hx trivial
      exact ⟨j, p, rfl, by rwa [List.getElem?_append_left (by omega)], hxp⟩
    · rw [List.getElem?_append_right (by omega)] at hk
      obtain ⟨j, p, hj, hp, hxp⟩ := hb.preceded (k - a.length) m hk x hx trivial
      refine ⟨a.length + j, p, by omega, ?_, hxp⟩
      rwa [List.getElem?_append_right (by omega), Nat.add_sub_cancel_left]

variable {m : Message}

theorem exchanges_singleton (huses : toolUseIds m = [])
    (hresults : toolResultIds m = []) : Exchanges [m] := by
  have hself {k : ℕ} {n : Message} (hk : [m][k]? = some n) : n = m :=
    List.mem_singleton.mp (List.mem_of_getElem? hk)
  constructor
  · intro k n hk x hx
    rw [hself hk, mem_idsNeeded, huses] at hx
    exact absurd hx.2 List.not_mem_nil
  · intro k n hk x hx _
    rw [hself hk, hresults] at hx
    exact absurd hx List.not_mem_nil

theorem exchanges_nil : Exchanges [] where
  answered := paired_nil
  preceded := fun _ _ h => by cases h

theorem exchanges_of_no_tools (h : ∀ m ∈ ms, toolUseIds m = [] ∧ toolResultIds m = []) :
    Exchanges ms := by
  induction ms with
  | nil => exact exchanges_nil
  | cons m ms ih =>
    obtain ⟨⟨huses, hresults⟩, hms⟩ := List.forall_mem_cons.mp h
    exact (exchanges_singleton huses hresults).append (ih hms)

/-- **Whole exchanges, cut behind a message that needs no answer.** -/
theorem Exchanges.take (h : Exchanges ms)
    (hclosed : ∀ j m, i = j + 1 → ms[j]? = some m → idsNeeded m = []) : Exchanges (ms.take i) := by
  constructor
  · intro k m hk x hx
    rw [List.getElem?_take, Option.ite_none_right_eq_some] at hk
    obtain ⟨hki, hk⟩ := hk
    have hlast : k + 1 < i := by
      by_contra hge
      rw [hclosed k m (by omega) hk] at hx
      exact List.not_mem_nil hx
    rw [List.getElem?_take_of_lt hlast]
    exact h.answered k m hk x hx
  · intro k m hk x hx _
    rw [List.getElem?_take, Option.ite_none_right_eq_some] at hk
    obtain ⟨hki, hk⟩ := hk
    obtain ⟨j, p, rfl, hp, hxp⟩ := h.preceded k m hk x hx trivial
    exact ⟨j, p, rfl, by rwa [List.getElem?_take_of_lt (by omega)], hxp⟩

theorem Exchanges.drop_of_no_results (h : Exchanges ms)
    (hopen : ∀ m, ms[i]? = some m → toolResultIds m = []) : Exchanges (ms.drop i) := by
  constructor
  · intro k m hk x hx
    rw [List.getElem?_drop] at hk ⊢
    exact h.answered (i + k) m hk x hx
  · intro k m hk x hx _
    rw [List.getElem?_drop] at hk
    cases k with
    | zero =>
      rw [hopen m hk] at hx
      exact absurd hx List.not_mem_nil
    | succ k =>
      obtain ⟨j, p, hj, hp, hxp⟩ := h.preceded (i + (k + 1)) m hk x hx trivial
      obtain rfl : j = i + k := by omega
      exact ⟨k, p, rfl, by rwa [List.getElem?_drop], hxp⟩

theorem Exchanges.isUser_of_result (h : Exchanges ms) (hm : ms[i]? = some m)
    {x : String} (hx : x ∈ toolResultIds m) : m.role = .user := by
  obtain ⟨j, p, rfl, hp, hxp⟩ := h.preceded i m hm x hx trivial
  obtain ⟨n, hn, hrole, -⟩ := mem_adjacentResults.mp (h.answered j p hp x hxp)
  rwa [Option.some.inj (hm.symm.trans hn)]

end

/-! ## A safe boundary -/

theorem messageHasToolUse_iff : messageHasToolUse m = true ↔ toolUseIds m ≠ [] := by
  rw [messageHasToolUse, List.any_eq_true, toolUseIds, ne_eq, List.filterMap_eq_nil_iff]
  push Not
  simp only [Option.isSome_iff_ne_none, ne_eq]

theorem closes_exchange_iff :
    (!(m.role == .assistant && messageHasToolUse m)) = true ↔ idsNeeded m = [] := by
  rw [Bool.not_eq_true', Bool.and_eq_false_iff, beq_eq_false_iff_ne, ← Bool.not_eq_true,
    messageHasToolUse_iff, not_not]
  unfold idsNeeded
  by_cases h : m.role = .assistant <;> simp [h]

theorem isSafeBoundary_iff :
    isSafeBoundary ms i = true ↔
      ∃ m, ms[i]? = some m ∧ m.role = .user ∧ messageIsOnlyToolResults m = false ∧
        ∀ j p, i = j + 1 → ms[j]? = some p → idsNeeded p = [] := by
  unfold isSafeBoundary
  cases hm : ms[i]? with
  | none => simp
  | some m =>
    simp only
    by_cases hfresh : m.role = .user ∧ messageIsOnlyToolResults m = false
    · rw [if_neg (by simp [hfresh])]
      cases i with
      | zero => simp [hfresh]
      | succ j =>
        have hlt : j < ms.length := Nat.lt_of_succ_lt (List.getElem?_eq_some_iff.mp hm).1
        rw [if_pos (Nat.succ_pos j), Nat.add_sub_cancel, List.getElem?_eq_getElem hlt]
        simp only
        rw [closes_exchange_iff]
        constructor
        · intro h
          refine ⟨m, rfl, hfresh.1, hfresh.2, ?_⟩
          rintro k p hk hp
          obtain rfl : j = k := by omega
          rw [List.getElem?_eq_getElem hlt] at hp
          exact Option.some.inj hp ▸ h
        · rintro ⟨-, -, -, -, h⟩
          exact h j _ rfl (List.getElem?_eq_getElem hlt)
    · rw [if_pos (by simpa [imp_iff_not_or] using hfresh)]
      refine iff_of_false Bool.false_ne_true ?_
      rintro ⟨m', hm', hrole, honly, -⟩
      obtain rfl := Option.some.inj hm'
      exact hfresh ⟨hrole, honly⟩

theorem Exchanges.drop (h : Exchanges ms) (hs : isSafeBoundary ms i = true) :
    Exchanges (ms.drop i) := by
  obtain ⟨m₀, -, -, -, hprev⟩ := isSafeBoundary_iff.mp hs
  refine h.drop_of_no_results fun m hm => ?_
  by_contra hne
  obtain ⟨x, hx⟩ := List.exists_mem_of_ne_nil _ hne
  obtain ⟨j, p, hj, hp, hxp⟩ := h.preceded i m hm x hx trivial
  rw [hprev j p hj hp] at hxp
  exact List.not_mem_nil hxp

section Scans

variable {p : ℕ → Bool} {a n j : ℕ}

theorem find?_range'_isLeast (h : (List.range' a n).find? p = some j) :
    IsLeast {k | a ≤ k ∧ p k = true} j := by
  obtain ⟨hp, hmem, hlt⟩ := List.find?_range'_eq_some.mp h
  refine ⟨⟨(List.mem_range'_1.mp hmem).1, hp⟩, fun k hk => ?_⟩
  by_contra hkj
  have hfalse := hlt k hk.1 (not_le.mp hkj)
  rw [hk.2] at hfalse
  exact Bool.false_ne_true hfalse

theorem find?_reverse_range_isGreatest (h : (List.range n).reverse.find? p = some j) :
    IsGreatest {k | k < n ∧ p k = true} j := by
  induction n with
  | zero => simp at h
  | succ n ih =>
    rw [List.range_succ, List.reverse_append, List.reverse_singleton, List.singleton_append,
      List.find?_cons] at h
    cases hp : p n with
    | true =>
      obtain rfl : n = j := by simpa [hp] using h
      exact ⟨⟨Nat.lt_succ_self n, hp⟩, fun k hk => Nat.le_of_lt_succ hk.1⟩
    | false =>
      obtain ⟨⟨hj, hpj⟩, hle⟩ := ih (by simpa [hp] using h)
      refine ⟨⟨Nat.lt_succ_of_lt hj, hpj⟩, fun k hk => ?_⟩
      have hne : k ≠ n := fun hkn => by simp [← hkn, hk.2] at hp
      exact hle ⟨by have := hk.1; omega, hk.2⟩

end Scans

/-! ## The cut -/

theorem findSafeTrimPoint_eq_some {minTrim : ℕ} (h : findSafeTrimPoint ms minTrim = some i) :
    (i < trimUpper ms ∧ IsLeast {k | minTrim ≤ k ∧ isSafeBoundary ms k = true} i) ∨
      (∀ k, minTrim ≤ k → k < trimUpper ms → isSafeBoundary ms k = false) ∧
        IsGreatest {k | k < minTrim ∧ isSafeBoundary ms k = true} i := by
  unfold findSafeTrimPoint at h
  split_ifs at h with hlen
  split at h
  · rename_i j hforward
    obtain rfl := Option.some.inj h
    have hmem := List.mem_range'_1.mp (List.find?_range'_eq_some.mp hforward).2.1
    exact Or.inl ⟨by omega, find?_range'_isLeast hforward⟩
  · rename_i hforward
    refine Or.inr ⟨fun k hk hku => ?_, find?_reverse_range_isGreatest h⟩
    simpa using List.find?_range'_eq_none.mp hforward k hk (by omega)

theorem safe_of_findSafeTrimPoint {minTrim : ℕ} (h : findSafeTrimPoint ms minTrim = some i) :
    isSafeBoundary ms i = true := by
  rcases findSafeTrimPoint_eq_some h with ⟨-, hleast⟩ | ⟨-, hgreatest⟩
  · exact hleast.1.2
  · exact hgreatest.1.2

/-- **Trimming never splits an exchange**: the kept part meets the strict contract and starts with
a question of the user; a trim of `minTrim` messages or more keeps two of a history of more than
two; and the cut is the first safe index from `minTrim` on if one lies below the upper bound,
otherwise the last one before `minTrim`. -/
theorem findSafeTrimPoint_keeps_exchanges (h : Exchanges ms) {minTrim : ℕ}
    (hi : findSafeTrimPoint ms minTrim = some i) :
    Exchanges (ms.drop i) ∧
    (∃ m rest, ms.drop i = m :: rest ∧ m.role = .user ∧ messageIsOnlyToolResults m = false) ∧
    (2 < ms.length → minTrim ≤ i → 2 ≤ (ms.drop i).length) ∧
    ((∃ k, minTrim ≤ k ∧ k < trimUpper ms ∧ isSafeBoundary ms k = true) →
      IsLeast {k | minTrim ≤ k ∧ isSafeBoundary ms k = true} i) ∧
    ((¬∃ k, minTrim ≤ k ∧ k < trimUpper ms ∧ isSafeBoundary ms k = true) →
      IsGreatest {k | k < minTrim ∧ isSafeBoundary ms k = true} i) := by
  have hsafe := safe_of_findSafeTrimPoint hi
  refine ⟨h.drop hsafe, ?_, ?_, ?_, ?_⟩
  · obtain ⟨m, hm, hrole, honly, -⟩ := isSafeBoundary_iff.mp hsafe
    obtain ⟨hlt, rfl⟩ := List.getElem?_eq_some_iff.mp hm
    exact ⟨ms[i], ms.drop (i + 1), List.drop_eq_getElem_cons hlt, hrole, honly⟩
  · intro hlen hmin
    rcases findSafeTrimPoint_eq_some hi with ⟨hupper, -⟩ | ⟨-, hgreatest⟩
    · rw [trimUpper, if_pos hlen] at hupper
      rw [List.length_drop]
      omega
    · exact absurd hgreatest.1.1 (not_lt.mpr hmin)
  · rintro ⟨k, hk, hku, hks⟩
    rcases findSafeTrimPoint_eq_some hi with ⟨-, hleast⟩ | ⟨hnone, -⟩
    · exact hleast
    · simp [hnone k hk hku] at hks
  · intro hnone
    rcases findSafeTrimPoint_eq_some hi with ⟨hupper, hleast⟩ | ⟨-, hgreatest⟩
    · exact absurd ⟨i, hleast.1.1, hupper, hleast.1.2⟩ hnone
    · exact hgreatest

/-- A question, a call with its result, an answer, and a second question. -/
def toolHistory : List Message :=
  [⟨.user, .text "q1", false, none⟩,
    ⟨.assistant, .blocks [.toolUse "call_1" "read" ⟨"\x7b\x7d"⟩ none], false, none⟩,
    ⟨.user, .blocks [.toolResult "call_1" "read" "ok" false .completed none], false, none⟩,
    ⟨.assistant, .text "a1", false, none⟩, ⟨.user, .text "q2", false, none⟩,
    ⟨.assistant, .text "a2", false, none⟩]

theorem exchanges_toolHistory : Exchanges toolHistory where
  answered := by
    simp [toolHistory, paired_cons, paired_nil, idsNeeded, toolUseIds, Message.blocks,
      adjacentResults, toolResultIds, ContentBlock.useId?, ContentBlock.resultId?]
  preceded := by
    rw [follows_iff_from]
    simp [toolHistory, FollowsFrom, idsNeeded, toolUseIds, Message.blocks, toolResultIds,
      ContentBlock.useId?, ContentBlock.resultId?]

theorem findSafeTrimPoint_keeps_exchanges_toolHistory :
    Exchanges (toolHistory.drop 4) ∧ 2 ≤ (toolHistory.drop 4).length ∧
      IsLeast {k | 2 ≤ k ∧ isSafeBoundary toolHistory k = true} 4 :=
  have h := @findSafeTrimPoint_keeps_exchanges _ _ exchanges_toolHistory 2
    (show findSafeTrimPoint toolHistory 2 = some 4 by decide)
  ⟨h.1, h.2.2.1 (by decide) (by decide), h.2.2.2.1 ⟨4, by decide⟩⟩

end LibreFang.Session
