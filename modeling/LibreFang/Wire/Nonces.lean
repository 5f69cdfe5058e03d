import LibreFang.Lib.Runs
import LibreFang.Wire.Peers

/-!
# The nonce tracker over time

* `NonceTracker.swept`, `NonceTracker.Admits`: the nonces a tracker has kept, and those it admits.
* **`checkAndRecord_ok_iff`**: a nonce is accepted exactly when the tracker admits it.
* `record`: one call; `keeps_recent`: what a call does not forget.
* **`accepts_once_in_window`**: no nonce is accepted twice within the window, and the tracker never
  holds more than its capacity.
-/

namespace LibreFang.Wire

open Runs

/-! ## The nonces a tracker admits -/

/-- The nonces left after the sweep of `check_and_record`, which runs on a tracker that is four
fifths full. -/
def NonceTracker.swept (t : NonceTracker) (now : ℕ) : List (String × ℕ) :=
  if t.seen.length ≥ t.maxEntries * 4 / 5 then
    t.seen.filter fun e => decide (now - e.2 < t.window)
  else t.seen

/-- There is room for the nonce, and it was not seen. -/
def NonceTracker.Admits (t : NonceTracker) (now : ℕ) (nonce : String) : Prop :=
  (t.swept now).length < t.maxEntries ∧ ∀ e ∈ t.swept now, e.1 ≠ nonce

section Admits

variable {t : NonceTracker} {now : ℕ} {nonce : String}

theorem sweep_eq (t : NonceTracker) (now : ℕ) :
    (if t.seen.length ≥ t.maxEntries * 4 / 5 then
      { t with seen := t.seen.filter fun e => decide (now - e.2 < t.window) } else t) =
      { t with seen := t.swept now } := by
  unfold NonceTracker.swept
  split_ifs <;> rfl

theorem checkAndRecord_of_admits (h : t.Admits now nonce) : t.checkAndRecord now nonce =
    (.ok (), { t with seen := t.swept now ++ [(nonce, now)] }) := by
  obtain ⟨hroom, hnew⟩ := h
  have hany : ¬ ((t.swept now).any fun e => e.1 == nonce) = true := by
    intro hany
    obtain ⟨e, he, hnonce⟩ := List.any_eq_true.mp hany
    exact hnew e he (beq_iff_eq.mp hnonce)
  unfold NonceTracker.checkAndRecord
  dsimp only
  rw [sweep_eq]
  dsimp only
  rw [if_neg (not_le.mpr hroom), if_neg hany]

theorem checkAndRecord_of_not_admits (h : ¬ t.Admits now nonce) :
    ∃ e, t.checkAndRecord now nonce = (.error e, { t with seen := t.swept now }) := by
  unfold NonceTracker.checkAndRecord
  dsimp only
  rw [sweep_eq]
  dsimp only
  split_ifs with hfull hany
  · exact ⟨_, rfl⟩
  · exact ⟨_, rfl⟩
  · refine absurd ⟨not_le.mp hfull, fun e he hnonce => hany ?_⟩ h
    exact List.any_eq_true.mpr ⟨e, he, beq_iff_eq.mpr hnonce⟩

/-- **A nonce is accepted exactly when the tracker admits it.** -/
theorem checkAndRecord_ok_iff : (t.checkAndRecord now nonce).1 = .ok () ↔ t.Admits now nonce := by
  by_cases h : t.Admits now nonce
  · rw [checkAndRecord_of_admits h]
    exact iff_of_true rfl h
  · obtain ⟨e, he⟩ := checkAndRecord_of_not_admits h
    rw [he]
    refine iff_of_false ?_ h
    intro herr
    cases herr

theorem length_swept_le : (t.swept now).length ≤ t.seen.length := by
  unfold NonceTracker.swept
  split_ifs
  · exact List.length_filter_le _ _
  · exact le_rfl

theorem mem_swept {e : String × ℕ} (h : e ∈ t.seen) (hpast : e.2 ≤ now)
    (hrecent : now < e.2 + t.window) : e ∈ t.swept now := by
  unfold NonceTracker.swept
  split_ifs
  · exact List.mem_filter.mpr ⟨h, decide_eq_true (by omega)⟩
  · exact h

end Admits

/-! ## Calls one after another -/

/-- A call of `check_and_record`: when, and with which nonce. -/
abbrev NonceCall := ℕ × String

/-- The tracker after a call. -/
def NonceTracker.record (t : NonceTracker) (c : NonceCall) : NonceTracker :=
  (t.checkAndRecord c.1 c.2).2

/-- The tracker accepts the nonce of the call. -/
def NonceTracker.Accepts (t : NonceTracker) (c : NonceCall) : Prop :=
  (t.checkAndRecord c.1 c.2).1 = .ok ()

/-- The tracker is within its capacity, and holds a nonce once. -/
structure NonceTracker.WithinCap (t : NonceTracker) : Prop where
  length_le : t.seen.length ≤ t.maxEntries
  nodup : (t.seen.map Prod.fst).Nodup

section Record

variable {t : NonceTracker} {c : NonceCall}

theorem record_of_admits (h : t.Admits c.1 c.2) :
    t.record c = { t with seen := t.swept c.1 ++ [(c.2, c.1)] } := by
  rw [NonceTracker.record, checkAndRecord_of_admits h]

theorem record_of_not_admits (h : ¬ t.Admits c.1 c.2) :
    t.record c = { t with seen := t.swept c.1 } := by
  obtain ⟨e, he⟩ := checkAndRecord_of_not_admits h
  rw [NonceTracker.record, he]

@[simp] theorem record_window : (t.record c).window = t.window := by
  by_cases h : t.Admits c.1 c.2
  · rw [record_of_admits h]
  · rw [record_of_not_admits h]

@[simp] theorem record_maxEntries : (t.record c).maxEntries = t.maxEntries := by
  by_cases h : t.Admits c.1 c.2
  · rw [record_of_admits h]
  · rw [record_of_not_admits h]

theorem mem_seen_record {e : String × ℕ} (h : e ∈ t.swept c.1) : e ∈ (t.record c).seen := by
  by_cases hadmits : t.Admits c.1 c.2
  · rw [record_of_admits hadmits]
    exact List.mem_append_left _ h
  · rw [record_of_not_admits hadmits]
    exact h

theorem nodup_swept (h : (t.seen.map Prod.fst).Nodup) (now : ℕ) :
    ((t.swept now).map Prod.fst).Nodup := by
  refine h.sublist (List.Sublist.map _ ?_)
  unfold NonceTracker.swept
  split_ifs
  · exact List.filter_sublist
  · exact List.Sublist.refl _

/-- **A call keeps the tracker within its capacity.** -/
theorem NonceTracker.WithinCap.record (h : t.WithinCap) (c : NonceCall) :
    (t.record c).WithinCap := by
  by_cases hadmits : t.Admits c.1 c.2
  · obtain ⟨hroom, hnew⟩ := hadmits
    rw [record_of_admits ⟨hroom, hnew⟩]
    constructor
    · rw [List.length_append]
      exact hroom
    · rw [List.map_append, List.map_singleton]
      have hone : [c.2].Nodup := List.nodup_cons.mpr ⟨List.not_mem_nil, List.nodup_nil⟩
      refine List.nodup_append.mpr ⟨nodup_swept h.nodup c.1, hone, ?_⟩
      intro nonce hseen last hlast
      obtain ⟨e, he, rfl⟩ := List.mem_map.mp hseen
      rw [List.mem_singleton.mp hlast]
      exact hnew e he
  · rw [record_of_not_admits hadmits]
    exact ⟨length_swept_le.trans h.length_le, nodup_swept h.nodup c.1⟩

/-! ### Runs -/

theorem mem_seen_after {e : String × ℕ} {cs : List NonceCall} (he : e ∈ t.seen)
    (hcs : ∀ c ∈ cs, e.2 ≤ c.1 ∧ c.1 < e.2 + t.window) :
    e ∈ (after NonceTracker.record t cs).seen := by
  induction cs generalizing t with
  | nil => exact he
  | cons c cs ih =>
    obtain ⟨hpast, hrecent⟩ := hcs c List.mem_cons_self
    refine ih (mem_seen_record (mem_swept he hpast hrecent)) fun d hd => ?_
    rw [record_window]
    exact hcs d (List.mem_cons_of_mem c hd)

theorem after_window (cs : List NonceCall) :
    (after NonceTracker.record t cs).window = t.window := by
  induction cs generalizing t with
  | nil => rfl
  | cons c cs ih => rw [after_cons, ih, record_window]

theorem after_maxEntries (cs : List NonceCall) :
    (after NonceTracker.record t cs).maxEntries = t.maxEntries := by
  induction cs generalizing t with
  | nil => rfl
  | cons c cs ih => rw [after_cons, ih, record_maxEntries]

theorem NonceTracker.WithinCap.after (h : t.WithinCap) (cs : List NonceCall) :
    (after NonceTracker.record t cs).WithinCap := by
  induction cs generalizing t with
  | nil => exact h
  | cons c cs ih => exact ih (h.record c)

theorem not_accepts_after {d : NonceCall} {cs : List NonceCall} (hc : t.Accepts c)
    (hnonce : d.2 = c.2) (hcs : ∀ b ∈ cs, c.1 ≤ b.1 ∧ b.1 < c.1 + t.window)
    (hd : c.1 ≤ d.1 ∧ d.1 < c.1 + t.window) :
    ¬ (after NonceTracker.record t (c :: cs)).Accepts d := by
  have hseen : (c.2, c.1) ∈ (t.record c).seen := by
    rw [record_of_admits (checkAndRecord_ok_iff.mp hc)]
    exact List.mem_append_right _ List.mem_cons_self
  have hkept : (c.2, c.1) ∈ (after NonceTracker.record t (c :: cs)).seen := by
    refine @mem_seen_after (t.record c) (c.2, c.1) cs hseen fun b hb => ?_
    rw [record_window]
    exact hcs b hb
  intro hagain
  refine (checkAndRecord_ok_iff.mp hagain).2 _ (mem_swept hkept hd.1 ?_) hnonce.symm
  rw [after_window]
  exact hd.2

/-- **No nonce is accepted twice within its window**, whatever is swept away or refused in between,
and a tracker never holds more nonces than its capacity. -/
theorem accepts_once_in_window {cs : List NonceCall} (hnew : t.seen = [])
    (htimes : cs.Pairwise fun c d => c.1 ≤ d.1) :
    (∀ before c between d rest, cs = before ++ c :: (between ++ d :: rest) → d.2 = c.2 →
      d.1 < c.1 + t.window → (after NonceTracker.record t before).Accepts c →
      ¬ (after NonceTracker.record t (before ++ c :: between)).Accepts d) ∧
    ∀ before rest, cs = before ++ rest →
      (after NonceTracker.record t before).seen.length ≤ t.maxEntries := by
  constructor
  · rintro before c between d rest rfl hnonce hwindow hc
    have hlater := (List.pairwise_append.mp htimes).2.1
    rw [after_append]
    obtain ⟨hfromc, hrest⟩ := List.pairwise_cons.mp hlater
    refine not_accepts_after hc hnonce (fun b hb => ?_) ?_
    · have hbd : b.1 ≤ d.1 := (List.pairwise_append.mp hrest).2.2 b hb d List.mem_cons_self
      rw [after_window]
      exact ⟨hfromc b (List.mem_append_left _ hb), hbd.trans_lt hwindow⟩
    · rw [after_window]
      exact ⟨hfromc d (List.mem_append_right _ List.mem_cons_self), hwindow⟩
  · rintro before rest rfl
    have hcap : t.WithinCap := by
      constructor
      · rw [hnew]
        exact Nat.zero_le _
      · rw [hnew]
        exact List.nodup_nil
    rw [← after_maxEntries (t := t) before]
    exact (hcap.after before).length_le

/-- A flood of three nonces and a replay at a tracker with room for two. -/
theorem accepts_once_in_window_flood :
    ¬ (after NonceTracker.record ⟨[], 300, 2⟩
      [(0, "a"), (10, "b"), (20, "c")]).Accepts (299, "a") := by
  have htimes : [(0, "a"), (10, "b"), (20, "c"), (299, "a")].Pairwise
      fun c d : NonceCall => c.1 ≤ d.1 := by decide
  refine (@accepts_once_in_window ⟨[], 300, 2⟩ _ rfl htimes).1 [] (0, "a")
    [(10, "b"), (20, "c")] (299, "a") [] rfl rfl (by decide) ?_
  exact checkAndRecord_ok_iff.mpr ⟨by decide, by decide⟩

end Record

end LibreFang.Wire
