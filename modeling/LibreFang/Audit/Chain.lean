import LibreFang.Audit.Log

/-!
# Verification and the calls on the log

* **`readAnchor_formatAnchorLine`**: the anchor file reads back.
* `dropCount`: how many entries a call drops by retention.
* **`step_cases`**: a call changes nothing, appends one entry, or drops a prefix.
-/

namespace LibreFang.Audit

open Text

variable {P : Platform}

/-! ## Verification -/

variable {es : List AuditEntry}

theorem verifyChain_eq_ok {a t : String} :
    verifyChain P a es = .ok t ↔ IsChain P a es ∧ t = chainTip a es := by
  induction es generalizing a with
  | nil => simp [verifyChain, IsChain, chainTip, eq_comm]
  | cons e es ih =>
    rw [verifyChain]
    split_ifs with hprev hhash
    · simp only [false_iff]
      exact fun h => hprev h.1.1
    · simp only [false_iff]
      exact fun h => hhash h.1.2.1
    · rw [not_not] at hprev hhash
      rw [ih]
      constructor
      · exact fun h => ⟨⟨hprev, hhash, h.1⟩, h.2⟩
      · exact fun h => ⟨h.1.2.2, h.2⟩

theorem verifyAnchor_eq_ok {a : Anchor} {n : ℕ} {t : String} :
    verifyAnchor P a n t = .ok () ↔ readAnchor P a.file = .ok (some ⟨n, t⟩) := by
  unfold verifyAnchor
  split
  · rename_i r hr
    rw [hr]
    split_ifs with h
    · simp only [false_iff, Except.ok.injEq, Option.some.injEq]
      rintro rfl
      simp at h
    · obtain ⟨h₁, h₂⟩ := not_or.mp h
      rw [not_not] at h₁ h₂
      subst h₁ h₂
      simp
  · rename_i hr
    simp [hr]
  · rename_i e hr
    simp [hr]

/-- **What verification checks**: the chain from its anchor, and the anchor file. -/
theorem verifyIntegrity_eq_ok {log : AuditLog} :
    verifyIntegrity P log = .ok () ↔
      IsChain P (log.chainAnchor.getD genesis) log.entries ∧
        ∀ a ∈ log.anchor, readAnchor P a.file =
          .ok (some ⟨asU64 log.entries.length,
            chainTip (log.chainAnchor.getD genesis) log.entries⟩) := by
  unfold verifyIntegrity
  cases hc : verifyChain P (log.chainAnchor.getD genesis) log.entries with
  | error e =>
    simp only [reduceCtorEq, false_iff]
    rintro ⟨h, -⟩
    rw [verifyChain_eq_ok.mpr ⟨h, rfl⟩] at hc
    cases hc
  | ok t =>
    obtain ⟨h, rfl⟩ := verifyChain_eq_ok.mp hc
    cases log.anchor with
    | none => simp [h]
    | some a => simp [h, verifyAnchor_eq_ok]

/-! ## The anchor file reads back -/

theorem asU64_lt (n : ℕ) : asU64 n < 2 ^ 64 := Nat.mod_lt _ (Nat.two_pow_pos 64)

/-- **The anchor line reads back.** -/
theorem readAnchor_formatAnchorLine {n : ℕ} {hash : String} (hn : n < 2 ^ 64) (hh : IsDigest hash) :
    readAnchor P (.body (formatAnchorLine n hash)) = .ok (some ⟨n, hash⟩) := by
  have hdigit : ∀ c ∈ Nat.toDigits 10 n, isWhitespace c = false := fun c hc =>
    not_isWhitespace_of_isDigit (isDigit_of_mem_toDigits hc)
  have hline : (formatAnchorLine n hash).toList =
      (Nat.toDigits 10 n ++ ' ' :: hash.toList) ++ ['\n'] := by
    simp [formatAnchorLine, String.toList_append, Nat.repr]
  have hne : hash.toList ≠ [] := by
    intro he
    have := hh.length
    rw [utf8, he] at this
    simp at this
  have hnl : ∀ c ∈ Nat.toDigits 10 n ++ ' ' :: hash.toList, c ≠ '\n' := by
    intro c hc hnl
    subst hnl
    rcases List.mem_append.mp hc with hc | hc
    · exact absurd (hdigit _ hc) (by decide)
    · rcases List.mem_cons.mp hc with hc | hc
      · exact absurd hc (by decide)
      · exact absurd (hh.noBlank _ hc) (by decide)
  have hlast : (Nat.toDigits 10 n ++ ' ' :: hash.toList).getLast? = hash.toList.getLast? := by
    rw [List.getLast?_append_cons, List.getLast?_cons_of_ne_nil hne]
  have hfirst : firstLine (formatAnchorLine n hash).toList =
      Nat.toDigits 10 n ++ ' ' :: hash.toList := by
    unfold firstLine
    rw [hline, List.takeWhile_append_of_pos (by simpa using hnl)]
    simp only [List.takeWhile_cons, bne_self_eq_false, Bool.false_eq_true, if_false,
      List.append_nil]
    rw [if_neg]
    rintro ⟨-, hr⟩
    rw [hlast] at hr
    exact absurd (hh.noBlank _ (List.mem_of_getLast? hr)) (by decide)
  have htrim : Text.trim (Nat.toDigits 10 n ++ ' ' :: hash.toList) =
      Nat.toDigits 10 n ++ ' ' :: hash.toList := by
    refine trim_eq_self (fun c hc => ?_) (fun c hc => ?_)
    · rw [List.head?_append_of_ne_nil _ Nat.toDigits_ne_nil] at hc
      exact hdigit c (List.mem_of_mem_head? hc)
    · rw [hlast] at hc
      exact hh.noBlank c (List.mem_of_getLast? hc)
  simp only [readAnchor]
  rw [hfirst, htrim, if_neg (by simp), splitWhitespaceOnce_append hdigit (by decide)]
  simp only [parseU64_toDigits hn, trim_of_not_isWhitespace hh.noBlank, String.ofList_toList]
  rw [if_neg]
  rw [not_or, not_not]
  refine ⟨hh.length, ?_⟩
  simpa using hh.hex

/-! ## What a call can do -/

section Fields

variable (log : AuditLog) (ok : Bool) (k : ℕ) (io : Io)

@[simp] theorem writeAnchor_entries : (log.writeAnchor ok).entries = log.entries := rfl

@[simp] theorem writeAnchor_db : (log.writeAnchor ok).db = log.db := rfl

@[simp] theorem writeAnchor_chainAnchor :
    (log.writeAnchor ok).chainAnchor = log.chainAnchor := rfl

@[simp] theorem dropPrefix_entries : (log.dropPrefix k io).entries = log.entries.drop k := rfl

@[simp] theorem dropPrefix_chainAnchor :
    (log.dropPrefix k io).chainAnchor = log.entries[k - 1]?.map AuditEntry.hash := rfl

@[simp] theorem capDrain_db : log.capDrain.db = log.db := by
  unfold AuditLog.capDrain
  split_ifs <;> rfl

end Fields

/-- The log with a persisted entry pushed. -/
def AuditLog.pushed (log : AuditLog) (db : Option Table) (e : AuditEntry) : AuditLog :=
  { log with db := db, entries := log.entries ++ [e], tip := e.hash }

theorem recordWithContext_of_none {ev : Event} {now : ℤ} {io : Io} {log : AuditLog}
    (h : persist P io.dbOk (log.newEntry P ev now) log.db = none) :
    (recordWithContext P ev now io log).2 = log := by
  simp only [recordWithContext, h]

theorem recordWithContext_of_some {ev : Event} {now : ℤ} {io : Io} {log : AuditLog}
    {db : Option Table} (h : persist P io.dbOk (log.newEntry P ev now) log.db = some db) :
    (recordWithContext P ev now io log).2 =
      (log.pushed db (log.newEntry P ev now)).capDrain.writeAnchor io.anchorOk := by
  simp only [recordWithContext, h]
  rfl

theorem trimScan_le {policy : AuditRetentionConfig} {now : ℤ} {k : ℕ}
    (h : trimScan P policy now es = some k) : k ≤ es.length := by
  induction es generalizing k with
  | nil =>
    obtain rfl : 0 = k := by simpa [trimScan] using h
    exact Nat.zero_le _
  | cons e es ih =>
    rw [trimScan] at h
    split at h
    · obtain rfl := Option.some.inj h
      exact Nat.zero_le _
    · obtain rfl := Option.some.inj h
      exact Nat.zero_le _
    · split at h
      · cases h
      · split at h
        · obtain rfl := Option.some.inj h
          exact Nat.zero_le _
        · split_ifs at h
          · obtain ⟨j, hj, rfl⟩ := Option.map_eq_some_iff.mp h
            exact Nat.succ_le_succ (ih hj)
          · obtain rfl := Option.some.inj h
            exact Nat.zero_le _

theorem trimCount_le {policy : AuditRetentionConfig} {now : ℤ} {k : ℕ}
    (h : trimCount P policy now es = some k) : k ≤ es.length := by
  simp only [trimCount] at h
  obtain ⟨j, hj, rfl⟩ := Option.map_eq_some_iff.mp h
  have := trimScan_le hj
  rw [List.length_drop] at this
  split_ifs at this ⊢ <;> omega

theorem pruneCount_le (cutoff : String) (es : List AuditEntry) :
    pruneCount cutoff es ≤ es.length := (List.takeWhile_sublist _).length_le

/-- The number of entries a call drops by retention. -/
def dropCount (P : Platform) (log : AuditLog) : Op → ℕ
  | .record _ _ _ => 0
  | .trim policy now _ => (trimCount P policy now log.entries).getD 0
  | .prune days now _ =>
    if days = 0 then 0
    else match subDays P now days with
      | none => 0
      | some cutoff => pruneCount (P.toRfc3339 cutoff) log.entries

theorem dropCount_le (log : AuditLog) (op : Op) : dropCount P log op ≤ log.entries.length := by
  cases op with
  | record ev now io => exact Nat.zero_le _
  | trim policy now io =>
    simp only [dropCount]
    cases h : trimCount P policy now log.entries with
    | none => exact Nat.zero_le _
    | some k => exact trimCount_le h
  | prune days now io =>
    simp only [dropCount]
    split_ifs
    · exact Nat.zero_le _
    · split
      · exact Nat.zero_le _
      · exact pruneCount_le _ _

/-- **What a call can do**: nothing, append one entry, or drop a prefix. -/
theorem step_cases (P : Platform) (log : AuditLog) (op : Op) :
    (step P log op = log ∧ recorded P log op = none ∧ dropCount P log op = 0) ∨
    (∃ ev now io db, op = .record ev now io ∧
      persist P io.dbOk (log.newEntry P ev now) log.db = some db ∧
      recorded P log op = some (log.newEntry P ev now) ∧
      step P log op = (log.pushed db (log.newEntry P ev now)).capDrain.writeAnchor io.anchorOk) ∨
    (recorded P log op = none ∧ 0 < dropCount P log op ∧
      step P log op = log.dropPrefix (dropCount P log op) op.io) := by
  cases op with
  | record ev now io =>
    cases h : persist P io.dbOk (log.newEntry P ev now) log.db with
    | none =>
      exact Or.inl ⟨recordWithContext_of_none h, by rw [recorded, h]; rfl, rfl⟩
    | some db =>
      exact Or.inr (Or.inl ⟨ev, now, io, db, rfl, h, by rw [recorded, h]; rfl,
        recordWithContext_of_some h⟩)
  | trim policy now io =>
    simp only [step, Audit.trim, dropCount]
    cases h : trimCount P policy now log.entries with
    | none => exact Or.inl ⟨rfl, rfl, rfl⟩
    | some k =>
      cases k with
      | zero => exact Or.inl ⟨rfl, rfl, rfl⟩
      | succ k => exact Or.inr (Or.inr ⟨rfl, Nat.succ_pos k, rfl⟩)
  | prune days now io =>
    simp only [step, prune, dropCount]
    split_ifs with hdays
    · exact Or.inl ⟨rfl, rfl, rfl⟩
    · cases subDays P now days with
      | none => exact Or.inl ⟨rfl, rfl, rfl⟩
      | some cutoff =>
        cases h : pruneCount (P.toRfc3339 cutoff) log.entries with
        | zero => exact Or.inl ⟨by simp [h], rfl, by simp [h]⟩
        | succ k => exact Or.inr (Or.inr ⟨rfl, by simp [h], by simp [h, Op.io]⟩)

end LibreFang.Audit
