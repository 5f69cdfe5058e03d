import LibreFang.Audit.History

/-!
# What the chain commits to

Two verified lists with one anchor, one length and one tip hash the same bytes at every place.
The bytes are the fields one after the other, without a delimiter between them.

* `SameFields`, `SameLengths`: entries agree, or their fields take the same number of bytes.
* **`tamper_evident_iff`**: the lists agree exactly when the lengths do.
-/

namespace LibreFang.Audit

open Text

variable {P : Platform}

/-- The fields of an entry besides its hashes. -/
structure SameFields (a b : AuditEntry) : Prop where
  seq : a.seq = b.seq
  timestamp : a.timestamp = b.timestamp
  agentId : a.agentId = b.agentId
  action : a.action = b.action
  detail : a.detail = b.detail
  outcome : a.outcome = b.outcome
  userId : a.userId = b.userId
  channel : a.channel = b.channel

/-- The fields take the same number of bytes, and the same optional fields are present. -/
structure SameLengths (a b : AuditEntry) : Prop where
  seq : (utf8 (toString a.seq)).length = (utf8 (toString b.seq)).length
  timestamp : (utf8 a.timestamp).length = (utf8 b.timestamp).length
  agentId : (utf8 a.agentId).length = (utf8 b.agentId).length
  action : (utf8 a.action.display).length = (utf8 b.action.display).length
  detail : (utf8 a.detail).length = (utf8 b.detail).length
  outcome : (utf8 a.outcome).length = (utf8 b.outcome).length
  userId : a.userId.isSome = b.userId.isSome
  channel : a.channel.isSome = b.channel.isSome

theorem SameFields.sameLengths {a b : AuditEntry} (h : SameFields a b) : SameLengths a b := by
  constructor
  · rw [h.seq]
  · rw [h.timestamp]
  · rw [h.agentId]
  · rw [h.action]
  · rw [h.detail]
  · rw [h.outcome]
  · rw [h.userId]
  · rw [h.channel]

/-! ## Reading the fields back -/

theorem eq_of_not_decodable {a : AuditAction} (h : a.decodable = false) :
    a = .A2aDiscovered ∨ a = .A2aTrusted := by
  revert h
  cases a <;> decide

theorem display_ne_of_not_decodable {a b : AuditAction} (ha : a.decodable = true)
    (hb : b.decodable = false) : a.display ≠ b.display := by
  intro h
  have hdec : a = AuditAction.decode b.display := by rw [← h, (decode_display a).mpr ha]
  rcases eq_of_not_decodable hb with rfl | rfl <;>
    · subst hdec
      exact absurd h (by decide)

theorem display_injective : Function.Injective AuditAction.display := by
  intro a b h
  cases ha : a.decodable with
  | true =>
    cases hb : b.decodable with
    | true => rw [← (decode_display a).mpr ha, h, (decode_display b).mpr hb]
    | false => exact absurd h (display_ne_of_not_decodable ha hb)
  | false =>
    cases hb : b.decodable with
    | true => exact absurd h.symm (display_ne_of_not_decodable hb ha)
    | false =>
      rcases eq_of_not_decodable ha with rfl | rfl <;> rcases eq_of_not_decodable hb with rfl | rfl
      · rfl
      · exact absurd h (by decide)
      · exact absurd h (by decide)
      · rfl

theorem length_userBytes {u v : Option UserId} (h : u.isSome = v.isSome) :
    (userBytes u).length = (userBytes v).length := by
  cases u <;> cases v <;> simp_all [userBytes]

theorem userBytes_inj {u v : Option UserId} (hs : u.isSome = v.isSome)
    (h : userBytes u = userBytes v) : u = v := by
  cases u with
  | none =>
    cases v with
    | none => rfl
    | some v => simp at hs
  | some u =>
    cases v with
    | none => simp at hs
    | some v =>
      obtain ⟨u⟩ := u
      obtain ⟨v⟩ := v
      have huv : u = v := Vector.toList_inj.mp (List.append_cancel_left h)
      rw [huv]

theorem channelBytes_inj {c d : Option String} (hs : c.isSome = d.isSome)
    (h : channelBytes c = channelBytes d) : c = d := by
  cases c with
  | none =>
    cases d with
    | none => rfl
    | some d => simp at hs
  | some c =>
    cases d with
    | none => simp at hs
    | some d => rw [utf8_injective (List.append_cancel_left h)]

theorem toString_nat_inj {m n : ℕ} (h : toString m = toString n) : m = n := by
  have hd : Nat.toDigits 10 m = Nat.toDigits 10 n := by
    simpa [Nat.repr] using congrArg String.toList h
  rw [← Nat.ofDigitChars_ten_toDigits (n := m), hd, Nat.ofDigitChars_ten_toDigits]

theorem prevHash_of_hashInput {a b : AuditEntry} (h : a.hashInput = b.hashInput)
    (hlen : (utf8 a.prevHash).length = (utf8 b.prevHash).length) : a.prevHash = b.prevHash :=
  utf8_injective (List.append_inj_right' h hlen)

/-- **Fields of known lengths** are read back from the bytes. -/
theorem sameFields_of_hashInput {a b : AuditEntry} (h : a.hashInput = b.hashInput)
    (hlen : (utf8 a.prevHash).length = (utf8 b.prevHash).length) (hs : SameLengths a b) :
    SameFields a b := by
  have h₁ := List.append_inj_left' h hlen
  -- peel the fields off the front, in the order in which they were hashed
  simp only [List.append_assoc] at h₁
  obtain ⟨hseq, h₂⟩ := List.append_inj h₁ hs.seq
  obtain ⟨hts, h₃⟩ := List.append_inj h₂ hs.timestamp
  obtain ⟨hag, h₄⟩ := List.append_inj h₃ hs.agentId
  obtain ⟨hact, h₅⟩ := List.append_inj h₄ hs.action
  obtain ⟨hdet, h₆⟩ := List.append_inj h₅ hs.detail
  obtain ⟨hout, h₇⟩ := List.append_inj h₆ hs.outcome
  obtain ⟨huid, hch⟩ := List.append_inj h₇ (length_userBytes hs.userId)
  exact ⟨toString_nat_inj (utf8_injective hseq), utf8_injective hts, utf8_injective hag,
    display_injective (utf8_injective hact), utf8_injective hdet, utf8_injective hout,
    userBytes_inj hs.userId huid, channelBytes_inj hs.channel hch⟩

/-! ## Two verified lists -/

/-- SHA-256 is injective on what the two lists hash. -/
def NoCollision (P : Platform) (xs ys : List AuditEntry) : Prop :=
  ∀ x ∈ xs, ∀ y ∈ ys, P.sha256 x.hashInput = P.sha256 y.hashInput → x.hashInput = y.hashInput

theorem forall₂_mem {α β : Type} {R : α → β → Prop} {xs : List α} {ys : List β}
    (h : List.Forall₂ R xs ys) : List.Forall₂ (fun x y => x ∈ xs ∧ y ∈ ys ∧ R x y) xs ys := by
  induction h with
  | nil => exact .nil
  | cons hxy _ ih =>
    refine .cons ⟨List.mem_cons_self, List.mem_cons_self, hxy⟩ (ih.imp fun x y h => ?_)
    exact ⟨List.mem_cons_of_mem _ h.1, List.mem_cons_of_mem _ h.2.1, h.2.2⟩

variable {xs ys : List AuditEntry}

theorem prevHash_lengths {a b : String} (hx : IsChain P a xs)
    (hy : IsChain P b ys) (hab : (utf8 a).length = (utf8 b).length) (hlen : xs.length = ys.length) :
    List.Forall₂ (fun x y => (utf8 x.prevHash).length = (utf8 y.prevHash).length) xs ys := by
  induction xs generalizing a b ys with
  | nil =>
    obtain rfl := List.length_eq_zero_iff.mp hlen.symm
    exact .nil
  | cons x xs ih =>
    cases ys with
    | nil => simp at hlen
    | cons y ys =>
      obtain ⟨hpx, hdx, hx⟩ := hx
      obtain ⟨hpy, hdy, hy⟩ := hy
      refine .cons (by rw [hpx, hpy, hab]) (ih hx hy ?_ (by simpa using hlen))
      rw [← hdx, ← hdy, (isDigest_recomputed P x).length, (isDigest_recomputed P y).length]

theorem hashInput_of_recomputed (h : NoCollision P xs ys)
    {x y : AuditEntry} (hx : x ∈ xs) (hy : y ∈ ys) (hd : x.recomputed P = y.recomputed P) :
    x.hashInput = y.hashInput := by
  rw [recomputed_eq, recomputed_eq] at hd
  exact h x hx y hy (Vector.toList_inj.mp (hexEncode_injective hd))

theorem hashInput_eq {a : String} (hx : IsChain P a xs)
    (hy : IsChain P a ys) (hlen : xs.length = ys.length) (htip : chainTip a xs = chainTip a ys)
    (hinj : NoCollision P xs ys) :
    List.Forall₂ (fun x y => x.hashInput = y.hashInput ∧
      (utf8 x.prevHash).length = (utf8 y.prevHash).length) xs ys := by
  have hprev := forall₂_mem (prevHash_lengths hx hy rfl hlen)
  have hread : List.Forall₂ (fun x y => x.recomputed P = y.recomputed P → x.prevHash = y.prevHash)
      xs ys := by
    refine hprev.imp fun x y h hd => ?_
    exact prevHash_of_hashInput (hashInput_of_recomputed hinj h.1 h.2.1 hd) h.2.2
  have hdigest := HashChain.forall₂_of_tip_eq hx hy htip hread
  refine List.Forall₂.mp (fun x y h hd => ⟨?_, h.2.2⟩) hprev hdigest
  exact hashInput_of_recomputed hinj h.1 h.2.1 hd

theorem chainTip_of_getLast? {a : String}
    (h : xs.getLast?.map AuditEntry.hash = ys.getLast?.map AuditEntry.hash) :
    chainTip a xs = chainTip a ys := by
  have htip : ∀ es : List AuditEntry,
      chainTip a es = (es.getLast?.map AuditEntry.hash).getD a := by
    intro es
    cases hl : es.getLast? with
    | none =>
      rw [List.getLast?_eq_none_iff.mp hl]
      rfl
    | some e => exact HashChain.tip_of_getLast? hl
  rw [htip, htip, h]

/-- **What the tip commits to**: two lists of one length that verify from one chain anchor and end
in one hash agree in every field exactly when their fields have the same byte lengths. -/
theorem tamper_evident_iff (P : Platform) {l₁ l₂ : AuditLog}
    (h₁ : verifyIntegrity P l₁ = .ok ()) (h₂ : verifyIntegrity P l₂ = .ok ())
    (hanchor : l₁.chainAnchor = l₂.chainAnchor) (hlen : l₁.entries.length = l₂.entries.length)
    (htip : l₁.entries.getLast?.map AuditEntry.hash = l₂.entries.getLast?.map AuditEntry.hash)
    (hinj : NoCollision P l₁.entries l₂.entries) :
    List.Forall₂ SameFields l₁.entries l₂.entries ↔
      List.Forall₂ SameLengths l₁.entries l₂.entries := by
  have hx := (verifyIntegrity_eq_ok.mp h₁).1
  have hy := (verifyIntegrity_eq_ok.mp h₂).1
  rw [← hanchor] at hy
  have hbytes := hashInput_eq hx hy hlen (chainTip_of_getLast? htip) hinj
  constructor
  · exact fun h => h.imp fun x y hxy => hxy.sameLengths
  · exact fun h => List.Forall₂.mp (fun x y hb hs => sameFields_of_hashInput hb.1 hb.2 hs) hbytes h

/-- A log holding one sample entry, with its text split into detail and outcome as given. -/
def sampleSplit (detail outcome : String) : AuditLog :=
  { new with
    entries := [{
      seq := 0, timestamp := "2024-01-01T00:00:00+00:00", agentId := "agent-1",
      action := .ToolInvoke, detail := detail, outcome := outcome, userId := none, channel := none,
      prevHash := genesis
      hash := "2ae600d224cbc84d8e472d34267ec69e118a9685158d00177a64fec757b3a671" }] }

theorem hashInput_sampleSplit {detail outcome : String} (h : detail ++ outcome = "lsok") :
    ∀ e ∈ (sampleSplit detail outcome).entries, e.hashInput =
      hashInput 0 "2024-01-01T00:00:00+00:00" "agent-1" .ToolInvoke "ls" "ok" none none genesis := by
  intro e he
  obtain rfl := List.mem_singleton.mp he
  have hb : utf8 detail ++ utf8 outcome = utf8 "ls" ++ utf8 "ok" := by
    rw [← utf8_append, h, ← utf8_append]
    rfl
  simp only [AuditEntry.hashInput, Audit.hashInput, List.append_assoc]
  rw [← List.append_assoc (utf8 detail), hb, List.append_assoc]

theorem verify_sampleSplit {detail outcome : String} (h : detail ++ outcome = "lsok") :
    verifyIntegrity samplePlatform (sampleSplit detail outcome) = .ok () := by
  refine verifyIntegrity_eq_ok.mpr ⟨⟨rfl, ?_, trivial⟩, fun a ha => by cases ha⟩
  rw [recomputed_eq, hashInput_sampleSplit h _ List.mem_cons_self]
  simp only [samplePlatform, if_true]
  decide

theorem noCollision_sampleSplit {d o d' o' : String} (h : d ++ o = "lsok")
    (h' : d' ++ o' = "lsok") :
    NoCollision samplePlatform (sampleSplit d o).entries (sampleSplit d' o').entries := by
  intro x hx y hy _
  rw [hashInput_sampleSplit h x hx, hashInput_sampleSplit h' y hy]

theorem tamper_evident_iff_sample :
    List.Forall₂ SameFields (sampleSplit "ls" "ok").entries (sampleSplit "ls" "ok").entries ↔
      List.Forall₂ SameLengths (sampleSplit "ls" "ok").entries (sampleSplit "ls" "ok").entries :=
  tamper_evident_iff samplePlatform (verify_sampleSplit (by decide))
    (verify_sampleSplit (by decide)) rfl rfl rfl
    (noCollision_sampleSplit (by decide) (by decide))

/-- **Text may move between fields**: `ls`, `ok` and `l`, `sok` hash the same bytes. -/
theorem text_moved_unnoticed :
    ¬∀ (P : Platform) (l₁ l₂ : AuditLog), verifyIntegrity P l₁ = .ok () →
      verifyIntegrity P l₂ = .ok () → l₁.chainAnchor = l₂.chainAnchor →
      l₁.entries.length = l₂.entries.length →
      l₁.entries.getLast?.map AuditEntry.hash = l₂.entries.getLast?.map AuditEntry.hash →
      NoCollision P l₁.entries l₂.entries →
      List.Forall₂ SameFields l₁.entries l₂.entries := by
  intro h
  have hall := h samplePlatform (sampleSplit "ls" "ok") (sampleSplit "l" "sok")
    (verify_sampleSplit (by decide)) (verify_sampleSplit (by decide)) rfl rfl rfl
    (noCollision_sampleSplit (by decide) (by decide))
  exact absurd (List.forall₂_cons.mp hall).1.detail (by decide)

end LibreFang.Audit
