import Mathlib.Data.Finset.Erase
import LibreFang.Taint.Detect

/-!
# Every rule that fires

What is reported of a payload, and what one rule hides of another.

* `fires`, `family`: the shape a rule looks for, whatever the other rules find; the rules that share
  a label, in the order in which they are tried.
* **`mem_detect_iff`**: reported is the first rule of a family that fires and is not skipped.
* **`detect_complete_iff`**: nothing is hidden exactly when no family has two rules that fire.
-/

theorem List.forall_find?_iff {α : Type*} {p : α → Bool} {l : List α} :
    (∀ a ∈ l, p a = true → l.find? p = some a) ↔
      ∀ a ∈ l, ∀ b ∈ l, p a = true → p b = true → a = b := by
  constructor
  · intro h a ha b hb hpa hpb
    exact Option.some.inj ((h a ha hpa).symm.trans (h b hb hpb))
  · intro h a ha hpa
    cases hf : l.find? p with
    | none => exact absurd hpa (List.find?_eq_none.mp hf a ha)
    | some b =>
      rw [h b (List.mem_of_find?_eq_some hf) a ha (List.find?_some hf) hpa]

namespace LibreFang.Taint

open Text Slices

/-! ## Rules by themselves -/

section Rules

variable (host : Host) (payload : List Char)

/-- No text with this shape is looked at for personal data. -/
def piiExcluded : Bool := tokenishMixed (trim payload) || isNumericTimestamp (trim payload)

/-- The payload has the shape that a rule looks for. -/
def fires : TaintRuleId → Bool
  | .authorizationLiteral => decide ("authorization:".toList <:+: host.toLowercase payload)
  | .keyValueSecret => secretKeys.any fun key => separators.any fun sep =>
      decide (key.toList ++ sep.toList <:+: normalizeSeparators (host.toLowercase payload))
  | .opaqueToken => looksOpaque host (trim payload)
  | .wellKnownPrefix => wellKnownPrefixes.any fun start => start.toList.isPrefixOf (trim payload)
  | .piiEmail => !piiExcluded payload && host.emailRegex payload
  | .piiPhone => !piiExcluded payload && host.phoneRegex payload
  | .piiCreditCard => !piiExcluded payload && host.creditCardRegex payload
  | .piiSsn => !piiExcluded payload && host.ssnRegex payload
  | .sensitiveKeyName => false

end Rules

/-- The rules with a label, in the order in which they are tried. -/
def family : TaintLabel → List TaintRuleId
  | .secret => [.authorizationLiteral, .keyValueSecret, .opaqueToken, .wellKnownPrefix]
  | .pii => [.piiEmail, .piiPhone, .piiCreditCard, .piiSsn]
  | _ => []

/-- All rules. -/
def allRules : RuleSet :=
  {.authorizationLiteral, .keyValueSecret, .wellKnownPrefix, .opaqueToken, .piiEmail, .piiPhone,
    .piiCreditCard, .piiSsn, .sensitiveKeyName}

theorem mem_allRules (rule : TaintRuleId) : rule ∈ allRules := by
  cases rule <;> decide

variable {host : Host} {payload : List Char} {sink : TaintSink} {skipRules : RuleSet}

/-! ## The first of a family -/

variable (host payload skipRules) in
/-- The first rule with a label that is not skipped and fires. -/
def firstOf (label : TaintLabel) : Option TaintRuleId :=
  (family label).find? fun rule => decide (rule ∉ skipRules) && fires host payload rule

theorem find?_cons_ite {α : Type*} (p : α → Bool) (a : α) (l : List α) :
    (a :: l).find? p = if p a = true then some a else l.find? p := by
  rw [List.find?_cons]
  cases p a <;> rfl

variable {rule : TaintRuleId}

theorem tried_iff {shape : Prop} (h : shape ↔ fires host payload rule = true) :
    rule ∉ skipRules ∧ shape ↔ (decide (rule ∉ skipRules) && fires host payload rule) = true := by
  rw [Bool.and_eq_true, decide_eq_true_eq, h]

theorem detectSecretRuleWithSkip_eq :
    detectSecretRuleWithSkip host payload skipRules = firstOf host payload skipRules .secret := by
  unfold detectSecretRuleWithSkip firstOf family
  rw [find?_cons_ite, find?_cons_ite, find?_cons_ite, find?_cons_ite, List.find?_nil]
  refine if_congr (tried_iff ?_) rfl (if_congr (tried_iff ?_) rfl
    (if_congr (tried_iff ?_) rfl (if_congr (tried_iff ?_) rfl rfl)))
  · exact decide_eq_true_iff.symm
  · exact Iff.rfl
  · exact Iff.rfl
  · exact Iff.rfl

theorem not_piiExcluded_of_fires (hrule : rule ∈ family .pii)
    (h : fires host payload rule = true) : piiExcluded payload = false := by
  cases rule with
  | piiEmail | piiPhone | piiCreditCard | piiSsn =>
    exact (Bool.not_eq_true' _).mp (Bool.and_eq_true_iff.mp h).1
  | authorizationLiteral | keyValueSecret | wellKnownPrefix | opaqueToken | sensitiveKeyName =>
    exact absurd hrule (by decide)

theorem firstOf_pii_of_excluded (hx : piiExcluded payload = true) :
    firstOf host payload skipRules .pii = none := by
  unfold firstOf
  rw [List.find?_eq_none]
  intro rule hrule h
  rw [Bool.and_eq_true] at h
  rw [not_piiExcluded_of_fires hrule h.2] at hx
  exact Bool.false_ne_true hx

theorem detectPiiRuleWithSkip_eq :
    detectPiiRuleWithSkip host payload skipRules = firstOf host payload skipRules .pii := by
  by_cases hx : piiExcluded payload = true
  · rw [firstOf_pii_of_excluded hx]
    unfold piiExcluded at hx
    unfold detectPiiRuleWithSkip
    rw [Bool.or_eq_true] at hx
    rcases hx with ht | hs
    · exact if_pos ht
    · exact (ite_congr rfl (fun _ => rfl) fun _ => if_pos hs).trans (ite_self _)
  · have hshape : ∀ matched : Bool, matched = true ↔ (!piiExcluded payload && matched) = true := by
      intro matched
      rw [Bool.eq_false_iff.mpr hx, Bool.not_false, Bool.true_and]
    unfold detectPiiRuleWithSkip firstOf family
    rw [find?_cons_ite, find?_cons_ite, find?_cons_ite, find?_cons_ite, List.find?_nil]
    unfold piiExcluded at hx
    rw [Bool.or_eq_true, not_or] at hx
    refine (if_neg hx.1).trans ((if_neg hx.2).trans ?_)
    exact if_congr (tried_iff (hshape _)) rfl (if_congr (tried_iff (hshape _)) rfl
      (if_congr (tried_iff (hshape _)) rfl (if_congr (tried_iff (hshape _)) rfl rfl)))

theorem hit_eq (label : TaintLabel) (rule : TaintRuleId) :
    hit payload sink label rule = if label ∈ sink.blockedLabels then [rule] else [] := by
  unfold hit TaintedValue.checkSink labelled
  by_cases h : label ∈ sink.blockedLabels <;> simp [h]

theorem mem_elim_hit {label : TaintLabel} {found : Option TaintRuleId} :
    rule ∈ found.elim [] (hit payload sink label) ↔
      label ∈ sink.blockedLabels ∧ found = some rule := by
  cases found with
  | none => simp
  | some first =>
    rw [Option.elim_some, hit_eq]
    by_cases h : label ∈ sink.blockedLabels
    · rw [if_pos h, List.mem_singleton, Option.some_inj, eq_comm, and_iff_right h]
    · simp [h]

/-- **Reported is the first rule of a family that fires and is not skipped.** -/
theorem mem_detect_iff :
    rule ∈ detectOutboundTextViolationRulesWithSkip host payload sink skipRules ↔
      ∃ label ∈ sink.blockedLabels, firstOf host payload skipRules label = some rule := by
  unfold detectOutboundTextViolationRulesWithSkip
  rw [List.mem_append, mem_elim_hit, detectSecretRuleWithSkip_eq, detectPiiRuleWithSkip_eq]
  have hpii : (rule ∈ if TaintLabel.pii ∈ sink.blockedLabels then
        (firstOf host payload skipRules .pii).elim [] (hit payload sink .pii) else []) ↔
      TaintLabel.pii ∈ sink.blockedLabels ∧ firstOf host payload skipRules .pii = some rule := by
    by_cases h : TaintLabel.pii ∈ sink.blockedLabels
    · rw [if_pos h, mem_elim_hit]
    · simp [h]
  rw [hpii]
  constructor
  · rintro (h | h)
    · exact ⟨_, h⟩
    · exact ⟨_, h⟩
  · rintro ⟨label, hb, hf⟩
    cases label with
    | secret => exact .inl ⟨hb, hf⟩
    | pii => exact .inr ⟨hb, hf⟩
    | externalNetwork | userInput | untrustedAgent => cases hf

theorem mem_detect_others_iff (hskip : rule ∉ skipRules) :
    rule ∈ detectOutboundTextViolationRulesWithSkip host payload sink
        (skipRules ∪ allRules.erase rule) ↔
      ∃ label ∈ sink.blockedLabels, rule ∈ family label ∧ fires host payload rule = true := by
  have hmem : ∀ r, r ∉ skipRules ∪ allRules.erase rule ↔ r = rule := by
    intro r
    rw [Finset.mem_union, Finset.mem_erase, not_or, not_and_or, not_ne_iff]
    constructor
    · rintro ⟨-, h | h⟩
      · exact h
      · exact absurd (mem_allRules r) h
    · rintro rfl
      exact ⟨hskip, .inl rfl⟩
  rw [mem_detect_iff]
  refine exists_congr fun label => and_congr_right fun _ => ?_
  constructor
  · intro hf
    have hp := List.find?_some hf
    rw [Bool.and_eq_true] at hp
    exact ⟨List.mem_of_find?_eq_some hf, hp.2⟩
  · rintro ⟨hfam, hfires⟩
    refine List.forall_find?_iff.mpr ?_ rule hfam ?_
    · intro a _ b _ ha hb
      rw [Bool.and_eq_true, decide_eq_true_eq, hmem] at ha hb
      rw [ha.1, hb.1]
    · rw [hfires, Bool.and_true, decide_eq_true_eq, hmem]

variable (host payload sink skipRules) in
/-- In no family that the sink blocks do two rules fire that are not skipped. -/
def Unrivalled : Prop :=
  ∀ label ∈ sink.blockedLabels, ∀ r₁ ∈ family label, ∀ r₂ ∈ family label,
    r₁ ∉ skipRules → r₂ ∉ skipRules → fires host payload r₁ = true → fires host payload r₂ = true →
      r₁ = r₂

theorem family_unique {label₁ label₂ : TaintLabel}
    (h₁ : rule ∈ family label₁) (h₂ : rule ∈ family label₂) : label₁ = label₂ := by
  cases label₁ <;> cases label₂ <;> first | rfl | (revert h₁ h₂; cases rule <;> decide)

/-- **Every rule that is reported when all others are skipped is reported with them, exactly when no
family has two rules that fire.** -/
theorem detect_complete_iff (host : Host) (payload : List Char) (sink : TaintSink)
    (skipRules : RuleSet) :
    (∀ rule ∉ skipRules,
      rule ∈ detectOutboundTextViolationRulesWithSkip host payload sink
        (skipRules ∪ allRules.erase rule) →
      rule ∈ detectOutboundTextViolationRulesWithSkip host payload sink skipRules) ↔
    Unrivalled host payload sink skipRules := by
  constructor
  · intro h label hb r₁ hr₁ r₂ hr₂ hs₁ hs₂ hf₁ hf₂
    have hfirst : ∀ r ∈ family label, r ∉ skipRules → fires host payload r = true →
        firstOf host payload skipRules label = some r := by
      intro r hr hs hf
      obtain ⟨label', -, hf'⟩ :=
        mem_detect_iff.mp (h r hs ((mem_detect_others_iff hs).mpr ⟨label, hb, hr, hf⟩))
      rwa [family_unique hr (List.mem_of_find?_eq_some hf')]
    exact Option.some.inj ((hfirst r₁ hr₁ hs₁ hf₁).symm.trans (hfirst r₂ hr₂ hs₂ hf₂))
  · intro h rule hs halone
    obtain ⟨label, hb, hfam, hfires⟩ := (mem_detect_others_iff hs).mp halone
    refine mem_detect_iff.mpr ⟨label, hb, List.forall_find?_iff.mpr ?_ rule hfam ?_⟩
    · intro a ha b hb' hpa hpb
      rw [Bool.and_eq_true, decide_eq_true_eq] at hpa hpb
      exact h label hb a ha b hb' hpa.1 hpb.1 hpa.2 hpb.2
    · rw [hfires, Bool.and_true, decide_eq_true_eq]
      exact hs

/-- ASCII text in lower case, in which no regular expression matches. -/
def plainHost : Host where
  toLowercase s := s.map Char.toLower
  dateComponentRegex _ := false
  emailRegex _ := false
  phoneRegex _ := false
  creditCardRegex _ := false
  ssnRegex _ := false

/-- The literal header hides that the same text assigns a secret. -/
theorem literal_hides_assignment :
    ¬ ∀ (host : Host) (payload : List Char) (sink : TaintSink) (skipRules : RuleSet),
      ∀ rule ∉ skipRules,
        rule ∈ detectOutboundTextViolationRulesWithSkip host payload sink
          (skipRules ∪ allRules.erase rule) →
        rule ∈ detectOutboundTextViolationRulesWithSkip host payload sink skipRules := by
  intro h
  have hmem := h plainHost "authorization: token=abc".toList .mcpToolCall ∅
    .keyValueSecret (by decide) (by decide +kernel)
  exact absurd hmem (by decide +kernel)

end LibreFang.Taint
