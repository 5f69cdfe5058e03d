import Mathlib.Algebra.Order.Ring.Rat
import LibreFang.Caps.Covers

/-!
# Capability inheritance

A child agent's capabilities are checked against its parent's when it is spawned.

* `Capability`, `capabilityMatches`: the grants and when a grant meets a requirement.
* `Within`: a child grant inside a parent grant; **`inheritance_sound`**: with every child grant
  inside a parent grant, what the child may do the parent may do.
* **`inheritance_escalates`**: without it the check lets a child wildcard pass as plain text.
-/

namespace LibreFang.Caps

/-! ## Capabilities -/

/-- An `f64` as its comparisons see it. -/
inductive F64
  | nan
  | negInfinity
  | finite (q : ℚ)
  | infinity
deriving DecidableEq

/-- `a >= b`: false on a NaN. -/
def F64.ge : F64 → F64 → Bool
  | .nan, _ | _, .nan => false
  | .infinity, _ | _, .negInfinity => true
  | .finite a, .finite b => decide (b ≤ a)
  | .negInfinity, _ | _, .infinity => false

theorem F64.ge_trans {a b c : F64} (hab : a.ge b = true) (hbc : b.ge c = true) : a.ge c = true := by
  cases a <;> cases b <;> cases c <;> simp_all [F64.ge]
  rename_i a b c
  exact hbc.trans hab

/-- `Capability`. -/
inductive Capability
  | fileRead (pattern : List Char)
  | fileWrite (pattern : List Char)
  | netConnect (pattern : List Char)
  | netListen (port : ℕ)
  | toolInvoke (id : List Char)
  | toolAll
  | llmQuery (pattern : List Char)
  | llmMaxTokens (max : ℕ)
  | agentSpawn
  | agentMessage (pattern : List Char)
  | agentKill (pattern : List Char)
  | memoryRead (pattern : List Char)
  | memoryWrite (pattern : List Char)
  | shellExec (pattern : List Char)
  | envRead (pattern : List Char)
  | ofpDiscover
  | ofpConnect (pattern : List Char)
  | ofpAdvertise
  | econSpend (max : F64)
  | econEarn
  | econTransfer (pattern : List Char)
deriving DecidableEq

/-- `capability_matches`. -/
def capabilityMatches (granted required : Capability) : Bool :=
  match granted, required with
  | .toolAll, .toolInvoke _ => true
  | .fileRead pattern, .fileRead path => globMatches pattern path
  | .fileWrite pattern, .fileWrite path => globMatches pattern path
  | .netConnect pattern, .netConnect host => globMatches pattern host
  | .toolInvoke grantedId, .toolInvoke requiredId => globMatches grantedId requiredId
  | .llmQuery pattern, .llmQuery model => globMatches pattern model
  | .agentMessage pattern, .agentMessage target => globMatches pattern target
  | .agentKill pattern, .agentKill target => globMatches pattern target
  | .memoryRead pattern, .memoryRead scope => globMatches pattern scope
  | .memoryWrite pattern, .memoryWrite scope => globMatches pattern scope
  | .shellExec pattern, .shellExec cmd => globMatches pattern cmd
  | .envRead pattern, .envRead var => globMatches pattern var
  | .ofpConnect pattern, .ofpConnect peer => globMatches pattern peer
  | .econTransfer pattern, .econTransfer target => globMatches pattern target
  | .agentSpawn, .agentSpawn => true
  | .ofpDiscover, .ofpDiscover => true
  | .ofpAdvertise, .ofpAdvertise => true
  | .econEarn, .econEarn => true
  | .netListen grantedPort, .netListen requiredPort => grantedPort == requiredPort
  | .llmMaxTokens grantedMax, .llmMaxTokens requiredMax => decide (requiredMax ≤ grantedMax)
  | .econSpend grantedMax, .econSpend requiredAmount => grantedMax.ge requiredAmount
  | _, _ => false

section Validate

variable (debug : Capability → String)

/-- The error of the first child capability without a matching grant. -/
def escalationDenied (childCap : Capability) : String :=
  "Privilege escalation denied: child requests " ++ debug childCap ++
    " but parent does not have a matching grant"

/-- `validate_capability_inheritance`. -/
def validateCapabilityInheritance (parentCaps : List Capability) :
    List Capability → Except String Unit
  | [] => .ok ()
  | childCap :: childCaps =>
    if parentCaps.any fun parentCap => capabilityMatches parentCap childCap then
      validateCapabilityInheritance parentCaps childCaps
    else .error (escalationDenied debug childCap)

theorem validate_ok_iff (parentCaps childCaps : List Capability) :
    validateCapabilityInheritance debug parentCaps childCaps = .ok () ↔
      ∀ child ∈ childCaps, ∃ parent ∈ parentCaps, capabilityMatches parent child = true := by
  induction childCaps with
  | nil => simp [validateCapabilityInheritance]
  | cons child childCaps ih =>
    by_cases hcov : parentCaps.any fun parentCap => capabilityMatches parentCap child
    · have hex := List.any_eq_true.mp hcov
      simp only [validateCapabilityInheritance, hcov, if_true, ih, List.forall_mem_cons]
      exact ⟨fun h => ⟨hex, h⟩, fun h => h.2⟩
    · have hnex := fun h => hcov (List.any_eq_true.mpr h)
      simp only [validateCapabilityInheritance, hcov, Bool.false_eq_true, if_false, reduceCtorEq,
        List.forall_mem_cons, false_iff]
      exact fun h => hnex h.1

end Validate

/-! ## Grants inside grants -/

/-- The comparison of two capabilities of one variant, with `R` between their patterns. -/
inductive Meets (R : List Char → List Char → Prop) : Capability → Capability → Prop
  | toolAll (id : List Char) : Meets R .toolAll (.toolInvoke id)
  | fileRead {p c : List Char} (h : R p c) : Meets R (.fileRead p) (.fileRead c)
  | fileWrite {p c : List Char} (h : R p c) : Meets R (.fileWrite p) (.fileWrite c)
  | netConnect {p c : List Char} (h : R p c) : Meets R (.netConnect p) (.netConnect c)
  | toolInvoke {p c : List Char} (h : R p c) : Meets R (.toolInvoke p) (.toolInvoke c)
  | llmQuery {p c : List Char} (h : R p c) : Meets R (.llmQuery p) (.llmQuery c)
  | agentMessage {p c : List Char} (h : R p c) : Meets R (.agentMessage p) (.agentMessage c)
  | agentKill {p c : List Char} (h : R p c) : Meets R (.agentKill p) (.agentKill c)
  | memoryRead {p c : List Char} (h : R p c) : Meets R (.memoryRead p) (.memoryRead c)
  | memoryWrite {p c : List Char} (h : R p c) : Meets R (.memoryWrite p) (.memoryWrite c)
  | shellExec {p c : List Char} (h : R p c) : Meets R (.shellExec p) (.shellExec c)
  | envRead {p c : List Char} (h : R p c) : Meets R (.envRead p) (.envRead c)
  | ofpConnect {p c : List Char} (h : R p c) : Meets R (.ofpConnect p) (.ofpConnect c)
  | econTransfer {p c : List Char} (h : R p c) : Meets R (.econTransfer p) (.econTransfer c)
  | agentSpawn : Meets R .agentSpawn .agentSpawn
  | ofpDiscover : Meets R .ofpDiscover .ofpDiscover
  | ofpAdvertise : Meets R .ofpAdvertise .ofpAdvertise
  | econEarn : Meets R .econEarn .econEarn
  | netListen (port : ℕ) : Meets R (.netListen port) (.netListen port)
  | llmMaxTokens {p c : ℕ} (h : c ≤ p) : Meets R (.llmMaxTokens p) (.llmMaxTokens c)
  | econSpend {p c : F64} (h : p.ge c = true) : Meets R (.econSpend p) (.econSpend c)

theorem capabilityMatches_iff (granted required : Capability) :
    capabilityMatches granted required = true ↔
      Meets (fun p v => globMatches p v = true) granted required := by
  constructor
  · intro h
    unfold capabilityMatches at h
    split at h
    case h_19 =>
      rw [beq_iff_eq.mp h]
      exact .netListen _
    case h_20 => exact .llmMaxTokens (of_decide_eq_true h)
    case h_22 => cases h
    all_goals
      constructor
      try exact h
  · intro h
    cases h with
    | netListen port => exact beq_self_eq_true port
    | llmMaxTokens h => exact decide_eq_true h
    | _ => first | rfl | assumption

theorem Meets.comp {R S T : List Char → List Char → Prop}
    (hRS : ∀ p c r, R p c → S c r → T p r) {parent child required : Capability}
    (h : Meets R parent child) (hr : Meets S child required) : Meets T parent required := by
  cases h with
  | toolAll id =>
    cases hr with
    | toolInvoke _ => exact .toolAll _
  | llmMaxTokens h =>
    cases hr with
    | llmMaxTokens hr => exact .llmMaxTokens (hr.trans h)
  | econSpend h =>
    cases hr with
    | econSpend hr => exact .econSpend (F64.ge_trans h hr)
  | _ =>
    cases hr
    constructor
    try exact hRS _ _ _ ‹_› ‹_›

/-- The child's grant stays inside the parent's: patterns are covered, amounts not exceeded. -/
abbrev Within (parent child : Capability) : Prop := Meets Covers parent child

theorem Within.sound {parent child required : Capability} (h : Within parent child)
    (hr : capabilityMatches child required = true) : capabilityMatches parent required = true := by
  rw [capabilityMatches_iff] at hr ⊢
  refine h.comp ?_ hr
  intro p c r hpc hcr
  exact hpc.sound hcr

/-! ## Escalation -/

/-- What the check is for: an accepted child may do nothing that the parent may not. -/
def NoEscalation (debug : Capability → String) (parentCaps childCaps : List Capability) : Prop :=
  validateCapabilityInheritance debug parentCaps childCaps = .ok () →
    ∀ required, (∃ child ∈ childCaps, capabilityMatches child required = true) →
      ∃ parent ∈ parentCaps, capabilityMatches parent required = true

/-- A child list that the check refuses, or whose grants all stay inside parent grants. -/
def SafeChild (parentCaps childCaps : List Capability) : Prop :=
  (∃ child ∈ childCaps, ∀ parent ∈ parentCaps, capabilityMatches parent child = false) ∨
    ∀ child ∈ childCaps, ∃ parent ∈ parentCaps, Within parent child

/-- **Inheritance does not escalate** when every child grant stays inside a parent grant. -/
theorem inheritance_sound (debug : Capability → String) (parentCaps childCaps : List Capability)
    (h : SafeChild parentCaps childCaps) : NoEscalation debug parentCaps childCaps := by
  intro hok required hreq
  obtain ⟨child, hchild, hmatch⟩ := hreq
  rcases h with ⟨refused, hrefused, hnone⟩ | hwithin
  · obtain ⟨parent, hparent, hm⟩ := (validate_ok_iff debug parentCaps childCaps).mp hok _ hrefused
    rw [hnone parent hparent] at hm
    cases hm
  · obtain ⟨parent, hparent, hpc⟩ := hwithin child hchild
    exact ⟨parent, hparent, hpc.sound hmatch⟩

/-- A single star of the child under a double star of the parent. -/
theorem inheritance_sound_sample :
    NoEscalation (fun _ => "FileRead(\"/data/*.txt\")") [.fileRead "/data/**".toList]
      [.fileRead "/data/*.txt".toList] := by
  refine inheritance_sound _ _ _ (Or.inr fun child hchild => ?_)
  rw [List.mem_singleton.mp hchild]
  exact ⟨_, List.mem_singleton_self _, .fileRead (by decide +kernel)⟩

/-- **The check lets a double star pass** under a single one, read as the name of a file. -/
theorem inheritance_escalates :
    ¬∀ debug parentCaps childCaps, NoEscalation debug parentCaps childCaps := by
  intro h
  have hesc := h (fun _ => "FileRead(\"/data/**\")") [.fileRead "/data/*".toList]
    [.fileRead "/data/**".toList]
  have hok := (validate_ok_iff (fun _ => "FileRead(\"/data/**\")") [.fileRead "/data/*".toList]
    [.fileRead "/data/**".toList]).mpr (by decide +kernel)
  obtain ⟨parent, hparent, hm⟩ := hesc hok (.fileRead "/data/a/b".toList)
    ⟨_, List.mem_singleton_self _, by decide +kernel⟩
  rw [List.mem_singleton.mp hparent] at hm
  revert hm
  decide +kernel

end LibreFang.Caps
