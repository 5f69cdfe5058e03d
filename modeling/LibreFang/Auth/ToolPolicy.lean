import LibreFang.Auth.Policy
import LibreFang.Lib.Slices

/-!
# Which tools an agent may use

Rules allow and deny tools by patterns, and groups give names to patterns. Texts are cut at bytes;
the outer `none` stands for a cut inside a character, which panics.

* `globMatch`: a tool name against a pattern; **`globMatch_eq`**: it is what each `*` of the pattern
  can be replaced to give, and no cut is inside a character.
* `resolveToolAccess`: the rules in order; **`resolveToolAccess_iff`**: what is denied.
-/

namespace LibreFang.Auth.ToolAccess

open Slices Wildcard

/-! ## Patterns -/

/-- The parts of a pattern after the first one, from a byte of the text on. -/
def globLoop (text : List Char) (count : ℕ) : ℕ → ℕ → List (List Char) → Option Bool
  | _, _, [] => some true
  | i, pos, part :: parts =>
    if part = [] then globLoop text count (i + 1) pos parts
    else if i = 0 then
      if part <+: text then globLoop text count (i + 1) (byteLen part) parts else some false
    else if i = count - 1 then
      match cut pos text with
      | none => none
      | some (_, rest) =>
        if part <:+ rest then globLoop text count (i + 1) pos parts else some false
    else
      match cut pos text with
      | none => none
      | some (_, rest) =>
        match findStr part rest with
        | some found => globLoop text count (i + 1) (pos + found + byteLen part) parts
        | none => some false

/-- `glob_match`. -/
def globMatch (pattern text : List Char) : Option Bool :=
  if pattern = ['*'] then some true
  else if '*' ∉ pattern then some (pattern = text)
  else
    match pattern.splitOn '*' with
    | [start, ending] =>
      some (start <+: text ∧ ending <:+ text ∧ byteLen start + byteLen ending ≤ byteLen text)
    | parts => globLoop text parts.length 0 0 parts

/-! ## Rules -/

/-- `PolicyEffect`. -/
inductive PolicyEffect
  | allow
  | deny
  deriving DecidableEq

/-- `ToolPolicyRule`. -/
structure ToolPolicyRule where
  pattern : String
  effect : PolicyEffect

/-- `ToolPolicy`, with what decides about a tool. -/
structure ToolPolicy where
  agentRules : List ToolPolicyRule
  globalRules : List ToolPolicyRule
  groups : List ToolGroup
  subagentMaxDepth : ℕ

/-- `ToolAccessResult`. -/
inductive ToolAccessResult
  | allowed
  | denied (rulePattern source : String)
  | depthExceeded (current max : ℕ)
  deriving DecidableEq

/-- `is_subagent_tool`. -/
def isSubagentTool (name : String) : Bool :=
  name = "agent_spawn" || name = "agent_call" || name = "spawn_agent"

/-- The group is added once for each of its patterns that matches. -/
def expandGroup (toolName : String) (name : String) :
    List String → List String → Option (List String)
  | [], expanded => some expanded
  | pattern :: tools, expanded =>
    match globMatch pattern.toList toolName.toList with
    | none => none
    | some matched =>
      expandGroup toolName name tools (if matched then expanded ++ ["@" ++ name] else expanded)

/-- `expand_groups`, after the names that have been added. -/
def expandGroupsFrom (toolName : String) : List ToolGroup → List String → Option (List String)
  | [], expanded => some expanded
  | group :: groups, expanded =>
    match expandGroup toolName group.name group.tools expanded with
    | none => none
    | some expanded => expandGroupsFrom toolName groups expanded

/-- `expand_groups`. -/
def expandGroups (toolName : String) (groups : List ToolGroup) : Option (List String) :=
  expandGroupsFrom toolName groups [toolName]

/-- `matches_pattern`. -/
def matchesPattern (pattern toolName : String) (expanded : List String) : Option Bool :=
  match globMatch pattern.toList toolName.toList with
  | none => none
  | some true => some true
  | some false =>
    if pattern.toList.head? = some '@' then some (expanded.any (· == pattern)) else some false

/-- The first rule with the effect that matches. -/
def firstMatch (effect : PolicyEffect) (toolName : String) (expanded : List String) :
    List ToolPolicyRule → Option (Option ToolPolicyRule)
  | [] => some none
  | rule :: rules =>
    if rule.effect = effect then
      match matchesPattern rule.pattern toolName expanded with
      | none => none
      | some true => some (some rule)
      | some false => firstMatch effect toolName expanded rules
    else firstMatch effect toolName expanded rules

/-- The part of `resolve_tool_access` after the deny rules. -/
def resolveAllows (toolName : String) (policy : ToolPolicy) (expanded : List String) :
    Option ToolAccessResult :=
  if policy.agentRules.any (·.effect = .allow) || policy.globalRules.any (·.effect = .allow) then
    match firstMatch .allow toolName expanded policy.agentRules,
      firstMatch .allow toolName expanded policy.globalRules with
    | some agentAllows, some globalAllows =>
      if agentAllows.isSome || globalAllows.isSome then some .allowed
      else some (.denied "(not in any allow list)" "implicit_deny")
    | _, _ => none
  else some .allowed

/-- `resolve_tool_access`. -/
def resolveToolAccess (toolName : String) (policy : ToolPolicy) (depth : ℕ) :
    Option ToolAccessResult :=
  if isSubagentTool toolName ∧ policy.subagentMaxDepth < depth then
    some (.depthExceeded depth policy.subagentMaxDepth)
  else
    match expandGroups toolName policy.groups with
    | none => none
    | some expanded =>
      match firstMatch .deny toolName expanded policy.agentRules with
      | none => none
      | some (some rule) => some (.denied rule.pattern "agent")
      | some none =>
        match firstMatch .deny toolName expanded policy.globalRules with
        | none => none
        | some (some rule) => some (.denied rule.pattern "global")
        | some none => resolveAllows toolName policy expanded

/-! ## What a pattern matches -/

theorem globLoop_eq {text : List Char} {count i : ℕ} {done rest : List Char}
    {parts : List (List Char)} (hne : parts ≠ []) (hstars : ∀ part ∈ parts, '*' ∉ part)
    (hi : 0 < i) (hcount : count = i + parts.length) (htext : text = done ++ rest) :
    ∃ b, globLoop text count i (byteLen done) parts = some b ∧
      (b = true ↔ Fills '*' ('*' :: ['*'].intercalate parts) rest) := by
  induction parts generalizing i done rest with
  | nil => exact absurd rfl hne
  | cons part parts ih =>
    have hpart := hstars part List.mem_cons_self
    have hcut : cut (byteLen done) text = some (done, rest) := by rw [htext, cut_append]
    rw [globLoop]
    by_cases hparts : parts = []
    · -- the last part is the end of the text
      subst hparts
      rw [List.intercalate_singleton, fills_star_literal hpart]
      by_cases hnil : part = []
      · subst hnil
        rw [if_pos rfl, globLoop]
        exact ⟨true, rfl, by simp⟩
      · have hlast : i = count - 1 := by
          rw [hcount, List.length_singleton, Nat.add_sub_cancel]
        rw [if_neg hnil, if_neg hi.ne', if_pos hlast, hcut]
        dsimp only
        by_cases hends : part <:+ rest
        · rw [if_pos hends, globLoop]
          exact ⟨true, rfl, by simp [hends]⟩
        · rw [if_neg hends]
          exact ⟨false, rfl, by simp [hends]⟩
    · have hcount' : count = i + 1 + parts.length := by
        rw [hcount, List.length_cons]
        omega
      have hih : ∀ done rest, text = done ++ rest →
          ∃ b, globLoop text count (i + 1) (byteLen done) parts = some b ∧
            (b = true ↔ Fills '*' ('*' :: ['*'].intercalate parts) rest) :=
        fun done rest htext => ih hparts (fun p hp => hstars p (List.mem_cons_of_mem _ hp))
          (Nat.succ_pos i) hcount' htext
      rw [List.intercalate_cons_of_ne_nil hparts, List.append_assoc, List.singleton_append]
      by_cases hnil : part = []
      · subst hnil
        rw [if_pos rfl, List.nil_append, fills_star_star]
        exact hih done rest htext
      · have hinner : i ≠ count - 1 := by
          have hpos := List.length_pos_of_ne_nil hparts
          omega
        rw [if_neg hnil, if_neg hi.ne', if_neg hinner, hcut]
        dsimp only
        cases hfind : findStr part rest with
        | none =>
          refine ⟨false, rfl, iff_of_false Bool.false_ne_true ?_⟩
          exact not_fills_star hpart hnil (not_startsIn_of_findStr hfind)
        | some found =>
          -- a part in the middle is put where it occurs first
          obtain ⟨before, after, rfl, rfl, hfirst⟩ := exists_of_findStr hfind
          rw [fills_star_leftmost hpart hfirst]
          have hpos : byteLen done + byteLen before + byteLen part =
              byteLen (done ++ before ++ part) := by
            rw [byteLen_append, byteLen_append]
          dsimp only
          rw [hpos]
          exact hih _ after (by rw [htext, List.append_assoc, List.append_assoc])

theorem intercalate_splitOn (pattern : List Char) :
    ['*'].intercalate (pattern.splitOn '*') = pattern := by
  have hparts := intercalate_splitOnP (· == '*') '*' pattern
  have hmap : (pattern.map fun a => if (a == '*') = true then '*' else a) = pattern := by
    refine (List.map_congr_left fun a _ => ?_).trans (List.map_id pattern)
    split
    · rename_i h
      exact (beq_iff_eq.mp h).symm
    · rfl
  exact hparts.trans hmap

theorem fills_two {start ending text : List Char} (hstart : '*' ∉ start) (hending : '*' ∉ ending) :
    Fills '*' (start ++ '*' :: ending) text ↔
      start <+: text ∧ ending <:+ text ∧ byteLen start + byteLen ending ≤ byteLen text := by
  rw [fills_literal_append hstart]
  constructor
  · rintro ⟨v, rfl, hv⟩
    obtain ⟨x, rfl⟩ := (fills_star_literal hending).mp hv
    refine ⟨List.prefix_append _ _, ⟨start ++ x, List.append_assoc ..⟩, ?_⟩
    rw [byteLen_append, byteLen_append]
    omega
  · rintro ⟨hfirst, hsuffix, hlen⟩
    obtain ⟨x, rfl⟩ := Caps.fits_of_byteLen hfirst hsuffix hlen
    exact ⟨x ++ ending, List.append_assoc .., (fills_star_literal hending).mpr
      (List.suffix_append _ _)⟩

/-- **What a pattern matches**: what is left when each star of it is replaced by some text. It is
found without a cut inside a character. -/
theorem globMatch_eq (pattern text : List Char) :
    ∃ b, globMatch pattern text = some b ∧ (b = true ↔ Fills '*' pattern text) := by
  unfold globMatch
  by_cases hstar : pattern = ['*']
  · rw [if_pos hstar, hstar]
    exact ⟨true, rfl, iff_of_true rfl (fills_replicate 0 text)⟩
  · rw [if_neg hstar]
    by_cases hmem : '*' ∉ pattern
    · rw [if_pos hmem, fills_literal hmem]
      exact ⟨_, rfl, by rw [decide_eq_true_iff, eq_comm]⟩
    · rw [if_neg hmem]
      have hparts := intercalate_splitOn pattern
      have hstars : ∀ part ∈ pattern.splitOn '*', '*' ∉ part := fun part hpart =>
        not_mem_of_mem_splitOnP (f := (· == '*')) (beq_self_eq_true '*') hpart
      revert hparts hstars
      generalize pattern.splitOn '*' = parts
      intro hparts hstars
      split
      · next start ending =>
        rw [← hparts, List.intercalate_cons_cons, List.intercalate_singleton, List.append_assoc,
          List.singleton_append, fills_two (hstars _ List.mem_cons_self)
            (hstars _ (List.mem_cons_of_mem _ List.mem_cons_self))]
        exact ⟨_, rfl, decide_eq_true_iff⟩
      · next hnottwo =>
        cases parts with
        | nil => exact absurd hmem (by rw [← hparts]; exact not_not.mpr List.not_mem_nil)
        | cons first others =>
          have hfirst := hstars first List.mem_cons_self
          have hothers : others ≠ [] := by
            rintro rfl
            rw [List.intercalate_singleton] at hparts
            exact hmem (hparts ▸ hfirst)
          have hih : ∀ done rest, text = done ++ rest →
              ∃ b, globLoop text (first :: others).length 1 (byteLen done) others = some b ∧
                (b = true ↔ Fills '*' ('*' :: ['*'].intercalate others) rest) :=
            fun done rest htext => globLoop_eq hothers
              (fun p hp => hstars p (List.mem_cons_of_mem _ hp)) Nat.one_pos
              (Nat.add_comm others.length 1) htext
          rw [← hparts, List.intercalate_cons_of_ne_nil hothers, List.append_assoc,
            List.singleton_append, fills_literal_append hfirst, globLoop]
          by_cases hnil : first = []
          · subst hnil
            rw [if_pos rfl]
            obtain ⟨b, hloop, hb⟩ := hih [] text rfl
            exact ⟨b, hloop, by rw [hb]; simp⟩
          · rw [if_neg hnil, if_pos rfl]
            by_cases hstart : first <+: text
            · obtain ⟨rest, rfl⟩ := hstart
              rw [if_pos (List.prefix_append _ _)]
              obtain ⟨b, hloop, hb⟩ := hih first rest rfl
              exact ⟨b, hloop, by rw [hb]; simp⟩
            · rw [if_neg hstart]
              refine ⟨false, rfl, iff_of_false Bool.false_ne_true ?_⟩
              rintro ⟨v, rfl, -⟩
              exact hstart (List.prefix_append _ _)

/-! ## What is denied -/

section Access

variable {groups : List ToolGroup} {pattern toolName name : String} {expanded : List String}
  {effect : PolicyEffect}

/-- The pattern matches the tool. -/
def Matches (pattern toolName : String) : Prop := Fills '*' pattern.toList toolName.toList

/-- The pattern matches the tool, or it names a group with a pattern that does. -/
def Denotes (groups : List ToolGroup) (pattern toolName : String) : Prop :=
  Matches pattern toolName ∨
    ∃ group ∈ groups, pattern = "@" ++ group.name ∧ ∃ p ∈ group.tools, Matches p toolName

/-- There is a rule with the effect for the tool. -/
def Says (policy : ToolPolicy) (effect : PolicyEffect) (toolName : String) : Prop :=
  ∃ rule ∈ policy.agentRules ++ policy.globalRules,
    rule.effect = effect ∧ Denotes policy.groups rule.pattern toolName

/-- There is a rule with the effect. -/
def Has (policy : ToolPolicy) (effect : PolicyEffect) : Prop :=
  ∃ rule ∈ policy.agentRules ++ policy.globalRules, rule.effect = effect

/-- The tool is denied: by its depth, by a rule, or because others are allowed and it is not. -/
def Denied (policy : ToolPolicy) (toolName : String) (depth : ℕ) : Prop :=
  isSubagentTool toolName = true ∧ policy.subagentMaxDepth < depth ∨
    Says policy .deny toolName ∨ Has policy .allow ∧ ¬Says policy .allow toolName

theorem expandGroup_eq (toolName name : String) (tools : List String) (expanded : List String) :
    ∃ expanded', expandGroup toolName name tools expanded = some expanded' ∧
      ∀ e, e ∈ expanded' ↔
        e ∈ expanded ∨ e = "@" ++ name ∧ ∃ p ∈ tools, Matches p toolName := by
  induction tools generalizing expanded with
  | nil => exact ⟨expanded, rfl, by simp⟩
  | cons pattern tools ih =>
    obtain ⟨matched, hmatch, hiff⟩ := globMatch_eq pattern.toList toolName.toList
    obtain ⟨expanded', hexpand, hmem⟩ := ih (if matched then expanded ++ ["@" ++ name] else expanded)
    rw [expandGroup, hmatch]
    refine ⟨expanded', hexpand, fun e => (hmem e).trans ?_⟩
    cases matched with
    | true =>
      have hpattern : Matches pattern toolName := hiff.mp rfl
      rw [if_pos rfl, List.mem_append, List.mem_singleton, List.exists_mem_cons_iff, or_assoc]
      refine or_congr_right ⟨?_, fun h => .inl h.1⟩
      exact fun h => h.elim (fun he => ⟨he, .inl hpattern⟩) fun h => ⟨h.1, .inr h.2⟩
    | false =>
      have hpattern : ¬Matches pattern toolName := fun h => Bool.false_ne_true (hiff.mpr h)
      simp [hpattern]

theorem expandGroupsFrom_eq (toolName : String) (groups : List ToolGroup) (expanded : List String) :
    ∃ expanded', expandGroupsFrom toolName groups expanded = some expanded' ∧
      ∀ e, e ∈ expanded' ↔ e ∈ expanded ∨
        ∃ group ∈ groups, e = "@" ++ group.name ∧ ∃ p ∈ group.tools, Matches p toolName := by
  induction groups generalizing expanded with
  | nil => exact ⟨expanded, rfl, by simp⟩
  | cons group groups ih =>
    obtain ⟨expanded₁, hone, hmem₁⟩ := expandGroup_eq toolName group.name group.tools expanded
    obtain ⟨expanded₂, hall, hmem₂⟩ := ih expanded₁
    rw [expandGroupsFrom, hone]
    refine ⟨expanded₂, hall, fun e => ?_⟩
    rw [hmem₂, hmem₁, List.exists_mem_cons_iff, or_assoc]

/-- The names in the list: the tool, and the groups it is in. -/
def Expands (groups : List ToolGroup) (toolName : String) (expanded : List String) : Prop :=
  ∀ e, e ∈ expanded ↔ e = toolName ∨
    ∃ group ∈ groups, e = "@" ++ group.name ∧ ∃ p ∈ group.tools, Matches p toolName

theorem expandGroups_eq (toolName : String) (groups : List ToolGroup) :
    ∃ expanded, expandGroups toolName groups = some expanded ∧
      Expands groups toolName expanded := by
  obtain ⟨expanded, hexpand, hmem⟩ := expandGroupsFrom_eq toolName groups [toolName]
  exact ⟨expanded, hexpand, fun e => by rw [hmem e, List.mem_singleton]⟩

theorem matchesPattern_eq (hexpand : Expands groups toolName expanded) (pattern : String) :
    ∃ b, matchesPattern pattern toolName expanded = some b ∧
      (b = true ↔ Denotes groups pattern toolName) := by
  obtain ⟨matched, hmatch, hiff⟩ := globMatch_eq pattern.toList toolName.toList
  unfold matchesPattern
  rw [hmatch]
  cases matched with
  | true => exact ⟨true, rfl, iff_of_true rfl (.inl (hiff.mp rfl))⟩
  | false =>
    have hnot : ¬Matches pattern toolName := fun h => Bool.false_ne_true (hiff.mpr h)
    dsimp only
    by_cases hat : pattern.toList.head? = some '@'
    · rw [if_pos hat]
      refine ⟨_, rfl, ?_⟩
      rw [List.any_eq_true]
      constructor
      · rintro ⟨e, hmem, heq⟩
        obtain rfl := beq_iff_eq.mp heq
        refine .inr (((hexpand e).mp hmem).resolve_left fun htool => hnot ?_)
        rw [htool]
        exact fills_self _
      · intro hdenotes
        exact ⟨pattern, (hexpand pattern).mpr (.inr (hdenotes.resolve_left hnot)),
          beq_self_eq_true pattern⟩
    · rw [if_neg hat]
      refine ⟨false, rfl, iff_of_false Bool.false_ne_true ?_⟩
      rintro (h | ⟨group, -, rfl, -⟩)
      · exact hnot h
      · exact hat (by simp [String.toList_append])

theorem firstMatch_eq (hexpand : Expands groups toolName expanded) (effect : PolicyEffect)
    (rules : List ToolPolicyRule) :
    ∃ found, firstMatch effect toolName expanded rules = some found ∧
      (found.isSome = true ↔
        ∃ rule ∈ rules, rule.effect = effect ∧ Denotes groups rule.pattern toolName) := by
  induction rules with
  | nil => exact ⟨none, rfl, by simp⟩
  | cons rule rules ih =>
    obtain ⟨found, hfound, hiff⟩ := ih
    rw [firstMatch, List.exists_mem_cons_iff]
    by_cases heffect : rule.effect = effect
    · obtain ⟨matched, hmatch, hdenotes⟩ := matchesPattern_eq hexpand rule.pattern
      rw [if_pos heffect, hmatch]
      cases matched with
      | true =>
        exact ⟨some rule, rfl, iff_of_true rfl (.inl ⟨heffect, hdenotes.mp rfl⟩)⟩
      | false =>
        refine ⟨found, hfound, hiff.trans (or_iff_right ?_).symm⟩
        exact fun h => Bool.false_ne_true (hdenotes.mpr h.2)
    · rw [if_neg heffect]
      exact ⟨found, hfound, hiff.trans (or_iff_right fun h => heffect h.1).symm⟩

theorem has_allow_iff (policy : ToolPolicy) :
    (policy.agentRules.any (·.effect = .allow) || policy.globalRules.any (·.effect = .allow)) =
      true ↔ Has policy .allow := by
  unfold Has
  rw [← List.any_append, List.any_eq_true]
  simp only [decide_eq_true_iff]

theorem resolveAllows_iff {policy : ToolPolicy} (hexpand : Expands policy.groups toolName expanded) :
    ∃ result, resolveAllows toolName policy expanded = some result ∧
      (result ≠ .allowed ↔ Has policy .allow ∧ ¬Says policy .allow toolName) := by
  unfold resolveAllows
  by_cases hhas : Has policy .allow
  · rw [if_pos ((has_allow_iff policy).mpr hhas)]
    obtain ⟨agentAllows, hagent, hiff₁⟩ := firstMatch_eq hexpand .allow policy.agentRules
    obtain ⟨globalAllows, hglobal, hiff₂⟩ := firstMatch_eq hexpand .allow policy.globalRules
    have hrule : (agentAllows.isSome || globalAllows.isSome) = true ↔ Says policy .allow toolName := by
      unfold Says
      rw [Bool.or_eq_true, hiff₁, hiff₂]
      simp only [List.mem_append, or_and_right, exists_or]
    rw [hagent, hglobal]
    dsimp only
    by_cases hallow : (agentAllows.isSome || globalAllows.isSome) = true
    · rw [if_pos hallow]
      exact ⟨_, rfl, iff_of_false (fun h => h rfl) fun h => h.2 (hrule.mp hallow)⟩
    · rw [if_neg hallow]
      exact ⟨_, rfl, iff_of_true ToolAccessResult.noConfusion ⟨hhas, fun h => hallow (hrule.mpr h)⟩⟩
  · rw [if_neg (mt (has_allow_iff policy).mp hhas)]
    exact ⟨_, rfl, iff_of_false (fun h => h rfl) fun h => hhas h.1⟩

/-- **What is denied.** -/
theorem resolveToolAccess_iff (toolName : String) (policy : ToolPolicy) (depth : ℕ) :
    ∃ result, resolveToolAccess toolName policy depth = some result ∧
      (result ≠ .allowed ↔ Denied policy toolName depth) := by
  unfold resolveToolAccess
  by_cases hdepth : isSubagentTool toolName = true ∧ policy.subagentMaxDepth < depth
  · rw [if_pos hdepth]
    exact ⟨_, rfl, iff_of_true ToolAccessResult.noConfusion (.inl hdepth)⟩
  · rw [if_neg hdepth]
    obtain ⟨expanded, hexpanded, hexpand⟩ := expandGroups_eq toolName policy.groups
    obtain ⟨agentDeny, hagent, hiff₁⟩ := firstMatch_eq hexpand .deny policy.agentRules
    obtain ⟨globalDeny, hglobal, hiff₂⟩ := firstMatch_eq hexpand .deny policy.globalRules
    have hrule : Says policy .deny toolName ↔ agentDeny.isSome = true ∨ globalDeny.isSome = true := by
      unfold Says
      rw [hiff₁, hiff₂]
      simp only [List.mem_append, or_and_right, exists_or]
    unfold Denied
    rw [hexpanded, or_iff_right hdepth, hrule]
    dsimp only
    rw [hagent]
    cases agentDeny with
    | some rule => exact ⟨_, rfl, iff_of_true ToolAccessResult.noConfusion (.inl (.inl rfl))⟩
    | none =>
      dsimp only
      rw [hglobal]
      cases globalDeny with
      | some rule => exact ⟨_, rfl, iff_of_true ToolAccessResult.noConfusion (.inl (.inr rfl))⟩
      | none =>
        obtain ⟨result, hresult, hiff⟩ := resolveAllows_iff hexpand
        exact ⟨result, hresult, by rw [hiff]; simp⟩

end Access

/-- **Tool patterns are exact**: a pattern matches what its stars can be replaced to give, no text is
cut inside a character, and a tool is denied if and only if its depth, a deny rule for it or the
lack of an allow rule for it says so. -/
theorem toolPolicy_exact :
    (∀ pattern text, ∃ b, globMatch pattern text = some b ∧
      (b = true ↔ Fills '*' pattern text)) ∧
    ∀ toolName policy depth, ∃ result, resolveToolAccess toolName policy depth = some result ∧
      (result ≠ .allowed ↔ Denied policy toolName depth) :=
  ⟨globMatch_eq, resolveToolAccess_iff⟩

end LibreFang.Auth.ToolAccess
