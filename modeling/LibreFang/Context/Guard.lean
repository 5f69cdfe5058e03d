import Mathlib.Data.List.Forall2
import LibreFang.Context.Truncate
import LibreFang.Session.Message

/-!
# The guard of the context

Before a call of the model, the tool results of a conversation are compacted when together they take
too many characters: first those that are too long by themselves, then the oldest ones.

* `toolContents`, `putContents`: the contents of the tool results of a conversation, in order.
* `compactPass`: one pass over them; **`applyContextGuard`**.
* **`guarded_of_fits`**: then the guard reaches its goal and has nothing to do a second time.
-/

namespace LibreFang.Context

open Session

/-! ## The contents of tool results -/

/-- The content of a tool result. -/
def toolContent? : ContentBlock → Option (List Char)
  | .toolResult _ _ content _ _ _ => some content.toList
  | _ => none

/-- The contents of the tool results, in the order in which the guard collects their places. -/
def toolContents (messages : List Message) : List (List Char) :=
  (messages.flatMap Message.blocks).filterMap toolContent?

/-- Contents put into the tool results among some blocks, and the contents that are left. -/
def putBlocks : List ContentBlock → List (List Char) → List ContentBlock × List (List Char)
  | [], contents => ([], contents)
  | .toolResult id name _ isError status approval :: blocks, content :: contents =>
    let (out, left) := putBlocks blocks contents
    (.toolResult id name (String.ofList content) isError status approval :: out, left)
  | block :: blocks, contents =>
    let (out, left) := putBlocks blocks contents
    (block :: out, left)

/-- Contents put into the tool results of a conversation. -/
def putContents : List Message → List (List Char) → List Message
  | [], _ => []
  | msg :: messages, contents =>
    match msg.content with
    | .text _ => msg :: putContents messages contents
    | .blocks blocks =>
      let (out, left) := putBlocks blocks contents
      { msg with content := .blocks out } :: putContents messages left

/-- The contents after a pass, their characters, and how many were compacted. -/
structure Pass where
  contents : List (List Char)
  totalChars : ℕ
  compacted : ℕ

/-- A pass: a content above the cap is truncated, unless the total is low enough. -/
def compactPass (cap : ℕ) (enough : ℕ → Bool) : ℕ → List (List Char) → Option Pass
  | totalChars, [] => some ⟨[], totalChars, 0⟩
  | totalChars, content :: contents =>
    if enough totalChars ∨ content.length ≤ cap then
      (compactPass cap enough totalChars contents).map fun pass =>
        { pass with contents := content :: pass.contents }
    else
      (truncateTo content cap).bind fun out =>
        (compactPass cap enough (totalChars - content.length + out.length) contents).map fun pass =>
          { pass with contents := out :: pass.contents, compacted := pass.compacted + 1 }

/-- The characters of some contents. -/
def totalLength (contents : List (List Char)) : ℕ := (contents.map List.length).sum

/-- `compact_target`. -/
def compactTarget : ℕ := 2000

/-- `apply_context_guard`. -/
def applyContextGuard (budget : ContextBudget) (messages : List Message) :
    Option (List Message × ℕ) :=
  let headroom := budget.totalToolHeadroomChars
  let contents := toolContents messages
  if totalLength contents ≤ headroom then some (messages, 0)
  else
    (compactPass budget.singleResultMax (fun _ => false) (totalLength contents) contents).bind
      fun first =>
        (compactPass compactTarget (· ≤ headroom) first.totalChars first.contents).map fun second =>
          (putContents messages second.contents, first.compacted + second.compacted)

/-! ## Contents read and put back -/

section Put

theorem putBlocks_result (id name old : String) (isError : Bool) (status : ToolExecutionStatus)
    (approval : Option String) (blocks : List ContentBlock) (content : List Char)
    (contents : List (List Char)) :
    putBlocks (.toolResult id name old isError status approval :: blocks) (content :: contents) =
      (.toolResult id name (String.ofList content) isError status approval ::
        (putBlocks blocks contents).1, (putBlocks blocks contents).2) := rfl

theorem putBlocks_other {block : ContentBlock} (h : toolContent? block = none)
    (blocks : List ContentBlock) (contents : List (List Char)) :
    putBlocks (block :: blocks) contents =
      (block :: (putBlocks blocks contents).1, (putBlocks blocks contents).2) := by
  cases block with
  | toolResult => cases h
  | text | image | imageFile | toolUse | thinking | unknown => rfl

theorem toolContent?_cases (block : ContentBlock) :
    toolContent? block = none ∨ ∃ id name content isError status approval,
      block = .toolResult id name content isError status approval := by
  cases block with
  | toolResult id name content isError status approval =>
    exact .inr ⟨id, name, content, isError, status, approval, rfl⟩
  | text | image | imageFile | toolUse | thinking | unknown => exact .inl rfl

theorem filterMap_result (id name content : String) (isError : Bool) (status : ToolExecutionStatus)
    (approval : Option String) (blocks : List ContentBlock) :
    (ContentBlock.toolResult id name content isError status approval :: blocks).filterMap
      toolContent? = content.toList :: blocks.filterMap toolContent? := rfl

theorem putBlocks_spec (blocks : List ContentBlock) (rest : List (List Char))
    {contents : List (List Char)} (h : contents.length = (blocks.filterMap toolContent?).length) :
    (putBlocks blocks (contents ++ rest)).2 = rest ∧
      (putBlocks blocks (contents ++ rest)).1.filterMap toolContent? = contents := by
  induction blocks generalizing contents with
  | nil =>
    obtain rfl := List.length_eq_zero_iff.mp h
    exact ⟨rfl, rfl⟩
  | cons block blocks ih =>
    rcases toolContent?_cases block with hnone | ⟨id, name, old, isError, status, approval, rfl⟩
    · rw [List.filterMap_cons_none hnone] at h
      rw [putBlocks_other hnone, List.filterMap_cons_none hnone]
      exact ih h
    · cases contents with
      | nil => cases h
      | cons content contents =>
        obtain ⟨hrest, hcontents⟩ := ih (Nat.succ.inj h)
        rw [List.cons_append, putBlocks_result, filterMap_result, hcontents, String.toList_ofList]
        exact ⟨hrest, rfl⟩

theorem putBlocks_self (blocks : List ContentBlock) (rest : List (List Char)) :
    putBlocks blocks (blocks.filterMap toolContent? ++ rest) = (blocks, rest) := by
  induction blocks with
  | nil => rfl
  | cons block blocks ih =>
    rcases toolContent?_cases block with hnone | ⟨id, name, old, isError, status, approval, rfl⟩
    · rw [List.filterMap_cons_none hnone, putBlocks_other hnone, ih]
    · rw [filterMap_result, List.cons_append, putBlocks_result, ih, String.ofList_toList]

/-- A block with its content hidden, if it is a tool result. -/
def hideBlock : ContentBlock → ContentBlock
  | .toolResult id name _ isError status approval => .toolResult id name "" isError status approval
  | block => block

/-- A message with the contents of its tool results hidden. -/
def hideContents (msg : Message) : Message := msg.mapBlocks (List.map hideBlock)

theorem map_hideBlock_putBlocks (blocks : List ContentBlock) (contents : List (List Char)) :
    (putBlocks blocks contents).1.map hideBlock = blocks.map hideBlock := by
  induction blocks generalizing contents with
  | nil => rfl
  | cons block blocks ih =>
    rcases toolContent?_cases block with hnone | ⟨id, name, old, isError, status, approval, rfl⟩
    · rw [putBlocks_other hnone, List.map_cons, List.map_cons, ih]
    · cases contents with
      | nil =>
        show hideBlock _ :: (putBlocks blocks []).1.map hideBlock = _
        rw [ih, List.map_cons]
      | cons content contents =>
        rw [putBlocks_result, List.map_cons, List.map_cons, ih]
        rfl

theorem toolContents_cons_text {msg : Message} {s : String} (h : msg.content = .text s)
    (messages : List Message) : toolContents (msg :: messages) = toolContents messages := by
  unfold toolContents
  rw [List.flatMap_cons, Message.blocks, h, List.nil_append]

theorem toolContents_cons_blocks {msg : Message} {blocks : List ContentBlock}
    (h : msg.content = .blocks blocks) (messages : List Message) :
    toolContents (msg :: messages) = blocks.filterMap toolContent? ++ toolContents messages := by
  unfold toolContents
  rw [List.flatMap_cons, Message.blocks, h, List.filterMap_append]

/-- **What is put is read.** -/
theorem toolContents_putContents (messages : List Message) {contents : List (List Char)}
    (h : contents.length = (toolContents messages).length) :
    toolContents (putContents messages contents) = contents := by
  induction messages generalizing contents with
  | nil => exact (List.length_eq_zero_iff.mp h).symm
  | cons msg messages ih =>
    unfold putContents
    cases hcontent : msg.content with
    | text s =>
      rw [toolContents_cons_text hcontent] at h ⊢
      exact ih h
    | blocks blocks =>
      rw [toolContents_cons_blocks hcontent, List.length_append] at h
      set k := (blocks.filterMap toolContent?).length
      have hlen : (contents.take k).length = k := List.length_take_of_le (by omega)
      obtain ⟨hleft, hout⟩ := putBlocks_spec blocks (contents.drop k) hlen
      rw [List.take_append_drop] at hleft hout
      simp only
      rw [toolContents_cons_blocks rfl, hout, hleft, ih (by rw [List.length_drop]; omega),
        List.take_append_drop]

/-- **Nothing changes** when what is read is put back. -/
theorem putContents_self (messages : List Message) :
    putContents messages (toolContents messages) = messages := by
  induction messages with
  | nil => rfl
  | cons msg messages ih =>
    obtain ⟨role, content, pinned, timestamp⟩ := msg
    cases content with
    | text s =>
      rw [toolContents_cons_text rfl, putContents]
      exact congrArg _ ih
    | blocks blocks =>
      rw [toolContents_cons_blocks rfl, putContents]
      simp only
      rw [putBlocks_self, ih]

theorem map_hideContents_putContents (messages : List Message) (contents : List (List Char)) :
    (putContents messages contents).map hideContents = messages.map hideContents := by
  induction messages generalizing contents with
  | nil => rfl
  | cons msg messages ih =>
    obtain ⟨role, content, pinned, timestamp⟩ := msg
    cases content with
    | text s =>
      rw [putContents, List.map_cons, List.map_cons, ih]
    | blocks blocks =>
      rw [putContents, List.map_cons, List.map_cons, ih]
      simp only [hideContents, Message.mapBlocks]
      rw [map_hideBlock_putBlocks]

end Put

/-! ## Truncations that meet their caps -/

/-- The content that a truncation leaves. -/
def truncated (content : List Char) (cap : ℕ) : List Char := (truncateTo content cap).getD content

/-- Every truncation of a pass meets its cap. -/
def PassFits (cap : ℕ) (enough : ℕ → Bool) : ℕ → List (List Char) → Prop
  | _, [] => True
  | totalChars, content :: contents =>
    if enough totalChars ∨ content.length ≤ cap then PassFits cap enough totalChars contents
    else
      CompactFits content cap ∧
        PassFits cap enough (totalChars - content.length + (truncated content cap).length) contents

/-- Every truncation that the guard makes of some contents meets its cap: each content above the cap
of a single result, at that cap; and then, from the oldest on while the total is above the headroom,
each one above the target, at the target. -/
def TruncationsFit (budget : ContextBudget) (contents : List (List Char)) : Prop :=
  let cap := budget.singleResultMax
  let first := contents.map fun content => if content.length ≤ cap then content
    else truncated content cap
  (∀ content ∈ contents, content.length ≤ cap ∨ CompactFits content cap) ∧
    PassFits compactTarget (· ≤ budget.totalToolHeadroomChars) (totalLength first) first

/-- A content that the guard may truncate leaves room for it: one up to the cap of a single result
at the target, a longer one at that cap. If that is above the target, where it may be truncated
again, its characters have one byte. -/
def ContentFits (cap : ℕ) (content : List Char) : Prop :=
  if content.length ≤ cap then content.length ≤ compactTarget ∨ CompactRoom content compactTarget
  else CompactRoom content cap ∧ (cap ≤ compactTarget ∨ ∀ c ∈ content, c.utf8Size = 1)

/-- Nothing has to be done, or all contents leave room. -/
def GuardFits (budget : ContextBudget) (messages : List Message) : Prop :=
  totalLength (toolContents messages) ≤ budget.totalToolHeadroomChars ∨
    ∀ content ∈ toolContents messages, ContentFits budget.singleResultMax content

section Passes

variable {cap totalChars : ℕ} {enough : ℕ → Bool} {contents : List (List Char)}
  {content : List Char}

theorem truncateTo_of_fits (hlong : ¬ content.length ≤ cap) (hfits : CompactFits content cap) :
    truncateTo content cap = some (truncated content cap) ∧
      (truncated content cap).length ≤ cap := by
  obtain ⟨out, hout, -, hbound⟩ := (capped_truncateTo_iff content cap).mpr (.inr hfits)
  have heq : truncated content cap = out := by
    rw [truncated, hout, Option.getD_some]
  rw [heq]
  exact ⟨hout, (hbound (Nat.lt_of_not_le hlong)).1⟩

/-- What a pass may do to a content. -/
def Compacts (cap : ℕ) (content out : List Char) : Prop :=
  out = content ∨ cap < content.length ∧ out.length ≤ cap

theorem Compacts.length_le {content out : List Char} (h : Compacts cap content out) :
    out.length ≤ content.length := by
  rcases h with rfl | ⟨hlong, hle⟩
  · exact le_rfl
  · exact hle.trans hlong.le

/-- **What a pass does**: contents stay or come within the cap, the total is exact, the count is
positive when something changed, and at the end the total is low enough or all contents are. -/
structure Compacted (cap : ℕ) (enough : ℕ → Bool) (totalChars : ℕ) (contents : List (List Char))
    (pass : Pass) : Prop where
  each : List.Forall₂ (Compacts cap) contents pass.contents
  total : ∀ base, totalChars = base + totalLength contents →
    pass.totalChars = base + totalLength pass.contents
  changed : pass.compacted = 0 ↔ pass.contents = contents
  settled : enough pass.totalChars = true ∨ ∀ content ∈ pass.contents, content.length ≤ cap

theorem compactPass_idle (h : enough totalChars = true ∨ ∀ content ∈ contents, content.length ≤ cap) :
    compactPass cap enough totalChars contents = some ⟨contents, totalChars, 0⟩ := by
  induction contents with
  | nil => rfl
  | cons content contents ih =>
    rw [List.forall_mem_cons] at h
    rw [compactPass, if_pos (h.imp_right And.left), ih (h.imp_right And.right), Option.map_some]

theorem totalLength_cons (content : List Char) (contents : List (List Char)) :
    totalLength (content :: contents) = content.length + totalLength contents := List.sum_cons

/-- **A pass whose truncations meet the cap.** -/
theorem compactPass_spec (h : PassFits cap enough totalChars contents) :
    ∃ pass, compactPass cap enough totalChars contents = some pass ∧
      Compacted cap enough totalChars contents pass := by
  induction contents generalizing totalChars with
  | nil =>
    exact ⟨_, rfl, .nil, fun _ htotal => htotal, iff_of_true rfl rfl, .inr (by simp)⟩
  | cons content contents ih =>
    unfold PassFits at h
    by_cases hkeep : enough totalChars = true ∨ content.length ≤ cap
    · rw [if_pos hkeep] at h
      obtain ⟨pass, hpass, hspec⟩ := ih h
      refine ⟨{ pass with contents := content :: pass.contents }, ?_, ?_, ?_, ?_, ?_⟩
      · rw [compactPass, if_pos hkeep, hpass, Option.map_some]
      · exact .cons (.inl rfl) hspec.each
      · intro base htotal
        simp only
        rw [totalLength_cons] at htotal ⊢
        rw [hspec.total (base + content.length) (by omega), Nat.add_assoc]
      · simp only [List.cons.injEq, true_and]
        exact hspec.changed
      · rcases hkeep with henough | hshort
        · -- nothing changes from here on, so the total stays low enough
          have hidle : pass = ⟨contents, totalChars, 0⟩ :=
            Option.some.inj (hpass.symm.trans (compactPass_idle (.inl henough)))
          rw [hidle]
          exact .inl henough
        · exact hspec.settled.imp_right fun hall => List.forall_mem_cons.mpr ⟨hshort, hall⟩
    · rw [if_neg hkeep] at h
      obtain ⟨-, hlong⟩ := not_or.mp hkeep
      obtain ⟨hout, hle⟩ := truncateTo_of_fits hlong h.1
      obtain ⟨pass, hpass, hspec⟩ := ih h.2
      refine ⟨⟨truncated content cap :: pass.contents, pass.totalChars, pass.compacted + 1⟩,
        ?_, ?_, ?_, ?_, ?_⟩
      · rw [compactPass, if_neg hkeep, hout, Option.bind_some, hpass, Option.map_some]
      · exact .cons (.inr ⟨Nat.lt_of_not_le hlong, hle⟩) hspec.each
      · intro base htotal
        simp only
        rw [totalLength_cons] at htotal ⊢
        rw [hspec.total (base + (truncated content cap).length) (by omega), Nat.add_assoc]
      · refine iff_of_false (Nat.succ_ne_zero _) fun heq => ?_
        have hsame := (List.cons.inj heq).1
        rw [hsame] at hle
        exact hlong hle
      · exact hspec.settled.imp_right fun hall => List.forall_mem_cons.mpr ⟨hle, hall⟩

theorem passFits_of_forall (enough : ℕ → Bool)
    (h : ∀ content ∈ contents, content.length ≤ cap ∨ CompactFits content cap) (totalChars : ℕ) :
    PassFits cap enough totalChars contents := by
  induction contents generalizing totalChars with
  | nil => trivial
  | cons content contents ih =>
    rw [List.forall_mem_cons] at h
    unfold PassFits
    by_cases hkeep : enough totalChars = true ∨ content.length ≤ cap
    · rw [if_pos hkeep]
      exact ih h.2 _
    · rw [if_neg hkeep]
      exact ⟨h.1.resolve_left (not_or.mp hkeep).2, ih h.2 _⟩

theorem compactPass_first (h : ∀ content ∈ contents, content.length ≤ cap ∨ CompactFits content cap)
    (totalChars : ℕ) :
    ∃ pass, compactPass cap (fun _ => false) totalChars contents = some pass ∧
      pass.contents = (contents.map fun content => if content.length ≤ cap then content
        else truncated content cap) ∧
      Compacted cap (fun _ => false) totalChars contents pass := by
  obtain ⟨pass, hpass, hspec⟩ := compactPass_spec (passFits_of_forall _ h totalChars)
  refine ⟨pass, hpass, ?_, hspec⟩
  clear hspec
  induction contents generalizing totalChars pass with
  | nil => exact congrArg Pass.contents (Option.some.inj hpass).symm
  | cons content contents ih =>
    rw [List.forall_mem_cons] at h
    rw [compactPass] at hpass
    by_cases hkeep : content.length ≤ cap
    · rw [if_pos (.inr hkeep), Option.map_eq_some_iff] at hpass
      obtain ⟨rest, hrest, rfl⟩ := hpass
      rw [List.map_cons, if_pos hkeep, ← ih h.2 _ _ hrest]
    · rw [if_neg (by simp [hkeep]), (truncateTo_of_fits hkeep (h.1.resolve_left hkeep)).1,
        Option.bind_some, Option.map_eq_some_iff] at hpass
      obtain ⟨rest, hrest, rfl⟩ := hpass
      rw [List.map_cons, if_neg hkeep, ← ih h.2 _ _ hrest]

/-! ## Contents that leave room -/

theorem utf8Size_of_all {cs : List Char}
    (h : cs.all (fun c => decide (c.utf8Size = 1)) = true) : ∀ c ∈ cs, c.utf8Size = 1 :=
  fun c hc => of_decide_eq_true (List.all_eq_true.mp h c hc)

theorem utf8Size_decimal {n : ℕ} : ∀ c ∈ decimal n, c.utf8Size = 1 := by
  intro c hc
  have hdigit := Nat.isDigit_of_mem_toDigits (by decide) (by decide) hc
  have hle := of_decide_eq_true (Bool.and_eq_true_iff.mp hdigit).2
  exact Char.utf8Size_eq_one_iff.mpr (UInt32.le_trans hle (show (57 : UInt32) ≤ 127 by decide))

theorem utf8Size_compactedLine (charCount kept : ℕ) :
    ∀ c ∈ compactedLine charCount kept " (head+tail)", c.utf8Size = 1 := by
  unfold compactedLine
  simp only [List.forall_mem_append]
  refine ⟨⟨⟨⟨⟨⟨?_, utf8Size_decimal⟩, ?_⟩, utf8Size_decimal⟩, ?_⟩, ?_⟩, ?_⟩
  all_goals exact utf8Size_of_all (by decide)

theorem utf8Size_truncated (h : ∀ c ∈ content, c.utf8Size = 1)
    (hlong : cap < content.length) : ∀ c ∈ truncated content cap, c.utf8Size = 1 := by
  have heq := truncateEnds_eq hlong 80 (fun head => compactedLine content.length head "")
    fun head tail => compactedLine content.length (head + tail) " (head+tail)"
  unfold truncated truncateTo
  rw [heq, Option.getD_some]
  obtain ⟨b, hb, -⟩ := headPart_spec content (headChars (cap - (truncationMarker.length + 80)))
  obtain ⟨a, ha, -⟩ := tailPart_spec content (cap - (truncationMarker.length + 80) -
    headChars (cap - (truncationMarker.length + 80)))
  simp only [List.forall_mem_append]
  refine ⟨⟨⟨fun c hc => h c ?_, utf8Size_of_all (by decide)⟩, fun c hc => h c ?_⟩,
    utf8Size_compactedLine _ _⟩
  · rw [hb]
    exact List.mem_append_left _ hc
  · rw [ha]
    exact List.mem_append_right _ hc

theorem compactRoom_of_uniform (h : ∀ c ∈ content, c.utf8Size = 1) (hlong : cap < content.length)
    (hroom : usableChars cap 80 + 82 + digits content.length + digits (usableChars cap 80) ≤ cap) :
    CompactRoom content cap := by
  have husable : usableChars cap 80 ≤ cap := Nat.sub_le _ _
  have hhead := headChars_le (usableChars cap 80)
  exact ⟨wideStart_of_uniform h (by omega), wideEnd_of_uniform h (by omega), hroom⟩

theorem ContentFits.of_truncated (h : ContentFits cap content)
    (hlong : ¬ content.length ≤ cap) : (truncated content cap).length ≤ compactTarget ∨
      CompactFits (truncated content cap) compactTarget := by
  unfold ContentFits at h
  rw [if_neg hlong] at h
  obtain ⟨hroom, hagain⟩ := h
  have hle := (truncateTo_of_fits hlong hroom.fits).2
  by_cases hshort : (truncated content cap).length ≤ compactTarget
  · exact .inl hshort
  have htarget : compactTarget < cap := (Nat.lt_of_not_le hshort).trans_le hle
  refine .inr (compactRoom_of_uniform (utf8Size_truncated
    (hagain.resolve_left (Nat.not_le_of_lt htarget)) (Nat.lt_of_not_le hlong))
    (Nat.lt_of_not_le hshort) ?_).fits
  -- the numbers in the line are not longer than at the cap
  have hcount := digits_mono (hle.trans (Nat.le_of_not_le hlong))
  have husable : usableChars compactTarget 80 ≤ usableChars cap 80 := Nat.sub_le_sub_right htarget.le _
  have hdigits := digits_mono husable
  have hline := hroom.2.2
  unfold usableChars at hline hdigits ⊢
  unfold compactTarget at htarget hdigits ⊢
  omega

theorem truncationsFit_of_forall {budget : ContextBudget}
    (h : ∀ content ∈ contents, ContentFits budget.singleResultMax content) :
    TruncationsFit budget contents := by
  refine ⟨fun content hc => ?_, passFits_of_forall _ (fun out hout => ?_) _⟩
  · by_cases hshort : content.length ≤ budget.singleResultMax
    · exact .inl hshort
    · have hfits := h content hc
      unfold ContentFits at hfits
      rw [if_neg hshort] at hfits
      exact .inr hfits.1.fits
  · obtain ⟨content, hc, rfl⟩ := List.mem_map.mp hout
    by_cases hshort : content.length ≤ budget.singleResultMax
    · have hfits := h content hc
      unfold ContentFits at hfits
      rw [if_pos hshort] at hfits ⊢
      exact hfits.imp_right (·.fits)
    · rw [if_neg hshort]
      exact (h content hc).of_truncated hshort

end Passes

/-! ## The goal of the guard -/

/-- **What the guard is for**: the total is within the headroom or all results are short, no result
has grown, nothing else has changed, the count says whether something has, and a second call has
nothing to do. -/
structure Guarded (budget : ContextBudget) (messages out : List Message) (count : ℕ) : Prop where
  goal : totalLength (toolContents out) ≤ budget.totalToolHeadroomChars ∨
    ∀ content ∈ toolContents out, content.length ≤ compactTarget
  shrinks : List.Forall₂ (fun content content' => content'.length ≤ content.length)
    (toolContents messages) (toolContents out)
  total : totalLength (toolContents out) ≤ totalLength (toolContents messages)
  frame : out.map hideContents = messages.map hideContents
  changed : 0 < count ↔ out ≠ messages
  again : applyContextGuard budget out = some (out, 0)

section Goal

variable {budget : ContextBudget} {messages : List Message} {contents contents' : List (List Char)}

theorem totalLength_le_of_shrinks
    (h : List.Forall₂ (fun content content' => content'.length ≤ content.length) contents contents') :
    totalLength contents' ≤ totalLength contents := by
  induction h with
  | nil => exact le_rfl
  | cons hle _ ih =>
    rw [totalLength_cons, totalLength_cons]
    exact Nat.add_le_add hle ih

theorem shrinks_of_each {cap : ℕ} (h : List.Forall₂ (Compacts cap) contents contents') :
    List.Forall₂ (fun content content' => content'.length ≤ content.length) contents contents' :=
  h.imp fun _ _ hc => hc.length_le

theorem shrinks_trans {a b c : List (List Char)}
    (h₁ : List.Forall₂ (fun content content' => content'.length ≤ content.length) a b)
    (h₂ : List.Forall₂ (fun content content' => content'.length ≤ content.length) b c) :
    List.Forall₂ (fun content content' => content'.length ≤ content.length) a c := by
  induction h₁ generalizing c with
  | nil => exact h₂
  | cons hle _ ih =>
    cases h₂ with
    | cons hle' hrest => exact .cons (hle'.trans hle) (ih hrest)

theorem eq_of_each_of_shrinks {cap : ℕ} (h : List.Forall₂ (Compacts cap) contents contents')
    (hback : List.Forall₂ (fun content content' => content'.length ≤ content.length) contents'
      contents) : contents' = contents := by
  induction h with
  | nil => rfl
  | cons hc _ ih =>
    cases hback with
    | cons hle hrest =>
      rcases hc with rfl | ⟨hlong, hshort⟩
      · rw [ih hrest]
      · omega

theorem forall_le_of_shrinks {cap : ℕ}
    (h : List.Forall₂ (fun content content' => content'.length ≤ content.length) contents contents')
    (hall : ∀ content ∈ contents, content.length ≤ cap) :
    ∀ content ∈ contents', content.length ≤ cap := by
  induction h with
  | nil => exact hall
  | cons hle _ ih =>
    rw [List.forall_mem_cons] at hall ⊢
    exact ⟨hle.trans hall.1, ih hall.2⟩

theorem applyContextGuard_idle
    (h : totalLength (toolContents messages) ≤ budget.totalToolHeadroomChars ∨
      (∀ content ∈ toolContents messages, content.length ≤ budget.singleResultMax) ∧
        ∀ content ∈ toolContents messages, content.length ≤ compactTarget) :
    applyContextGuard budget messages = some (messages, 0) := by
  unfold applyContextGuard
  by_cases htotal : totalLength (toolContents messages) ≤ budget.totalToolHeadroomChars
  · exact if_pos htotal
  · obtain ⟨hcap, htarget⟩ := h.resolve_left htotal
    simp only
    rw [if_neg htotal, compactPass_idle (.inr hcap), Option.bind_some,
      compactPass_idle (.inr htarget), Option.map_some, putContents_self]
    rfl

/-- **The guard reaches its goal**, and has nothing to do a second time, where all contents leave
room for their truncations. -/
theorem guarded_of_fits (h : GuardFits budget messages) :
    ∃ out count, applyContextGuard budget messages = some (out, count) ∧
      Guarded budget messages out count := by
  by_cases htotal : totalLength (toolContents messages) ≤ budget.totalToolHeadroomChars
  · refine ⟨messages, 0, if_pos htotal, .inl htotal, ?_, le_rfl, rfl, ?_, if_pos htotal⟩
    · exact List.forall₂_same.mpr fun _ _ => le_rfl
    · exact iff_of_false (Nat.lt_irrefl 0) fun hne => hne rfl
  obtain ⟨hcaps, hfits⟩ := truncationsFit_of_forall (h.resolve_left htotal)
  obtain ⟨first, hfirst, hcontents, hspec⟩ :=
    compactPass_first hcaps (totalLength (toolContents messages))
  have hfirsttotal : first.totalChars = totalLength first.contents := by
    have := hspec.total 0 (Nat.zero_add _).symm
    omega
  rw [← hcontents, ← hfirsttotal] at hfits
  obtain ⟨second, hsecond, hspec'⟩ := compactPass_spec hfits
  have hsecondtotal : second.totalChars = totalLength second.contents := by
    have := hspec'.total 0 (by omega)
    omega
  have hshrinks := shrinks_trans (shrinks_of_each hspec.each) (shrinks_of_each hspec'.each)
  have hread : toolContents (putContents messages second.contents) = second.contents :=
    toolContents_putContents messages hshrinks.length_eq.symm
  have hsettled : totalLength second.contents ≤ budget.totalToolHeadroomChars ∨
      ∀ content ∈ second.contents, content.length ≤ compactTarget := by
    rw [← hsecondtotal]
    exact hspec'.settled.imp_left of_decide_eq_true
  have hcapped : ∀ content ∈ second.contents, content.length ≤ budget.singleResultMax :=
    forall_le_of_shrinks (shrinks_of_each hspec'.each)
      (hspec.settled.resolve_left Bool.false_ne_true)
  refine ⟨putContents messages second.contents, first.compacted + second.compacted, ?_, ?_⟩
  · unfold applyContextGuard
    simp only
    rw [if_neg htotal, hfirst, Option.bind_some, hsecond, Option.map_some]
  refine ⟨by rwa [hread], by rwa [hread], ?_, map_hideContents_putContents _ _, ?_, ?_⟩
  · rw [hread]
    exact totalLength_le_of_shrinks hshrinks
  · -- what the first pass makes shorter the second one does not make longer again
    rw [Nat.pos_iff_ne_zero, not_iff_not, Nat.add_eq_zero_iff, hspec.changed, hspec'.changed]
    constructor
    · rintro ⟨h₁, h₂⟩
      rw [h₂, h₁, putContents_self]
    · intro heq
      rw [heq] at hread
      have hback := shrinks_of_each hspec'.each
      rw [← hread] at hback
      have hsame := eq_of_each_of_shrinks hspec.each hback
      exact ⟨hsame, by rw [← hread, hsame]⟩
  · refine applyContextGuard_idle ?_
    rw [hread]
    exact hsettled.imp_right fun htarget => ⟨hcapped, htarget⟩

end Goal

/-! ## Two windows -/

/-- A conversation with one tool result of a number of letters. -/
def lettersResult (letters : ℕ) : List Message :=
  [⟨.user, .blocks [.toolResult "call_1" "read" (String.ofList (List.replicate letters 'a')) false
    .completed none], false, none⟩]

theorem toolContents_lettersResult (letters : ℕ) :
    toolContents (lettersResult letters) = [List.replicate letters 'a'] := by
  show [(String.ofList (List.replicate letters 'a')).toList] = _
  rw [String.toList_ofList]

theorem guardFits_lettersResult : GuardFits (.ofTokens 2000) (lettersResult 3100) := by
  have hmax : (ContextBudget.ofTokens 2000).singleResultMax = 2000 := by decide +kernel
  have hlen : (List.replicate 3100 'a').length = 3100 := List.length_replicate
  unfold GuardFits
  rw [toolContents_lettersResult, hmax]
  refine .inr fun content hc => ?_
  rw [List.mem_singleton.mp hc]
  unfold ContentFits
  rw [if_neg (by rw [hlen]; decide)]
  refine ⟨compactRoom_of_uniform (fun c hc => List.eq_of_mem_replicate hc ▸ rfl)
    (by rw [hlen]; decide) ?_, .inl le_rfl⟩
  rw [hlen]
  decide

theorem guarded_lettersResult :
    ∃ out count, applyContextGuard (.ofTokens 2000) (lettersResult 3100) = some (out, count) ∧
      Guarded (.ofTokens 2000) (lettersResult 3100) out count :=
  guarded_of_fits guardFits_lettersResult

/-- In a small window the line is longer than what it replaces. -/
theorem smallWindow_not_guarded :
    ¬ ∀ budget messages, ∃ out count, applyContextGuard budget messages = some (out, count) ∧
      Guarded budget messages out count := by
  intro h
  obtain ⟨out, count, hout, hguarded⟩ := h (.ofTokens 10) (lettersResult 15)
  have hgrown : (applyContextGuard (.ofTokens 10) (lettersResult 15)).map
      (fun result => totalLength (toolContents result.1)) = some 85 := by decide +kernel
  have hbefore : totalLength (toolContents (lettersResult 15)) = 15 := by decide +kernel
  rw [hout, Option.map_some, Option.some_inj] at hgrown
  simp only at hgrown
  have htotal := hguarded.total
  omega

end LibreFang.Context
