import LibreFang.Engine.Model

/-!
# The language of conditions

* `Keyword`, `Literal`, `Formula`: disjunctions of conjunctions of keywords, some of them negated;
  `Formula.render`: a formula as a condition, `Formula.value`: its value for an input.
* `evaluateWithin`: the evaluation with a bound on the depth of its recursion.
* **`evaluate_render`**: the evaluation of a formula gives its value.
* **`evaluateCondition_agrees`**: so it does, and no condition is too deep.
-/

namespace LibreFang.Engine

open Text

/-! ## Formulas -/

/-- A keyword. -/
structure Keyword where
  text : List Char
  plain : ∀ c ∈ text, c.toNat ≠ 0x22 ∧ c.toNat ≠ 0x27 ∧ c ≠ '&' ∧ c ≠ '|'
  unnegated : text.head? ≠ some '!'
  tidy : Tidy text

/-- A keyword, or its negation. -/
structure Literal where
  negated : Bool
  keyword : Keyword

/-- A disjunction of conjunctions. -/
structure Formula where
  clauses : List (List Literal)
  ne_nil : clauses ≠ []
  clause_ne_nil : ∀ clause ∈ clauses, clause ≠ []

/-- The literal as a condition. -/
def Literal.render (l : Literal) : List Char :=
  if l.negated then '!' :: l.keyword.text else l.keyword.text

/-- Conditions put together by an operator, with blanks around it. -/
def join (blanks operator : List Char) (parts : List (List Char)) : List Char :=
  (blanks ++ operator ++ blanks).intercalate parts

/-- The conjunction as a condition. -/
def renderClause (blanks : List Char) (clause : List Literal) : List Char :=
  join blanks "&&".toList (clause.map Literal.render)

/-- The formula as a condition. -/
def Formula.render (blanks : List Char) (f : Formula) : List Char :=
  join blanks "||".toList (f.clauses.map (renderClause blanks))

/-- A keyword means that it occurs in the input, in lower case. -/
def Literal.value (env : Env) (input : String) (l : Literal) : Bool :=
  l.negated ^^ containsStr input (env.toLowercase (String.ofList l.keyword.text))

/-- The value of the formula. -/
def Formula.value (env : Env) (input : String) (f : Formula) : Bool :=
  f.clauses.any fun clause => clause.all (Literal.value env input)

/-! ## The splitter -/

/-- The text has no quotation mark, and not the character of the operator. -/
def Free (x : Char) (s : List Char) : Prop :=
  ∀ c ∈ s, c.toNat ≠ 0x22 ∧ c.toNat ≠ 0x27 ∧ c ≠ x

theorem free_of_all {x : Char} {s : List Char}
    (h : (s.all fun c => decide (c.toNat ≠ 0x22 ∧ c.toNat ≠ 0x27 ∧ c ≠ x)) = true) : Free x s :=
  fun c hc => of_decide_eq_true (List.all_eq_true.mp h c hc)

theorem Free.append {x : Char} {s t : List Char} (hs : Free x s) (ht : Free x t) :
    Free x (s ++ t) := by
  intro c hc
  rcases List.mem_append.mp hc with hc | hc
  · exact hs c hc
  · exact ht c hc

variable {x : Char} {blanks : List Char}

theorem free_of_blank (hx : isWhitespace x = false) (h : ∀ c ∈ blanks, isWhitespace c = true) :
    Free x blanks := by
  intro c hc
  have hblank := h c hc
  refine ⟨fun hquote => ?_, fun hquote => ?_, ?_⟩
  · rw [isWhitespace, hquote] at hblank
    cases hblank
  · rw [isWhitespace, hquote] at hblank
    cases hblank
  · rintro rfl
    cases hx.symm.trans hblank

theorem splitScan_free {s : List Char} (h : Free x s) (current rest : List Char) :
    splitScan [x, x] 0 none current (s ++ rest) =
      splitScan [x, x] 0 none (s.reverse ++ current) rest := by
  induction s generalizing current with
  | nil => rfl
  | cons c s ih =>
    obtain ⟨hdouble, hsingle, hne⟩ := h c List.mem_cons_self
    have hrest : Free x s := fun d hd => h d (List.mem_cons_of_mem c hd)
    have hstart : ¬ (none = (none : Option Char) ∧ [x, x].isPrefixOf (c :: (s ++ rest)) = true) := by
      simp [List.isPrefixOf, Ne.symm hne]
    rw [List.cons_append, splitScan, if_neg (by tauto), if_neg hstart, ih hrest, List.reverse_cons,
      List.append_assoc]
    rfl

theorem splitScan_operator (hquote : x.toNat ≠ 0x22 ∧ x.toNat ≠ 0x27) (current rest : List Char) :
    splitScan [x, x] 0 none current ([x, x] ++ rest) =
      current.reverse :: splitScan [x, x] 0 none [] rest := by
  have hstart : none = (none : Option Char) ∧
      [x, x].isPrefixOf (x :: ([x] ++ rest)) = true := by
    simp [List.isPrefixOf]
  rw [List.cons_append, splitScan, if_neg (by tauto), if_pos hstart]
  rfl

variable {parts : List (List Char)}

theorem map_trim_splitScan (hquote : x.toNat ≠ 0x22 ∧ x.toNat ≠ 0x27)
    (hx : isWhitespace x = false) (hblanks : ∀ c ∈ blanks, isWhitespace c = true) (hne : parts ≠ [])
    (htidy : ∀ p ∈ parts, Tidy p) (hfree : ∀ p ∈ parts, Free x p) {current : List Char}
    (hcurrent : ∀ c ∈ current, isWhitespace c = true) :
    (splitScan [x, x] 0 none current (join blanks [x, x] parts)).map trim = parts := by
  induction parts generalizing current with
  | nil => exact absurd rfl hne
  | cons p parts ih =>
    have hp := htidy p List.mem_cons_self
    have hpfree := hfree p List.mem_cons_self
    have hbefore : ∀ c ∈ current.reverse, isWhitespace c = true := fun c hc =>
      hcurrent c (List.mem_reverse.mp hc)
    cases parts with
    | nil =>
      have hscan := splitScan_free hpfree current []
      rw [List.append_nil] at hscan
      have htrim := hp.trim_blanks hbefore isWhitespace_of_mem_nil
      rw [List.append_nil] at htrim
      rw [join, List.intercalate_singleton, hscan, splitScan, List.map_singleton,
        List.reverse_append, List.reverse_reverse, htrim]
    | cons q parts =>
      have hjoin : join blanks [x, x] (p :: q :: parts) =
          (p ++ blanks) ++ ([x, x] ++ (blanks ++ join blanks [x, x] (q :: parts))) := by
        rw [join, List.intercalate_cons_cons, join]
        simp only [List.append_assoc]
      have hblanksFree := free_of_blank hx hblanks
      have hreverse : ∀ c ∈ blanks.reverse ++ [], isWhitespace c = true := by
        rw [List.append_nil]
        exact fun c hc => hblanks c (List.mem_reverse.mp hc)
      have hrest := ih (List.cons_ne_nil q parts)
        (fun r hr => htidy r (List.mem_cons_of_mem p hr))
        (fun r hr => hfree r (List.mem_cons_of_mem p hr)) hreverse
      rw [hjoin, splitScan_free (hpfree.append hblanksFree), splitScan_operator hquote,
        splitScan_free hblanksFree, List.map_cons, hrest, List.reverse_append, List.reverse_reverse,
        ← List.append_assoc, hp.trim_blanks hbefore hblanks]

theorem branches_of_free {s : List Char} (h : Free x s) : branches [x, x] s = [] := by
  have hscan := splitScan_free h [] []
  rw [List.append_nil] at hscan
  have hnone : splitOutsideQuotes s [x, x] = none := by
    rw [splitOutsideQuotes, hscan, splitScan]
    rfl
  rw [branches, hnone]

/-- **The branches of what was put together**, from two parts on. -/
theorem branches_join (hquote : x.toNat ≠ 0x22 ∧ x.toNat ≠ 0x27) (hx : isWhitespace x = false)
    (hblanks : ∀ c ∈ blanks, isWhitespace c = true)
    (hlen : 1 < parts.length) (htidy : ∀ p ∈ parts, Tidy p) (hfree : ∀ p ∈ parts, Free x p) :
    branches [x, x] (join blanks [x, x] parts) = parts := by
  have hne : parts ≠ [] := by
    rintro rfl
    exact absurd hlen (Nat.not_lt_zero 1)
  have hscan := map_trim_splitScan hquote hx hblanks hne htidy hfree isWhitespace_of_mem_nil
  have hcount := congrArg List.length hscan
  rw [List.length_map] at hcount
  have hsplit : splitOutsideQuotes (join blanks [x, x] parts) [x, x] =
      some (splitScan [x, x] 0 none [] (join blanks [x, x] parts)) :=
    if_pos (by rw [hcount]; exact hlen)
  rw [branches, hsplit]
  dsimp only
  rw [hscan, List.filter_eq_self]
  exact fun p hp => decide_eq_true (htidy p hp).ne_nil

theorem tidy_join (operator : List Char) (hne : parts ≠ [])
    (htidy : ∀ p ∈ parts, Tidy p) : Tidy (join blanks operator parts) := by
  induction parts with
  | nil => exact absurd rfl hne
  | cons p parts ih =>
    have hp := htidy p List.mem_cons_self
    cases parts with
    | nil =>
      rw [join, List.intercalate_singleton]
      exact hp
    | cons q parts =>
      rw [join, List.intercalate_cons_cons]
      exact hp.append (ih (List.cons_ne_nil q parts) fun r hr =>
        htidy r (List.mem_cons_of_mem p hr)) _

theorem free_join {y : Char} {operator : List Char} (hblanks : Free y blanks)
    (hoperator : Free y operator) (hfree : ∀ p ∈ parts, Free y p) :
    Free y (join blanks operator parts) := by
  intro c hc
  rcases mem_intercalate hc with hc | ⟨p, hp, hc⟩
  · exact (hblanks.append hoperator).append hblanks c hc
  · exact hfree p hp c hc

variable (env : Env) (input : String)

theorem evaluateCondition_eq (condition : List Char) :
    evaluateCondition env input condition =
      if (branches "||".toList (trim condition)).length > 1 then
        (branches "||".toList (trim condition)).any (evaluateCondition env input)
      else if (branches "&&".toList (trim condition)).length > 1 then
        (branches "&&".toList (trim condition)).all (evaluateCondition env input)
      else
        match trim condition with
        | '!' :: inner => !containsStr input (env.toLowercase (String.ofList (trim inner)))
        | keyword => containsStr input (env.toLowercase (String.ofList keyword)) := by
  have h := evaluateCondition.eq_1 env input condition
  simp only [List.any_subtype, List.all_subtype, List.unattach_attach] at h
  exact h

/-! ## Literals, conjunctions and disjunctions -/

theorem Keyword.free (k : Keyword) : Free '&' k.text ∧ Free '|' k.text :=
  ⟨fun c hc => ⟨(k.plain c hc).1, (k.plain c hc).2.1, (k.plain c hc).2.2.1⟩,
    fun c hc => ⟨(k.plain c hc).1, (k.plain c hc).2.1, (k.plain c hc).2.2.2⟩⟩

theorem Literal.free (l : Literal) : Free '&' l.render ∧ Free '|' l.render := by
  unfold Literal.render
  split
  · constructor
    · intro c hc
      rcases List.mem_cons.mp hc with rfl | hc
      · decide
      · exact l.keyword.free.1 c hc
    · intro c hc
      rcases List.mem_cons.mp hc with rfl | hc
      · decide
      · exact l.keyword.free.2 c hc
  · exact l.keyword.free

theorem Literal.tidy (l : Literal) : Tidy l.render := by
  unfold Literal.render
  split
  · obtain ⟨c, hc, hblank⟩ := l.keyword.tidy.last
    refine ⟨⟨'!', rfl, by decide⟩, c, ?_, hblank⟩
    rw [List.getLast?_cons, hc]
    rfl
  · exact l.keyword.tidy

theorem not_branched : ¬ ([] : List (List Char)).length > 1 := Nat.not_lt_zero 1

theorem evaluate_literal (l : Literal) :
    evaluateCondition env input l.render = l.value env input := by
  rw [evaluateCondition_eq, l.tidy.trim]
  have hor : branches "||".toList l.render = [] := branches_of_free l.free.2
  have hand : branches "&&".toList l.render = [] := branches_of_free l.free.1
  rw [hor, hand, if_neg not_branched, if_neg not_branched]
  unfold Literal.render Literal.value
  cases hneg : l.negated with
  | true =>
    rw [if_pos rfl]
    change (!containsStr input (env.toLowercase (String.ofList (trim l.keyword.text)))) = _
    rw [l.keyword.tidy.trim, Bool.true_xor]
  | false =>
    rw [if_neg Bool.false_ne_true, Bool.false_xor]
    split
    · rename_i inner heq
      exact absurd (congrArg List.head? heq) l.keyword.unnegated
    · rfl

/-- Blanks that a formula is rendered with. -/
def Blank (blanks : List Char) : Prop := ∀ c ∈ blanks, isWhitespace c = true

theorem tidy_renderClause {clause : List Literal} (hne : clause ≠ []) :
    Tidy (renderClause blanks clause) := by
  refine tidy_join _ (fun hnil => hne (List.map_eq_nil_iff.mp hnil)) fun p hp => ?_
  obtain ⟨l, -, rfl⟩ := List.mem_map.mp hp
  exact l.tidy

theorem free_renderClause (hblanks : Blank blanks) (clause : List Literal) :
    Free '|' (renderClause blanks clause) := by
  refine free_join (free_of_blank (by decide) hblanks) (free_of_all (by decide)) fun p hp => ?_
  obtain ⟨l, -, rfl⟩ := List.mem_map.mp hp
  exact l.free.2

theorem all_map_render (clause : List Literal) :
    (clause.map Literal.render).all (evaluateCondition env input) =
      clause.all (Literal.value env input) := by
  rw [List.all_map]
  congr 1
  funext l
  exact evaluate_literal env input l

theorem evaluate_clause (hblanks : Blank blanks) {clause : List Literal} (hne : clause ≠ []) :
    evaluateCondition env input (renderClause blanks clause) =
      clause.all (Literal.value env input) := by
  cases clause with
  | nil => exact absurd rfl hne
  | cons l rest =>
    cases rest with
    | nil =>
      rw [renderClause, join, List.map_singleton, List.intercalate_singleton, evaluate_literal,
        List.all_cons, List.all_nil, Bool.and_true]
    | cons l' rest =>
      have hand : branches "&&".toList (renderClause blanks (l :: l' :: rest)) =
          (l :: l' :: rest).map Literal.render := by
        refine branches_join (by decide) (by decide) hblanks ?_ (fun p hp => ?_) fun p hp => ?_
        · rw [List.length_map, List.length_cons, List.length_cons]
          omega
        · obtain ⟨k, -, rfl⟩ := List.mem_map.mp hp
          exact k.tidy
        · obtain ⟨k, -, rfl⟩ := List.mem_map.mp hp
          exact k.free.1
      have hor : branches "||".toList (renderClause blanks (l :: l' :: rest)) = [] :=
        branches_of_free (free_renderClause hblanks _)
      have hlen : ((l :: l' :: rest).map Literal.render).length > 1 := by
        rw [List.length_map, List.length_cons, List.length_cons]
        omega
      rw [evaluateCondition_eq, (tidy_renderClause hne).trim, hor, hand,
        if_neg not_branched, if_pos hlen, all_map_render]

/-- **The evaluation of a formula** gives its value. -/
theorem evaluate_render (hblanks : Blank blanks) (f : Formula) :
    evaluateCondition env input (f.render blanks) = f.value env input := by
  obtain ⟨clauses, hne, hclauses⟩ := f
  have htidy : ∀ p ∈ clauses.map (renderClause blanks), Tidy p := by
    intro p hp
    obtain ⟨clause, hclause, rfl⟩ := List.mem_map.mp hp
    exact tidy_renderClause (hclauses clause hclause)
  unfold Formula.render Formula.value
  dsimp only
  cases clauses with
  | nil => exact absurd rfl hne
  | cons clause rest =>
    cases rest with
    | nil =>
      rw [join, List.map_singleton, List.intercalate_singleton,
        evaluate_clause env input hblanks (hclauses clause List.mem_cons_self), List.any_cons,
        List.any_nil, Bool.or_false]
    | cons clause' rest =>
      have hlen : ((clause :: clause' :: rest).map (renderClause blanks)).length > 1 := by
        rw [List.length_map, List.length_cons, List.length_cons]
        omega
      have hor : branches "||".toList
          (join blanks "||".toList ((clause :: clause' :: rest).map (renderClause blanks))) =
            (clause :: clause' :: rest).map (renderClause blanks) := by
        refine branches_join (by decide) (by decide) hblanks hlen htidy fun p hp => ?_
        obtain ⟨c, -, rfl⟩ := List.mem_map.mp hp
        exact free_renderClause hblanks c
      have hjoin : Tidy (join blanks "||".toList
          ((clause :: clause' :: rest).map (renderClause blanks))) :=
        tidy_join _ (List.ne_nil_of_length_pos (Nat.lt_trans Nat.zero_lt_one hlen)) htidy
      rw [evaluateCondition_eq, hjoin.trim, hor, if_pos hlen, List.any_map, Bool.eq_iff_iff,
        List.any_eq_true, List.any_eq_true]
      refine exists_congr fun c => and_congr_right fun hc => ?_
      rw [Function.comp_apply, evaluate_clause env input hblanks (hclauses c hc)]

/-! ## Termination -/

/-- `evaluate_condition` with a bound on the depth of its recursion; `none` if it is too small. -/
def evaluateWithin : ℕ → List Char → Option Bool
  | 0, _ => none
  | depth + 1, condition =>
    if (branches "||".toList (trim condition)).length > 1 then
      (branches "||".toList (trim condition)).anyM (evaluateWithin depth)
    else if (branches "&&".toList (trim condition)).length > 1 then
      (branches "&&".toList (trim condition)).allM (evaluateWithin depth)
    else
      match trim condition with
      | '!' :: inner => some (!containsStr input (env.toLowercase (String.ofList (trim inner))))
      | keyword => some (containsStr input (env.toLowercase (String.ofList keyword)))

theorem anyM_some {α : Type} {f : α → Option Bool} {g : α → Bool} {l : List α}
    (h : ∀ a ∈ l, f a = some (g a)) : l.anyM f = some (l.any g) := by
  induction l with
  | nil => rfl
  | cons a l ih =>
    rw [List.anyM_cons, h a List.mem_cons_self, List.any_cons,
      ih fun b hb => h b (List.mem_cons_of_mem a hb)]
    cases g a <;> rfl

theorem allM_some {α : Type} {f : α → Option Bool} {g : α → Bool} {l : List α}
    (h : ∀ a ∈ l, f a = some (g a)) : l.allM f = some (l.all g) := by
  induction l with
  | nil => rfl
  | cons a l ih =>
    rw [List.allM_cons, h a List.mem_cons_self, List.all_cons,
      ih fun b hb => h b (List.mem_cons_of_mem a hb)]
    cases g a <;> rfl

theorem evaluateWithin_eq {depth : ℕ} {condition : List Char} (h : condition.length < depth) :
    evaluateWithin env input depth condition = some (evaluateCondition env input condition) := by
  induction depth generalizing condition with
  | zero => exact absurd h (Nat.not_lt_zero _)
  | succ depth ih =>
    have hdeep (operator : List Char) : ∀ p ∈ branches operator (trim condition),
        evaluateWithin env input depth p = some (evaluateCondition env input p) := by
      intro p hp
      have hshort := length_of_mem_branches hp
      have htrim := length_trim_le condition
      exact ih (by omega)
    rw [evaluateWithin, evaluateCondition_eq]
    split_ifs
    · exact anyM_some (hdeep _)
    · exact allM_some (hdeep _)
    · split <;> rfl

/-- **The evaluation agrees with the grammar**, and ends for every condition. -/
theorem evaluateCondition_agrees (hblanks : Blank blanks) (f : Formula) :
    evaluateCondition env input (f.render blanks) = f.value env input ∧
      ∀ condition, evaluateWithin env input (condition.length + 1) condition =
        some (evaluateCondition env input condition) :=
  ⟨evaluate_render env input hblanks f, fun condition =>
    evaluateWithin_eq env input (Nat.lt_succ_self condition.length)⟩

/-- A resolver without agents, and the lower case of ASCII letters. -/
def asciiEnv : Env where
  agentResolver _ := none
  reply _ := .timedOut
  toLowercase s := String.ofList (s.toList.map Char.toLower)
  varOrder vars := vars

/-- The keyword `FATAL`. -/
def fatal : Keyword where
  text := ['F', 'A', 'T', 'A', 'L']
  plain := by
    simp only [List.forall_mem_cons]
    exact ⟨by decide, by decide, by decide, by decide, by decide, fun _ h => nomatch h⟩
  unnegated := by decide
  tidy := ⟨⟨'F', rfl, by decide⟩, 'L', rfl, by decide⟩

/-- The keyword `disk`. -/
def disk : Keyword where
  text := ['d', 'i', 's', 'k']
  plain := by
    simp only [List.forall_mem_cons]
    exact ⟨by decide, by decide, by decide, by decide, fun _ h => nomatch h⟩
  unnegated := by decide
  tidy := ⟨⟨'d', rfl, by decide⟩, 'k', rfl, by decide⟩

/-- A disjunction whose first conjunction has a negation. -/
def sampleFormula : Formula where
  clauses := [[⟨false, disk⟩, ⟨true, fatal⟩], [⟨false, fatal⟩]]
  ne_nil := List.cons_ne_nil _ _
  clause_ne_nil := by
    intro clause h
    rcases List.mem_cons.mp h with rfl | h
    · exact List.cons_ne_nil _ _
    · obtain rfl := List.mem_singleton.mp h
      exact List.cons_ne_nil _ _

theorem evaluateCondition_agrees_sample :
    sampleFormula.render [' '] = "disk && !FATAL || FATAL".toList ∧
      evaluateCondition asciiEnv "disk full" (sampleFormula.render [' ']) = true := by
  have hblank : Blank [' '] := fun c hc => by
    obtain rfl := List.mem_singleton.mp hc
    decide
  exact ⟨by decide, (evaluateCondition_agrees asciiEnv "disk full" hblank sampleFormula).1.trans
    (by decide)⟩

end LibreFang.Engine
