import LibreFang.Lib.Runs

/-!
# Single-use tokens

A system tells its callers a token, is armed with it, and fires when somebody presents it.

* `Mark`: what is seen of the system. `Guard`: the token in use, and whether the system is armed.
* **`eq_token_of_mem`**: since a firing, one token only is seen.
* **`last_of_armed`**: just before the system is armed it has told the token.
* **`armed_of_fired`**: between two firings the system is armed.
-/

namespace Tokens

open Runs

variable {τ : Type*}

/-- What is seen of the system. -/
inductive Mark (τ : Type*)
  | told (token : τ)
  | armed (token : τ)
  | fired (token : τ)

/-- The token of a mark. -/
def Mark.token : Mark τ → τ
  | .told token | .armed token | .fired token => token

/-- The mark is not a firing. -/
def Mark.Unfired : Mark τ → Prop
  | .fired _ => False
  | _ => True

/-- The token in use, and whether the system is armed with it. -/
structure Guard (τ : Type*) where
  token : Option τ
  isArmed : Bool

/-- What a guard lets happen next. -/
def Guard.Admits (g : Guard τ) : Mark τ → Prop
  | .told token => g.token = none ∨ g.token = some token
  | .armed token => g.token = some token ∧ g.isArmed = false
  | .fired token => g.token = some token ∧ g.isArmed = true

/-- The guard after a mark. -/
def Guard.next (g : Guard τ) : Mark τ → Guard τ
  | .told token => { g with token := some token }
  | .armed _ => { g with isArmed := true }
  | .fired _ => ⟨none, false⟩

variable {g : Guard τ} {marks : List (Mark τ)} {m : Mark τ}

theorem Guard.Admits.token_next (h : g.Admits m) (hm : m.Unfired) :
    (g.next m).token = some m.token := by
  cases m with
  | told token => rfl
  | armed token => exact h.1
  | fired token => exact absurd hm id

theorem Guard.Admits.keeps (h : g.Admits m) (hm : m.Unfired) {token : τ}
    (htoken : g.token = some token) : (g.next m).token = some token := by
  cases m with
  | told token' =>
    rcases h with hnone | hsome
    · exact absurd (htoken.symm.trans hnone) (Option.some_ne_none token)
    · exact hsome.symm.trans htoken
  | armed token' => exact htoken
  | fired token' => exact absurd hm id

theorem token_after (h : Along Guard.next Guard.Admits g marks) (hm : ∀ m ∈ marks, m.Unfired)
    {token : τ} (htoken : g.token = some token) :
    (after Guard.next g marks).token = some token := by
  induction marks generalizing g with
  | nil => exact htoken
  | cons m marks ih =>
    have hkept := h.1.keeps (hm m List.mem_cons_self) htoken
    exact ih h.2 (fun m' hm' => hm m' (List.mem_cons_of_mem m hm')) hkept

/-- **Since a firing, one token only is seen.** -/
theorem eq_token_of_mem (h : Along Guard.next Guard.Admits g marks)
    (hunfired : ∀ m ∈ marks, m.Unfired) (hm : m ∈ marks) :
    (after Guard.next g marks).token = some m.token := by
  obtain ⟨front, rest, rfl⟩ := List.append_of_mem hm
  obtain ⟨-, hfirst, hrest⟩ := (along_append Guard.next).mp h
  rw [after_append, after_cons]
  refine token_after hrest (fun m' hm' => ?_) (hfirst.token_next (hunfired m hm))
  exact hunfired m' (List.mem_append_right front (List.mem_cons_of_mem m hm'))

/-- **Just before the system is armed it has told the token**, if the guard began without a token
or armed. -/
theorem last_of_armed {front rest : List (Mark τ)} {token : τ}
    (hg : g.token = none ∨ g.isArmed = true)
    (h : Along Guard.next Guard.Admits g (front ++ .armed token :: rest)) :
    ∃ before, front = before ++ [.told token] := by
  obtain ⟨-, ⟨htoken, harmed⟩, -⟩ := (along_append Guard.next).mp h
  rcases List.eq_nil_or_concat' front with rfl | ⟨before, m, rfl⟩
  · rcases hg with hnone | hbefore
    · exact absurd (htoken.symm.trans hnone) (Option.some_ne_none token)
    · exact absurd (harmed.symm.trans hbefore) Bool.false_ne_true
  · rw [after_append] at htoken harmed
    cases m with
    | told token' =>
      obtain rfl := Option.some.inj htoken
      exact ⟨before, rfl⟩
    | armed token' => cases harmed
    | fired token' => cases htoken

theorem isArmed_after (h : ∀ token, Mark.armed token ∉ marks) (hg : g.isArmed = false) :
    (after Guard.next g marks).isArmed = false := by
  induction marks generalizing g with
  | nil => exact hg
  | cons m marks ih =>
    refine ih (fun token hmem => h token (List.mem_cons_of_mem m hmem)) ?_
    cases m with
    | told token => exact hg
    | armed token => exact absurd List.mem_cons_self (h token)
    | fired token => rfl

/-- **Between two firings the system is armed.** -/
theorem armed_of_fired {front mid rest : List (Mark τ)} {token token' : τ}
    (h : Along Guard.next Guard.Admits g
      (front ++ .fired token :: (mid ++ .fired token' :: rest))) :
    ∃ armed, Mark.armed armed ∈ mid := by
  by_contra hnever
  obtain ⟨-, -, hmid⟩ := (along_append Guard.next).mp h
  obtain ⟨-, ⟨-, harmed⟩, -⟩ := (along_append Guard.next).mp hmid
  have hnone (armed : τ) : Mark.armed armed ∉ mid := fun hmem => hnever ⟨armed, hmem⟩
  have hidle := isArmed_after hnone
    (rfl : (Guard.next (after Guard.next g front) (.fired token)).isArmed = false)
  exact absurd (hidle.symm.trans harmed) Bool.false_ne_true

end Tokens
