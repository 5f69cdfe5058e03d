import Mathlib.Data.List.Basic
import Mathlib.Data.Nat.Basic
import Mathlib.Logic.Basic

/-!
# Runs of a system

A system takes one action after another. A run is a list of actions; a condition on the steps of
a run is checked in the state before each of them.

* `after`: the state a run ends in; `Along P`: every step of the run meets `P`, `along_iff_forall`.
* **`invariant`**: what steps meeting `P` preserve holds after every run along `P`.
* **`along_iff`**: an invariant that a step keeps exactly when it meets `P` holds in every state of
  a run exactly along `P`; `along_iff_of_strengthening` for a property that is not inductive.
* `trace`: what is seen of a run; **`along_trace`**: what a system shows is what a monitor lets
  happen, if every step shows it and the two stay related.
-/

namespace Runs

variable {σ α : Type*} (step : σ → α → σ)

/-- The state after the actions. -/
def after (s : σ) (as : List α) : σ := as.foldl step s

/-- Every action meets `P` in the state before it. -/
def Along (P : σ → α → Prop) : σ → List α → Prop
  | _, [] => True
  | s, a :: as => P s a ∧ Along P (step s a) as

instance decidableAlong (P : σ → α → Prop) [∀ s a, Decidable (P s a)] :
    ∀ s as, Decidable (Along step P s as)
  | _, [] => isTrue trivial
  | s, a :: as =>
    have := decidableAlong P (step s a) as
    inferInstanceAs (Decidable (P s a ∧ Along step P (step s a) as))

@[simp] theorem after_nil (s : σ) : after step s [] = s := rfl

@[simp] theorem after_cons (s : σ) (a : α) (as : List α) :
    after step s (a :: as) = after step (step s a) as := rfl

theorem after_append (s : σ) (as bs : List α) :
    after step s (as ++ bs) = after step (after step s as) bs := List.foldl_append

variable {P : σ → α → Prop} {s : σ}

theorem along_append {as bs : List α} :
    Along step P s (as ++ bs) ↔ Along step P s as ∧ Along step P (after step s as) bs := by
  induction as generalizing s with
  | nil => simp [Along]
  | cons a as ih => rw [List.cons_append, Along, Along, after_cons, ih, and_assoc]

variable {as : List α}

theorem along_iff_forall :
    Along step P s as ↔ ∀ bs a cs, as = bs ++ a :: cs → P (after step s bs) a := by
  constructor
  · rintro h bs a cs rfl
    exact (along_append step |>.mp h).2.1
  · intro h
    induction as generalizing s with
    | nil => trivial
    | cons a as ih =>
      refine ⟨h [] a as rfl, ih fun bs b cs hbc => ?_⟩
      exact h (a :: bs) b cs (by rw [hbc, List.cons_append])

theorem along_and {P Q : σ → α → Prop} (hP : Along step P s as)
    (hQ : Along step Q s as) : Along step (fun s a => P s a ∧ Q s a) s as := by
  induction as generalizing s with
  | nil => trivial
  | cons a as ih => exact ⟨⟨hP.1, hQ.1⟩, ih hP.2 hQ.2⟩

variable {step}

/-- **The invariant rule.** -/
theorem invariant {I : σ → Prop} (hstep : ∀ s a, I s → P s a → I (step s a)) (h : I s)
    (hP : Along step P s as) : I (after step s as) := by
  induction as generalizing s with
  | nil => exact h
  | cons a as ih => exact ih (hstep s a h hP.1) hP.2

/-- **When a step keeps the invariant exactly if it meets `P`**, a run keeps it exactly along `P`. -/
theorem along_iff {I : σ → Prop} {V P : σ → α → Prop}
    (hstep : ∀ s a, I s → V s a → (I (step s a) ↔ P s a)) (h : I s) (hV : Along step V s as) :
    (∀ bs cs, as = bs ++ cs → I (after step s bs)) ↔ Along step P s as := by
  induction as generalizing s with
  | nil =>
    refine ⟨fun _ => trivial, fun _ bs cs hbc => ?_⟩
    rwa [(List.nil_eq_append_iff.mp hbc).1]
  | cons a as ih =>
    obtain ⟨ha, hrest⟩ := hV
    constructor
    · intro hall
      have hI := hall [a] as rfl
      refine ⟨(hstep s a h ha).mp hI, (ih hI hrest).mp fun bs cs hbc => ?_⟩
      exact hall (a :: bs) cs (by rw [hbc, List.cons_append])
    · rintro ⟨hP, hPrest⟩ bs cs hbc
      have hI := (hstep s a h ha).mpr hP
      cases bs with
      | nil => exact h
      | cons b bs =>
        obtain ⟨rfl, rfl⟩ := List.cons.inj hbc
        exact (ih hI hrest).mpr hPrest bs cs rfl

/-- **An inductive strengthening.** When a step from `I` has the property `J` only if it meets `P`,
and then keeps `I`, which has `J`, every state of a run has `J` exactly along `P`. -/
theorem along_iff_of_strengthening {I J : σ → Prop} (hJ : ∀ s, I s → J s)
    (hneed : ∀ s a, I s → J (step s a) → P s a) (hkeep : ∀ s a, I s → P s a → I (step s a))
    (h : I s) : (∀ bs cs, as = bs ++ cs → J (after step s bs)) ↔ Along step P s as := by
  induction as generalizing s with
  | nil =>
    refine ⟨fun _ => trivial, fun _ bs cs hbc => ?_⟩
    rw [(List.nil_eq_append_iff.mp hbc).1]
    exact hJ s h
  | cons a as ih =>
    constructor
    · intro hall
      have hP := hneed s a h (hall [a] as rfl)
      refine ⟨hP, (ih (hkeep s a h hP)).mp fun bs cs hbc => ?_⟩
      exact hall (a :: bs) cs (by rw [hbc, List.cons_append])
    · rintro ⟨hP, hPrest⟩ bs cs hbc
      cases bs with
      | nil => exact hJ s h
      | cons b bs =>
        obtain ⟨rfl, rfl⟩ := List.cons.inj hbc
        exact (ih (hkeep s a h hP)).mpr hPrest bs cs rfl

/-! ## Traces -/

section Traces

variable {γ μ : Type*} (step) (marks : σ → α → List μ)

/-- What is seen of a run. -/
def trace (s : σ) : List α → List μ
  | [] => []
  | a :: as => marks s a ++ trace (step s a) as

variable {step marks}

/-- **A monitor follows a system** in every run, if it follows every step. -/
theorem along_trace {next : γ → μ → γ} {A : γ → μ → Prop} {R : σ → γ → Prop}
    (hstep : ∀ s a g, R s g →
      Along next A g (marks s a) ∧ R (step s a) (after next g (marks s a))) {g : γ} (h :
      R s g) (as : List α) :
    Along next A g (trace step marks s as) ∧
      R (after step s as) (after next g (trace step marks s as)) := by
  induction as generalizing s g with
  | nil => exact ⟨trivial, h⟩
  | cons a as ih =>
    obtain ⟨ha, hR⟩ := hstep s a g h
    obtain ⟨has, hend⟩ := ih hR
    rw [trace, along_append, after_append]
    exact ⟨⟨ha, has⟩, hend⟩

end Traces

end Runs

/-!
## Loops that break by themselves

A loop repeats a round until the round breaks: `round s` is the state after the round that starts
in `s`, and `none` when the loop breaks there.

* `run`: the loop with a bound on the number of rounds, `none` when the bound is reached first.
* **`run_of_measure`**: a loop whose rounds lower a measure breaks, within that many rounds.
-/

namespace Loops

variable {σ : Type*} (round : σ → Option σ)

/-- The state the loop breaks in, when it breaks before the fuel is used up. -/
def run : ℕ → σ → Option σ
  | 0, _ => none
  | fuel + 1, s =>
    match round s with
    | none => some s
    | some s' => run fuel s'

variable {round}

theorem run_of_break (h : round s = none) (fuel : ℕ) : run round (fuel + 1) s = some s := by
  simp only [run, h]

theorem run_of_round {s s' : σ} (h : round s = some s') (fuel : ℕ) :
    run round (fuel + 1) s = run round fuel s' := by
  simp only [run, h]

/-- **A loop whose rounds lower a measure breaks**, with one result for every fuel above the
measure. -/
theorem run_of_measure (μ : σ → ℕ) (hμ : ∀ s s', round s = some s' → μ s' < μ s) (s : σ) :
    ∃ t, round t = none ∧ ∀ fuel, μ s < fuel → run round fuel s = some t := by
  -- induction on the measure, which the first round lowers
  induction h : μ s using Nat.strongRecOn generalizing s with
  | _ n ih =>
    cases hs : round s with
    | none =>
      refine ⟨s, hs, fun fuel hfuel => ?_⟩
      obtain ⟨k, rfl⟩ := Nat.exists_eq_add_of_lt hfuel
      exact run_of_break hs _
    | some s' =>
      have hlt : μ s' < n := h ▸ hμ s s' hs
      obtain ⟨t, ht, hrun⟩ := ih (μ s') hlt s' rfl
      refine ⟨t, ht, fun fuel hfuel => ?_⟩
      obtain ⟨k, rfl⟩ := Nat.exists_eq_add_of_lt hfuel
      rw [run_of_round hs]
      exact hrun _ (by omega)

end Loops
