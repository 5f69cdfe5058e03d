import LibreFang.Dream.Lock

/-!
# Who holds the consolidation lock

An acquisition writes the file some steps after it has looked at it, and the one who gives the lock
back writes it without looking.

* `Exclusive`: there is one holder whose acquisition is younger than the stale window; `Restores`:
  a rollback leaves the time recorded before its acquisition.
* **`exclusive_of_undisturbed`**: every run of undisturbed steps has one young holder at a time, and
  its rollbacks restore the recorded time.
-/

namespace LibreFang.Dream

open Runs

/-! ## The properties -/

/-- What a caller has made sure of, once it has written its token. -/
def Stage.claim? : Stage → Option Claim
  | .verify c | .held c | .release c | .releaseWrite c | .touch c | .rollback c | .unlink c
  | .rollbackWrite c | .rewind c => some c
  | _ => none

/-- The same as long as the caller has not begun to give the lock back. -/
def Stage.keeps? : Stage → Option Claim
  | .verify c | .held c => some c
  | _ => none

/-- The acquisition is younger than the stale window. -/
def Young (w : World) (c : Claim) : Prop := w.now - c.since < holderStaleMs

/-- There is at most one holder whose acquisition is younger than the stale window. -/
def Exclusive (w : World) : Prop :=
  ∀ (i j : ℕ) (a b : Caller) (c c' : Claim), w.callers[i]? = some a → w.callers[j]? = some b →
    a.stage = .held c → b.stage = .held c' → Young w c → Young w c' → i = j

/-- A rollback that succeeds leaves the time that was recorded immediately before its
acquisition. -/
def Restores (w : World) (e : Event) : Prop :=
  ∀ (k : ℕ) (a : Caller) (c : Claim), e = .act k → w.callers[k]? = some a →
    a.stage.claim? = some c → (w.next a.pid a.stage).2 = .rolledBack → (step w e).readLastConsolidatedAt = c.before

/-- The file is as the caller has left it or seen it when the caller writes it. -/
def Stage.Undisturbed (w : World) (pid : Pid) : Stage → Prop
  | .write prior =>
    w.file.map (·.mtime) = prior ∧ ∀ f ∈ w.file, ¬ w.Held f.mtime f.body.pid
  | .releaseWrite c | .unlink c | .rollbackWrite c =>
    w.file.map (·.body) = some (.token pid c.uuid)
  | .touch _ | .rewind _ => w.file.map (·.body) = some .empty
  | _ => True

instance (w : World) (pid : Pid) : DecidablePred (Stage.Undisturbed w pid) := fun stage => by
  unfold Stage.Undisturbed
  split <;> infer_instance

/-- A step finds the file as its caller has left it or seen it. -/
def Undisturbed (w : World) : Event → Prop
  | .act k => ∀ a ∈ w.callers[k]?, a.stage.Undisturbed w a.pid
  | _ => True

instance (w : World) : DecidablePred (Undisturbed w)
  | .act k => inferInstanceAs (Decidable (∀ a ∈ w.callers[k]?, a.stage.Undisturbed w a.pid))
  | .tryAcquire _ | .release _ | .rollback _ | .tick _ | .spawn _ | .exit _ => isTrue trivial

/-! ## The invariant -/

/-- Nobody keeps a young lock. -/
def Vacant (w : World) : Prop := ∀ a ∈ w.callers, ∀ c, a.stage.keeps? = some c → ¬ Young w c

/-- A young holder is the one that the file names. -/
structure Sound (w : World) : Prop where
  alive : ∀ a ∈ w.callers, a.stage ≠ .gone → a.pid ∈ w.alive
  drawn : ∀ a ∈ w.callers, ∀ c, a.stage.claim? = some c → c.uuid < w.drawn
  prior : ∀ a ∈ w.callers, ∀ c, a.stage.claim? = some c → c.prior = c.before
  unlink : ∀ a ∈ w.callers, ∀ c, a.stage = .unlink c → c.prior = 0
  unique : ∀ (i j : ℕ) (a b : Caller) (c c' : Claim), w.callers[i]? = some a →
    w.callers[j]? = some b → a.stage.claim? = some c → b.stage.claim? = some c' → c.uuid = c'.uuid → i = j
  keeps : ∀ a ∈ w.callers, ∀ c, a.stage.keeps? = some c → Young w c →
    w.file = some ⟨.token a.pid c.uuid, c.since⟩

theorem Stage.claim?_of_keeps? {s : Stage} {c : Claim} (h : s.keeps? = some c) :
    s.claim? = some c := by
  cases s <;> first | exact h | cases h

/-- A caller after a step that gives it no new claim. -/
structure Caller.Follows (a b : Caller) : Prop where
  pid : a.pid = b.pid
  claim : ∀ c, a.stage.claim? = some c → b.stage.claim? = some c
  keeps : ∀ c, a.stage.keeps? = some c → b.stage.keeps? = some c
  unlink : ∀ c, a.stage = .unlink c → c.prior = 0 ∨ b.stage = .unlink c

theorem Caller.Follows.refl (a : Caller) : a.Follows a :=
  ⟨rfl, fun _ h => h, fun _ h => h, fun _ h => .inr h⟩

theorem Caller.Follows.of_none {a b : Caller} (hpid : a.pid = b.pid)
    (h : a.stage.claim? = none) : a.Follows b := by
  refine ⟨hpid, fun c hc => ?_, fun c hc => ?_, fun c hc => ?_⟩
  · rw [h] at hc
    cases hc
  · rw [Stage.claim?_of_keeps? hc] at h
    cases h
  · rw [hc] at h
    cases h

section Sound

variable {w w' : World} {a b : Caller} {c : Claim} {k : ℕ}

theorem Young.mono (h : Young w' c) (hnow : w.now ≤ w'.now) : Young w c :=
  Nat.lt_of_le_of_lt (Nat.sub_le_sub_right hnow c.since) h

theorem Sound.exclusive (h : Sound w) : Exclusive w := by
  intro i j a b c c' ha hb hheld hheld' hyoung hyoung'
  have hkeeps : a.stage.keeps? = some c := by rw [hheld]; rfl
  have hkeeps' : b.stage.keeps? = some c' := by rw [hheld']; rfl
  have hfile := h.keeps a (List.mem_of_getElem? ha) c hkeeps hyoung
  rw [h.keeps b (List.mem_of_getElem? hb) c' hkeeps' hyoung'] at hfile
  simp only [Option.some.injEq, File.mk.injEq, Body.token.injEq] at hfile
  exact h.unique i j a b c c' ha hb (Stage.claim?_of_keeps? hkeeps) (Stage.claim?_of_keeps? hkeeps')
    hfile.1.2.symm

theorem Sound.follow (h : Sound w)
    (hfollows : ∀ (i : ℕ) (a : Caller), w'.callers[i]? = some a →
      a.stage = .stat ∨ ∃ b, w.callers[i]? = some b ∧ a.Follows b)
    (halive : ∀ a ∈ w'.callers, a.stage ≠ .gone → a.pid ∈ w'.alive)
    (hdrawn : w.drawn ≤ w'.drawn) (hnow : w.now ≤ w'.now)
    (hfile : w'.file = w.file ∨ Vacant w) : Sound w' := by
  have hold : ∀ (i : ℕ) (a : Caller) (c : Claim), w'.callers[i]? = some a → a.stage.claim? = some c →
      ∃ b, w.callers[i]? = some b ∧ a.Follows b := by
    intro i a c ha hclaim
    rcases hfollows i a ha with hstat | hb
    · rw [hstat] at hclaim
      cases hclaim
    · exact hb
  refine ⟨halive, fun a ha c hclaim => ?_, fun a ha c hclaim => ?_, fun a ha c hunlink => ?_, ?_, ?_⟩
  · obtain ⟨i, hi⟩ := List.mem_iff_getElem?.mp ha
    obtain ⟨b, hb, hab⟩ := hold i a c hi hclaim
    exact Nat.lt_of_lt_of_le (h.drawn b (List.mem_of_getElem? hb) c (hab.claim c hclaim)) hdrawn
  · obtain ⟨i, hi⟩ := List.mem_iff_getElem?.mp ha
    obtain ⟨b, hb, hab⟩ := hold i a c hi hclaim
    exact h.prior b (List.mem_of_getElem? hb) c (hab.claim c hclaim)
  · obtain ⟨i, hi⟩ := List.mem_iff_getElem?.mp ha
    obtain ⟨b, hb, hab⟩ := hold i a c hi (by rw [hunlink]; rfl)
    rcases hab.unlink c hunlink with hzero | hunlink'
    · exact hzero
    · exact h.unlink b (List.mem_of_getElem? hb) c hunlink'
  · intro i j a b c c' ha hb hclaim hclaim' huuid
    obtain ⟨a', ha', haa'⟩ := hold i a c ha hclaim
    obtain ⟨b', hb', hbb'⟩ := hold j b c' hb hclaim'
    exact h.unique i j a' b' c c' ha' hb' (haa'.claim c hclaim) (hbb'.claim c' hclaim') huuid
  · intro a ha c hkeeps hyoung
    obtain ⟨i, hi⟩ := List.mem_iff_getElem?.mp ha
    obtain ⟨b, hb, hab⟩ := hold i a c hi (Stage.claim?_of_keeps? hkeeps)
    rcases hfile with hsame | hvacant
    · rw [hsame, hab.pid]
      exact h.keeps b (List.mem_of_getElem? hb) c (hab.keeps c hkeeps) (hyoung.mono hnow)
    · exact absurd (hyoung.mono hnow)
        (hvacant b (List.mem_of_getElem? hb) c (hab.keeps c hkeeps))

/-! ## Writes -/

theorem Sound.vacant (h : Sound w)
    (hfile : ∀ a ∈ w.callers, ∀ c, a.stage.keeps? = some c → Young w c →
      w.file ≠ some ⟨.token a.pid c.uuid, c.since⟩) : Vacant w :=
  fun a ha c hkeeps hyoung => hfile a ha c hkeeps hyoung (h.keeps a ha c hkeeps hyoung)

theorem Sound.vacant_of_not_held (h : Sound w) (hheld : ∀ f ∈ w.file, ¬ w.Held f.mtime f.body.pid) :
    Vacant w := by
  refine h.vacant fun a ha c hkeeps hyoung hfile => hheld _ hfile ⟨hyoung, a.pid, rfl, ?_⟩
  refine h.alive a ha fun hgone => ?_
  rw [hgone] at hkeeps
  cases hkeeps

theorem Sound.vacant_of_empty (h : Sound w) (hempty : w.file.map (·.body) = some .empty) :
    Vacant w := by
  refine h.vacant fun a ha c hkeeps hyoung hfile => ?_
  rw [hfile] at hempty
  cases hempty

theorem Sound.vacant_of_own (h : Sound w) (hk : w.callers[k]? = some a)
    (hclaim : a.stage.claim? = some c) (hkeeps : a.stage.keeps? = none)
    (hown : w.file.map (·.body) = some (.token a.pid c.uuid)) : Vacant w := by
  refine h.vacant fun b hb c' hkeeps' hyoung hfile => ?_
  rw [hfile] at hown
  obtain ⟨i, hi⟩ := List.mem_iff_getElem?.mp hb
  simp only [Option.map_some, Option.some.injEq, Body.token.injEq] at hown
  obtain rfl := h.unique i k b a c' c hi hk (Stage.claim?_of_keeps? hkeeps') hclaim hown.2
  rw [hk] at hi
  cases hi
  rw [hkeeps] at hkeeps'
  cases hkeeps'

theorem getElem?_set_cases {callers : List Caller} {i : ℕ} {x : Caller}
    (hi : (callers.set k b)[i]? = some x) (hk : callers[k]? = some a) :
    i = k ∧ x = b ∨ i ≠ k ∧ callers[i]? = some x := by
  by_cases hik : i = k
  · subst hik
    rw [List.getElem?_set_self (List.getElem?_eq_some_iff.mp hk).1] at hi
    exact .inl ⟨rfl, (Option.some.inj hi).symm⟩
  · rw [List.getElem?_set_ne (Ne.symm hik)] at hi
    exact .inr ⟨hik, hi⟩

theorem Sound.set (h : Sound w) (hk : w.callers[k]? = some a) {stage : Stage}
    (hcallers : w'.callers = w.callers.set k { a with stage })
    (hfollows : ({ a with stage } : Caller).Follows a)
    (hgone : a.stage = .gone → stage = .gone) (halive : w'.alive = w.alive)
    (hnow : w'.now = w.now) (hdrawn : w'.drawn = w.drawn) (hfile : w'.file = w.file ∨ Vacant w) :
    Sound w' := by
  refine h.follow (fun i x hx => .inr ?_) (fun x hx hxgone => ?_) (Nat.le_of_eq hdrawn.symm)
    (Nat.le_of_eq hnow.symm) hfile
  · rw [hcallers] at hx
    rcases getElem?_set_cases hx hk with ⟨rfl, rfl⟩ | ⟨-, hx⟩
    · exact ⟨a, hk, hfollows⟩
    · exact ⟨x, hx, .refl x⟩
  · rw [hcallers] at hx
    rw [halive]
    rcases List.mem_or_eq_of_mem_set hx with hold | rfl
    · exact h.alive x hold hxgone
    · exact h.alive a (List.mem_of_getElem? hk) fun hagone => hxgone (hgone hagone)

/-- **A new acquisition** of a lock that nobody keeps. -/
theorem Sound.write (h : Sound w) (hk : w.callers[k]? = some a) {prior : Option Time}
    (hstage : a.stage = .write prior) (hprior : w.file.map (·.mtime) = prior) (hvacant : Vacant w) :
    Sound { (w.write a.pid prior).1 with
      callers := w.callers.set k { a with stage := (w.write a.pid prior).2 } } := by
  have hold : ∀ x c, x ∈ w.callers → x.stage.claim? = some c → c.uuid ≠ w.drawn :=
    fun x c hx hclaim => Nat.ne_of_lt (h.drawn x hx c hclaim)
  refine ⟨fun x hx hgone => ?_, fun x hx c hclaim => ?_, fun x hx c hclaim => ?_,
    fun x hx c hunlink => ?_, fun i j x y c c' hx hy hclaim hclaim' huuid => ?_,
    fun x hx c hkeeps hyoung => ?_⟩
  · rcases List.mem_or_eq_of_mem_set hx with hx | rfl
    · exact h.alive x hx hgone
    · exact h.alive a (List.mem_of_getElem? hk) (by rw [hstage]; exact nofun)
  · rcases List.mem_or_eq_of_mem_set hx with hx | rfl
    · exact Nat.lt_succ_of_lt (h.drawn x hx c hclaim)
    · cases hclaim
      exact Nat.lt_succ_self _
  · rcases List.mem_or_eq_of_mem_set hx with hx | rfl
    · exact h.prior x hx c hclaim
    · cases hclaim
      unfold World.readLastConsolidatedAt
      rw [← hprior]
      cases w.file <;> rfl
  · rcases List.mem_or_eq_of_mem_set hx with hx | rfl
    · exact h.unlink x hx c hunlink
    · cases hunlink
  · rcases getElem?_set_cases hx hk with ⟨rfl, rfl⟩ | ⟨-, hx'⟩
    · rcases getElem?_set_cases hy hk with ⟨rfl, rfl⟩ | ⟨-, hy'⟩
      · rfl
      · cases hclaim
        exact absurd huuid.symm (hold y c' (List.mem_of_getElem? hy') hclaim')
    · rcases getElem?_set_cases hy hk with ⟨rfl, rfl⟩ | ⟨-, hy'⟩
      · cases hclaim'
        exact absurd huuid (hold x c (List.mem_of_getElem? hx') hclaim)
      · exact h.unique i j x y c c' hx' hy' hclaim hclaim' huuid
  · rcases List.mem_or_eq_of_mem_set hx with hx | rfl
    · exact absurd hyoung (hvacant x hx c hkeeps)
    · cases hkeeps
      rfl

/-! ## Steps -/

theorem Sound.act (h : Sound w) (hundisturbed : Undisturbed w (.act k)) :
    Sound (step w (.act k)) := by
  unfold step
  dsimp only
  cases hk : w.callers[k]? with
  | none => exact h
  | some a =>
    have hown := hundisturbed a hk
    have hmem := List.mem_of_getElem? hk
    obtain ⟨pid, stage⟩ := a
    dsimp only
    have hlook {stage' : Stage} (hclaim : stage'.claim? = none) :
        (⟨pid, stage'⟩ : Caller).Follows ⟨pid, stage⟩ := .of_none rfl hclaim
    cases stage with
    | stat =>
      unfold World.next World.stat
      cases w.file <;> exact h.set hk rfl (hlook rfl) nofun rfl rfl rfl (.inl rfl)
    | read mtime => exact h.set hk rfl (hlook rfl) nofun rfl rfl rfl (.inl rfl)
    | probe mtime holder =>
      dsimp only [World.next, World.probe]
      split <;> exact h.set hk rfl (hlook rfl) nofun rfl rfl rfl (.inl rfl)
    | claim prior =>
      dsimp only [World.next, World.claim]
      split <;> exact h.set hk rfl (hlook rfl) nofun rfl rfl rfl (.inl rfl)
    | write prior => exact h.write hk rfl hown.1 (h.vacant_of_not_held hown.2)
    | verify c =>
      dsimp only [World.next, World.verify]
      split
      · exact h.set hk rfl (hlook rfl) nofun rfl rfl rfl (.inl rfl)
      · split
        · exact h.set hk rfl ⟨rfl, fun _ hc => hc, fun _ hc => hc, nofun⟩ nofun rfl rfl rfl (.inl rfl)
        · exact h.set hk rfl (hlook rfl) nofun rfl rfl rfl (.inl rfl)
    | release c => exact h.set hk rfl ⟨rfl, fun _ hc => hc, nofun, nofun⟩ nofun rfl rfl rfl (.inl rfl)
    | releaseWrite c =>
      exact h.set hk rfl ⟨rfl, fun _ hc => hc, nofun, nofun⟩ nofun rfl rfl rfl
        (.inr (h.vacant_of_own hk rfl rfl hown))
    | touch c =>
      refine h.set hk rfl (hlook ?_) nofun rfl rfl rfl (.inr (h.vacant_of_empty hown))
      dsimp only [World.next]
      split <;> rfl
    | rollback c =>
      dsimp only [World.next]
      split
      · next hzero =>
        refine h.set hk rfl ⟨rfl, fun _ hc => hc, nofun, fun c' hc => ?_⟩ nofun rfl rfl rfl (.inl rfl)
        cases hc
        exact .inl hzero
      · exact h.set hk rfl ⟨rfl, fun _ hc => hc, nofun, nofun⟩ nofun rfl rfl rfl (.inl rfl)
    | unlink c =>
      exact h.set hk rfl (hlook rfl) nofun rfl rfl rfl (.inr (h.vacant_of_own hk rfl rfl hown))
    | rollbackWrite c =>
      exact h.set hk rfl ⟨rfl, fun _ hc => hc, nofun, nofun⟩ nofun rfl rfl rfl
        (.inr (h.vacant_of_own hk rfl rfl hown))
    | rewind c =>
      refine h.set hk rfl (hlook ?_) nofun rfl rfl rfl (.inr (h.vacant_of_empty hown))
      dsimp only [World.next]
      split <;> rfl
    | held c => exact h.set hk rfl (.refl _) nofun rfl rfl rfl (.inl rfl)
    | refused | failed | released | rolledBack =>
      exact h.set hk rfl (.refl _) nofun rfl rfl rfl (.inl rfl)
    | gone => exact h.set hk rfl (.refl _) (fun _ => rfl) rfl rfl rfl (.inl rfl)

theorem Sound.finish (h : Sound w) (k : ℕ) {stage : Claim → Stage}
    (hclaim : ∀ c, (stage c).claim? = some c) (hkeeps : ∀ c, (stage c).keeps? = none)
    (hunlink : ∀ c c', stage c ≠ .unlink c') :
    Sound { w with callers := w.callers.modify k (Caller.finish stage) } := by
  have hfinish (b : Caller) : (b.finish stage).Follows b ∧
      (b.stage = .gone → (b.finish stage).stage = .gone) := by
    unfold Caller.finish
    split
    · next c hheld =>
      refine ⟨⟨rfl, fun c' hc => ?_, fun c' hc => ?_, fun c' hc => absurd hc (hunlink c c')⟩, ?_⟩
      · rw [hheld]
        exact (hclaim c).symm.trans hc
      · rw [hkeeps] at hc
        cases hc
      · rw [hheld]
        exact nofun
    · exact ⟨.refl b, id⟩
  refine h.follow (fun i a ha => .inr ?_) (fun a ha hgone => ?_) (Nat.le_refl _) (Nat.le_refl _)
    (.inl rfl)
  · rw [List.getElem?_modify] at ha
    obtain ⟨b, hb, rfl⟩ := Option.map_eq_some_iff.mp ha
    refine ⟨b, hb, ?_⟩
    split
    · exact (hfinish b).1
    · exact .refl b
  · obtain ⟨i, hi⟩ := List.mem_iff_getElem?.mp ha
    rw [List.getElem?_modify] at hi
    obtain ⟨b, hb, rfl⟩ := Option.map_eq_some_iff.mp hi
    by_cases hki : k = i
    · rw [if_pos hki] at hgone ⊢
      rw [(hfinish b).1.pid]
      exact h.alive b (List.mem_of_getElem? hb) fun hb' => hgone ((hfinish b).2 hb')
    · rw [if_neg hki] at hgone ⊢
      exact h.alive b (List.mem_of_getElem? hb) hgone

/-- **Undisturbed steps keep the invariant.** -/
theorem sound_step (h : Sound w) {e : Event} (hundisturbed : Undisturbed w e) :
    Sound (step w e) := by
  cases e with
  | tryAcquire pid =>
    unfold step
    dsimp only
    split
    · next hpid =>
      refine h.follow (fun i a ha => ?_) (fun a ha hgone => ?_) (Nat.le_refl _) (Nat.le_refl _)
        (.inl rfl)
      · rw [List.getElem?_append] at ha
        split at ha
        · exact .inr ⟨a, ha, .refl a⟩
        · rw [List.mem_singleton.mp (List.mem_of_getElem? ha)]
          exact .inl rfl
      · rcases List.mem_append.mp ha with hold | hnew
        · exact h.alive a hold hgone
        · rwa [List.mem_singleton.mp hnew]
    · exact h
  | act k => exact h.act hundisturbed
  | release k => exact h.finish k (fun _ => rfl) (fun _ => rfl) nofun
  | rollback k => exact h.finish k (fun _ => rfl) (fun _ => rfl) nofun
  | tick ms =>
    exact h.follow (fun i a ha => .inr ⟨a, ha, .refl a⟩) h.alive (Nat.le_refl _)
      (Nat.le_add_right ..) (.inl rfl)
  | spawn pid =>
    exact h.follow (fun i a ha => .inr ⟨a, ha, .refl a⟩)
      (fun a ha hgone => List.mem_cons_of_mem _ (h.alive a ha hgone)) (Nat.le_refl _)
      (Nat.le_refl _) (.inl rfl)
  | exit pid =>
    refine h.follow (fun i a ha => .inr ?_) (fun a ha hgone => ?_) (Nat.le_refl _) (Nat.le_refl _)
      (.inl rfl)
    · rw [show (step w (.exit pid)).callers = w.callers.map (Caller.lose pid) from rfl,
        List.getElem?_map] at ha
      obtain ⟨b, hb, rfl⟩ := Option.map_eq_some_iff.mp ha
      refine ⟨b, hb, ?_⟩
      unfold Caller.lose
      split
      · exact .of_none rfl rfl
      · exact .refl b
    · obtain ⟨b, hb, rfl⟩ := List.mem_map.mp ha
      unfold Caller.lose at hgone ⊢
      split at hgone
      · exact absurd rfl hgone
      · next hpid =>
        rw [if_neg hpid]
        exact List.mem_filter.mpr ⟨h.alive b hb hgone, by simpa using hpid⟩

theorem Sound.restores (h : Sound w) {e : Event} (hundisturbed : Undisturbed w e) :
    Restores w e := by
  rintro k a c rfl hk hclaim hrolledBack
  have hmem := List.mem_of_getElem? hk
  have hown := hundisturbed a hk
  have hprior := h.prior a hmem c hclaim
  unfold step
  dsimp only
  rw [hk]
  obtain ⟨pid, stage⟩ := a
  cases stage with
  | unlink c' =>
    obtain rfl : c' = c := Option.some.inj hclaim
    rw [← hprior, h.unlink _ hmem c' rfl]
    rfl
  | rewind c' =>
    obtain rfl : c' = c := Option.some.inj hclaim
    obtain ⟨f, hf, -⟩ := Option.map_eq_some_iff.mp hown
    rw [← hprior]
    simp [World.next, World.setMtimeMs, World.readLastConsolidatedAt, hf]
  | verify c' =>
    dsimp only [World.next, World.verify] at hrolledBack
    split at hrolledBack
    · cases hrolledBack
    · split at hrolledBack <;> cases hrolledBack
  | touch c' =>
    dsimp only [World.next] at hrolledBack
    split at hrolledBack <;> cases hrolledBack
  | rollback c' =>
    dsimp only [World.next] at hrolledBack
    split at hrolledBack <;> cases hrolledBack
  | held c' => cases hrolledBack
  | release c' => cases hrolledBack
  | releaseWrite c' => cases hrolledBack
  | rollbackWrite c' => cases hrolledBack
  | _ => cases hclaim

end Sound

/-! ## Runs -/

/-- A world in which nobody has called yet. -/
def World.init (file : Option File) (alive : List Pid) (now : Time) : World :=
  ⟨file, alive, [], now, [], 0⟩

theorem sound_init {file : Option File} {alive : List Pid} {now : Time} :
    Sound (.init file alive now) := by
  refine ⟨?_, ?_, ?_, ?_, fun _ _ _ _ _ _ h => ?_, ?_⟩
  all_goals first
    | exact fun _ ha => absurd ha List.not_mem_nil
    | cases h

/-- **Every run of undisturbed steps has at most one young holder** in each state that it reaches,
and its rollbacks restore the recorded time. -/
theorem exclusive_of_undisturbed (file : Option File) (alive : List Pid) (now : Time)
    (es : List Event) (h : Along step Undisturbed (.init file alive now) es) :
    (∀ before rest, es = before ++ rest →
      Exclusive (after step (.init file alive now) before)) ∧
    ∀ before e rest, es = before ++ e :: rest →
      Restores (after step (.init file alive now) before) e := by
  have hsound : ∀ before rest, es = before ++ rest →
      Sound (after step (.init file alive now) before) := by
    rintro before rest rfl
    rw [along_append] at h
    exact invariant (I := Sound) (fun _ _ h hundisturbed => sound_step h hundisturbed) sound_init h.1
  refine ⟨fun before rest hes => (hsound before rest hes).exclusive, fun before e rest hes => ?_⟩
  exact (hsound before _ hes).restores ((along_iff_forall step).mp h before e rest hes)

/-- A process takes the lock, gives it back, and another one fails and rolls back. -/
theorem exclusive_of_two_turns : let es : List Event :=
      [.tryAcquire 1, .act 0, .act 0, .act 0, .act 0, .tick 1000, .release 0, .act 0, .act 0, .act 0,
        .tryAcquire 2, .act 1, .act 1, .act 1, .act 1, .act 1, .act 1, .rollback 1, .act 1, .act 1,
        .act 1]
    ((∀ before rest, es = before ++ rest →
        Exclusive (after step (.init none [1, 2] 5000) before)) ∧
      ∀ before e rest, es = before ++ e :: rest →
        Restores (after step (.init none [1, 2] 5000) before) e) ∧
      (after step (.init none [1, 2] 5000) es).readLastConsolidatedAt = 6000 :=
  ⟨exclusive_of_undisturbed none [1, 2] 5000 _ (by decide), by decide⟩

/-- Two processes look before either writes, and each finds its own token when it looks again. -/
theorem two_holders :
    ¬ ∀ (file : Option File) (alive : List Pid) (now : Time) (es : List Event),
      Exclusive (after step (.init file alive now) es) := by
  intro h
  have := h none [1, 2] 5000
    [.tryAcquire 1, .tryAcquire 2, .act 0, .act 1, .act 0, .act 0, .act 0, .act 1, .act 1, .act 1]
  exact absurd
    (this 0 1 ⟨1, .held ⟨0, 0, 0, 5000⟩⟩ ⟨2, .held ⟨0, 1, 5000, 5000⟩⟩ ⟨0, 0, 0, 5000⟩
      ⟨0, 1, 5000, 5000⟩ (by decide) (by decide) rfl rfl (by decide : 5000 - 5000 < holderStaleMs)
      (by decide : 5000 - 5000 < holderStaleMs))
    (by decide)

end LibreFang.Dream
