import Mathlib.Logic.Function.Basic
import Mathlib.Logic.Relation
import Mathlib.Tactic.Tauto

/-!
# The custody of an item

An item waits in a shared map and is backed by a durable row. Workers take it out of the map, put
it back, or settle it, which deletes the row and records a verdict. One worker may wait for the
verdict until its patience ends.

* `Role`: what a worker is about to do with the item; `Act`: what it can do next.
* `Tidy`: **`Tidy.steps`**: an item out of the map is in one hand, and its row follows it.
* `Single`: **`Single.steps`**: without late settling there is one verdict, and everybody has it.
-/

namespace Custody

variable {κ δ : Type*}

/-- What a worker is about to do with the item. -/
inductive Role (δ : Type*)
  /-- nothing -/
  | free
  /-- ask for a new item to be accepted -/
  | fresh
  /-- ask for an item that it holds to be accepted again -/
  | again
  /-- write the row -/
  | storing
  /-- put the item in the map, its row being there -/
  | placing
  /-- wait for the verdict -/
  | waiting
  /-- take the item out of the map, its patience being over -/
  | expired
  /-- put the item back into the map -/
  | carrying
  /-- delete the row of an item that it holds -/
  | deleting (d : δ)
  /-- record the verdict on an item that it holds -/
  | recording (d : δ)
  /-- delete the row of an item that it has not found -/
  | lateDeleting (d : δ)
  /-- record its verdict on an item that it has not found -/
  | lateRecording (d : δ)
  /-- tell the verdict -/
  | sending (d : δ)
  /-- nothing, having told it -/
  | resolved (d : δ)
  /-- nothing, having got it -/
  | returned (d : δ)
  /-- nothing, a new item not having been accepted -/
  | refused

namespace Role

/-- The worker is about to put the item in the map. -/
def Lively : Role δ → Prop
  | fresh | again | storing | placing | carrying => True
  | _ => False

/-- The worker holds the item. -/
def Holds : Role δ → Prop
  | fresh | again | storing | placing | carrying | deleting _ | recording _ => True
  | _ => False

/-- There may be a row of the item that the worker holds. -/
def Backed : Role δ → Prop
  | again | storing | placing | carrying | deleting _ => True
  | _ => False

/-- There must be one. -/
def Stored : Role δ → Prop
  | placing | carrying => True
  | _ => False

/-- The worker has not found the item. -/
def Late : Role δ → Prop
  | lateDeleting _ | lateRecording _ => True
  | _ => False

/-- The item is settled for the worker. -/
def Settled : Role δ → Prop
  | lateRecording _ | sending _ | resolved _ | returned _ | refused => True
  | _ => False

/-- The verdict that the worker has told or got. -/
def verdict : Role δ → Option δ
  | sending d | resolved d | returned d => some d
  | _ => none

/-- What is left of a worker after a crash: whether it was done. -/
def restarted : Role δ → Role δ
  | resolved d => resolved d
  | returned d => returned d
  | refused => refused
  | _ => free

variable {r : Role δ}

theorem holds_of_lively (h : r.Lively) : r.Holds := by
  cases r <;> trivial

theorem holds_of_backed (h : r.Backed) : r.Holds := by
  cases r <;> trivial

theorem lively_of_stored (h : r.Stored) : r.Lively := by
  cases r <;> trivial

end Role

/-- What is stored of the item, and the verdicts on it. -/
structure Store (δ : Type*) where
  inMap : Prop
  row : Prop
  records : List δ

/-- What a worker can do next. -/
inductive Act : Role δ → Store δ → Role δ → Store δ → Prop
  | accept (s) : Act .fresh s .storing s
  | acceptAgain (s) : Act .again s .storing s
  | refuse (s) : Act .fresh s .refused s
  | withdraw (s) : Act .fresh s .free s
  | persist (s) : Act .storing s .placing { s with row := True }
  | place (s) : Act .placing s .waiting { s with inMap := True }
  | leave (s) : Act .placing s .free { s with inMap := True }
  | expire (s) : Act .waiting s .expired s
  | abandon (s) : Act .waiting s .free s
  | retry (s) : s.inMap → Act .expired s .again { s with inMap := False }
  | close (s d) : s.inMap → Act .expired s (.deleting d) { s with inMap := False }
  | take (s d) : s.inMap → Act .free s (.deleting d) { s with inMap := False }
  | carry (s) : s.inMap → Act .free s .carrying { s with inMap := False }
  | putBack (s) : Act .carrying s .free { s with inMap := True }
  | delete (s d) : Act (.deleting d) s (.recording d) { s with row := False }
  | record (s d) : Act (.recording d) s (.sending d) { s with records := d :: s.records }
  | conclude (s d) : Act (.recording d) s (.returned d) { s with records := d :: s.records }
  | lateDelete (s d) : Act (.lateDeleting d) s (.lateRecording d) { s with row := False }
  | lateRecord (s d) :
      Act (.lateRecording d) s (.returned d) { s with records := d :: s.records }
  | tell (s d) : Act (.sending d) s (.resolved d) s
  | forget (s d) : Act (.sending d) s .free s

/-- The item: whether it has ever been submitted, what is stored of it, and the workers. -/
structure Item (κ δ : Type*) where
  known : Prop
  store : Store δ
  role : κ → Role δ

/-- An item nobody has submitted. -/
def Item.unknown : Item κ δ := ⟨False, ⟨False, False, []⟩, fun _ => .free⟩

/-- The item after one worker has acted. -/
def Item.set [DecidableEq κ] (i : Item κ δ) (k : κ) (r : Role δ) (s : Store δ) : Item κ δ :=
  { i with store := s, role := Function.update i.role k r }

section Set

variable [DecidableEq κ] (i : Item κ δ) (k : κ) (r : Role δ) (s : Store δ)

@[simp] theorem Item.set_store : (i.set k r s).store = s := rfl

@[simp] theorem Item.set_role_self : (i.set k r s).role k = r := Function.update_self ..

theorem Item.set_role_ne {l : κ} (h : l ≠ k) : (i.set k r s).role l = i.role l :=
  Function.update_of_ne h ..

theorem Item.set_eq_self : i.set k (i.role k) i.store = i := by
  unfold Item.set
  rw [Function.update_eq_self]

end Set

/-- One step of the system. -/
inductive Step [DecidableEq κ] (late : Prop) : Item κ δ → Item κ δ → Prop
  | act (i : Item κ δ) (k : κ) {r s} : Act (i.role k) i.store r s → Step late i (i.set k r s)
  /-- a new item -/
  | bring (i : Item κ δ) (k : κ) : ¬ i.known →
      Step late i { i.set k .fresh i.store with known := True }
  /-- a verdict reaches the worker that waits for it -/
  | deliver (i : Item κ δ) (k l : κ) (d : δ) : i.role l = .sending d → i.role k = .waiting →
      Step late i (i.set k (.returned d) i.store)
  /-- a worker settles an item that it has not found and that nobody is about to put back -/
  | giveUp (i : Item κ δ) (k : κ) (d : δ) : late → i.role k = .expired → ¬ i.store.inMap →
      (∀ l, ¬ (i.role l).Lively) → Step late i (i.set k (.lateDeleting d) i.store)
  /-- all workers are lost, and the map is filled from the rows -/
  | restart (i : Item κ δ) :
      Step late i ⟨i.known, { i.store with inMap := i.store.row }, fun k => (i.role k).restarted⟩

/-- Any number of steps. -/
abbrev Steps [DecidableEq κ] (late : Prop) : Item κ δ → Item κ δ → Prop :=
  Relation.ReflTransGen (Step late)

/-! ## What an act does for the worker -/

namespace Act

variable {r₀ r : Role δ} {s₀ s : Store δ}

theorem mine (h : Act r₀ s₀ r s) (hmine : r.Holds ∨ s.inMap) : r₀.Holds ∨ s₀.inMap := by
  cases h <;> simp_all [Role.Holds]

theorem either (h : Act r₀ s₀ r s) (hr : r.Holds) (hs : s.inMap) : r₀.Holds ∧ s₀.inMap := by
  cases h <;> simp_all [Role.Holds]

theorem lively (h : Act r₀ s₀ r s) (hmine : r.Lively ∨ s.inMap) : r₀.Lively ∨ s₀.inMap := by
  cases h <;> simp_all [Role.Lively]

theorem late (h : Act r₀ s₀ r s) (hlate : r.Late) : r₀.Late := by
  cases h <;> simp_all [Role.Late]

theorem row_held (h : Act r₀ s₀ r s) (hrow : s.row) :
    s.inMap ∨ r.Backed ∨ s₀.row ∧ ¬ s₀.inMap ∧ ¬ r₀.Backed := by
  cases h <;> simp_all [Role.Backed] <;> tauto

theorem row_new (h : Act r₀ s₀ r s) (hrow : s.row) : s₀.row ∨ r₀.Lively := by
  cases h <;> simp_all [Role.Lively]

theorem row_lost (h : Act r₀ s₀ r s) (hrow : s₀.row) : s.row ∨ r₀.Holds ∨ r₀.Late := by
  cases h <;> simp_all [Role.Holds, Role.Late]

theorem stored (h : Act r₀ s₀ r s) (hr : r.Stored) : s.row ∨ s₀.inMap ∧ s.row = s₀.row := by
  cases h <;> simp_all [Role.Stored]

theorem map_new (h : Act r₀ s₀ r s) (hs : s.inMap) : s₀.inMap ∨ r₀.Stored ∧ s.row = s₀.row := by
  cases h <;> simp_all [Role.Stored]

theorem settled (h : Act r₀ s₀ r s) (hr : s.records ≠ [] ∨ r.Settled) :
    (s₀.records ≠ [] ∨ r₀.Settled) ∨
      ¬ r.Lively ∧ s.inMap = s₀.inMap ∧
        (r₀.Holds ∧ ¬ r₀.Backed ∧ s.row = s₀.row ∨ r₀.Late ∧ ¬ s.row) := by
  cases h <;> simp_all [Role.Settled, Role.Holds, Role.Backed, Role.Lively, Role.Late]

theorem verdict (h : Act r₀ s₀ r s) {d : δ} (hr : r.verdict = some d) :
    r₀.verdict = some d ∨ d ∈ s.records := by
  cases h <;> simp_all [Role.verdict]

theorem records (h : Act r₀ s₀ r s) (hlate : ¬ r₀.Late) :
    s.records = s₀.records ∨ r₀.Holds ∧ ¬ r.Holds ∧ ∃ d, s.records = d :: s₀.records := by
  cases h <;> simp_all [Role.Holds, Role.Late]

theorem refused (h : Act r₀ s₀ r s) (hr : r = .refused) : r₀.Holds ∧ s.records = s₀.records := by
  cases h <;> simp_all [Role.Holds]

end Act

/-! ## One hand -/

/-- The item is settled, and no worker will store or place it again. -/
structure Closed (i : Item κ δ) : Prop where
  notInMap : ¬ i.store.inMap
  noRow : ¬ i.store.row
  notLively : ∀ k, ¬ (i.role k).Lively

/-- The item is in the map or in one hand, and has a row while it is. -/
structure Tidy (i : Item κ δ) : Prop where
  one : ∀ k l, (i.role k).Holds → (i.role l).Holds → k = l
  apart : ∀ k, (i.role k).Holds → ¬ i.store.inMap
  row_held : i.store.row → i.store.inMap ∨ ∃ k, (i.role k).Backed
  map_row : i.store.inMap → i.store.row
  stored_row : ∀ k, (i.role k).Stored → i.store.row
  late_gone : ∀ k, (i.role k).Late → ¬ i.store.inMap ∧ ∀ l, ¬ (i.role l).Lively
  settled : (i.store.records ≠ [] ∨ ∃ k, (i.role k).Settled) → Closed i
  unknown : ¬ i.known → i.store = ⟨False, False, []⟩ ∧ ∀ k, i.role k = .free

namespace Tidy

variable {i : Item κ δ} {k : κ}

theorem of_unknown : Tidy (Item.unknown : Item κ δ) where
  one := fun _ _ h => h.elim
  apart := fun _ h => h.elim
  row_held := fun h => h.elim
  map_row := fun h => h.elim
  stored_row := fun _ h => h.elim
  late_gone := fun _ h => h.elim
  settled := by
    rintro (h | ⟨k, h⟩)
    · exact absurd rfl h
    · exact h.elim
  unknown := fun _ => ⟨rfl, fun _ => rfl⟩

theorem noRow_of_holds (h : Tidy i) (hk : (i.role k).Holds) (hback : ¬ (i.role k).Backed) :
    ¬ i.store.row := by
  intro hrow
  obtain hmap | ⟨l, hl⟩ := h.row_held hrow
  · exact h.apart k hk hmap
  · obtain rfl := h.one l k (Role.holds_of_backed hl) hk
    exact hback hl

theorem notLively_of_holds (h : Tidy i) (hk : (i.role k).Holds) {l : κ} (hl : l ≠ k) :
    ¬ (i.role l).Lively :=
  fun hlively => hl (h.one l k (Role.holds_of_lively hlively) hk)

end Tidy

section Act

variable [DecidableEq κ] {i : Item κ δ} {k : κ} {r : Role δ} {s : Store δ}

theorem forall_set {P : κ → Role δ → Prop} (hself : P k r)
    (hothers : ∀ l, l ≠ k → P l (i.role l)) (l : κ) : P l ((i.set k r s).role l) := by
  by_cases hl : l = k
  · subst hl
    rwa [Item.set_role_self]
  · rw [Item.set_role_ne _ _ _ _ hl]
    exact hothers l hl

theorem Closed.act (h : Closed i) (hact : Act (i.role k) i.store r s) : Closed (i.set k r s) := by
  have hnot : ¬ ((i.role k).Lively ∨ i.store.inMap) :=
    not_or.mpr ⟨h.notLively k, h.notInMap⟩
  refine ⟨fun hmap => hnot (hact.lively (.inr hmap)), fun hrow => ?_, ?_⟩
  · obtain hold | hlively := hact.row_new hrow
    · exact h.noRow hold
    · exact h.notLively k hlively
  · exact forall_set (P := fun _ r => ¬ r.Lively) (fun hr => hnot (hact.lively (.inl hr)))
      fun l _ => h.notLively l

namespace Tidy

variable (h : Tidy i) (hact : Act (i.role k) i.store r s)

include h hact

omit [DecidableEq κ] in
theorem alone_act (hr : r.Holds ∨ s.inMap) {l : κ} (hl : l ≠ k) : ¬ (i.role l).Holds := by
  intro hheld
  obtain hk | hmap := hact.mine hr
  · exact hl (h.one l k hheld hk)
  · exact h.apart l hheld hmap

theorem one_act (l l' : κ) (hl : ((i.set k r s).role l).Holds)
    (hl' : ((i.set k r s).role l').Holds) : l = l' := by
  by_cases hlk : l = k
  · subst hlk
    by_cases hlk' : l' = l
    · exact hlk'.symm
    · rw [Item.set_role_self] at hl
      rw [Item.set_role_ne _ _ _ _ hlk'] at hl'
      exact absurd hl' (h.alone_act hact (.inl hl) hlk')
  · rw [Item.set_role_ne _ _ _ _ hlk] at hl
    by_cases hlk' : l' = k
    · subst hlk'
      rw [Item.set_role_self] at hl'
      exact absurd hl (h.alone_act hact (.inl hl') hlk)
    · rw [Item.set_role_ne _ _ _ _ hlk'] at hl'
      exact h.one l l' hl hl'

theorem apart_act (l : κ) : ((i.set k r s).role l).Holds → ¬ s.inMap := by
  refine forall_set (P := fun _ r => r.Holds → ¬ s.inMap) (fun hr hs => ?_)
    (fun l hl hheld hs => h.alone_act hact (.inr hs) hl hheld) l
  obtain ⟨hk, hmap⟩ := hact.either hr hs
  exact h.apart k hk hmap

theorem row_held_act (hrow : s.row) : s.inMap ∨ ∃ l, ((i.set k r s).role l).Backed := by
  obtain hmap | hback | ⟨hrow₀, hmap₀, hback₀⟩ := hact.row_held hrow
  · exact .inl hmap
  · exact .inr ⟨k, by rwa [Item.set_role_self]⟩
  · obtain ⟨l, hl⟩ := (h.row_held hrow₀).resolve_left hmap₀
    have hlk : l ≠ k := by
      rintro rfl
      exact hback₀ hl
    exact .inr ⟨l, by rwa [Item.set_role_ne _ _ _ _ hlk]⟩

omit [DecidableEq κ] in
theorem map_row_act (hmap : s.inMap) : s.row := by
  obtain hmap₀ | ⟨hstored, hsame⟩ := hact.map_new hmap
  · obtain hrow | hheld | hlate := hact.row_lost (h.map_row hmap₀)
    · exact hrow
    · exact absurd hmap₀ (h.apart k hheld)
    · exact absurd hmap₀ (h.late_gone k hlate).1
  · rw [hsame]
    exact h.stored_row k hstored

theorem stored_row_act (l : κ) : ((i.set k r s).role l).Stored → s.row := by
  refine forall_set (P := fun _ r => r.Stored → s.row) (fun hr => ?_) (fun l hl hstored => ?_) l
  · obtain hrow | ⟨hmap, hsame⟩ := hact.stored hr
    · exact hrow
    · rw [hsame]
      exact h.map_row hmap
  · have hlively := Role.lively_of_stored hstored
    obtain hrow | hheld | hlate := hact.row_lost (h.stored_row l hstored)
    · exact hrow
    · exact absurd hlively (h.notLively_of_holds hheld hl)
    · exact absurd hlively ((h.late_gone k hlate).2 l)

theorem late_gone_act (l : κ) (hl : ((i.set k r s).role l).Late) :
    ¬ s.inMap ∧ ∀ l', ¬ ((i.set k r s).role l').Lively := by
  obtain ⟨l₀, hlate⟩ : ∃ l₀, (i.role l₀).Late := by
    by_cases hlk : l = k
    · subst hlk
      rw [Item.set_role_self] at hl
      exact ⟨l, hact.late hl⟩
    · rw [Item.set_role_ne _ _ _ _ hlk] at hl
      exact ⟨l, hl⟩
  obtain ⟨hmap, hlively⟩ := h.late_gone l₀ hlate
  have hnot : ¬ ((i.role k).Lively ∨ i.store.inMap) := not_or.mpr ⟨hlively k, hmap⟩
  exact ⟨fun hs => hnot (hact.lively (.inr hs)),
    forall_set (P := fun _ r => ¬ r.Lively) (fun hr => hnot (hact.lively (.inl hr)))
      fun l' _ => hlively l'⟩

theorem settled_act (hset : s.records ≠ [] ∨ ∃ l, ((i.set k r s).role l).Settled) :
    Closed (i.set k r s) := by
  -- who was settled before
  have hold : (i.store.records ≠ [] ∨ ∃ l, (i.role l).Settled) → Closed (i.set k r s) :=
    fun hset => (h.settled hset).act hact
  have hmine : s.records ≠ [] ∨ r.Settled → Closed (i.set k r s) := by
    intro hr
    obtain hdone | ⟨hlively, hmap, hnew⟩ := hact.settled hr
    · exact hold (hdone.imp_right fun hk => ⟨k, hk⟩)
    obtain ⟨hheld, hback, hrow⟩ | ⟨hlate, hrow⟩ := hnew
    · refine ⟨fun hs => h.apart k hheld (hmap ▸ hs),
        fun hs => h.noRow_of_holds hheld hback (hrow ▸ hs), ?_⟩
      exact forall_set (P := fun _ r => ¬ r.Lively) hlively
        fun l hl => h.notLively_of_holds hheld hl
    · obtain ⟨hmap₀, hlively₀⟩ := h.late_gone k hlate
      refine ⟨fun hs => hmap₀ (hmap ▸ hs), hrow, ?_⟩
      exact forall_set (P := fun _ r => ¬ r.Lively) hlively fun l _ => hlively₀ l
  obtain hrecords | ⟨l, hl⟩ := hset
  · exact hmine (.inl hrecords)
  · by_cases hlk : l = k
    · subst hlk
      rw [Item.set_role_self] at hl
      exact hmine (.inr hl)
    · rw [Item.set_role_ne _ _ _ _ hlk] at hl
      exact hold (.inr ⟨l, hl⟩)

omit [DecidableEq κ] in
theorem known_act : i.known := by
  by_contra hknown
  obtain ⟨hstore, hrole⟩ := h.unknown hknown
  rw [hstore, hrole k] at hact
  cases hact <;> assumption

theorem act : Tidy (i.set k r s) where
  one := h.one_act hact
  apart := h.apart_act hact
  row_held := h.row_held_act hact
  map_row := h.map_row_act hact
  stored_row := h.stored_row_act hact
  late_gone := h.late_gone_act hact
  settled := h.settled_act hact
  unknown := fun hknown => absurd (h.known_act hact) hknown

end Tidy

end Act

section Step

variable [DecidableEq κ] {i j : Item κ δ} {k : κ} {r : Role δ}

theorem Tidy.set_idle (h : Tidy i) (hk : ¬ (i.role k).Holds) (hr : ¬ r.Holds) (hknown : i.known)
    (hlate : r.Late → ¬ i.store.inMap ∧ ∀ l, ¬ (i.role l).Lively)
    (hsettled : r.Settled → Closed i) : Tidy (i.set k r i.store) := by
  have hlively : ¬ r.Lively := fun hr' => hr (Role.holds_of_lively hr')
  have hclosed : Closed i → Closed (i.set k r i.store) := fun hc =>
    ⟨hc.notInMap, hc.noRow, forall_set (P := fun _ r => ¬ r.Lively) hlively
      fun l _ => hc.notLively l⟩
  have hgone : (¬ i.store.inMap ∧ ∀ l, ¬ (i.role l).Lively) →
      ¬ i.store.inMap ∧ ∀ l, ¬ ((i.set k r i.store).role l).Lively := fun hg =>
    ⟨hg.1, forall_set (P := fun _ r => ¬ r.Lively) hlively fun l _ => hg.2 l⟩
  -- who holds the item holds it before
  have hholds : ∀ l, ((i.set k r i.store).role l).Holds → (i.role l).Holds :=
    forall_set (P := fun l r => r.Holds → (i.role l).Holds) (fun h => absurd h hr) fun _ _ => id
  refine ⟨fun l l' hl hl' => h.one l l' (hholds l hl) (hholds l' hl'),
    fun l hl => h.apart l (hholds l hl), fun hrow => ?_, h.map_row, ?_, ?_, ?_,
    fun hnot => absurd hknown hnot⟩
  · refine (h.row_held hrow).imp_right fun ⟨l, hl⟩ => ⟨l, ?_⟩
    rwa [Item.set_role_ne]
    rintro rfl
    exact hk (Role.holds_of_backed hl)
  · exact forall_set (P := fun _ r => r.Stored → i.store.row)
      (fun hr' => absurd (Role.lively_of_stored hr') hlively) fun l _ => h.stored_row l
  · exact forall_set (P := fun _ r => r.Late → _) (fun hr' => hgone (hlate hr'))
      fun l _ hl => hgone (h.late_gone l hl)
  · rintro (hrecords | ⟨l, hl⟩)
    · exact hclosed (h.settled (.inl hrecords))
    · revert hl
      exact forall_set (P := fun _ r => r.Settled → _) (fun hr' => hclosed (hsettled hr'))
        (fun l _ hl => hclosed (h.settled (.inr ⟨l, hl⟩))) l

theorem Tidy.bring (h : Tidy i) (hknown : ¬ i.known) :
    Tidy { i.set k .fresh i.store with known := True } := by
  obtain ⟨hstore, hrole⟩ := h.unknown hknown
  have hfree : ∀ l, l ≠ k → (i.set k .fresh i.store).role l = .free := fun l hl => by
    rw [Item.set_role_ne _ _ _ _ hl, hrole l]
  have hself : (i.set k .fresh i.store).role k = .fresh := Item.set_role_self ..
  have honly : ∀ l, ((i.set k .fresh i.store).role l).Holds → l = k := by
    intro l hl
    by_contra hlk
    rw [hfree l hlk] at hl
    exact hl
  have hnone : ∀ l, ¬ ((i.set k .fresh i.store).role l).Stored ∧
      ¬ ((i.set k .fresh i.store).role l).Late ∧
        ¬ ((i.set k .fresh i.store).role l).Settled := by
    intro l
    by_cases hlk : l = k
    · rw [hlk, hself]
      exact ⟨id, id, id⟩
    · rw [hfree l hlk]
      exact ⟨id, id, id⟩
  have hnoMap : ¬ i.store.inMap := by
    rw [hstore]
    exact id
  have hnoRow : ¬ i.store.row := by
    rw [hstore]
    exact id
  refine ⟨fun l l' hl hl' => (honly l hl).trans (honly l' hl').symm, fun _ _ => hnoMap,
    fun hrow => absurd hrow hnoRow, fun hmap => absurd hmap hnoMap,
    fun l hl => absurd hl (hnone l).1, fun l hl => absurd hl (hnone l).2.1, ?_,
    fun hnot => absurd trivial hnot⟩
  rintro (hrecords | ⟨l, hl⟩)
  · refine absurd ?_ hrecords
    rw [Item.set_store, hstore]
  · exact absurd hl (hnone l).2.2

theorem restarted_idle (r : Role δ) :
    ¬ r.restarted.Holds ∧ ¬ r.restarted.Late ∧ (r.restarted.Settled → r.Settled) := by
  cases r <;> simp [Role.restarted, Role.Holds, Role.Late, Role.Settled]

omit [DecidableEq κ] in
theorem Tidy.restart (h : Tidy i) :
    Tidy ⟨i.known, { i.store with inMap := i.store.row }, fun k => (i.role k).restarted⟩ := by
  have hidle : ∀ l, ¬ (i.role l).restarted.Holds := fun l => (restarted_idle (i.role l)).1
  refine ⟨fun l _ hl => absurd hl (hidle l), fun l hl => absurd hl (hidle l), .inl, id,
    fun l hl => absurd (Role.holds_of_lively (Role.lively_of_stored hl)) (hidle l),
    fun l hl => absurd hl (restarted_idle (i.role l)).2.1, fun hset => ?_, fun hknown => ?_⟩
  · have hc : Closed i := h.settled
      (hset.imp_right fun ⟨l, hl⟩ => ⟨l, (restarted_idle (i.role l)).2.2 hl⟩)
    exact ⟨hc.noRow, hc.noRow, fun l hl => hidle l (Role.holds_of_lively hl)⟩
  · obtain ⟨hstore, hrole⟩ := h.unknown hknown
    refine ⟨?_, fun l => ?_⟩
    · dsimp only
      rw [hstore]
    · dsimp only
      rw [hrole l]
      rfl

/-- **One step keeps the item in one hand.** -/
theorem Tidy.step {late : Prop} (h : Tidy i) (hstep : Step late i j) : Tidy j := by
  cases hstep with
  | act k hact => exact h.act hact
  | bring k hknown => exact h.bring hknown
  | deliver k l d hl hk =>
    have hclosed : Closed i := h.settled (.inr ⟨l, by rw [hl]; trivial⟩)
    have hknown : i.known := by
      by_contra hknown
      rw [(h.unknown hknown).2 l] at hl
      cases hl
    refine h.set_idle ?_ id hknown (fun hlate => hlate.elim) fun _ => hclosed
    rw [hk]
    exact id
  | giveUp k d hlate hk hmap hlively =>
    have hknown : i.known := by
      by_contra hknown
      rw [(h.unknown hknown).2 k] at hk
      cases hk
    refine h.set_idle ?_ id hknown (fun _ => ⟨hmap, hlively⟩) fun hsettled => hsettled.elim
    rw [hk]
    exact id
  | restart => exact h.restart

theorem Tidy.steps {late : Prop} (h : Tidy i) (hsteps : Steps late i j) : Tidy j := by
  induction hsteps with
  | refl => exact h
  | tail _ hstep ih => exact ih.step hstep

end Step

/-! ## One verdict -/

/-- There is at most one verdict, recorded by the last that held the item, and everybody that has
told or got one has this one. -/
structure Single (i : Item κ δ) : Prop where
  tidy : Tidy i
  punctual : ∀ k, ¬ (i.role k).Late
  records_le : i.store.records.length ≤ 1
  released : i.store.records ≠ [] → ∀ k, ¬ (i.role k).Holds
  told : ∀ k d, (i.role k).verdict = some d → d ∈ i.store.records
  refused : ∀ k, i.role k = .refused → i.store.records = [] ∧ ∀ l, ¬ (i.role l).Holds

theorem Single.of_unknown : Single (Item.unknown : Item κ δ) where
  tidy := .of_unknown
  punctual := fun _ h => h
  records_le := Nat.zero_le 1
  released := fun _ _ h => h
  told := fun _ _ h => by cases h
  refused := fun _ h => by cases h

section Act

variable [DecidableEq κ] {i j : Item κ δ} {k : κ} {r : Role δ} {s : Store δ}

namespace Single

variable (h : Single i)

theorem notHolds_act (hact : Act (i.role k) i.store r s) (hclosed : Closed i)
    (hall : ∀ l, ¬ (i.role l).Holds) (l : κ) : ¬ ((i.set k r s).role l).Holds := by
  refine forall_set (P := fun _ r => ¬ r.Holds) (fun hr => ?_) (fun l _ => hall l) l
  exact (hact.mine (.inl hr)).elim (hall k) hclosed.notInMap

include h

theorem act (hact : Act (i.role k) i.store r s) : Single (i.set k r s) := by
  have hrecords := hact.records (h.punctual k)
  have hmem : ∀ d, d ∈ i.store.records → d ∈ s.records := by
    intro d hd
    obtain hsame | ⟨-, -, d', hnew⟩ := hrecords
    · rwa [hsame]
    · rw [hnew]
      exact List.mem_cons_of_mem _ hd
  refine ⟨h.tidy.act hact, ?_, ?_, ?_, ?_, ?_⟩
  · exact forall_set (P := fun _ r => ¬ r.Late) (fun hr => h.punctual k (hact.late hr))
      fun l _ => h.punctual l
  · rw [Item.set_store]
    obtain hsame | ⟨hheld, -, d, hnew⟩ := hrecords
    · rw [hsame]
      exact h.records_le
    · have hnone : i.store.records = [] := by
        by_contra hne
        exact h.released hne k hheld
      rw [hnew, hnone]
      exact Nat.le_refl 1
  · intro hne
    by_cases hne₀ : i.store.records = []
    · obtain hsame | ⟨hheld, hr, -⟩ := hrecords
      · exact absurd (hsame.trans hne₀) hne
      · exact forall_set (P := fun _ r => ¬ r.Holds) hr
          fun l hl hheld' => hl (h.tidy.one l k hheld' hheld)
    · exact notHolds_act hact (h.tidy.settled (.inl hne₀)) (h.released hne₀)
  · refine forall_set (P := fun _ r => ∀ d, r.verdict = some d → d ∈ s.records) (fun d hd => ?_)
      fun l _ d hd => hmem d (h.told l d hd)
    obtain hold | hnew := hact.verdict hd
    · exact hmem d (h.told k d hold)
    · exact hnew
  · -- a worker that is refused has held the item, and nobody else did
    have hself : r = .refused → s.records = [] ∧ ∀ l, ¬ ((i.set k r s).role l).Holds := by
      intro hr
      obtain ⟨hheld, hsame⟩ := hact.refused hr
      refine ⟨?_, forall_set (P := fun _ r => ¬ r.Holds) (by rw [hr]; exact id)
        fun l hl hheld' => hl (h.tidy.one l k hheld' hheld)⟩
      by_contra hne
      exact h.released (fun hnone => hne (hsame.trans hnone)) k hheld
    refine forall_set (P := fun _ r' => r' = .refused → _) hself fun l hl hrefused => ?_
    obtain ⟨hnone, hall⟩ := h.refused l hrefused
    have hclosed : Closed i := h.tidy.settled (.inr ⟨l, by rw [hrefused]; trivial⟩)
    refine ⟨?_, notHolds_act hact hclosed hall⟩
    obtain hsame | ⟨hheld, -⟩ := hrecords
    · exact hsame.trans hnone
    · exact absurd hheld (hall k)

/-- **One step keeps the verdict single**, if nobody settles what it has not found. -/
theorem step (hstep : Step False i j) : Single j := by
  have htidy : Tidy j := h.tidy.step hstep
  cases hstep with
  | act k hact => exact h.act hact
  | bring k hknown =>
    obtain ⟨hstore, hrole⟩ := h.tidy.unknown hknown
    have hnone : i.store.records = [] := by rw [hstore]
    refine ⟨htidy, ?_, h.records_le, fun hne => absurd hnone hne, ?_, ?_⟩
    · exact forall_set (P := fun _ r => ¬ r.Late) (s := i.store) id fun l _ => h.punctual l
    · exact forall_set (P := fun _ r => ∀ d, r.verdict = some d → d ∈ i.store.records)
        (s := i.store) (fun d hd => by cases hd) fun l _ => h.told l
    · refine forall_set (P := fun _ r => r = .refused → _) (s := i.store)
        (fun hr => by cases hr) fun l _ hr => ?_
      rw [hrole l] at hr
      cases hr
  | deliver k l d hl hk =>
    have hd : d ∈ i.store.records := h.told l d (by rw [hl]; rfl)
    have hne : i.store.records ≠ [] := List.ne_nil_of_mem hd
    refine ⟨htidy, ?_, h.records_le, fun _ => ?_, ?_, ?_⟩
    · exact forall_set (P := fun _ r => ¬ r.Late) (s := i.store) id fun l _ => h.punctual l
    · exact forall_set (P := fun _ r => ¬ r.Holds) id fun l _ => h.released hne l
    · refine forall_set (P := fun _ r => ∀ d, r.verdict = some d → d ∈ i.store.records)
        (fun d' hd' => ?_) fun l _ => h.told l
      obtain rfl := Option.some.inj hd'
      exact hd
    · exact forall_set (P := fun _ r => r = .refused → _) (fun hr => by cases hr)
        fun l _ hr => absurd (h.refused l hr).1 hne
  | giveUp k d hlate => exact hlate.elim
  | restart =>
    have hidle : ∀ l, ¬ (i.role l).restarted.Holds := fun l => (restarted_idle (i.role l)).1
    refine ⟨htidy, fun l => (restarted_idle (i.role l)).2.1, h.records_le, fun _ => hidle, ?_, ?_⟩
    · intro l d hd
      refine h.told l d ?_
      revert hd
      dsimp only
      cases i.role l <;> simp [Role.restarted, Role.verdict]
    · intro l hr
      refine ⟨(h.refused l ?_).1, hidle⟩
      revert hr
      dsimp only
      cases i.role l <;> simp [Role.restarted]

theorem steps (hsteps : Steps False i j) : Single j := by
  induction hsteps with
  | refl => exact h
  | tail _ hstep ih => exact ih.step hstep

end Single

end Act

end Custody
