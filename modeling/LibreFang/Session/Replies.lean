import LibreFang.Session.Repaired

/-!
# Where the results of one id go

The results of an id called once, followed through the two passes that place them.

* `isResultFor`, `isResultUnder`: the results of one id, and those under one role.
* **`select_reorder_around`**: the results after phase 2b, in order.
-/

namespace LibreFang.Session

variable {ms : List Message} {x : String}

/-- A result for `x`. -/
def isResultFor (x : String) (rb : Role × ContentBlock) : Bool := rb.2.resultId? == some x

/-- A result for `x` under the role `r`. -/
def isResultUnder (r : Role) (x : String) (rb : Role × ContentBlock) : Bool :=
  rb.1 == r && isResultFor x rb

theorem roleBlocks_isResultFor (m : Message) :
    (roleBlocks m).filter (isResultFor x) =
      (m.blocks.filter fun b => b.resultId? == some x).map (Prod.mk m.role) := by
  obtain ⟨role, content, pinned, timestamp⟩ := m
  cases content with
  | text s => rfl
  | blocks bs => exact List.filter_map

theorem roleBlocks_isResultUnder (m : Message) (r : Role) :
    (roleBlocks m).filter (isResultUnder r x) =
      if m.role = r then (roleBlocks m).filter (isResultFor x) else [] := by
  split_ifs with hr
  · refine List.filter_congr fun rb hrb => ?_
    obtain ⟨-, -, rfl⟩ := List.mem_map.mp hrb
    simp [isResultUnder, hr]
  · refine List.filter_eq_nil_iff.mpr fun rb hrb => ?_
    obtain ⟨-, -, rfl⟩ := List.mem_map.mp hrb
    simp [isResultUnder, hr]

variable {m : Message}

theorem roleBlocks_isResultFor_eq_nil (h : x ∉ toolResultIds m) :
    (roleBlocks m).filter (isResultFor x) = [] := by
  rw [roleBlocks_isResultFor, List.map_eq_nil_iff, List.filter_eq_nil_iff]
  intro b hb hbx
  exact h (mem_toolResultIds.mpr ⟨b, hb, by simpa using hbx⟩)

theorem mem_toolResultIds_iff :
    x ∈ toolResultIds m ↔ (roleBlocks m).filter (isResultFor x) ≠ [] := by
  constructor
  · intro h hnil
    obtain ⟨b, hb, hbx⟩ := mem_toolResultIds.mp h
    rw [roleBlocks_isResultFor, List.map_eq_nil_iff] at hnil
    exact List.filter_eq_nil_iff.mp hnil b hb (by simp [hbx])
  · intro h
    by_contra hn
    exact h (roleBlocks_isResultFor_eq_nil hn)

/-! ## Phase 2a1 -/

/-- A selection that sees the placeholder of `x` only, of all placeholders. -/
def SeesOnly (x : String) (p : Role × ContentBlock → Bool) : Prop :=
  ∀ id, id ≠ x → p (.user, syntheticResult id) = false

theorem seesOnly_isResultFor (x : String) : SeesOnly x (isResultFor x) := fun id hid => by
  simpa [isResultFor, syntheticResult, ContentBlock.resultId?] using hid

theorem seesOnly_isResultUnder (r : Role) (x : String) : SeesOnly x (isResultUnder r x) :=
  fun id hid => by
    have := seesOnly_isResultFor x id hid
    simp [isResultUnder, this]

section Enforce

variable {p : Role × ContentBlock → Bool}

theorem filter_synthetic_of_not_mem (hp : SeesOnly x p) {ids : List String} (h : x ∉ ids) :
    ((ids.map syntheticResult).map (Prod.mk Role.user)).filter p = [] := by
  refine List.filter_eq_nil_iff.mpr fun rb hrb => ?_
  simp only [List.map_map, List.mem_map, Function.comp_apply] at hrb
  obtain ⟨id, hid, rfl⟩ := hrb
  rw [hp id fun he => h (he ▸ hid)]
  exact Bool.false_ne_true

theorem not_mem_missingIds {next : Option Message} (h : x ∉ idsNeeded m) :
    x ∉ missingIds m next := fun hx => h (List.mem_of_mem_filter hx)

theorem select_enforce_of_not_called (hp : SeesOnly x p) (h : x ∉ calls ms) :
    select p (enforceAdjacentToolResultPairs ms).1 = select p ms := by
  fun_induction enforceAdjacentToolResultPairs ms with
  | case1 => rfl
  | case2 m missing hmiss => rfl
  | case3 m missing hmiss =>
    have hx : x ∉ idsNeeded m := fun hx => h (by simp [hx])
    rw [select_cons, select_cons, select_cons, roleBlocks_resultMessage,
      filter_synthetic_of_not_mem hp (not_mem_missingIds hx), List.nil_append]
  | case4 m next rest missing hmiss r ih =>
    rw [select_cons, select_cons, ih fun hx => h (by rw [calls_cons]; exact List.mem_append_right _ hx)]
  | case5 m next rest missing hmiss hrole r ih =>
    have hx : x ∉ idsNeeded m := fun hx => h (by simp [hx])
    rw [select_cons, select_cons, select_cons, select_cons, roleBlocks_extend, List.filter_append,
      hrole, filter_synthetic_of_not_mem hp (not_mem_missingIds hx), List.append_nil,
      ih fun hx => h (by simp [hx])]
  | case6 m next rest missing hmiss hrole r ih =>
    have hx : x ∉ idsNeeded m := fun hx => h (by simp [hx])
    rw [select_cons, select_cons, select_cons, roleBlocks_resultMessage,
      filter_synthetic_of_not_mem hp (not_mem_missingIds hx), List.nil_append,
      ih fun hx => h (by rw [calls_cons]; exact List.mem_append_right _ hx), select_cons]

/-- The reply behind the call after phase 2a1: what was there, or the placeholder. -/
def completed (x : String) (reply : List (Role × ContentBlock)) : List (Role × ContentBlock) :=
  if reply = [] then [(.user, syntheticResult x)] else reply

/-- The reply right behind a call, when the next message is a user message. -/
def replyIn (x : String) (post : List Message) : List (Role × ContentBlock) :=
  select (isResultUnder .user x) post.head?.toList

variable {n : Message}

theorem replyIn_cons_user (hn : n.role = .user) (post : List Message) :
    replyIn x (n :: post) = (roleBlocks n).filter (isResultFor x) := by
  show select _ [n] = _
  rw [select_cons, select_nil, List.append_nil, roleBlocks_isResultUnder, if_pos hn]

theorem replyIn_cons_of_ne (hn : n.role ≠ .user) (post : List Message) :
    replyIn x (n :: post) = [] := by
  show select _ [n] = _
  rw [select_cons, select_nil, List.append_nil, roleBlocks_isResultUnder, if_neg hn]

variable {c : Message}

theorem filter_missing (hx : (idsNeeded c).count x = 1) (next : Option Message) :
    (((missingIds c next).map syntheticResult).map (Prod.mk Role.user)).filter (isResultFor x) =
      if x ∈ adjacentResults next then [] else [(.user, syntheticResult x)] := by
  have hcomp : ((isResultFor x) ∘ Prod.mk Role.user) ∘ syntheticResult = fun id => id == x := by
    funext id
    show (some id == some x) = _
    simp
  rw [List.filter_map, List.filter_map, hcomp, List.filter_beq]
  unfold missingIds
  split_ifs with hadj
  · rw [List.count_eq_zero.mpr fun hmem => by simp [hadj] at hmem]
    rfl
  · rw [List.count_filter (by simpa using hadj), hx]
    rfl

theorem mem_adjacentResults_iff (hn : n.role = .user) (post : List Message) :
    x ∈ adjacentResults (some n) ↔ replyIn x (n :: post) ≠ [] := by
  rw [replyIn_cons_user hn, ← mem_toolResultIds_iff]
  constructor
  · intro h
    obtain ⟨n', hn', -, hxn⟩ := mem_adjacentResults.mp h
    obtain rfl : n = n' := by simpa using hn'
    exact hxn
  · exact fun h => mem_adjacentResults.mpr ⟨n, rfl, hn, h⟩

/-- What phase 2a1 makes of the messages around the call of `x`. -/
structure Completed (x : String) (pre : List Message) (c : Message) (post out : List Message) :
    Prop where
  exists_reply : ∃ pre' n post', out = pre' ++ c :: n :: post' ∧ n.role = .user ∧
    (roleBlocks n).filter (isResultFor x) = completed x (replyIn x post) ∧
    (∀ p, SeesOnly x p → select p pre' = select p pre) ∧
    select (isResultUnder .system x) post' = select (isResultUnder .system x) post ∧
    select (isResultUnder .user x) post' = select (isResultUnder .user x) post.tail

theorem Completed.cons {pre post out : List Message} (front front' : List Message)
    (hfront : ∀ p, SeesOnly x p → select p front' = select p front)
    (h : Completed x pre c post out) : Completed x (front ++ pre) c post (front' ++ out) := by
  obtain ⟨pre', n, post', rfl, hn, hreply, hpre, hpost⟩ := h
  refine ⟨front' ++ pre', n, post', by simp, hn, hreply, fun p hp => ?_, hpost⟩
  rw [select_append, select_append, hfront p hp, hpre p hp]

theorem completed_of_call (hx : (idsNeeded c).count x = 1) {post : List Message}
    (hpost : x ∉ calls post) :
    Completed x [] c post (enforceAdjacentToolResultPairs (c :: post)).1 := by
  have hmem : x ∈ idsNeeded c := List.count_pos_iff.mp (by omega)
  have hkeep := fun {ms : List Message} (h : x ∉ calls ms) (r : Role) =>
    select_enforce_of_not_called (seesOnly_isResultUnder r x) h
  cases post with
  | nil =>
    have hmiss : missingIds c none ≠ [] := by
      refine List.ne_nil_of_mem (a := x) (List.mem_filter.mpr ⟨hmem, ?_⟩)
      simp [adjacentResults]
    simp only [enforceAdjacentToolResultPairs]
    rw [if_neg (by simpa using hmiss)]
    refine ⟨[], resultMessage _, [], rfl, rfl, ?_, fun _ _ => rfl, rfl, rfl⟩
    rw [roleBlocks_resultMessage, filter_missing hx, if_neg (by simp [adjacentResults])]
    rfl
  | cons next rest =>
    have hrest : x ∉ calls rest := fun hx => hpost (by simp [hx])
    simp only [enforceAdjacentToolResultPairs]
    split_ifs with hmiss hrole
    · -- nothing is missing: the next message answers `x`
      have hadj := mem_adjacent_of_not_missing (List.isEmpty_iff.mp hmiss) hmem
      obtain ⟨n, hn, hrole, -⟩ := mem_adjacentResults.mp hadj
      obtain rfl : next = n := by simpa using hn
      have hne := (mem_adjacentResults_iff hrole rest).mp hadj
      have hskip : (enforceAdjacentToolResultPairs (next :: rest)).1 =
          next :: (enforceAdjacentToolResultPairs rest).1 := by
        have hnone : ∀ o, missingIds next o = [] := fun o => by
          unfold missingIds
          rw [idsNeeded_of_role_ne (by simp [hrole])]
          rfl
        cases rest <;> simp [enforceAdjacentToolResultPairs, hnone]
      rw [hskip]
      refine ⟨[], next, _, rfl, hrole, ?_, fun _ _ => rfl, ?_, hkeep hrest _⟩
      · rw [completed, if_neg hne, replyIn_cons_user hrole]
      · rw [hkeep hrest, select_cons, roleBlocks_isResultUnder, if_neg (by simp [hrole]),
          List.nil_append]
    · -- the next message is amended
      refine ⟨[], next.extend _, _, rfl, hrole, ?_, fun _ _ => rfl, ?_, hkeep hrest _⟩
      · rw [roleBlocks_extend, List.filter_append, hrole, filter_missing hx, completed,
          replyIn_cons_user hrole]
        by_cases hadj : x ∈ adjacentResults (some next)
        · have hne := (mem_adjacentResults_iff hrole rest).mp hadj
          rw [replyIn_cons_user hrole] at hne
          rw [if_pos hadj, if_neg hne, List.append_nil]
        · have hnil : replyIn x (next :: rest) = [] := by
            by_contra hne
            exact hadj ((mem_adjacentResults_iff hrole rest).mpr hne)
          rw [replyIn_cons_user hrole] at hnil
          rw [if_neg hadj, if_pos hnil, hnil, List.nil_append]
      · rw [hkeep hrest, select_cons, roleBlocks_isResultUnder, if_neg (by simp [hrole]),
          List.nil_append]
    · -- a message is inserted
      refine ⟨[], resultMessage _, _, rfl, rfl, ?_, fun _ _ => rfl, hkeep hpost _, ?_⟩
      · rw [roleBlocks_resultMessage, filter_missing hx, completed, replyIn_cons_of_ne hrole,
          if_neg (by simp [adjacentResults, hrole]), if_pos rfl]
      · rw [hkeep hpost, select_cons, roleBlocks_isResultUnder, if_neg hrole, List.nil_append,
          List.tail_cons]

/-- **Phase 2a1 completes the reply behind the call**, by induction on the messages before it. -/
theorem enforce_around (hc : c.role = .assistant) (hx : (idsNeeded c).count x = 1)
    {post : List Message} (hpost : x ∉ calls post) :
    ∀ pre : List Message, x ∉ calls pre →
      Completed x pre c post (enforceAdjacentToolResultPairs (pre ++ c :: post)).1
  | [], _ => completed_of_call hx hpost
  | [a], hpre => by
    have ha : x ∉ idsNeeded a := fun hx => hpre (by simp [hx])
    have hbase := completed_of_call hx hpost
    simp only [List.cons_append, List.nil_append, enforceAdjacentToolResultPairs]
    split_ifs with hmiss hrole
    · exact hbase.cons [a] [a] fun _ _ => rfl
    · simp [hc] at hrole
    · refine hbase.cons [a] [a, resultMessage _] fun p hp => ?_
      rw [select_cons, select_cons, roleBlocks_resultMessage,
        filter_synthetic_of_not_mem hp (not_mem_missingIds ha)]
      simp
  | a :: b :: pre, hpre => by
    have ha : x ∉ idsNeeded a := fun hx => hpre (by simp [hx])
    have hb : x ∉ calls (b :: pre) := fun hx => hpre (by rw [calls_cons]; exact List.mem_append_right _ hx)
    have hrest : x ∉ calls pre := fun hx => hpre (by simp [hx])
    simp only [List.cons_append, enforceAdjacentToolResultPairs]
    split_ifs with hmiss hrole
    · exact (enforce_around hc hx hpost (b :: pre) hb).cons [a] [a] fun _ _ => rfl
    · refine (enforce_around hc hx hpost pre hrest).cons [a, b] [a, b.extend _] fun p hp => ?_
      rw [select_cons, select_cons, select_cons, select_cons, roleBlocks_extend, List.filter_append,
        hrole, filter_synthetic_of_not_mem hp (not_mem_missingIds ha), List.append_nil]
    · refine (enforce_around hc hx hpost (b :: pre) hb).cons [a] [a, resultMessage _] fun p hp => ?_
      rw [select_cons, select_cons, roleBlocks_resultMessage,
        filter_synthetic_of_not_mem hp (not_mem_missingIds ha)]
      simp

end Enforce

/-! ## Phase 2b: the removals -/

section Reorder

variable {pre post : List Message} {c n : Message} {t : ℕ}

theorem roleBlocks_removeMisplaced_result (ht : toolUseIndex ms x = some t) {i : ℕ}
    (hm : ms[i]? = some m) (hno : m.role = .assistant → x ∉ toolResultIds m) :
    (roleBlocks (removeMisplaced (misplacedSources ms) i m)).filter (isResultFor x) =
      if i = t + 1 then (roleBlocks m).filter (isResultFor x)
      else (roleBlocks m).filter (isResultUnder .system x) := by
  by_cases hi : i = t + 1
  · rw [if_pos hi]
    unfold removeMisplaced
    split_ifs with hrole
    · refine roleBlocks_filter (fun _ => rfl) fun b hb => ?_
      have hbx : b.resultId? = some x := by simpa [isResultFor] using hb
      simp only [hbx, Option.isSome_some, Bool.true_and, Bool.not_eq_true', decide_eq_false_iff_not]
      intro hsrc
      obtain ⟨s, hs, hne⟩ := mem_misplacedSources hsrc
      rw [ht] at hs
      exact hne (by rw [hi, Option.some.inj hs])
    · rfl
  · rw [if_neg hi, roleBlocks_isResultUnder]
    have hgone : ∀ h : x ∉ toolResultIds (removeMisplaced (misplacedSources ms) i m),
        (roleBlocks (removeMisplaced (misplacedSources ms) i m)).filter (isResultFor x) = [] :=
      roleBlocks_isResultFor_eq_nil
    cases hrole : m.role with
    | system =>
      rw [if_pos rfl, removeMisplaced, if_neg (by simp [hrole])]
    | user =>
      rw [if_neg (by simp), hgone]
      rw [mem_toolResultIds_removeMisplaced]
      rintro ⟨hx, hsrc⟩
      exact hsrc hrole (mem_misplacedSources_of hm hrole hx ht hi)
    | assistant =>
      rw [if_neg (by simp), hgone]
      rw [mem_toolResultIds_removeMisplaced]
      rintro ⟨hx, -⟩
      exact hno hrole hx

/-! ## Phase 2b: what is moved -/

theorem filter_misplacedTarget (ht : toolUseIndex ms x = some t) (i : ℕ) (bs : List ContentBlock) :
    (((bs.filterMap fun b => (misplacedTarget ms i b).map fun target => (i, b, target)).filter
        fun mv => mv.2.2 == t).map fun mv => (Role.user, mv.2.1)).filter (isResultFor x) =
      if i = t + 1 then [] else (bs.filter fun b => b.resultId? == some x).map (Prod.mk .user) := by
  induction bs with
  | nil => simp
  | cons b bs ih =>
    by_cases hb : b.resultId? = some x
    · have htarget : misplacedTarget ms i b = if i = t + 1 then none else some t := by
        simp [misplacedTarget, hb, ht]
      rw [List.filter_cons_of_pos (by simp [hb])]
      split_ifs at htarget ih ⊢ with hi
      · rw [List.filterMap_cons_none (by simp [htarget]), ih]
      · rw [List.filterMap_cons_some (by rw [htarget]; rfl), List.filter_cons_of_pos (by simp),
          List.map_cons, List.filter_cons_of_pos (by simp [isResultFor, hb]), ih, List.map_cons]
    · rw [List.filter_cons_of_neg (by simp [hb]), ← ih]
      cases htarget : misplacedTarget ms i b with
      | none => rw [List.filterMap_cons_none (by simp [htarget])]
      | some s =>
        rw [List.filterMap_cons_some (by rw [htarget]; rfl), List.filter_cons]
        split_ifs
        · rw [List.map_cons, List.filter_cons_of_neg (by simp [isResultFor, hb])]
        · rfl

/-- The moved results for `x`, message by message. -/
def movedFrom (x : String) (t : ℕ) (mi : Message × ℕ) : List (Role × ContentBlock) :=
  if mi.2 = t + 1 then [] else (roleBlocks mi.1).filter (isResultUnder .user x)

theorem filter_movedTo (ht : toolUseIndex ms x = some t) :
    ((movedTo ms t).map (Prod.mk Role.user)).filter (isResultFor x) =
      ms.zipIdx.flatMap (movedFrom x t) := by
  unfold movedTo misplaced
  rw [List.map_map, List.filter_flatMap, List.map_flatMap, List.filter_flatMap]
  refine List.flatMap_congr fun mi _ => ?_
  obtain ⟨m, i⟩ := mi
  simp only [movedFrom, roleBlocks_isResultUnder]
  by_cases hrole : m.role = .user
  · rw [if_pos hrole, if_pos hrole, roleBlocks_isResultFor, hrole]
    exact filter_misplacedTarget ht i m.blocks
  · rw [if_neg hrole, if_neg hrole, ite_self]
    rfl

theorem flatMap_movedFrom (l : List Message) (k : ℕ) (h : ∀ i, k ≤ i → i < k + l.length → i ≠ t + 1) :
    (l.zipIdx k).flatMap (movedFrom x t) = select (isResultUnder .user x) l := by
  induction l generalizing k with
  | nil => rfl
  | cons m l ih =>
    rw [List.zipIdx_cons, List.flatMap_cons, select_cons, ih (k + 1) fun i hi hi' => h i (by omega)
      (by rw [List.length_cons]; omega), movedFrom, if_neg (h k le_rfl (by simp))]

/-- **The moved results of `x`** come from the user messages that do not follow its call. -/
theorem select_movedTo (ht : toolUseIndex (pre ++ c :: n :: post) x = some pre.length)
    (hc : c.role = .assistant) :
    ((movedTo (pre ++ c :: n :: post) pre.length).map (Prod.mk Role.user)).filter (isResultFor x) =
      select (isResultUnder .user x) pre ++ select (isResultUnder .user x) post := by
  rw [filter_movedTo ht, List.zipIdx_append, List.flatMap_append, List.zipIdx_cons,
    List.zipIdx_cons, List.flatMap_cons, List.flatMap_cons,
    flatMap_movedFrom pre 0 (fun i _ hi => by omega),
    flatMap_movedFrom post _ (fun i hi _ => by omega)]
  have hcall : movedFrom x pre.length (c, 0 + pre.length) = [] := by
    simp [movedFrom, roleBlocks_isResultUnder, hc]
  have hreply : movedFrom x pre.length (n, 0 + pre.length + 1) = [] := by
    rw [movedFrom, if_pos (by omega)]
  rw [hcall, hreply, List.nil_append, List.nil_append]

/-! ## Phase 2b: the insertions -/

theorem select_strip_part (ht : toolUseIndex ms x = some t)
    (hno : ∀ m ∈ ms, m.role = .assistant → x ∉ toolResultIds m) (l : List Message) (k : ℕ)
    (hl : ∀ m i, (m, i) ∈ l.zipIdx k → ms[i]? = some m ∧ i ≠ t + 1) :
    select (isResultFor x) ((l.zipIdx k).map fun (m, i) => removeMisplaced (misplacedSources ms) i m) =
      select (isResultUnder .system x) l := by
  induction l generalizing k with
  | nil => rfl
  | cons m l ih =>
    obtain ⟨hm, hk⟩ := hl m k (by simp)
    rw [List.zipIdx_cons, List.map_cons, select_cons, select_cons,
      ih (k + 1) fun m i hmi => hl m i (by simp [hmi]),
      roleBlocks_removeMisplaced_result ht hm (hno m (List.mem_of_getElem? hm)), if_neg hk]

theorem select_filter_nonEmpty (ms : List Message) :
    select (isResultFor x) (ms.filter Message.nonEmpty) = select (isResultFor x) ms := by
  refine select_filter fun m _ hm => roleBlocks_isResultFor_eq_nil fun hx => ?_
  rw [nonEmpty_of_toolResult hx] at hm
  cases hm

/-- Two messages with the same results for `x`. -/
def SameResults (x : String) (m m' : Message) : Prop :=
  (roleBlocks m').filter (isResultFor x) = (roleBlocks m).filter (isResultFor x)

theorem placeAt_shape {kept acc : List Message} (hkept : kept = keptMessages ms) (hp : Paired kept)
    (hr : List.Forall₂ Rewrite kept acc) (t : ℕ) :
    placeAt ms kept t acc = acc ∧ currentPosition (toolUseIndex ms) kept t = none ∨
      ∃ pos n, currentPosition (toolUseIndex ms) kept t = some pos ∧ acc[pos + 1]? = some n ∧
        n.role = .user ∧ placeAt ms kept t acc = acc.set (pos + 1) (n.extend (movedTo ms t)) := by
  unfold placeAt
  cases hpos : currentPosition (toolUseIndex ms) kept t with
  | none => exact Or.inl ⟨rfl, rfl⟩
  | some pos =>
    subst hkept
    obtain ⟨q, hq, hne, -⟩ := currentPosition_spec hpos
    obtain ⟨y, hy⟩ := List.exists_mem_of_ne_nil _ hne
    obtain ⟨n, hn, hrole, -⟩ := mem_adjacentResults.mp (hp pos q hq y hy)
    obtain ⟨n', hn', hnn⟩ := getElem?_of_forall₂ hr hn
    refine Or.inr ⟨pos, n', rfl, hn', hnn.role.trans hrole, ?_⟩
    simp only [placeResults, hn', if_pos (hnn.role.trans hrole)]

theorem sameResults_set {acc : List Message} {i : ℕ} (hn : acc[i]? = some n)
    {bs : List ContentBlock} (hb : (bs.map (Prod.mk n.role)).filter (isResultFor x) = []) :
    List.Forall₂ (SameResults x) acc (acc.set i (n.extend bs)) := by
  induction acc generalizing i with
  | nil => exact .nil
  | cons a acc ih =>
    cases i with
    | zero =>
      obtain rfl : a = n := by simpa using hn
      refine .cons ?_ (List.forall₂_same.mpr fun _ _ => rfl)
      unfold SameResults
      rw [roleBlocks_extend, List.filter_append, hb, List.append_nil]
    | succ i => exact .cons rfl (ih (by simpa using hn))

theorem sameResults_placeAt {kept acc : List Message} (hkept : kept = keptMessages ms)
    (hp : Paired kept) (hr : List.Forall₂ Rewrite kept acc) (ht : toolUseIndex ms x = some t)
    {s : ℕ} (hs : s ≠ t) : List.Forall₂ (SameResults x) acc (placeAt ms kept s acc) := by
  rcases placeAt_shape hkept hp hr s with ⟨h, -⟩ | ⟨pos, n, -, hn, -, h⟩
  · rw [h]
    exact List.forall₂_same.mpr fun _ _ => rfl
  · rw [h]
    refine sameResults_set hn (List.filter_eq_nil_iff.mpr fun rb hrb => ?_)
    obtain ⟨b, hb, rfl⟩ := List.mem_map.mp hrb
    obtain ⟨y, hy, hys⟩ := mem_movedTo hb
    intro hbx
    have hbx : b.resultId? = some x := by simpa [isResultFor] using hbx
    obtain rfl : x = y := by simpa [hbx] using hy
    rw [ht] at hys
    exact hs (Option.some.inj hys).symm

theorem select_foldr_placeAt {kept : List Message} (hkept : kept = keptMessages ms)
    (hpms : Paired ms) (ht : toolUseIndex ms x = some t) {pos : ℕ}
    (hpos : currentPosition (toolUseIndex ms) kept t = some pos) (targets : List ℕ)
    (hnodup : targets.Nodup) :
    select (isResultFor x) ((targets.foldr (placeAt ms kept) kept).take (pos + 2)) =
        select (isResultFor x) (kept.take (pos + 2)) ++
          (if t ∈ targets then ((movedTo ms t).map (Prod.mk Role.user)).filter (isResultFor x)
            else []) ∧
      select (isResultFor x) ((targets.foldr (placeAt ms kept) kept).drop (pos + 2)) =
        select (isResultFor x) (kept.drop (pos + 2)) := by
  have hp : Paired kept := hkept ▸ paired_keptMessages hpms
  induction targets with
  | nil => simp
  | cons s targets ih =>
    obtain ⟨hs, hnodup⟩ := List.nodup_cons.mp hnodup
    obtain ⟨htake, hdrop⟩ := ih hnodup
    have hr : List.Forall₂ Rewrite kept (targets.foldr (placeAt ms kept) kept) := by
      subst hkept
      exact rewrite_foldr hpms targets
    rw [List.foldr_cons]
    generalize targets.foldr (placeAt ms kept) kept = acc at *
    by_cases hst : s = t
    · subst hst
      rw [if_neg hs, List.append_nil] at htake
      rw [if_pos List.mem_cons_self, ← htake, ← hdrop]
      rcases placeAt_shape hkept hp hr s with ⟨-, hnone⟩ | ⟨pos', n, hpos', hn, hrole, h⟩
      · rw [hpos] at hnone
        cases hnone
      · obtain rfl : pos = pos' := by simpa [hpos] using hpos'
        obtain ⟨hlt, hget⟩ := List.getElem?_eq_some_iff.mp hn
        rw [h]
        constructor
        · rw [List.take_set, List.take_succ_eq_append_getElem hlt, hget,
            List.set_append_right _ _ (List.length_take_le _ _), List.length_take_of_le hlt.le, Nat.sub_self]
          simp [hrole]
        · rw [List.drop_set_of_lt (by omega)]
    · have hsame := sameResults_placeAt hkept hp hr ht hst
      rw [select_forall₂ (List.forall₂_take _ hsame), select_forall₂ (List.forall₂_drop _ hsame),
        htake, hdrop]
      exact ⟨by simp [Ne.symm hst], rfl⟩

theorem movedTo_eq_nil (h : t ∉ (List.range ms.length).filter fun t =>
    decide (t ∈ (misplaced ms).map fun mv => mv.2.2)) : movedTo ms t = [] := by
  unfold movedTo
  rw [List.map_eq_nil_iff, List.filter_eq_nil_iff]
  rintro ⟨i, b, s⟩ hmv hs
  obtain rfl : s = t := by simpa using hs
  refine h (List.mem_filter.mpr ⟨?_, decide_eq_true (List.mem_map.mpr ⟨_, hmv, rfl⟩)⟩)
  obtain ⟨-, -, -, -, htarget⟩ := mem_misplaced.mp hmv
  obtain ⟨y, -, hy, -⟩ := misplacedTarget_eq_some.mp htarget
  obtain ⟨-, m, hm, -⟩ := toolUseIndex_eq_some.mp hy
  exact List.mem_range.mpr (List.getElem?_eq_some_iff.mp hm).1

theorem currentPosition_of_call (ht : toolUseIndex ms x = some t) {k : ℕ} {q : Message}
    (hk : (keptMessages ms)[k]? = some q) (hx : x ∈ idsNeeded q) :
    currentPosition (toolUseIndex ms) (keptMessages ms) t = some k := by
  have hcount : (calls (keptMessages ms)).count x ≤ 1 := by
    rw [calls_keptMessages]
    exact (toolUseIndex_eq_some.mp ht).1.le
  cases hpos : currentPosition (toolUseIndex ms) (keptMessages ms) t with
  | none =>
    exfalso
    have hnil := List.getLast?_eq_none_iff.mp hpos
    have hnone := List.filterMap_eq_nil_iff.mp hnil (q, k) (List.mk_mem_zipIdx_iff_getElem?.mpr hk)
    simp only at hnone
    rw [if_pos (List.any_eq_true.mpr ⟨x, hx, by simp [ht]⟩)] at hnone
    cases hnone
  | some pos =>
    obtain ⟨q', hq', -, hcalls⟩ := currentPosition_spec hpos
    rw [index_unique hcount hq' (hcalls x ht) hk hx]

/-- **The results of an id called once after phase 2b**: those of system messages stay, the reply
behind the call stays, and the others of user messages are moved behind it. -/
theorem select_reorder_around (hp : Paired (pre ++ c :: n :: post))
    (hcall : CalledOnce (pre ++ c :: n :: post) x) (hx : x ∈ idsNeeded c) (hn : n.role = .user)
    (hno : ∀ m ∈ pre ++ c :: n :: post, m.role = .assistant → x ∉ toolResultIds m) :
    select (isResultFor x) (reorderToolResults (pre ++ c :: n :: post)).1 =
      select (isResultUnder .system x) pre ++ (roleBlocks n).filter (isResultFor x) ++
        (select (isResultUnder .user x) pre ++ select (isResultUnder .user x) post) ++
        select (isResultUnder .system x) post := by
  have hc : c.role = .assistant := (mem_idsNeeded.mp hx).1
  have ht : toolUseIndex (pre ++ c :: n :: post) x = some pre.length :=
    toolUseIndex_eq_some.mpr ⟨hcall, c, by simp, hx⟩
  have hmoved := select_movedTo ht hc
  generalize hms : pre ++ c :: n :: post = ms at *
  -- the history after the removals, in its four parts
  have hstrip : stripMisplaced ms =
      (pre.zipIdx.map fun (m, i) => removeMisplaced (misplacedSources ms) i m) ++
        removeMisplaced (misplacedSources ms) pre.length c ::
        removeMisplaced (misplacedSources ms) (pre.length + 1) n ::
        (post.zipIdx (pre.length + 2)).map fun (m, i) => removeMisplaced (misplacedSources ms) i m := by
    unfold stripMisplaced
    conv_lhs => rw [← hms]
    simp only [List.zipIdx_append, List.zipIdx_cons, List.map_append, List.map_cons, Nat.zero_add]
    rw [hms]
  have hpre := select_strip_part ht hno pre 0 fun m i hmi => by
    obtain ⟨-, hlt, hget⟩ := List.mem_zipIdx hmi
    rw [← hms]
    constructor
    · rw [List.getElem?_append_left (by omega), hget]
      simp
    · omega
  have hpost := select_strip_part ht hno post (pre.length + 2) fun m i hmi => by
    obtain ⟨hle, hlt, hget⟩ := List.mem_zipIdx hmi
    rw [← hms]
    refine ⟨?_, by omega⟩
    obtain ⟨j, rfl⟩ := Nat.exists_eq_add_of_le hle
    rw [List.getElem?_append_right (by omega), hget]
    simp [show pre.length + 2 + j - pre.length = j + 2 by omega]
  have hcall' : (roleBlocks (removeMisplaced (misplacedSources ms) pre.length c)).filter
      (isResultFor x) = [] := by
    refine roleBlocks_isResultFor_eq_nil fun hmem => ?_
    exact hno c (by rw [← hms]; simp) hc (mem_toolResultIds_removeMisplaced.mp hmem).1
  have hreply : (roleBlocks (removeMisplaced (misplacedSources ms) (pre.length + 1) n)).filter
      (isResultFor x) = (roleBlocks n).filter (isResultFor x) := by
    rw [roleBlocks_removeMisplaced_result ht (m := n) (by rw [← hms]; simp) (by simp [hn]), if_pos rfl]
  have hn' : (removeMisplaced (misplacedSources ms) (pre.length + 1) n).nonEmpty = true := by
    obtain ⟨n₀, hn₀, -, hxn⟩ := mem_adjacentResults.mp (hp pre.length c (by rw [← hms]; simp) x hx)
    obtain rfl : n = n₀ := by simpa [← hms] using hn₀
    refine nonEmpty_of_toolResult (x := x) (mem_toolResultIds_iff.mpr ?_)
    rw [hreply]
    exact mem_toolResultIds_iff.mp hxn
  have hx' : x ∈ idsNeeded (removeMisplaced (misplacedSources ms) pre.length c) := by simpa using hx
  generalize (pre.zipIdx.map fun (m, i) => removeMisplaced (misplacedSources ms) i m) = pre' at *
  generalize ((post.zipIdx (pre.length + 2)).map fun (m, i) =>
    removeMisplaced (misplacedSources ms) i m) = post' at *
  generalize removeMisplaced (misplacedSources ms) pre.length c = c' at *
  generalize removeMisplaced (misplacedSources ms) (pre.length + 1) n = n' at *
  rw [reorder_eq]
  split_ifs with hnone
  · -- nothing is moved
    rw [List.isEmpty_iff] at hnone
    have hnil : movedTo ms pre.length = [] := by simp [movedTo, hnone]
    rw [hnil] at hmoved
    rw [← hmoved, ← hpre, ← hpost, ← hreply, ← stripMisplaced_of_nil hnone, hstrip]
    simp [hcall']
  · have hkept : keptMessages ms = pre'.filter Message.nonEmpty ++ c' :: n' ::
        post'.filter Message.nonEmpty := by
      rw [keptMessages, hstrip, List.filter_append,
        List.filter_cons_of_pos (nonEmpty_of_idsNeeded hx'), List.filter_cons_of_pos hn']
    have hpos := currentPosition_of_call ht (k := (pre'.filter Message.nonEmpty).length)
      (q := c') (by rw [hkept]; simp) hx'
    have htargets := List.nodup_range (n := ms.length)
      |>.filter fun t => decide (t ∈ (misplaced ms).map fun mv => mv.2.2)
    have hmoves : (if pre.length ∈ (List.range ms.length).filter
          (fun t => decide (t ∈ (misplaced ms).map fun mv => mv.2.2))
        then ((movedTo ms pre.length).map (Prod.mk Role.user)).filter (isResultFor x) else []) =
        ((movedTo ms pre.length).map (Prod.mk Role.user)).filter (isResultFor x) := by
      split_ifs with hmem
      · rfl
      · rw [movedTo_eq_nil hmem]
        rfl
    obtain ⟨htake, hdrop⟩ := select_foldr_placeAt rfl hp ht hpos _ htargets
    rw [hmoves, hmoved] at htake
    rw [← List.take_append_drop ((pre'.filter Message.nonEmpty).length + 2) (List.foldr _ _ _),
      select_append, htake, hdrop, hkept]
    rw [List.take_length_add_append, List.drop_length_add_append, select_append,
      select_filter_nonEmpty, hpre]
    show _ ++ select _ [c', n'] ++ _ ++ select _ (post'.filter Message.nonEmpty) = _
    rw [select_filter_nonEmpty, hpost]
    simp [hcall', hreply]

end Reorder

end LibreFang.Session
