import LibreFang.Lib.Slices
import LibreFang.Lib.Pieces

/-!
# Reasoning that is streamed with the answer

A model puts its reasoning between `<think>` tags. A filter takes the text as it comes and holds back
what may be the beginning of a tag. Texts are cut at bytes: `none` stands for a slice that panics or
a loop that does not end.

* `partialSuffixMatch`: how much is held back; **`partialSuffixMatch_spec`**.
* `processLoop`, `flush`: the filter; `filterAll`: what it does with a whole stream.
* `scan`: the characters of a text outside and inside of the tags; **`scan_found`**, `scan_skip`.
* **`filterAll_eq`**: the filter shows them, however the text is cut.
-/

namespace LibreFang.Drivers

open Slices Occurrences

/-! ## The filter -/

/-- `FilterAction`. -/
inductive FilterAction
  | emitText (text : List Char)
  | emitThinking (text : List Char)
  deriving DecidableEq, Repr

/-- `StreamingThinkFilter`. -/
structure StreamingThinkFilter where
  insideThink : Bool
  pending : List Char
  deriving DecidableEq, Repr

/-- `StreamingThinkFilter::new`. -/
def StreamingThinkFilter.new : StreamingThinkFilter := ⟨false, []⟩

/-- The tag that the filter looks for. -/
def tag : Bool → List Char
  | true => "</think>".toList
  | false => "<think>".toList

/-- A text of either kind, unless it is empty. -/
def emit (insideThink : Bool) (text : List Char) : List FilterAction :=
  if text = [] then []
  else if insideThink then [.emitThinking text]
  else [.emitText text]

/-- The loop of `partial_suffix_match`, from a length down. -/
def suffixLoop (haystack needle : List UInt8) : ℕ → ℕ
  | 0 => 0
  | len + 1 =>
    if needle.take (len + 1) <:+ haystack then len + 1 else suffixLoop haystack needle len

/-- `partial_suffix_match`. -/
def partialSuffixMatch (haystack needle : List Char) : ℕ :=
  suffixLoop (bytes haystack) (bytes needle)
    (min (bytes haystack).length ((bytes needle).length - 1))

/-- The loop of `process`, with a bound on its rounds. -/
def processLoop : ℕ → StreamingThinkFilter → Option (List FilterAction × StreamingThinkFilter)
  | 0, _ => none
  | rounds + 1, f =>
    match findStr (tag f.insideThink) f.pending with
    | some pos =>
      (cut pos f.pending).bind fun before =>
        (cut (pos + byteLen (tag f.insideThink)) f.pending).bind fun after =>
          (processLoop rounds ⟨!f.insideThink, after.2⟩).map fun result =>
            (emit f.insideThink before.1 ++ result.1, result.2)
    | none =>
      let keep := partialSuffixMatch f.pending (tag f.insideThink)
      let emitLen := byteLen f.pending - keep
      if 0 < emitLen then
        (cut emitLen f.pending).map fun halves =>
          (emit f.insideThink halves.1, { f with pending := halves.2 })
      else some ([], f)

/-- `process`; every round but the last one takes a tag. -/
def process (f : StreamingThinkFilter) (delta : List Char) :
    Option (List FilterAction × StreamingThinkFilter) :=
  let f := { f with pending := f.pending ++ delta }
  processLoop (f.pending.length + 1) f

/-- `flush`. -/
def flush (f : StreamingThinkFilter) : List FilterAction := emit f.insideThink f.pending

/-- The actions for the deltas of a stream, and for its end. -/
def filterAll (deltas : List (List Char)) : Option (List FilterAction) :=
  (Streams.feed process .new deltas).map fun result => result.1 ++ flush result.2

/-! ## The reference -/

/-- The characters outside (`false`) and inside (`true`) of the tags; the first `skip` of them belong
to a tag. -/
def scan : Bool → ℕ → List Char → List (Bool × Char)
  | _, _, [] => []
  | inside, skip + 1, _ :: s => scan inside skip s
  | inside, 0, c :: s =>
    if tag inside <+: c :: s then scan (!inside) ((tag inside).length - 1) s
    else (inside, c) :: scan inside 0 s

/-- The characters of an action, with their kind. -/
def FilterAction.shown : FilterAction → List (Bool × Char)
  | emitText text => text.map fun c => (false, c)
  | emitThinking text => text.map fun c => (true, c)

/-- The texts of one kind, one after the other. -/
def texts (thinking : Bool) (actions : List FilterAction) : List Char :=
  actions.flatMap fun
    | .emitText text => if thinking then [] else text
    | .emitThinking text => if thinking then text else []

/-- The characters of one kind. -/
def kept (thinking : Bool) (shown : List (Bool × Char)) : List Char :=
  (shown.filter fun p => p.1 = thinking).map Prod.snd

theorem scan_skip (inside : Bool) {skip : ℕ} {s : List Char} (h : skip ≤ s.length) :
    scan inside skip s = scan inside 0 (s.drop skip) := by
  induction skip generalizing s with
  | zero => rfl
  | succ skip ih =>
    cases s with
    | nil => exact absurd h (Nat.not_succ_le_zero _)
    | cons c s => rw [scan, ih (Nat.le_of_succ_le_succ h), List.drop_succ_cons]

theorem tag_ne_nil (inside : Bool) : tag inside ≠ [] := by
  cases inside with
  | false => decide
  | true => decide

theorem scan_append (inside : Bool) {a r : List Char} (h : ¬ StartsIn (tag inside) a r) :
    scan inside 0 (a ++ r) = (a.map fun c => (inside, c)) ++ scan inside 0 r := by
  induction a with
  | nil => rfl
  | cons c a ih =>
    rw [startsIn_cons, not_or] at h
    rw [List.cons_append, scan, if_neg h.1, ih h.2, List.map_cons, List.cons_append]

theorem scan_tag (inside : Bool) (s : List Char) :
    scan inside 0 (tag inside ++ s) = scan (!inside) 0 s := by
  have hbegins : tag inside <+: tag inside ++ s := List.prefix_append _ _
  obtain ⟨c, rest, htag⟩ := List.exists_cons_of_ne_nil (tag_ne_nil inside)
  rw [htag, List.cons_append] at hbegins ⊢
  have hlen : (tag inside).length - 1 = rest.length := by rw [htag, List.length_cons]; rfl
  rw [scan, htag, if_pos hbegins, List.length_cons, Nat.add_sub_cancel,
    scan_skip _ (by rw [List.length_append]; omega), List.drop_left]

/-! ## What is held back -/

theorem isAscii_tag (inside : Bool) : IsAscii (tag inside) := by
  refine isAscii_of_all ?_
  cases inside with
  | false => decide
  | true => decide

theorem suffixLoop_spec (haystack needle : List UInt8) (n : ℕ) :
    suffixLoop haystack needle n ≤ n ∧
      needle.take (suffixLoop haystack needle n) <:+ haystack ∧
      ∀ len, suffixLoop haystack needle n < len → len ≤ n → ¬ needle.take len <:+ haystack := by
  induction n with
  | zero =>
    refine ⟨le_rfl, ?_, fun len hlt hle => by omega⟩
    rw [suffixLoop, List.take_zero]
    exact List.nil_suffix
  | succ n ih =>
    rw [suffixLoop]
    by_cases h : needle.take (n + 1) <:+ haystack
    · rw [if_pos h]
      exact ⟨le_rfl, h, fun len hlt hle => by omega⟩
    · rw [if_neg h]
      refine ⟨Nat.le_succ_of_le ih.1, ih.2.1, fun len hlt hle => ?_⟩
      obtain heq | hle := Nat.eq_or_lt_of_le hle
      · exact heq ▸ h
      · exact ih.2.2 len hlt (Nat.le_of_lt_succ hle)

/-- **What is held back** is the longest end that a tag begins with. -/
theorem partialSuffixMatch_spec (haystack : List Char) {needle : List Char} (hne : needle ≠ [])
    (hascii : IsAscii needle) :
    ∃ out, haystack = out ++ needle.take (partialSuffixMatch haystack needle) ∧
      partialSuffixMatch haystack needle < needle.length ∧
      ∀ len, partialSuffixMatch haystack needle < len → len < needle.length →
        ¬ needle.take len <:+ haystack := by
  obtain ⟨hle, hsuffix, hlongest⟩ := suffixLoop_spec (bytes haystack) (bytes needle)
    (min (bytes haystack).length ((bytes needle).length - 1))
  have hpos := List.length_pos_iff.mpr hne
  have hlen : (bytes needle).length = needle.length := (length_bytes needle).trans hascii.byteLen
  rw [hascii.take_bytes] at hsuffix
  obtain ⟨out, hout⟩ := suffix_of_bytes (hascii.take _) hsuffix
  refine ⟨out, hout.symm, ?_, fun len hlt hlen' hend => ?_⟩
  · unfold partialSuffixMatch
    omega
  · refine hlongest len hlt ?_ ?_
    · obtain ⟨front, hfront⟩ := hend
      have hbytes := congrArg List.length (congrArg bytes hfront)
      rw [bytes_append, List.length_append, length_bytes (needle.take len),
        (hascii.take len).byteLen, List.length_take_of_le (Nat.le_of_lt hlen')] at hbytes
      omega
    · rw [hascii.take_bytes]
      obtain ⟨front, hfront⟩ := hend
      rw [← hfront, bytes_append]
      exact List.suffix_append _ _

theorem not_startsIn_of_held {inside : Bool} {pending out : List Char}
    (hfind : findStr (tag inside) pending = none)
    (hout : pending = out ++ (tag inside).take (partialSuffixMatch pending (tag inside)))
    (hlongest : ∀ len, partialSuffixMatch pending (tag inside) < len →
      len < (tag inside).length → ¬ (tag inside).take len <:+ pending) (t : List Char) :
    ¬ StartsIn (tag inside) out
      ((tag inside).take (partialSuffixMatch pending (tag inside)) ++ t) := by
  rintro ⟨x, y, rfl, hne, hbegins⟩
  generalize hkeep : partialSuffixMatch pending (tag inside) = keep at hout hlongest hbegins
  have hend : y ++ (tag inside).take keep <:+ pending := by
    rw [hout, List.append_assoc]
    exact List.suffix_append _ _
  have hnot : ¬ tag inside <+: y ++ (tag inside).take keep := fun hbegins =>
    not_startsIn_of_findStr hfind ⟨x, y ++ (tag inside).take keep, by rw [hout, List.append_assoc],
      List.append_ne_nil_of_left_ne_nil hne _, by rwa [List.append_nil]⟩
  rw [← List.append_assoc] at hbegins
  -- what is left of the text would be a longer end that the tag begins with
  have hlonger : y ++ (tag inside).take keep <+: tag inside :=
    (List.prefix_or_prefix_of_prefix hbegins (List.prefix_append _ t)).resolve_left hnot
  have htake := List.prefix_iff_eq_take.mp hlonger
  have hlt : (y ++ (tag inside).take keep).length < (tag inside).length := by
    refine lt_of_le_of_ne hlonger.length_le fun heq => hnot ?_
    rw [hlonger.eq_of_length heq]
  refine hlongest _ ?_ hlt (htake ▸ hend)
  have hpos := List.length_pos_iff.mpr hne
  rw [List.length_append, List.length_take] at hlt ⊢
  omega

theorem shown_emit (inside : Bool) (text : List Char) :
    (emit inside text).flatMap FilterAction.shown = text.map fun c => (inside, c) := by
  unfold emit
  by_cases hnil : text = []
  · rw [if_pos hnil, hnil]
    rfl
  · rw [if_neg hnil]
    cases inside with
    | false => exact List.append_nil _
    | true => exact List.append_nil _

theorem processLoop_spec (rounds : ℕ) (f : StreamingThinkFilter) (h : f.pending.length < rounds) :
    ∃ out f', processLoop rounds f = some (out, f') ∧
      f'.pending.length < (tag f'.insideThink).length ∧
      ∀ t, out.flatMap FilterAction.shown ++ scan f'.insideThink 0 (f'.pending ++ t) =
        scan f.insideThink 0 (f.pending ++ t) := by
  induction rounds generalizing f with
  | zero => exact absurd h (Nat.not_lt_zero _)
  | succ rounds ih =>
    obtain ⟨inside, pending⟩ := f
    rw [processLoop]
    dsimp only at h ⊢
    cases hfind : findStr (tag inside) pending with
    | some pos =>
      obtain ⟨a, b, rfl, rfl, hfirst⟩ := exists_of_findStr hfind
      have hbefore := cut_append a (tag inside ++ b)
      have hafter := cut_append (a ++ tag inside) b
      rw [byteLen_append, List.append_assoc] at hafter
      have hlen : b.length < rounds := by
        have hpos := List.length_pos_iff.mpr (tag_ne_nil inside)
        rw [List.length_append, List.length_append] at h
        omega
      obtain ⟨out, f', hloop, hshort, hshown⟩ := ih ⟨!inside, b⟩ hlen
      refine ⟨emit inside a ++ out, f', ?_, hshort, fun t => ?_⟩
      · dsimp only
        rw [hbefore, Option.bind_some, hafter, Option.bind_some, hloop]
        rfl
      · have hstarts : ¬ StartsIn (tag inside) a (tag inside ++ (b ++ t)) := fun hstarts => by
          refine hfirst (StartsIn.of_length_le (t := t) ?_ ?_)
          · rwa [List.append_assoc]
          · rw [List.length_append]
            omega
        rw [List.flatMap_append, List.append_assoc, hshown, shown_emit, List.append_assoc,
          List.append_assoc, scan_append inside hstarts, scan_tag]
    | none =>
      obtain ⟨out, hout, hkeep, hlongest⟩ :=
        partialSuffixMatch_spec pending (tag_ne_nil inside) (isAscii_tag inside)
      have hstarts := not_startsIn_of_held hfind hout hlongest
      generalize partialSuffixMatch pending (tag inside) = keep at hout hkeep hstarts ⊢
      have hheld : ((tag inside).take keep).length = keep :=
        List.length_take_of_le (Nat.le_of_lt hkeep)
      have hbytes : byteLen pending - keep = byteLen out := by
        rw [hout, byteLen_append, ((isAscii_tag inside).take keep).byteLen, hheld,
          Nat.add_sub_cancel]
      have hscan (t : List Char) : (out.map fun c => (inside, c)) ++
          scan inside 0 ((tag inside).take keep ++ t) = scan inside 0 (pending ++ t) := by
        rw [hout, List.append_assoc, scan_append inside (hstarts t)]
      dsimp only
      rw [hbytes]
      split
      · have hcut : cut (byteLen out) pending = some (out, (tag inside).take keep) :=
          cut_eq_some_iff.mpr ⟨hout, rfl⟩
        rw [hcut]
        refine ⟨emit inside out, ⟨inside, (tag inside).take keep⟩, rfl, ?_, fun t => ?_⟩
        · exact hheld.symm ▸ hkeep
        · rw [shown_emit]
          exact hscan t
      · rename_i hnone
        obtain rfl : out = [] := List.length_eq_zero_iff.mp (by
          have hle := length_le_byteLen out
          omega)
        rw [List.nil_append] at hout
        refine ⟨[], ⟨inside, pending⟩, rfl, ?_, fun t => rfl⟩
        rw [hout]
        exact hheld.symm ▸ hkeep

/-! ## Streams -/

theorem scan_held {inside : Bool} {pending : List Char} (h : pending.length < (tag inside).length) :
    scan inside 0 pending = pending.map fun c => (inside, c) := by
  have hstarts : ¬ StartsIn (tag inside) pending [] := by
    rintro ⟨x, y, rfl, -, hbegins⟩
    have hle := hbegins.length_le
    rw [List.append_nil] at hle
    rw [List.length_append] at h
    omega
  have hscan := scan_append inside hstarts
  rwa [List.append_nil, scan, List.append_nil] at hscan

theorem kept_of_kind (thinking inside : Bool) (text : List Char) :
    kept thinking (text.map fun c => (inside, c)) = if inside = thinking then text else [] := by
  unfold kept
  by_cases h : inside = thinking
  · rw [if_pos h, List.filter_eq_self.mpr, List.map_map]
    · exact List.map_id text
    · intro p hp
      obtain ⟨c, -, rfl⟩ := List.mem_map.mp hp
      exact decide_eq_true h
  · rw [if_neg h, List.filter_eq_nil_iff.mpr]
    · rfl
    · intro p hp
      obtain ⟨c, -, rfl⟩ := List.mem_map.mp hp
      exact fun hp => h (of_decide_eq_true hp)

theorem kept_append (thinking : Bool) (a b : List (Bool × Char)) :
    kept thinking (a ++ b) = kept thinking a ++ kept thinking b := by
  unfold kept
  rw [List.filter_append, List.map_append]

theorem texts_eq_kept (thinking : Bool) (actions : List FilterAction) :
    texts thinking actions = kept thinking (actions.flatMap FilterAction.shown) := by
  unfold texts
  induction actions with
  | nil => rfl
  | cons action actions ih =>
    rw [List.flatMap_cons, List.flatMap_cons, kept_append, ih]
    congr 1
    cases action with
    | emitText text =>
      rw [FilterAction.shown, kept_of_kind]
      cases thinking with
      | false => rfl
      | true => rfl
    | emitThinking text =>
      rw [FilterAction.shown, kept_of_kind]
      cases thinking with
      | false => rfl
      | true => rfl

/-- What is held back is less than a tag. -/
def Held (f : StreamingThinkFilter) : Prop := f.pending.length < (tag f.insideThink).length

/-- What the reference shows of what is held back and a text behind it. -/
def future (f : StreamingThinkFilter) (t : List Char) : List (Bool × Char) :=
  scan f.insideThink 0 (f.pending ++ t)

theorem process_spec (f : StreamingThinkFilter) (delta : List Char) (deltas : List (List Char))
    (_ : Held f) : ∃ out f', process f delta = some (out, f') ∧ Held f' ∧
      out.flatMap FilterAction.shown ++ future f' deltas.flatten =
        future f (delta ++ deltas.flatten) := by
  obtain ⟨out, f', hloop, hheld, hshown⟩ := processLoop_spec ((f.pending ++ delta).length + 1)
    { f with pending := f.pending ++ delta } (Nat.lt_succ_self _)
  refine ⟨out, f', hloop, hheld, (hshown _).trans ?_⟩
  unfold future
  rw [List.append_assoc]

/-- **The filter shows a stream as the reference scan does**, however it is cut. -/
theorem filterAll_eq (deltas : List (List Char)) :
    ∃ actions, filterAll deltas = some actions ∧
      actions.flatMap FilterAction.shown = scan false 0 deltas.flatten ∧
      ∀ thinking, texts thinking actions = kept thinking (scan false 0 deltas.flatten) := by
  have hnew : Held .new := by
    unfold Held
    decide
  obtain ⟨out, f, hfeed, hheld, hshown⟩ : ∃ out f, Streams.feed process .new deltas = some (out, f) ∧
      Held f ∧ out.flatMap FilterAction.shown ++ future f [] = future .new deltas.flatten :=
    Streams.feed_spec (I := fun f _ => Held f) process_spec hnew
  have hall : (out ++ flush f).flatMap FilterAction.shown = scan false 0 deltas.flatten := by
    have hend := hshown
    unfold future at hend
    rw [List.append_nil, scan_held hheld] at hend
    rw [List.flatMap_append, flush, shown_emit]
    exact hend
  refine ⟨out ++ flush f, ?_, hall, fun thinking => ?_⟩
  · rw [filterAll, hfeed]
    rfl
  · rw [texts_eq_kept, hall]

end LibreFang.Drivers
