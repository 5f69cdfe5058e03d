import LibreFang.Lib.Occurrences
import LibreFang.Lib.Slices
import Mathlib.Data.List.Chain

/-!
# Documents cut into chunks

A long document is cut into chunks that overlap. Texts are cut at bytes: `none` stands for a slice
that panics or a loop that does not end.

* `splitByCharLimit`, `splitSentences`, `buildSegments`: the segments, from paragraphs down to parts
  of sentences.
* `packWithOverlap`: segments packed into chunks; **`chunkText`**: the whole of it.
* **`chunkText_covers`**: short chunks that, without these beginnings, have the whole text.
-/

namespace LibreFang.Memory.Chunker

open Slices Text Occurrences

/-! ## Segments -/

/-- `char_boundaries`, from a byte on. -/
def charBoundaries (i : ℕ) : List Char → List ℕ
  | [] => [i]
  | c :: s => i :: charBoundaries (i + c.utf8Size) s

/-- The loop of `split_by_char_limit`, with a bound on its rounds. -/
def limitLoop (text : List Char) (maxSize : ℕ) : ℕ → ℕ → Option (List (List Char))
  | 0, _ => none
  | rounds + 1, start =>
    let boundaries := charBoundaries 0 text
    let totalChars := boundaries.length - 1
    if start < totalChars then
      let stop := min (start + maxSize) totalChars
      boundaries[start]?.bind fun i => boundaries[stop]?.bind fun j =>
        (slice text i j).bind fun chunk =>
          (limitLoop text maxSize rounds stop).map (chunk :: ·)
    else some []

/-- `split_by_char_limit`; every round takes a character at least. -/
def splitByCharLimit (text : List Char) (maxSize : ℕ) : Option (List (List Char)) :=
  limitLoop text maxSize (text.length + 1) 0

/-- `suffix_by_chars`. -/
def suffixByChars (text : List Char) (count : ℕ) : Option (List Char) :=
  let boundaries := charBoundaries 0 text
  let totalChars := boundaries.length - 1
  boundaries[totalChars - count]?.bind fun i => (cut i text).map Prod.snd

/-- The character ends a sentence. -/
def isBoundary (ch : Char) (next : Option Char) : Bool :=
  match ch with
  | '.' => next == some ' ' || next == some '\n'
  | '。' | '？' | '！' => true
  | _ => false

/-- A sentence is kept unless it is empty. -/
def pushSentence (sentence : List Char) (sentences : List (List Char)) : List (List Char) :=
  if sentence = [] then sentences else sentence :: sentences

/-- The space or newline after an ASCII period, which belongs to no sentence. -/
def skipped (ch : Char) (next : Option Char) : Option Char :=
  if ch = '.' then next.filter fun nextCh => nextCh = ' ' ∨ nextCh = '\n' else none

/-- The loop of `split_sentences`: the characters from `byteIdx` on, in a sentence that starts at
`startByte`; the first `skip` of them have been looked at. -/
def sentenceLoop (text : List Char) : ℕ → List Char → ℕ → ℕ → Option (List (List Char))
  | _, [], startByte, _ => (cut startByte text).map fun halves => pushSentence (trim halves.2) []
  | skip + 1, ch :: rest, startByte, byteIdx =>
    sentenceLoop text skip rest startByte (byteIdx + ch.utf8Size)
  | 0, ch :: rest, startByte, byteIdx =>
    let endByte := byteIdx + ch.utf8Size
    if isBoundary ch rest.head? then
      (slice text startByte endByte).bind fun segment =>
        let blank := skipped ch rest.head?
        (sentenceLoop text (if blank.isSome then 1 else 0) rest
          (endByte + blank.elim 0 Char.utf8Size) endByte).map (pushSentence (trim segment))
    else sentenceLoop text 0 rest startByte endByte

/-- `split_sentences`. -/
def splitSentences (text : List Char) : Option (List (List Char)) := sentenceLoop text 0 text 0 0

/-- The segments of a sentence. -/
def sentenceSegments (maxSize : ℕ) (sentence : List Char) : Option (List (List Char)) :=
  if sentence.length ≤ maxSize then some [sentence] else splitByCharLimit sentence maxSize

/-- The segments of a paragraph. -/
def paragraphSegments (maxSize : ℕ) (para : List Char) : Option (List (List Char)) :=
  let trimmed := trim para
  if trimmed = [] then some []
  else if trimmed.length ≤ maxSize then some [trimmed]
  else
    (splitSentences trimmed).bind fun sentences =>
      (sentences.mapM (sentenceSegments maxSize)).map List.flatten

/-- `build_segments`. -/
def buildSegments (text : List Char) (maxSize : ℕ) : Option (List (List Char)) :=
  ((split "\n\n".toList text).mapM (paragraphSegments maxSize)).map List.flatten

/-- What a new chunk takes over from the chunk before. -/
def overlapText (current : List Char) (overlap : ℕ) : Option (List Char) :=
  if 0 < overlap ∧ overlap < current.length then suffixByChars current overlap
  else if 0 < overlap then some current
  else some []

/-- A new chunk; what it takes over is dropped if it gets too long. -/
def newChunk (maxSize : ℕ) (taken seg : List Char) : List Char :=
  if taken = [] then seg
  else
    let current := taken ++ "\n\n".toList ++ seg
    if maxSize < current.length then seg else current

/-- The loop of `pack_with_overlap`. -/
def packLoop (maxSize overlap : ℕ) :
    List (List Char) → List (List Char) → List Char → Option (List (List Char))
  | [], chunks, current => some (if current = [] then chunks else chunks ++ [current])
  | seg :: segments, chunks, current =>
    if current = [] then packLoop maxSize overlap segments chunks seg
    else if current.length + 2 + seg.length ≤ maxSize then
      packLoop maxSize overlap segments chunks (current ++ "\n\n".toList ++ seg)
    else
      (overlapText current overlap).bind fun taken =>
        packLoop maxSize overlap segments (chunks ++ [current]) (newChunk maxSize taken seg)

/-- `pack_with_overlap`. -/
def packWithOverlap (segments : List (List Char)) (maxSize overlap : ℕ) :
    Option (List (List Char)) :=
  if segments = [] then some [] else packLoop maxSize overlap segments [] []

/-- `chunk_text`. -/
def chunkText (text : List Char) (maxSize overlap : ℕ) : Option (List (List Char)) :=
  if text = [] ∨ maxSize = 0 then some []
  else if text.length ≤ maxSize then some [text]
  else (buildSegments text maxSize).bind fun segments => packWithOverlap segments maxSize overlap

/-- A text without its blanks. -/
def solid (s : List Char) : List Char := s.filter fun c => !isWhitespace c

@[simp] theorem solid_append (s t : List Char) : solid (s ++ t) = solid s ++ solid t :=
  List.filter_append ..

theorem solid_eq_nil {s : List Char} (h : ∀ c ∈ s, isWhitespace c = true) : solid s = [] :=
  List.filter_eq_nil_iff.mpr fun c hc => by simp [h c hc]

theorem solid_trim (s : List Char) : solid (trim s) = solid s := by
  have hstart : solid (trimStart s) = solid s := by
    conv_rhs => rw [← List.takeWhile_append_dropWhile (p := isWhitespace) (l := s)]
    rw [solid_append, solid_eq_nil fun c hc => List.mem_takeWhile_imp hc, List.nil_append]
    rfl
  have hend (t : List Char) : solid (trimEnd t) = solid t := by
    conv_rhs => rw [← List.rdropWhile_append_rtakeWhile (p := isWhitespace) (l := t)]
    rw [solid_append, solid_eq_nil (s := t.rtakeWhile isWhitespace), List.append_nil]
    · rfl
    · exact fun c hc => List.mem_rtakeWhile_imp hc
  rw [trim, hend, hstart]

theorem solid_intercalate {sep : List Char} (h : solid sep = []) (parts : List (List Char)) :
    solid (sep.intercalate parts) = solid parts.flatten := by
  unfold List.intercalate
  induction parts with
  | nil => rfl
  | cons part parts ih =>
    cases parts with
    | nil => rfl
    | cons next parts =>
      rw [List.intersperse_cons_cons, List.flatten_cons, List.flatten_cons, List.flatten_cons,
        solid_append, solid_append, solid_append, h, List.nil_append, ih]

/-! ## Short segments -/

/-- Short segments that have all of a text but its blanks. -/
structure Segmented (maxSize : ℕ) (text : List Char) (segments : List (List Char)) : Prop where
  sized : ∀ s ∈ segments, s ≠ [] ∧ s.length ≤ maxSize
  covers : solid segments.flatten = solid text

variable {maxSize : ℕ} {text : List Char}

theorem segmented_nil (h : solid text = []) : Segmented maxSize text [] :=
  ⟨fun _ hs => absurd hs List.not_mem_nil, h.symm⟩

theorem segmented_self (hne : text ≠ []) (hlen : text.length ≤ maxSize) :
    Segmented maxSize text [text] :=
  ⟨fun _ hs => List.mem_singleton.mp hs ▸ ⟨hne, hlen⟩, by rw [List.flatten_singleton]⟩

variable {segments : List (List Char)}

theorem Segmented.congr {text' : List Char}
    (h : Segmented maxSize text segments) (heq : solid text = solid text') :
    Segmented maxSize text' segments := ⟨h.sized, h.covers.trans heq⟩

theorem exists_mapM {f : List Char → Option (List (List Char))} (texts : List (List Char))
    (h : ∀ t ∈ texts, ∃ segments, f t = some segments ∧ Segmented maxSize t segments) :
    ∃ segments, (texts.mapM f).map List.flatten = some segments ∧
      Segmented maxSize texts.flatten segments := by
  induction texts with
  | nil => exact ⟨[], rfl, segmented_nil rfl⟩
  | cons t texts ih =>
    obtain ⟨ht, htexts⟩ := List.forall_mem_cons.mp h
    obtain ⟨segments, hf, hsegments⟩ := ht
    obtain ⟨rest, hmap, hrest⟩ := ih htexts
    obtain ⟨parts, hparts, rfl⟩ := Option.map_eq_some_iff.mp hmap
    refine ⟨segments ++ parts.flatten, ?_, fun s hs => ?_, ?_⟩
    · rw [List.mapM_cons, hf, hparts]
      rfl
    · exact (List.mem_append.mp hs).elim (hsegments.sized s) (hrest.sized s)
    · rw [List.flatten_append, solid_append, hsegments.covers, hrest.covers, List.flatten_cons,
        solid_append]

/-! ### Parts of a fixed length -/

theorem getElem?_charBoundaries (i : ℕ) {s : List Char} {k : ℕ} (h : k ≤ s.length) :
    (charBoundaries i s)[k]? = some (i + byteLen (s.take k)) := by
  induction s generalizing i k with
  | nil =>
    obtain rfl : k = 0 := Nat.le_zero.mp h
    rfl
  | cons c s ih =>
    cases k with
    | zero => rfl
    | succ k =>
      rw [charBoundaries, List.getElem?_cons_succ, ih _ (Nat.le_of_succ_le_succ h),
        List.take_succ_cons, byteLen_cons, Nat.add_assoc]

theorem length_charBoundaries (i : ℕ) (s : List Char) :
    (charBoundaries i s).length = s.length + 1 := by
  induction s generalizing i with
  | nil => rfl
  | cons c s ih => rw [charBoundaries, List.length_cons, ih, List.length_cons]

theorem slice_take (s : List Char) {i j : ℕ} (h : i ≤ j) :
    slice s (byteLen (s.take i)) (byteLen (s.take j)) = some ((s.take j).drop i) := by
  have hsplit : s.take i ++ (s.take j).drop i = s.take j := by
    conv_rhs => rw [← List.take_append_drop i (s.take j), List.take_take, Nat.min_eq_left h]
  have hslice := slice_append (s.take i) ((s.take j).drop i) (s.drop j)
  rwa [hsplit, List.take_append_drop] at hslice

theorem limitLoop_spec (text : List Char) (hmax : 0 < maxSize) {rounds start : ℕ} (hstart : start ≤ text.length)
    (hrounds : text.length - start < rounds) :
    ∃ parts, limitLoop text maxSize rounds start = some parts ∧
      (∀ p ∈ parts, p ≠ [] ∧ p.length ≤ maxSize) ∧ parts.flatten = text.drop start := by
  induction rounds generalizing start with
  | zero => exact absurd hrounds (Nat.not_lt_zero _)
  | succ rounds ih =>
    rw [limitLoop, length_charBoundaries, Nat.add_sub_cancel]
    dsimp only
    by_cases hlt : start < text.length
    · have hle : start ≤ min (start + maxSize) text.length := by omega
      obtain ⟨parts, hloop, hsized, hflat⟩ :=
        @ih (min (start + maxSize) text.length) (Nat.min_le_right _ _) (by omega)
      rw [if_pos hlt, getElem?_charBoundaries 0 hstart, Option.bind_some,
        getElem?_charBoundaries 0 (Nat.min_le_right _ _), Option.bind_some, Nat.zero_add,
        Nat.zero_add, slice_take text hle, Option.bind_some, hloop]
      refine ⟨_, rfl, List.forall_mem_cons.mpr ⟨?_, hsized⟩, ?_⟩
      · have hlen : ((text.take (min (start + maxSize) text.length)).drop start).length =
            min (start + maxSize) text.length - start := by
          rw [List.length_drop, List.length_take, Nat.min_eq_left (Nat.min_le_right _ _)]
        refine ⟨fun hnil => ?_, by omega⟩
        rw [hnil, List.length_nil] at hlen
        omega
      · rw [List.flatten_cons, hflat]
        conv_rhs => rw [← List.take_append_drop (min (start + maxSize) text.length) text]
        rw [List.drop_append_of_le_length]
        rw [List.length_take]
        omega
    · rw [if_neg hlt]
      refine ⟨[], rfl, fun p hp => absurd hp List.not_mem_nil, ?_⟩
      rw [List.drop_eq_nil_of_le (Nat.le_of_not_lt hlt)]
      rfl

theorem splitByCharLimit_segmented (hmax : 0 < maxSize) (text : List Char) :
    ∃ segments, splitByCharLimit text maxSize = some segments ∧ Segmented maxSize text segments := by
  obtain ⟨parts, hloop, hsized, hflat⟩ :=
    limitLoop_spec text hmax (Nat.zero_le _) (Nat.lt_succ_self _)
  exact ⟨parts, hloop, hsized, congrArg solid hflat⟩

theorem suffixByChars_eq (text : List Char) (count : ℕ) :
    suffixByChars text count = some (text.drop (text.length - count)) := by
  unfold suffixByChars
  dsimp only
  rw [length_charBoundaries, Nat.add_sub_cancel, getElem?_charBoundaries 0 (Nat.sub_le _ _),
    Option.bind_some, Nat.zero_add]
  have hcut := cut_append (text.take (text.length - count)) (text.drop (text.length - count))
  rw [List.take_append_drop] at hcut
  rw [hcut]
  rfl

/-! ### Sentences -/

theorem ne_nil_of_mem_pushSentence {sentence : List Char} {sentences : List (List Char)}
    (h : ∀ s ∈ sentences, s ≠ []) : ∀ s ∈ pushSentence sentence sentences, s ≠ [] := by
  unfold pushSentence
  split
  · exact h
  · rename_i hne
    exact List.forall_mem_cons.mpr ⟨hne, h⟩

theorem solid_pushSentence (segment : List Char) (sentences : List (List Char)) :
    solid (pushSentence (trim segment) sentences).flatten =
      solid segment ++ solid sentences.flatten := by
  rw [← solid_trim segment]
  unfold pushSentence
  split
  · rename_i hnil
    rw [hnil]
    rfl
  · rw [List.flatten_cons, solid_append]

theorem skipped_eq_some {ch nextCh : Char} {next : Option Char}
    (h : skipped ch next = some nextCh) : next = some nextCh ∧ isWhitespace nextCh = true := by
  unfold skipped at h
  split at h
  · obtain ⟨hnext, hblank⟩ := Option.filter_eq_some_iff.mp h
    refine ⟨hnext, ?_⟩
    obtain rfl | rfl := of_decide_eq_true hblank
    · decide
    · decide
  · cases h

theorem sentenceLoop_spec (rest : List Char) : ∀ done pending, text = done ++ pending ++ rest →
    ∃ sentences,
      sentenceLoop text 0 rest (byteLen done) (byteLen (done ++ pending)) = some sentences ∧
      (∀ s ∈ sentences, s ≠ []) ∧ solid sentences.flatten = solid (pending ++ rest) := by
  -- a period can take the blank after it along, so the induction is on the length
  induction hlen : rest.length using Nat.strongRecOn generalizing rest with
  | _ n ih =>
    rintro done pending htext
    cases rest with
    | nil =>
      have hcut : cut (byteLen done) text = some (done, pending) := by
        rw [htext, List.append_nil]
        exact cut_append done pending
      rw [sentenceLoop, hcut]
      refine ⟨_, rfl, ne_nil_of_mem_pushSentence fun s hs => absurd hs List.not_mem_nil, ?_⟩
      rw [solid_pushSentence, List.append_nil]
      exact List.append_nil _
    | cons ch rest =>
      rw [List.length_cons] at hlen
      have hend : byteLen (done ++ pending) + ch.utf8Size = byteLen (done ++ (pending ++ [ch])) := by
        rw [← List.append_assoc, byteLen_append (done ++ pending)]
        rfl
      have hassoc : text = done ++ (pending ++ [ch]) ++ rest := by
        rw [htext, List.append_assoc, List.append_assoc, List.append_assoc, List.singleton_append]
      have hpending : pending ++ ch :: rest = pending ++ [ch] ++ rest := by
        rw [List.append_assoc, List.singleton_append]
      rw [sentenceLoop]
      dsimp only
      rw [hend]
      by_cases hboundary : isBoundary ch rest.head? = true
      · have hslice : slice text (byteLen done) (byteLen (done ++ (pending ++ [ch]))) =
            some (pending ++ [ch]) := by
          rw [hassoc]
          exact slice_append done (pending ++ [ch]) rest
        rw [if_pos hboundary, hslice, Option.bind_some, hpending]
        cases hskip : skipped ch rest.head? with
        | none =>
          obtain ⟨sentences, hloop, hne, hsolid⟩ :=
            ih rest.length (by omega) rest rfl (done ++ (pending ++ [ch])) []
              (by rw [List.append_nil]; exact hassoc)
          rw [List.append_nil] at hloop
          refine ⟨pushSentence (trim (pending ++ [ch])) sentences, ?_,
            ne_nil_of_mem_pushSentence hne, ?_⟩
          · exact congrArg (Option.map _) hloop
          · rw [solid_pushSentence, hsolid, List.nil_append, ← solid_append]
        | some nextCh =>
          obtain ⟨hnext, hblank⟩ := skipped_eq_some hskip
          obtain ⟨rest', rfl⟩ := List.head?_eq_some_iff.mp hnext
          rw [List.length_cons] at hlen
          obtain ⟨sentences, hloop, hne, hsolid⟩ :=
            ih rest'.length (by omega) rest' rfl (done ++ (pending ++ [ch]) ++ [nextCh]) []
              (by rw [List.append_nil, List.append_assoc _ [nextCh]]; exact hassoc)
          rw [List.append_nil, byteLen_append (done ++ (pending ++ [ch])) [nextCh]] at hloop
          refine ⟨pushSentence (trim (pending ++ [ch])) sentences, ?_,
            ne_nil_of_mem_pushSentence hne, ?_⟩
          · exact congrArg (Option.map _) hloop
          · rw [solid_pushSentence, hsolid, List.nil_append, solid_append _ (nextCh :: rest')]
            have hdrop : solid (nextCh :: rest') = solid rest' :=
              List.filter_cons_of_neg (by simp [hblank])
            rw [hdrop]
      · rw [if_neg hboundary, hpending]
        exact ih rest.length (by omega) rest rfl done (pending ++ [ch]) hassoc

theorem splitSentences_spec (text : List Char) : ∃ sentences,
    splitSentences text = some sentences ∧ (∀ s ∈ sentences, s ≠ []) ∧
      solid sentences.flatten = solid text :=
  sentenceLoop_spec text [] [] rfl

/-! ### Paragraphs -/

theorem sentenceSegments_segmented (hmax : 0 < maxSize) {sentence : List Char}
    (h : sentence ≠ []) : ∃ segments, sentenceSegments maxSize sentence = some segments ∧
      Segmented maxSize sentence segments := by
  unfold sentenceSegments
  split
  · rename_i hlen
    exact ⟨_, rfl, segmented_self h hlen⟩
  · exact splitByCharLimit_segmented hmax sentence

theorem paragraphSegments_segmented (hmax : 0 < maxSize) (para : List Char) :
    ∃ segments, paragraphSegments maxSize para = some segments ∧
      Segmented maxSize para segments := by
  have htrim := solid_trim para
  unfold paragraphSegments
  dsimp only
  split
  · rename_i hnil
    exact ⟨[], rfl, segmented_nil (by rw [← htrim, hnil]; rfl)⟩
  rename_i hne
  split
  · rename_i hlen
    exact ⟨_, rfl, (segmented_self hne hlen).congr htrim⟩
  · obtain ⟨sentences, hsplit, hne, hsolid⟩ := splitSentences_spec (trim para)
    obtain ⟨segments, hmap, hsegments⟩ := exists_mapM (f := sentenceSegments maxSize) sentences
      fun s hs => sentenceSegments_segmented hmax (hne s hs)
    rw [hsplit]
    exact ⟨segments, hmap, hsegments.congr (hsolid.trans htrim)⟩

theorem buildSegments_segmented (hmax : 0 < maxSize) (text : List Char) :
    ∃ segments, buildSegments text maxSize = some segments ∧ Segmented maxSize text segments := by
  obtain ⟨segments, hmap, hsegments⟩ := exists_mapM (f := paragraphSegments maxSize)
    (split "\n\n".toList text) fun para _ => paragraphSegments_segmented hmax para
  refine ⟨segments, hmap, hsegments.congr ?_⟩
  have hsep : solid "\n\n".toList = [] := by decide
  have hne : "\n\n".toList ≠ [] := by decide
  rw [← solid_intercalate hsep, (intercalate_split hne text).2]

/-! ## Chunks that overlap -/

/-- A chunk as what it takes over from the chunk before, and the rest. -/
abbrev Part := List Char × List Char

/-- The chunk. -/
def Part.chunk (p : Part) : List Char := p.1 ++ p.2

/-- What a chunk takes over is an end of the chunk before. -/
def Continues (overlap : ℕ) (p q : Part) : Prop := q.1 <:+ p.chunk ∧ q.1.length ≤ overlap

/-- **Short chunks**, each of which begins with an end of the chunk before. -/
structure Packed (maxSize overlap : ℕ) (parts : List Part) : Prop where
  sized : ∀ p ∈ parts, p.chunk ≠ [] ∧ p.chunk.length ≤ maxSize
  first : ∀ p ∈ parts.head?, p.1 = []
  continues : parts.IsChain (Continues overlap)

/-- What the chunks have of the text, without its blanks. -/
def covered (parts : List Part) : List Char := solid (parts.flatMap Prod.snd)

variable {overlap : ℕ} {parts : List Part} {p q : Part}

theorem covered_append (parts parts' : List Part) :
    covered (parts ++ parts') = covered parts ++ covered parts' := by
  unfold covered
  rw [List.flatMap_append, solid_append]

theorem covered_singleton (p : Part) : covered [p] = solid p.2 := by
  unfold covered
  rw [List.flatMap_singleton]

theorem packed_singleton (h : p.1 = []) (hsized : p.chunk ≠ [] ∧ p.chunk.length ≤ maxSize) :
    Packed maxSize overlap [p] :=
  ⟨fun _ hp => List.mem_singleton.mp hp ▸ hsized, fun _ hp => Option.some.inj hp ▸ h,
    List.isChain_singleton _⟩

theorem Packed.replace_last (h : Packed maxSize overlap (parts ++ [p])) (heq : q.1 = p.1)
    (hsized : q.chunk ≠ [] ∧ q.chunk.length ≤ maxSize) : Packed maxSize overlap (parts ++ [q]) := by
  obtain ⟨hparts, -, hlast⟩ := List.isChain_append.mp h.continues
  refine ⟨fun r hr => ?_, fun r hr => ?_, List.isChain_append.mpr
    ⟨hparts, List.isChain_singleton _, fun r hr t ht => ?_⟩⟩
  · obtain hr | hr := List.mem_append.mp hr
    · exact h.sized r (List.mem_append_left _ hr)
    · exact List.mem_singleton.mp hr ▸ hsized
  · cases parts with
    | nil =>
      rw [← Option.some.inj hr, heq]
      exact h.first p rfl
    | cons first rest => exact h.first r hr
  · obtain rfl := Option.some.inj ht
    have hcontinues := hlast r hr p rfl
    unfold Continues at hcontinues ⊢
    rwa [heq]

theorem Packed.concat (h : Packed maxSize overlap (parts ++ [p])) (hcontinues : Continues overlap p q)
    (hsized : q.chunk ≠ [] ∧ q.chunk.length ≤ maxSize) :
    Packed maxSize overlap (parts ++ [p] ++ [q]) := by
  refine ⟨fun r hr => ?_, fun r hr => ?_, List.isChain_append.mpr
    ⟨h.continues, List.isChain_singleton _, fun r hr t ht => ?_⟩⟩
  · obtain hr | hr := List.mem_append.mp hr
    · exact h.sized r hr
    · exact List.mem_singleton.mp hr ▸ hsized
  · rw [List.head?_append] at hr
    cases parts with
    | nil => exact h.first r hr
    | cons first rest => exact h.first r hr
  · rw [List.getLast?_concat] at hr
    obtain rfl := Option.some.inj hr
    exact Option.some.inj ht ▸ hcontinues

theorem overlapText_spec (current : List Char) (overlap : ℕ) :
    ∃ taken, overlapText current overlap = some taken ∧ taken <:+ current ∧
      taken.length ≤ overlap := by
  unfold overlapText
  by_cases hcut : 0 < overlap ∧ overlap < current.length
  · rw [if_pos hcut, suffixByChars_eq]
    refine ⟨_, rfl, List.drop_suffix _ _, ?_⟩
    rw [List.length_drop]
    omega
  · rw [if_neg hcut]
    split
    · exact ⟨current, rfl, List.suffix_rfl, by omega⟩
    · exact ⟨[], rfl, List.nil_suffix, Nat.zero_le _⟩

theorem newChunk_spec (taken : List Char) {seg : List Char} (hne : seg ≠ []) (hlen : seg.length ≤ maxSize) :
    ∃ q : Part, newChunk maxSize taken seg = q.chunk ∧ (q.1 = taken ∨ q.1 = []) ∧
      solid q.2 = solid seg ∧ q.chunk ≠ [] ∧ q.chunk.length ≤ maxSize := by
  unfold newChunk
  by_cases hnil : taken = []
  · rw [if_pos hnil]
    exact ⟨([], seg), rfl, .inr rfl, rfl, hne, hlen⟩
  · rw [if_neg hnil]
    dsimp only
    by_cases hlong : maxSize < (taken ++ "\n\n".toList ++ seg).length
    · rw [if_pos hlong]
      exact ⟨([], seg), rfl, .inr rfl, rfl, hne, hlen⟩
    · rw [if_neg hlong]
      refine ⟨(taken, "\n\n".toList ++ seg), List.append_assoc _ _ _, .inl rfl, ?_, ?_, ?_⟩
      · rw [solid_append]
        rfl
      · exact List.append_ne_nil_of_left_ne_nil hnil _
      · rw [Part.chunk, ← List.append_assoc]
        exact Nat.le_of_not_lt hlong

theorem packLoop_spec
    (hsegments : ∀ s ∈ segments, s ≠ [] ∧ s.length ≤ maxSize)
    (hpacked : Packed maxSize overlap (parts ++ [p])) :
    ∃ parts', packLoop maxSize overlap segments (parts.map Part.chunk) p.chunk =
        some (parts'.map Part.chunk) ∧ Packed maxSize overlap parts' ∧
      covered parts' = covered (parts ++ [p]) ++ solid segments.flatten := by
  induction segments generalizing parts p with
  | nil =>
    have hne := (hpacked.sized p (List.mem_append_right _ (List.mem_singleton.mpr rfl))).1
    refine ⟨parts ++ [p], ?_, hpacked, (List.append_nil _).symm⟩
    rw [packLoop, if_neg hne, List.map_append]
    rfl
  | cons seg segments ih =>
    obtain ⟨⟨hseg, hlen⟩, hsegments⟩ := List.forall_mem_cons.mp hsegments
    have hne := (hpacked.sized p (List.mem_append_right _ (List.mem_singleton.mpr rfl))).1
    rw [packLoop, if_neg hne]
    by_cases hfits : p.chunk.length + 2 + seg.length ≤ maxSize
    · -- the segment is put behind the chunk
      have hchunk : p.chunk ++ "\n\n".toList ++ seg =
          Part.chunk (p.1, p.2 ++ "\n\n".toList ++ seg) := by
        unfold Part.chunk
        rw [List.append_assoc, List.append_assoc, List.append_assoc]
      have hlonger := hpacked.replace_last (q := (p.1, p.2 ++ "\n\n".toList ++ seg)) rfl
        ⟨hchunk ▸ List.append_ne_nil_of_right_ne_nil _ hseg, by
          rw [← hchunk, List.length_append, List.length_append]
          exact hfits⟩
      obtain ⟨parts', hloop, hpacked', hcovered⟩ := ih hsegments hlonger
      refine ⟨parts', ?_, hpacked', ?_⟩
      · rw [if_pos hfits, hchunk]
        exact hloop
      · rw [hcovered, covered_append, covered_append, covered_singleton, covered_singleton,
          List.flatten_cons, solid_append, solid_append, solid_append, List.append_assoc,
          List.append_assoc, List.append_assoc, List.append_assoc]
        rfl
    · obtain ⟨taken, htaken, hsuffix, hshort⟩ := overlapText_spec p.chunk overlap
      obtain ⟨q, hq, hbegins, hsolid, hsized⟩ := newChunk_spec taken hseg hlen
      have hcontinues : Continues overlap p q := by
        unfold Continues
        obtain heq | heq := hbegins
        · exact heq ▸ ⟨hsuffix, hshort⟩
        · exact heq ▸ ⟨List.nil_suffix, Nat.zero_le _⟩
      obtain ⟨parts', hloop, hpacked', hcovered⟩ := ih hsegments (hpacked.concat hcontinues hsized)
      refine ⟨parts', ?_, hpacked', ?_⟩
      · rw [if_neg hfits, htaken, Option.bind_some, hq, ← hloop, List.map_append]
        rfl
      · rw [hcovered, covered_append _ [q], covered_singleton, hsolid, List.flatten_cons,
          solid_append, List.append_assoc]

/-- **Short chunks that overlap have the whole text**, without its blanks. -/
structure Covers (maxSize overlap : ℕ) (text : List Char) (chunks : List (List Char)) : Prop where
  nonempty : ∀ c ∈ chunks, c ≠ []
  bounded : ∀ c ∈ chunks, c.length ≤ maxSize
  covers : ∃ parts : List Part, chunks = parts.map Part.chunk ∧
    (∀ p ∈ parts.head?, p.1 = []) ∧ parts.IsChain (Continues overlap) ∧
    solid (parts.flatMap Prod.snd) = solid text

theorem Packed.covers (h : Packed maxSize overlap parts) (hcovered : covered parts = solid text) :
    Covers maxSize overlap text (parts.map Part.chunk) := by
  refine ⟨fun c hc => ?_, fun c hc => ?_, parts, rfl, h.first, h.continues, hcovered⟩
  · obtain ⟨p, hp, rfl⟩ := List.mem_map.mp hc
    exact (h.sized p hp).1
  · obtain ⟨p, hp, rfl⟩ := List.mem_map.mp hc
    exact (h.sized p hp).2

theorem packWithOverlap_covers
    (h : Segmented maxSize text segments) (overlap : ℕ) :
    ∃ chunks, packWithOverlap segments maxSize overlap = some chunks ∧
      Covers maxSize overlap text chunks := by
  unfold packWithOverlap
  cases segments with
  | nil =>
    refine ⟨[], rfl, ?_⟩
    have hpacked : Packed maxSize overlap [] :=
      ⟨fun _ hp => absurd hp List.not_mem_nil, fun _ hp => (by cases hp), List.isChain_nil⟩
    exact hpacked.covers h.covers
  | cons seg segments =>
    obtain ⟨hseg, hsegments⟩ := List.forall_mem_cons.mp h.sized
    have hstart : Packed maxSize overlap ([] ++ [(([], seg) : Part)]) := packed_singleton rfl hseg
    obtain ⟨parts', hloop, hpacked, hcovered⟩ := packLoop_spec hsegments hstart
    refine ⟨parts'.map Part.chunk, ?_, hpacked.covers ?_⟩
    · rw [if_neg (List.cons_ne_nil _ _), packLoop, if_pos rfl]
      exact hloop
    · rw [hcovered, List.nil_append, covered_singleton, ← h.covers, List.flatten_cons,
        solid_append]

/-- **Chunks cover the document.** -/
theorem chunkText_covers (hmax : 0 < maxSize) (text : List Char) (overlap : ℕ) :
    ∃ chunks, chunkText text maxSize overlap = some chunks ∧
      Covers maxSize overlap text chunks := by
  unfold chunkText
  by_cases hnil : text = []
  · rw [if_pos (.inl hnil), hnil]
    exact packWithOverlap_covers (segmented_nil rfl) overlap
  · rw [if_neg (not_or.mpr ⟨hnil, Nat.pos_iff_ne_zero.mp hmax⟩)]
    split
    · rename_i hlen
      have hcovers := packWithOverlap_covers (segmented_self hnil hlen) overlap
      rwa [packWithOverlap, if_neg (List.cons_ne_nil _ _), packLoop, if_pos rfl, packLoop,
        if_neg hnil] at hcovers
    · obtain ⟨segments, hbuild, hsegments⟩ := buildSegments_segmented hmax text
      rw [hbuild, Option.bind_some]
      exact packWithOverlap_covers hsegments overlap

theorem chunkText_covers_accent : ∃ chunks,
    chunkText "né. a\n\nb".toList 3 1 = some chunks ∧ Covers 3 1 "né. a\n\nb".toList chunks :=
  chunkText_covers (by decide) _ 1

end LibreFang.Memory.Chunker
