import LibreFang.Context.Compressor

/-!
# What a compression protects

A compression leaves whole exchanges, the first and the most recent messages, and no more tokens
than there were, unless the numbers of protected messages have a sum that wraps around.

* `Summarized`, `Protects`: what a compression promises.
* **`compressLoop_protects`**: without a wrap there is one pass at most, and it keeps the promise.
* **`compressIfNeeded_protects_iff`**: a compression keeps its promise exactly when it fits.
-/

namespace LibreFang.Context

open Session

variable {cfg : CompressionConfig} {req : Request} {messages : List Message}

/-! ## The promise -/

/-- A summary stands for the middle part: not for the first messages, and for the most recent ones
only if they deliver results of calls that it stands for; it is pinned if a message of them was. -/
structure Summarized (cfg : CompressionConfig) (messages front middle back : List Message)
    (summary : Message) : Prop where
  input : messages = front ++ middle ++ back
  first : messages.take cfg.protectHead.toNat <+: front
  recent : ∃ moved recent,
    messages.drop (messages.length - cfg.keepRecent.toNat) = moved ++ recent ∧ recent <:+ back ∧
      ∀ m ∈ moved, msgIsToolResultDelivery m = true ∧ ∀ x ∈ toolResultIds m, x ∈ calls middle
  pinned : (∃ m ∈ middle, m.pinned = true) → summary.pinned = true

/-- What a compression promises. -/
structure Protects (cfg : CompressionConfig) (req : Request) (messages : List Message)
    (out : Compression) : Prop where
  exchanges : Exchanges out.messages
  frame : out.messages = messages ∨ ∃ front middle back summary,
    out.messages = front ++ summary :: back ∧ Summarized cfg messages front middle back summary
  estimate : req.estimate out.messages ≤ req.estimate messages
  entered : ∀ current ∈ out.entered, middle cfg current ≠ []

/-- The summary of a pass. -/
def passSummary (cfg : CompressionConfig) (req : Request) (iteration : ℕ)
    (messages : List Message) : Message :=
  summaryMsg (summaryRole (head cfg messages) (tail cfg messages)) (middle cfg messages)
    (compactSession (req.driver iteration) (middle cfg messages) 0).summary (req.now iteration)

/-- The estimated tokens of messages. -/
def messageTokens (messages : List Message) : ℕ :=
  (messages.map fun msg => estimateMessageTokens msg + 4).sum

/-- The numbers of protected messages do not wrap around, or the first pass changes nothing: it is
not needed or not entered, or its summary takes no fewer tokens than a middle part that is there. -/
def Fits (cfg : CompressionConfig) (req : Request) (messages : List Message) : Prop :=
  cfg.protectHead.toNat + cfg.keepRecent.toNat + 2 < 2 ^ 64 ∨ cfg.maxIterations.toNat = 0 ∨
    shouldCompress cfg req messages = false ∨ messages.length ≤ minForCompress cfg ∨
    headEnd cfg messages < tailStart cfg messages ∧
      messageTokens (middle cfg messages) ≤ messageTokens [passSummary cfg req 0 messages]

theorem messageTokens_append (a b : List Message) :
    messageTokens (a ++ b) = messageTokens a + messageTokens b := by
  unfold messageTokens
  rw [List.map_append, List.sum_append]

theorem estimate_eq (req : Request) (messages : List Message) :
    req.estimate messages = req.estimate [] + messageTokens messages := by
  unfold Request.estimate estimateTokenCount messageTokens
  rw [List.map_nil, List.sum_nil]
  omega

theorem estimate_le_iff {a b : List Message} :
    req.estimate a ≤ req.estimate b ↔ messageTokens a ≤ messageTokens b := by
  rw [estimate_eq req a, estimate_eq req b]
  omega

/-! ## A round of the loop -/

/-- The messages after a pass. -/
def compressed (cfg : CompressionConfig) (req : Request) (iteration : ℕ)
    (messages : List Message) : List Message :=
  head cfg messages ++ passSummary cfg req iteration messages :: tail cfg messages

/-- The loop enters a pass. -/
def Enters (cfg : CompressionConfig) (req : Request) (messages : List Message) : Prop :=
  shouldCompress cfg req messages = true ∧ minForCompress cfg < messages.length

variable {iteration left : ℕ}

theorem compressLoop_of_not_enters (h : ¬ Enters cfg req messages) :
    compressLoop cfg req iteration left messages = ⟨messages, [], []⟩ := by
  cases left with
  | zero => rfl
  | succ left =>
    unfold compressLoop
    split_ifs with hshould hmin
    · rfl
    · rfl
    · exact absurd ⟨Bool.eq_true_of_not_eq_false hshould, by omega⟩ h

theorem compressLoop_of_no_middle (h : Enters cfg req messages)
    (hcuts : tailStart cfg messages ≤ headEnd cfg messages) :
    compressLoop cfg req iteration (left + 1) messages = ⟨messages, [], [messages]⟩ := by
  unfold compressLoop compressOnce
  rw [if_neg (by rw [h.1]; decide), if_neg (Nat.not_le.mpr h.2), if_pos hcuts]

theorem compressLoop_of_larger (h : Enters cfg req messages)
    (hcuts : headEnd cfg messages < tailStart cfg messages)
    (hlarger : req.estimate messages ≤ req.estimate (compressed cfg req iteration messages)) :
    compressLoop cfg req iteration (left + 1) messages = ⟨messages, [], [messages]⟩ := by
  unfold compressLoop compressOnce
  rw [if_neg (by rw [h.1]; decide), if_neg (Nat.not_le.mpr h.2), if_neg (Nat.not_le.mpr hcuts)]
  exact if_pos hlarger

/-- The event of a pass. -/
def eventOf (cfg : CompressionConfig) (req : Request) (iteration : ℕ) (messages : List Message) :
    CompressionEvent :=
  ⟨req.estimate messages, req.estimate (compressed cfg req iteration messages), messages.length,
    (compressed cfg req iteration messages).length, iteration,
    (compactSession (req.driver iteration) (middle cfg messages) 0).usedFallback⟩

theorem compressLoop_of_smaller (h : Enters cfg req messages)
    (hcuts : headEnd cfg messages < tailStart cfg messages)
    (hsmaller : req.estimate (compressed cfg req iteration messages) < req.estimate messages) :
    compressLoop cfg req iteration (left + 1) messages =
      let rest := compressLoop cfg req (iteration + 1) left (compressed cfg req iteration messages)
      ⟨rest.messages, eventOf cfg req iteration messages :: rest.events,
        messages :: rest.entered⟩ := by
  rw [compressLoop, compressOnce, if_neg (by rw [h.1]; decide), if_neg (Nat.not_le.mpr h.2),
    if_neg (Nat.not_le.mpr hcuts)]
  exact if_neg (Nat.not_le.mpr hsmaller)

theorem estimate_compressLoop_le :
    req.estimate (compressLoop cfg req iteration left messages).messages ≤
      req.estimate messages := by
  induction left generalizing iteration messages with
  | zero => exact le_rfl
  | succ left ih =>
    by_cases h : Enters cfg req messages
    · by_cases hcuts : headEnd cfg messages < tailStart cfg messages
      · by_cases hsmaller : req.estimate (compressed cfg req iteration messages) <
            req.estimate messages
        · rw [compressLoop_of_smaller h hcuts hsmaller]
          exact ih.trans hsmaller.le
        · rw [compressLoop_of_larger h hcuts (Nat.not_lt.mp hsmaller)]
      · rw [compressLoop_of_no_middle h (Nat.not_lt.mp hcuts)]
    · rw [compressLoop_of_not_enters h]

/-! ## Without a wrap -/

theorem minForCompress_eq (hnowrap : cfg.protectHead.toNat + cfg.keepRecent.toNat + 2 < 2 ^ 64) :
    minForCompress cfg = cfg.protectHead.toNat + cfg.keepRecent.toNat + 2 := by
  unfold minForCompress
  rw [UInt64.toNat_add, UInt64.toNat_add]
  change ((_ + _) % 2 ^ 64 + 2) % 2 ^ 64 = _
  omega

section

variable (hnowrap : cfg.protectHead.toNat + cfg.keepRecent.toNat + 2 < 2 ^ 64)
  (h : Enters cfg req messages)

include hnowrap h in
theorem headEnd_lt_nominalTailStart :
    nominalTailStart cfg messages = messages.length - cfg.keepRecent.toNat ∧
      headEnd cfg messages < nominalTailStart cfg messages := by
  have hmin := h.2
  rw [minForCompress_eq hnowrap] at hmin
  have hhead := (headEnd_bounds cfg messages).2.1
  have hnominal : nominalTailStart cfg messages = messages.length - cfg.keepRecent.toNat := by
    unfold nominalTailStart
    rw [if_pos (by omega)]
  exact ⟨hnominal, by omega⟩

include hnowrap h in
theorem not_enters_compressed : ¬ Enters cfg req (compressed cfg req iteration messages) := by
  rintro ⟨-, hmin⟩
  obtain ⟨hnominal, hgap⟩ := headEnd_lt_nominalTailStart hnowrap h
  have hhead := (headEnd_bounds cfg messages).2.1
  have htail := (tailStart_bounds cfg messages).1
  rw [minForCompress_eq hnowrap] at hmin
  unfold compressed head tail at hmin
  rw [List.length_append, List.length_cons, List.length_take, List.length_drop] at hmin
  omega

include hnowrap h in
theorem summarized_compressed (hexchanges : Exchanges messages) :
    Summarized cfg messages (head cfg messages) (middle cfg messages) (tail cfg messages)
      (passSummary cfg req iteration messages) := by
  obtain ⟨hnominal, hgap⟩ := headEnd_lt_nominalTailStart hnowrap h
  have hcuts : headEnd cfg messages < tailStart cfg messages := hgap.trans_le (tailStart_bounds cfg messages).1
  constructor
  · exact (head_append_middle_append_tail hcuts).symm
  · have hhead := (headEnd_bounds cfg messages).1
    have hmin := h.2
    rw [minForCompress_eq hnowrap] at hmin
    exact List.take_prefix_take_left (by omega)
  · refine ⟨moved cfg messages, tail cfg messages, ?_, List.suffix_rfl, fun m hm => ⟨?_, ?_⟩⟩
    · rw [moved_append_tail, hnominal]
    · exact List.mem_takeWhile_imp hm
    · exact fun x hx => moved_calls hexchanges hgap hm hx
  · rintro ⟨m, hm, hpinned⟩
    exact List.any_eq_true.mpr ⟨m, hm, hpinned⟩

end

theorem protects_unchanged (hexchanges : Exchanges messages) {out : Compression}
    (hsame : out.messages = messages) (hentered : ∀ ms ∈ out.entered, middle cfg ms ≠ []) :
    Protects cfg req messages out :=
  ⟨hsame ▸ hexchanges, .inl hsame, by rw [hsame], hentered⟩

theorem middle_ne_nil (hcuts : headEnd cfg messages < tailStart cfg messages) :
    middle cfg messages ≠ [] := by
  have hle := (tailStart_bounds cfg messages).2
  refine List.ne_nil_of_length_pos ?_
  unfold middle
  rw [List.length_drop, List.length_take]
  omega

/-- **Without a wrap, a compression keeps its promise.** -/
theorem compressLoop_protects (hexchanges : Exchanges messages)
    (hnowrap : cfg.protectHead.toNat + cfg.keepRecent.toNat + 2 < 2 ^ 64) :
    Protects cfg req messages (compressLoop cfg req iteration left messages) := by
  by_cases h : Enters cfg req messages
  · have hcuts : headEnd cfg messages < tailStart cfg messages :=
      (headEnd_lt_nominalTailStart hnowrap h).2.trans_le (tailStart_bounds cfg messages).1
    cases left with
    | zero => exact protects_unchanged hexchanges rfl fun ms hms => absurd hms List.not_mem_nil
    | succ left =>
      by_cases hsmaller : req.estimate (compressed cfg req iteration messages) <
          req.estimate messages
      · rw [compressLoop_of_smaller h hcuts hsmaller,
          compressLoop_of_not_enters (not_enters_compressed hnowrap h)]
        refine ⟨exchanges_compressed hexchanges hcuts rfl rfl, .inr ⟨_, _, _, _, rfl,
          summarized_compressed hnowrap h hexchanges⟩, hsmaller.le, fun ms hms => ?_⟩
        obtain rfl := List.mem_singleton.mp hms
        exact middle_ne_nil hcuts
      · rw [compressLoop_of_larger h hcuts (Nat.not_lt.mp hsmaller)]
        refine protects_unchanged hexchanges rfl fun ms hms => ?_
        obtain rfl := List.mem_singleton.mp hms
        exact middle_ne_nil hcuts
  · rw [compressLoop_of_not_enters h]
    exact protects_unchanged hexchanges rfl fun ms hms => absurd hms List.not_mem_nil

/-! ## With a wrap -/

theorem estimate_compressed_le_iff (hcuts : headEnd cfg messages < tailStart cfg messages) :
    req.estimate messages ≤ req.estimate (compressed cfg req iteration messages) ↔
      messageTokens (middle cfg messages) ≤
        messageTokens [passSummary cfg req iteration messages] := by
  have hsplit : messageTokens messages = messageTokens (head cfg messages) +
      messageTokens (middle cfg messages) + messageTokens (tail cfg messages) := by
    rw [← messageTokens_append, ← messageTokens_append, head_append_middle_append_tail hcuts]
  have hcompressed : messageTokens (compressed cfg req iteration messages) =
      messageTokens (head cfg messages) + (messageTokens [passSummary cfg req iteration messages] +
        messageTokens (tail cfg messages)) := by
    unfold compressed
    rw [messageTokens_append, ← List.singleton_append, messageTokens_append]
  rw [estimate_le_iff, hsplit, hcompressed]
  omega

theorem not_delivers_of_cons {m : Message} {ms : List Message} (h : Exchanges (m :: ms)) :
    msgIsToolResultDelivery m = false := by
  by_contra hdelivers
  unfold msgIsToolResultDelivery at hdelivers
  rw [Bool.not_eq_false, Bool.and_eq_true, List.any_eq_true] at hdelivers
  obtain ⟨-, b, hb, hbx⟩ := hdelivers
  obtain ⟨x, hx⟩ := Option.isSome_iff_exists.mp hbx
  obtain ⟨j, p, hj, -⟩ := h.preceded 0 m rfl x (mem_toolResultIds.mpr ⟨b, hb, hx⟩) trivial
  omega

theorem not_protects_of_keep_all (hexchanges : Exchanges messages) {out : Compression}
    (hkeep : messages.length ≤ cfg.keepRecent.toNat)
    (hsmaller : req.estimate out.messages < req.estimate messages) :
    ¬ Protects cfg req messages out := by
  rintro ⟨-, hframe, -, -⟩
  rcases hframe with hsame | ⟨front, middle, back, summary, hout, hsummarized⟩
  · rw [hsame] at hsmaller
    exact lt_irrefl _ hsmaller
  · obtain ⟨moved, recent, hsplit, hback, hmoved⟩ := hsummarized.recent
    rw [Nat.sub_eq_zero_of_le hkeep, List.drop_zero] at hsplit
    have hnone : moved = [] := by
      cases moved with
      | nil => rfl
      | cons m ms =>
        rw [hsplit] at hexchanges
        have hdelivers := (hmoved m List.mem_cons_self).1
        rw [not_delivers_of_cons hexchanges] at hdelivers
        cases hdelivers
    rw [hnone, List.nil_append] at hsplit
    subst hsplit
    -- the tail has all messages, and the summary comes on top
    obtain ⟨before, rfl⟩ := hback
    refine Nat.not_le.mpr hsmaller (estimate_le_iff.mpr ?_)
    rw [hout, messageTokens_append, ← List.singleton_append, messageTokens_append,
      messageTokens_append]
    omega

theorem not_protects_of_smaller (hexchanges : Exchanges messages)
    (hkeep : messages.length ≤ cfg.keepRecent.toNat) (h : Enters cfg req messages)
    (hcuts : headEnd cfg messages < tailStart cfg messages)
    (hsmaller : req.estimate (compressed cfg req iteration messages) < req.estimate messages) :
    ¬ Protects cfg req messages (compressLoop cfg req iteration (left + 1) messages) := by
  refine not_protects_of_keep_all hexchanges hkeep ?_
  rw [compressLoop_of_smaller h hcuts hsmaller]
  exact estimate_compressLoop_le.trans_lt hsmaller

theorem keep_all_of_wrap (hlen : messages.length < 2 ^ 63)
    (hwrap : ¬ cfg.protectHead.toNat + cfg.keepRecent.toNat + 2 < 2 ^ 64)
    (hcuts : headEnd cfg messages < tailStart cfg messages) :
    messages.length ≤ cfg.keepRecent.toNat := by
  have hhead := (headEnd_bounds cfg messages).1
  have htail := (tailStart_bounds cfg messages).2
  omega

theorem middle_eq_nil (hcuts : tailStart cfg messages ≤ headEnd cfg messages) :
    middle cfg messages = [] := by
  unfold middle
  exact List.drop_eq_nil_of_le ((List.length_take_le ..).trans hcuts)

theorem fits_iff_of_enters
    (hwrap : ¬ cfg.protectHead.toNat + cfg.keepRecent.toNat + 2 < 2 ^ 64)
    (h : Enters cfg req messages) (hleft : cfg.maxIterations.toNat ≠ 0) :
    Fits cfg req messages ↔ headEnd cfg messages < tailStart cfg messages ∧
      req.estimate messages ≤ req.estimate (compressed cfg req 0 messages) := by
  obtain ⟨hshould, hmin⟩ := h
  constructor
  · rintro (hfits | hfits | hfits | hfits | ⟨hcuts, hlarger⟩)
    · exact absurd hfits hwrap
    · exact absurd hfits hleft
    · rw [hshould] at hfits
      cases hfits
    · exact absurd hfits (Nat.not_le.mpr hmin)
    · exact ⟨hcuts, (estimate_compressed_le_iff hcuts).mpr hlarger⟩
  · rintro ⟨hcuts, hlarger⟩
    exact .inr (.inr (.inr (.inr ⟨hcuts, (estimate_compressed_le_iff hcuts).mp hlarger⟩)))

theorem fits_of_not_enters (h : ¬ Enters cfg req messages) : Fits cfg req messages := by
  by_cases hshould : shouldCompress cfg req messages = true
  · exact .inr (.inr (.inr (.inl (Nat.not_lt.mp fun hmin => h ⟨hshould, hmin⟩))))
  · exact .inr (.inr (.inl (Bool.eq_false_of_not_eq_true hshould)))

/-- **A compression keeps its promise exactly when it fits.** -/
theorem compressIfNeeded_protects_iff (hexchanges : Exchanges messages)
    (hlen : messages.length < 2 ^ 63) :
    Protects cfg req messages (compressIfNeeded cfg req messages) ↔ Fits cfg req messages := by
  unfold compressIfNeeded
  by_cases hwrap : cfg.protectHead.toNat + cfg.keepRecent.toNat + 2 < 2 ^ 64
  · exact iff_of_true (compressLoop_protects hexchanges hwrap) (.inl hwrap)
  by_cases h : Enters cfg req messages
  · cases hleft : cfg.maxIterations.toNat with
    | zero =>
      refine iff_of_true ?_ (.inr (.inl hleft))
      exact protects_unchanged hexchanges rfl fun ms hms => absurd hms List.not_mem_nil
    | succ left =>
      rw [fits_iff_of_enters hwrap h (by omega)]
      by_cases hcuts : headEnd cfg messages < tailStart cfg messages
      · by_cases hlarger : req.estimate messages ≤ req.estimate (compressed cfg req 0 messages)
        · refine iff_of_true ?_ ⟨hcuts, hlarger⟩
          rw [compressLoop_of_larger h hcuts hlarger]
          refine protects_unchanged hexchanges rfl fun ms hms => ?_
          obtain rfl := List.mem_singleton.mp hms
          exact middle_ne_nil hcuts
        · refine iff_of_false ?_ fun hfits => hlarger hfits.2
          exact not_protects_of_smaller hexchanges (keep_all_of_wrap hlen hwrap hcuts) h hcuts
            (Nat.not_le.mp hlarger)
      · refine iff_of_false (fun hprotects => ?_) fun hfits => hcuts hfits.1
        have hentered := hprotects.entered
        rw [compressLoop_of_no_middle h (Nat.not_lt.mp hcuts)] at hentered
        exact hentered messages List.mem_cons_self (middle_eq_nil (Nat.not_lt.mp hcuts))
  · refine iff_of_true ?_ (fits_of_not_enters h)
    rw [compressLoop_of_not_enters h]
    exact protects_unchanged hexchanges rfl fun ms hms => absurd hms List.not_mem_nil

/-- Six messages with images. -/
def longTalk : List Message :=
  (List.range 6).map fun i =>
    ⟨if i % 2 = 0 then .user else .assistant,
      .blocks (List.replicate 4 (.imageFile "image/png" "/tmp/a.png")), false, none⟩

theorem exchanges_longTalk : Exchanges longTalk := by
  refine exchanges_of_no_tools fun m hm => ?_
  obtain ⟨i, -, rfl⟩ := List.mem_map.mp hm
  exact ⟨rfl, rfl⟩

/-- A small context, and a model that does not answer. -/
def smallContext : Request := ⟨"", [], 100, fun _ => silent, fun _ => 0⟩

theorem default_protects : Protects .default smallContext longTalk
    (compressIfNeeded .default smallContext longTalk) :=
  (compressIfNeeded_protects_iff exchanges_longTalk (by decide)).mpr (.inl (by decide))

/-- All messages are recent ones. -/
def keepAll : CompressionConfig := ⟨.finite (1 / 2), 3, 18446744073709551615, 3⟩

theorem estimateStrTokens_append_le (a b : String) :
    estimateStrTokens (a ++ b) ≤ estimateStrTokens a + estimateStrTokens b := by
  unfold estimateStrTokens
  rw [String.toList_append, List.map_append, List.sum_append]
  omega

theorem estimateStrTokens_summaryPrefix : estimateStrTokens summaryPrefix ≤ 120 := by
  unfold summaryPrefix
  refine (estimateStrTokens_append_le ..).trans ?_
  refine (Nat.add_le_add_right ((estimateStrTokens_append_le ..).trans
    (Nat.add_le_add_right (estimateStrTokens_append_le ..) _)) _).trans ?_
  decide

/-- The summary that the model has not made. -/
def noSummary : String :=
  s!"[Session compacted: {3} messages removed. Recent {0} " ++
    "messages preserved. Summarization was unavailable.]"

theorem messageTokens_text (role : Role) (s : String) (pinned : Bool) (timestamp : Option ℤ) :
    messageTokens [⟨role, .text s, pinned, timestamp⟩] = estimateStrTokens s + 4 := rfl

theorem passSummary_keepAll :
    messageTokens [passSummary keepAll smallContext 0 longTalk] ≤ 200 := by
  have hsummary : messageTokens [passSummary keepAll smallContext 0 longTalk] =
      estimateStrTokens (summaryPrefix ++ "\n\n" ++ noSummary) + 4 := by
    have hresult : (compactSession silent (middle keepAll longTalk) 0).summary = noSummary := rfl
    unfold passSummary smallContext summaryMsg
    dsimp only
    rw [hresult, messageTokens_text]
  have hlines : estimateStrTokens "\n\n" ≤ 1 := by decide
  have hnone : estimateStrTokens noSummary ≤ 30 := by decide
  calc messageTokens [passSummary keepAll smallContext 0 longTalk]
      = estimateStrTokens (summaryPrefix ++ "\n\n" ++ noSummary) + 4 := hsummary
    _ ≤ estimateStrTokens (summaryPrefix ++ "\n\n") + estimateStrTokens noSummary + 4 :=
        Nat.add_le_add_right (estimateStrTokens_append_le ..) 4
    _ ≤ estimateStrTokens summaryPrefix + estimateStrTokens "\n\n" +
          estimateStrTokens noSummary + 4 :=
        Nat.add_le_add_right (Nat.add_le_add_right (estimateStrTokens_append_le ..) _) 4
    _ ≤ 200 := by
        have htext := estimateStrTokens_summaryPrefix
        omega

theorem enters_keepAll : Enters keepAll smallContext longTalk := by
  constructor
  · decide +kernel
  · decide

theorem cuts_keepAll : headEnd keepAll longTalk < tailStart keepAll longTalk := by decide

theorem middle_keepAll : 200 < messageTokens (middle keepAll longTalk) := by decide

theorem smaller_keepAll : smallContext.estimate (compressed keepAll smallContext 0 longTalk) <
    smallContext.estimate longTalk := by
  refine Nat.not_le.mp fun hle => ?_
  exact absurd ((estimate_compressed_le_iff cuts_keepAll).mp hle)
    (Nat.not_le.mpr (passSummary_keepAll.trans_lt middle_keepAll))

/-- **A configuration that keeps all messages** loses them. -/
theorem keep_all : Exchanges longTalk ∧
    ¬ Protects keepAll smallContext longTalk (compressIfNeeded keepAll smallContext longTalk) := by
  have hfirst : ¬ Protects keepAll smallContext longTalk
      (compressLoop keepAll smallContext 0 (2 + 1) longTalk) :=
    not_protects_of_smaller exchanges_longTalk (by decide +kernel) enters_keepAll cuts_keepAll
      smaller_keepAll
  exact ⟨exchanges_longTalk, hfirst⟩

end LibreFang.Context
