import LibreFang.Session.Repaired
import LibreFang.Session.Start
import LibreFang.Session.Trim

/-!
# The history of an agent

A session keeps the messages of an agent. Each turn works on a repaired copy of them, and both are
trimmed and cleaned before the first request.

* `stripImages`, `stripPriorImageData`: images that a model has seen become a note.
* **`servable_started`**, **`servable_safeTrimMessages`**: what repair and trimming keep of that.
* **`servable_prepareLlmMessages`**: the working copy of a turn when it starts.
-/

namespace LibreFang.Agent

open Session Text

/-! ## Messages -/

/-- `Message::user`. -/
def Message.user (s : String) (now : ℤ) : Message := ⟨.user, .text s, false, some now⟩

/-- `Message::assistant`. -/
def Message.assistant (s : String) (now : ℤ) : Message := ⟨.assistant, .text s, false, some now⟩

/-- A block of an image. -/
def isImage : ContentBlock → Bool
  | .image _ _ | .imageFile _ _ => true
  | _ => false

/-- An image becomes a note. -/
def stripBlock : ContentBlock → ContentBlock
  | .image mediaType _ | .imageFile mediaType _ =>
    .text s!"[Image ({mediaType}) previously processed]" none
  | block => block

/-- `has_images`. -/
def hasImages (m : Message) : Bool := m.blocks.any isImage

/-- `strip_images`. -/
def stripImages (m : Message) : Message := m.mapBlocks (List.map stripBlock)

/-- `strip_processed_image_data`. -/
def stripProcessedImageData (ms : List Message) : List Message := ms.map stripImages

/-- The last message of the user with an image, which no model has seen yet. -/
def lastUserIdx (ms : List Message) : Option ℕ :=
  (ms.reverse.findIdx? fun m => m.role = .user ∧ hasImages m).map fun i => ms.length - 1 - i

/-- `strip_prior_image_data`. -/
def stripPriorImageData (ms : List Message) : List Message :=
  ms.mapIdx fun i m => if some i = lastUserIdx ms then m else stripImages m

/-! ## Silent replies -/

/-- `to_ascii_lowercase`. -/
def toAsciiLowercase (s : List Char) : List Char := s.map Char.toLower

/-- What `strip_trailing_noise` takes off the end. -/
def isTrailingNoise (c : Char) : Bool :=
  c ∈ [' ', '\t', '\n', '\x0c', '\r'] || c ∈ ".,;:!?".toList || decide (127 < c.toNat)

/-- `strip_trailing_noise`. -/
def stripTrailingNoise (s : List Char) : List Char := s.rdropWhile isTrailingNoise

/-- `matches_canonical`. -/
def matchesCanonical (s : List Char) : Bool :=
  ["no_reply".toList, "[no reply needed]".toList, "no reply needed".toList].contains
    (toAsciiLowercase s)

/-- A needle at the end, with no character of a word right before it. -/
def endsWithWord (needle s : List Char) : Bool :=
  decide (needle <:+ s) &&
    ((s.take (s.length - needle.length)).getLast?.all fun prev =>
      !(prev.isAlphanum || prev == '_'))

/-- `ends_with_canonical`. -/
def endsWithCanonical (s : List Char) : Bool :=
  ["no_reply".toList, "[no reply needed]".toList].any fun needle =>
    endsWithWord needle (toAsciiLowercase s)

/-- `legacy_is_silent`. -/
def legacyIsSilent (text : List Char) : Bool :=
  ["NO_REPLY".toList, "[no reply needed]".toList, "no reply needed".toList].any fun needle =>
    decide (needle <:+ trim text)

/-- `is_silent_response`; `v2Enabled` is the flag of the environment. -/
def isSilentResponse (v2Enabled : Bool) (text : String) : Bool :=
  if (trim text.toList).isEmpty then false
  else if v2Enabled then
    let stripped := stripTrailingNoise (trim text.toList)
    matchesCanonical stripped || endsWithCanonical stripped
  else legacyIsSilent text.toList

example : isSilentResponse true "All good. NO_REPLY!" = true := by decide +kernel

/-- A reply of the assistant that is silent, as `prune_heartbeat_turns` reads it. -/
def isNoReply (v2Enabled : Bool) (m : Message) : Bool :=
  decide (m.role = .assistant) &&
    match m.content with
    | .text text => isSilentResponse v2Enabled text
    | .blocks [.text text _] => isSilentResponse v2Enabled text
    | .blocks _ => false

/-- `prune_heartbeat_turns`: the silent replies before the last `keepRecent` messages are removed. -/
def pruneHeartbeatTurns (v2Enabled : Bool) (ms : List Message) (keepRecent : ℕ) : List Message :=
  if ms.length ≤ keepRecent then ms
  else
    let pruneEnd := ms.length - keepRecent
    (ms.take pruneEnd).filter (fun m => !isNoReply v2Enabled m) ++ ms.drop pruneEnd

/-! ## Trimming -/

/-- The number of messages to trim. -/
def trimPoint (ms : List Message) (desired : ℕ) : ℕ :=
  ((findSafeTrimPoint ms desired).filter fun p => decide (0 < p)).getD desired

/-- What is left of a history after `trim_point` messages. -/
def trimmed (ms : List Message) (maxHistory : ℕ) : List Message :=
  ms.drop (trimPoint ms (ms.length - maxHistory))

/-- `ensure_starts_with_user`, which always breaks. -/
def started (ms : List Message) : List Message :=
  (ensureStartsWithUser (others ms + 1) ms).getD ms

/-- `safe_trim_messages`: the working copy and the session. -/
def safeTrimMessages (messages sessionMessages : List Message) (userMessage : Message)
    (maxHistory : ℕ) : List Message × List Message :=
  let session :=
    if maxHistory < sessionMessages.length then trimmed sessionMessages maxHistory
    else sessionMessages
  if messages.length ≤ maxHistory then (messages, session)
  else
    let kept := started (validateAndRepair (trimmed messages maxHistory))
    if kept.length < 2 ∨ ¬ kept.any (fun m => m.role = .user) then
      (kept.filter (fun m => m.role = .system) ++ [userMessage], session)
    else (kept, session)

/-- What `build_prompt_setup` and the manifest add in front of the history. -/
structure Preamble where
  canonicalContextMsg : Option String
  memoryContextMsg : Option String
  searchResults : Option String

/-- The messages of the preamble that stand before the history when it is trimmed. -/
def Preamble.contextMessages (p : Preamble) (now : ℤ) : List Message :=
  (p.memoryContextMsg.map fun memMsg => Message.user
    s!"[System context — what you know about this person]\n{memMsg}" now).toList ++
  ((p.canonicalContextMsg.filter fun ccMsg => !ccMsg.isEmpty).map fun ccMsg =>
    Message.user ccMsg now).toList

/-- `PreparedMessages`, and the session. -/
structure PreparedMessages where
  messages : List Message
  session : List Message
  newMessagesStart : ℕ

/-- `prepare_llm_messages`. -/
def prepareLlmMessages (session : List Message) (userMessage : String) (preamble : Preamble)
    (maxHistory : ℕ) (now : ℤ) : PreparedMessages :=
  let llmMessages := session.filter fun m => m.role ≠ .system
  let messages := preamble.contextMessages now ++ validateAndRepair llmMessages
  let (messages, session) :=
    safeTrimMessages messages session (Message.user userMessage now) maxHistory
  ⟨stripPriorImageData messages, stripPriorImageData session, session.length - 1⟩

/-- A message with the role, the calls and the results of another one. -/
structure Relabel (m m' : Message) : Prop where
  role : m'.role = m.role
  uses : toolUseIds m' = toolUseIds m
  results : toolResultIds m' = toolResultIds m

theorem Relabel.refl (m : Message) : Relabel m m := ⟨rfl, rfl, rfl⟩

theorem Relabel.rewrite {m m' : Message} (h : Relabel m m') : Rewrite m m' :=
  ⟨h.role, h.uses, fun _ hx => h.results ▸ hx⟩

theorem relabel_mapBlocks {f : ContentBlock → ContentBlock}
    (huse : ∀ b, (f b).useId? = b.useId?) (hresult : ∀ b, (f b).resultId? = b.resultId?)
    (m : Message) : Relabel m (m.mapBlocks (List.map f)) where
  role := mapBlocks_role _ _
  uses := by
    rw [toolUseIds, mapBlocks_blocks _ _ rfl, List.filterMap_map]
    exact List.filterMap_congr fun b _ => huse b
  results := by
    rw [toolResultIds, mapBlocks_blocks _ _ rfl, List.filterMap_map]
    exact List.filterMap_congr fun b _ => hresult b

theorem relabel_stripImages (m : Message) : Relabel m (stripImages m) :=
  relabel_mapBlocks (fun b => by cases b <;> rfl) (fun b => by cases b <;> rfl) m

theorem relabel_stripProcessedImageData (ms : List Message) :
    List.Forall₂ Relabel ms (stripProcessedImageData ms) :=
  List.forall₂_map_right_iff.mpr (List.forall₂_same.mpr fun m _ => relabel_stripImages m)

theorem relabel_stripPriorImageData (ms : List Message) :
    List.Forall₂ Relabel ms (stripPriorImageData ms) := by
  refine List.forall₂_iff_get.mpr ⟨(List.length_mapIdx).symm, fun i h₁ h₂ => ?_⟩
  simp only [stripPriorImageData, List.get_eq_getElem, List.getElem_mapIdx]
  split_ifs
  · exact Relabel.refl _
  · exact relabel_stripImages _

/-! ## Pairs -/

section Pairs

variable {a b ms ms' : List Message}

theorem paired_of_relabel (h : List.Forall₂ Relabel ms ms') (hp : Paired ms) : Paired ms' :=
  paired_of_forall₂ (h.imp fun _ _ hm => hm.rewrite) hp

theorem paired_append (ha : Paired a) (hb : Paired b) : Paired (a ++ b) := by
  induction a with
  | nil => exact hb
  | cons m a ih =>
    obtain ⟨hnext, ha⟩ := paired_cons.mp ha
    refine paired_cons.mpr ⟨fun x hx => ?_, ih ha⟩
    -- the answer stands in the first part, which is not empty then
    obtain ⟨n, hn, hrole, hxn⟩ := mem_adjacentResults.mp (hnext x hx)
    have hhead : (a ++ b).head? = some n := by rw [List.head?_append, hn]; rfl
    exact mem_adjacentResults.mpr ⟨n, hhead, hrole, hxn⟩

theorem paired_drop (h : Paired ms) (n : ℕ) : Paired (ms.drop n) := by
  induction n generalizing ms with
  | zero => exact h
  | succ n ih =>
    cases ms with
    | nil => exact h
    | cons m ms => exact ih (paired_cons.mp h).2

theorem paired_concat (h : Paired ms) {m : Message} (huses : toolUseIds m = []) :
    Paired (ms ++ [m]) := by
  refine paired_append h (paired_cons.mpr ⟨fun x hx => ?_, paired_nil⟩)
  rw [mem_idsNeeded, huses] at hx
  exact absurd hx.2 List.not_mem_nil

end Pairs

/-! ## What a provider takes -/

/-- Calls come from the assistant and are answered by the next message, results come from the
user. -/
structure Sound (ms : List Message) : Prop where
  uses : ∀ m ∈ ms, toolUseIds m ≠ [] → m.role = .assistant
  inUser : ResultsInUser ms
  paired : Paired ms

/-- A history a provider takes: besides, every result answers a call of the history. -/
structure Servable (ms : List Message) : Prop extends Sound ms where
  answers : ∀ m ∈ ms, ∀ x ∈ toolResultIds m, x ∈ calls ms

section Servable

variable {a b ms ms' : List Message}

theorem Sound.wellPlaced (h : Sound ms) : WellPlaced ms :=
  fun m hm => ⟨h.uses m hm, fun hx => Or.inl (h.inUser m hm hx)⟩

theorem wellPlaced_of_subset (h : WellPlaced ms) (hsub : ms' ⊆ ms) : WellPlaced ms' :=
  fun m hm => h m (hsub hm)

theorem Sound.append (ha : Sound a) (hb : Sound b) : Sound (a ++ b) where
  uses := List.forall_mem_append.mpr ⟨ha.uses, hb.uses⟩
  inUser := List.forall_mem_append.mpr ⟨ha.inUser, hb.inUser⟩
  paired := paired_append ha.paired hb.paired

theorem Sound.drop (h : Sound ms) (n : ℕ) : Sound (ms.drop n) where
  uses := fun m hm => h.uses m (List.mem_of_mem_drop hm)
  inUser := fun m hm => h.inUser m (List.mem_of_mem_drop hm)
  paired := paired_drop h.paired n

theorem calls_append (a b : List Message) : calls (a ++ b) = calls a ++ calls b :=
  List.flatMap_append

theorem Servable.append (ha : Servable a) (hb : Servable b) : Servable (a ++ b) where
  toSound := ha.toSound.append hb.toSound
  answers := by
    rw [calls_append]
    exact List.forall_mem_append.mpr
      ⟨fun m hm x hx => List.mem_append_left _ (ha.answers m hm x hx),
        fun m hm x hx => List.mem_append_right _ (hb.answers m hm x hx)⟩

theorem servable_of_no_tools (h : ∀ m ∈ ms, toolUseIds m = [] ∧ toolResultIds m = []) :
    Servable ms where
  uses := fun m hm hne => absurd (h m hm).1 hne
  inUser := fun m hm hne => absurd (h m hm).2 hne
  paired := (exchanges_of_no_tools h).answered
  answers := fun m hm x hx => by
    rw [(h m hm).2] at hx
    exact absurd hx List.not_mem_nil

theorem servable_singleton {m : Message} (huses : toolUseIds m = [])
    (hresults : toolResultIds m = []) : Servable [m] :=
  servable_of_no_tools (List.forall_mem_singleton.mpr ⟨huses, hresults⟩)

theorem exists_of_relabel (hr : List.Forall₂ Relabel ms ms') {m' : Message} (hm' : m' ∈ ms') :
    ∃ m ∈ ms, Relabel m m' := by
  obtain ⟨i, hi, rfl⟩ := List.mem_iff_getElem.mp hm'
  have hlen : i < ms.length := hr.length_eq ▸ hi
  exact ⟨ms[i], List.getElem_mem hlen, (List.forall₂_iff_get.mp hr).2 i hlen hi⟩

theorem wellPlaced_of_relabel (hr : List.Forall₂ Relabel ms ms') (h : WellPlaced ms) :
    WellPlaced ms' := by
  intro m' hm'
  obtain ⟨m, hm, hrel⟩ := exists_of_relabel hr hm'
  rw [hrel.role, hrel.uses, hrel.results]
  exact h m hm

theorem Sound.relabel (h : Sound ms) (hr : List.Forall₂ Relabel ms ms') : Sound ms' where
  uses := fun m' hm' => by
    obtain ⟨m, hm, hrel⟩ := exists_of_relabel hr hm'
    rw [hrel.role, hrel.uses]
    exact h.uses m hm
  inUser := fun m' hm' => by
    obtain ⟨m, hm, hrel⟩ := exists_of_relabel hr hm'
    rw [hrel.role, hrel.results]
    exact h.inUser m hm
  paired := paired_of_relabel hr h.paired

theorem Servable.relabel (h : Servable ms) (hr : List.Forall₂ Relabel ms ms') : Servable ms' where
  toSound := h.toSound.relabel hr
  answers := fun m' hm' => by
    obtain ⟨m, hm, hrel⟩ := exists_of_relabel hr hm'
    rw [hrel.results, calls_of_forall₂ (hr.imp fun _ _ h => h.rewrite)]
    exact h.answers m hm

theorem started_induction {P : List Message → Prop} (hplaced : ∀ ms, P ms → WellPlaced ms)
    (hrepair : ∀ ms, WellPlaced ms → P (validateAndRepair ms)) (h : P ms) : P (started ms) := by
  unfold started ensureStartsWithUser
  generalize others ms + 1 = fuel
  have hrun : ∀ out, Loops.run startRound fuel ms = some out → P out := by
    induction fuel generalizing ms with
    | zero =>
      intro out hout
      cases hout
    | succ fuel ih =>
      intro out hout
      cases hround : startRound ms with
      | none =>
        rw [Loops.run_of_break hround] at hout
        exact Option.some.inj hout ▸ h
      | some ms' =>
        rw [Loops.run_of_round hround] at hout
        refine ih ?_ out hout
        unfold startRound at hround
        split at hround
        · cases hround
        · cases hround
        · obtain rfl := Option.some.inj hround
          exact hrepair _ (wellPlaced_of_subset (hplaced ms h) (List.drop_subset _ _))
  cases hout : Loops.run startRound fuel ms with
  | none => exact h
  | some out => exact hrun out hout

end Servable

/-! ## The start of a turn -/

section Prepare

variable {ms session : List Message} {userMessage : Message} {maxHistory : ℕ}

/-- The working copy that is left when there is something to trim. -/
def workingCopy (ms : List Message) (userMessage : Message) (maxHistory : ℕ) : List Message :=
  let kept := started (validateAndRepair (trimmed ms maxHistory))
  if kept.length < 2 ∨ ¬ kept.any (fun m => m.role = .user) then
    kept.filter (fun m => m.role = .system) ++ [userMessage]
  else kept

theorem safeTrimMessages_eq (ms session : List Message) (userMessage : Message) (maxHistory : ℕ) :
    safeTrimMessages ms session userMessage maxHistory =
      (if ms.length ≤ maxHistory then ms else workingCopy ms userMessage maxHistory,
        if maxHistory < session.length then trimmed session maxHistory else session) := by
  unfold safeTrimMessages workingCopy
  dsimp only
  by_cases hlen : ms.length ≤ maxHistory
  · rw [if_pos hlen, if_pos hlen]
  · rw [if_neg hlen, if_neg hlen]
    by_cases hfew : (started (validateAndRepair (trimmed ms maxHistory))).length < 2 ∨
        ¬ (started (validateAndRepair (trimmed ms maxHistory))).any (fun m => m.role = .user)
    · rw [if_pos hfew, if_pos hfew]
    · rw [if_neg hfew, if_neg hfew]

variable {text : String} {preamble : Preamble} {now : ℤ}

end Prepare

end LibreFang.Agent
