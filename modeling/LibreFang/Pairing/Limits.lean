import LibreFang.Pairing.Manager

/-!
# The limits of pairing

Checks and updates are separate steps, and no update looks again.

* `Limits`: a token pairs one device at most, and the two maps stay within their limits.
* `Rechecked`: what a call has checked still holds when it updates a map.
* `Sound`: the limits, and whose tokens are in use; `sound_step`: a rechecked step keeps it.
* **`limits_of_rechecked`**: every run of rechecked steps respects the limits.
-/

namespace LibreFang.Pairing

open Runs

/-! ## The limits -/

/-- The call has used up the token, and pairs a device with it. -/
def Call.took (token : Token) : Call → Bool
  | .complete (.insert token' _) | .complete (.persist token' _) | .complete (.paired token' _) =>
    token' = token
  | _ => false

/-- A token pairs one device at most, and the two maps stay within their limits. -/
structure Limits (w : World) : Prop where
  single : ∀ token, w.calls.countP (Call.took token) ≤ 1
  devices : w.manager.devices.keys.length ≤ w.manager.config.maxDevices
  pending : w.manager.pending.keys.length ≤ maxPendingRequests

/-- What the call has checked still holds when it updates a map. -/
def Call.Rechecked (m : PairingManager) : Call → Prop
  | .create .insert => m.pending.keys.length < maxPendingRequests
  | .complete (.remove _ _ key) => key ∈ m.pending
  | .complete (.insert _ info) =>
    m.devices.keys.length < m.config.maxDevices ∨ info.deviceId ∈ m.devices
  | _ => True

instance (m : PairingManager) : DecidablePred (Call.Rechecked m) := fun call => by
  unfold Call.Rechecked
  split <;> infer_instance

/-- The step updates a map only while what the call has checked still holds. -/
def Rechecked (w : World) : Event → Prop
  | .act k _ => ∀ call ∈ w.calls[k]?, call.Rechecked w.manager
  | .call _ => True

instance (w : World) : DecidablePred (Rechecked w)
  | .act k _ => inferInstanceAs (Decidable (∀ call ∈ w.calls[k]?, call.Rechecked w.manager))
  | .call _ => isTrue trivial

/-! ## The invariant -/

/-- The token that a call has found is the one of its entry, and has been drawn. -/
def Call.Holds (m : PairingManager) : Call → Prop
  | .complete (.expiry token _ key _) | .complete (.checkDevices token _ key)
  | .complete (.remove token _ key) => key = token ∧ token < m.drawn
  | .complete (.insert token _) | .complete (.persist token _) | .complete (.paired token _) =>
    token < m.drawn
  | _ => True

/-- The entries have their tokens as keys, which have been drawn. -/
def Keyed (m : PairingManager) : Prop :=
  m.pending.Forall fun key request => request.token = key ∧ key < m.drawn

/-- How many hands a token is in: those of the calls that have used it up, and the map. -/
def hands (w : World) (token : Token) : ℕ :=
  w.calls.countP (Call.took token) + (decide (token ∈ w.manager.pending)).toNat

/-- The limits, and whose tokens are in use. -/
structure Sound (w : World) : Prop where
  keyed : Keyed w.manager
  holds : ∀ call ∈ w.calls, call.Holds w.manager
  single : ∀ token, hands w token ≤ 1
  devices : w.manager.devices.keys.length ≤ w.manager.config.maxDevices
  pending : w.manager.pending.keys.length ≤ maxPendingRequests

theorem Sound.limits {w : World} (h : Sound w) : Limits w :=
  ⟨fun token => Nat.le_trans (Nat.le_add_right ..) (h.single token), h.devices, h.pending⟩

section Act

variable {w : World} {m m' : PairingManager} {call call' : Call} {k : ℕ} {now : Time}

theorem Call.Holds.mono (h : call.Holds m) (hdrawn : m.drawn ≤ m'.drawn) : call.Holds m' := by
  unfold Call.Holds at h ⊢
  split at h
  all_goals first
    | exact ⟨h.1, Nat.lt_of_lt_of_le h.2 hdrawn⟩
    | exact Nat.lt_of_lt_of_le h hdrawn
    | trivial

theorem Call.Holds.lt_of_took {token : Token} (h : call.Holds m) (htook : call.took token = true) :
    token < m.drawn := by
  unfold Call.took at htook
  split at htook
  all_goals first
    | exact of_decide_eq_true htook ▸ h
    | cases htook

theorem countP_set_add {α : Type} (p : α → Bool) {l : List α} {k : ℕ} {a b : α}
    (h : l[k]? = some a) : (l.set k b).countP p + (p a).toNat = l.countP p + (p b).toNat := by
  induction l generalizing k with
  | nil => cases h
  | cons c l ih =>
    cases k with
    | zero =>
      obtain rfl : c = a := Option.some.inj h
      rw [List.set_cons_zero, List.countP_cons, List.countP_cons]
      cases p c <;> cases p b <;> simp
    | succ k =>
      have := ih (k := k) h
      rw [List.set_cons_succ, List.countP_cons, List.countP_cons]
      omega

theorem Sound.act (h : Sound w) (hk : w.calls[k]? = some call) (hdrawn : w.manager.drawn ≤ m'.drawn)
    (hkeyed : Keyed m') (hholds : call'.Holds m')
    (hhands : ∀ token, (call'.took token).toNat + (decide (token ∈ m'.pending)).toNat ≤
        (call.took token).toNat + (decide (token ∈ w.manager.pending)).toNat ∨
      token = w.manager.drawn ∧ call'.took token = false)
    (hdevices : m'.devices.keys.length ≤ m'.config.maxDevices)
    (hpending : m'.pending.keys.length ≤ maxPendingRequests) : Sound ⟨m', w.calls.set k call'⟩ := by
  refine ⟨hkeyed, fun c hc => ?_, fun token => ?_, hdevices, hpending⟩
  · rcases List.mem_or_eq_of_mem_set hc with hold | rfl
    · exact (h.holds c hold).mono hdrawn
    · exact hholds
  · have hcount := countP_set_add (Call.took token) (b := call') hk
    have hsingle := h.single token
    unfold hands at hsingle ⊢
    rcases hhands token with hle | ⟨rfl, hfresh⟩
    · dsimp only
      omega
    · have hnone : w.calls.countP (Call.took w.manager.drawn) = 0 := by
        rw [List.countP_eq_zero]
        exact fun c hc htook => Nat.lt_irrefl _ ((h.holds c hc).lt_of_took htook)
      have := Bool.toNat_le (decide (w.manager.drawn ∈ m'.pending))
      rw [hfresh, Bool.toNat_false] at hcount
      dsimp only
      omega

theorem Sound.look (h : Sound w) (hk : w.calls[k]? = some call) (hholds : call'.Holds w.manager)
    (htook : ∀ token, call'.took token = call.took token) :
    Sound ⟨w.manager, w.calls.set k call'⟩ :=
  h.act hk (Nat.le_refl _) h.keyed hholds (fun token => .inl (by rw [htook])) h.devices h.pending

theorem Keyed.retain (h : Keyed m) (p : Token → PairingRequest → Bool) :
    Keyed { m with pending := m.pending.retain p } := by
  intro key request hlookup
  rw [Table.lookup_retain, Option.filter_eq_some_iff] at hlookup
  exact h key request hlookup.1

theorem Sound.shrink (h : Sound w) (hk : w.calls[k]? = some call)
    {pending : Table Token PairingRequest} (hkeyed : Keyed { w.manager with pending })
    (hholds : call'.Holds w.manager) (htook : ∀ token, call'.took token = call.took token)
    (hsub : ∀ token ∈ pending, token ∈ w.manager.pending)
    (hlength : pending.keys.length ≤ w.manager.pending.keys.length) :
    Sound ⟨{ w.manager with pending }, w.calls.set k call'⟩ := by
  refine h.act hk (Nat.le_refl _) hkeyed (hholds.mono (Nat.le_refl _)) (fun token => .inl ?_)
    h.devices (Nat.le_trans hlength h.pending)
  rw [htook]
  refine Nat.add_le_add_left ?_ _
  by_cases hmem : token ∈ pending
  · rw [decide_eq_true hmem, decide_eq_true (hsub token hmem)]
  · rw [decide_eq_false hmem]
    exact Nat.zero_le _

theorem Sound.clean (h : Sound w) (hk : w.calls[k]? = some call) (hholds : call'.Holds w.manager)
    (htook : ∀ token, call'.took token = call.took token) :
    Sound ⟨w.manager.cleanExpired now, w.calls.set k call'⟩ := by
  refine h.shrink hk (h.keyed.retain _) hholds htook (fun token hmem => ?_)
    (Table.length_keys_retain_le ..)
  obtain ⟨request, hlookup⟩ := Option.isSome_iff_exists.mp (AList.lookup_isSome.mpr hmem)
  rw [Table.lookup_retain, Option.filter_eq_some_iff] at hlookup
  exact AList.lookup_isSome.mp (by rw [hlookup.1]; rfl)

theorem length_keys_erase_le {κ ν : Type} [DecidableEq κ] (key : κ) (t : Table κ ν) :
    (t.erase key).keys.length ≤ t.keys.length := by
  rw [AList.keys_erase]
  exact List.length_erase_le ..

theorem Sound.create (h : Sound w) {call : CreateCall} (hk : w.calls[k]? = some (.create call))
    (hrechecked : (Call.create call).Rechecked w.manager) :
    Sound ⟨(call.next w.manager now).1, w.calls.set k (.create (call.next w.manager now).2)⟩ := by
  cases call with
  | checkPending =>
    unfold CreateCall.next
    dsimp only
    split
    · exact h.look hk trivial fun _ => rfl
    · split <;> exact h.look hk trivial fun _ => rfl
  | clean => exact h.clean hk trivial fun _ => rfl
  | recheck =>
    unfold CreateCall.next
    dsimp only
    split <;> exact h.look hk trivial fun _ => rfl
  | insert =>
    have hfresh : w.manager.drawn ∉ w.manager.pending := fun hmem => by
      obtain ⟨request, hlookup⟩ := Option.isSome_iff_exists.mp (AList.lookup_isSome.mpr hmem)
      exact Nat.lt_irrefl _ (h.keyed _ request hlookup).2
    refine h.act hk (Nat.le_succ _) ?_ trivial (fun token => ?_) h.devices ?_
    · refine Table.Forall.insert (fun key request hlookup => ?_) ⟨rfl, Nat.lt_succ_self _⟩
      obtain ⟨htoken, hlt⟩ := h.keyed key request hlookup
      exact ⟨htoken, Nat.lt_succ_of_lt hlt⟩
    · by_cases htoken : token = w.manager.drawn
      · exact .inr ⟨htoken, rfl⟩
      · left
        simp [CreateCall.next, AList.mem_insert, htoken, Call.took]
    · refine Nat.le_trans (Nat.le_of_eq ?_) (Nat.succ_le_of_lt hrechecked)
      simp only [CreateCall.next]
      rw [AList.keys_insert, List.length_cons,
        List.erase_of_not_mem fun hmem => hfresh (AList.mem_keys.mpr hmem)]
  | returned result => exact h.look hk trivial fun _ => rfl

theorem Sound.complete (h : Sound w) {call : CompleteCall}
    (hk : w.calls[k]? = some (.complete call))
    (hrechecked : (Call.complete call).Rechecked w.manager) :
    Sound
      ⟨(call.next w.manager now).1, w.calls.set k (.complete (call.next w.manager now).2)⟩ := by
  have hholds := h.holds _ (List.mem_of_getElem? hk)
  cases call with
  | find token info =>
    unfold CompleteCall.next
    dsimp only
    split
    · exact h.look hk trivial fun _ => rfl
    · next e he =>
      refine h.look hk ?_ fun _ => rfl
      rw [PairingManager.findToken] at he
      have hlookup : w.manager.pending.lookup e.1 = some e.2 :=
        AList.mem_lookup_iff.mpr (List.mem_of_find?_eq_some he)
      obtain ⟨htoken, hlt⟩ := h.keyed _ _ hlookup
      have hfound : e.2.token = token := by simpa using List.find?_some he
      rw [htoken] at hfound
      exact ⟨hfound, hfound ▸ hlt⟩
  | expiry token info key request =>
    unfold CompleteCall.next
    dsimp only
    split
    · refine h.shrink hk (Table.Forall.erase h.keyed _) trivial (fun _ => rfl) (fun token hmem => ?_)
        (length_keys_erase_le ..)
      exact (AList.mem_erase.mp hmem).2
    · exact h.look hk hholds fun _ => rfl
  | checkDevices token info key =>
    unfold CompleteCall.next
    dsimp only
    split
    · exact h.look hk trivial fun _ => rfl
    · exact h.look hk hholds fun _ => rfl
  | remove token info key =>
    obtain ⟨rfl, hlt⟩ := hholds
    refine h.act hk (Nat.le_refl _) (Table.Forall.erase h.keyed _) hlt (fun token => .inl ?_)
      h.devices (Nat.le_trans (length_keys_erase_le ..) h.pending)
    -- the token goes from the map into the hands of the call
    by_cases htoken : key = token
    · subst htoken
      rw [decide_eq_true (show key ∈ w.manager.pending from hrechecked)]
      simp [CompleteCall.next, Call.took]
    · simp [CompleteCall.next, Call.took, htoken, AList.mem_erase, Ne.symm htoken]
  | insert token info =>
    refine h.act hk (Nat.le_refl _) h.keyed hholds (fun _ => .inl (Nat.le_refl _)) ?_ h.pending
    change (AList.insert info.deviceId info w.manager.devices).keys.length ≤ _
    rw [AList.keys_insert, List.length_cons]
    by_cases hmem : info.deviceId ∈ w.manager.devices
    · rw [List.length_erase_of_mem (AList.mem_keys.mp hmem)]
      have := List.length_pos_of_mem (AList.mem_keys.mp hmem)
      have := h.devices
      dsimp only [CompleteCall.next]
      omega
    · rw [List.erase_of_not_mem fun hkey => hmem (AList.mem_keys.mpr hkey)]
      exact Nat.succ_le_of_lt (hrechecked.resolve_right hmem)
  | persist token info =>
    exact h.act hk (Nat.le_refl _) h.keyed hholds (fun _ => .inl (Nat.le_refl _)) h.devices h.pending
  | refused error => exact h.look hk trivial fun _ => rfl
  | paired token info => exact h.look hk hholds fun _ => rfl

theorem Sound.remove (h : Sound w) {call : RemoveCall} (hk : w.calls[k]? = some (.remove call)) :
    Sound ⟨(call.next w.manager).1, w.calls.set k (.remove (call.next w.manager).2)⟩ := by
  cases call with
  | remove deviceId =>
    unfold RemoveCall.next
    dsimp only
    split
    · exact h.look hk trivial fun _ => rfl
    · exact h.act hk (Nat.le_refl _) h.keyed trivial (fun _ => .inl (Nat.le_refl _))
        (Nat.le_trans (length_keys_erase_le ..) h.devices) h.pending
  | persist device =>
    exact h.act hk (Nat.le_refl _) h.keyed trivial (fun _ => .inl (Nat.le_refl _)) h.devices h.pending
  | returned result => exact h.look hk trivial fun _ => rfl

/-- **A step keeps the invariant when what the call has checked still holds.** -/
theorem sound_step (h : Sound w) {e : Event} (hrechecked : Rechecked w e) : Sound (step w e) := by
  cases e with
  | call ask =>
    have htook : ∀ token, ask.start.took token = false := fun token => by cases ask <;> rfl
    refine ⟨h.keyed, fun call hcall => ?_, fun token => ?_, h.devices, h.pending⟩
    · rcases List.mem_append.mp hcall with hold | hnew
      · exact h.holds call hold
      · rw [List.mem_singleton.mp hnew]
        cases ask <;> trivial
    · have hcount : (w.calls ++ [ask.start]).countP (Call.took token) =
          w.calls.countP (Call.took token) := by
        simp [List.countP_append, htook]
      unfold hands step
      dsimp only
      rw [hcount]
      exact h.single token
  | act k now =>
    unfold step
    dsimp only
    split
    · exact h
    · next call hk =>
      have hcall := hrechecked call hk
      cases call with
      | create call => exact h.create hk hcall
      | complete call => exact h.complete hk hcall
      | remove call => exact h.remove hk
      | clean call =>
        cases call with
        | clean => exact h.clean hk trivial fun _ => rfl
        | returned => exact h.look hk trivial fun _ => rfl

end Act

/-! ## Runs -/

theorem sound_init {config : PairingConfig} {devices : Table String PairedDevice}
    {store : Option (Table String PairedDevice)}
    (hdevices : devices.keys.length ≤ config.maxDevices) : Sound (.init config devices store) :=
  ⟨(fun _ _ h => by cases h), (fun _ h => by cases h), fun _ => Nat.zero_le _, hdevices,
    Nat.zero_le _⟩

/-- **Every run of rechecked steps respects the limits** in each state that it reaches. -/
theorem limits_of_rechecked (config : PairingConfig) (devices : Table String PairedDevice)
    (store : Option (Table String PairedDevice))
    (hdevices : devices.keys.length ≤ config.maxDevices) (es : List Event)
    (h : Along step Rechecked (.init config devices store) es) :
    ∀ before rest, es = before ++ rest →
      Limits (after step (.init config devices store) before) := by
  rintro before rest rfl
  rw [along_append] at h
  exact (invariant (I := Sound) (fun _ _ h hrechecked => sound_step h hrechecked)
    (sound_init hdevices) h.1).limits

/-- A device to pair. -/
def phone (deviceId : String) : PairedDevice := ⟨deviceId, "Phone", "android", 0, 0, none, ""⟩

/-- A request is made and completed. -/
theorem limits_of_one_device : let es : List Event :=
      [.call .createPairingRequest, .act 0 0, .act 0 0, .call (.completePairing 0 (phone "dev-1")),
        .act 1 1, .act 1 1, .act 1 1, .act 1 1, .act 1 1, .act 1 1]
    (∀ before rest, es = before ++ rest →
      Limits (after step (.init ⟨true, 10, 300⟩ ∅ none) before)) ∧
      (after step (.init ⟨true, 10, 300⟩ ∅ none) es).manager.devices.keys = ["dev-1"] :=
  ⟨limits_of_rechecked ⟨true, 10, 300⟩ ∅ none (by decide) _ (by decide), by decide⟩

/-- Two calls present one token, and each finds it before the other removes it. -/
theorem token_used_twice :
    ¬ ∀ (config : PairingConfig) (es : List Event), Limits (after step (.init config ∅ none) es) := by
  intro h
  have := h ⟨true, 10, 300⟩
    [.call .createPairingRequest, .act 0 0, .act 0 0, .call (.completePairing 0 (phone "dev-1")),
      .call (.completePairing 0 (phone "dev-2")), .act 1 1, .act 2 1, .act 1 1, .act 1 1, .act 1 1,
      .act 1 1, .act 2 1, .act 2 1, .act 2 1, .act 2 1]
  exact absurd (this.single 0) (by decide)

end LibreFang.Pairing
