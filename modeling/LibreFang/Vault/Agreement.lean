import LibreFang.Lib.Runs
import LibreFang.Vault.Credentials

/-!
# The vault's memory and its file

What a vault shows is what its file holds, as long as the calls that change the entries can save
them.

* `Call`, `step`: the calls, each with what it finds around it.
* `Right`: a call that fails has changed nothing; after one that succeeds, a fresh vault opens the
  file and shows the same.
* **`memory_agrees`**: in a run whose calls all fit, every call is right.
-/

namespace LibreFang.Vault

open Replace Runs

variable {c : Crates} {s : Surroundings} {w : World}

/-! ## Calls -/

/-- The calls. -/
inductive Call
  | init
  | initWithKey (masterKey : Key)
  | unlock
  | unlockWithKey (masterKey : Key)
  | set (key value : String)
  | remove (key : String)

/-- A call; whether `remove` has found the key is left out. -/
def call (c : Crates) (s : Surroundings) (w : World) : Call → Except Failure Unit × World
  | .init => init c s w
  | .initWithKey masterKey => initWithKey c s masterKey w
  | .unlock => unlock c s w
  | .unlockWithKey masterKey => unlockWithKey c s masterKey w
  | .set key value => set c s key value w
  | .remove key => ((remove c s key w).1.map fun _ => (), (remove c s key w).2)

/-- A step of a run. -/
def step (c : Crates) (w : World) (e : Call × Surroundings) : World := (call c e.2 w e.1).2

/-- Neither the vault's memory nor its file has changed. -/
structure Unchanged (w w' : World) : Prop where
  entries : w'.vault.entries = w.vault.entries
  unlocked : w'.vault.unlocked = w.vault.unlocked
  file : w'.files w.vault.location = w.files w.vault.location

/-- A fresh vault with the same path and key opens the file, if it can be read, and shows the
same. -/
def Reopens (c : Crates) (w : World) : Prop :=
  ∃ key, w.vault.cachedKey = some key ∧ ∀ s : Surroundings, s.read = none →
    let fresh := unlockWithKey c s key ⟨.new w.vault.path, w.files⟩
    fresh.1 = .ok () ∧ ∀ name, fresh.2.vault.get name = w.vault.get name

/-- What a call promises. -/
def Right (c : Crates) (w : World) (r : Except Failure Unit × World) : Prop :=
  match r.1 with
  | .ok () => Reopens c r.2
  | .error (.returned _) => Unchanged w r.2
  | .error .panicked => True

/-- The vault is able to save its entries. -/
structure Saves (c : Crates) (s : Surroundings) (masterKey : Key) (v : CredentialVault) : Prop where
  content : ∃ content, vaultContent c s v masterKey = .ok content
  createDir : createParent s v = none
  write : s.write.Succeeds

/-- The vault is able to save the entries, with the key that it finds. -/
def SavesEntries (c : Crates) (s : Surroundings) (entries : Entries) (v : CredentialVault) : Prop :=
  ∃ key, resolveMasterKey c s v = .ok key ∧ Saves c s key { v with entries }

/-- The empty vault that `init` saves. -/
def World.cleared (w : World) : CredentialVault := { w.vault with entries := ∅, unlocked := true }

/-- A new vault, a value that is set and a key that is removed can be saved; or the value is what
the key has, and the temporary file is not the vault's. -/
def Fits (c : Crates) (w : World) : Call × Surroundings → Prop
  | (.init, s) => w.exists = false → ∀ key, initKey c s = .ok key → Saves c s key w.cleared
  | (.initWithKey key, s) => w.exists = false → Saves c s key w.cleared
  | (.unlock, _) | (.unlockWithKey _, _) => True
  | (.set key value, s) => w.vault.unlocked = true →
    SavesEntries c s (w.vault.entries.insert key value) w.vault ∨
      w.vault.get key = some value ∧ w.vault.location ≠ w.vault.tempLocation
  | (.remove key, s) => w.vault.unlocked = true → key ∈ w.vault.entries →
    SavesEntries c s (w.vault.entries.erase key) w.vault

/-! ## Saves -/

theorem ioResult_eq_ok {failure : Option String} : ioResult failure = .ok () ↔ failure = none := by
  cases failure with
  | none => exact iff_of_true rfl rfl
  | some e => simp [ioResult]

variable {key : Key}

theorem save_eq {content : String}
    (hcontent : vaultContent c s w.vault key = .ok content) (hdir : createParent s w.vault = none) :
    save c s key w =
      (ioResult (replace s.write w.vault.tempLocation w.vault.location
        (vaultMagic ++ Text.utf8 content) w.files).1,
      (replace s.write w.vault.tempLocation w.vault.location
        (vaultMagic ++ Text.utf8 content) w.files).2) := by
  unfold save
  rw [hcontent, hdir]

theorem save_eq_ok : (save c s key w).1 = .ok () ↔ Saves c s key w.vault := by
  constructor
  · intro h
    cases hcontent : vaultContent c s w.vault key with
    | error e =>
      unfold save at h
      rw [hcontent] at h
      cases h
    | ok content =>
      cases hdir : createParent s w.vault with
      | some e =>
        unfold save at h
        rw [hcontent, hdir] at h
        cases h
      | none =>
        refine ⟨⟨content, hcontent⟩, hdir, ?_⟩
        rw [save_eq hcontent hdir] at h
        exact replace_fst_eq_none.mp (ioResult_eq_ok.mp h)
  · rintro ⟨⟨content, hcontent⟩, hdir, hwrite⟩
    rw [save_eq hcontent hdir]
    exact ioResult_eq_ok.mpr (replace_fst_eq_none.mpr hwrite)

theorem file_of_save (h : (save c s key w).1 = .ok ()) :
    ∃ content, vaultContent c s w.vault key = .ok content ∧
      (save c s key w).2 w.vault.location = some (vaultMagic ++ Text.utf8 content) := by
  obtain ⟨⟨content, hcontent⟩, hdir, hwrite⟩ := save_eq_ok.mp h
  refine ⟨content, hcontent, ?_⟩
  rw [save_eq hcontent hdir]
  exact replace_target (replace_fst_eq_none.mpr hwrite)

theorem file_of_save_error {e : ExtensionError}
    (hne : w.vault.location ≠ w.vault.tempLocation) (h : (save c s key w).1 = .error e) :
    (save c s key w).2 w.vault.location = w.files w.vault.location := by
  cases hcontent : vaultContent c s w.vault key with
  | error e' =>
    unfold save
    rw [hcontent]
  | ok content =>
    cases hdir : createParent s w.vault with
    | some e' =>
      unfold save
      rw [hcontent, hdir]
    | none =>
      rw [save_eq hcontent hdir] at h ⊢
      refine replace_target_of_ne hne fun hdone => ?_
      rw [hdone] at h
      cases h

/-! ## The invariant -/

/-- The file holds the entries, under the key that the vault has. -/
structure Agrees (c : Crates) (w : World) (key : Key) (raw : Bytes) : Prop where
  cachedKey : w.vault.cachedKey = some key
  file : w.files w.vault.location = some raw
  entries : loadBytes c w.vault.path key raw = .ok w.vault.entries

/-- The invariant: an unlocked vault agrees with its file. -/
def Synced (c : Crates) (w : World) : Prop :=
  w.vault.unlocked = true → ∃ key raw, Agrees c w key raw

theorem Agrees.reopens {raw : Bytes} (h : Agrees c w key raw) : Reopens c w := by
  refine ⟨key, h.cachedKey, fun s hread => ?_⟩
  have hexists : World.exists ⟨.new w.vault.path, w.files⟩ = true :=
    Option.isSome_iff_exists.mpr ⟨raw, h.file⟩
  have hload : load c s key ⟨.new w.vault.path, w.files⟩ = .ok w.vault.entries := by
    have hfile : w.files (CredentialVault.new w.vault.path).location = some raw := h.file
    unfold load
    rw [hread, hfile]
    exact h.entries
  have hfresh : unlockWithKey c s key ⟨.new w.vault.path, w.files⟩ =
      (.ok (), ⟨⟨w.vault.path, w.vault.entries, true, some key⟩, w.files⟩) := by
    have hlocked : ¬ (⟨.new w.vault.path, w.files⟩ : World).vault.unlocked = true :=
      Bool.false_ne_true
    unfold unlockWithKey openVault
    rw [if_neg hlocked, if_pos hexists, hload]
    rfl
  dsimp only
  rw [hfresh]
  exact ⟨rfl, fun _ => rfl⟩

/-- A result that keeps the promise and the invariant. -/
structure Sound (c : Crates) (w : World) (r : Except Failure Unit × World) : Prop where
  right : Right c w r
  synced : Synced c r.2

theorem Synced.fails (h : Synced c w) (e : ExtensionError) : Sound c w (fails e w) :=
  ⟨⟨rfl, rfl, rfl⟩, h⟩

theorem Agrees.sound {w' : World} {raw : Bytes} (h : Agrees c w' key raw) :
    Sound c w (.ok (), w') :=
  ⟨h.reopens, fun _ => ⟨key, raw, h⟩⟩

theorem sound_createVault (hc : c.RoundTrip) (h : Saves c s key w.cleared) :
    Sound c w (createVault c s key w) := by
  have hok : (save c s key ⟨w.cleared, w.files⟩).1 = .ok () := save_eq_ok.mpr h
  obtain ⟨content, hcontent, hfile⟩ := file_of_save hok
  have hresult : createVault c s key w =
      (.ok (), ⟨{ w.cleared with cachedKey := some key },
        (save c s key ⟨w.cleared, w.files⟩).2⟩) := by
    unfold createVault
    dsimp only
    split
    · next hsave => rw [World.cleared, hsave]
    · next hsave =>
      rw [World.cleared, hsave] at hok
      cases hok
  rw [hresult]
  exact Agrees.sound ⟨rfl, hfile, loadBytes_of_vaultContent hc hcontent⟩

theorem sound_initWithKey (hc : c.RoundTrip) (hsync : Synced c w)
    (h : w.exists = false → Saves c s key w.cleared) : Sound c w (initWithKey c s key w) := by
  unfold initWithKey
  split_ifs with hexists
  · exact hsync.fails _
  · exact sound_createVault hc (h (Bool.eq_false_of_not_eq_true hexists))

theorem sound_init (hc : c.RoundTrip) (hsync : Synced c w)
    (h : w.exists = false → ∀ key, initKey c s = .ok key → Saves c s key w.cleared) :
    Sound c w (init c s w) := by
  unfold init
  split_ifs with hexists
  · exact hsync.fails _
  · cases hkey : initKey c s with
    | error e => exact hsync.fails e
    | ok key => exact sound_createVault hc (h (Bool.eq_false_of_not_eq_true hexists) key hkey)

theorem sound_openVault (hsync : Synced c w) (key : Key) : Sound c w (openVault c s key w) := by
  unfold openVault
  cases hload : load c s key w with
  | error e =>
    cases e with
    | returned e => exact hsync.fails e
    | panicked => exact ⟨trivial, hsync⟩
  | ok entries =>
    unfold load at hload
    split at hload
    · cases hload
    · cases hload
    · next raw _ hfile => exact Agrees.sound ⟨rfl, hfile, hload⟩

theorem Synced.unlocked (h : Synced c w) (hunlocked : w.vault.unlocked = true) :
    Sound c w (.ok (), w) := by
  obtain ⟨key, raw, hagrees⟩ := h hunlocked
  exact hagrees.sound

theorem sound_unlockWithKey (hsync : Synced c w) (key : Key) :
    Sound c w (unlockWithKey c s key w) := by
  unfold unlockWithKey
  split_ifs with hunlocked hexists
  · exact hsync.unlocked hunlocked
  · exact sound_openVault hsync key
  · exact hsync.fails _

theorem sound_unlock (hsync : Synced c w) : Sound c w (unlock c s w) := by
  unfold unlock
  split_ifs with hunlocked hexists
  · exact hsync.unlocked hunlocked
  · cases resolveMasterKey c s w.vault with
    | error e => exact hsync.fails e
    | ok key => exact sound_openVault hsync key
  · exact hsync.fails _

/-! ## Entries that are changed -/

theorem agrees_of_saveEntries (hc : c.RoundTrip) (hsync : Synced c w)
    (hunlocked : w.vault.unlocked = true) {entries : Entries}
    (h : SavesEntries c s entries w.vault) : Sound c w (saveEntries c s entries w) := by
  obtain ⟨key, raw, hagrees⟩ := hsync hunlocked
  obtain ⟨key', hresolve, hsaves⟩ := h
  -- the vault has its key, so no other is taken
  have hkey : w.vault.cachedKey = some key' := by
    unfold resolveMasterKey at hresolve
    rw [hagrees.cachedKey] at hresolve ⊢
    exact congrArg some (Except.ok.inj hresolve)
  have hok : (save c s key' { w with vault := { w.vault with entries } }).1 = .ok () :=
    save_eq_ok.mpr hsaves
  obtain ⟨content, hcontent, hfile⟩ := file_of_save hok
  unfold saveEntries
  dsimp only
  rw [hresolve]
  dsimp only
  split
  · next hsave =>
    rw [hsave] at hfile
    exact Agrees.sound ⟨hkey, hfile, loadBytes_of_vaultContent hc hcontent⟩
  · next hsave =>
    rw [hsave] at hok
    cases hok

theorem sound_saveEntries_self (hc : c.RoundTrip) (hsync : Synced c w)
    (hunlocked : w.vault.unlocked = true) (hne : w.vault.location ≠ w.vault.tempLocation) :
    Sound c w (saveEntries c s w.vault.entries w) := by
  by_cases hsaves : SavesEntries c s w.vault.entries w.vault
  · exact agrees_of_saveEntries hc hsync hunlocked hsaves
  · unfold saveEntries
    dsimp only
    split
    · next e _ => exact hsync.fails e
    · next key hresolve =>
      split
      · next hsave => exact absurd ⟨key, hresolve, save_eq_ok.mp (congrArg Prod.fst hsave)⟩ hsaves
      · next e files hsave =>
        have hfile : files w.vault.location = w.files w.vault.location := by
          have hkeep := file_of_save_error hne (congrArg Prod.fst hsave)
          rwa [hsave] at hkeep
        refine ⟨⟨rfl, rfl, hfile⟩, fun _ => ?_⟩
        obtain ⟨key, raw, hagrees⟩ := hsync hunlocked
        exact ⟨key, raw, hagrees.cachedKey, hfile.trans hagrees.file, hagrees.entries⟩

theorem insert_of_get {key value : String} (h : w.vault.get key = some value) :
    w.vault.entries.insert key value = w.vault.entries := by
  refine Finmap.ext_lookup fun name => ?_
  by_cases hname : name = key
  · subst hname
    rw [Finmap.lookup_insert]
    exact h.symm
  · exact Finmap.lookup_insert_of_ne _ hname

theorem sound_set (hc : c.RoundTrip) (hsync : Synced c w) {key value : String}
    (h : Fits c w (.set key value, s)) : Sound c w (set c s key value w) := by
  unfold set
  split_ifs with hunlocked
  · rcases h hunlocked with hsaves | ⟨hget, hne⟩
    · exact agrees_of_saveEntries hc hsync hunlocked hsaves
    · rw [insert_of_get hget]
      exact sound_saveEntries_self hc hsync hunlocked hne
  · exact hsync.fails _

theorem sound_remove (hc : c.RoundTrip) (hsync : Synced c w) {key : String}
    (h : Fits c w (.remove key, s)) : Sound c w (call c s w (.remove key)) := by
  unfold call remove
  dsimp only
  split_ifs with hunlocked hmem
  · have hsound := agrees_of_saveEntries hc hsync hunlocked (h hunlocked hmem)
    split
    · next hresult => rwa [hresult] at hsound
    · next hresult => rwa [hresult] at hsound
  · exact hsync.unlocked hunlocked
  · exact hsync.fails _

/-! ## The libraries on a few values -/

/-- A code of a few values. -/
def encodeTable {α β : Type} [DecidableEq α] (table : List (α × β)) (a : α) : Except String β :=
  match table.find? fun e => e.1 = a with
  | some e => .ok e.2
  | none => .error "unknown value"

/-- What a table has for a code. -/
def decodeTable {α β : Type} [DecidableEq β] (table : List (α × β)) (b : β) : Except String α :=
  match table.find? fun e => e.2 = b with
  | some e => .ok e.1
  | none => .error "unknown code"

theorem decodeTable_of_encodeTable {α β : Type} [DecidableEq α] [DecidableEq β]
    {table : List (α × β)} (h : (table.map Prod.snd).Nodup) {a : α} {b : β}
    (hencode : encodeTable table a = .ok b) : decodeTable table b = .ok a := by
  unfold encodeTable at hencode
  split at hencode
  · next e he =>
    cases hencode
    have hmem : e ∈ table := List.mem_of_find?_eq_some he
    have hkey : e.1 = a := by simpa using List.find?_some he
    unfold decodeTable
    split
    · next e' he' =>
      have hcode : e'.2 = e.2 := by simpa using List.find?_some he'
      rw [List.inj_on_of_nodup_map h (List.mem_of_find?_eq_some he') hmem hcode, hkey]
    · next hnone =>
      exact absurd (decide_eq_true rfl) (List.find?_eq_none.mp hnone e hmem)
  · cases hencode

/-- The master key of the sample. -/
def sampleKey : Key := ⟨(List.range 32).map UInt8.ofNat, rfl⟩

def sampleDerived : Key :=
  ⟨[54, 66, 3, 96, 184, 99, 135, 75, 176, 202, 186, 114, 245, 80, 226, 220, 120, 206, 221,
   191, 97, 242, 201, 134, 4, 229, 26, 252, 170, 15, 56, 151], rfl⟩

def sampleSalt : Octets 16 := ⟨(List.range 16).map UInt8.ofNat, rfl⟩

def sampleNonce : Octets 12 := ⟨(List.range 12).map UInt8.ofNat, rfl⟩

def sampleEntries : Entries := Finmap.singleton "token" "x"

/-- The ciphertexts, with their tags. -/
def sampleSealed : List (Bytes × Bytes) :=
  [(Text.utf8 "\x7b\"secrets\":\x7b\x7d\x7d",
    [200, 219, 9, 11, 16, 29, 12, 154, 131, 255, 120, 73, 117, 194, 55, 124, 62, 216, 130, 4,
     113, 82, 62, 15, 162, 220, 79, 116, 194, 132]),
  (Text.utf8 "\x7b\"secrets\":\x7b\"token\":\"x\"\x7d\x7d",
    [200, 219, 9, 11, 16, 29, 12, 154, 131, 255, 120, 73, 42, 203, 209, 22, 161, 107, 97, 121,
     0, 86, 15, 162, 213, 238, 57, 180, 46, 209, 139, 246, 107, 87, 211, 64, 232, 224, 198,
     202, 118])]

/-- `to_string_pretty`. -/
def sampleText (ciphertext : String) : String :=
  "\x7b\n  \"version\": 1,\n  \"salt\": \"AAECAwQFBgcICQoLDA0ODw==\",\n" ++
    "  \"nonce\": \"AAECAwQFBgcICQoL\",\n  \"ciphertext\": \"" ++ ciphertext ++
    "\",\n  \"schema_version\": 1\n\x7d"

/-- The base64 texts of the ciphertexts. -/
def sampleEmpty : String := "yNsJCxAdDJqD/3hJdcI3fD7YggRxUj4PotxPdMKE"

def sampleStored : String := "yNsJCxAdDJqD/3hJKsvRFqFrYXkAVg+i1e45tC7Ri/ZrV9NA6ODGynY="

/-- The base64 texts. -/
def sampleBase64 : List (Bytes × String) :=
  [(sampleKey.1, "AAECAwQFBgcICQoLDA0ODxAREhMUFRYXGBkaGxwdHh8="),
  (sampleSalt.1, "AAECAwQFBgcICQoLDA0ODw=="),
  (sampleNonce.1, "AAECAwQFBgcICQoL")] ++
  sampleSealed.zipWith (fun e text => (e.2, text)) [sampleEmpty, sampleStored]

/-- The files. -/
def sampleFiles : List (VaultFile × String) :=
  [sampleEmpty, sampleStored].map fun ciphertext =>
    (⟨1, "AAECAwQFBgcICQoLDA0ODw==", "AAECAwQFBgcICQoL", ciphertext, 1⟩, sampleText ciphertext)

/-- The entries and their texts. -/
def sampleJson : List (Entries × Bytes) :=
  [∅, sampleEntries].zipWith (fun entries e => (entries, e.1)) sampleSealed

/-- The libraries on the values of the tables; base64 marks the bytes that it does not know. -/
def sample : Crates where
  entriesToJson _ := encodeTable sampleJson
  entriesFromJson := decodeTable sampleJson
  fileToJson := encodeTable sampleFiles
  fileFromJson := decodeTable sampleFiles
  encode bytes :=
    match encodeTable sampleBase64 bytes with
    | .ok text => text
    | .error _ => String.ofList ('!' :: bytes.map fun b => Char.ofNat b.toNat)
  decode text :=
    match decodeTable sampleBase64 text with
    | .ok bytes => .ok bytes
    | .error e =>
      match text.toList with
      | '!' :: cs => .ok (cs.map fun ch => UInt8.ofNat ch.toNat)
      | _ => .error e
  hashPassword key salt :=
    if key = sampleKey ∧ salt = sampleSalt.1 then .ok sampleDerived else .error "unknown value"
  encrypt key nonce aad msg :=
    if key = sampleDerived ∧ nonce = sampleNonce ∧ aad = aadBytes "/v/vault.enc" 1 then
      encodeTable sampleSealed msg
    else .error "unknown value"
  decrypt key nonce aad sealed :=
    if key = sampleDerived ∧ nonce = sampleNonce ∧ aad = aadBytes "/v/vault.enc" 1 then
      decodeTable sampleSealed sealed
    else .error "aead::Error"
  utf8Error _ := "invalid utf-8 sequence of 1 bytes from index 0"

theorem nodup_sampleBase64 : (sampleBase64.map Prod.snd).Nodup := by decide

theorem head?_of_mem_sampleBase64 : ∀ e ∈ sampleBase64, e.2.toList.head? ≠ some '!' := by
  decide

theorem decodeTable_mark (cs : List Char) :
    decodeTable sampleBase64 (String.ofList ('!' :: cs)) = .error "unknown code" := by
  unfold decodeTable
  split
  · next e he =>
    have htext : e.2 = String.ofList ('!' :: cs) := by simpa using List.find?_some he
    refine absurd ?_ (head?_of_mem_sampleBase64 e (List.mem_of_find?_eq_some he))
    rw [htext, String.toList_ofList]
    rfl
  · rfl

theorem roundTrip_sample : sample.RoundTrip where
  entries _ _ _ h := decodeTable_of_encodeTable (by decide) h
  file _ _ h := decodeTable_of_encodeTable (by decide +kernel) h
  base64 bytes := by
    unfold sample
    dsimp only
    cases hencode : encodeTable sampleBase64 bytes with
    | ok text => rw [decodeTable_of_encodeTable nodup_sampleBase64 hencode]
    | error e =>
      rw [decodeTable_mark]
      dsimp only
      rw [String.toList_ofList]
      change Except.ok ((bytes.map _).map _) = _
      rw [List.map_map]
      refine congrArg Except.ok (List.map_id'' (fun b => ?_) bytes)
      have hvalid : b.toNat.isValidChar := .inl (b.toNat_lt.trans (by decide))
      have hchar : (Char.ofNat b.toNat).toNat = b.toNat := by
        unfold Char.ofNat
        rw [dif_pos hvalid]
        rfl
      rw [Function.comp_apply, hchar, UInt8.ofNat_toNat]
  cipher key nonce aad msg sealed h := by
    unfold sample at h ⊢
    dsimp only at h ⊢
    split_ifs at h with hkey
    · rw [if_pos hkey]
      exact decodeTable_of_encodeTable (by decide) h

/-- What the calls find around them. -/
def calm : Surroundings :=
  ⟨some "AAECAwQFBgcICQoLDA0ODxAREhMUFRYXGBkaGxwdHh8=", none, sampleKey, 0, sampleSalt, sampleNonce,
    none, none, ⟨none, none, none, none⟩⟩

/-- A new vault, and a secret that it stores. -/
def sampleCalls (s : Surroundings) : List (Call × Surroundings) :=
  [(.init, calm), (.set "token" "x", s)]

/-! ## Runs -/

/-- **A call that fits** is right, and keeps the invariant. -/
theorem sound_call (hc : c.RoundTrip) (hsync : Synced c w) (e : Call × Surroundings)
    (h : Fits c w e) : Sound c w (call c e.2 w e.1) := by
  obtain ⟨op, s⟩ := e
  cases op with
  | init => exact sound_init hc hsync h
  | initWithKey key => exact sound_initWithKey hc hsync h
  | unlock => exact sound_unlock hsync
  | unlockWithKey key => exact sound_unlockWithKey hsync key
  | set key value => exact sound_set hc hsync h
  | remove key => exact sound_remove hc hsync h

theorem along_right (hc : c.RoundTrip) {calls : List (Call × Surroundings)} (hsync : Synced c w)
    (h : Along (step c) (Fits c) w calls) :
    Along (step c) (fun w e => Right c w (call c e.2 w e.1)) w calls := by
  induction calls generalizing w with
  | nil => trivial
  | cons e calls ih =>
    have hsound := sound_call hc hsync e h.1
    exact ⟨hsound.right, ih hsound.synced h.2⟩

/-- **The vault's memory and its file agree** in every run of a vault whose calls fit. -/
theorem memory_agrees (hc : c.RoundTrip) (path : String)
    (files : Files (List Paths.Component) UInt8) (calls : List (Call × Surroundings))
    (h : Along (step c) (Fits c) ⟨.new path, files⟩ calls) :
    Along (step c) (fun w e => Right c w (call c e.2 w e.1)) ⟨.new path, files⟩ calls :=
  along_right hc (fun hunlocked => absurd hunlocked Bool.false_ne_true) h

/-- A new vault that stores a secret. -/
theorem memory_agrees_sample : Along (step sample)
    (fun w e => Right sample w (call sample e.2 w e.1)) ⟨.new "/v/vault.enc", fun _ => none⟩
    (sampleCalls calm) := by
  have hkey : initKey sample calm = .ok sampleKey := by decide
  have hfirst : Saves sample calm sampleKey ⟨"/v/vault.enc", ∅, true, none⟩ :=
    ⟨⟨sampleText sampleEmpty, by decide +kernel⟩, rfl, rfl, rfl, rfl, rfl⟩
  have hsecond : Saves sample calm sampleKey
      ⟨"/v/vault.enc", sampleEntries, true, some sampleKey⟩ :=
    ⟨⟨sampleText sampleStored, by decide +kernel⟩, rfl, rfl, rfl, rfl, rfl⟩
  refine memory_agrees roundTrip_sample _ _ _ ⟨fun _ key h => ?_, fun _ => .inl ?_, trivial⟩
  · rw [← Except.ok.inj (hkey.symm.trans h)]
    exact hfirst
  · have hinit : (step sample ⟨.new "/v/vault.enc", fun _ => none⟩ (.init, calm)).vault =
        ⟨"/v/vault.enc", ∅, true, some sampleKey⟩ := rfl
    rw [hinit]
    exact ⟨sampleKey, rfl, hsecond⟩

/-- **A secret that was not saved** is shown, though `set` has failed. -/
theorem unsaved_secret : ¬ Along (step sample)
    (fun w e => Right sample w (call sample e.2 w e.1)) ⟨.new "/v/vault.enc", fun _ => none⟩
    (sampleCalls { calm with write := ⟨none, none, none, some "No space left on device"⟩ }) := by
  intro h
  have hset : Unchanged _ _ := h.2.1
  exact absurd (congrArg (Finmap.lookup "token") hset.entries) (by decide +kernel)

end LibreFang.Vault
