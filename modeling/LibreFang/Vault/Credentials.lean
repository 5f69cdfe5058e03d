import Mathlib.Data.Finmap
import LibreFang.Lib.Paths
import LibreFang.Lib.Replace
import LibreFang.Lib.Text

/-!
# The credential vault

Secrets are stored in a file that is encrypted with a master key. The file names its format, its
salt and its nonce; path and schema version are authenticated with the ciphertext.

* `Crates`: the libraries for JSON, base64, Argon2 and AES-GCM; `Crates.RoundTrip`: what was encoded
  is decoded.
* `save`, `load`: the vault's file.
* **`loadBytes_of_vaultContent`**: what was saved is loaded.
-/

namespace LibreFang.Vault

open Paths Replace Text

/-! ## Data -/

abbrev Bytes := List UInt8

/-- An array of bytes. -/
abbrev Octets (n : ℕ) := { bytes : Bytes // bytes.length = n }

abbrev Key := Octets 32

abbrev Entries := Finmap fun _ : String => String

/-- The errors of the vault. -/
inductive ExtensionError
  | vault (text : String)
  | vaultLocked
  | io (text : String)
  deriving DecidableEq

/-- How a call fails. -/
inductive Failure
  | returned (e : ExtensionError)
  | panicked
  deriving DecidableEq

/-- `VaultFile`. -/
structure VaultFile where
  version : UInt8
  salt : String
  nonce : String
  ciphertext : String
  schemaVersion : UInt32
  deriving DecidableEq

/-- `CredentialVault`. -/
structure CredentialVault where
  path : String
  entries : Entries
  unlocked : Bool
  cachedKey : Option Key

/-- `CredentialVault::new`. -/
def CredentialVault.new (path : String) : CredentialVault := ⟨path, ∅, false, none⟩

/-- `get`. -/
def CredentialVault.get (v : CredentialVault) (key : String) : Option String := v.entries.lookup key

/-- `VAULT_MAGIC`. -/
def vaultMagic : Bytes := [0x4F, 0x46, 0x56, 0x31]

/-- `VAULT_SCHEMA_VERSION`. -/
def vaultSchemaVersion : UInt32 := 1

/-- The libraries. A hash map is serialised in an order of its own. -/
structure Crates where
  entriesToJson : ℕ → Entries → Except String Bytes
  entriesFromJson : Bytes → Except String Entries
  fileToJson : VaultFile → Except String String
  fileFromJson : String → Except String VaultFile
  encode : Bytes → String
  decode : String → Except String Bytes
  hashPassword : Key → Bytes → Except String Key
  encrypt : Key → Octets 12 → Bytes → Bytes → Except String Bytes
  decrypt : Key → Octets 12 → Bytes → Bytes → Except String Bytes
  utf8Error : Bytes → String

/-- What the libraries have encoded, they decode. -/
structure Crates.RoundTrip (c : Crates) : Prop where
  entries : ∀ order entries bytes, c.entriesToJson order entries = .ok bytes →
    c.entriesFromJson bytes = .ok entries
  file : ∀ file text, c.fileToJson file = .ok text → c.fileFromJson text = .ok file
  base64 : ∀ bytes, c.decode (c.encode bytes) = .ok bytes
  cipher : ∀ key nonce aad msg sealed, c.encrypt key nonce aad msg = .ok sealed →
    c.decrypt key nonce aad sealed = .ok msg

/-- What a call finds around it: the environment variable and the keyring, random values, and the
answers of the file system. -/
structure Surroundings where
  envKey : Option String
  keyringKey : Option String
  randomKey : Key
  order : ℕ
  salt : Octets 16
  nonce : Octets 12
  read : Option String
  createDir : Option String
  write : Answers String

/-- A vault, and the files. -/
structure World where
  vault : CredentialVault
  files : Files (List Component) UInt8

/-- `decode_master_key`. -/
def decodeMasterKey (c : Crates) (keyB64 : String) : Except ExtensionError Key :=
  match c.decode keyB64 with
  | .error e => .error (.vault ("Key decode failed: " ++ e))
  | .ok bytes =>
    if h : bytes.length = 32 then .ok ⟨bytes, h⟩
    else .error (.vault s!"Invalid key length: expected 32, got {bytes.length}")

/-- `resolve_master_key`. -/
def resolveMasterKey (c : Crates) (s : Surroundings) (v : CredentialVault) :
    Except ExtensionError Key :=
  match v.cachedKey, s.keyringKey, s.envKey with
  | some cached, _, _ => .ok cached
  | none, some keyB64, _ => decodeMasterKey c keyB64
  | none, none, some keyB64 => decodeMasterKey c keyB64
  | none, none, none => .error .vaultLocked

/-- The key that `init` takes: a new one is only logged if the keyring does not store it. -/
def initKey (c : Crates) (s : Surroundings) : Except ExtensionError Key :=
  match s.envKey, s.keyringKey with
  | some existingB64, _ => decodeMasterKey c existingB64
  | none, some existingB64 => decodeMasterKey c existingB64
  | none, none => .ok s.randomKey

/-- `derive_key`. -/
def deriveKey (c : Crates) (masterKey : Key) (salt : Bytes) : Except ExtensionError Key :=
  (c.hashPassword masterKey salt).mapError fun e => .vault ("Key derivation failed: " ++ e)

/-! ## The file -/

/-- Where the vault's file is. -/
def CredentialVault.location (v : CredentialVault) : List Component :=
  (Path.ofString v.path).components

/-- Where its temporary file is. -/
def CredentialVault.tempLocation (v : CredentialVault) : List Component :=
  ((Path.ofString v.path).withExtension "tmp").components

/-- `to_le_bytes`. -/
def toLeBytes (n : UInt32) : Bytes :=
  [n.toUInt8, (n >>> 8).toUInt8, (n >>> 16).toUInt8, (n >>> 24).toUInt8]

/-- `aad_bytes`. -/
def aadBytes (path : String) (schemaVersion : UInt32) : Bytes :=
  toLeBytes schemaVersion ++ utf8 path

/-- The text that `save` writes. -/
def vaultContent (c : Crates) (s : Surroundings) (v : CredentialVault) (masterKey : Key) :
    Except ExtensionError String := do
  let plaintext ← (c.entriesToJson s.order v.entries).mapError fun e =>
    .vault ("Serialization failed: " ++ e)
  let derivedKey ← deriveKey c masterKey s.salt.1
  let ciphertext ← (c.encrypt derivedKey s.nonce (aadBytes v.path vaultSchemaVersion)
    plaintext).mapError fun e => .vault ("Encryption failed: " ++ e)
  (c.fileToJson ⟨1, c.encode s.salt.1, c.encode s.nonce.1, c.encode ciphertext,
    vaultSchemaVersion⟩).mapError fun e => .vault ("Vault file serialization failed: " ++ e)

/-- `create_dir_all`, if the path has a parent. -/
def createParent (s : Surroundings) (v : CredentialVault) : Option String :=
  if (Path.ofString v.path).parent.isSome then s.createDir else none

/-- What `?` makes of an error of the file system. -/
def ioResult (failure : Option String) : Except ExtensionError Unit :=
  match failure with
  | some e => .error (.io e)
  | none => .ok ()

/-- `save`. -/
def save (c : Crates) (s : Surroundings) (masterKey : Key) (w : World) :
    Except ExtensionError Unit × Files (List Component) UInt8 :=
  match vaultContent c s w.vault masterKey, createParent s w.vault with
  | .error e, _ => (.error e, w.files)
  | .ok _, some e => (.error (.io e), w.files)
  | .ok content, none =>
    let replaced := replace s.write w.vault.tempLocation w.vault.location
      (vaultMagic ++ utf8 content) w.files
    (ioResult replaced.1, replaced.2)

/-- `str::from_utf8`. -/
def fromUtf8 (c : Crates) (bytes : Bytes) : Except ExtensionError String :=
  match fromUtf8? bytes with
  | some text => .ok text
  | none => .error (.vault ("UTF-8 decode failed: " ++ c.utf8Error bytes))

/-- The text of a file; one that starts with a brace has no magic bytes. -/
def fileText (c : Crates) (raw : Bytes) : Except ExtensionError String :=
  if vaultMagic <+: raw then fromUtf8 c (raw.drop vaultMagic.length)
  else if raw.head? = some 0x7B then fromUtf8 c raw
  else .error (.vault "Unrecognized vault file format")

/-- The format's version. -/
def checkVersion (version : UInt8) : Except ExtensionError Unit :=
  if version ≠ 1 then .error (.vault s!"Unsupported vault version: {version}") else .ok ()

/-- The additional data of a file; the first files had the path only. -/
def fileAad (path : String) (schemaVersion : UInt32) : Except ExtensionError Bytes :=
  if schemaVersion = 0 then .ok (utf8 path)
  else if schemaVersion = vaultSchemaVersion then .ok (aadBytes path schemaVersion)
  else .error (.vault s!"Unsupported vault AAD schema version: {schemaVersion}")

/-- `Nonce::from_slice`, which panics on other lengths. -/
def fromSlice (nonceBytes : Bytes) : Except Failure (Octets 12) :=
  if h : nonceBytes.length = 12 then .ok ⟨nonceBytes, h⟩ else .error .panicked

/-- `load`, of what was read. -/
def loadBytes (c : Crates) (path : String) (masterKey : Key) (raw : Bytes) :
    Except Failure Entries := do
  let content ← (fileText c raw).mapError .returned
  let vaultFile ← (c.fileFromJson content).mapError fun e =>
    .returned (.vault ("Vault file parse failed: " ++ e))
  let () ← (checkVersion vaultFile.version).mapError .returned
  let salt ← (c.decode vaultFile.salt).mapError fun e =>
    .returned (.vault ("Salt decode failed: " ++ e))
  let nonceBytes ← (c.decode vaultFile.nonce).mapError fun e =>
    .returned (.vault ("Nonce decode failed: " ++ e))
  let ciphertext ← (c.decode vaultFile.ciphertext).mapError fun e =>
    .returned (.vault ("Ciphertext decode failed: " ++ e))
  let derivedKey ← (deriveKey c masterKey salt).mapError .returned
  let nonce ← fromSlice nonceBytes
  let aad ← (fileAad path vaultFile.schemaVersion).mapError .returned
  let plaintext ← (c.decrypt derivedKey nonce aad ciphertext).mapError fun e =>
    .returned (.vault ("Decryption failed: " ++ e))
  (c.entriesFromJson plaintext).mapError fun e =>
    .returned (.vault ("Vault data parse failed: " ++ e))

/-- `load`: the entries that the vault takes. -/
def load (c : Crates) (s : Surroundings) (masterKey : Key) (w : World) : Except Failure Entries :=
  match s.read, w.files w.vault.location with
  | some e, _ => .error (.returned (.io e))
  | none, none => .error (.returned (.io "No such file or directory (os error 2)"))
  | none, some raw => loadBytes c w.vault.path masterKey raw

/-! ## Calls -/

/-- `exists`. -/
def World.exists (w : World) : Bool := (w.files w.vault.location).isSome

/-- A call fails with an error. -/
def fails {α : Type} (e : ExtensionError) (w : World) : Except Failure α × World :=
  (.error (.returned e), w)

/-- The end of `init` and `init_with_key`. -/
def createVault (c : Crates) (s : Surroundings) (masterKey : Key) (w : World) :
    Except Failure Unit × World :=
  let cleared := { w.vault with entries := ∅, unlocked := true }
  match save c s masterKey { w with vault := cleared } with
  | (.ok (), files) => (.ok (), ⟨{ cleared with cachedKey := some masterKey }, files⟩)
  | (.error e, files) => fails e ⟨cleared, files⟩

/-- `init_with_key`. -/
def initWithKey (c : Crates) (s : Surroundings) (masterKey : Key) (w : World) :
    Except Failure Unit × World :=
  if w.exists then
    fails (.vault "Vault already exists. Delete it first to re-initialize.") w
  else createVault c s masterKey w

/-- `init`. -/
def init (c : Crates) (s : Surroundings) (w : World) : Except Failure Unit × World :=
  if w.exists then
    fails (.vault "Vault already exists. Delete it first to re-initialize.") w
  else
    match initKey c s with
    | .error e => fails e w
    | .ok key => createVault c s key w

/-- The end of `unlock` and `unlock_with_key`. -/
def openVault (c : Crates) (s : Surroundings) (masterKey : Key) (w : World) :
    Except Failure Unit × World :=
  match load c s masterKey w with
  | .error e => (.error e, w)
  | .ok entries =>
    (.ok (), { w with vault := ⟨w.vault.path, entries, true, some masterKey⟩ })

/-- `unlock_with_key`. -/
def unlockWithKey (c : Crates) (s : Surroundings) (masterKey : Key) (w : World) :
    Except Failure Unit × World :=
  if w.vault.unlocked then (.ok (), w)
  else if w.exists then openVault c s masterKey w
  else fails (.vault "Vault not initialized. Run `librefang vault init`.") w

/-- `unlock`. -/
def unlock (c : Crates) (s : Surroundings) (w : World) : Except Failure Unit × World :=
  if w.vault.unlocked then (.ok (), w)
  else if w.exists then
    match resolveMasterKey c s w.vault with
    | .error e => fails e w
    | .ok key => openVault c s key w
  else fails (.vault "Vault not initialized. Run `librefang vault init`.") w

/-- The end of `set` and `remove`: the entries are changed, and saved with the master key. -/
def saveEntries (c : Crates) (s : Surroundings) (entries : Entries) (w : World) :
    Except Failure Unit × World :=
  let changed : World := { w with vault := { w.vault with entries } }
  match resolveMasterKey c s w.vault with
  | .error e => fails e changed
  | .ok key =>
    match save c s key changed with
    | (.ok (), files) => (.ok (), { changed with files })
    | (.error e, files) => fails e { changed with files }

/-- `set`. -/
def set (c : Crates) (s : Surroundings) (key value : String) (w : World) :
    Except Failure Unit × World :=
  if w.vault.unlocked then saveEntries c s (w.vault.entries.insert key value) w
  else fails .vaultLocked w

/-- `remove`. -/
def remove (c : Crates) (s : Surroundings) (key : String) (w : World) :
    Except Failure Bool × World :=
  if w.vault.unlocked then
    if key ∈ w.vault.entries then
      match saveEntries c s (w.vault.entries.erase key) w with
      | (.ok (), w') => (.ok true, w')
      | (.error e, w') => (.error e, w')
    else (.ok false, w)
  else fails .vaultLocked w

/-! ## What was saved is loaded -/

theorem bind_eq_ok {ε α β : Type} {x : Except ε α} {f : α → Except ε β} {b : β} :
    x >>= f = .ok b ↔ ∃ a, x = .ok a ∧ f a = .ok b := by
  cases x with
  | error e => simp [bind, Except.bind]
  | ok a => simp [bind, Except.bind]

theorem mapError_eq_ok {ε ε' α : Type} {x : Except ε α} {f : ε → ε'} {a : α} :
    x.mapError f = .ok a ↔ x = .ok a := by
  cases x with
  | error e => simp [Except.mapError]
  | ok a' => simp [Except.mapError]

theorem vaultContent_eq_ok {c : Crates} {s : Surroundings} {v : CredentialVault} {key : Key}
    {content : String} : vaultContent c s v key = .ok content ↔
      ∃ plaintext derivedKey ciphertext, c.entriesToJson s.order v.entries = .ok plaintext ∧
        c.hashPassword key s.salt.1 = .ok derivedKey ∧
        c.encrypt derivedKey s.nonce (aadBytes v.path vaultSchemaVersion) plaintext =
          .ok ciphertext ∧
        c.fileToJson ⟨1, c.encode s.salt.1, c.encode s.nonce.1, c.encode ciphertext,
          vaultSchemaVersion⟩ = .ok content := by
  unfold vaultContent deriveKey
  simp only [bind_eq_ok, mapError_eq_ok]
  constructor
  · rintro ⟨plaintext, hplain, derived, hderived, ciphertext, hcipher, hfile⟩
    exact ⟨plaintext, derived, ciphertext, hplain, hderived, hcipher, hfile⟩
  · rintro ⟨plaintext, derived, ciphertext, hplain, hderived, hcipher, hfile⟩
    exact ⟨plaintext, hplain, derived, hderived, ciphertext, hcipher, hfile⟩

theorem fileText_magic (c : Crates) (content : String) :
    fileText c (vaultMagic ++ utf8 content) = .ok content := by
  unfold fileText fromUtf8
  rw [if_pos (List.prefix_append ..), List.drop_left, fromUtf8?_eq_some.mpr rfl]

theorem fileAad_self (path : String) :
    fileAad path vaultSchemaVersion = .ok (aadBytes path vaultSchemaVersion) := rfl

/-- **What was saved is loaded.** -/
theorem loadBytes_of_vaultContent {c : Crates} (hc : c.RoundTrip) {s : Surroundings}
    {v : CredentialVault} {key : Key} {content : String}
    (h : vaultContent c s v key = .ok content) :
    loadBytes c v.path key (vaultMagic ++ utf8 content) = .ok v.entries := by
  obtain ⟨plaintext, derived, ciphertext, hplain, hderived, hcipher, hfile⟩ :=
    vaultContent_eq_ok.mp h
  unfold loadBytes deriveKey
  rw [fileText_magic]
  simp only [bind_eq_ok, mapError_eq_ok]
  refine ⟨content, rfl, _, hc.file _ _ hfile, (), rfl, _, hc.base64 _, _, hc.base64 _, _,
    hc.base64 _, derived, hderived, s.nonce, ?_, _, fileAad_self v.path, plaintext, ?_, ?_⟩
  · exact dif_pos s.nonce.2
  · exact hc.cipher _ _ _ _ _ hcipher
  · exact hc.entries _ _ _ hplain

end LibreFang.Vault
