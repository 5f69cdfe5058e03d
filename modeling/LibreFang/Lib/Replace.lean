import Mathlib.Data.Nat.Notation
import Mathlib.Logic.Function.Basic

/-!
# Replacing a file through a temporary one

The new content is written to a temporary file, which is then renamed over the target. Any of the
calls may fail, and the write after a part of the content.

* `Files`, `Answers`: what the files hold, and what the operating system answers.
* **`replace_target`**: after them the target has the new content.
* **`replace_target_of_ne`**: if one fails, the target has what it had, unless it is the temporary file.
-/

namespace Replace

variable {ι β ε : Type*}

/-- What the files hold. -/
abbrev Files (ι β : Type*) := ι → Option (List β)

/-- The errors of the calls; a write that fails has written a number of bytes. -/
structure Answers (ε : Type*) where
  «open» : Option ε
  writeAll : Option (ℕ × ε)
  syncAll : Option ε
  rename : Option ε

/-- No call fails. -/
structure Answers.Succeeds (a : Answers ε) : Prop where
  «open» : a.open = none
  writeAll : a.writeAll = none
  syncAll : a.syncAll = none
  rename : a.rename = none

/-- The calls, up to the first that fails. -/
def replace [DecidableEq ι] (a : Answers ε) (temp target : ι) (content : List β)
    (files : Files ι β) : Option ε × Files ι β :=
  match a.open, a.writeAll, a.syncAll, a.rename with
  | some e, _, _, _ => (some e, files)
  | none, some (n, e), _, _ => (some e, Function.update files temp (some (content.take n)))
  | none, none, some e, _ => (some e, Function.update files temp (some content))
  | none, none, none, some e => (some e, Function.update files temp (some content))
  | none, none, none, none =>
    (none, Function.update (Function.update files temp none) target (some content))

section

variable [DecidableEq ι] {a : Answers ε} {temp target : ι} {content : List β} {files : Files ι β}

theorem replace_fst_eq_none : (replace a temp target content files).1 = none ↔ a.Succeeds := by
  obtain ⟨o, w, s, r⟩ := a
  constructor
  · intro h
    rcases o with - | e
    · rcases w with - | ⟨n, e⟩
      · rcases s with - | e
        · rcases r with - | e
          · exact ⟨rfl, rfl, rfl, rfl⟩
          · cases h
        · cases h
      · cases h
    · cases h
  · rintro ⟨rfl, rfl, rfl, rfl⟩
    rfl

/-- **A replacement that succeeds.** -/
theorem replace_target (h : (replace a temp target content files).1 = none) :
    (replace a temp target content files).2 target = some content := by
  obtain ⟨o, w, s, r⟩ := a
  obtain ⟨rfl, rfl, rfl, rfl⟩ := replace_fst_eq_none.mp h
  exact Function.update_self ..

/-- **A replacement that fails** does not touch the target, wherever it fails. -/
theorem replace_target_of_ne (hne : target ≠ temp)
    (h : (replace a temp target content files).1 ≠ none) :
    (replace a temp target content files).2 target = files target := by
  obtain ⟨o, w, s, r⟩ := a
  rcases o with - | e
  · rcases w with - | ⟨n, e⟩
    · rcases s with - | e
      · rcases r with - | e
        · exact absurd rfl h
        · exact Function.update_of_ne hne ..
      · exact Function.update_of_ne hne ..
    · exact Function.update_of_ne hne ..
  · rfl

end

end Replace
