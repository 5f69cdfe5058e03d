import Mathlib.Algebra.Order.Ring.Nat
import LibreFang.Lib.Occurrences
import LibreFang.Lib.Pieces
import LibreFang.Lib.Runs
import LibreFang.Lib.Table

/-!
# The filter for personal data

Before a message is sent to a model, what looks like personal data is replaced in it, pattern by
pattern: by a placeholder, or by a pseudonym that stays the same for the same value.

* `PiiFilter.new`: the patterns of a filter. What a pattern finds is a parameter.
* `indexToLabel`, `getOrCreatePseudonym`: the pseudonyms, `[Email-A]` and so on.
* `pseudonymize`, `redact`, `filterMessage`.
-/

namespace LibreFang.Privacy

open Pieces

/-! ## Patterns -/

/-- A compiled pattern: a text cut into what `find_iter` finds and what is between. -/
structure Regex where
  pieces : List Char → List (Piece Char)
  render_pieces : ∀ s, render id (pieces s) = s

/-- The name of a kind of personal data: it starts with a small letter. -/
def IsLabel (s : List Char) : Prop := s.head?.any Char.isLower = true ∧ ':' ∉ s

instance (s : List Char) : Decidable (IsLabel s) := inferInstanceAs (Decidable (_ ∧ _))

/-- The name of a kind of personal data. -/
abbrev Label := {s : List Char // IsLabel s}

def email : Label := ⟨['e', 'm', 'a', 'i', 'l'], by decide⟩

def phone : Label := ⟨['p', 'h', 'o', 'n', 'e'], by decide⟩

def creditCard : Label := ⟨['c', 'r', 'e', 'd', 'i', 't', '_', 'c', 'a', 'r', 'd'], by decide⟩

def ssn : Label := ⟨['s', 's', 'n'], by decide⟩

/-- `BUILTIN_PATTERNS`. -/
def builtinPatterns : List (Label × String) :=
  [(email, "[a-zA-Z0-9._%+\\-]+@[a-zA-Z0-9.\\-]+\\.[a-zA-Z]\x7b2,\x7d"),
    (phone, "(?:\\+\\d\x7b1,3\x7d[\\s\\-]?)?\\(?\\d\x7b2,4\x7d\\)?[\\s.\\-]?\\d\x7b3,4\x7d" ++
      "[\\s.\\-]?\\d\x7b3,4\x7d"),
    (creditCard, "\\b(?:4\\d\x7b3\x7d|5[1-5]\\d\x7b2\x7d|3[47]\\d\x7b2\x7d|" ++
      "6(?:011|5\\d\x7b2\x7d))[\\s\\-]?\\d\x7b4\x7d[\\s\\-]?\\d\x7b4\x7d[\\s\\-]?\\d\x7b4\x7d" ++
      "(?:\\d\x7b3\x7d)?\\b"),
    (ssn, "\\b\\d\x7b3\x7d[\\-\\s]?\\d\x7b2\x7d[\\-\\s]?\\d\x7b4\x7d\\b")]

theorem isLabel_custom (i : ℕ) : IsLabel ("custom_".toList ++ Nat.toDigits 10 i) := by
  refine ⟨rfl, fun hmem => ?_⟩
  rcases List.mem_append.mp hmem with hmem | hmem
  · revert hmem
    decide
  · have hdigit := Nat.isDigit_of_mem_toDigits (by decide) (by decide) hmem
    exact absurd hdigit (by decide)

/-- `custom_{i}`. -/
def custom (i : ℕ) : Label := ⟨"custom_".toList ++ Nat.toDigits 10 i, isLabel_custom i⟩

/-- The patterns of a filter. -/
structure PiiFilter where
  patterns : List (Label × Regex)

/-- `PiiFilter::new`: patterns that cannot be compiled are skipped. -/
def PiiFilter.new (compile : String → Option Regex) (customPatterns : List String) : PiiFilter where
  patterns :=
    (builtinPatterns ++ customPatterns.mapIdx fun i pat => (custom i, pat)).filterMap
      fun (label, pat) => (compile pat).map fun re => (label, re)

/-! ## Pseudonyms -/

/-- The loop of `index_to_label`, with fuel. -/
def labelLoop : ℕ → ℕ → List Char
  | 0, _ => []
  | fuel + 1, idx =>
    (if idx < 26 then [] else labelLoop fuel (idx / 26 - 1)) ++ [Char.ofNat (65 + idx % 26)]

/-- `index_to_label`. -/
def indexToLabel (idx : ℕ) : List Char := labelLoop (idx + 1) idx

/-- `capitalize_category`; the categories begin with ASCII letters. -/
def capitalizeCategory : List Char → List Char
  | [] => []
  | c :: cs => c.toUpper :: cs

/-- The pseudonym of a category with a number. -/
def pseudonym (category : List Char) (counter : ℕ) : List Char :=
  '[' :: (capitalizeCategory category ++ '-' :: (indexToLabel counter ++ [']']))

/-- `pseudonym_map` and `pseudonym_counters`; the counters are `u32`. -/
structure Names where
  pseudonymMap : Table (List Char) (List Char)
  pseudonymCounters : Table (List Char) ℕ

/-- No names. -/
def Names.empty : Names := ⟨∅, ∅⟩

/-- The key of a value, with its category. -/
def nameKey (category value : List Char) : List Char := category ++ ':' :: value

/-- The pseudonym of a value. -/
def Names.nameOf (names : Names) (category value : List Char) : Option (List Char) :=
  names.pseudonymMap.lookup (nameKey category value)

/-- The next number of a category. -/
def Names.counterOf (names : Names) (category : List Char) : ℕ :=
  (names.pseudonymCounters.lookup category).getD 0

/-- `get_or_create_pseudonym`. -/
def getOrCreatePseudonym (names : Names) (value category : List Char) : List Char × Names :=
  match names.nameOf category value with
  | some existing => (existing, names)
  | none =>
    let counter := names.counterOf category
    (pseudonym category counter,
      { pseudonymMap :=
          names.pseudonymMap.insert (nameKey category value) (pseudonym category counter)
        pseudonymCounters := names.pseudonymCounters.insert category ((counter + 1) % 2 ^ 32) })

/-! ## Filtering -/

/-- `str::split`; the empty pattern is between any two characters. -/
def strSplit (pattern s : List Char) : List (List Char) :=
  if pattern = [] then [] :: (s.map fun c => [c]) ++ [[]] else Occurrences.split pattern s

/-- `str::replace`. -/
def strReplace (s pattern new : List Char) : List Char := new.intercalate (strSplit pattern s)

/-- What has been filtered so far, and the names. -/
structure State where
  text : List Char
  names : Names

/-- One match is replaced, wherever it occurs. -/
def replaceMatch (label : Label) (s : State) (matched : List Char) : State :=
  let named := getOrCreatePseudonym s.names matched label.1
  ⟨strReplace s.text matched named.1, named.2⟩

/-- The pass of one pattern: the matches are collected first. -/
def pass (s : State) (pattern : Label × Regex) : State :=
  (values (pattern.2.pieces s.text)).foldl (replaceMatch pattern.1) s

/-- `pseudonymize`. -/
def pseudonymize (filter : PiiFilter) (text : List Char) (names : Names) : State :=
  filter.patterns.foldl pass ⟨text, names⟩

/-- `redact`. -/
def redact (filter : PiiFilter) (text : List Char) : List Char :=
  filter.patterns.foldl
    (fun result pattern => render (fun _ => "[REDACTED]".toList) (pattern.2.pieces result)) text

/-- `PrivacyMode`. -/
inductive PrivacyMode
  | off
  | redact
  | pseudonymize

/-- `filter_message`. -/
def filterMessage (filter : PiiFilter) (names : Names) (text : List Char) : PrivacyMode → State
  | .off => ⟨text, names⟩
  | .redact => ⟨redact filter text, names⟩
  | .pseudonymize => pseudonymize filter text names

/-- A new message, or the pass of one pattern over it. -/
inductive Act
  | load (text : List Char)
  | pass (pattern : Label × Regex)

/-- One step. -/
def step (s : State) : Act → State
  | .load text => ⟨text, s.names⟩
  | .pass pattern => Privacy.pass s pattern

/-- The steps of a call that pseudonymizes a text. -/
def call (filter : PiiFilter) (text : List Char) : List Act :=
  .load text :: filter.patterns.map .pass

/-- The steps of one call after the other. -/
def calls (filter : PiiFilter) (texts : List (List Char)) : List Act := texts.flatMap (call filter)

theorem after_call (filter : PiiFilter) (s : State) (text : List Char) :
    Runs.after step s (call filter text) =
      filterMessage filter s.names text .pseudonymize := by
  unfold call filterMessage pseudonymize Runs.after
  rw [List.foldl_cons, List.foldl_map]
  rfl

end LibreFang.Privacy
