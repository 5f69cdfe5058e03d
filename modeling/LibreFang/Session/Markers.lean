import LibreFang.Lib.Matches
import LibreFang.Lib.Slices

/-!
# Stripping injection markers

`stripInjectionMarkers` looks for the markers in a lowercase copy of a tool result, and cuts the
result itself at the bytes where the copy has them.

* `Casing`: what `str::to_lowercase` does; `toLowercase`.
* `replaceMarker`: one pass over the text; `stripInjectionMarkers`: a pass for each marker.
* `Replaced`, `Effective`: what a pass and what the whole function should do.
-/

namespace LibreFang.Session

open Slices Matches

/-- `str::to_lowercase`: what a character becomes between the texts before and behind it, which
only the capital sigma looks at. The Kelvin sign and the capital I with a dot are the only
characters outside ASCII that become ASCII characters. -/
structure Casing where
  lower : List Char → Char → List Char → List Char
  ascii : ∀ a c b, c.toNat < 128 → lower a c b = [c.toLower]
  kelvin : ∀ a b, lower a '\u212A' b = ['k']
  dotted : ∀ a b, lower a '\u0130' b = ['i', '\u0307']
  other : ∀ a c b, 128 ≤ c.toNat → c ≠ '\u212A' → c ≠ '\u0130' →
    lower a c b ≠ [] ∧ ∀ d ∈ lower a c b, 128 ≤ d.toNat
  size : ∀ a c b, byteLen (lower a c b) = byteLen (lower [] c [])

namespace Casing

variable (casing : Casing)

/-- The lowercase of a text that stands behind `a`. -/
def lowercaseFrom : List Char → List Char → List Char
  | _, [] => []
  | a, c :: s => casing.lower a c s ++ lowercaseFrom (a ++ [c]) s

/-- `str::to_lowercase`. -/
def toLowercase (s : List Char) : List Char := casing.lowercaseFrom [] s

end Casing

/-- `INJECTION_MARKERS`. -/
def injectionMarkers : List (List Char) :=
  ["<|system|>", "<|im_start|>", "<|im_end|>", "### SYSTEM:", "### System Prompt:", "[SYSTEM]",
    "<<SYS>>", "<</SYS>>", "IGNORE PREVIOUS INSTRUCTIONS", "Ignore all previous instructions",
    "ignore the above", "disregard previous"].map String.toList

/-- What stands for a marker in the stripped text. -/
def markerRemoved : List Char := "[injection marker removed]".toList

section Strip

variable (casing : Casing)

/-- The bytes at which the searches for a marker succeed in the lowercase copy. Each search starts
behind the match before it. -/
def markerPositions (marker text : List Char) : List ℕ :=
  positions Char.utf8Size (casing.toLowercase marker) 0 0 (casing.toLowercase text)

/-- The new text of a pass, from the byte `searchPos` on; `none` when a slice panics. -/
def newResult (result : List Char) (markerLen : ℕ) : ℕ → List ℕ → Option (List Char)
  | searchPos, [] => (cut searchPos result).map Prod.snd
  | searchPos, absPos :: found =>
    (slice result searchPos absPos).bind fun kept =>
      (newResult result markerLen (absPos + markerLen) found).map fun rest =>
        kept ++ (markerRemoved ++ rest)

/-- The pass for a marker. -/
def replaceMarker (marker result : List Char) : Option (List Char) :=
  newResult result (byteLen marker) 0 (markerPositions casing marker result)

/-- The passes for the markers. The test looks at the lowercase of the text before all passes. -/
def stripFrom (lower : List Char) : List (List Char) → List Char → Option (List Char)
  | [], result => some result
  | marker :: markers, result =>
    if casing.toLowercase marker <:+: lower then
      (replaceMarker casing marker result).bind (stripFrom lower markers)
    else stripFrom lower markers result

/-- `strip_injection_markers`; `none` when it panics. -/
def stripInjectionMarkers (content : List Char) : Option (List Char) :=
  stripFrom casing (casing.toLowercase content) injectionMarkers content

/-! ## What a pass should do -/

/-- The pieces of a text that are kept, each before a piece of which `f` is kept, and the rest. -/
def weave (f : List Char → List Char) : List (List Char × List Char) → List Char → List Char
  | [], rest => rest
  | part :: parts, rest => part.1 ++ (f part.2 ++ weave f parts rest)

/-- The bytes at which the pieces behind the kept ones start. -/
def starts : ℕ → List (List Char × List Char) → List ℕ
  | _, [] => []
  | pos, part :: parts =>
    (pos + byteLen part.1) :: starts (pos + byteLen part.1 + byteLen part.2) parts

/-- What stands where the marker was found is the marker, ignoring case, and all the rest of the
text is kept. -/
def Replaced (marker text text' : List Char) : Prop :=
  ∃ parts rest, text = weave id parts rest ∧ text' = weave (fun _ => markerRemoved) parts rest ∧
    (∀ part ∈ parts, casing.toLowercase part.2 = casing.toLowercase marker) ∧
    starts 0 parts = markerPositions casing marker text

/-- Every pass returns, and replaces its marker only. -/
def AllReplaced (lower : List Char) : List (List Char) → List Char → Prop
  | [], _ => True
  | marker :: markers, text =>
    if casing.toLowercase marker <:+: lower then
      ∃ text', replaceMarker casing marker text = some text' ∧ Replaced casing marker text text' ∧
        AllReplaced lower markers text'
    else AllReplaced lower markers text

/-- Stripping returns a text without any marker, ignoring case, and replaces markers only. -/
def Effective (content : List Char) : Prop :=
  (∃ out, stripInjectionMarkers casing content = some out ∧
    ∀ marker ∈ injectionMarkers, ¬ casing.toLowercase marker <:+: casing.toLowercase out) ∧
  AllReplaced casing (casing.toLowercase content) injectionMarkers content

end Strip

end LibreFang.Session
