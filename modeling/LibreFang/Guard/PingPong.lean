import Mathlib.Order.Bounds.Basic
import LibreFang.Guard.Bounds

/-!
# Calls that alternate

The guard looks for alternating calls twice: `detectPingPong` reads the last calls from a fixed
place on, `countPingPongRepeats` walks back from the last call and tries two calls before three.

* `EndsWith`: calls that end with a pattern, repeated.
* **`pingPong_agrees`**: the repeats that are counted are those of the pattern that is reported,
  and there are at least three of them. A check counts a warning about alternating calls only if
  the guard has been told to wait for more.
-/

namespace LibreFang.Guard

/-! ## Repeated patterns -/

section Patterns

variable {α : Type*} {pattern calls : List α} {n : ℕ}

/-- The calls end with the pattern, repeated `n` times. -/
def EndsWith (pattern calls : List α) (n : ℕ) : Prop :=
  (List.replicate n pattern).flatten <:+ calls

theorem endsWith_zero (pattern calls : List α) : EndsWith pattern calls 0 := List.nil_suffix

theorem endsWith_append {ending : List α} (hlen : ending.length = pattern.length) :
    EndsWith pattern (calls ++ ending) (n + 1) ↔ ending = pattern ∧ EndsWith pattern calls n := by
  unfold EndsWith
  rw [List.replicate_succ', List.flatten_append, List.flatten_singleton]
  constructor
  · rintro ⟨earlier, h⟩
    rw [← List.append_assoc] at h
    obtain ⟨hcalls, hending⟩ := List.append_inj' h hlen.symm
    exact ⟨hending.symm, earlier, hcalls⟩
  · rintro ⟨rfl, earlier, rfl⟩
    exact ⟨earlier, (List.append_assoc ..).symm⟩

theorem eq_zero_of_endsWith (hlen : calls.length < pattern.length)
    (h : EndsWith pattern calls n) : n = 0 := by
  cases n with
  | zero => rfl
  | succ n =>
    have hle := h.length_le
    rw [List.replicate_succ, List.flatten_cons, List.length_append] at hle
    omega

theorem isGreatest_of_length_lt (hlen : calls.length < pattern.length) :
    IsGreatest {n | EndsWith pattern calls n} 0 :=
  ⟨endsWith_zero .., fun _ h => (eq_zero_of_endsWith hlen h).le⟩

theorem isGreatest_of_ne {ending : List α} (hlen : ending.length = pattern.length)
    (hne : ending ≠ pattern) : IsGreatest {n | EndsWith pattern (calls ++ ending) n} 0 := by
  refine ⟨endsWith_zero .., fun m h => ?_⟩
  cases m with
  | zero => exact le_rfl
  | succ m => exact absurd ((endsWith_append hlen).mp h).1 hne

theorem isGreatest_append (h : IsGreatest {n | EndsWith pattern calls n} n) :
    IsGreatest {n | EndsWith pattern (calls ++ pattern) n} (n + 1) := by
  refine ⟨(endsWith_append rfl).mpr ⟨rfl, h.1⟩, fun m hm => ?_⟩
  cases m with
  | zero => exact Nat.zero_le _
  | succ m => exact Nat.succ_le_succ (h.2 ((endsWith_append rfl).mp hm).2)

end Patterns

namespace LoopGuard

variable {guard : LoopGuard} {host : Host} {call : Call} {message hash : String}

theorem isGreatest_repeatsOfTwo (a b : String) (back : List String) :
    IsGreatest {n | EndsWith [a, b] back.reverse n} (repeatsOfTwo a b back) := by
  fun_induction repeatsOfTwo a b back with
  | case1 y x earlier hsame ih =>
    obtain ⟨rfl, rfl⟩ := hsame
    rw [List.reverse_cons, List.reverse_cons, List.append_assoc]
    exact isGreatest_append ih
  | case2 y x earlier hother =>
    rw [List.reverse_cons, List.reverse_cons, List.append_assoc]
    refine isGreatest_of_ne rfl fun hsame => hother ?_
    simpa using hsame
  | case3 back hshort =>
    apply isGreatest_of_length_lt
    rcases back with _ | ⟨y, _ | ⟨x, earlier⟩⟩
    · exact Nat.zero_lt_two
    · exact Nat.one_lt_two
    · exact (hshort y x earlier rfl).elim

theorem isGreatest_repeatsOfThree (a b c : String) (back : List String) :
    IsGreatest {n | EndsWith [a, b, c] back.reverse n} (repeatsOfThree a b c back) := by
  fun_induction repeatsOfThree a b c back with
  | case1 z y x earlier hsame ih =>
    obtain ⟨rfl, rfl, rfl⟩ := hsame
    rw [List.reverse_cons, List.reverse_cons, List.reverse_cons, List.append_assoc,
      List.append_assoc]
    exact isGreatest_append ih
  | case2 z y x earlier hother =>
    rw [List.reverse_cons, List.reverse_cons, List.reverse_cons, List.append_assoc,
      List.append_assoc]
    refine isGreatest_of_ne rfl fun hsame => hother ?_
    simpa using hsame
  | case3 back hshort =>
    apply isGreatest_of_length_lt
    rcases back with _ | ⟨z, _ | ⟨y, _ | ⟨x, earlier⟩⟩⟩
    · exact Nat.zero_lt_succ _
    · exact Nat.lt_of_sub_eq_succ rfl
    · exact Nat.lt_of_sub_eq_succ rfl
    · exact (hshort z y x earlier rfl).elim

/-! ## What is reported -/

variable (guard) in
/-- The message about a pattern of two or three calls. -/
def patternMessage : List String → Option String
  | [a, b] =>
    some (s!"Ping-pong detected: tools '{guard.toolOf a}' and '{guard.toolOf b}' are " ++
      "alternating repeatedly. Break the cycle by trying a different approach.")
  | [a, b, c] =>
    some (s!"Ping-pong detected: tools '{guard.toolOf a}', '{guard.toolOf b}', " ++
      s!"'{guard.toolOf c}' are cycling repeatedly. " ++
      "Break the cycle by trying a different approach.")
  | _ => none

/-- The message is about the pattern, which is not one call, and which the calls end with three
times. -/
structure Reports (guard : LoopGuard) (pattern : List String) (message : String) : Prop where
  message_eq : guard.patternMessage pattern = some message
  varied : ∃ a ∈ pattern, ∃ b ∈ pattern, a ≠ b
  repeated : EndsWith pattern guard.recentCalls 3

theorem exists_of_alternating (h : guard.alternating = some message) :
    ∃ earlier a b, a ≠ b ∧ guard.recentCalls = earlier ++ [a, b, a, b, a, b] ∧
      guard.patternMessage [a, b] = some message := by
  unfold alternating at h
  split at h
  case h_2 => cases h
  case h_1 a b a' b' a'' b'' htail =>
    obtain ⟨⟨hne, rfl, rfl, rfl, rfl⟩, hmessage⟩ := Option.ite_none_right_eq_some.mp h
    refine ⟨guard.recentCalls.take (guard.recentCalls.length - 6), _, _, hne, ?_, hmessage⟩
    rw [← htail, List.take_append_drop]

theorem exists_of_cycling (h : guard.cycling = some message) :
    ∃ earlier a b c, ¬(a = b ∧ b = c) ∧
      guard.recentCalls = earlier ++ [a, b, c, a, b, c, a, b, c] ∧
      guard.patternMessage [a, b, c] = some message := by
  unfold cycling at h
  split at h
  case h_2 => cases h
  case h_1 a b c a' b' c' a'' b'' c'' htail =>
    obtain ⟨⟨hne, rfl, rfl, rfl, rfl, rfl, rfl⟩, hmessage⟩ := Option.ite_none_right_eq_some.mp h
    refine ⟨guard.recentCalls.take (guard.recentCalls.length - 9), _, _, _, hne, ?_, hmessage⟩
    rw [← htail, List.take_append_drop]

/-! ## What is counted -/

variable {earlier : List String}

theorem countAlternating_of_alternating {a b : String} (hne : a ≠ b)
    (hcalls : guard.recentCalls = earlier ++ [a, b, a, b, a, b]) :
    guard.countAlternating = some (repeatsOfTwo a b guard.recentCalls.reverse) := by
  have hback : guard.recentCalls.reverse = b :: a :: b :: a :: b :: a :: earlier.reverse := by
    rw [hcalls, List.reverse_append]
    rfl
  have htwo : 2 ≤ repeatsOfTwo a b (b :: a :: b :: a :: b :: a :: earlier.reverse) := by
    simp [repeatsOfTwo]
  unfold countAlternating
  rw [hback]
  dsimp only
  rw [if_pos ⟨by simp, hne, htwo⟩]

theorem countAlternating_of_cycling {a b c : String}
    (hcalls : guard.recentCalls = earlier ++ [a, b, c, a, b, c, a, b, c]) :
    guard.countAlternating = none := by
  have hback : guard.recentCalls.reverse =
      c :: b :: a :: c :: b :: a :: c :: b :: a :: earlier.reverse := by
    rw [hcalls, List.reverse_append]
    rfl
  unfold countAlternating
  rw [hback]
  dsimp only
  rw [if_neg]
  rintro ⟨-, hne, htwo⟩
  -- before the last two calls stand `c` and `a`, which are not `b` and `c`
  simp [repeatsOfTwo, hne.symm] at htwo

theorem countCycling_of_cycling {a b c : String} (hne : ¬(a = b ∧ b = c))
    (hcalls : guard.recentCalls = earlier ++ [a, b, c, a, b, c, a, b, c]) :
    guard.countCycling = some (repeatsOfThree a b c guard.recentCalls.reverse) := by
  have hback : guard.recentCalls.reverse =
      c :: b :: a :: c :: b :: a :: c :: b :: a :: earlier.reverse := by
    rw [hcalls, List.reverse_append]
    rfl
  have htwo : 2 ≤ repeatsOfThree a b c
      (c :: b :: a :: c :: b :: a :: c :: b :: a :: earlier.reverse) := by
    simp [repeatsOfThree]
  unfold countCycling
  rw [hback]
  dsimp only
  rw [if_pos ⟨by simp, hne, htwo⟩]

theorem exists_pattern_of_detectPingPong (h : guard.detectPingPong = some message) :
    ∃ pattern, guard.Reports pattern message ∧
      IsGreatest {n | EndsWith pattern guard.recentCalls n} guard.countPingPongRepeats := by
  unfold detectPingPong at h
  cases htwo : guard.alternating with
  | some m =>
    obtain rfl : m = message := by simpa [htwo] using h
    obtain ⟨earlier, a, b, hne, hcalls, hmessage⟩ := exists_of_alternating htwo
    refine ⟨[a, b], ⟨hmessage, ⟨a, by simp, b, by simp, hne⟩, earlier, hcalls.symm⟩, ?_⟩
    unfold countPingPongRepeats
    rw [countAlternating_of_alternating hne hcalls]
    have hcount := isGreatest_repeatsOfTwo a b guard.recentCalls.reverse
    rwa [List.reverse_reverse] at hcount
  | none =>
    rw [htwo] at h
    obtain ⟨earlier, a, b, c, hne, hcalls, hmessage⟩ := exists_of_cycling h
    have hvaried : ∃ x ∈ [a, b, c], ∃ y ∈ [a, b, c], x ≠ y := by
      by_cases hab : a = b
      · exact ⟨b, by simp, c, by simp, fun hbc => hne ⟨hab, hbc⟩⟩
      · exact ⟨a, by simp, b, by simp, hab⟩
    refine ⟨[a, b, c], ⟨hmessage, hvaried, earlier, hcalls.symm⟩, ?_⟩
    unfold countPingPongRepeats
    rw [countAlternating_of_cycling hcalls, countCycling_of_cycling hne hcalls]
    have hcount := isGreatest_repeatsOfThree a b c guard.recentCalls.reverse
    rwa [List.reverse_reverse] at hcount

theorem three_le_countPingPongRepeats (h : guard.detectPingPong = some message) :
    3 ≤ guard.countPingPongRepeats := by
  obtain ⟨pattern, hreports, hgreatest⟩ := exists_pattern_of_detectPingPong h
  exact hgreatest.2 hreports.repeated

/-! ## Warnings about alternating calls -/

/-- How many warnings about alternating calls have been counted for a call. -/
def pingPongWarnings (guard : LoopGuard) (hash : String) : ℕ :=
  countOf guard.warningsEmitted ("pingpong_" ++ hash)

theorem pingpong_ne (hash : String) : "pingpong_" ++ hash ≠ hash := by
  intro h
  have hlen := congrArg String.length h
  rw [String.length_append] at hlen
  have hpos : 0 < "pingpong_".length := by decide
  omega

theorem pingPongWarnings_checkPingPong (hmin : guard.config.pingPongMinRepeats ≤ 3) :
    (guard.checkPingPong hash).2.pingPongWarnings hash = guard.pingPongWarnings hash := by
  unfold checkPingPong
  cases hdetect : guard.detectPingPong with
  | none => rfl
  | some message =>
    dsimp only
    rw [if_pos (hmin.trans (three_le_countPingPongRepeats hdetect))]
    rfl

theorem pingPongWarnings_checkWarnings (guard : LoopGuard) (call : Call) (hash : String)
    (count : ℕ) :
    (guard.checkWarnings call hash count).2.pingPongWarnings hash = guard.pingPongWarnings hash := by
  have hwarned : (LoopGuard.pingPongWarnings
      { guard with warningsEmitted := bump guard.warningsEmitted hash } hash) =
      guard.pingPongWarnings hash := countOf_bump_ne _ (pingpong_ne hash)
  unfold checkWarnings
  dsimp only
  split
  · exact hwarned
  · exact hwarned

theorem pingPongWarnings_check (hmin : guard.config.pingPongMinRepeats ≤ 3) :
    (guard.check host call).2.pingPongWarnings (computeHash host call) =
      guard.pingPongWarnings (computeHash host call) := by
  unfold check
  split
  · rfl
  · unfold checkCall
    dsimp only
    split
    · rfl
    · unfold checkCount
      dsimp only
      split
      · rfl
      · split
        · exact pingPongWarnings_checkWarnings ..
        · exact pingPongWarnings_checkPingPong hmin

/-- **What is counted is what is reported**, whatever the last calls are: at least three repeats of
the pattern, and all of them. A check counts a warning about alternating calls, instead of blocking
the call, only if more than three repeats are asked for. -/
theorem pingPong_agrees (host : Host) (guard : LoopGuard) :
    (∀ message, guard.detectPingPong = some message →
      3 ≤ guard.countPingPongRepeats ∧ ∃ pattern, guard.Reports pattern message ∧
        IsGreatest {n | EndsWith pattern guard.recentCalls n} guard.countPingPongRepeats) ∧
    (∀ message, guard.detectPingPong = some message →
      guard.countPingPongRepeats < guard.config.pingPongMinRepeats →
        3 < guard.config.pingPongMinRepeats) ∧
    ∀ call, (guard.check host call).2.pingPongWarnings (computeHash host call) ≠
        guard.pingPongWarnings (computeHash host call) →
      3 < guard.config.pingPongMinRepeats := by
  refine ⟨fun message h => ⟨three_le_countPingPongRepeats h, exists_pattern_of_detectPingPong h⟩,
    fun message h hlt => (three_le_countPingPongRepeats h).trans_lt hlt, fun call h => ?_⟩
  by_contra hmin
  exact h (pingPongWarnings_check (not_lt.mp hmin))

end LoopGuard

end LibreFang.Guard
