import Mathlib.Data.List.Chain
import RouterCli.Proofs.Shell.Unseen

/-!
  RouterCli.Proofs.Shell.LineEndings

  The ends of lines as terminals send them: a carriage return, a line feed, both, or a
  carriage return and a null character. Each ends one line, with one exception: a line feed
  behind a bare carriage return belongs to it, so an empty line that a line feed ends is not
  heard there. What the decoder hears of a line is a matter of the line and of what was
  remembered of the line before (`Decoder.feedAll_line`), so the lines are heard one by one
  (`Decoder.feedAll_lines_iff`).
-/

namespace RouterCli

-- ============================================================================
-- Lines
-- ============================================================================

/-- What ends a line. -/
inductive LineEnding where
  | carriageReturn
  | lineFeed
  | returnFeed
  /-- As telnet sends a bare return. -/
  | returnNull
deriving DecidableEq, Repr

namespace LineEnding

/-- The characters that are sent. -/
def text : LineEnding → List Char
  | carriageReturn => ['\r']
  | lineFeed => ['\n']
  | returnFeed => ['\r', '\n']
  | returnNull => ['\r', '\x00']

end LineEnding

/-- A line as a terminal sends it. -/
structure TypedLine where
  chars : List Char
  ending : LineEnding
deriving DecidableEq, Repr

namespace TypedLine

/-- All the characters that are sent. -/
def text (line : TypedLine) : List Char :=
  line.chars ++ line.ending.text

/-- What there is to hear: the characters of the line, one by one, and its end. -/
def events (line : TypedLine) : List InputEvent :=
  line.chars.map .char ++ [.enter]

/-- It has neither control characters nor the question mark. -/
def IsPlain (line : TypedLine) : Prop :=
  ∀ c ∈ line.chars, Text.isControl c = false ∧ c ≠ '?'

instance (line : TypedLine) : Decidable line.IsPlain :=
  List.decidableBAll _ line.chars

/-- An empty line that a line feed ends. -/
def IsLoneFeed (line : TypedLine) : Prop :=
  line.chars = [] ∧ line.ending = .lineFeed

instance (line : TypedLine) : Decidable line.IsLoneFeed :=
  inferInstanceAs (Decidable (_ ∧ _))

/-- Where a bare carriage return ends the line, the next one is not a lone line feed. -/
def MayPrecede (line next : TypedLine) : Prop :=
  line.ending = .carriageReturn → ¬next.IsLoneFeed

instance : DecidableRel MayPrecede :=
  fun line next => inferInstanceAs (Decidable (line.ending = .carriageReturn → ¬next.IsLoneFeed))

end TypedLine

-- ============================================================================
-- What is heard
-- ============================================================================

namespace Decoder

/-- What the decoder hears of characters, but for those that mean nothing. -/
def heard (d : Decoder) (cs : List Char) : List InputEvent :=
  (d.feedAll cs).1.filter (· ≠ .none)

theorem feedAll_append (d : Decoder) (cs more : List Char) :
    d.feedAll (cs ++ more) =
      ((d.feedAll cs).1 ++ ((d.feedAll cs).2.feedAll more).1,
        ((d.feedAll cs).2.feedAll more).2) := by
  induction cs generalizing d with
  | nil => rfl
  | cons c rest ih => simp [feedAll, ih]

theorem heard_append (d : Decoder) (cs more : List Char) :
    d.heard (cs ++ more) = d.heard cs ++ (d.feedAll cs).2.heard more := by
  rw [heard, feedAll_append, List.filter_append]
  rfl

/-- A plain character is heard as it is, and what was remembered is forgotten. -/
theorem feed_of_plain (afterReturn : Bool) {c : Char}
    (hc : Text.isControl c = false ∧ c ≠ '?') :
    feed { afterReturn } c = (.char c, {}) := by
  have hevent : normalEvent afterReturn c = .char c :=
    (Shell.normalEvent_of_printable afterReturn hc.1).resolve_right fun h => hc.2 h.1
  have hescape : c ≠ '\x1b' := by
    rintro rfl
    exact absurd hc.1 (by decide)
  have hreturn : (c == '\r') = false := by
    rw [beq_eq_false_iff_ne]
    rintro rfl
    exact absurd hc.1 (by decide)
  simp only [feed, if_neg hescape, hevent, hreturn]

theorem feedAll_of_plain {cs : List Char} (h : ∀ c ∈ cs, Text.isControl c = false ∧ c ≠ '?')
    (afterReturn : Bool) :
    feedAll { afterReturn } cs =
      (cs.map .char, { afterReturn := afterReturn && cs.isEmpty }) := by
  induction cs generalizing afterReturn with
  | nil => simp [feedAll]
  | cons c rest ih =>
    obtain ⟨hc, hrest⟩ := List.forall_mem_cons.1 h
    rw [feedAll, feed_of_plain afterReturn hc]
    dsimp only
    rw [ih hrest false]
    simp

/-- The end of a line is heard once, but for a line feed behind a carriage return. -/
theorem feedAll_ending (afterReturn : Bool) (ending : LineEnding) :
    heard { afterReturn } ending.text =
        (if afterReturn = true ∧ ending = .lineFeed then [] else [.enter]) ∧
      (feedAll { afterReturn } ending.text).2 =
        { afterReturn := ending = .carriageReturn } := by
  cases afterReturn <;> cases ending <;> decide

/-- What is heard of a line behind the lines before it. -/
def heardOf (afterReturn : Bool) (line : TypedLine) : List InputEvent :=
  if afterReturn = true ∧ line.IsLoneFeed then [] else line.events

/-- One line: all is heard of it that there is to hear, unless it is a lone line feed behind a
    carriage return, and behind it only a bare carriage return is remembered. -/
theorem feedAll_line {line : TypedLine} (h : line.IsPlain) (afterReturn : Bool) :
    heard { afterReturn } line.text = heardOf afterReturn line ∧
      (feedAll { afterReturn } line.text).2 =
        { afterReturn := line.ending = .carriageReturn } := by
  have hchars := feedAll_of_plain h afterReturn
  obtain ⟨hending, hbehind⟩ :=
    feedAll_ending (afterReturn && line.chars.isEmpty) line.ending
  have hheard : heard { afterReturn } line.chars = line.chars.map .char := by
    rw [heard, hchars, List.filter_eq_self]
    simp
  rw [TypedLine.text, heard_append, feedAll_append, hchars]
  refine ⟨?_, hbehind⟩
  rw [hheard, hending, heardOf, TypedLine.events]
  by_cases hlone : afterReturn = true ∧ line.IsLoneFeed
  · obtain ⟨rfl, hempty, hfeed⟩ := hlone
    simp [TypedLine.IsLoneFeed, hempty, hfeed]
  · have hnot : ¬((afterReturn && line.chars.isEmpty) = true ∧ line.ending = .lineFeed) := by
      simpa [TypedLine.IsLoneFeed, and_assoc] using hlone
    rw [if_neg hlone, if_neg hnot]

-- ============================================================================
-- Lines one after the other
-- ============================================================================

/-- What is heard of lines, the first of them behind a carriage return or not. -/
def heardLines : Bool → List TypedLine → List InputEvent
  | _, [] => []
  | afterReturn, line :: lines =>
    heardOf afterReturn line ++ heardLines (line.ending = .carriageReturn) lines

theorem length_heardOf_le (afterReturn : Bool) (line : TypedLine) :
    (heardOf afterReturn line).length ≤ line.events.length := by
  unfold heardOf
  split
  · exact Nat.zero_le _
  · exact Nat.le_refl _

theorem length_heardLines_le (afterReturn : Bool) (lines : List TypedLine) :
    (heardLines afterReturn lines).length ≤ (lines.flatMap (·.events)).length := by
  induction lines generalizing afterReturn with
  | nil => exact Nat.le_refl _
  | cons line lines ih =>
    have hline := length_heardOf_le afterReturn line
    have hlines := ih (line.ending = .carriageReturn)
    simp only [heardLines, List.flatMap_cons, List.length_append]
    omega

/-- The run over the lines, from the step over one. -/
theorem feedAll_lines {lines : List TypedLine} (h : ∀ line ∈ lines, line.IsPlain)
    (afterReturn : Bool) :
    heard { afterReturn } (lines.flatMap (·.text)) = heardLines afterReturn lines ∧
      (feedAll { afterReturn } (lines.flatMap (·.text))).2.escape = .normal := by
  induction lines generalizing afterReturn with
  | nil => exact ⟨rfl, rfl⟩
  | cons line lines ih =>
    obtain ⟨hline, hlines⟩ := List.forall_mem_cons.1 h
    obtain ⟨hheard, hbehind⟩ := feedAll_line hline afterReturn
    obtain ⟨hrest, hnormal⟩ := ih hlines (line.ending = .carriageReturn)
    rw [List.flatMap_cons, heard_append, feedAll_append, hheard, hbehind, hrest]
    exact ⟨rfl, hnormal⟩

/-- All is heard exactly if no lone line feed stands behind a bare carriage return. -/
theorem heardLines_eq_iff {afterReturn : Bool} {lines : List TypedLine} :
    heardLines afterReturn lines = lines.flatMap (·.events) ↔
      (∀ line ∈ lines.head?, afterReturn = true → ¬line.IsLoneFeed) ∧
        lines.IsChain TypedLine.MayPrecede := by
  induction lines generalizing afterReturn with
  | nil => simp [heardLines]
  | cons line lines ih =>
    have hnext : heardLines (line.ending = .carriageReturn) lines =
        lines.flatMap (·.events) ↔ (line :: lines).IsChain TypedLine.MayPrecede := by
      rw [ih, List.isChain_cons]
      simp [TypedLine.MayPrecede]
    rw [heardLines, List.flatMap_cons, ← hnext]
    by_cases hlone : afterReturn = true ∧ line.IsLoneFeed
    · -- The end of the line is lost, and nothing that follows makes up for it.
      have hshort := length_heardLines_le (line.ending = .carriageReturn) lines
      have hlost : heardOf afterReturn line = [] := if_pos hlone
      have hends : line.events.length = line.chars.length + 1 := by simp [TypedLine.events]
      constructor
      · intro heq
        have hlength := congrArg List.length heq
        rw [hlost, List.nil_append, List.length_append] at hlength
        omega
      · rintro ⟨hfirst, -⟩
        exact absurd hlone.2 (hfirst line rfl hlone.1)
    · have hall : heardOf afterReturn line = line.events := if_neg hlone
      rw [hall, List.append_cancel_left_eq]
      simp only [List.head?_cons, Option.mem_some, forall_eq']
      exact ⟨fun h => ⟨fun hreturn hfeed => hlone ⟨hreturn, hfeed⟩, h⟩, fun h => h.2⟩

/-- Lines of plain characters come to a fresh decoder, each with any of the four ends. Then
    it hears every character of them and one end for each line, in order, exactly if no line
    that a bare carriage return ends is followed by an empty one that a line feed ends; and it
    is not in an escape sequence behind them. -/
theorem feedAll_lines_iff {lines : List TypedLine} (h : ∀ line ∈ lines, line.IsPlain) :
    (heard {} (lines.flatMap (·.text)) = lines.flatMap (·.events) ↔
        lines.IsChain TypedLine.MayPrecede) ∧
      (feedAll {} (lines.flatMap (·.text))).2.escape = .normal := by
  obtain ⟨hheard, hnormal⟩ := feedAll_lines h false
  refine ⟨?_, hnormal⟩
  rw [hheard, heardLines_eq_iff]
  simp

/-- All four ends, blank lines among them. A line feed alone behind a bare carriage return
    ends no line of its own. -/
theorem feedAll_lines_iff_fourEndings :
    heard {} "a\nb\r\r\n\r\x00c\r".toList =
        [.char 'a', .enter, .char 'b', .enter, .enter, .enter, .char 'c', .enter] ∧
      heard {} "a\r\n".toList ≠ [.char 'a', .enter, .enter] := by
  let lines : List TypedLine := [⟨['a'], .lineFeed⟩, ⟨['b'], .carriageReturn⟩,
    ⟨[], .returnFeed⟩, ⟨[], .returnNull⟩, ⟨['c'], .carriageReturn⟩]
  let swallowed : List TypedLine := [⟨['a'], .carriageReturn⟩, ⟨[], .lineFeed⟩]
  have hlines : ∀ line ∈ lines, line.IsPlain := by decide
  have hswallowed : ∀ line ∈ swallowed, line.IsPlain := by decide
  have hchain : lines.IsChain TypedLine.MayPrecede := by decide
  have hbroken : ¬swallowed.IsChain TypedLine.MayPrecede := by decide
  exact ⟨(feedAll_lines_iff hlines).1.2 hchain, (feedAll_lines_iff hswallowed).1.not.2 hbroken⟩

end Decoder

end RouterCli
