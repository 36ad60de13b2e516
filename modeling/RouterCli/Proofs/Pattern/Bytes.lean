import RouterCli.Proofs.Pattern.Compiled
import RouterCli.Proofs.Text.Bytes

/-!
  RouterCli.Proofs.Pattern.Bytes

  Reading a pattern by its bytes. A reader of bytes keeps a position and a counter in the
  place of the text that is left and of the grouping, and a token is what lies between two of
  its positions. Each of its steps keeps it level with the reader of characters
  (`ByteReader.Stands`), since what ends a token is ASCII and no byte of another character is
  (`Text.IsAsciiClass.takeWhile_bytesOf`). So its run over any pattern is finite, the
  positions are boundaries of characters, each pass gets further, and what was cut out gives
  the levels of the pattern (`ByteReader.compile_runs`).
-/

namespace RouterCli.ByteReader

open Text (bytesOf IsAsciiClass)

-- ============================================================================
-- The reader
-- ============================================================================

/-- Where a reader of bytes stands. -/
structure Place where
  /-- Nothing outside a group, one where a group was opened, more behind its alternatives. -/
  multiple : Nat
  pos : Nat
deriving DecidableEq, Repr

/-- ASCII white space. -/
def isBlank (b : UInt8) : Bool :=
  b == ' '.toUInt8 || b == '\t'.toUInt8 || b == '\n'.toUInt8 || b == '\x0c'.toUInt8 ||
    b == '\r'.toUInt8

/-- A byte that no token holds. -/
def endsToken (b : UInt8) : Bool :=
  isBlank b || b == ')'.toUInt8 || b == '|'.toUInt8

/-- The first position from `i` on whose byte is not in the class. -/
def goOn (p : UInt8 → Bool) (s : List UInt8) (i : Nat) : Nat :=
  if _h : i < s.length then if p s[i] then goOn p s (i + 1) else i else i
termination_by s.length - i

/-- Step over blanks. -/
def skipBlanks (s : List UInt8) (place : Place) : Place :=
  ⟨place.multiple, goOn isBlank s place.pos⟩

/-- Step over `mark`; where it stood, the counter becomes `multiple`. -/
def stepOver (mark : Char) (multiple : Nat) (s : List UInt8) (place : Place) : Place :=
  if s[place.pos]? = some mark.toUInt8 then ⟨multiple, place.pos + 1⟩ else place

/-- Step over a bar, which only a group may hold. -/
def stepOverBar (s : List UInt8) (place : Place) : Except PatternDefect Place :=
  if s[place.pos]? = some '|'.toUInt8 then
    if place.multiple = 0 then .error .strayBar else .ok ⟨place.multiple, place.pos + 1⟩
  else .ok place

/-- Step over the marks before a token. -/
def stepOverMarks (s : List UInt8) (place : Place) : Except PatternDefect Place :=
  (stepOverBar s (stepOver ')' 0 s (stepOver '(' 1 s (skipBlanks s place)))).map
    fun place => stepOver '(' 1 s (skipBlanks s place)

/-- A token as a pass cuts it out. -/
structure Cut where
  /-- Where the pass began, before the marks. -/
  origin : Nat
  multiple : Nat
  start : Nat
  stop : Nat
deriving DecidableEq, Repr

namespace Cut

/-- The place behind the token. -/
def behind (cut : Cut) : Place :=
  ⟨if 0 < cut.multiple then cut.multiple + 1 else 0, cut.stop⟩

end Cut

/-- One pass: the marks, then the token up to a byte that no token holds. At the end of the
    text the reading ends with the counter. -/
def pass (s : List UInt8) (place : Place) : Except PatternDefect (Nat ⊕ Cut) :=
  (stepOverMarks s place).map fun behind =>
    if s.length ≤ behind.pos then .inl behind.multiple
    else .inr ⟨place.pos, behind.multiple, behind.pos, goOn (!endsToken ·) s behind.pos⟩

/-- A reading that ends: the tokens its passes cut out, and the last pass, which refuses the
    text or finds its end. -/
inductive Run (s : List UInt8) : Place → List Cut → Except PatternDefect Nat → Prop
  | refused {place : Place} {defect : PatternDefect} :
    pass s place = .error defect → Run s place [] (.error defect)
  | ended {place : Place} {multiple : Nat} :
    pass s place = .ok (.inl multiple) → Run s place [] (.ok multiple)
  | found {place : Place} {cut : Cut} {cuts : List Cut} {ending : Except PatternDefect Nat} :
    pass s place = .ok (.inr cut) → Run s cut.behind cuts ending → Run s place (cut :: cuts) ending

/-- No place has two readings. -/
theorem Run.unique {s : List UInt8} {place : Place} {cuts cuts' : List Cut}
    {ending ending' : Except PatternDefect Nat} (h : Run s place cuts ending)
    (h' : Run s place cuts' ending') : cuts' = cuts ∧ ending' = ending := by
  induction h generalizing cuts' ending' with
  | refused hpass =>
    cases h' with
    | refused hpass' =>
      cases hpass.symm.trans hpass'
      exact ⟨rfl, rfl⟩
    | ended hpass' => cases hpass.symm.trans hpass'
    | found hpass' _ => cases hpass.symm.trans hpass'
  | ended hpass =>
    cases h' with
    | refused hpass' => cases hpass.symm.trans hpass'
    | ended hpass' =>
      cases hpass.symm.trans hpass'
      exact ⟨rfl, rfl⟩
    | found hpass' _ => cases hpass.symm.trans hpass'
  | found hpass _ ih =>
    cases h' with
    | refused hpass' => cases hpass.symm.trans hpass'
    | ended hpass' => cases hpass.symm.trans hpass'
    | found hpass' hrun' =>
      cases hpass.symm.trans hpass'
      obtain ⟨rfl, rfl⟩ := ih hrun'
      exact ⟨rfl, rfl⟩

-- ============================================================================
-- Bytes and characters side by side
-- ============================================================================

theorem goOn_eq (p : UInt8 → Bool) (s : List UInt8) (i : Nat) :
    goOn p s i = i + ((s.drop i).takeWhile p).length := by
  fun_induction goOn p s i with
  | case1 i hi hp ih =>
    rw [ih, List.drop_eq_getElem_cons hi, List.takeWhile_cons_of_pos hp, List.length_cons]
    omega
  | case2 i hi hp =>
    rw [List.drop_eq_getElem_cons hi, List.takeWhile_cons_of_neg hp]
    rfl
  | case3 i hi =>
    rw [List.drop_eq_nil_of_le (Nat.not_lt.1 hi)]
    rfl

/-- Values that two readers come to: the same defect, or results that belong together. -/
inductive Agree {α β : Type} (related : α → β → Prop) :
    Except PatternDefect α → Except PatternDefect β → Prop
  | error (defect : PatternDefect) : Agree related (.error defect) (.error defect)
  | ok {a : α} {b : β} : related a b → Agree related (.ok a) (.ok b)

namespace Agree

variable {α β γ δ : Type} {related : α → β → Prop} {x : Except PatternDefect α}

theorem map {related' : γ → δ → Prop} {y : Except PatternDefect β} (h : Agree related x y)
    {f : α → γ} {g : β → δ} (hfg : ∀ a b, related a b → related' (f a) (g b)) :
    Agree related' (x.map f) (y.map g) := by
  cases h with
  | error defect => exact .error defect
  | ok hab => exact .ok (hfg _ _ hab)

theorem eq_error {defect : PatternDefect} (h : Agree related x (.error defect)) :
    x = .error defect := by
  cases h
  rfl

theorem exists_ok {b : β} (h : Agree related x (.ok b)) : ∃ a, x = .ok a ∧ related a b := by
  cases h with
  | ok hab => exact ⟨_, rfl, hab⟩

end Agree

/-- The grouping that the counter stands for. -/
def groupingOf : Nat → Grouping
  | 0 => .outside
  | 1 => .opened
  | _ + 2 => .within

theorem groupingOf_eq_outside_iff (multiple : Nat) :
    groupingOf multiple = .outside ↔ multiple = 0 := by
  unfold groupingOf
  split <;> simp

theorem groupingOf_behind (cut : Cut) :
    groupingOf cut.behind.multiple = (groupingOf cut.multiple).afterToken := by
  unfold Cut.behind groupingOf
  cases cut.multiple with
  | zero => rfl
  | succ n => cases n <;> rfl

/-- The place of a reader of bytes belongs to what a reader of characters has left. -/
structure Stands (text : List Char) (place : Place) (s : Grouping × List Char) : Prop where
  grouping : groupingOf place.multiple = s.1
  behind : ∃ read, text = read ++ s.2 ∧ place.pos = String.utf8Len read

section Steps

variable {text : List Char} {place : Place} {s : Grouping × List Char}

theorem Stands.drop (h : Stands text place s) :
    (bytesOf text).drop place.pos = bytesOf s.2 := by
  obtain ⟨read, htext, hpos⟩ := h.behind
  rw [htext, Text.bytesOf_append, hpos, ← Text.length_bytesOf, List.drop_left]

theorem Stands.pos_add (h : Stands text place s) :
    place.pos + String.utf8Len s.2 = String.utf8Len text := by
  obtain ⟨read, htext, hpos⟩ := h.behind
  rw [htext, hpos, String.utf8Len_append]

/-- The position moves with what the reader of characters steps over. -/
theorem Stands.move (h : Stands text place s) (front : List Char) {rest : List Char}
    (hs : s.2 = front ++ rest) {multiple : Nat} {g : Grouping} (hg : groupingOf multiple = g) :
    Stands text ⟨multiple, place.pos + String.utf8Len front⟩ (g, rest) := by
  obtain ⟨read, htext, hpos⟩ := h.behind
  refine ⟨hg, read ++ front, ?_, ?_⟩
  · rw [htext, hs, List.append_assoc]
  · rw [hpos, String.utf8Len_append]

theorem Stands.getElem?_iff (h : Stands text place s) {mark : Char} (hmark : mark.toNat < 128) :
    (bytesOf text)[place.pos]? = some mark.toUInt8 ↔ s.2.head? = some mark := by
  rw [← List.head?_drop, h.drop, Text.head?_bytesOf hmark]

theorem Stands.goOn {p : UInt8 → Bool} {q : Char → Bool} {beyond : Bool}
    (hclass : IsAsciiClass p q beyond) (h : Stands text place s) :
    Stands text ⟨place.multiple, goOn p (bytesOf text) place.pos⟩ (s.1, s.2.dropWhile q) := by
  rw [goOn_eq, h.drop, hclass.takeWhile_bytesOf, Text.length_bytesOf]
  exact h.move _ List.takeWhile_append_dropWhile.symm h.grouping

theorem Stands.stepOver (h : Stands text place s) {mark : Char} (hmark : mark.toNat < 128)
    {multiple : Nat} {after : Grouping} (hafter : groupingOf multiple = after) :
    Stands text (stepOver mark multiple (bytesOf text) place) (takeMark mark after s) := by
  have hfound := h.getElem?_iff hmark
  unfold ByteReader.stepOver takeMark
  obtain ⟨g, _ | ⟨c, rest⟩⟩ := s
  · rw [if_neg (mt hfound.1 nofun)]
    exact h
  · rw [List.head?_cons, Option.some.injEq] at hfound
    by_cases hc : c = mark
    · dsimp only
      rw [if_pos (hfound.2 hc), if_pos hc, ← Text.utf8Len_singleton_of_lt hmark]
      exact h.move [mark] (hc ▸ rfl) hafter
    · dsimp only
      rw [if_neg (mt hfound.1 hc), if_neg hc]
      exact h

/-- A bar is stepped over, or refused, by both readers. -/
theorem Stands.stepOverBar (h : Stands text place s) :
    Agree (Stands text) (stepOverBar (bytesOf text) place) (takeBar s) := by
  have hfound : (bytesOf text)[place.pos]? = some '|'.toUInt8 ↔ s.2.head? = some '|' :=
    h.getElem?_iff (by decide)
  have hgroup := groupingOf_eq_outside_iff place.multiple
  rw [h.grouping] at hgroup
  unfold ByteReader.stepOverBar
  by_cases hbar : s.2.head? = some '|'
  · obtain ⟨g, _ | ⟨c, rest⟩⟩ := s
    · cases hbar
    obtain rfl := Option.some.inj hbar
    rw [if_pos (hfound.2 hbar)]
    simp only [takeBar]
    dsimp only at hgroup
    by_cases hg : g = .outside
    · rw [if_pos hg, if_pos (hgroup.1 hg)]
      exact .error .strayBar
    · rw [if_neg hg, if_neg (mt hgroup.2 hg)]
      exact .ok (h.move ['|'] rfl h.grouping)
  · rw [if_neg (mt hfound.1 hbar)]
    unfold takeBar
    split
    · exact absurd rfl hbar
    · exact .ok h

theorem isAsciiClass_isBlank : IsAsciiClass isBlank Text.isAsciiBlank false :=
  ((((IsAsciiClass.single (by decide)).or (.single (by decide))).or (.single (by decide))).or
    (.single (by decide))).or (.single (by decide))

theorem isAsciiClass_endsToken : IsAsciiClass endsToken RouterCli.endsToken false :=
  (isAsciiClass_isBlank.or (.single (by decide))).or (.single (by decide))

theorem Stands.skipBlanks (h : Stands text place s) :
    Stands text (skipBlanks (bytesOf text) place) (dropBlanks s) :=
  h.goOn isAsciiClass_isBlank

theorem Stands.stepOverMarks (h : Stands text place s) :
    Agree (Stands text) (stepOverMarks (bytesOf text) place) (takeMarks s) := by
  have hopen : Stands text (ByteReader.stepOver '(' 1 (bytesOf text)
      (ByteReader.skipBlanks (bytesOf text) place)) (takeMark '(' .opened (dropBlanks s)) :=
    h.skipBlanks.stepOver (by decide) rfl
  have hclose := hopen.stepOver (show ')'.toNat < 128 by decide)
    (show groupingOf 0 = .outside from rfl)
  exact hclose.stepOverBar.map fun _ _ hbar => hbar.skipBlanks.stepOver (by decide) rfl

end Steps

-- ============================================================================
-- A pass of either reader
-- ============================================================================

section Pass

variable {text : List Char} {place : Place} {g : Grouping} {cs : List Char}

/-- A pass gets shorter by some character, and so by some byte. -/
theorem utf8Len_rest_lt {token : FoundToken} (ht : takeToken g cs = .ok (.inr token)) :
    String.utf8Len token.rest < String.utf8Len cs := by
  have hshorter := takeToken_shorter ht
  obtain ⟨t, hmarks, -, rfl⟩ := takeMarks_of_takeToken_inr ht
  have hsuffix := (List.dropWhile_suffix (!RouterCli.endsToken ·)).trans (takeMarks_suffix hmarks)
  obtain ⟨passed, hpassed⟩ := hsuffix
  dsimp only at hpassed hshorter ⊢
  have hne : String.utf8Len passed ≠ 0 := fun hzero => by
    rw [String.utf8Len_eq_zero.1 hzero, List.nil_append] at hpassed
    rw [hpassed] at hshorter
    exact absurd hshorter (Nat.lt_irrefl _)
  rw [← hpassed, String.utf8Len_append]
  omega

theorem Stands.pass_refused (h : Stands text place (g, cs)) {defect : PatternDefect}
    (ht : takeToken g cs = .error defect) : pass (bytesOf text) place = .error defect := by
  have hagree := h.stepOverMarks
  rw [takeMarks_of_takeToken_error ht] at hagree
  rw [pass, hagree.eq_error]
  rfl

theorem Stands.pass_ended (h : Stands text place (g, cs)) {g' : Grouping}
    (ht : takeToken g cs = .ok (.inl g')) :
    ∃ multiple, pass (bytesOf text) place = .ok (.inl multiple) ∧ groupingOf multiple = g' := by
  have hagree := h.stepOverMarks
  rw [takeMarks_of_takeToken_inl ht] at hagree
  obtain ⟨behind, hstep, hbehind⟩ := hagree.exists_ok
  have hend : (bytesOf text).length ≤ behind.pos :=
    (Text.length_bytesOf text).trans_le hbehind.pos_add.ge
  refine ⟨behind.multiple, ?_, hbehind.grouping⟩
  rw [pass, hstep, Except.map, if_pos hend]

theorem Stands.pass_found (h : Stands text place (g, cs)) {token : FoundToken}
    (ht : takeToken g cs = .ok (.inr token)) :
    ∃ cut, pass (bytesOf text) place = .ok (.inr cut) ∧ cut.origin = place.pos ∧
      Stands text ⟨cut.multiple, cut.start⟩ (token.grouping, token.text ++ token.rest) ∧
      Stands text ⟨cut.multiple, cut.stop⟩ (token.grouping, token.rest) := by
  obtain ⟨t, hmarks, hne, rfl⟩ := takeMarks_of_takeToken_inr ht
  have hagree := h.stepOverMarks
  rw [hmarks] at hagree
  obtain ⟨behind, hstep, hbehind⟩ := hagree.exists_ok
  have hmore : ¬(bytesOf text).length ≤ behind.pos := by
    have hpos := hbehind.pos_add
    have hlen := mt String.utf8Len_eq_zero.1 hne
    rw [Text.length_bytesOf]
    omega
  refine ⟨⟨place.pos, behind.multiple, behind.pos,
    ByteReader.goOn (!endsToken ·) (bytesOf text) behind.pos⟩, ?_, rfl, ?_, ?_⟩
  · rw [pass, hstep, Except.map, if_neg hmore]
  · rw [List.takeWhile_append_dropWhile]
    exact hbehind
  · exact hbehind.goOn isAsciiClass_endsToken.not

end Pass

-- ============================================================================
-- Whole patterns
-- ============================================================================

namespace Cut

/-- The text of the token. -/
def text (pattern : String) (cut : Cut) : String :=
  String.Pos.Raw.extract pattern ⟨cut.start⟩ ⟨cut.stop⟩

/-- The pass got further, and the token lies between boundaries of characters. -/
structure IsSound (pattern : String) (cut : Cut) : Prop where
  progress : cut.origin < cut.stop
  ordered : cut.start ≤ cut.stop
  start_isValid : String.Pos.Raw.IsValid pattern ⟨cut.start⟩
  stop_isValid : String.Pos.Raw.IsValid pattern ⟨cut.stop⟩

end Cut

/-- The levels behind the tokens cut out of a pattern, each with its line of help. -/
def assemble (pattern : String) : List String → List Level → List Cut → List Level
  | _, levels, [] => levels
  | docs, levels, cut :: cuts =>
    let alternative := ⟨Token.ofText (cut.text pattern), docs.headD ""⟩
    assemble pattern docs.tail (addAlternative (groupingOf cut.multiple) levels alternative) cuts

/-- What becomes of the levels with the end of the reading. -/
def finish (levels : List Level) : Except PatternDefect Nat → Except PatternDefect (List Level)
  | .error defect => .error defect
  | .ok multiple =>
    if 0 < multiple then .error .openGroup
    else if levels.isEmpty then .error .empty
    else .ok levels

section Pattern

variable {pattern : String} {place : Place} {s : Grouping × List Char}

theorem Stands.isValid (h : Stands pattern.toList place s) :
    String.Pos.Raw.IsValid pattern ⟨place.pos⟩ := by
  obtain ⟨read, htext, hpos⟩ := h.behind
  refine String.Pos.Raw.isValid_iff_exists_append.2 ⟨String.ofList read, String.ofList s.2, ?_, ?_⟩
  · rw [← String.ofList_append, ← htext, String.ofList_toList]
  · rw [String.rawEndPos_ofList, hpos]

theorem Stands.pos_le (h : Stands pattern.toList place s) :
    place.pos ≤ pattern.utf8ByteSize := by
  have hadd := h.pos_add
  rw [← String.utf8ByteSize_ofList pattern.toList, String.ofList_toList] at hadd
  omega

/-- What lies between two places is what the reader of characters went over between them. -/
theorem Stands.extract {stop : Nat} {multiple : Nat} {g : Grouping} {front rest : List Char}
    (h : Stands pattern.toList place (g, front ++ rest))
    (hstop : Stands pattern.toList ⟨multiple, stop⟩ (g, rest)) :
    String.Pos.Raw.extract pattern ⟨place.pos⟩ ⟨stop⟩ = String.ofList front := by
  obtain ⟨read, htext, hpos⟩ := h.behind
  have hend := hstop.pos_add
  rw [htext, String.utf8Len_append, String.utf8Len_append] at hend
  have hvalid := String.extract_of_valid read front rest
  rw [List.append_assoc, ← htext, String.ofList_toList] at hvalid
  rw [← hvalid, hpos]
  congr 2
  dsimp only at hend
  omega

/-- Every pass that cuts out a token gets further, and the token can be cut out there. -/
theorem Stands.cut_isSound {g : Grouping} {cs : List Char} {token : FoundToken} {cut : Cut}
    (h : Stands pattern.toList place (g, cs)) (ht : takeToken g cs = .ok (.inr token))
    (horigin : cut.origin = place.pos)
    (hstart : Stands pattern.toList ⟨cut.multiple, cut.start⟩
      (token.grouping, token.text ++ token.rest))
    (hstop : Stands pattern.toList ⟨cut.multiple, cut.stop⟩ (token.grouping, token.rest)) :
    cut.IsSound pattern := by
  have horiginEnd : place.pos + String.utf8Len cs = String.utf8Len pattern.toList := h.pos_add
  have hstartEnd := hstart.pos_add
  have hstopEnd : cut.stop + String.utf8Len token.rest = String.utf8Len pattern.toList :=
    hstop.pos_add
  have hshorter := utf8Len_rest_lt ht
  rw [String.utf8Len_append] at hstartEnd
  dsimp only at hstartEnd
  refine ⟨?_, ?_, hstart.isValid, hstop.isValid⟩
  · omega
  · omega

end Pattern

theorem length_flatten_addAlternative (g : Grouping) (levels : List Level) (a : Alternative) :
    (addAlternative g levels a).flatten.length = levels.flatten.length + 1 := by
  by_cases hg : g = .within
  · subst hg
    cases hlast : levels.getLast? with
    | none =>
      rw [List.getLast?_eq_none_iff.1 hlast]
      rfl
    | some last =>
      obtain ⟨front, rfl⟩ := List.getLast?_eq_some_iff.1 hlast
      rw [addAlternative_within hlast]
      simp [Nat.add_assoc]
  · rw [addAlternative_of_ne_within hg]
    simp

/-- There are as many tokens on the levels as were cut out. -/
theorem length_flatten_assemble (pattern : String) (docs : List String) (levels : List Level)
    (cuts : List Cut) :
    (assemble pattern docs levels cuts).flatten.length = levels.flatten.length + cuts.length := by
  induction cuts generalizing docs levels with
  | nil => rfl
  | cons cut cuts ih =>
    rw [assemble, ih, length_flatten_addAlternative, List.length_cons]
    omega

theorem finish_ok {multiple : Nat} {g : Grouping} (hg : groupingOf multiple = g)
    (levels : List Level) :
    finish levels (.ok multiple) =
      if g ≠ .outside then .error .openGroup
      else if levels.isEmpty then .error .empty
      else .ok levels := by
  have hgroup : 0 < multiple ↔ g ≠ .outside := by
    rw [Nat.pos_iff_ne_zero, ne_eq, ← groupingOf_eq_outside_iff, hg]
  unfold finish
  simp only [hgroup]

/-- From places that belong together both readers come to the same levels, the reader of
    bytes in finitely many passes. -/
theorem Stands.compileFrom_runs {pattern : String} {place : Place} {g : Grouping} {cs : List Char}
    (docs : List String) (levels : List Level) (h : Stands pattern.toList place (g, cs)) :
    ∃ cuts ending, Run (bytesOf pattern.toList) place cuts ending ∧
      (∀ cut ∈ cuts, cut.IsSound pattern) ∧
      place.pos + cuts.length ≤ pattern.utf8ByteSize ∧
      compileFrom g cs docs levels = finish (assemble pattern docs levels cuts) ending := by
  -- Along the passes of the reader of characters; that the places belong together carries it.
  fun_induction compileFrom g cs docs levels generalizing place with
  | case1 g cs docs levels defect ht =>
    exact ⟨[], .error defect, .refused (h.pass_refused ht), List.forall_mem_nil _, h.pos_le, rfl⟩
  | case2 g cs docs levels g' ht hopen =>
    obtain ⟨multiple, hpass, hg⟩ := h.pass_ended ht
    refine ⟨[], .ok multiple, .ended hpass, List.forall_mem_nil _, h.pos_le, ?_⟩
    rw [assemble, finish_ok hg, if_pos hopen]
  | case3 g cs docs levels g' ht houtside hempty =>
    obtain ⟨multiple, hpass, hg⟩ := h.pass_ended ht
    refine ⟨[], .ok multiple, .ended hpass, List.forall_mem_nil _, h.pos_le, ?_⟩
    rw [assemble, finish_ok hg, if_neg houtside, if_pos hempty]
  | case4 g cs docs levels g' ht houtside hlevels =>
    obtain ⟨multiple, hpass, hg⟩ := h.pass_ended ht
    refine ⟨[], .ok multiple, .ended hpass, List.forall_mem_nil _, h.pos_le, ?_⟩
    rw [assemble, finish_ok hg, if_neg houtside, if_neg hlevels]
  | case5 g cs docs levels token ht alternative =>
    rename_i ih
    obtain ⟨cut, hpass, horigin, hstart, hstop⟩ := h.pass_found ht
    have hbehind : Stands pattern.toList cut.behind (token.grouping.afterToken, token.rest) :=
      ⟨by rw [groupingOf_behind, hstop.grouping], hstop.behind⟩
    obtain ⟨cuts, ending, hrun, hsound, hlength, hcompile⟩ := ih hbehind
    have hcut : cut.IsSound pattern := h.cut_isSound ht horigin hstart hstop
    refine ⟨cut :: cuts, ending, .found hpass hrun, ?_, ?_, ?_⟩
    · exact List.forall_mem_cons.2 ⟨hcut, hsound⟩
    · have hpos : cut.behind.pos = cut.stop := rfl
      have hprogress := hcut.progress
      rw [List.length_cons]
      omega
    · have htext : cut.text pattern = String.ofList token.text := hstart.extract hstop
      rw [assemble, htext, hstart.grouping]
      exact hcompile

/-- Compiling any pattern is a finite reading of its bytes and no other. Each of its passes
    gets further and cuts at boundaries of characters, there are no more tokens than bytes,
    and the levels are those of the tokens cut out. -/
theorem compile_runs (pattern doc : String) :
    ∃ cuts ending, Run (Text.encode pattern) ⟨0, 0⟩ cuts ending ∧
      (∀ cuts' ending', Run (Text.encode pattern) ⟨0, 0⟩ cuts' ending' →
        cuts' = cuts ∧ ending' = ending) ∧
      (∀ cut ∈ cuts, cut.IsSound pattern) ∧
      cuts.length ≤ pattern.utf8ByteSize ∧
      (assemble pattern (docLines doc) [] cuts).flatten.length = cuts.length ∧
      compile pattern doc = finish (assemble pattern (docLines doc) [] cuts) ending := by
  have hstart : Stands pattern.toList ⟨0, 0⟩ (.outside, pattern.toList) := ⟨rfl, [], rfl, rfl⟩
  obtain ⟨cuts, ending, hrun, hsound, hlength, hcompile⟩ := hstart.compileFrom_runs (docLines doc) []
  rw [Text.encode_eq_bytesOf]
  refine ⟨cuts, ending, hrun, fun _ _ => hrun.unique, hsound, ?_, ?_, hcompile⟩
  · omega
  · rw [length_flatten_assemble]
    exact Nat.zero_add _

end RouterCli.ByteReader
