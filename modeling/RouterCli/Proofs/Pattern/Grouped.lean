import Mathlib.Data.List.Chain
import Mathlib.Data.List.DropRight
import RouterCli.Matching.Classify
import RouterCli.Proofs.Pattern.Compiled

/-!
  RouterCli.Proofs.Pattern.Grouped

  What an accepted pattern says about its groups. The reading is taken apart into its passes
  (`passes`), each with the marks that it stepped over and the characters that it found. In
  a group, as the reader has it, is in a group as the text has it (`isInGroup_foldl`), so a
  `)` that closes nothing is one that a pass steps over outside of a group; and a level that
  is nothing but an empty token is a pass between parentheses that found no character
  (`compile_grouped_iff`). The reader accepts either.
-/

namespace RouterCli

-- ============================================================================
-- Groups of a text
-- ============================================================================

/-- A parenthesis behind the text opens a group: a token behind it is at its start. -/
def MayOpen (read : List Char) : Prop :=
  ∀ c ∈ read.getLast?, endsToken c = true

/-- Behind the text a group is open: a parenthesis of it has opened one, and no `)` stands
    behind that. -/
def IsInGroup (read : List Char) : Prop :=
  ∃ front more, read = front ++ '(' :: more ∧ MayOpen front ∧ ')' ∉ more

/-- Every `)` of the text `cs` behind `read` closes a group. -/
def ClosesGroups (read cs : List Char) : Prop :=
  ∀ before behind, cs = before ++ ')' :: behind → IsInGroup (read ++ before)

section Groups

variable {read cs text marks : List Char} {c : Char}

theorem mayOpen_concat : MayOpen (read ++ [c]) ↔ endsToken c = true := by
  simp [MayOpen]

theorem not_isInGroup_nil : ¬IsInGroup [] := by
  rintro ⟨front, more, heq, -, -⟩
  simp at heq

/-- One more character. -/
theorem isInGroup_concat :
    IsInGroup (read ++ [c]) ↔ c ≠ ')' ∧ (IsInGroup read ∨ c = '(' ∧ MayOpen read) := by
  constructor
  · rintro ⟨front, more, heq, hfront, hmore⟩
    rcases List.eq_nil_or_concat more with rfl | ⟨more, d, rfl⟩
    · obtain ⟨rfl, hc⟩ := List.append_inj' heq rfl
      obtain rfl : c = '(' := by simpa using hc
      exact ⟨by decide, .inr ⟨rfl, hfront⟩⟩
    · rw [List.concat_eq_append] at heq hmore
      rw [← List.cons_append, ← List.append_assoc] at heq
      obtain ⟨hread, hc⟩ := List.append_inj' heq rfl
      obtain rfl : c = d := by simpa using hc
      rw [List.mem_append, not_or, List.mem_singleton] at hmore
      exact ⟨Ne.symm hmore.2, .inl ⟨front, more, hread, hfront, hmore.1⟩⟩
  · rintro ⟨hc, ⟨front, more, rfl, hfront, hmore⟩ | ⟨rfl, hopen⟩⟩
    · refine ⟨front, more ++ [c], by simp, hfront, ?_⟩
      rw [List.mem_append, not_or, List.mem_singleton]
      exact ⟨hmore, Ne.symm hc⟩
    · exact ⟨read, [], rfl, hopen, List.not_mem_nil⟩

/-- The characters of a token neither open a group nor close one. -/
theorem isInGroup_append_text (htext : ∀ c ∈ text, endsToken c = false)
    (hfirst : text.head? = some '(' → IsInGroup read ∨ ¬MayOpen read) :
    IsInGroup (read ++ text) ↔ IsInGroup read := by
  induction text generalizing read with
  | nil => rw [List.append_nil]
  | cons c text ih =>
    obtain ⟨hc, htext⟩ := List.forall_mem_cons.1 htext
    have hclosed : ¬MayOpen (read ++ [c]) := by simp [mayOpen_concat, hc]
    rw [List.append_cons, ih htext fun _ => .inr hclosed, isInGroup_concat]
    constructor
    · rintro ⟨-, hin | ⟨rfl, hopen⟩⟩
      · exact hin
      · exact (hfirst rfl).resolve_right (not_not.2 hopen)
    · refine fun hin => ⟨?_, .inl hin⟩
      rintro rfl
      cases hc

theorem closesGroups_append {cs' : List Char} :
    ClosesGroups read (cs ++ cs') ↔ ClosesGroups read cs ∧ ClosesGroups (read ++ cs) cs' := by
  constructor
  · refine fun h => ⟨fun before behind heq => ?_, fun before behind heq => ?_⟩
    · exact h before (behind ++ cs') (by simp [heq])
    · rw [List.append_assoc]
      exact h (cs ++ before) behind (by simp [heq])
  · rintro ⟨hcs, hcs'⟩ before behind heq
    rcases List.append_eq_append_iff.1 heq with ⟨more, rfl, hmore⟩ | ⟨more, rfl, hmore⟩
    · rw [← List.append_assoc]
      exact hcs' more behind hmore
    · cases more with
      | nil =>
        have hin := hcs' [] behind hmore.symm
        simpa using hin
      | cons d more =>
        obtain ⟨rfl, -⟩ := List.cons.inj hmore
        exact hcs before more rfl

theorem closesGroups_of_notMem (h : ')' ∉ cs) : ClosesGroups read cs := by
  rintro before behind rfl
  exact absurd (by simp) h

end Groups

-- ============================================================================
-- The marks of a pass
-- ============================================================================

namespace Grouping

theorem afterToken_eq_outside {g : Grouping} : g.afterToken = .outside ↔ g = .outside := by
  cases g <;> simp [afterToken]

theorem afterToken_ne_opened (g : Grouping) : g.afterToken ≠ .opened := by
  cases g <;> simp [afterToken]

end Grouping

/-- The grouping behind one more mark. -/
def behindMark (g : Grouping) : Char → Grouping
  | '(' => .opened
  | ')' => .outside
  | _ => g

section Marks

variable {read marks : List Char} {g : Grouping}

/-- The reader is in a group where the text is in one. -/
theorem isInGroup_foldl (hg : g ≠ .outside ↔ IsInGroup read)
    (hmarks : ∀ c ∈ marks, endsToken c = true ∨ c = '(')
    (hfirst : marks.head? = some '(' → MayOpen read ∨ IsInGroup read) :
    marks.foldl behindMark g ≠ .outside ↔ IsInGroup (read ++ marks) := by
  induction marks generalizing read g with
  | nil => rwa [List.append_nil]
  | cons c marks ih =>
    obtain ⟨hc, hmarks⟩ := List.forall_mem_cons.1 hmarks
    rw [List.foldl_cons, List.append_cons]
    refine ih ?_ hmarks fun _ => ?_
    · rw [isInGroup_concat]
      unfold behindMark
      split
      · have hin : IsInGroup read ∨ MayOpen read := (hfirst rfl).symm
        simp [hin]
      · simp
      · simp_all
    · rw [mayOpen_concat]
      rcases hc with hc | rfl
      · exact .inl hc
      · rw [isInGroup_concat]
        exact .inr ⟨by decide, (hfirst rfl).symm.imp_right fun hopen => ⟨rfl, hopen⟩⟩

/-- Behind an alternative of a group is where no parenthesis stood on the way. -/
theorem foldl_behindMark_eq_within :
    marks.foldl behindMark g = .within ↔ g = .within ∧ '(' ∉ marks ∧ ')' ∉ marks := by
  induction marks generalizing g with
  | nil => simp
  | cons c marks ih =>
    rw [List.foldl_cons, ih]
    unfold behindMark
    split <;> simp_all [eq_comm]

theorem foldl_behindMark_of_isAsciiBlank (h : ∀ c ∈ marks, Text.isAsciiBlank c = true) :
    marks.foldl behindMark g = g := by
  induction marks with
  | nil => rfl
  | cons c marks ih =>
    obtain ⟨hc, hmarks⟩ := List.forall_mem_cons.1 h
    have hstay : behindMark g c = g := by
      unfold behindMark
      split <;> simp_all [Text.isAsciiBlank]
    rw [List.foldl_cons, hstay, ih hmarks]

end Marks

theorem dropBlanks_dropBlanks (s : Grouping × List Char) :
    dropBlanks (dropBlanks s) = dropBlanks s :=
  Prod.ext rfl (List.dropWhile_idempotent _ s.2)

theorem takeMark_eq_or_fst (mark : Char) (after : Grouping) (s : Grouping × List Char) :
    (takeMark mark after s = s ∧ s.2.head? ≠ some mark) ∨ (takeMark mark after s).1 = after := by
  obtain ⟨g, _ | ⟨c, rest⟩⟩ := s
  · simp [takeMark]
  · by_cases h : c = mark <;> simp [takeMark, h]

/-- Where no group was opened just now, neither a parenthesis nor a blank comes next. -/
theorem head?_of_takeMarks {s t : Grouping × List Char} (h : takeMarks s = .ok t)
    (hopened : t.1 ≠ .opened) :
    ∀ c ∈ t.2.head?, c ≠ '(' ∧ Text.isAsciiBlank c = false := by
  obtain ⟨u, -, rfl⟩ := takeMarks_eq_ok h
  rcases takeMark_eq_or_fst '(' .opened (dropBlanks u) with ⟨hsame, hhead⟩ | hfst
  · rw [hsame]
    intro c hc
    rw [Option.mem_def.1 hc] at hhead
    exact ⟨by simpa using hhead, head?_dropBlanks u c hc⟩
  · exact absurd hfst hopened

/-- Stepping over the marks leads from one place to the other. -/
structure StepsOver (s : Grouping × List Char) (marks : List Char) (t : Grouping × List Char) :
    Prop where
  text : s.2 = marks ++ t.2
  grouping : t.1 = marks.foldl behindMark s.1
  areMarks : ∀ c ∈ marks, endsToken c = true ∨ c = '('

namespace StepsOver

variable {s t u : Grouping × List Char} {marks more : List Char}

theorem refl (s : Grouping × List Char) : StepsOver s [] s :=
  ⟨rfl, rfl, by simp⟩

theorem trans (h : StepsOver s marks t) (h' : StepsOver t more u) :
    StepsOver s (marks ++ more) u where
  text := by rw [h.text, h'.text, List.append_assoc]
  grouping := by rw [h'.grouping, h.grouping, List.foldl_append]
  areMarks := List.forall_mem_append.2 ⟨h.areMarks, h'.areMarks⟩

theorem of_dropBlanks (s : Grouping × List Char) :
    ∃ marks, StepsOver s marks (dropBlanks s) := by
  have hblanks := List.all_eq_true.1 (List.all_takeWhile (p := Text.isAsciiBlank) (l := s.2))
  refine ⟨s.2.takeWhile Text.isAsciiBlank, List.takeWhile_append_dropWhile.symm,
    (foldl_behindMark_of_isAsciiBlank hblanks).symm, fun c hc => ?_⟩
  simp [endsToken, hblanks c hc]

/-- A mark is stepped over, or it does not stand here. -/
theorem of_takeMark {mark : Char} (hmark : mark = '(' ∨ mark = ')') (s : Grouping × List Char) :
    ∃ marks, StepsOver s marks (takeMark mark (behindMark s.1 mark) s) ∧
      (mark ∉ marks → takeMark mark (behindMark s.1 mark) s = s ∧
        s.2.head? ≠ some mark) := by
  obtain ⟨g, _ | ⟨c, rest⟩⟩ := s
  · exact ⟨[], .refl _, fun _ => ⟨rfl, by simp⟩⟩
  · by_cases hc : c = mark
    · subst hc
      refine ⟨[c], ⟨by simp [takeMark], by simp [takeMark], ?_⟩, by simp⟩
      rcases hmark with rfl | rfl <;> simp [endsToken]
    · have hstay : takeMark mark (behindMark g mark) (g, c :: rest) = (g, c :: rest) :=
        if_neg hc
      rw [hstay]
      exact ⟨[], .refl _, fun _ => ⟨rfl, by simpa using hc⟩⟩

theorem of_takeBar (h : takeBar s = .ok t) :
    ∃ marks, StepsOver s marks t ∧
      (s.1 = .outside → t = s ∧ s.2.head? ≠ some '|') := by
  unfold takeBar at h
  split at h
  · split_ifs at h with hg
    obtain rfl := Except.ok.inj h
    exact ⟨['|'], ⟨rfl, rfl, by simp [endsToken]⟩, fun hout => absurd hout hg⟩
  · rename_i hbar
    obtain rfl := Except.ok.inj h
    refine ⟨[], .refl _, fun _ => ⟨rfl, fun hhead => ?_⟩⟩
    obtain ⟨rest, hrest⟩ := List.head?_eq_some_iff.1 hhead
    exact hbar s.1 rest (Prod.ext rfl hrest)

/-- The marks before a token. Outside of a group and with no parenthesis among them, the
    token has a character. -/
theorem of_takeMarks (h : takeMarks s = .ok t) :
    ∃ marks, StepsOver s marks t ∧
      (s.1 = .outside → '(' ∉ marks → ')' ∉ marks →
        ∀ c ∈ t.2.head?, endsToken c = false) := by
  obtain ⟨u, hu, rfl⟩ := takeMarks_eq_ok h
  obtain ⟨blanks, hblanks⟩ := of_dropBlanks s
  obtain ⟨opening, hopening, hnoOpening⟩ := of_takeMark (.inl rfl) (dropBlanks s)
  obtain ⟨closing, hclosing, hnoClosing⟩ := of_takeMark (.inr rfl)
    (takeMark '(' .opened (dropBlanks s))
  obtain ⟨bar, hbar, -⟩ := of_takeBar hu
  obtain ⟨more, hmore⟩ := of_dropBlanks u
  obtain ⟨reopening, hreopening, hnoReopening⟩ := of_takeMark (.inl rfl) (dropBlanks u)
  refine ⟨blanks ++ opening ++ closing ++ bar ++ more ++ reopening,
    ((((hblanks.trans hopening).trans hclosing).trans hbar).trans hmore).trans hreopening, ?_⟩
  intro hout hopen hclose c hc
  simp only [List.mem_append, not_or] at hopen hclose
  -- Then nothing but blanks was stepped over.
  have hfirst : takeMark '(' .opened (dropBlanks s) = dropBlanks s :=
    (hnoOpening hopen.1.1.1.1.2).1
  rw [hfirst] at hu hnoClosing
  obtain ⟨hsecond, hclosed⟩ := hnoClosing hclose.1.1.1.2
  have hthere : takeBar (dropBlanks s) = .ok u := (congrArg takeBar hsecond).symm.trans hu
  obtain ⟨_, -, hnoBar⟩ := of_takeBar hthere
  obtain ⟨rfl, hbarred⟩ := hnoBar hout
  have hlast : takeMark '(' .opened (dropBlanks (dropBlanks s)) = dropBlanks (dropBlanks s) :=
    (hnoReopening hopen.2).1
  rw [hlast, dropBlanks_dropBlanks] at hc
  have hblank := head?_dropBlanks s c hc
  rw [Option.mem_def.1 hc] at hclosed hbarred
  simp_all [endsToken]

end StepsOver

-- ============================================================================
-- Passes
-- ============================================================================

/-- One pass of the reader. -/
structure Pass where
  /-- Where it begins. -/
  grouping : Grouping
  /-- The marks that it steps over. -/
  marks : List Char
  /-- The characters that it finds; none where a mark follows, and at the end of the text. -/
  text : List Char
deriving DecidableEq, Repr

namespace Pass

/-- It steps over a parenthesis. -/
def TakesParenthesis (pass : Pass) : Prop :=
  '(' ∈ pass.marks ∨ ')' ∈ pass.marks

instance (pass : Pass) : Decidable pass.TakesParenthesis :=
  inferInstanceAs (Decidable (_ ∨ _))

/-- Between two parentheses it finds a character. -/
def MayPrecede (pass next : Pass) : Prop :=
  pass.TakesParenthesis → pass.text = [] → ¬next.TakesParenthesis

instance : DecidableRel MayPrecede :=
  fun pass next => inferInstanceAs
    (Decidable (pass.TakesParenthesis → pass.text = [] → ¬next.TakesParenthesis))

/-- It steps over a `)` only in a group. -/
def ClosesOpen (pass : Pass) : Prop :=
  ∀ front back, pass.marks = front ++ ')' :: back →
    front.foldl behindMark pass.grouping ≠ .outside

theorem closesOpen_iff (pass : Pass) :
    pass.ClosesOpen ↔ ∀ i < pass.marks.length, pass.marks[i]? = some ')' →
      (pass.marks.take i).foldl behindMark pass.grouping ≠ .outside := by
  constructor
  · intro h i hi hclose
    refine h (pass.marks.take i) (pass.marks.drop (i + 1)) ?_
    rw [List.getElem?_eq_getElem hi, Option.some.injEq] at hclose
    rw [← hclose, List.getElem_cons_drop, List.take_append_drop]
  · intro h front back hsplit
    have hfront := h front.length (by simp [hsplit]) (by simp [hsplit])
    rwa [hsplit, List.take_left] at hfront

instance (pass : Pass) : Decidable pass.ClosesOpen :=
  decidable_of_iff _ pass.closesOpen_iff.symm

end Pass

/-- The passes over a text. -/
def passes (g : Grouping) (cs : List Char) : List Pass :=
  match _h : takeToken g cs with
  | .error _ => []
  | .ok (.inl _) => [⟨g, cs, []⟩]
  | .ok (.inr found) =>
    ⟨g, cs.take (cs.length - (found.text ++ found.rest).length), found.text⟩ ::
      passes found.grouping.afterToken found.rest
termination_by cs.length
decreasing_by exact takeToken_shorter _h

/-- What a pass does that finds a token. -/
structure FindsToken (g : Grouping) (cs marks : List Char) (found : FoundToken) : Prop where
  take : takeMarks (g, cs) = .ok (found.grouping, found.text ++ found.rest)
  steps : StepsOver (g, cs) marks (found.grouping, found.text ++ found.rest)
  text : ∀ c ∈ found.text, endsToken c = false
  rest : ∀ c ∈ found.rest.head?, endsToken c = true
  ne_nil : found.text ++ found.rest ≠ []
  begun : g = .outside → '(' ∉ marks → ')' ∉ marks → found.text ≠ []

section Passes

variable {g g' : Grouping} {cs read : List Char} {found : FoundToken}

/-- The last pass steps over all that is left. -/
theorem passes_of_inl (h : takeToken g cs = .ok (.inl g')) :
    StepsOver (g, cs) cs (g', []) ∧ passes g cs = [⟨g, cs, []⟩] := by
  obtain ⟨marks, hsteps, -⟩ := StepsOver.of_takeMarks (takeMarks_of_takeToken_inl h)
  have hall : cs = marks := by simpa using hsteps.text
  refine ⟨hall ▸ hsteps, ?_⟩
  rw [passes, h]

theorem passes_of_inr (h : takeToken g cs = .ok (.inr found)) :
    ∃ marks, FindsToken g cs marks found ∧
      passes g cs = ⟨g, marks, found.text⟩ :: passes found.grouping.afterToken found.rest := by
  obtain ⟨t, htake, hne, hfound⟩ := takeMarks_of_takeToken_inr h
  have htext : ∀ c ∈ found.text, endsToken c = false := by
    intro c hc
    rw [hfound] at hc
    simpa using List.all_eq_true.1 List.all_takeWhile c hc
  have hrest : ∀ c ∈ found.rest.head?, endsToken c = true := by
    intro c hc
    rw [hfound, Option.mem_def] at hc
    have hstop := List.head?_dropWhile_not (!endsToken ·) t.2
    rw [hc] at hstop
    simpa using hstop
  obtain rfl : t = (found.grouping, found.text ++ found.rest) := by
    rw [hfound]
    exact Prod.ext rfl List.takeWhile_append_dropWhile.symm
  obtain ⟨marks, hsteps, hbegun⟩ := StepsOver.of_takeMarks htake
  refine ⟨marks, ⟨htake, hsteps, htext, hrest, hne, ?_⟩, ?_⟩
  · intro hg hopen hclose hnil
    dsimp only at hne hbegun
    rw [hnil, List.nil_append] at hne hbegun
    obtain ⟨c, rest, hcons⟩ := List.exists_cons_of_ne_nil hne
    have hc : found.rest.head? = some c := by rw [hcons, List.head?_cons]
    have hgo := hbegun hg hopen hclose c hc
    rw [hrest c hc] at hgo
    cases hgo
  · have hcs : cs = marks ++ (found.text ++ found.rest) := hsteps.text
    have hmarks : cs.take (cs.length - (found.text ++ found.rest).length) = marks := by
      conv_lhs => rw [hcs]
      simp
    rw [passes, h]
    dsimp only
    rw [hmarks]

end Passes

-- ============================================================================
-- Parentheses that close nothing
-- ============================================================================

section Closing

variable {g : Grouping} {cs marks rest read : List Char}

/-- Behind a token no parenthesis stands at once, so that one at the start of a pass is the
    start of the text. -/
theorem mayOpen_of_head? (hstart : read = [] ∨ ∀ c ∈ cs.head?, endsToken c = true)
    (hsplit : cs = marks ++ rest) (hopen : marks.head? = some '(') : MayOpen read := by
  rcases hstart with rfl | hstart
  · simp [MayOpen]
  · have hends := hstart '(' (by rw [hsplit, List.head?_append, hopen]; rfl)
    cases hends

theorem closesGroups_marks (hg : g ≠ .outside ↔ IsInGroup read)
    (hmarks : ∀ c ∈ marks, endsToken c = true ∨ c = '(')
    (hfirst : marks.head? = some '(' → MayOpen read) (text : List Char) :
    ClosesGroups read marks ↔ Pass.ClosesOpen ⟨g, marks, text⟩ := by
  refine forall_congr' fun front => forall_congr' fun back => imp_congr_right fun hsplit => ?_
  refine (isInGroup_foldl hg ?_ ?_).symm
  · intro c hc
    exact hmarks c (by simp [hsplit, hc])
  · intro hopen
    refine .inl (hfirst ?_)
    rw [hsplit, List.head?_append, hopen, Option.some_or]

/-- Behind a token the reader is in a group where the text is in one. -/
theorem FindsToken.isInGroup_rest {found : FoundToken} (h : FindsToken g cs marks found)
    (hg : g ≠ .outside ↔ IsInGroup read) (hfirst : marks.head? = some '(' → MayOpen read) :
    found.grouping.afterToken ≠ .outside ↔ IsInGroup (read ++ marks ++ found.text) := by
  have hgrouping : found.grouping = marks.foldl behindMark g := h.steps.grouping
  have hmarks : found.grouping ≠ .outside ↔ IsInGroup (read ++ marks) := by
    rw [hgrouping]
    exact isInGroup_foldl hg h.steps.areMarks fun hopen => .inl (hfirst hopen)
  -- A token that starts with a parenthesis stands behind one that is a mark.
  have hopened : found.text.head? = some '(' → IsInGroup (read ++ marks) := by
    refine fun hopen => hmarks.1 fun hout => ?_
    have hnext := head?_of_takeMarks h.take (by simp [hout]) '('
      (by rw [List.head?_append, hopen]; rfl)
    exact hnext.1 rfl
  rw [isInGroup_append_text h.text fun hopen => .inl (hopened hopen), ← hmarks, Ne,
    Grouping.afterToken_eq_outside]

/-- Every `)` of an accepted text closes a group exactly when no pass steps over one outside
    of a group. -/
theorem closesGroups_iff {docs : List String} {levels result : List Level}
    (hr : compileFrom g cs docs levels = .ok result) (hg : g ≠ .outside ↔ IsInGroup read)
    (hstart : read = [] ∨ ∀ c ∈ cs.head?, endsToken c = true) :
    ClosesGroups read cs ↔ ∀ pass ∈ passes g cs, pass.ClosesOpen := by
  fun_induction compileFrom g cs docs levels generalizing read with
  | case1 => cases hr
  | case2 => cases hr
  | case3 => cases hr
  | case4 g cs docs levels g' htake =>
    obtain ⟨hsteps, hpasses⟩ := passes_of_inl htake
    rw [hpasses, List.forall_mem_singleton]
    exact closesGroups_marks hg hsteps.areMarks (mayOpen_of_head? hstart hsteps.text) []
  | case5 g cs docs levels found htake alternative =>
    rename_i ih
    obtain ⟨marks, hfinds, hpasses⟩ := passes_of_inr htake
    have hcs : cs = marks ++ (found.text ++ found.rest) := hfinds.steps.text
    have hfirst := mayOpen_of_head? hstart hcs
    have hclosed : ')' ∉ found.text := fun hmem => by cases hfinds.text _ hmem
    have hrest := ih hr (hfinds.isInGroup_rest hg hfirst) (.inr hfinds.rest)
    rw [hpasses, List.forall_mem_cons, ← hrest, hcs, closesGroups_append, closesGroups_append,
      closesGroups_marks hg hfinds.steps.areMarks hfirst found.text]
    simp [closesGroups_of_notMem hclosed]

end Closing

-- ============================================================================
-- Levels that no word matches
-- ============================================================================

/-- No level is nothing but an empty token, which no typed word matches. -/
def HasNoDeadLevel (levels : List Level) : Prop :=
  ∀ a, [a] ∈ levels → a.text ≠ ""

/-- A level that is nothing but an empty token is dead. -/
theorem Level.grade_of_text_eq_empty {a : Alternative} (hread : a.token.IsRead)
    (hempty : a.text = "") {word : String} (hword : word ≠ "") (min : Grade) :
    Level.grade [a] word min = .noMatch := by
  obtain ⟨text, htext⟩ := hread
  obtain rfl : text = "" := by
    rw [← hempty, Alternative.text, htext, Token.text_ofText]
  have hstart : Text.startsWith "" word = false := by
    cases hlist : word.toList with
    | nil => exact absurd (String.toList_inj.1 hlist) hword
    | cons c cs => simp [Text.startsWith, hlist]
  have hclassify : a.token.classify word min true = Grade.ofKeyword "" word min := by
    rw [htext]
    rfl
  rw [Level.grade, List.map_singleton, hclassify, Grade.ofKeyword, hstart]
  rfl

/-- The last level is nothing but an empty token, as yet. -/
def EndsDead (levels : List Level) : Prop :=
  ∃ a, levels.getLast? = some [a] ∧ a.text = ""

section Dead

variable {g : Grouping} {cs marks : List Char} {levels : List Level} {a : Alternative}

theorem hasNoDeadLevel_iff :
    HasNoDeadLevel levels ↔ HasNoDeadLevel levels.dropLast ∧ ¬EndsDead levels := by
  rcases List.eq_nil_or_concat levels with rfl | ⟨front, last, rfl⟩
  · simp [HasNoDeadLevel, EndsDead]
  · simp only [HasNoDeadLevel, EndsDead, List.concat_eq_append, List.mem_append,
      List.mem_singleton, List.dropLast_concat, List.getLast?_concat, Option.some.injEq, or_imp,
      forall_and, not_exists, not_and]
    exact and_congr_right fun _ => forall_congr' fun a => by rw [eq_comm]

namespace FindsToken

variable {found : FoundToken}

/-- A level is begun without characters behind a parenthesis only. -/
theorem takesParenthesis (h : FindsToken g cs marks found) (hg : g ≠ .opened)
    (hw : found.grouping ≠ .within) (hnil : found.text = []) : '(' ∈ marks ∨ ')' ∈ marks := by
  by_contra hno
  obtain ⟨hopen, hclose⟩ := not_or.1 hno
  have hgrouping : found.grouping = marks.foldl behindMark g := h.steps.grouping
  cases g with
  | opened => exact hg rfl
  | within => exact hw (hgrouping ▸ foldl_behindMark_eq_within.2 ⟨rfl, hopen, hclose⟩)
  | outside => exact h.begun rfl hopen hclose hnil

/-- Outside of a group, what stops a token before its first character is a mark. -/
theorem head?_rest (h : FindsToken g cs marks found) (hout : found.grouping = .outside)
    (hnil : found.text = []) : found.rest.head? = some ')' ∨ found.rest.head? = some '|' := by
  have hopened : found.grouping ≠ .opened := by simp [hout]
  obtain ⟨c, rest, hcons⟩ := List.exists_cons_of_ne_nil h.ne_nil
  have hblank := (head?_of_takeMarks h.take hopened c (by simp [hcons])).2
  rw [hnil, List.nil_append] at hcons
  have hends := h.rest c (by simp [hcons])
  simp_all [endsToken]

end FindsToken

/-- Where the reader is between two passes, behind the levels so far. -/
structure IsReached (g : Grouping) (cs : List Char) (levels : List Level) : Prop where
  notOpened : g ≠ .opened
  within : g = .within → ∃ last, levels.getLast? = some last ∧ last ≠ []
  /-- An empty token that was found outside of a group has left a mark to step over. -/
  head : g = .outside → EndsDead levels → cs.head? = some ')' ∨ cs.head? = some '|'

namespace IsReached

variable {found : FoundToken}

/-- Behind a dead level the next one is begun by a parenthesis. -/
theorem takesParenthesis {t : Grouping × List Char} (h : IsReached g cs levels)
    (htake : takeMarks (g, cs) = .ok t) (hsteps : StepsOver (g, cs) marks t)
    (ht : t.1 ≠ .within) (hdead : EndsDead levels) : '(' ∈ marks ∨ ')' ∈ marks := by
  cases g with
  | opened => exact absurd rfl h.notOpened
  | within =>
    rw [hsteps.grouping, Ne, foldl_behindMark_eq_within] at ht
    tauto
  | outside =>
    rcases h.head rfl hdead with hclose | hbar
    · obtain ⟨rest, rfl⟩ := List.head?_eq_some_iff.1 hclose
      rcases takeMarks_shortens htake with ⟨rfl, hstop⟩ | hshorter
      · cases hstop ')' rfl
      · cases marks with
        | nil =>
          rw [hsteps.text, List.nil_append] at hshorter
          exact absurd hshorter (Nat.lt_irrefl _)
        | cons c marks =>
          obtain ⟨rfl, -⟩ := List.cons.inj hsteps.text
          exact .inr List.mem_cons_self
    · obtain ⟨rest, rfl⟩ := List.head?_eq_some_iff.1 hbar
      cases htake

theorem endsDead_concat (levels : List Level) (ha : a.text = String.ofList found.text) :
    EndsDead (levels ++ [[a]]) ↔ found.text = [] := by
  simp [EndsDead, ha]

theorem not_endsDead_concat {last : Level} (hlast : last ≠ []) (levels : List Level) :
    ¬EndsDead (levels ++ [last ++ [a]]) := by
  rintro ⟨b, hb, -⟩
  simp only [List.getLast?_concat, Option.some.injEq] at hb
  exact hlast (by simpa using congrArg List.dropLast hb)

theorem addAlternative (h : IsReached g cs levels) (hfinds : FindsToken g cs marks found)
    (ha : a.text = String.ofList found.text) :
    IsReached found.grouping.afterToken found.rest
      (addAlternative found.grouping levels a) := by
  by_cases hw : found.grouping = .within
  · obtain ⟨hg, -, -⟩ := foldl_behindMark_eq_within.1 (hfinds.steps.grouping.symm.trans hw)
    obtain ⟨last, hlast, -⟩ := h.within hg
    rw [hw, addAlternative_within hlast]
    exact ⟨by decide, fun _ => ⟨last ++ [a], List.getLast?_concat, by simp⟩,
      by simp [Grouping.afterToken]⟩
  · rw [addAlternative_of_ne_within hw]
    refine ⟨found.grouping.afterToken_ne_opened,
      fun _ => ⟨[a], List.getLast?_concat, by simp⟩, fun hout hdead => ?_⟩
    have hnil := (endsDead_concat levels ha).1 hdead
    exact hfinds.head?_rest (Grouping.afterToken_eq_outside.1 hout) hnil

/-- One pass: the levels behind it are alive, but for a last one that the next pass adds to,
    exactly when those before it were and the pass may stand between its neighbours. -/
theorem alive_addAlternative (h : IsReached g cs levels) (hfinds : FindsToken g cs marks found)
    (ha : a.text = String.ofList found.text) (next : List Pass) :
    (HasNoDeadLevel (RouterCli.addAlternative found.grouping levels a).dropLast ∧
      (EndsDead (RouterCli.addAlternative found.grouping levels a) →
        ∀ pass ∈ next.head?, ¬pass.TakesParenthesis)) ↔
    HasNoDeadLevel levels.dropLast ∧
      (EndsDead levels → ¬Pass.TakesParenthesis ⟨g, marks, found.text⟩) ∧
      ∀ pass ∈ next.head?, Pass.MayPrecede ⟨g, marks, found.text⟩ pass := by
  by_cases hw : found.grouping = .within
  · -- Another alternative of the last level, which is alive behind it.
    obtain ⟨hg, hopen, hclose⟩ :=
      foldl_behindMark_eq_within.1 (hfinds.steps.grouping.symm.trans hw)
    obtain ⟨last, hlast, hne⟩ := h.within hg
    have hno : ¬Pass.TakesParenthesis ⟨g, marks, found.text⟩ := not_or.2 ⟨hopen, hclose⟩
    rw [hw, addAlternative_within hlast, List.dropLast_concat]
    simp [not_endsDead_concat hne, hno, Pass.MayPrecede]
  · have htakes (hdead : EndsDead levels) : Pass.TakesParenthesis ⟨g, marks, found.text⟩ :=
      h.takesParenthesis hfinds.take hfinds.steps hw hdead
    have hempty (hnil : found.text = []) : Pass.TakesParenthesis ⟨g, marks, found.text⟩ :=
      hfinds.takesParenthesis h.notOpened hw hnil
    rw [addAlternative_of_ne_within hw, List.dropLast_concat, endsDead_concat _ ha,
      hasNoDeadLevel_iff]
    constructor
    · rintro ⟨⟨hfront, halive⟩, hnext⟩
      exact ⟨hfront, fun hdead => absurd hdead halive,
        fun pass hpass _ hnil => hnext hnil pass hpass⟩
    · rintro ⟨hfront, halive, hnext⟩
      exact ⟨⟨hfront, fun hdead => halive hdead (htakes hdead)⟩,
        fun hnil pass hpass => hnext pass hpass (hempty hnil) hnil⟩

end IsReached

/-- The levels behind an accepted text: none is dead exactly when none was before but
    for the last, which the first pass adds to if it is, and no pass between two parentheses
    is without characters. -/
theorem hasNoDeadLevel_iff_passes {docs : List String} {result : List Level}
    (hr : compileFrom g cs docs levels = .ok result) (h : IsReached g cs levels) :
    HasNoDeadLevel result ↔
      (HasNoDeadLevel levels.dropLast ∧
        (EndsDead levels → ∀ pass ∈ (passes g cs).head?, ¬pass.TakesParenthesis)) ∧
      (passes g cs).IsChain Pass.MayPrecede := by
  fun_induction compileFrom g cs docs levels with
  | case1 => cases hr
  | case2 => cases hr
  | case3 => cases hr
  | case4 g cs docs levels g' htake hout =>
    obtain rfl := Except.ok.inj hr
    obtain ⟨hsteps, hpasses⟩ := passes_of_inl htake
    have hbehind : g' ≠ .within := by simp_all
    have htakes (hdead : EndsDead levels) : Pass.TakesParenthesis ⟨g, cs, []⟩ :=
      h.takesParenthesis (takeMarks_of_takeToken_inl htake) hsteps hbehind hdead
    rw [hasNoDeadLevel_iff, hpasses]
    simp only [List.head?_cons, Option.mem_some, forall_eq', List.isChain_singleton, and_true]
    exact and_congr_right fun _ =>
      ⟨fun halive hdead => absurd hdead halive, fun hno hdead => hno hdead (htakes hdead)⟩
  | case5 g cs docs levels found htake alternative =>
    rename_i ih
    obtain ⟨marks, hfinds, hpasses⟩ := passes_of_inr htake
    have ha : alternative.text = String.ofList found.text := Token.text_ofText _
    rw [ih hr (h.addAlternative hfinds ha), h.alive_addAlternative hfinds ha, hpasses,
      List.isChain_cons]
    simp only [List.head?_cons, Option.mem_some, forall_eq', and_assoc]

end Dead

-- ============================================================================
-- Accepted patterns
-- ============================================================================

/-- Of the levels of an accepted pattern none is nothing but an empty token exactly when no
    pass between two parentheses is without characters; and every `)` of the pattern closes
    a group exactly when no pass steps over one outside of a group. -/
theorem compile_grouped_iff {pattern doc : String} {levels : List Level}
    (h : compile pattern doc = .ok levels) :
    (HasNoDeadLevel levels ↔
      (passes .outside pattern.toList).IsChain Pass.MayPrecede) ∧
    ((∀ before behind, pattern.toList = before ++ ')' :: behind → IsInGroup before) ↔
      ∀ pass ∈ passes .outside pattern.toList, pass.ClosesOpen) := by
  constructor
  · have hstart : IsReached .outside pattern.toList [] :=
      ⟨by decide, by simp, by simp [EndsDead]⟩
    rw [hasNoDeadLevel_iff_passes h hstart]
    simp [HasNoDeadLevel, EndsDead]
  · exact closesGroups_iff h (by simp [not_isInGroup_nil]) (.inl rfl)

/-- A pattern with a group has neither fault. In another, whose parentheses go together, the
    blank between them is read as an empty token, and the level is dead. -/
theorem compile_grouped_iff_type :
    (∃ levels, compile "type (ip|bs11) [WORD]" "" = .ok levels ∧ HasNoDeadLevel levels ∧
      ∀ before behind, "type (ip|bs11) [WORD]".toList = before ++ ')' :: behind →
        IsInGroup before) ∧
    ∃ levels, compile "type ( )" "" = .ok levels ∧ ¬HasNoDeadLevel levels := by
  have haccepted (pattern : String) (h : (compile pattern "").isOk = true) :
      ∃ levels, compile pattern "" = .ok levels := by
    cases hlevels : compile pattern "" with
    | error defect => rw [hlevels] at h; cases h
    | ok levels => exact ⟨levels, rfl⟩
  obtain ⟨levels, hlevels⟩ := haccepted "type (ip|bs11) [WORD]" (by decide +kernel)
  obtain ⟨levels', hlevels'⟩ := haccepted "type ( )" (by decide +kernel)
  obtain ⟨hdead, hcloses⟩ := compile_grouped_iff hlevels
  obtain ⟨hdead', -⟩ := compile_grouped_iff hlevels'
  exact ⟨⟨levels, hlevels, hdead.2 (by decide +kernel), hcloses.2 (by decide +kernel)⟩,
    levels', hlevels', hdead'.not.2 (by decide +kernel)⟩

/-- Accepted although neither `)` closes a group: the first is stepped over, and before the
    second there is a level that is nothing but an empty token. -/
theorem not_grouped_of_closingTwice :
    ∃ levels, compile "a ))" "" = .ok levels ∧ ¬HasNoDeadLevel levels ∧
      ¬∀ before behind, "a ))".toList = before ++ ')' :: behind → IsInGroup before := by
  have hlevels : compile "a ))" "" =
      .ok [[⟨.ofText "a", ""⟩], [⟨.ofText "", ""⟩]] := by
    decide +kernel
  refine ⟨_, hlevels, fun hlive => ?_, fun hcloses => ?_⟩
  · exact hlive ⟨.ofText "", ""⟩ (by simp) rfl
  · obtain ⟨front, more, hopen, -, -⟩ := hcloses ['a', ' '] [')'] rfl
    have hmem : '(' ∈ ['a', ' '] := by rw [hopen]; simp
    exact absurd hmem (by decide)

end RouterCli
