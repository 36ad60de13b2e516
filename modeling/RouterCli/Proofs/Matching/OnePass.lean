import Mathlib.Tactic.SplitIfs
import RouterCli.Matching.Resolve
import RouterCli.Proofs.Matching.Found
import RouterCli.Proofs.Pattern.Compiled

/-!
  RouterCli.Proofs.Matching.OnePass

  Resolving a typed line, said in one pass over its words. Each word keeps the
  commands that own an alternative of the strongest grade; the library narrows
  them twice and asks afterwards whether they agree. The two come to the same
  (`resolve_eq_onePass`): at the lenient threshold the second pass leaves the
  owners of the strongest grade (`narrow_any`), and whatever owns a grade also
  takes the word at it (`hits_of_classify`), so that no survivor is lost in the
  question whether they agree.
-/

namespace RouterCli

-- ============================================================================
-- The reference
-- ============================================================================

namespace OnePass

/-- The alternatives of a command for the word at `index`. -/
def alternatives (e : Element) (index : Nat) : List Alternative :=
  (e.level? index).getD []

/-- The grade of a typed word. -/
def grade (word : String) (a : Alternative) : Grade :=
  a.token.classify word .any true

/-- The strongest grade over all alternatives of the commands. -/
def strongest (cs : List Element) (index : Nat) (word : String) : Grade :=
  .strongest (cs.flatMap fun e => (alternatives e index).map (grade word))

/-- The command owns an alternative of the grade. A word that does not fit has
    no grade to own. -/
def owns (g : Grade) (index : Nat) (word : String) (e : Element) : Bool :=
  g != .noMatch && (alternatives e index).any (grade word · == g)

/-- The texts of the alternatives of the grade, without optional brackets. -/
def textsOf (g : Grade) (cs : List Element) (index : Nat) (word : String) : List String :=
  cs.flatMap fun e =>
    ((alternatives e index).filter (grade word · == g)).filterMap (·.token.atom?.map (·.text))

/-- Two of the texts are not the same. -/
def differ (texts : List String) : Bool :=
  texts.any fun s => texts.any fun t => s != t

/-- The word has the grade of an address with a mask, and only begins one. -/
def beginsPrefix (g : Grade) (word : String) : Bool :=
  g == .ipv6Prefix && Ipv6.walkPrefix word == .partly ||
    g == .ipv4Prefix && Ipv4.walkPrefix word == .partly

/-- The commands left by the words, and whether a free text stopped the pass. -/
def read (index : Nat) (cs : List Element) :
    List String → Except CommandError (List Element × Bool)
  | [] => .ok (cs, false)
  | word :: rest =>
    let g := strongest cs index word
    let kept := cs.filter (owns g index word)
    if g = .vararg then .ok (kept, true)
    else if (g = .partly ∨ g = .range) ∧ differ (textsOf g cs index word) then
      .error .ambiguous
    else if beginsPrefix g word then .error .noMatch
    else read (index + 1) kept rest

/-- The one command meant, of those left by so many words. -/
def choose (kept : List Element) (stopped : Bool) (typed : Nat) :
    Except CommandError Element :=
  match if stopped then kept else kept.filter (·.mandatory ≤ typed) with
  | [e] => .ok e
  | [] => .error (if kept.isEmpty then .noMatch else .incomplete)
  | _ => .error .ambiguous

/-- A level of one keyword, not in brackets. -/
def isLoneKeyword : Level → Bool
  | [⟨.bare a, _⟩] => a.shape == .keyword
  | _ => false

/-- A level of one free text, not in brackets. -/
def isLoneVararg : Level → Bool
  | [⟨.bare a, _⟩] => a.shape == .vararg
  | _ => false

/-- A word becomes an argument unless it stands at a lone keyword; from a free
    text on, every word does. -/
def isArgument (levels : List Level) (index : Nat) : Bool :=
  (levels.take (index + 1)).any isLoneVararg || !(levels[index]?).any isLoneKeyword

/-- The words that become arguments, in order. -/
def arguments (e : Element) (words : List String) : List String :=
  (words.zipIdx.filter fun p => isArgument e.levels p.2).map (·.1)

/-- The command that typed words mean, with its arguments. -/
def resolve (elements : List Element) (words : List String) (maxArguments : Nat) :
    Except CommandError Resolved := do
  let (kept, stopped) ← read 0 elements words
  let e ← choose kept stopped words.length
  if words ≠ [] ∧ maxArguments ≤ (arguments e words).length then throw .tooManyArguments
  return ⟨e, arguments e words⟩

end OnePass

-- ============================================================================
-- Grades and hits
-- ============================================================================

/-- What owns a grade takes the word at it. -/
theorem hits_of_classify {a : Atom} {word : String} {g : Grade}
    (h : a.classify word .any = g) (hn : g ≠ .noMatch) (hv : g ≠ .vararg) :
    Candidates.hits g word a = true := by
  have hwalk : ∀ walk : Grade, Grade.any ≤ walk → walk ≠ .noMatch := by
    rintro walk hle rfl
    exact absurd hle (by decide)
  cases (Atom.classify_eq_iff hn).1 h with
  | keyword hs heq => simp [Candidates.hits, Atom.isVariable, Shape.isVariable, hs, heq]
  | begun hs hstart => simp [Candidates.hits, Atom.isVariable, Shape.isVariable, hs, hstart]
  | range hs hacc => simp [Candidates.hits, hs, hacc]
  | ipv4 hs | ipv6 hs => simp [Candidates.hits, hs]
  | ipv4Prefix _ hle | ipv6Prefix _ hle => simpa [Candidates.hits] using hwalk _ hle
  | «variable» hs => simp [Candidates.hits, Atom.isVariable, Shape.isVariable, hs]
  | vararg => exact absurd rfl hv

-- ============================================================================
-- Narrowing at the lenient threshold
-- ============================================================================

open OnePass

theorem Element.grade_eq_strongest (e : Element) (index : Nat) (word : String) :
    e.grade index word .any = .strongest ((alternatives e index).map (OnePass.grade word)) := by
  unfold Element.grade alternatives
  cases e.level? index <;> rfl

theorem Candidates.best_eq_strongest (cs : List Element) (index : Nat) (word : String) :
    Candidates.best cs index word .any = strongest cs index word := by
  unfold Candidates.best strongest
  rw [Grade.strongest_flatMap]
  simp only [Element.grade_eq_strongest]

/-- A command of the strongest grade owns an alternative of it. -/
theorem owns_iff_le_grade {cs : List Element} {index : Nat} {word : String} {e : Element}
    (he : e ∈ cs) (hn : strongest cs index word ≠ .noMatch) :
    owns (strongest cs index word) index word e = true ↔
      strongest cs index word ≤ e.grade index word .any := by
  have hle : e.grade index word .any ≤ strongest cs index word := by
    rw [← Candidates.best_eq_strongest]
    exact Grade.le_strongest (List.mem_map_of_mem he)
  simp only [owns, Bool.and_eq_true, bne_iff_ne, List.any_eq_true, beq_iff_eq]
  constructor
  · rintro ⟨-, a, ha, hg⟩
    rw [Element.grade_eq_strongest, ← hg]
    exact Grade.le_strongest (List.mem_map_of_mem ha)
  · intro hge
    have heq := Grade.le_antisymm hle hge
    rw [Element.grade_eq_strongest] at heq
    have hmem := Grade.strongest_mem (heq ▸ hn)
    rw [heq, List.mem_map] at hmem
    exact ⟨hn, hmem⟩

/-- Nothing is owned where nothing matches. -/
theorem filter_owns_noMatch (cs : List Element) (index : Nat) (word : String) :
    cs.filter (owns .noMatch index word) = [] := by
  simp [owns]

/-- The two passes leave the owners of the strongest grade. -/
theorem narrow_any (cs : List Element) (index : Nat) (word : String) :
    Candidates.narrow cs index word .any =
      (strongest cs index word, cs.filter (owns (strongest cs index word) index word)) := by
  unfold Candidates.narrow
  simp only [Candidates.best_eq_strongest]
  split_ifs with hn
  · rw [hn, filter_owns_noMatch, Prod.mk.injEq]
    refine ⟨rfl, List.filter_eq_nil_iff.2 fun e he => ?_⟩
    have hle : e.grade index word .any ≤ .noMatch := by
      rw [← hn, ← Candidates.best_eq_strongest]
      exact Grade.le_strongest (List.mem_map_of_mem he)
    simpa using Grade.le_noMatch_iff.1 hle
  · rw [List.filter_filter, Prod.mk.injEq]
    refine ⟨rfl, List.filter_congr fun e he => ?_⟩
    have hiff := owns_iff_le_grade he hn
    -- The first pass asks for any fit, which the strongest grade is.
    have hfit : strongest cs index word ≤ e.grade index word .any →
        e.grade index word .any ≠ .noMatch := by
      intro hle hnone
      exact hn (Grade.le_noMatch_iff.1 (hnone ▸ hle))
    by_cases hle : strongest cs index word ≤ e.grade index word .any
    · simp [hle, hiff.2 hle, hfit hle]
    · have hnot := mt hiff.1 hle
      simp [hle, hnot]

-- ============================================================================
-- Agreement at the lenient threshold
-- ============================================================================

theorem atomsAt_eq (e : Element) (index : Nat) :
    e.atomsAt index = (alternatives e index).filterMap (·.token.atom?) := by
  unfold Element.atomsAt alternatives Level.atoms
  cases e.level? index <;> rfl

theorem mem_atomsAt {e : Element} {index : Nat} {a : Atom} :
    a ∈ e.atomsAt index ↔ ∃ alt ∈ alternatives e index, alt.token.atom? = some a := by
  rw [atomsAt_eq, List.mem_filterMap]

/-- An alternative that matches stands for an atom of the same grade. -/
theorem exists_atom_of_grade {word : String} {alt : Alternative} {g : Grade}
    (h : OnePass.grade word alt = g) (hn : g ≠ .noMatch) :
    ∃ a, alt.token.atom? = some a ∧ a.classify word .any = g := by
  unfold OnePass.grade at h
  rw [Token.classify_unwrapped] at h
  cases ha : alt.token.atom? with
  | none => exact absurd (by simpa [ha] using h.symm) hn
  | some a => exact ⟨a, rfl, by simpa [ha] using h⟩

/-- No owner of a grade is lost in settling on it. -/
theorem filter_hits_of_owns {g : Grade} {index : Nat} {word : String} (cs : List Element)
    (hv : g ≠ .vararg) :
    (cs.filter (owns g index word)).filter (fun e => (e.atomsAt index).any (Candidates.hits g word)) =
      cs.filter (owns g index word) := by
  rw [List.filter_eq_self]
  intro e he
  have howns := (List.mem_filter.1 he).2
  simp only [owns, Bool.and_eq_true, bne_iff_ne, List.any_eq_true, beq_iff_eq] at howns
  obtain ⟨hn, alt, halt, hg⟩ := howns
  obtain ⟨a, ha, hclass⟩ := exists_atom_of_grade hg hn
  exact List.any_eq_true.2 ⟨a, mem_atomsAt.2 ⟨alt, halt, ha⟩, hits_of_classify hclass hn hv⟩

/-- A text that a word begins has the first character of the word. -/
theorem head?_of_startsWith {s word : String} (h : Text.startsWith s word = true)
    (hw : word ≠ "") : s.toList.head? = word.toList.head? := by
  obtain ⟨rest, hrest⟩ := (Text.startsWith_iff s word).1 h
  have hne : word.toList ≠ [] := by simpa using hw
  rw [← hrest, List.head?_append]
  cases hl : word.toList with
  | nil => exact absurd hl hne
  | cons c cs => rfl

/-- The atoms of a compiled command have the shapes their texts are written in. -/
theorem shape_of_mem_alternatives {e : Element} (hc : e.IsCompiled) {index : Nat}
    {alt : Alternative} (halt : alt ∈ alternatives e index) {a : Atom}
    (ha : alt.token.atom? = some a) : a.shape = Shape.ofText a.text := by
  unfold alternatives at halt
  cases hl : e.level? index with
  | none => simp [hl] at halt
  | some level =>
    rw [hl] at halt
    exact hc.shape_eq hl halt ha

theorem le_strongest_of_mem {cs : List Element} {index : Nat} {e : Element} (he : e ∈ cs)
    {alt : Alternative} (halt : alt ∈ alternatives e index) (word : String) :
    OnePass.grade word alt ≤ strongest cs index word :=
  Grade.le_strongest (List.mem_flatMap.2 ⟨e, he, List.mem_map_of_mem halt⟩)

/-- Some alternative has the strongest grade, unless nothing matches. -/
theorem exists_strongest {cs : List Element} {index : Nat} {word : String}
    (hn : strongest cs index word ≠ .noMatch) :
    ∃ e ∈ cs, ∃ alt ∈ alternatives e index, OnePass.grade word alt = strongest cs index word := by
  obtain ⟨e, he, hmem⟩ := List.mem_flatMap.1 (Grade.strongest_mem hn)
  obtain ⟨alt, halt, hgrade⟩ := List.mem_map.1 hmem
  exact ⟨e, he, alt, halt, hgrade⟩

/-- A word with a dot in front begins no keyword. -/
theorem head?_ne_dot_of_strongest_partly {cs : List Element} {index : Nat} {word : String}
    (hc : ∀ e ∈ cs, e.IsCompiled) (hw : word ≠ "")
    (hg : strongest cs index word = .partly) : word.toList.head? ≠ some '.' := by
  intro hdot
  obtain ⟨e, he, alt, halt, hgrade⟩ := exists_strongest (by rw [hg]; decide)
  obtain ⟨a, ha, hclass⟩ := exists_atom_of_grade (hgrade.trans hg) (by decide)
  obtain ⟨hkey, hstart⟩ := Atom.keyword_of_takes_partly
    ((Atom.classify_eq_iff (by decide)).1 hclass)
  have hshape := shape_of_mem_alternatives (hc e he) halt ha
  rw [hkey, (Shape.ofText_eq_vararg_iff a.text).2
    ((head?_of_startsWith hstart hw).trans hdot)] at hshape
  cases hshape

/-- Where the strongest grade is that of a keyword begun, what takes the word at
    it has it: a free text would need a dot in front of the word. -/
theorem hits_partly_iff {cs : List Element} {index : Nat} {word : String}
    (hc : ∀ e ∈ cs, e.IsCompiled) (hw : word ≠ "")
    (hg : strongest cs index word = .partly) {e : Element} (he : e ∈ cs) {alt : Alternative}
    (halt : alt ∈ alternatives e index) {a : Atom} (ha : alt.token.atom? = some a) :
    Candidates.hits .partly word a = true ↔ OnePass.grade word alt = .partly := by
  have hle := le_strongest_of_mem he halt word
  have hgrade : OnePass.grade word alt = a.classify word .any := by
    unfold OnePass.grade
    rw [Token.classify_unwrapped, ha]
    rfl
  rw [hg, hgrade] at hle
  rw [hgrade]
  constructor
  · intro hhit
    simp only [Candidates.hits, Bool.and_eq_true, Bool.not_eq_true', Atom.isVariable] at hhit
    obtain ⟨hvar, hstart⟩ := hhit
    cases hs : a.shape with
    | keyword =>
      simp only [Atom.classify, hs, Grade.ofKeyword, hstart, Bool.not_true] at hle ⊢
      by_cases heq : a.text = word
      · simp only [heq, if_true] at hle
        exact absurd hle (by decide)
      · simp only [heq, if_false]
        rfl
    | vararg =>
      have hdot := (Shape.ofText_eq_vararg_iff a.text).1
        ((shape_of_mem_alternatives (hc e he) halt ha) ▸ hs)
      rw [head?_of_startsWith hstart hw] at hdot
      exact absurd hdot (head?_ne_dot_of_strongest_partly hc hw hg)
    | «variable» | range | ipv4 | ipv4Prefix | ipv6 | ipv6Prefix =>
      simp [hs, Shape.isVariable] at hvar
  · intro h
    exact hits_of_classify h (by decide) (by decide)

/-- Taking a word as a number of a range is having that grade. -/
theorem hits_range_iff {word : String} {alt : Alternative} {a : Atom}
    (ha : alt.token.atom? = some a) :
    Candidates.hits .range word a = true ↔ OnePass.grade word alt = .range := by
  unfold OnePass.grade
  rw [Token.classify_unwrapped, ha]
  constructor
  · intro hhit
    exact (Atom.takes_of_hits_range hhit).classify_eq
  · intro h
    exact hits_of_classify h (by decide) (by decide)

theorem allAlike_eq_not_differ (texts : List String) :
    Candidates.allAlike texts = !differ texts := by
  rw [Bool.eq_iff_iff, Bool.not_eq_true', differ, List.any_eq_false]
  cases texts with
  | nil => simp [Candidates.allAlike]
  | cons first rest =>
    simp only [Candidates.allAlike, List.all_eq_true, beq_iff_eq, List.any_eq_true, bne_iff_ne,
      not_exists, not_and, ne_eq, Decidable.not_not]
    constructor
    · intro h
      have hall : ∀ s ∈ first :: rest, s = first := by
        intro s hs
        rcases List.mem_cons.1 hs with rfl | hs
        · rfl
        · exact h s hs
      intro s hs t ht
      rw [hall s hs, hall t ht]
    · intro h s hs
      exact h s (List.mem_cons_of_mem first hs) first List.mem_cons_self

theorem allAlike_iff {texts : List String} :
    Candidates.allAlike texts = true ↔ ∀ s ∈ texts, ∀ t ∈ texts, s = t := by
  rw [allAlike_eq_not_differ, Bool.not_eq_true', differ, List.any_eq_false]
  simp only [List.any_eq_true, bne_iff_ne, not_exists, not_and, ne_eq, Decidable.not_not]

theorem texts_of_alternatives {g : Grade} {word : String} {alts : List Alternative}
    (h : ∀ alt ∈ alts, ∀ a, alt.token.atom? = some a →
      (Candidates.hits g word a = true ↔ OnePass.grade word alt = g)) :
    ((alts.filterMap (·.token.atom?)).filter (Candidates.hits g word)).map (·.text) =
      (alts.filter (OnePass.grade word · == g)).filterMap (·.token.atom?.map (·.text)) := by
  induction alts with
  | nil => rfl
  | cons alt rest ih =>
    have ih := ih fun alt' h' => h alt' (List.mem_cons_of_mem alt h')
    cases ha : alt.token.atom? with
    | none => by_cases hg : OnePass.grade word alt == g <;> simp [ha, hg, ih]
    | some a =>
      have hiff := h alt List.mem_cons_self a ha
      by_cases hg : OnePass.grade word alt = g
      · simp [ha, hg, hiff.2 hg, ih]
      · simp [ha, hg, mt hiff.1 hg, ih]

/-- The texts that take the word at a grade are those of the alternatives of the
    grade, if that is what taking it at the grade means for each alternative. -/
theorem texts_of_hits {g : Grade} (cs : List Element) (index : Nat) (word : String)
    (hn : g ≠ .noMatch)
    (h : ∀ e ∈ cs, ∀ alt ∈ alternatives e index, ∀ a, alt.token.atom? = some a →
      (Candidates.hits g word a = true ↔ OnePass.grade word alt = g)) :
    (((cs.filter (owns g index word)).flatMap (·.atomsAt index)).filter
      (Candidates.hits g word)).map (·.text) = textsOf g cs index word := by
  unfold textsOf
  induction cs with
  | nil => rfl
  | cons e rest ih =>
    have ih := ih fun e' h' => h e' (List.mem_cons_of_mem e h')
    have he := texts_of_alternatives (h e List.mem_cons_self)
    by_cases ho : owns g index word e = true
    · rw [List.filter_cons_of_pos ho, List.flatMap_cons, List.filter_append, List.map_append, ih,
        atomsAt_eq, he, List.flatMap_cons]
    · have hnone : (alternatives e index).filter (OnePass.grade word · == g) = [] := by
        rw [List.filter_eq_nil_iff]
        intro alt halt hg
        exact ho (by simpa [owns, hn] using ⟨alt, halt, by simpa using hg⟩)
      rw [List.filter_cons_of_neg ho, ih, List.flatMap_cons, hnone, List.filterMap_nil,
        List.nil_append]

/-- A command that owns a grade has atoms. -/
theorem atoms_of_owns_ne_nil (cs : List Element) (index : Nat) (word : String)
    (hn : strongest cs index word ≠ .noMatch) :
    ((cs.filter (owns (strongest cs index word) index word)).flatMap
      (·.atomsAt index)).isEmpty = false := by
  obtain ⟨e, he, alt, halt, hgrade⟩ := exists_strongest hn
  obtain ⟨a, ha, -⟩ := exists_atom_of_grade hgrade hn
  have howns : owns (strongest cs index word) index word e = true := by
    simp only [owns, Bool.and_eq_true, bne_iff_ne, List.any_eq_true, beq_iff_eq]
    exact ⟨hn, alt, halt, hgrade⟩
  rw [List.isEmpty_eq_false_iff]
  exact List.ne_nil_of_mem
    (List.mem_flatMap.2 ⟨e, List.mem_filter.2 ⟨he, howns⟩, mem_atomsAt.2 ⟨alt, halt, ha⟩⟩)

/-- What the owners of the strongest grade make of the word. -/
theorem agreement_any {cs : List Element} (index : Nat) {word : String}
    (hc : ∀ e ∈ cs, e.IsCompiled) (hw : word ≠ "") {g : Grade}
    (hg : strongest cs index word = g) :
    Candidates.agreement (cs.filter (owns g index word)) index word g =
      if (g = .partly ∨ g = .range) ∧ differ (textsOf g cs index word) then .ambiguous
      else if beginsPrefix g word then .incomplete
      else .unique := by
  unfold Candidates.agreement
  cases g with
  | partly =>
    have htexts := texts_of_hits cs index word (by decide)
      fun e he alt halt a ha => hits_partly_iff hc hw hg he halt ha
    dsimp only
    rw [htexts, allAlike_eq_not_differ]
    cases differ (textsOf .partly cs index word) <;> rfl
  | range =>
    have htexts := texts_of_hits cs index word (by decide)
      fun e he alt halt a ha => hits_range_iff ha
    dsimp only
    rw [htexts, allAlike_eq_not_differ]
    cases differ (textsOf .range cs index word) <;> rfl
  | ipv6Prefix =>
    have hatoms := atoms_of_owns_ne_nil cs index word (by rw [hg]; decide)
    rw [hg] at hatoms
    simp [hatoms, beginsPrefix]
  | ipv4Prefix =>
    have hatoms := atoms_of_owns_ne_nil cs index word (by rw [hg]; decide)
    rw [hg] at hatoms
    simp [hatoms, beginsPrefix]
  | _ => simp [beginsPrefix]

-- ============================================================================
-- The whole line
-- ============================================================================

/-- The scan of typed words is one pass over them. -/
theorem scan_any_eq_read (index : Nat) {cs : List Element} {words : List String}
    (hc : ∀ e ∈ cs, e.IsCompiled) (hw : ∀ w ∈ words, w ≠ "") :
    (scan .any index cs words).map (fun s => (s.survivors, s.atVararg)) =
      OnePass.read index cs words := by
  induction words generalizing index cs with
  | nil => rfl
  | cons word rest ih =>
    have hkept : ∀ e ∈ cs.filter (owns (strongest cs index word) index word), e.IsCompiled :=
      fun e he => hc e (List.mem_filter.1 he).1
    have ih := ih (index + 1) hkept fun w hmem => hw w (List.mem_cons_of_mem word hmem)
    have hagree := agreement_any index hc (hw word List.mem_cons_self) rfl
    simp only [scan, narrow_any, OnePass.read]
    by_cases hv : strongest cs index word = .vararg
    · simp [hv, Except.map]
    · simp only [if_neg hv, Candidates.settle, hagree]
      split_ifs with hdiffer hbegins
      · rfl
      · rfl
      · simp only [filter_hits_of_owns cs hv]
        exact ih

theorem select_eq_choose {s : Scan} {typed : Nat} (h : s.atVararg = false → s.index = typed) :
    s.select = choose s.survivors s.atVararg typed := by
  have hmatched : (s.survivors.filter fun e => s.atVararg || e.mandatory ≤ s.index) =
      if s.atVararg then s.survivors else s.survivors.filter (·.mandatory ≤ typed) := by
    cases hv : s.atVararg with
    | true => simp
    | false => simp [h hv]
  rcases hl : (if s.atVararg then s.survivors else s.survivors.filter (·.mandatory ≤ typed)) with
    _ | ⟨e, _ | ⟨e', rest⟩⟩ <;>
  · rw [hl] at hmatched
    simp only [Scan.select, choose, hmatched, hl]

-- ============================================================================
-- Arguments
-- ============================================================================

theorem isArgument_of_length_le {levels : List Level} {index : Nat}
    (h : levels.length ≤ index) : isArgument levels index = true := by
  simp [isArgument, List.getElem?_eq_none h]

theorem isArgument_of_isLoneVararg {levels : List Level} {start index : Nat} {level : Level}
    (hget : levels[start]? = some level) (hlone : isLoneVararg level = true)
    (hle : start ≤ index) : isArgument levels index = true := by
  have hmem : level ∈ levels.take (index + 1) := by
    apply List.mem_of_getElem? (i := start)
    rw [List.getElem?_take_of_lt (by omega), hget]
  unfold isArgument
  rw [List.any_eq_true.2 ⟨level, hmem, hlone⟩, Bool.true_or]

/-- Where all positions from `start` on are for arguments, all words are. -/
theorem filter_isArgument_of_forall {levels : List Level} {start : Nat}
    (h : ∀ i, start ≤ i → isArgument levels i = true) (words : List String) :
    ((words.zipIdx start).filter fun p => isArgument levels p.2).map (·.1) = words := by
  rw [List.filter_eq_self.2, List.zipIdx_map_fst]
  intro p hp
  exact h p.2 (List.mem_zipIdx hp).1

/-- At a level that is no free text, the word is taken if it becomes an argument. -/
theorem arguments_cons {level : Level} (hlone : isLoneVararg level = false)
    (levels : List Level) (word : String) (rest : List String) :
    RouterCli.arguments (level :: levels) (word :: rest) =
      if isLoneKeyword level then RouterCli.arguments levels rest
      else word :: RouterCli.arguments levels rest := by
  match level with
  | [] => rfl
  | [⟨.optional _ _, _⟩] => rfl
  | _ :: _ :: _ => simp [RouterCli.arguments, isLoneKeyword]
  | [⟨.bare a, _⟩] =>
    cases hs : a.shape with
    | vararg => simp [isLoneVararg, hs] at hlone
    | _ =>
      simp [RouterCli.arguments, isLoneKeyword, Token.isVararg, Token.isVariable,
        Token.isOptional, Atom.isVariable, Shape.isVariable, hs]

/-- From a level on, before which there was no free text, the arguments are the
    words at the positions of arguments. -/
theorem arguments_drop_eq_filter (levels : List Level) (words : List String) (start : Nat)
    (hv : (levels.take start).any isLoneVararg = false) :
    RouterCli.arguments (levels.drop start) words =
      ((words.zipIdx start).filter fun p => isArgument levels p.2).map (·.1) := by
  induction words generalizing start with
  | nil => cases levels.drop start <;> rfl
  | cons word rest ih =>
    cases hd : levels.drop start with
    | nil =>
      have hlen : levels.length ≤ start := List.drop_eq_nil_iff.1 hd
      rw [filter_isArgument_of_forall fun i hi => isArgument_of_length_le (by omega)]
      rfl
    | cons level after =>
      have hget : levels[start]? = some level := by
        rw [← List.head?_drop, hd]
        rfl
      cases hlone : isLoneVararg level with
      | true =>
        rw [filter_isArgument_of_forall fun i hi => isArgument_of_isLoneVararg hget hlone hi]
        unfold isLoneVararg at hlone
        split at hlone
        · rename_i a doc
          have hs : a.shape = .vararg := by simpa using hlone
          simp [RouterCli.arguments, Token.isVararg, hs]
        · cases hlone
      | false =>
        have hnext : (levels.take (start + 1)).any isLoneVararg = false := by
          rw [List.take_add_one, hget, List.any_append, hv]
          simp [hlone]
        have hafter : levels.drop (start + 1) = after := by
          rw [← List.drop_drop, hd]
          rfl
        have hstart : isArgument levels start = !isLoneKeyword level := by
          rw [isArgument, hnext, hget]
          rfl
        have ih := ih (start + 1) hnext
        rw [hafter] at ih
        rw [arguments_cons hlone, ih, List.zipIdx_cons, List.filter_cons, hstart]
        cases isLoneKeyword level <;> rfl

theorem arguments_eq (e : Element) (words : List String) :
    RouterCli.arguments e.levels words = OnePass.arguments e words :=
  arguments_drop_eq_filter e.levels words 0 rfl

/-- Resolving a typed line is the one pass: the strongest grade decides at each
    word, and what is left in the end decides the answer. -/
theorem resolve_eq_onePass (elements : List Element) (words : List String) (maxArguments : Nat)
    (hc : ∀ e ∈ elements, e.IsCompiled) (hw : ∀ w ∈ words, w ≠ "") :
    resolve elements words false maxArguments = OnePass.resolve elements words maxArguments := by
  have hread := scan_any_eq_read 0 hc hw
  unfold RouterCli.resolve OnePass.resolve
  rw [← hread]
  change (scan .any 0 elements words >>= _) = _
  cases hs : scan .any 0 elements words with
  | error e => rfl
  | ok s =>
    have hselect : s.select = choose s.survivors s.atVararg words.length :=
      select_eq_choose fun hv => by rw [index_of_scan hs hv, Nat.zero_add]
    simp only [Except.map, bind, Except.bind, hselect]
    cases choose s.survivors s.atVararg words.length with
    | error e => rfl
    | ok e => simp only [arguments_eq]; simp

/-- Three commands: two of them begin alike and end in a number in brackets and in
    a free word. -/
def showCommands : List Element :=
  [["show", "version"], ["show", "bts", "[<0-255>]"], ["show", "bts", "NAME"]].map fun texts =>
    { spec := { action := .application "show", pattern := Text.unwords texts, doc := "" }
      levels := (texts.map fun text => [text]).map Level.ofTexts }

theorem isCompiled_showCommands : ∀ e ∈ showCommands, e.IsCompiled := by
  intro e he
  obtain ⟨texts, -, rfl⟩ := List.mem_map.1 he
  exact areRead_map_ofTexts _

/-- The words `sh b 7` mean the number: the free word is the weaker reading. -/
theorem resolve_eq_onePass_show :
    (∀ e ∈ showCommands, e.IsCompiled) ∧ (∀ w ∈ ["sh", "b", "7"], w ≠ "") ∧
      resolve showCommands ["sh", "b", "7"] false 256 =
        OnePass.resolve showCommands ["sh", "b", "7"] 256 ∧
      (resolve showCommands ["sh", "b", "7"] false 256).toOption.map (·.arguments) =
        some ["7"] := by
  have hw : ∀ w ∈ ["sh", "b", "7"], w ≠ "" := by decide
  exact ⟨isCompiled_showCommands, hw,
    resolve_eq_onePass showCommands ["sh", "b", "7"] 256 isCompiled_showCommands hw,
    by decide +kernel⟩

end RouterCli
