import Mathlib.Tactic.SplitIfs
import RouterCli.Matching.Candidates

/-!
  RouterCli.Proofs.Matching.Takes

  How a word is taken. An atom takes it in one of nine ways, each with its grade
  and with what it asks of the word and of the threshold (`Atom.Takes`); a token
  grades a word as one atom does (`Token.classify_eq`), and the grade of a command is
  the strongest one among its atoms
  (`Element.exists_takes_of_grade`, `Element.le_grade_of_takes`). A lower
  threshold takes whatever a higher one takes, and at the same grade
  (`Atom.classify_of_le`, `Token.threshold_only_rejects`), so a command never fits a
  word better under the higher one (`Element.grade_le_of_le`). Free text is free text
  under all of them (`Element.grade_eq_vararg_of_le`).
-/

namespace RouterCli

-- ============================================================================
-- Atoms
-- ============================================================================

namespace Grade

theorem eq_exact_of_le {g : Grade} (h : exact ≤ g) : g = exact := by
  cases g with
  | exact => rfl
  | _ => exact absurd h (by decide)

end Grade

namespace Atom

/-- An atom takes a word at a grade: the ways there are, and what each of them
    asks of the word and of the threshold. -/
inductive Takes (a : Atom) (word : String) (min : Grade) : Grade → Prop
  | keyword (hs : a.shape = .keyword) (h : a.text = word) : Takes a word min .exact
  | begun (hs : a.shape = .keyword) (h : Text.startsWith a.text word = true)
      (hne : a.text ≠ word) (hmin : min ≤ .partly) : Takes a word min .partly
  | range {range : Range} (hs : a.shape = .range (some range)) (h : range.accepts word = true) :
      Takes a word min .range
  | ipv4 (hs : a.shape = .ipv4) (h : min ≤ Ipv4.walk word) : Takes a word min .ipv4
  | ipv4Prefix (hs : a.shape = .ipv4Prefix) (h : min ≤ Ipv4.walkPrefix word) :
      Takes a word min .ipv4Prefix
  | ipv6 (hs : a.shape = .ipv6) (h : min ≤ Ipv6.walk word) : Takes a word min .ipv6
  | ipv6Prefix (hs : a.shape = .ipv6Prefix) (h : min ≤ Ipv6.walkPrefix word) :
      Takes a word min .ipv6Prefix
  | variable (hs : a.shape = .variable) : Takes a word min .extend
  | vararg (hs : a.shape = .vararg) : Takes a word min .vararg

variable {a : Atom} {word : String} {min min' g : Grade}

theorem takes_of_classify_ne (hn : a.classify word min ≠ .noMatch) :
    a.Takes word min (a.classify word min) := by
  unfold classify at hn ⊢
  cases hs : a.shape with
  | keyword =>
    simp only [hs, Grade.ofKeyword] at hn ⊢
    split_ifs at hn ⊢ with hstart heq hmin
    · exact absurd rfl hn
    · exact .keyword hs heq
    · exact .begun hs (by simpa using hstart) heq hmin
    · exact absurd rfl hn
  | range bounds =>
    simp only [hs] at hn ⊢
    split_ifs at hn ⊢ with hany
    · obtain ⟨range, rfl, hacc⟩ := (Option.any_eq_true _ _).1 hany
      exact .range hs hacc
    · exact absurd rfl hn
  | ipv4 | ipv4Prefix | ipv6 | ipv6Prefix =>
    simp only [hs, Grade.ifReached] at hn ⊢
    split_ifs at hn ⊢ with hle
    · constructor <;> assumption
    · exact absurd rfl hn
  | «variable» => exact .variable hs
  | vararg => exact .vararg hs

theorem Takes.classify_eq (h : a.Takes word min g) : a.classify word min = g := by
  have hself : Text.startsWith word word = true :=
    (Text.startsWith_iff word word).2 List.prefix_rfl
  cases h with
  | keyword hs h => simp [classify, hs, Grade.ofKeyword, h, hself]
  | begun hs h hne hmin => simp [classify, hs, Grade.ofKeyword, h, hne, hmin]
  | range hs h => simp [classify, hs, h]
  | ipv4 hs h | ipv4Prefix hs h | ipv6 hs h | ipv6Prefix hs h =>
    simp [classify, hs, Grade.ifReached, h]
  | «variable» hs | vararg hs => simp [classify, hs]

/-- Taking a word at a grade is having been given that grade for it. -/
theorem classify_eq_iff (hn : g ≠ .noMatch) : a.classify word min = g ↔ a.Takes word min g := by
  constructor
  · rintro rfl
    exact takes_of_classify_ne hn
  · exact Takes.classify_eq

/-- Only a keyword is begun by a word. -/
theorem keyword_of_takes_partly (h : a.Takes word min .partly) :
    a.shape = .keyword ∧ Text.startsWith a.text word = true := by
  cases h with
  | begun hs hstart => exact ⟨hs, hstart⟩

/-- What a higher threshold takes, a lower one takes too. -/
theorem Takes.of_le (hle : min ≤ min') (h : a.Takes word min' g) : a.Takes word min g := by
  cases h with
  | keyword hs h => exact .keyword hs h
  | begun hs h hne hmin => exact .begun hs h hne (Grade.le_trans hle hmin)
  | range hs h => exact .range hs h
  | ipv4 hs h => exact .ipv4 hs (Grade.le_trans hle h)
  | ipv4Prefix hs h => exact .ipv4Prefix hs (Grade.le_trans hle h)
  | ipv6 hs h => exact .ipv6 hs (Grade.le_trans hle h)
  | ipv6Prefix hs h => exact .ipv6Prefix hs (Grade.le_trans hle h)
  | «variable» hs => exact .variable hs
  | vararg hs => exact .vararg hs

/-- What holds the number among its bounds takes it under any threshold. -/
theorem takes_of_hits_range (h : Candidates.hits .range word a = true) :
    a.Takes word min .range := by
  unfold Candidates.hits at h
  cases hs : a.shape with
  | range bounds =>
    simp only [hs] at h
    obtain ⟨range, rfl, hacc⟩ := (Option.any_eq_true _ _).1 h
    exact .range hs hacc
  | _ => simp [hs] at h

/-- What a higher threshold takes, a lower one takes at the same grade. -/
theorem classify_of_le (hle : min ≤ min') (hn : a.classify word min' ≠ .noMatch) :
    a.classify word min = a.classify word min' :=
  ((takes_of_classify_ne hn).of_le hle).classify_eq

end Atom

-- ============================================================================
-- Tokens
-- ============================================================================

namespace Token

/-- The atom that a word is graded against: the one in the brackets if they are opened,
    and their text as a keyword if not. Empty brackets, once open, have none. -/
def gradedAtom? (t : Token) (unwrap : Bool) : Option Atom :=
  match t with
  | bare a => some a
  | optional text inner => if unwrap then inner else some ⟨text, .keyword⟩

theorem classify_eq (t : Token) (word : String) (min : Grade) (unwrap : Bool) :
    t.classify word min unwrap =
      (t.gradedAtom? unwrap).elim .noMatch (·.classify word min) := by
  cases t with
  | bare a => rfl
  | optional text inner =>
    cases unwrap with
    | false => rfl
    | true => cases inner <;> rfl

theorem classify_unwrapped (t : Token) (word : String) (min : Grade) :
    t.classify word min true = t.atom?.elim .noMatch (·.classify word min) := by
  rw [classify_eq]
  cases t <;> rfl

variable {t : Token} {word : String} {min min' : Grade} {unwrap : Bool}

/-- A word that fits a token fits the atom it is graded against. -/
theorem exists_atom_of_classify_ne (hn : t.classify word min unwrap ≠ .noMatch) :
    ∃ a, t.gradedAtom? unwrap = some a ∧ a.classify word min ≠ .noMatch := by
  rw [classify_eq] at hn
  cases ha : t.gradedAtom? unwrap with
  | none =>
    rw [ha] at hn
    exact absurd rfl hn
  | some a =>
    rw [ha] at hn
    exact ⟨a, rfl, hn⟩

theorem classify_of_le (hle : min ≤ min') (hn : t.classify word min' unwrap ≠ .noMatch) :
    t.classify word min unwrap = t.classify word min' unwrap := by
  obtain ⟨a, ha, hfits⟩ := exists_atom_of_classify_ne hn
  rw [classify_eq, classify_eq, ha]
  exact Atom.classify_of_le hle hfits

/-- The lenient threshold is no grade of a word. -/
theorem classify_ne_any : t.classify word min unwrap ≠ .any := by
  intro hany
  have hn : t.classify word min unwrap ≠ .noMatch := by
    rw [hany]
    decide
  obtain ⟨a, ha, hfits⟩ := exists_atom_of_classify_ne hn
  rw [classify_eq, ha] at hany
  have hgrade : a.classify word min = .any := hany
  have htakes := Atom.takes_of_classify_ne hfits
  rw [hgrade] at htakes
  cases htakes

/-- The threshold only rejects: a word that fits a token under one threshold has the same
    grade under every lower one. So under the strict threshold it has the grade that it has
    under the lenient one, or fits not at all; and no grade of a word is `any`. -/
theorem threshold_only_rejects (t : Token) (word : String) (unwrap : Bool) :
    (∀ min min' : Grade, min ≤ min' → t.classify word min' unwrap ≠ .noMatch →
        t.classify word min unwrap = t.classify word min' unwrap) ∧
      (t.classify word .exact unwrap = t.classify word .any unwrap ∨
        t.classify word .exact unwrap = .noMatch) ∧
      ∀ min, t.classify word min unwrap ≠ .any := by
  refine ⟨fun _ _ => classify_of_le, ?_, fun _ => classify_ne_any⟩
  by_cases hn : t.classify word .exact unwrap = .noMatch
  · exact .inr hn
  · have hle : Grade.any ≤ .exact := by decide
    exact .inl (classify_of_le hle hn).symm

/-- An address that is only begun fits under the thresholds up to its precision. -/
theorem threshold_only_rejects_begun :
    Grade.any ≤ .partly ∧
      (ofText "[A.B.C.D]").classify "10.0.0" .partly true ≠ .noMatch ∧
      (ofText "[A.B.C.D]").classify "10.0.0" .any true =
        (ofText "[A.B.C.D]").classify "10.0.0" .partly true ∧
      (ofText "[A.B.C.D]").classify "10.0.0" .exact true = .noMatch := by
  have hle : Grade.any ≤ .partly := by decide
  have hfits : (ofText "[A.B.C.D]").classify "10.0.0" .partly true ≠ .noMatch := by
    decide +kernel
  exact ⟨hle, hfits, (threshold_only_rejects (ofText "[A.B.C.D]") "10.0.0" true).1 _ _ hle hfits,
    by decide +kernel⟩

end Token

-- ============================================================================
-- Commands
-- ============================================================================

theorem Level.grade_eq (level : Level) (word : String) (min : Grade) :
    level.grade word min = .strongest (level.atoms.map (·.classify word min)) := by
  rw [grade, atoms]
  induction level with
  | nil => rfl
  | cons a rest ih =>
    rw [List.map_cons, Grade.strongest_cons, ih, Token.classify_unwrapped]
    cases ha : a.token.atom? with
    | none =>
      have htail : (a :: rest).filterMap (·.token.atom?) = rest.filterMap (·.token.atom?) :=
        List.filterMap_cons_none ha
      rw [htail]
      exact Grade.noMatch_max _
    | some atom =>
      have hcons : (a :: rest).filterMap (·.token.atom?) =
          atom :: rest.filterMap (·.token.atom?) := List.filterMap_cons_some ha
      rw [hcons]
      rfl

namespace Element

/-- The grade of a command is the strongest one among its atoms at the
    position. -/
theorem grade_eq (e : Element) (index : Nat) (word : String) (min : Grade) :
    e.grade index word min = .strongest ((e.atomsAt index).map (·.classify word min)) := by
  rw [grade, atomsAt]
  cases e.level? index with
  | none => rfl
  | some level => exact level.grade_eq word min

variable {e : Element} {index : Nat} {word : String} {min min' g : Grade}

theorem le_grade_of_takes {a : Atom} (ha : a ∈ e.atomsAt index) (h : a.Takes word min g) :
    g ≤ e.grade index word min := by
  rw [← h.classify_eq, grade_eq]
  exact Grade.le_strongest (List.mem_map_of_mem ha)

/-- Where only one atom may stand, its grade is that of the command. -/
theorem grade_of_takes {a : Atom} (ha : e.atomsAt index = [a]) (h : a.Takes word min g) :
    e.grade index word min = g := by
  rw [grade_eq, ha, List.map_singleton, Grade.strongest_singleton]
  exact h.classify_eq

/-- Some atom takes the word at the grade of the command, unless that fits not at
    all. -/
theorem exists_takes_of_grade (h : e.grade index word min = g) (hn : g ≠ .noMatch) :
    ∃ a ∈ e.atomsAt index, a.Takes word min g := by
  rw [grade_eq] at h
  have hmem := Grade.strongest_mem (h ▸ hn)
  rw [h] at hmem
  obtain ⟨a, ha, hclass⟩ := List.mem_map.1 hmem
  exact ⟨a, ha, (Atom.classify_eq_iff hn).1 hclass⟩

/-- A command fits a word no better under a higher threshold. -/
theorem grade_le_of_le (hle : min ≤ min') (e : Element) (index : Nat) (word : String) :
    e.grade index word min' ≤ e.grade index word min := by
  by_cases hn : e.grade index word min' = .noMatch
  · rw [hn]
    exact Grade.noMatch_le _
  · obtain ⟨a, ha, htakes⟩ := exists_takes_of_grade rfl hn
    exact le_grade_of_takes ha (htakes.of_le hle)

/-- Under the strict threshold no keyword is merely begun. -/
theorem grade_exact_ne_partly (e : Element) (index : Nat) (word : String) :
    e.grade index word .exact ≠ .partly := by
  intro h
  obtain ⟨a, -, htakes⟩ := exists_takes_of_grade h (by decide)
  cases htakes with
  | begun _ _ _ hmin => exact absurd hmin (by decide)

/-- The lenient threshold is no grade of a word. -/
theorem grade_ne_any (e : Element) (index : Nat) (word : String) (min : Grade) :
    e.grade index word min ≠ .any := by
  intro h
  obtain ⟨a, -, htakes⟩ := exists_takes_of_grade h (by decide)
  cases htakes

theorem exists_vararg_of_grade (h : e.grade index word min = .vararg) :
    ∃ a ∈ e.atomsAt index, a.shape = .vararg := by
  obtain ⟨a, ha, htakes⟩ := exists_takes_of_grade h (by decide)
  cases htakes with
  | vararg hs => exact ⟨a, ha, hs⟩

/-- Where a word is free text at best, it is so under a higher threshold too. -/
theorem grade_eq_vararg_of_le (hle : min ≤ min') (h : e.grade index word min = .vararg) :
    e.grade index word min' = .vararg := by
  obtain ⟨a, ha, hs⟩ := exists_vararg_of_grade h
  apply Grade.le_antisymm
  · rw [← h]
    exact grade_le_of_le hle e index word
  · exact le_grade_of_takes ha (.vararg hs)

/-- Only a keyword that is the word itself fits so well. -/
theorem exists_keyword_of_exact_le (h : .exact ≤ e.grade index word min) :
    ∃ a ∈ e.atomsAt index, a.shape = .keyword ∧ a.text = word := by
  obtain ⟨a, ha, htakes⟩ := exists_takes_of_grade (Grade.eq_exact_of_le h) (by decide)
  cases htakes with
  | keyword hs htext => exact ⟨a, ha, hs, htext⟩

end Element

end RouterCli
