import Mathlib.Tactic.SplitIfs
import RouterCli.Proofs.Matching.Found

/-!
  RouterCli.Proofs.Matching.Plain

  Help texts have no part in what a line means: a line is resolved alike among
  commands stripped of them (`resolve_map_plain`). What stripped commands look
  like is computed from their patterns in a bounded number of passes
  (`plainOf_eq`).
-/

namespace RouterCli

-- ============================================================================
-- Without help
-- ============================================================================

/-- The level without help texts. -/
def Level.plain (level : Level) : Level :=
  level.map fun a => ⟨a.token, ""⟩

/-- The specification without help texts. -/
def CommandSpec.plain (spec : CommandSpec) : CommandSpec :=
  { spec with doc := "" }

/-- The command without help texts. -/
def Element.plain (e : Element) : Element :=
  ⟨e.spec.plain, e.levels.map Level.plain⟩

namespace Level

theorem grade_plain (level : Level) (word : String) (min : Grade) :
    level.plain.grade word min = level.grade word min := by
  simp [plain, grade, List.map_map, Function.comp_def]

theorem atoms_plain (level : Level) : level.plain.atoms = level.atoms := by
  rw [atoms, plain, List.filterMap_map]
  rfl

theorem isOptional_plain (level : Level) : level.plain.isOptional = level.isOptional := by
  rcases level with _ | ⟨a, _ | ⟨b, rest⟩⟩ <;> rfl

end Level

namespace Element

@[simp] theorem grade_plain (e : Element) (index : Nat) (word : String) (min : Grade) :
    e.plain.grade index word min = e.grade index word min := by
  simp only [grade, level?, plain, List.getElem?_map]
  cases e.levels[index]? with
  | none => rfl
  | some level => exact level.grade_plain word min

@[simp] theorem atomsAt_plain (e : Element) (index : Nat) :
    e.plain.atomsAt index = e.atomsAt index := by
  simp only [atomsAt, level?, plain, List.getElem?_map]
  cases e.levels[index]? with
  | none => rfl
  | some level => exact level.atoms_plain

@[simp] theorem mandatory_plain (e : Element) : e.plain.mandatory = e.mandatory := by
  simp only [mandatory, RouterCli.mandatory, plain, List.takeWhile_map, List.length_map]
  congr 2
  funext level
  simp [Level.isOptional_plain]

theorem arguments_plain (e : Element) (words : List String) :
    arguments e.plain.levels words = arguments e.levels words := by
  rw [plain]
  dsimp only
  generalize e.levels = levels
  induction words generalizing levels with
  | nil => cases levels <;> rfl
  | cons word rest ih =>
    rcases levels with _ | ⟨_ | ⟨a, _ | ⟨b, more⟩⟩, levels⟩
    · rfl
    · simp [arguments, Level.plain, ih]
    · simp [arguments, Level.plain, ih]
    · simp [arguments, Level.plain, ih]

end Element

-- ============================================================================
-- Resolving
-- ============================================================================

namespace Candidates

theorem best_map_plain (cs : Candidates) (index : Nat) (word : String) (min : Grade) :
    best (cs.map Element.plain) index word min = cs.best index word min := by
  simp [best, List.map_map, Function.comp_def]

theorem narrow_map_plain (cs : Candidates) (index : Nat) (word : String) (min : Grade) :
    narrow (cs.map Element.plain) index word min =
      ((cs.narrow index word min).1, (cs.narrow index word min).2.map Element.plain) := by
  unfold narrow
  simp only [best_map_plain, List.filter_map, Function.comp_def, Element.grade_plain]
  split_ifs <;> rfl

theorem settle_map_plain (cs : Candidates) (index : Nat) (word : String) (grade : Grade) :
    settle (cs.map Element.plain) index word grade =
      ((cs.settle index word grade).1, (cs.settle index word grade).2.map Element.plain) := by
  have hagree : agreement (cs.map Element.plain) index word grade =
      cs.agreement index word grade := by
    simp only [agreement, List.flatMap_map, Element.atomsAt_plain]
  unfold settle
  rw [hagree]
  split
  · simp only [List.filter_map, Function.comp_def, Element.atomsAt_plain]
  · rfl

end Candidates

/-- The scan without help texts. -/
def Scan.plain (s : Scan) : Scan :=
  { s with survivors := s.survivors.map Element.plain }

theorem scan_map_plain (min : Grade) (index : Nat) (cs : Candidates) (words : List String) :
    scan min index (cs.map Element.plain) words = (scan min index cs words).map Scan.plain := by
  induction words generalizing index cs with
  | nil => rfl
  | cons word rest ih =>
    simp only [scan, Candidates.narrow_map_plain]
    split
    · rfl
    · rw [Candidates.settle_map_plain]
      generalize (cs.narrow index word min).2.settle index word
        (cs.narrow index word min).1 = settled
      obtain ⟨_ | _ | _, agreed⟩ := settled
      · exact ih (index + 1) agreed
      · rfl
      · rfl

theorem Scan.select_plain (s : Scan) : s.plain.select = s.select.map Element.plain := by
  have hfilter : s.plain.survivors.filter (fun e => s.plain.atVararg || e.mandatory ≤ s.plain.index) =
      (s.survivors.filter fun e => s.atVararg || e.mandatory ≤ s.index).map Element.plain := by
    simp [plain, List.filter_map, Function.comp_def]
  have hempty : s.plain.survivors.isEmpty = s.survivors.isEmpty := by
    simp [plain]
  unfold select
  rw [hfilter, hempty]
  generalize s.survivors.filter (fun e => s.atVararg || e.mandatory ≤ s.index) = left
  rcases left with _ | ⟨e, _ | ⟨e', rest⟩⟩ <;> rfl

/-- A line is resolved alike without help texts. -/
theorem resolve_map_plain (elements : List Element) (words : List String) (strict : Bool)
    (most : Nat) :
    resolve (elements.map Element.plain) words strict most =
      (resolve elements words strict most).map fun r => ⟨r.element.plain, r.arguments⟩ := by
  rw [resolve_eq, resolve_eq, scan_map_plain]
  cases scan (threshold strict) 0 elements words with
  | error e => rfl
  | ok s =>
    simp only [Except.map, s.select_plain]
    cases s.select with
    | error e => rfl
    | ok e =>
      simp only [e.arguments_plain]
      split_ifs <;> rfl

-- ============================================================================
-- Compiling
-- ============================================================================

/-- Read the tokens of `cs` behind `levels` in at most `fuel` passes, without
    help texts. -/
def compileWithin : Nat → Grouping → List Char → List Level →
    Option (Except PatternDefect (List Level))
  | 0, _, _, _ => none
  | fuel + 1, g, cs, levels =>
    match takeToken g cs with
    | .error defect => some (.error defect)
    | .ok (.inl g) =>
      some (if g ≠ .outside then .error .openGroup
        else if levels.isEmpty then .error .empty
        else .ok levels)
    | .ok (.inr found) =>
      compileWithin fuel found.grouping.afterToken found.rest
        (addAlternative found.grouping levels ⟨Token.ofText (String.ofList found.text), ""⟩)

theorem map_plain_addAlternative (g : Grouping) (levels : List Level) (a : Alternative) :
    (addAlternative g levels a).map Level.plain =
      addAlternative g (levels.map Level.plain) ⟨a.token, ""⟩ := by
  unfold addAlternative
  rw [List.getLast?_map]
  cases g <;> cases levels.getLast? <;> simp [Level.plain, List.map_dropLast]

/-- Every pass gets shorter, so that as many passes as characters suffice. -/
theorem compileWithin_eq {fuel : Nat} {g : Grouping} {cs : List Char} (h : cs.length < fuel)
    (docs : List String) (levels : List Level) :
    compileWithin fuel g cs (levels.map Level.plain) =
      some ((compileFrom g cs docs levels).map (·.map Level.plain)) := by
  induction fuel generalizing g cs docs levels with
  | zero => omega
  | succ fuel ih =>
    rw [compileWithin, compileFrom]
    split
    · rename_i defect htake
      rw [htake]
      rfl
    · rename_i g' htake
      rw [htake]
      dsimp only
      split_ifs <;> simp_all [Except.map]
    · rename_i found htake
      have hshorter := takeToken_shorter htake
      rw [htake]
      dsimp only
      rw [← ih (by omega), map_plain_addAlternative]

/-- The levels of a pattern without help texts, if it is well-formed. -/
def plainLevels (pattern : String) : Option (List Level) :=
  match compileWithin (pattern.toList.length + 1) .outside pattern.toList [] with
  | some (.ok levels) => some levels
  | _ => none

/-- The command of a specification without help texts, if its pattern is
    well-formed. -/
def plainOf (spec : CommandSpec) : Option Element :=
  (plainLevels spec.pattern).map fun levels => ⟨spec.plain, levels⟩

theorem plainOf_eq (spec : CommandSpec) :
    plainOf spec = (Element.ofSpec spec).toOption.map Element.plain := by
  have hwithin := compileWithin_eq (g := .outside) (Nat.lt_succ_self spec.pattern.toList.length)
    (docLines spec.doc) []
  rw [List.map_nil] at hwithin
  unfold plainOf plainLevels Element.ofSpec compile
  rw [Nat.succ_eq_add_one] at hwithin
  rw [hwithin]
  cases compileFrom .outside spec.pattern.toList (docLines spec.doc) [] <;> rfl

end RouterCli
