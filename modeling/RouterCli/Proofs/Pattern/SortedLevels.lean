import Mathlib.Data.List.Forall2
import Mathlib.Tactic.SplitIfs
import RouterCli.Matching.Resolve
import RouterCli.Proofs.Matching.Takes

/-!
  RouterCli.Proofs.Pattern.SortedLevels

  A command with its last alternatives in another order. Level by level it has the
  alternatives it had (`Element.forall₂_sortLast`), and what matching reads of a
  level does not depend on their order: the grade of a word, the atoms, whether
  the level may be left out, which words are arguments and which texts there are.
-/

namespace RouterCli

/-- The strongest of some grades is at most that of more grades. -/
theorem Grade.strongest_le_of_subset {grades grades' : List Grade} (h : grades ⊆ grades') :
    strongest grades ≤ strongest grades' := by
  by_cases hn : strongest grades = noMatch
  · rw [hn]
    exact noMatch_le _
  · exact le_strongest (h (strongest_mem hn))

theorem Grade.strongest_perm {grades grades' : List Grade} (h : grades.Perm grades') :
    strongest grades = strongest grades' :=
  le_antisymm (strongest_le_of_subset h.subset) (strongest_le_of_subset h.symm.subset)

-- ============================================================================
-- Levels
-- ============================================================================

namespace Level

variable {level level' : Level}

theorem atoms_perm (h : level.Perm level') : level.atoms.Perm level'.atoms :=
  h.filterMap _

theorem isOptional_perm (h : level.Perm level') : level.isOptional = level'.isOptional := by
  rcases level with _ | ⟨a, _ | ⟨b, rest⟩⟩
  · rw [List.nil_perm.1 h]
  · rw [List.singleton_perm.1 h]
  · have hlength := h.length_eq
    rcases level' with _ | ⟨a', _ | ⟨b', rest'⟩⟩
    · cases hlength
    · cases hlength
    · rfl

end Level

/-- The same levels, the alternatives of each in any order. -/
abbrev LevelsPerm : List Level → List Level → Prop :=
  List.Forall₂ List.Perm

namespace LevelsPerm

variable {levels levels' : List Level}

theorem sortLastLevel (levels : List Level) : LevelsPerm (sortLastLevel levels) levels := by
  have hsame : ∀ levels : List Level, LevelsPerm levels levels :=
    fun levels => List.forall₂_same.2 fun level _ => List.Perm.refl level
  unfold RouterCli.sortLastLevel
  split
  · exact hsame levels
  · rename_i last hlast
    have hlevels : levels = levels.dropLast ++ [last] :=
      (List.dropLast_append_getLast? last hlast).symm
    have hsorted : LevelsPerm [last.mergeSort fun a b => decide (a.text ≤ b.text)] [last] :=
      .cons (List.mergeSort_perm last _) .nil
    have happend := List.rel_append (hsame levels.dropLast) hsorted
    dsimp only at happend
    rwa [← hlevels] at happend

theorem getElem? (h : LevelsPerm levels levels') (index : Nat) :
    levels[index]? = none ∧ levels'[index]? = none ∨
      ∃ level level', levels[index]? = some level ∧ levels'[index]? = some level' ∧
        level.Perm level' := by
  induction h generalizing index with
  | nil => exact .inl ⟨rfl, rfl⟩
  | cons hlevel hrest ih =>
    cases index with
    | zero => exact .inr ⟨_, _, rfl, rfl, hlevel⟩
    | succ index => exact ih index

theorem mandatory_eq (h : LevelsPerm levels levels') : mandatory levels = mandatory levels' := by
  unfold mandatory
  induction h with
  | nil => rfl
  | cons hlevel hrest ih =>
    rw [List.takeWhile_cons, List.takeWhile_cons, Level.isOptional_perm hlevel]
    split_ifs
    · rw [List.length_cons, List.length_cons, ih]
    · rfl

theorem arguments_eq (h : LevelsPerm levels levels') (words : List String) :
    arguments levels words = arguments levels' words := by
  induction h generalizing words with
  | nil => rfl
  | @cons level level' rest rest' hlevel hrest ih =>
    cases words with
    | nil => rfl
    | cons word words =>
      have hlength := hlevel.length_eq
      rcases level with _ | ⟨a, _ | ⟨b, more⟩⟩
      · obtain rfl := List.nil_perm.1 hlevel
        simp only [arguments, ih words]
      · obtain rfl := List.singleton_perm.1 hlevel
        simp only [arguments, ih words]
      · rcases level' with _ | ⟨a', _ | ⟨b', more'⟩⟩
        · cases hlength
        · cases hlength
        · simp only [arguments, ih words]

/-- The texts of the last levels are the same. -/
theorem getLast?_perm (h : LevelsPerm levels levels') :
    (levels.getLast?.getD []).Perm (levels'.getLast?.getD []) := by
  rw [List.getLast?_eq_getElem?, List.getLast?_eq_getElem?, h.length_eq]
  rcases h.getElem? (levels'.length - 1) with ⟨hnone, hnone'⟩ | ⟨_, _, hsome, hsome', hlevel⟩
  · rw [hnone, hnone']
  · rw [hsome, hsome']
    exact hlevel

end LevelsPerm

-- ============================================================================
-- Commands
-- ============================================================================

namespace Element

theorem forall₂_sortLast (e : Element) : LevelsPerm e.sortLast.levels e.levels :=
  LevelsPerm.sortLastLevel e.levels

theorem atomsAt_sortLast (e : Element) (index : Nat) :
    (e.sortLast.atomsAt index).Perm (e.atomsAt index) := by
  unfold atomsAt level?
  rcases e.forall₂_sortLast.getElem? index with ⟨hnone, hnone'⟩ | ⟨_, _, hsome, hsome', hlevel⟩
  · rw [hnone, hnone']
  · rw [hsome, hsome']
    exact Level.atoms_perm hlevel

@[simp] theorem grade_sortLast (e : Element) (index : Nat) (word : String) (min : Grade) :
    e.sortLast.grade index word min = e.grade index word min := by
  rw [grade_eq, grade_eq]
  exact Grade.strongest_perm ((e.atomsAt_sortLast index).map _)

@[simp] theorem mandatory_sortLast (e : Element) : e.sortLast.mandatory = e.mandatory :=
  e.forall₂_sortLast.mandatory_eq

theorem arguments_sortLast (e : Element) (words : List String) :
    arguments e.sortLast.levels words = arguments e.levels words :=
  e.forall₂_sortLast.arguments_eq words

theorem any_atomsAt_sortLast (e : Element) (index : Nat) (p : Atom → Bool) :
    (e.sortLast.atomsAt index).any p = (e.atomsAt index).any p :=
  (e.atomsAt_sortLast index).any_eq

end Element

end RouterCli
