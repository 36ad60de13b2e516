import Mathlib.Data.List.Destutter
import Mathlib.Data.List.DropRight
import RouterCli.Proofs.Shell.Lines

/-!
  RouterCli.Proofs.Shell.Remembered

  The history as a cursor on a list. The lines that are remembered are the newest of those
  that were added and are worth keeping, equal neighbours counted once (`remembered`), and
  walking among them is going back and forth in that list (`Reading`). A history and the
  list go together use by use (`Follows.use`), so any run of uses shows the same on both
  (`uses_show_remembered`).
-/

namespace RouterCli.History

-- ============================================================================
-- Uses
-- ============================================================================

/-- What is done with a history. -/
inductive Use where
  | add (line : String)
  | previous
  | next
  | reset
deriving DecidableEq, Repr

/-- One use: the line that it shows, if it does, and the history behind it. -/
def use (h : History) : Use → Option String × History
  | .add line => (none, h.add line)
  | .previous => h.previous
  | .next => h.next
  | .reset => (none, h.resetPosition)

/-- Uses one after the other: what each shows, and the state behind the last. -/
def useAll {α : Type} (step : α → Use → Option String × α) :
    α → List Use → List (Option String) × α
  | a, [] => ([], a)
  | a, u :: uses =>
    let (line, a) := step a u
    let (more, a) := useAll step a uses
    (line :: more, a)

/-- The lines that were added, the oldest first. -/
def addedIn (uses : List Use) : List String :=
  uses.filterMap fun
    | .add line => some line
    | _ => none

-- ============================================================================
-- The lines to remember
-- ============================================================================

/-- A line worth keeping: it is not blank, and not longer than `size` bytes. -/
def isWorthy (size : Nat) (line : String) : Bool :=
  !Text.isAllBlank line && line.utf8ByteSize ≤ size

/-- Of the lines added, the newest `most` that are worth keeping, with equal neighbours
    counted once. -/
def remembered (most size : Nat) (added : List String) : List String :=
  ((added.filter (isWorthy size)).destutter (· ≠ ·)).rtake most

/-- The lines added, and a cursor among those of them that are remembered. -/
structure Reading where
  added : List String := []
  /-- The lines remembered that the cursor is behind. -/
  older : List String := []
  /-- The line at the cursor and the newer ones; none while the cursor is off the lines. -/
  newer : List String := []
deriving DecidableEq, Repr

namespace Reading

/-- One line towards the oldest, where the cursor stays. -/
def back (r : Reading) : Reading :=
  match r.older.getLast? with
  | none => r
  | some line => { r with older := r.older.dropLast, newer := line :: r.newer }

/-- One line towards the newest, and off the lines behind it. -/
def forth (r : Reading) : Reading :=
  match r.newer with
  | [] => r
  | line :: rest => { r with older := r.older ++ [line], newer := rest }

/-- The cursor off the lines. -/
def off (r : Reading) : Reading :=
  { r with older := r.older ++ r.newer, newer := [] }

/-- One use of the list. -/
def use (most size : Nat) (r : Reading) : Use → Option String × Reading
  | .add line =>
    let added := r.added ++ [line]
    (none, { added, older := remembered most size added })
  | .previous => (r.back.newer.head?, r.back)
  | .next => (r.forth.newer.head?, r.forth)
  | .reset => (none, r.off)

end Reading

-- ============================================================================
-- One more line
-- ============================================================================

section Concat

variable {α : Type}

theorem rtake_concat (l : List α) (a : α) {n : Nat} (hn : n ≠ 0) :
    (l ++ [a]).rtake n =
      (if n ≤ (l.rtake n).length then (l.rtake n).drop 1 else l.rtake n) ++ [a] := by
  obtain ⟨n, rfl⟩ := Nat.exists_eq_succ_of_ne_zero hn
  rw [Nat.succ_eq_add_one, List.rtake_concat_succ, List.append_left_inj]
  simp only [List.rtake, List.length_drop, List.drop_drop]
  split_ifs <;> congr 1 <;> omega

theorem getLast?_rtake (l : List α) {n : Nat} (hn : n ≠ 0) :
    (l.rtake n).getLast? = l.getLast? := by
  rw [List.rtake, List.getLast?_drop]
  split_ifs with h
  · have hnil : l = [] := List.length_eq_zero_iff.1 (by omega)
    rw [hnil]
    rfl
  · rfl

variable [DecidableEq α]

theorem destutter'_concat (l : List α) (a b : α) :
    (l ++ [a]).destutter' (· ≠ ·) b =
      if (l.destutter' (· ≠ ·) b).getLast? = some a then l.destutter' (· ≠ ·) b
      else l.destutter' (· ≠ ·) b ++ [a] := by
  induction l generalizing b with
  | nil => by_cases h : b = a <;> simp [h]
  | cons c l ih =>
    by_cases h : b = c
    · rw [List.cons_append, List.destutter'_cons_neg _ (not_not.2 h),
        List.destutter'_cons_neg _ (not_not.2 h), ih]
    · have hne : l.destutter' (· ≠ ·) c ≠ [] := List.destutter'_ne_nil _ _
      obtain ⟨d, ds, hd⟩ := List.exists_cons_of_ne_nil hne
      rw [List.cons_append, List.destutter'_cons_pos _ h, List.destutter'_cons_pos _ h, ih,
        hd, List.getLast?_cons_cons]
      split_ifs <;> rfl

/-- An element behind a list counts unless it is the last one again. -/
theorem destutter_concat (l : List α) (a : α) :
    (l ++ [a]).destutter (· ≠ ·) =
      if (l.destutter (· ≠ ·)).getLast? = some a then l.destutter (· ≠ ·)
      else l.destutter (· ≠ ·) ++ [a] := by
  cases l with
  | nil => simp
  | cons b l => exact destutter'_concat l a b

end Concat

section Remembered

variable {most size : Nat} {added : List String} {line : String}

theorem remembered_zero (size : Nat) (added : List String) : remembered 0 size added = [] :=
  List.rtake_zero _

/-- A line not worth keeping leaves no trace. -/
theorem remembered_concat_of_not_worthy (h : isWorthy size line = false) :
    remembered most size (added ++ [line]) = remembered most size added := by
  rw [remembered, List.filter_append, List.filter_cons_of_neg (by simp [h]), List.filter_nil,
    List.append_nil, remembered]

/-- A line worth keeping is remembered, unless it is the newest again, and the oldest is
    forgotten where there is no room. -/
theorem remembered_concat_of_worthy (h : isWorthy size line = true) (hmost : most ≠ 0) :
    remembered most size (added ++ [line]) =
      if (remembered most size added).getLast? = some line then remembered most size added
      else
        (if most ≤ (remembered most size added).length
          then (remembered most size added).drop 1 else remembered most size added) ++ [line] := by
  rw [remembered, List.filter_append, List.filter_cons_of_pos h, List.filter_nil,
    destutter_concat, remembered, getLast?_rtake _ hmost]
  split_ifs with hlast hfull
  · rfl
  · rw [rtake_concat _ _ hmost, if_pos hfull]
  · rw [rtake_concat _ _ hmost, if_neg hfull]

end Remembered

-- ============================================================================
-- A history and its list
-- ============================================================================

/-- The history has the lines of the list, and the cursor is at the same place. -/
structure Follows (h : History) (most size : Nat) (r : Reading) : Prop where
  limit : h.limit = most
  lineSize : h.lineSize = size
  lines : h.lines = r.older ++ r.newer
  remembered : r.older ++ r.newer = remembered most size r.added
  position : h.position = if r.newer = [] then none else some r.older.length

variable {h : History} {most size : Nat} {r : Reading}

theorem lines_add (h : History) (line : String) :
    (h.add line).lines =
      if h.refuses line then h.lines
      else (if h.limit ≤ h.lines.length then h.lines.drop 1 else h.lines) ++ [line] := by
  cases hrefuses : h.refuses line with
  | true =>
    obtain ⟨position, hadd⟩ := movesTo_add_of_refuses hrefuses
    rw [hadd, if_pos rfl]
  | false => rw [(add_of_not_refuses hrefuses).2, if_neg Bool.false_ne_true]

theorem position_add (h : History) (line : String) : (h.add line).position = none := by
  unfold add
  split <;> rfl

theorem limits_add (h : History) (line : String) :
    (h.add line).limit = h.limit ∧ (h.add line).lineSize = h.lineSize := by
  unfold add
  split <;> exact ⟨rfl, rfl⟩

namespace Follows

theorem withLimit (capacity lineSize limit : Nat) :
    (withLimit capacity lineSize limit).Follows (min limit capacity) lineSize {} where
  limit := rfl
  lineSize := rfl
  lines := rfl
  remembered := by simp [History.remembered]
  position := rfl

/-- Adding a line makes the history the list of all lines added. -/
theorem lines_add (hr : h.Follows most size r) (line : String) :
    (h.add line).lines = History.remembered most size (r.added ++ [line]) := by
  have hlines : h.lines = History.remembered most size r.added := hr.lines.trans hr.remembered
  rw [History.lines_add, refuses, hr.limit, hr.lineSize, hlines]
  by_cases hmost : most = 0
  · simp [hmost, remembered_zero]
  · cases hworthy : isWorthy size line with
    | false =>
      rw [remembered_concat_of_not_worthy hworthy, if_pos]
      simp only [isWorthy, Bool.and_eq_false_iff, Bool.not_eq_false', decide_eq_false_iff_not,
        Nat.not_le] at hworthy
      rcases hworthy with hblank | hlong
      · simp [hblank]
      · simp [hlong]
    | true =>
      rw [remembered_concat_of_worthy hworthy hmost]
      simp only [isWorthy, Bool.and_eq_true, Bool.not_eq_true', decide_eq_true_iff] at hworthy
      obtain ⟨hblank, hshort⟩ := hworthy
      simp [hblank, hmost, Nat.not_lt.2 hshort]

theorem add (hr : h.Follows most size r) (line : String) :
    (h.add line).Follows most size (r.use most size (.add line)).2 where
  limit := (limits_add h line).1.trans hr.limit
  lineSize := (limits_add h line).2.trans hr.lineSize
  lines := (hr.lines_add line).trans (List.append_nil _).symm
  remembered := List.append_nil _
  position := position_add h line

/-- The cursor may go to any place among the lines, and off them. -/
theorem moved (hr : h.Follows most size r) {older newer : List String} {position : Option Nat}
    (hsame : older ++ newer = r.older ++ r.newer)
    (hposition : position = if newer = [] then none else some older.length) :
    ({ h with position } : History).Follows most size { r with older, newer } where
  limit := hr.limit
  lineSize := hr.lineSize
  lines := hr.lines.trans hsame.symm
  remembered := hsame.trans hr.remembered
  position := hposition

theorem previous (hr : h.Follows most size r) :
    h.previous.1 = r.back.newer.head? ∧ h.previous.2.Follows most size r.back := by
  have hlines := hr.lines
  have hposition := hr.position
  rcases List.eq_nil_or_concat r.older with hold | ⟨init, line, hold⟩
  · have hback : r.back = r := by simp [Reading.back, hold]
    rw [hback]
    rw [hold, List.nil_append] at hlines
    cases hnew : r.newer with
    | nil =>
      have hstay : h.previous = (none, h) := by simp [History.previous, hlines, hnew]
      rw [hstay]
      exact ⟨rfl, hr⟩
    | cons line rest =>
      -- The cursor is at the oldest line already.
      have hfirst : h.position = some 0 := by simpa [hnew, hold] using hposition
      have hstay : h.previous = (some line, h) := by
        simp only [History.previous, hlines, hnew, hfirst]
        cases h
        simp_all
      rw [hstay]
      exact ⟨rfl, hr⟩
  · have hback : r.back = { r with older := init, newer := line :: r.newer } := by
      simp [Reading.back, hold]
    have hplace : h.position.getD h.lines.length - 1 = init.length := by
      rw [hposition, hlines, hold]
      split_ifs with hnew <;> simp [hnew]
    have hmoves : h.previous = (some line, { h with position := some init.length }) := by
      simp only [History.previous, hplace]
      rw [if_neg (by simp [hlines, hold]), hlines, hold]
      simp
    rw [hmoves, hback]
    exact ⟨rfl, hr.moved (by simp [hold]) (if_neg (List.cons_ne_nil _ _)).symm⟩

theorem next (hr : h.Follows most size r) :
    h.next.1 = r.forth.newer.head? ∧ h.next.2.Follows most size r.forth := by
  have hlines := hr.lines
  have hposition := hr.position
  cases hnew : r.newer with
  | nil =>
    have hforth : r.forth = r := by simp [Reading.forth, hnew]
    have hoff : h.position = none := by rw [hposition, if_pos hnew]
    have hstay : h.next = (none, h) := by simp [History.next, hoff]
    rw [hstay, hforth, hnew]
    exact ⟨rfl, hr⟩
  | cons line rest =>
    have hforth : r.forth = { r with older := r.older ++ [line], newer := rest } := by
      simp [Reading.forth, hnew]
    have hat : h.position = some r.older.length := by rw [hposition, if_neg (by simp [hnew])]
    rw [hnew] at hlines
    have hmoves : h.next = (rest.head?,
        { h with position := (if rest = [] then none else some (r.older ++ [line]).length) }) := by
      cases rest with
      | nil => simp [History.next, hat, hlines]
      | cons newer rest => simp [History.next, hat, hlines]
    rw [hmoves, hforth]
    exact ⟨rfl, hr.moved (by simp [hnew]) rfl⟩

theorem resetPosition (hr : h.Follows most size r) : h.resetPosition.Follows most size r.off :=
  hr.moved (List.append_nil _) rfl

/-- One use shows the same on the history and on the list, and they go on together. -/
theorem use (hr : h.Follows most size r) (u : Use) :
    (h.use u).1 = (r.use most size u).1 ∧ (h.use u).2.Follows most size (r.use most size u).2 := by
  cases u with
  | add line => exact ⟨rfl, hr.add line⟩
  | previous => exact hr.previous
  | next => exact hr.next
  | reset => exact ⟨rfl, hr.resetPosition⟩

theorem useAll (hr : h.Follows most size r) (uses : List Use) :
    (useAll History.use h uses).1 = (useAll (Reading.use most size) r uses).1 ∧
      (useAll History.use h uses).2.Follows most size
        (useAll (Reading.use most size) r uses).2 := by
  induction uses generalizing h r with
  | nil => exact ⟨rfl, hr⟩
  | cons u uses ih =>
    obtain ⟨hshown, hnext⟩ := hr.use u
    obtain ⟨hmore, hlast⟩ := ih hnext
    exact ⟨congrArg₂ List.cons hshown hmore, hlast⟩

/-- The cursor never stands outside of the lines. -/
theorem position_lt (hr : h.Follows most size r) : ∀ p ∈ h.position, p < h.lines.length := by
  intro p hp
  rw [hr.position, Option.mem_def] at hp
  split_ifs at hp with hnew
  obtain rfl := Option.some.inj hp
  have hpos := List.length_pos_iff.2 hnew
  rw [hr.lines, List.length_append]
  omega

theorem isSome_previous (hr : h.Follows most size r) :
    h.previous.1.isSome = !h.lines.isEmpty := by
  rw [hr.previous.1, hr.lines]
  rcases List.eq_nil_or_concat r.older with hold | ⟨init, line, hold⟩
  · cases hnew : r.newer <;> simp [Reading.back, hold, hnew]
  · simp [Reading.back, hold]

end Follows

-- ============================================================================
-- Runs of uses
-- ============================================================================

theorem added_useAll (most size : Nat) (r : Reading) (uses : List Use) :
    (History.useAll (Reading.use most size) r uses).2.added = r.added ++ addedIn uses := by
  induction uses generalizing r with
  | nil => exact (List.append_nil _).symm
  | cons u uses ih =>
    have hlater := ih (r.use most size u).2
    cases u with
    | add line =>
      rw [History.useAll, hlater]
      exact List.append_assoc r.added [line] (addedIn uses)
    | previous =>
      rw [History.useAll, hlater]
      simp only [Reading.use, Reading.back, addedIn]
      split <;> rfl
    | next =>
      rw [History.useAll, hlater]
      simp only [Reading.use, Reading.forth, addedIn]
      split <;> rfl
    | reset => rw [History.useAll, hlater]; rfl

/-- Whatever is done with a history, each use shows what it shows on the list of the lines
    remembered; the lines are that list, and the cursor is among them or off them. -/
theorem uses_show_remembered (capacity lineSize limit : Nat) (uses : List Use) :
    let most := min limit capacity
    let ran := History.useAll History.use (History.withLimit capacity lineSize limit) uses
    let read := History.useAll (Reading.use most lineSize) {} uses
    ran.1 = read.1 ∧
      ran.2.lines = History.remembered most lineSize (addedIn uses) ∧
      ran.2.lines = read.2.older ++ read.2.newer ∧
      ran.2.position = (if read.2.newer = [] then none else some read.2.older.length) ∧
      (∀ p ∈ ran.2.position, p < ran.2.lines.length) ∧
      ran.2.previous.1.isSome = !ran.2.lines.isEmpty ∧
      (∀ line, (ran.2.add line).position = none) ∧
      ran.2.resetPosition.position = none := by
  intro most ran read
  have hstart := Follows.withLimit capacity lineSize limit
  obtain ⟨hshown, hfollows⟩ := hstart.useAll uses
  have hadded : read.2.added = addedIn uses := added_useAll most lineSize {} uses
  have hlines : ran.2.lines = History.remembered most lineSize (addedIn uses) := by
    rw [← hadded]
    exact hfollows.lines.trans hfollows.remembered
  exact ⟨hshown, hlines, hfollows.lines, hfollows.position, hfollows.position_lt,
    hfollows.isSome_previous, position_add _, rfl⟩

/-- Blank and repeated lines leave no trace, and at the oldest line the cursor stays. -/
example :
    (useAll use (withLimit 2 8 2)
      [.add "a", .add "b", .add " ", .add "b", .add "c", .previous, .previous, .previous,
        .next, .next]).1 =
    [none, none, none, none, none, some "c", some "b", some "b", some "c", none] := by
  decide +kernel

end RouterCli.History
