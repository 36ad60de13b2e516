import Mathlib.Data.List.Induction
import RouterCli.Text.Numeral

/-!
  RouterCli.Proofs.Text.Runs

  Runs of characters of one class, such as the digits of a number. A run that
  something of another class follows is told from it (`isRun_append_inj`), and so
  is a text in front of a character it does not hold (`append_cons_cases`). What begins
  a text with such a character in it ends on one side of it or on the other
  (`prefix_append_cons_cases`). The value of digits only grows as more of them are
  written (`decimalValue_le_append`).
-/

namespace RouterCli.Text

-- ============================================================================
-- Runs
-- ============================================================================

section Run

variable {p : Char → Bool} {run run' rest rest' : List Char}

/-- All the characters are of the class. -/
def IsRun (p : Char → Bool) (cs : List Char) : Prop :=
  ∀ c ∈ cs, p c = true

instance (p : Char → Bool) (cs : List Char) : Decidable (IsRun p cs) :=
  decidable_of_iff (cs.all p = true) List.all_eq_true

/-- No run of the class goes on into these characters. -/
def Stops (p : Char → Bool) (cs : List Char) : Prop :=
  ∀ c ∈ cs.head?, p c = false

theorem isRun_nil : IsRun p [] :=
  fun _ h => absurd h List.not_mem_nil

theorem IsRun.append (h : IsRun p run) (h' : IsRun p run') : IsRun p (run ++ run') := by
  intro c hc
  rcases List.mem_append.1 hc with hc | hc
  · exact h c hc
  · exact h' c hc

theorem IsRun.concat (h : IsRun p run) {c : Char} (hc : p c = true) : IsRun p (run ++ [c]) := by
  refine h.append fun d hd => ?_
  rw [List.mem_singleton.1 hd]
  exact hc

theorem IsRun.of_prefix (h : IsRun p run) (hle : run' <+: run) : IsRun p run' :=
  fun c hc => h c (hle.mem hc)

theorem IsRun.notMem (h : IsRun p run) {c : Char} (hc : p c = false) : c ∉ run := by
  intro hmem
  exact absurd (h c hmem) (by simp [hc])

theorem stops_nil : Stops p [] := by
  intro c hc
  cases hc

theorem stops_cons {c : Char} (hc : p c = false) : Stops p (c :: rest) := by
  intro d hd
  rw [List.head?_cons, Option.mem_some_iff] at hd
  rw [← hd]
  exact hc

theorem takeWhile_of_stops (hrun : IsRun p run) (hrest : Stops p rest) :
    (run ++ rest).takeWhile p = run := by
  rw [List.takeWhile_append_of_pos hrun]
  cases rest with
  | nil => rw [List.takeWhile_nil, List.append_nil]
  | cons c rest =>
    have hc : p c = false := hrest c rfl
    rw [List.takeWhile_cons_of_neg (by simp [hc]), List.append_nil]

/-- A run is the start of the longest one. -/
theorem IsRun.prefix_takeWhile (hrun : IsRun p run) (cs : List Char) :
    run <+: (run ++ cs).takeWhile p := by
  rw [List.takeWhile_append_of_pos hrun]
  exact List.prefix_append _ _

theorem isRun_append_inj (hrun : IsRun p run) (hrun' : IsRun p run') (hrest : Stops p rest)
    (hrest' : Stops p rest') (h : run ++ rest = run' ++ rest') : run = run' ∧ rest = rest' := by
  have hsame : run = run' := by
    rw [← takeWhile_of_stops hrun hrest, h, takeWhile_of_stops hrun' hrest']
  subst hsame
  exact ⟨rfl, List.append_cancel_left h⟩

end Run

/-- Where two readings part a text, the first behind characters that `x` is not
    among and the second before an `x`, they part it at one place, or the first parts
    it ahead of the second. -/
theorem append_cons_cases {x y : Char} {ahead behind front more : List Char} (hx : x ∉ ahead)
    (h : ahead ++ y :: behind = front ++ x :: more) :
    (front = ahead ∧ y = x ∧ behind = more) ∨
      ∃ between, front = ahead ++ y :: between ∧ behind = between ++ x :: more := by
  rcases List.append_eq_append_iff.1 h with ⟨as, rfl, has⟩ | ⟨bs, rfl, hbs⟩
  · cases as with
    | nil =>
      obtain ⟨hy, hbehind⟩ := List.cons.inj has
      exact .inl ⟨List.append_nil _, hy, hbehind⟩
    | cons a as =>
      obtain ⟨rfl, hbehind⟩ := List.cons.inj has
      exact .inr ⟨as, rfl, hbehind⟩
  · cases bs with
    | nil =>
      obtain ⟨hy, hbehind⟩ := List.cons.inj hbs
      exact .inl ⟨(List.append_nil _).symm, hy.symm, hbehind.symm⟩
    | cons b bs =>
      obtain ⟨rfl, -⟩ := List.cons.inj hbs
      exact absurd (List.mem_append_right _ List.mem_cons_self) hx

theorem splitFirst_append {c : Char} {before : List Char} (h : c ∉ before) (after : List Char) :
    splitFirst c (before ++ c :: after) = some (before, after) := by
  induction before with
  | nil => simp [splitFirst]
  | cons d rest ih =>
    obtain ⟨hd, hrest⟩ := not_or.1 (mt List.mem_cons.2 h)
    rw [List.cons_append, splitFirst, if_neg (Ne.symm hd), ih hrest]
    rfl

/-- What begins a text with a mark in it ends ahead of the mark or behind it. -/
theorem prefix_append_cons_cases {x : Char} {cut front more : List Char}
    (h : cut <+: front ++ x :: more) :
    cut <+: front ∨ ∃ start, cut = front ++ x :: start ∧ start <+: more := by
  obtain ⟨rest, hrest⟩ := h
  rcases List.append_eq_append_iff.1 hrest with ⟨as, rfl, -⟩ | ⟨bs, rfl, htail⟩
  · exact .inl (List.prefix_append cut as)
  · cases bs with
    | nil => exact .inl ⟨[], by rw [List.append_nil, List.append_nil]⟩
    | cons b bs =>
      obtain ⟨rfl, rfl⟩ := List.cons.inj htail
      exact .inr ⟨bs, rfl, List.prefix_append bs rest⟩

-- ============================================================================
-- Values
-- ============================================================================

theorem decimalValue_concat (ds : List Char) (d : Char) :
    decimalValue (ds ++ [d]) = 10 * decimalValue ds + digitValue d := by
  rw [decimalValue, List.foldl_append]
  rfl

/-- More digits make no less. -/
theorem decimalValue_le_append (ds more : List Char) :
    decimalValue ds ≤ decimalValue (ds ++ more) := by
  induction more generalizing ds with
  | nil => exact Nat.le_of_eq (by rw [List.append_nil])
  | cons d more ih =>
    have hmore := ih (ds ++ [d])
    rw [List.append_assoc, List.singleton_append, decimalValue_concat] at hmore
    omega

/-- Digits in front make no less, either. -/
theorem decimalValue_le_append_right (front ds : List Char) :
    decimalValue ds ≤ decimalValue (front ++ ds) := by
  induction ds using List.reverseRecOn with
  | nil => exact Nat.zero_le _
  | append_singleton ds d ih =>
    rw [← List.append_assoc, decimalValue_concat, decimalValue_concat]
    omega

end RouterCli.Text
