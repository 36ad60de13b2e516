/-
  RouterCli.Grade

  How well a typed word fits a pattern token. Grades form a chain and double
  as acceptance thresholds: a caller names the weakest fit it will take.
-/

namespace RouterCli

/-- Match strength, weakest first. -/
inductive Grade where
  | noMatch
  /-- The lenient threshold; no word is ever graded so. -/
  | any
  /-- A free variable takes the word. -/
  | extend
  | ipv4Prefix
  | ipv4
  | ipv6Prefix
  | ipv6
  | range
  /-- The free text at the end of a command. -/
  | vararg
  /-- The word starts a keyword. -/
  | partly
  /-- The word is a keyword. -/
  | exact
deriving DecidableEq, Repr, Inhabited

namespace Grade

/-- Position in the chain. -/
def rank : Grade → Nat
  | noMatch => 0
  | any => 1
  | extend => 2
  | ipv4Prefix => 3
  | ipv4 => 4
  | ipv6Prefix => 5
  | ipv6 => 6
  | range => 7
  | vararg => 8
  | partly => 9
  | exact => 10

instance : LE Grade := ⟨fun a b => a.rank ≤ b.rank⟩

instance (a b : Grade) : Decidable (a ≤ b) := inferInstanceAs (Decidable (a.rank ≤ b.rank))

instance : Max Grade := maxOfLe

/-- The strongest of some grades; none at all is no match. -/
def strongest (grades : List Grade) : Grade :=
  grades.foldr max noMatch

/-- `grade` where the walk of the word reached the threshold. -/
def ifReached (walk min grade : Grade) : Grade :=
  if min ≤ walk then grade else noMatch

theorem le_iff_rank (a b : Grade) : a ≤ b ↔ a.rank ≤ b.rank := Iff.rfl

theorem rank_injective {a b : Grade} (h : a.rank = b.rank) : a = b := by
  cases a <;> cases b <;> first | rfl | (simp [rank] at h)

theorem le_refl (a : Grade) : a ≤ a := Nat.le_refl a.rank

theorem le_trans {a b c : Grade} (h : a ≤ b) (h' : b ≤ c) : a ≤ c :=
  Nat.le_trans (m := b.rank) h h'

theorem le_antisymm {a b : Grade} (h : a ≤ b) (h' : b ≤ a) : a = b :=
  rank_injective (Nat.le_antisymm h h')

theorem rank_max (a b : Grade) : (max a b).rank = max a.rank b.rank := by
  change (if a ≤ b then b else a).rank = _
  split
  · rename_i h
    rw [Nat.max_eq_right h]
  · rename_i h
    rw [Nat.max_eq_left (Nat.le_of_not_le h)]

/-- Every grade of a list is at most the strongest. -/
theorem le_strongest {g : Grade} {grades : List Grade} (h : g ∈ grades) :
    g ≤ strongest grades := by
  induction grades with
  | nil => simp at h
  | cons a rest ih =>
    rw [le_iff_rank, strongest, List.foldr_cons, rank_max]
    rcases List.mem_cons.1 h with rfl | hmem
    · omega
    · have := ih hmem
      rw [le_iff_rank, strongest] at this
      omega

theorem noMatch_le (a : Grade) : noMatch ≤ a := Nat.zero_le _

theorem le_noMatch_iff {a : Grade} : a ≤ noMatch ↔ a = noMatch :=
  ⟨fun h => le_antisymm h (noMatch_le a), fun h => h ▸ le_refl a⟩

theorem max_eq_or (a b : Grade) : max a b = a ∨ max a b = b := by
  change (if a ≤ b then b else a) = a ∨ (if a ≤ b then b else a) = b
  by_cases h : a ≤ b
  · exact .inr (if_pos h)
  · exact .inl (if_neg h)

theorem noMatch_max (a : Grade) : max noMatch a = a := by
  apply rank_injective
  rw [rank_max]
  exact Nat.max_eq_right (noMatch_le a)

theorem strongest_cons (a : Grade) (grades : List Grade) :
    strongest (a :: grades) = max a (strongest grades) := rfl

theorem strongest_singleton (a : Grade) : strongest [a] = a := by
  apply rank_injective
  rw [strongest_cons, rank_max]
  exact Nat.max_eq_left (noMatch_le a)

theorem strongest_append (as bs : List Grade) :
    strongest (as ++ bs) = max (strongest as) (strongest bs) := by
  induction as with
  | nil => exact (noMatch_max (strongest bs)).symm
  | cons a rest ih =>
    apply rank_injective
    rw [List.cons_append, strongest_cons, strongest_cons, ih]
    simp only [rank_max]
    omega

/-- The strongest of grades that come in groups is the strongest of the groups'
    strongest. -/
theorem strongest_flatMap {α : Type} (f : α → List Grade) (l : List α) :
    strongest (l.flatMap f) = strongest (l.map fun a => strongest (f a)) := by
  induction l with
  | nil => rfl
  | cons a rest ih =>
    rw [List.flatMap_cons, strongest_append, ih, List.map_cons, strongest_cons]

/-- Unless nothing matches, the strongest grade is one of the list. -/
theorem strongest_mem {grades : List Grade} (h : strongest grades ≠ noMatch) :
    strongest grades ∈ grades := by
  induction grades with
  | nil => exact absurd rfl h
  | cons a rest ih =>
    rw [strongest_cons] at h ⊢
    rcases max_eq_or a (strongest rest) with hm | hm
    · rw [hm]
      exact List.mem_cons_self
    · rw [hm] at h ⊢
      exact List.mem_cons_of_mem a (ih h)

end Grade

end RouterCli
