import RouterCli.Proofs.Console.Levels

/-!
  RouterCli.Proofs.Console.Standing

  A session's standing: whether it is to close, and how many wrong passwords it has
  counted. Steps up leave it alone (`Program.standing_goParent`), and so does leaving
  the configuration (`Program.standing_leaveConfig`). A line that is run may close the
  session, but it counts no wrong password and forgets none, if the application's
  commands do neither (`Program.authFailures_execute`).
-/

namespace RouterCli

namespace Session

variable {κ : Type}

/-- Whether the session is to close, and its wrong passwords in a row. -/
def standing (s : Session κ) : Bool × Nat :=
  (s.closing, s.authFailures)

theorem authFailures_eq_of_standing {s t : Session κ} (h : t.standing = s.standing) :
    t.authFailures = s.authFailures :=
  congrArg Prod.snd h

theorem closing_eq_of_standing {s t : Session κ} (h : t.standing = s.standing) :
    t.closing = s.closing :=
  congrArg Prod.fst h

theorem Moves.standing_eq {s t : Session κ} (h : Moves s t) : t.standing = s.standing := by
  obtain ⟨_, _, _, rfl⟩ := h
  rfl

theorem standing_popParent (s : Session κ) : s.popParent.standing = s.standing := by
  unfold popParent
  split <;> rfl

theorem standing_clearParents (s : Session κ) : s.clearParents.standing = s.standing := by
  have hfold : ∀ (levels : List (Frame κ)) (t : Session κ),
      (levels.foldl restore t).standing = t.standing := by
    intro levels
    induction levels with
    | nil => exact fun _ => rfl
    | cons f rest ih => exact fun t => ih (t.restore f)
  exact hfold s.parents s

end Session

/-- No command of the application counts a wrong password, or forgets one. -/
def Application.KeepsFailures {σ κ : Type} (a : Application σ κ) : Prop :=
  ∀ spec args app s, (a.execute spec args app s).2.2.authFailures = s.authFailures

namespace Program

open Session

variable {σ κ φ : Type}

-- ============================================================================
-- Steps up
-- ============================================================================

theorem standing_goParent (p : Program σ κ) (app : σ) (s : Session κ) :
    (p.goParent app s).standing = s.standing := by
  obtain ⟨node, h | h⟩ := p.goParent_cases app s
  · rw [h, standing_popParent]
    rfl
  · rw [h, standing_clearParents]
    rfl

theorem standing_climb (p : Program σ κ) (app : σ) (fuel : Nat) (last : NodeId)
    (s : Session κ) : (p.climb app fuel last s).2.standing = s.standing := by
  induction fuel generalizing last s with
  | zero => rfl
  | succ fuel ih =>
    unfold climb
    split
    · rfl
    · split
      · rfl
      · exact (ih _ _).trans (p.standing_goParent app s)

theorem standing_leaveConfig [FileStore φ] (p : Program σ κ) (c : Console σ κ φ) :
    (p.leaveConfig c).session.standing = c.session.standing := by
  unfold leaveConfig
  split
  · rfl
  · have hclimb := p.standing_climb c.app (p.ascentBound c.session) .config c.session
    rw [← hclimb]
    -- The number of steps is a large literal, and nothing below depends on it.
    generalize p.climb c.app (p.ascentBound c.session) .config c.session = found
    obtain ⟨stuck, s⟩ := found
    by_cases h : NodeId.enable.value < s.node.value <;> cases stuck <;>
      simp [Console.mapSession, Console.log, h, standing, setNode, clearContext]

/-- Going down a level may close the session. -/
theorem authFailures_exit (p : Program σ κ) (c : Console σ κ φ) :
    (p.exit c).session.authFailures = c.session.authFailures := by
  unfold exit
  split
  · rfl
  · split
    · rfl
    · split
      · exact authFailures_eq_of_standing (p.standing_goParent c.app c.session)
      · rfl

-- ============================================================================
-- Lines
-- ============================================================================

variable [FileStore φ]

theorem authFailures_runBuiltin (p : Program σ κ) (command : Builtin) (args : List String)
    (c : Console σ κ φ) :
    (p.runBuiltin command args c).2.session.authFailures = c.session.authFailures := by
  by_cases hexit : command = .exit
  · rw [hexit]
    exact p.authFailures_exit c
  · by_cases hleave : command = .leave
    · rw [hleave]
      exact authFailures_eq_of_standing (p.standing_leaveConfig c)
    · exact authFailures_eq_of_standing (p.runBuiltin_moves hexit hleave args c).standing_eq

theorem authFailures_dispatch (p : Program σ κ) (hkeeps : p.application.KeepsFailures)
    (words : List String) (strict : Bool) (c : Console σ κ φ) :
    (p.dispatch words strict c).2.session.authFailures = c.session.authFailures := by
  rcases p.dispatch_cases words strict c with ⟨e, -, hrun⟩ | ⟨found, -, ⟨-, hrun⟩ | ⟨-, hrun⟩⟩
  · rw [hrun]
  · rw [hrun]
  · have hperform : (p.perform found c).2.session.authFailures = c.session.authFailures := by
      unfold perform
      split
      · exact p.authFailures_runBuiltin _ _ c
      · exact hkeeps _ _ _ _
    rw [hrun, ← hperform]
    unfold closeIfFatal
    dsimp only
    split <;> rfl

/-- A line that is run counts no wrong password and forgets none. -/
theorem authFailures_execute (p : Program σ κ) (hkeeps : p.application.KeepsFailures)
    (line : String) (c : Console σ κ φ) :
    (p.execute line c).2.session.authFailures = c.session.authFailures := by
  unfold execute
  dsimp only
  split
  · rfl
  · split
    · exact p.authFailures_dispatch hkeeps _ _ (c.mapSession (·.setNode .enable))
    · exact p.authFailures_dispatch hkeeps _ _ c

end Program

end RouterCli
