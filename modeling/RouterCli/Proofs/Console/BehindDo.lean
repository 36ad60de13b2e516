import RouterCli.Proofs.Console.Shortcut
import RouterCli.Proofs.Text.Words

/-!
  RouterCli.Proofs.Console.BehindDo

  What is typed behind `do` means what it means at the privileged commands, to help
  and to completion as well as where it is run (`Program.behindDo_eq_enable`). A line
  that is run and a line being typed are split in different ways: the one may be a
  comment (`Line.words_behindDo`), and the other keeps the word under the cursor
  apart (`PartialLine.parse_behindWord`). Either way `do` is the first word, and all
  words of the text follow it.
-/

namespace RouterCli

open Text

-- ============================================================================
-- Lines behind a word
-- ============================================================================

namespace PartialLine

/-- A word in front is one finished word more, and the cursor stays where it is. -/
theorem parse_behindWord {w : String} (hw : IsWord w) (text : String) :
    parse (w ++ " " ++ text) = ⟨w :: (parse text).words, (parse text).current⟩ := by
  have hwords : Text.words (w ++ " " ++ text) = w :: Text.words text := by
    rw [words_append, words_of_isWord hw, List.singleton_append]
  have hchars : (w ++ " " ++ text).toList = w.toList ++ ' ' :: text.toList := by simp
  have hlast : (w ++ " " ++ text).toList.getLast?.all isBlank =
      text.toList.getLast?.all isBlank := by
    rw [hchars, List.getLast?_append, List.getLast?_cons]
    cases text.toList.getLast? <;> rfl
  unfold parse
  dsimp only
  rw [hwords, hlast]
  by_cases hblank : text.toList.getLast?.all isBlank = true
  · rw [if_pos hblank, if_pos hblank]
  · rw [if_neg hblank, if_neg hblank]
    -- The word under the cursor is one of the text, so that `w` is none of it.
    have hne : Text.words text ≠ [] := by
      intro hnil
      rw [words_eq_nil_iff, isAllBlank, List.all_eq_true] at hnil
      refine hblank (Option.all_eq_true _ _ |>.2 fun c hc => hnil c ?_)
      exact List.mem_of_getLast? hc
    obtain ⟨v, vs, hvs⟩ := List.exists_cons_of_ne_nil hne
    rw [hvs]
    rfl

/-- Without its first word, the line is what stands behind it. -/
theorem shifted_behindWord {w : String} (hw : IsWord w) (text : String) :
    (parse (w ++ " " ++ text)).shifted = parse text := by
  rw [parse_behindWord hw]
  rfl

end PartialLine

theorem isWord_doWord : IsWord doWord := by decide

namespace Line

/-- Behind `do` all the words of a text are words of the line, also where the text
    alone is a comment. -/
theorem words_behindDo (text : String) :
    (parse (doWord ++ " " ++ text)).words = doWord :: Text.words text := by
  have hplain : isComment (doWord ++ " " ++ text) = false := by
    have hchars : (doWord ++ " " ++ text).toList = 'd' :: 'o' :: ' ' :: text.toList := by
      simp [doWord]
    rw [isComment, hchars]
    rfl
  rw [words_parse hplain, words_append, words_of_isWord isWord_doWord, List.singleton_append]

end Line

namespace Program

variable {σ κ φ : Type} {node : NodeId}

-- ============================================================================
-- Help
-- ============================================================================

/-- Help behind `do` is help with the text, at the privileged commands. -/
theorem shortcutView_behindDo (happlies : isShortcut node (some doWord) = true) (text : String) :
    shortcutView node (PartialLine.parse (doWord ++ " " ++ text)) =
      (.enable, PartialLine.parse text) := by
  have hfirst : (PartialLine.parse (doWord ++ " " ++ text)).words.head? = some doWord := by
    rw [PartialLine.parse_behindWord isWord_doWord]
    rfl
  unfold shortcutView
  rw [hfirst, if_pos happlies, PartialLine.shifted_behindWord isWord_doWord]

theorem isShortcut_enable (first : Option String) : isShortcut .enable first = false := by
  simp [isShortcut]

/-- At the privileged commands a `do` is a word like others. -/
theorem shortcutView_enable (line : PartialLine) : shortcutView .enable line = (.enable, line) :=
  if_neg (by simp [isShortcut_enable])

theorem describe_behindDo (p : Program σ κ) (happlies : isShortcut node (some doWord) = true)
    (text : String) : p.describe node (doWord ++ " " ++ text) = p.describe .enable text := by
  unfold describe
  rw [shortcutView_behindDo happlies, shortcutView_enable]

theorem complete_behindDo (p : Program σ κ) (happlies : isShortcut node (some doWord) = true)
    (text : String) : p.complete node (doWord ++ " " ++ text) = p.complete .enable text := by
  unfold complete
  rw [shortcutView_behindDo happlies, shortcutView_enable]

-- ============================================================================
-- Running
-- ============================================================================

variable [FileStore φ]

/-- Behind `do` the words of any text are run at the privileged commands, those of a
    comment too, and no words at all where the text is blank. -/
theorem execute_behindDo (p : Program σ κ) {c : Console σ κ φ}
    (happlies : isShortcut c.session.node (some doWord) = true) (text : String) :
    p.execute (doWord ++ " " ++ text) c =
      ((p.dispatch (words text) false (c.mapSession (·.setNode .enable))).1,
        (p.dispatch (words text) false (c.mapSession (·.setNode .enable))).2.mapSession
          (·.setNode c.session.node)) := by
  have hfirst : (Line.parse (doWord ++ " " ++ text)).first? = some doWord := by
    rw [Line.first?, Line.words_behindDo]
    rfl
  rw [p.execute_of_shortcut (hfirst ▸ happlies), Line.words_behindDo]
  rfl

example : (visitedNetwork.execute "do ! tell a" networkConsole).1.isOk = false ∧
    (visitedNetwork.execute "! tell a" networkConsole).1.isOk = true := by decide +kernel

/-- At the privileged commands the words of a line are run as they are. -/
theorem execute_of_enable (p : Program σ κ) {text : String} {c : Console σ κ φ}
    (hnode : c.session.node = .enable) (hblank : isAllBlank text = false)
    (hcomment : Line.isComment text = false) :
    p.execute text c = p.dispatch (words text) false c := by
  have hwords : (Line.parse text).isEmpty = false := by
    rw [Line.isEmpty_parse, hblank, hcomment]
    rfl
  have hplain : isShortcut c.session.node (Line.parse text).first? = false := by
    rw [hnode]
    exact isShortcut_enable _
  rw [p.execute_of_plain hwords hplain, Line.words_parse hcomment]

/-- Where `do` has its meaning, a text behind it gets the help and the completion that it
    gets at the privileged commands. Unless it is blank or a comment it is also run as it
    is there: the outcome is the same, and so is all that it leaves, the output and the
    settings of the host included, but that the session is back at its node. -/
theorem behindDo_eq_enable (p : Program σ κ) {c : Console σ κ φ}
    (happlies : isShortcut c.session.node (some doWord) = true) (text : String) :
    p.describe c.session.node ("do " ++ text) = p.describe .enable text ∧
    p.complete c.session.node ("do " ++ text) = p.complete .enable text ∧
    (isAllBlank text = false → Line.isComment text = false →
      p.execute ("do " ++ text) c =
        ((p.execute text (c.mapSession (·.setNode .enable))).1,
          (p.execute text (c.mapSession (·.setNode .enable))).2.mapSession
            (·.setNode c.session.node))) := by
  refine ⟨p.describe_behindDo happlies text, p.complete_behindDo happlies text, ?_⟩
  intro hblank hcomment
  have hthere : p.execute text (c.mapSession (·.setNode .enable)) =
      p.dispatch (words text) false (c.mapSession (·.setNode .enable)) :=
    p.execute_of_enable rfl hblank hcomment
  rw [hthere]
  exact p.execute_behindDo happlies text

/-- A second `do` is an argument, and blanks of any width part the words. -/
theorem behindDo_eq_enable_visitedNetwork :
    isShortcut networkConsole.session.node (some doWord) = true ∧
    isAllBlank "\u00a0tell\u2003do " = false ∧
    Line.isComment "\u00a0tell\u2003do " = false ∧
    (visitedNetwork.execute "do \u00a0tell\u2003do " networkConsole).2.session.output =
      "tell: do\n" ∧
    visitedNetwork.describe networkConsole.session.node "do \u00a0tell\u2003do " =
      visitedNetwork.describe .enable "\u00a0tell\u2003do " ∧
    visitedNetwork.complete networkConsole.session.node "do \u00a0tell\u2003do " =
      visitedNetwork.complete .enable "\u00a0tell\u2003do " ∧
    visitedNetwork.execute "do \u00a0tell\u2003do " networkConsole =
      ((visitedNetwork.execute "\u00a0tell\u2003do "
          (networkConsole.mapSession (·.setNode .enable))).1,
        (visitedNetwork.execute "\u00a0tell\u2003do "
          (networkConsole.mapSession (·.setNode .enable))).2.mapSession
            (·.setNode networkConsole.session.node)) := by
  have happlies : isShortcut networkConsole.session.node (some doWord) = true := by decide
  have hblank : isAllBlank "\u00a0tell\u2003do " = false := by decide +kernel
  have hcomment : Line.isComment "\u00a0tell\u2003do " = false := by decide +kernel
  obtain ⟨hhelp, hcompletion, hrun⟩ :=
    behindDo_eq_enable visitedNetwork happlies "\u00a0tell\u2003do "
  exact ⟨happlies, hblank, hcomment, by decide +kernel, hhelp, hcompletion, hrun hblank hcomment⟩

end Program

end RouterCli
