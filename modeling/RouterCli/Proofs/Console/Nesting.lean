import RouterCli.Proofs.Console.ReplayLog

/-!
  RouterCli.Proofs.Console.Nesting

  The levels to return to as the nesting of a configuration text. However a replay goes,
  behind each of its lines every level to return to has an indentation of spaces, those
  farther in have more of them, and the current level has the most
  (`Program.replay_reflectsNesting`). What a line preserves is `Session.Nested`; here it is
  read off for each level, and taken through the lines of a text and of an open file.
-/

namespace RouterCli

-- ============================================================================
-- Indentations of levels
-- ============================================================================

namespace Line

@[simp] theorem length_spaces (n : Nat) : (spaces n).length = n := by
  rw [spaces, String.length_ofList, List.length_replicate]

theorem eq_space_of_mem_spaces {n : Nat} {c : Char} (h : c ∈ (spaces n).toList) : c = ' ' := by
  rw [spaces, String.toList_ofList] at h
  exact List.eq_of_mem_replicate h

end Line

namespace Frame

variable {κ : Type}

/-- How far in the level is; without a recorded indentation it is at the margin. -/
def depth (f : Frame κ) : Nat :=
  (f.indent.getD "").length

end Frame

namespace Session

variable {κ : Type}

/-- The levels to return to mirror the nesting of a text: each has an indentation made of
    spaces, and it is longer from level to level inwards, the current level included. -/
structure ReflectsNesting (s : Session κ) : Prop where
  recorded : ∀ f ∈ s.parents, ∃ indent, f.indent = some indent ∧ ∀ c ∈ indent.toList, c = ' '
  /-- The innermost level stands first. -/
  deeper : s.parents.Pairwise fun inner outer => outer.depth < inner.depth
  current : ∀ indent ∈ s.indent, ∀ f ∈ s.parents.head?, f.depth < indent.length

/-- The indentations of levels told by the numbers of their spaces. -/
theorem Nested.exists_widths {s : Session κ} (h : s.Nested) :
    ∃ ns : List Nat, ns.Pairwise (· > ·) ∧
      s.parents.map (·.indent) = ns.map (some ∘ Line.spaces) ∧
      ∀ indent ∈ s.indent, ∀ n ∈ ns.head?, n < indent.length := by
  cases hi : s.indent with
  | none =>
    obtain ⟨ns, hns, hs⟩ := h.of_indent_none hi
    exact ⟨ns, hns, hs, by simp⟩
  | some indent =>
    obtain ⟨n, ns, hns, rfl, hs⟩ := h.of_indent_some hi
    obtain ⟨hn, hrest⟩ := List.pairwise_cons.1 hns
    refine ⟨ns, hrest, hs, ?_⟩
    intro indent hindent m hm
    obtain rfl := Option.some.inj hindent
    rw [Line.length_spaces]
    exact hn m (List.mem_of_mem_head? hm)

theorem Nested.reflectsNesting {s : Session κ} (h : s.Nested) : s.ReflectsNesting := by
  obtain ⟨ns, hns, hs, hcurrent⟩ := h.exists_widths
  have hdepths : s.parents.map Frame.depth = ns := by
    have hof : (Frame.depth : Frame κ → Nat) = (fun i => (i.getD "").length) ∘ (·.indent) := rfl
    rw [hof, ← List.map_map, hs, List.map_map]
    exact (List.map_congr_left fun n _ => Line.length_spaces n).trans (List.map_id ns)
  constructor
  · intro f hf
    have hmem : f.indent ∈ ns.map (some ∘ Line.spaces) := hs ▸ List.mem_map_of_mem hf
    obtain ⟨n, -, hn⟩ := List.mem_map.1 hmem
    exact ⟨Line.spaces n, hn.symm, fun c hc => Line.eq_space_of_mem_spaces hc⟩
  · rw [← hdepths, List.pairwise_map] at hns
    exact hns
  · intro indent hindent f hf
    refine hcurrent indent hindent f.depth ?_
    rw [← hdepths, List.head?_map]
    exact Option.mem_map_of_mem Frame.depth hf

end Session

-- ============================================================================
-- Replays
-- ============================================================================

namespace Program

open Session

variable {σ κ φ : Type} [FileStore φ]

theorem nested_replayFrom (p : Program σ κ) (happ : p.application.KeepsLevels) (number : Nat)
    (c : Console σ κ φ) (h : c.session.Nested) (lines : List String) :
    (p.replayFrom number c lines).2.session.Nested :=
  (@forall_replayLog σ κ φ _ p (fun c => c.session.Nested) (fun _ => True)
    (fun _ _ _ _ _ _ => trivial) (p.nested_replayLine happ) lines number c h).2

/-- An open file is read on for as long as it has lines, those added by the lines before
    them included. -/
theorem nested_replayOpen (p : Program σ κ) (happ : p.application.KeepsLevels)
    (file : FileHandle) (fuel number start : Nat) (c : Console σ κ φ) (h : c.session.Nested) :
    (p.replayOpen file fuel number start c).2.session.Nested := by
  induction fuel generalizing number start c with
  | zero => exact h
  | succ fuel ih =>
    unfold replayOpen
    split
    · exact h
    · split
      · exact h
      · split
        · exact h
        · rename_i text _
          have hline := p.nested_replayLine happ number (Text.trimLineBreaks text) c h
          split
          · rename_i hran
            rwa [hran] at hline
          · rename_i hran
            rw [hran] at hline
            exact ih _ _ _ hline

theorem session_replay (p : Program σ κ) (text : ConfigText) (c : Console σ κ φ) :
    (p.replay text c).2.session = (p.replayFrom 1 c text.lines).2.session := by
  unfold replay
  split
  · rename_i hran
    rw [hran]
  · rename_i hran
    rw [hran]
    cases text.broken <;> rfl

/-- Behind each line of a text, and behind its end or the line that stopped the replay, the
    levels to return to mirror the nesting of the text; so they do behind any number of
    lines of an open file. -/
theorem replay_reflectsNesting (p : Program σ κ) (happ : p.application.KeepsLevels)
    (c : Console σ κ φ) (hparents : c.session.parents = []) (hindent : c.session.indent = none) :
    (∀ text : ConfigText, (p.replay text c).2.session.ReflectsNesting ∧
      ∀ n, (p.replayFrom 1 c (text.lines.take n)).2.session.ReflectsNesting) ∧
    ∀ file n, (p.replayOpen file n 1 0 c).2.session.ReflectsNesting := by
  have hstart := nested_of_nil hparents hindent
  refine ⟨fun text => ⟨?_, fun n => ?_⟩, fun file n => ?_⟩
  · rw [session_replay]
    exact (p.nested_replayFrom happ 1 c hstart text.lines).reflectsNesting
  · exact (p.nested_replayFrom happ 1 c hstart (text.lines.take n)).reflectsNesting
  · exact (p.nested_replayOpen happ file n 1 0 c hstart).reflectsNesting

/-- Behind a third line that is refused two levels are open. -/
theorem replay_reflectsNesting_refusedLine :
    let text : ConfigText := ⟨["network", " bts", "   bts"], none⟩
    (orphanNetwork.replay text emptyConsole).2.session.indents =
        [some "   ", some " ", some ""] ∧
      (orphanNetwork.replay text emptyConsole).2.session.ReflectsNesting ∧
      (orphanNetwork.replayFrom 1 emptyConsole (text.lines.take 2)).2.session.ReflectsNesting :=
  ⟨by decide +kernel,
    ((replay_reflectsNesting orphanNetwork keepsLevels_orphanNetwork emptyConsole rfl rfl).1
      ⟨["network", " bts", "   bts"], none⟩).1,
    ((replay_reflectsNesting orphanNetwork keepsLevels_orphanNetwork emptyConsole rfl rfl).1
      ⟨["network", " bts", "   bts"], none⟩).2 2⟩

end Program

end RouterCli
