import RouterCli.Proofs.Command.Installed
import RouterCli.Proofs.Matching.Offered
import RouterCli.Proofs.Matching.Threshold
import RouterCli.Proofs.Pattern.SortedLevels

/-!
  RouterCli.Proofs.Matching.Reordered

  Sorting a node changes nothing that a user can tell but the order of a list. The
  commands stand in another order and their last alternatives do; every step from
  a word to the next keeps just that relation (`Reordered.scan`), and what is read
  off the commands in the end is the same command, the same texts, the same
  completion (`Registry.sort_meaning`).
-/

namespace RouterCli

-- ============================================================================
-- Answers
-- ============================================================================

/-- The same error, or results that are related. -/
inductive Answers {ε α β : Type} (R : α → β → Prop) : Except ε α → Except ε β → Prop
  | error (e : ε) : Answers R (.error e) (.error e)
  | ok {a : α} {b : β} (h : R a b) : Answers R (.ok a) (.ok b)

-- ============================================================================
-- Candidates
-- ============================================================================

/-- The commands in any order, with their last alternatives sorted. -/
def Reordered (cs cs' : Candidates) : Prop :=
  cs'.Perm (cs.map Element.sortLast)

namespace Reordered

variable {cs cs' : Candidates} {index : Nat} {word : String} {min grade : Grade}

theorem filter {p : Element → Bool} (hp : ∀ e, p e.sortLast = p e) (h : Reordered cs cs') :
    Reordered (cs.filter p) (cs'.filter p) := by
  have hfilter := List.Perm.filter p h
  rw [List.filter_map, show p ∘ Element.sortLast = p from funext hp] at hfilter
  exact hfilter

theorem isEmpty_eq (h : Reordered cs cs') : cs'.isEmpty = cs.isEmpty := by
  rw [Bool.eq_iff_iff, List.isEmpty_iff_length_eq_zero, List.isEmpty_iff_length_eq_zero,
    h.length_eq, List.length_map]

/-- What holds of the items of some command that keep their texts holds in either
    order. -/
theorem mem_flatMap_iff {α : Type} {f : Element → List α} {a : α}
    (hf : ∀ e, a ∈ f e.sortLast ↔ a ∈ f e) (h : Reordered cs cs') :
    a ∈ cs'.flatMap f ↔ a ∈ cs.flatMap f := by
  rw [(h.flatMap_right f).mem_iff, List.flatMap_map, List.mem_flatMap, List.mem_flatMap]
  exact exists_congr fun e => and_congr_right fun _ => hf e

theorem best_eq (h : Reordered cs cs') :
    Candidates.best cs' index word min = cs.best index word min := by
  unfold Candidates.best
  have hgrades := h.map (·.grade index word min)
  rw [List.map_map] at hgrades
  rw [Grade.strongest_perm hgrades]
  simp only [Function.comp_def, Element.grade_sortLast]

theorem narrow (h : Reordered cs cs') (index : Nat) (word : String) (min : Grade) :
    Reordered (cs.narrow index word min).2 (Candidates.narrow cs' index word min).2 := by
  rw [Candidates.snd_narrow, Candidates.snd_narrow, h.best_eq]
  exact h.filter fun e => by rw [Element.grade_sortLast, Element.grade_sortLast]

/-- Whether commands agree depends on which atoms they have, not on their order. -/
theorem agreement_eq (h : Reordered cs cs') :
    Candidates.agreement cs' index word grade = cs.agreement index word grade := by
  have hatoms : ∀ a, a ∈ cs'.flatMap (·.atomsAt index) ↔ a ∈ cs.flatMap (·.atomsAt index) :=
    fun a => h.mem_flatMap_iff fun e => (e.atomsAt_sortLast index).mem_iff
  have halike : Candidates.allAlike (((cs'.flatMap (·.atomsAt index)).filter
        (Candidates.hits grade word)).map (·.text)) =
      Candidates.allAlike (((cs.flatMap (·.atomsAt index)).filter
        (Candidates.hits grade word)).map (·.text)) := by
    rw [Bool.eq_iff_iff, allAlike_iff, allAlike_iff]
    simp only [List.forall_mem_map, List.mem_filter, hatoms]
  have hempty : (cs'.flatMap (·.atomsAt index)).isEmpty =
      (cs.flatMap (·.atomsAt index)).isEmpty := by
    rw [Bool.eq_iff_iff, List.isEmpty_iff, List.isEmpty_iff, List.eq_nil_iff_forall_not_mem,
      List.eq_nil_iff_forall_not_mem]
    simp only [hatoms]
  unfold Candidates.agreement
  dsimp only
  rw [halike, hempty]

theorem settle (h : Reordered cs cs') (index : Nat) (word : String) (grade : Grade) :
    (Candidates.settle cs' index word grade).1 = (cs.settle index word grade).1 ∧
      Reordered (cs.settle index word grade).2 (Candidates.settle cs' index word grade).2 := by
  unfold Candidates.settle
  rw [h.agreement_eq]
  cases cs.agreement index word grade with
  | unique => exact ⟨rfl, h.filter fun e => e.any_atomsAt_sortLast index _⟩
  | ambiguous | incomplete => exact ⟨rfl, h⟩

-- ============================================================================
-- Resolving
-- ============================================================================

/-- The same reading of the words, with the survivors reordered. -/
def ofScan (s s' : Scan) : Prop :=
  Reordered s.survivors s'.survivors ∧ s'.index = s.index ∧ s'.atVararg = s.atVararg

theorem scan (h : Reordered cs cs') (min : Grade) (index : Nat) (words : List String) :
    Answers ofScan (RouterCli.scan min index cs words) (RouterCli.scan min index cs' words) := by
  induction words generalizing index cs cs' with
  | nil => exact .ok ⟨h, rfl, rfl⟩
  | cons word rest ih =>
    have hnarrow := h.narrow index word min
    obtain ⟨hagree, hsettle⟩ := hnarrow.settle index word (cs.best index word min)
    rw [RouterCli.scan, RouterCli.scan]
    dsimp only
    rw [Candidates.fst_narrow, Candidates.fst_narrow, h.best_eq]
    split_ifs
    · exact .ok ⟨hnarrow, rfl, rfl⟩
    · generalize Candidates.settle (cs.narrow index word min).2 index word
        (cs.best index word min) = settled at hagree hsettle ⊢
      generalize Candidates.settle (Candidates.narrow cs' index word min).2 index word
        (cs.best index word min) = settled' at hagree hsettle ⊢
      obtain ⟨agree, agreed⟩ := settled
      obtain ⟨agree', agreed'⟩ := settled'
      obtain rfl : agree' = agree := hagree
      cases agree' with
      | unique => exact ih hsettle (index + 1)
      | ambiguous | incomplete => exact .error _

theorem select {s s' : Scan} (h : ofScan s s') : s'.select = s.select.map Element.sortLast := by
  obtain ⟨hsurvivors, hindex, hvararg⟩ := h
  have hleft := hsurvivors.filter (p := fun e => s.atVararg || decide (e.mandatory ≤ s.index))
    fun e => by rw [Element.mandatory_sortLast]
  unfold Scan.select
  rw [hindex, hvararg, hsurvivors.isEmpty_eq]
  generalize s.survivors.filter (fun e => s.atVararg || decide (e.mandatory ≤ s.index)) = left
    at hleft ⊢
  generalize s'.survivors.filter (fun e => s.atVararg || decide (e.mandatory ≤ s.index)) = left'
    at hleft ⊢
  have hlength := hleft.length_eq
  rcases left with _ | ⟨e, _ | ⟨e₂, rest⟩⟩
  · obtain rfl := List.perm_nil.1 hleft
    rfl
  · obtain rfl := List.perm_singleton.1 hleft
    rfl
  · rcases left' with _ | ⟨e', _ | ⟨e₂', rest'⟩⟩
    · cases hlength
    · cases hlength
    · rfl

end Reordered

/-- What was found, with the command's last alternatives sorted. -/
def Resolved.sortLast (r : Resolved) : Resolved :=
  ⟨r.element.sortLast, r.arguments⟩

theorem Reordered.resolve {elements elements' : List Element} (h : Reordered elements elements')
    (words : List String) (strict : Bool) (most : Nat) :
    RouterCli.resolve elements' words strict most =
      (RouterCli.resolve elements words strict most).map Resolved.sortLast := by
  have hscan := h.scan (threshold strict) 0 words
  rw [resolve_eq, resolve_eq]
  generalize RouterCli.scan (threshold strict) 0 elements words = scanned at hscan ⊢
  generalize RouterCli.scan (threshold strict) 0 elements' words = scanned' at hscan ⊢
  cases hscan with
  | error e => rfl
  | @ok s s' hs =>
    dsimp only
    rw [Reordered.select hs]
    cases s.select with
    | error e => rfl
    | ok e =>
      simp only [Except.map, e.arguments_sortLast]
      split_ifs <;> rfl

-- ============================================================================
-- Help
-- ============================================================================

/-- The texts of the entries of a help list. -/
def helpTexts (items : List HelpItem) : List String :=
  items.map HelpItem.text

theorem mem_helpOf_sortLast (e : Element) (index : Nat) (current : Option String)
    (item : HelpItem) : item ∈ helpOf index current e.sortLast ↔ item ∈ helpOf index current e := by
  have hlength := e.forall₂_sortLast.length_eq
  unfold helpOf Element.level?
  rw [show e.sortLast.isVisible = e.isVisible from rfl, hlength]
  cases e.isVisible with
  | false => exact Iff.rfl
  | true =>
    rcases e.forall₂_sortLast.getElem? index with ⟨hnone, hnone'⟩ | ⟨_, _, hsome, hsome', hlevel⟩
    · rw [hnone, hnone']
    · rw [hsome, hsome']
      exact ((hlevel.filter _).map _).mem_iff

namespace Reordered

variable {cs cs' : Candidates}

theorem narrowTo (h : Reordered cs cs') (current : Option String) (index : Nat) :
    Reordered (RouterCli.narrowTo current index cs) (RouterCli.narrowTo current index cs') := by
  cases current with
  | none => exact h
  | some word => exact h.narrow index word .any

theorem mem_helpAfterVararg_iff (h : Reordered cs cs') (item : HelpItem) :
    item ∈ helpAfterVararg cs' ↔ item ∈ helpAfterVararg cs := by
  unfold helpAfterVararg
  rw [List.mem_append, List.mem_append]
  refine or_congr_left (h.mem_flatMap_iff fun e => ?_)
  exact (e.forall₂_sortLast.getLast?_perm.map _).mem_iff

/-- The same entries are offered under the same texts. -/
theorem helpTexts_perm {items items' : List HelpItem} (h : ∀ item, item ∈ items' ↔ item ∈ items) :
    (helpTexts (distinctBy HelpItem.text items')).Perm
      (helpTexts (distinctBy HelpItem.text items)) := by
  apply perm_map_distinctBy
  intro s
  rw [List.mem_map, List.mem_map]
  simp only [h]

/-- Help lists of the same texts are offered alike. -/
theorem offered {items items' : List HelpItem} (h : (helpTexts items').Perm (helpTexts items)) :
    Answers (fun items items' => (helpTexts items').Perm (helpTexts items))
      (RouterCli.offered items) (RouterCli.offered items') := by
  have hlength := h.length_eq
  unfold helpTexts at hlength
  rw [List.length_map, List.length_map] at hlength
  cases items with
  | nil =>
    obtain rfl := List.eq_nil_of_length_eq_zero hlength
    exact .error _
  | cons item rest =>
    cases items' with
    | nil => cases hlength
    | cons item' rest' => exact .ok h

theorem describe {elements elements' : List Element} (h : Reordered elements elements')
    (line : PartialLine) :
    Answers (fun items items' => (helpTexts items').Perm (helpTexts items))
      (RouterCli.describe elements line) (RouterCli.describe elements' line) := by
  have hscan := h.scan .any 0 line.words
  rw [describe_eq, describe_eq]
  generalize RouterCli.scan .any 0 elements line.words = scanned at hscan ⊢
  generalize RouterCli.scan .any 0 elements' line.words = scanned' at hscan ⊢
  cases hscan with
  | error e => exact .error e
  | @ok s s' hs =>
    obtain ⟨hsurvivors, -, hvararg⟩ := hs
    dsimp only
    rw [hvararg]
    split_ifs
    · exact .ok (helpTexts_perm hsurvivors.mem_helpAfterVararg_iff)
    · have hleft := hsurvivors.narrowTo line.current line.index
      exact offered (helpTexts_perm fun item =>
        hleft.mem_flatMap_iff fun e => mem_helpOf_sortLast e line.index line.current item)

end Reordered

-- ============================================================================
-- Completion
-- ============================================================================

/-- The same completion, a list in any order. -/
inductive Completion.Alike : Completion → Completion → Prop
  | full (keyword : String) : Alike (.full keyword) (.full keyword)
  | shared (start : String) : Alike (.shared start) (.shared start)
  | choices {keywords keywords' : List String} (h : keywords'.Perm keywords) :
      Alike (.choices keywords) (.choices keywords')

namespace Reordered

variable {cs cs' : Candidates}

theorem scanTyped (h : Reordered cs cs') (index : Nat) (words : List String) :
    Answers Reordered (RouterCli.scanTyped index cs words)
      (RouterCli.scanTyped index cs' words) := by
  induction words generalizing index cs cs' with
  | nil => exact .ok h
  | cons word rest ih =>
    have hnarrow := h.narrow index word .any
    obtain ⟨hagree, hsettle⟩ := hnarrow.settle index word (cs.best index word .any)
    rw [RouterCli.scanTyped, RouterCli.scanTyped]
    dsimp only
    rw [Candidates.fst_narrow, Candidates.fst_narrow, h.best_eq]
    generalize Candidates.settle (cs.narrow index word .any).2 index word
      (cs.best index word .any) = settled at hagree hsettle ⊢
    generalize Candidates.settle (Candidates.narrow cs' index word .any).2 index word
      (cs.best index word .any) = settled' at hagree hsettle ⊢
    obtain ⟨agree, agreed⟩ := settled
    obtain ⟨agree', agreed'⟩ := settled'
    obtain rfl : agree' = agree := hagree
    cases agree' with
    | ambiguous => exact .error _
    | unique | incomplete => exact ih hsettle (index + 1)

theorem keywordsAt_perm (h : Reordered cs cs') (index : Nat) (current : Option String) :
    (keywordsAt cs' index current).Perm (keywordsAt cs index current) := by
  rw [List.perm_ext_iff_of_nodup (nodup_keywordsAt cs' index current)
    (nodup_keywordsAt cs index current)]
  intro s
  unfold keywordsAt
  rw [mem_distinctBy_id, mem_distinctBy_id]
  refine h.mem_flatMap_iff fun e => ?_
  unfold Element.level?
  rcases e.forall₂_sortLast.getElem? index with ⟨hnone, hnone'⟩ | ⟨_, _, hsome, hsome', hlevel⟩
  · rw [hnone, hnone']
  · rw [hsome, hsome']
    exact ((hlevel.filter _).map _).mem_iff

theorem complete {elements elements' : List Element} (h : Reordered elements elements')
    (line : PartialLine) :
    Answers Completion.Alike (RouterCli.complete elements line)
      (RouterCli.complete elements' line) := by
  have hscan := h.scanTyped 0 line.words
  rw [complete_eq, complete_eq]
  generalize RouterCli.scanTyped 0 elements line.words = scanned at hscan ⊢
  generalize RouterCli.scanTyped 0 elements' line.words = scanned' at hscan ⊢
  cases hscan with
  | error e => exact .error e
  | @ok left left' hleft =>
    have hkeywords := hleft.keywordsAt_perm line.index line.current
    dsimp only
    generalize keywordsAt left line.index line.current = keywords at hkeywords ⊢
    generalize keywordsAt left' line.index line.current = keywords' at hkeywords ⊢
    have hlength := hkeywords.length_eq
    rcases keywords with _ | ⟨keyword, _ | ⟨second, rest⟩⟩
    · obtain rfl := List.perm_nil.1 hkeywords
      exact .error _
    · obtain rfl := List.perm_singleton.1 hkeywords
      exact .ok (.full keyword)
    · rcases keywords' with _ | ⟨keyword', _ | ⟨second', rest'⟩⟩
      · cases hlength
      · cases hlength
      · unfold Completion.ofKeywords
        dsimp only
        rw [commonStartOf_perm hkeywords]
        split_ifs
        · exact .ok (.shared _)
        · exact .ok (.choices hkeywords)

end Reordered

-- ============================================================================
-- Sorting a registry
-- ============================================================================

namespace Registry

theorem reordered_sort (r : Registry) (node : NodeId) :
    Reordered (r.elements node) (r.sort.elements node) := by
  rw [elements_sort]
  exact (List.mergeSort_perm _ _).map _

/-- Sorting the nodes of a registry leaves the meaning of every line: the same
    error or the same command, its last alternatives sorted, with the same
    arguments; the same texts of help; and the same completion. -/
theorem sort_meaning (r : Registry) (node : NodeId) :
    (∀ words strict most, resolve (r.sort.elements node) words strict most =
      (resolve (r.elements node) words strict most).map Resolved.sortLast) ∧
    (∀ line, Answers (fun items items' => (helpTexts items').Perm (helpTexts items))
      (describe (r.elements node) line) (describe (r.sort.elements node) line)) ∧
    (∀ line, Answers Completion.Alike (complete (r.elements node) line)
      (complete (r.sort.elements node) line)) := by
  have h := r.reordered_sort node
  exact ⟨h.resolve, h.describe, h.complete⟩

end Registry

end RouterCli
