import Mathlib.Data.List.Perm.Basic
import Mathlib.Tactic.SplitIfs
import RouterCli.Matching.Help

/-!
  RouterCli.Proofs.Matching.Offered

  What help and completion offer, as sets of texts. Offering each text once keeps
  the texts that there are (`mem_map_distinctBy`) and none of them twice
  (`nodup_map_distinctBy`), so that the same texts in any order are offered alike
  (`perm_map_distinctBy`). Help tells the end of a command where all its levels are
  typed (`endOfCommand_mem_helpOf_iff`). Completion offers the bare keywords that the word under
  the cursor begins (`mem_keywordsAt_iff`), and grows the word to the longest start
  that they have in common (`prefix_commonStartOf_iff`), or takes or lists them
  (`Completion.exists_ofKeywords`).

  This longest start is found by looking at neighbours alone: two starts of one
  keyword are starts of one another, so what a list has in common is the shorter of
  what its first two members have in common and of what the rest has. Counted in
  bytes, the least of these numbers is the length of the start
  (`byteLength_commonStartOf`).
-/

namespace RouterCli

-- ============================================================================
-- Each text once
-- ============================================================================

section Distinct

variable {α β : Type} {key : α → String} {key' : β → String} {l : List α} {l' : List β}

theorem mem_map_distinctBy (key : α → String) (l : List α) {s : String} :
    s ∈ (distinctBy key l).map key ↔ s ∈ l.map key := by
  induction l with
  | nil => rfl
  | cons a rest ih =>
    rw [distinctBy, List.map_cons, List.map_cons, List.mem_cons, List.mem_cons, ← ih]
    by_cases hs : s = key a
    · simp [hs]
    · have hother : s ∈ ((distinctBy key rest).filter (key · != key a)).map key ↔
          s ∈ (distinctBy key rest).map key := by
        rw [List.mem_map, List.mem_map]
        constructor
        · rintro ⟨b, hb, rfl⟩
          exact ⟨b, (List.mem_filter.1 hb).1, rfl⟩
        · rintro ⟨b, hb, rfl⟩
          exact ⟨b, List.mem_filter.2 ⟨hb, bne_iff_ne.2 hs⟩, rfl⟩
      rw [hother]

theorem nodup_map_distinctBy (key : α → String) (l : List α) :
    ((distinctBy key l).map key).Nodup := by
  induction l with
  | nil => exact List.nodup_nil
  | cons a rest ih =>
    rw [distinctBy, List.map_cons, List.nodup_cons]
    constructor
    · intro hmem
      obtain ⟨b, hb, hkey⟩ := List.mem_map.1 hmem
      exact bne_iff_ne.1 (List.mem_filter.1 hb).2 hkey
    · exact ih.sublist (List.filter_sublist.map key)

/-- The same texts are offered alike, in whatever order and however often they
    come. -/
theorem perm_map_distinctBy (h : ∀ s, s ∈ l.map key ↔ s ∈ l'.map key') :
    ((distinctBy key l).map key).Perm ((distinctBy key' l').map key') := by
  rw [List.perm_ext_iff_of_nodup (nodup_map_distinctBy key l) (nodup_map_distinctBy key' l')]
  intro s
  rw [mem_map_distinctBy, mem_map_distinctBy]
  exact h s

/-- What is offered under a text is one of the things of that text. -/
theorem mem_of_mem_distinctBy {a : α} (h : a ∈ distinctBy key l) : a ∈ l := by
  induction l with
  | nil => exact h
  | cons b rest ih =>
    rw [distinctBy] at h
    rcases List.mem_cons.1 h with rfl | hrest
    · exact List.mem_cons_self
    · exact List.mem_cons_of_mem b (ih (List.mem_filter.1 hrest).1)

/-- Something is offered under every text. -/
theorem exists_mem_distinctBy (key : α → String) {a : α} (h : a ∈ l) :
    ∃ b ∈ distinctBy key l, key b = key a := by
  have hkey : key a ∈ (distinctBy key l).map key :=
    (mem_map_distinctBy key l).2 (List.mem_map_of_mem h)
  exact List.mem_map.1 hkey

theorem mem_distinctBy_id {l : List String} {s : String} : s ∈ distinctBy id l ↔ s ∈ l := by
  have h := mem_map_distinctBy id l (s := s)
  rwa [List.map_id, List.map_id] at h

theorem nodup_distinctBy_id (l : List String) : (distinctBy id l).Nodup := by
  have h := nodup_map_distinctBy id l
  rwa [List.map_id] at h

end Distinct

-- ============================================================================
-- Help
-- ============================================================================

/-- The commands that may take the word under the cursor, if there is one. -/
def narrowTo (current : Option String) (index : Nat) (cs : Candidates) : Candidates :=
  match current with
  | some word => (cs.narrow index word .any).2
  | none => cs

/-- A help list, if it has entries. -/
def offered : List HelpItem → Except CommandError (List HelpItem)
  | [] => .error .noMatch
  | item :: rest => .ok (item :: rest)

theorem offered_eq_ok_iff {items items' : List HelpItem} :
    offered items = .ok items' ↔ items ≠ [] ∧ items' = items := by
  cases items with
  | nil => simp [offered]
  | cons item rest => simp [offered, eq_comm]

/-- Help tells the end of a shown command behind its last word, where no further
    word is begun. -/
theorem endOfCommand_mem_helpOf_iff {index : Nat} {current : Option String} {e : Element} :
    .endOfCommand ∈ helpOf index current e ↔
      e.isVisible = true ∧ current = none ∧ index = e.levels.length := by
  unfold helpOf Element.level?
  cases hvisible : e.isVisible with
  | false => simp
  | true =>
    cases hlevel : e.levels[index]? with
    | some level =>
      have hlt : index < e.levels.length := (List.getElem?_eq_some_iff.1 hlevel).1
      have hne : index ≠ e.levels.length := Nat.ne_of_lt hlt
      simp [hne]
    | none => simp

/-- The steps of help, written out. -/
theorem describe_eq (elements : List Element) (line : PartialLine) :
    describe elements line =
      match scan .any 0 elements line.words with
      | .error e => .error e
      | .ok s =>
        if s.atVararg then .ok (distinctBy HelpItem.text (helpAfterVararg s.survivors))
        else
          offered (distinctBy HelpItem.text
            ((narrowTo line.current line.index s.survivors).flatMap
              (helpOf line.index line.current))) := by
  unfold describe narrowTo
  simp only [bind, Except.bind, pure, Except.pure]
  cases scan .any 0 elements line.words with
  | error e => rfl
  | ok s =>
    dsimp only
    split_ifs
    · rfl
    · cases line.current with
      | none | some word =>
        dsimp only
        generalize distinctBy HelpItem.text _ = items
        cases items <;> rfl

-- ============================================================================
-- Keywords
-- ============================================================================

/-- Completion takes the bare keywords that the word under the cursor begins. -/
theorem completes_iff {current : Option String} {t : Token} :
    completes current t = true ↔
      ∃ a, t = .bare a ∧ a.shape = .keyword ∧ current.all (Text.startsWith a.text) = true := by
  cases t with
  | optional text inner => simp [completes, Token.isOptional]
  | bare a =>
    simp only [completes, Token.isOptional, Token.isVariable, Token.isVararg, Token.text,
      Atom.isVariable, Token.bare.injEq]
    cases hs : a.shape <;> simp [hs, Shape.isVariable]

theorem mem_keywordsAt_iff {cs : Candidates} {index : Nat} {current : Option String} {s : String} :
    s ∈ keywordsAt cs index current ↔
      ∃ e ∈ cs, ∃ level, e.level? index = some level ∧
        ∃ a ∈ level, completes current a.token = true ∧ a.text = s := by
  rw [keywordsAt, mem_distinctBy_id, List.mem_flatMap]
  refine exists_congr fun e => and_congr_right fun _ => ?_
  cases e.level? index with
  | none => simp
  | some level => simp [and_assoc]

theorem nodup_keywordsAt (cs : Candidates) (index : Nat) (current : Option String) :
    (keywordsAt cs index current).Nodup :=
  nodup_distinctBy_id _

-- ============================================================================
-- The common start
-- ============================================================================

theorem prefix_commonStart_iff {start as bs : List Char} :
    start <+: Text.commonStart as bs ↔ start <+: as ∧ start <+: bs := by
  fun_induction Text.commonStart as bs generalizing start with
  | case1 a as bs ih =>
    cases start with
    | nil => simp
    | cons c start =>
      rw [List.cons_prefix_cons, List.cons_prefix_cons, List.cons_prefix_cons, ih]
      tauto
  | case2 a as b bs hne =>
    cases start with
    | nil => simp
    | cons c start =>
      simp only [List.cons_prefix_cons, List.prefix_nil, reduceCtorEq, false_iff]
      rintro ⟨⟨rfl, -⟩, rfl, -⟩
      exact hne rfl
  | case3 as bs hnil =>
    cases start with
    | nil => simp
    | cons c start =>
      cases as with
      | nil => simp
      | cons a as =>
        cases bs with
        | nil => simp
        | cons b bs => exact absurd rfl (hnil a as b bs rfl)

/-- The characters that all texts share from the front. -/
def commonStartOf : List String → List Char
  | [] => []
  | first :: rest => rest.foldl (fun start s => Text.commonStart start s.toList) first.toList

/-- What all texts start with is what their common start starts with. -/
theorem prefix_commonStartOf_iff {start : List Char} {texts : List String} (hne : texts ≠ []) :
    start <+: commonStartOf texts ↔ ∀ s ∈ texts, start <+: s.toList := by
  have hfold : ∀ (rest : List String) (so : List Char),
      start <+: rest.foldl (fun so s => Text.commonStart so s.toList) so ↔
        start <+: so ∧ ∀ s ∈ rest, start <+: s.toList := by
    intro rest
    induction rest with
    | nil => simp
    | cons s rest ih =>
      intro so
      rw [List.foldl_cons, ih, prefix_commonStart_iff, List.forall_mem_cons, and_assoc]
  cases texts with
  | nil => exact absurd rfl hne
  | cons first rest =>
    rw [commonStartOf, hfold, List.forall_mem_cons]

theorem commonStartOf_prefix_of_mem {texts : List String} {s : String} (h : s ∈ texts) :
    commonStartOf texts <+: s.toList :=
  (prefix_commonStartOf_iff (List.ne_nil_of_mem h)).1 List.prefix_rfl s h

/-- A text is known by what it starts with. -/
theorem eq_of_prefix_iff {as bs : List Char} (h : ∀ start, start <+: as ↔ start <+: bs) :
    as = bs := by
  have hle : as <+: bs := (h as).1 List.prefix_rfl
  have hge : bs <+: as := (h bs).2 List.prefix_rfl
  exact hle.eq_of_length_le hge.length_le

theorem commonStartOf_perm {texts texts' : List String} (h : texts.Perm texts') :
    commonStartOf texts = commonStartOf texts' := by
  by_cases hne : texts = []
  · subst hne
    rw [List.nil_perm.1 h]
  · have hne' : texts' ≠ [] := fun hnil => hne (List.perm_nil.1 (hnil ▸ h))
    apply eq_of_prefix_iff
    intro start
    rw [prefix_commonStartOf_iff hne, prefix_commonStartOf_iff hne']
    exact forall_congr' fun s => by rw [h.mem_iff]

-- ============================================================================
-- Neighbours
-- ============================================================================

theorem commonStartOf_pair (s t : String) :
    commonStartOf [s, t] = Text.commonStart s.toList t.toList := by
  rfl

/-- What a list has in common is what its first two members have in common or
    what the rest has, whichever begins the other. -/
theorem commonStartOf_cons_cons (s t : String) (rest : List String) :
    let ahead := Text.commonStart s.toList t.toList
    let behind := commonStartOf (t :: rest)
    (ahead <+: behind ∧ commonStartOf (s :: t :: rest) = ahead) ∨
      (behind <+: ahead ∧ commonStartOf (s :: t :: rest) = behind) := by
  intro ahead behind
  have hall : ∀ start, start <+: commonStartOf (s :: t :: rest) ↔
      start <+: s.toList ∧ start <+: behind := by
    intro start
    rw [prefix_commonStartOf_iff (List.cons_ne_nil _ _), List.forall_mem_cons,
      prefix_commonStartOf_iff (List.cons_ne_nil _ _)]
  have hahead : ahead <+: s.toList ∧ ahead <+: t.toList :=
    prefix_commonStart_iff.1 List.prefix_rfl
  have hbehind : behind <+: t.toList := commonStartOf_prefix_of_mem List.mem_cons_self
  -- Both begin the second text, so one of them begins the other.
  rcases List.prefix_or_prefix_of_prefix hahead.2 hbehind with hle | hge
  · refine .inl ⟨hle, eq_of_prefix_iff fun start => ?_⟩
    rw [hall]
    constructor
    · rintro ⟨hs, hb⟩
      exact prefix_commonStart_iff.2 ⟨hs, hb.trans hbehind⟩
    · intro hstart
      exact ⟨hstart.trans hahead.1, hstart.trans hle⟩
  · refine .inr ⟨hge, eq_of_prefix_iff fun start => ?_⟩
    rw [hall]
    constructor
    · rintro ⟨-, hb⟩
      exact hb
    · intro hstart
      exact ⟨(hstart.trans hge).trans hahead.1, hstart⟩

/-- The common start of two or more texts has as many bytes as the two neighbours
    share that share the fewest. -/
theorem byteLength_commonStartOf (s t : String) (rest : List String) :
    Text.byteLength (commonStartOf (s :: t :: rest)) = neighbourBytes (s :: t :: rest) := by
  induction rest generalizing s t with
  | nil => rw [commonStartOf_pair, neighbourBytes]
  | cons u rest ih =>
    have hrest := ih t u
    rw [neighbourBytes, ← hrest]
    rcases commonStartOf_cons_cons s t (u :: rest) with ⟨hle, heq⟩ | ⟨hge, heq⟩
    · have hbytes := Text.byteLength_le_of_prefix hle
      rw [heq]
      omega
    · have hbytes := Text.byteLength_le_of_prefix hge
      rw [heq]
      omega

/-- So many bytes of the first text are the common start. -/
theorem takeBytes_neighbourBytes (s t : String) (rest : List String) :
    Text.takeBytes (neighbourBytes (s :: t :: rest)) s.toList = commonStartOf (s :: t :: rest) := by
  rw [← byteLength_commonStartOf]
  exact Text.takeBytes_byteLength (commonStartOf_prefix_of_mem List.mem_cons_self)

/-- A word that begins all the texts has fewer bytes than neighbours share if and only
    if it has fewer characters than the common start. -/
theorem lt_neighbourBytes_iff {word s t : String} {rest : List String}
    (hword : ∀ k ∈ s :: t :: rest, word.toList <+: k.toList) :
    word.utf8ByteSize < neighbourBytes (s :: t :: rest) ↔
      word.length < (commonStartOf (s :: t :: rest)).length := by
  have hstart : word.toList <+: commonStartOf (s :: t :: rest) :=
    (prefix_commonStartOf_iff (List.cons_ne_nil _ _)).2 hword
  rw [← byteLength_commonStartOf, ← Text.byteLength_toList, ← String.length_toList]
  exact Text.byteLength_lt_iff_of_prefix hstart

-- ============================================================================
-- Completion
-- ============================================================================

/-- The completion by the keywords that fit. -/
def Completion.ofKeywords (current : Option String) :
    List String → Except CommandError Completion
  | [] => .error (if current.isNone then .nothingToDo else .noMatch)
  | [keyword] => .ok (.full keyword)
  | keywords =>
    if current.any (·.length < (commonStartOf keywords).length) then
      .ok (.shared (String.ofList (commonStartOf keywords)))
    else .ok (.choices keywords)

/-- The word under the cursor begins the keywords that fit. -/
theorem startsWith_of_mem_keywordsAt {cs : Candidates} {index : Nat} {word k : String}
    (h : k ∈ keywordsAt cs index (some word)) : word.toList <+: k.toList := by
  obtain ⟨e, -, level, -, a, -, hcompletes, rfl⟩ := mem_keywordsAt_iff.1 h
  exact (Text.startsWith_iff _ _).1 (Bool.and_eq_true_iff.1 hcompletes).2

/-- The steps of completion, written out. The word under the cursor begins every
    keyword, so it may be compared with what they share by bytes or by characters. -/
theorem complete_eq (elements : List Element) (line : PartialLine) :
    complete elements line =
      match scanTyped 0 elements line.words with
      | .error e => .error e
      | .ok cs => Completion.ofKeywords line.current (keywordsAt cs line.index line.current) := by
  unfold complete Completion.ofKeywords
  simp only [bind, Except.bind, pure, Except.pure]
  cases scanTyped 0 elements line.words with
  | error e => rfl
  | ok cs =>
    dsimp only
    have hword : ∀ word ∈ line.current, ∀ k ∈ keywordsAt cs line.index line.current,
        word.toList <+: k.toList := by
      intro word hcurrent k hk
      rw [Option.mem_def.1 hcurrent] at hk
      exact startsWith_of_mem_keywordsAt hk
    generalize keywordsAt cs line.index line.current = keywords at hword
    rcases keywords with _ | ⟨first, _ | ⟨second, rest⟩⟩
    · rfl
    · rfl
    · dsimp only
      rw [takeBytes_neighbourBytes]
      cases hcurrent : line.current with
      | none => rfl
      | some word =>
        have hlt := lt_neighbourBytes_iff (hword word hcurrent)
        have hgrows : 0 < neighbourBytes (first :: second :: rest) ∧
            word.utf8ByteSize < neighbourBytes (first :: second :: rest) ↔
              word.length < (commonStartOf (first :: second :: rest)).length := by
          rw [← hlt]
          exact and_iff_right_of_imp fun h => Nat.zero_lt_of_lt h
        simp only [Option.any_some, Bool.and_eq_true, decide_eq_true_eq, hgrows]

theorem Completion.eq_singleton_of_full {current : Option String} {keywords : List String}
    {k : String} (h : ofKeywords current keywords = .ok (.full k)) : keywords = [k] := by
  rcases keywords with _ | ⟨first, _ | ⟨second, rest⟩⟩
  · cases h
  · cases h
    rfl
  · unfold ofKeywords at h
    dsimp only at h
    split_ifs at h <;> cases h

/-- Where keywords fit there is a completion, by one of them, by what they all begin
    with, or by all of them. -/
theorem Completion.exists_ofKeywords (current : Option String) {keywords : List String}
    (h : keywords ≠ []) :
    ∃ r, ofKeywords current keywords = .ok r ∧
      ((∃ keyword, keywords = [keyword] ∧ r = .full keyword) ∨
        (∃ start, r = .shared start ∧ ∀ k ∈ keywords, Text.startsWith k start = true) ∨
        r = .choices keywords) := by
  rcases keywords with _ | ⟨first, _ | ⟨second, rest⟩⟩
  · exact absurd rfl h
  · exact ⟨_, rfl, .inl ⟨first, rfl, rfl⟩⟩
  · unfold ofKeywords
    dsimp only
    split_ifs
    · refine ⟨_, rfl, .inr (.inl ⟨_, rfl, ?_⟩)⟩
      intro k hk
      rw [Text.startsWith_iff, String.toList_ofList]
      exact commonStartOf_prefix_of_mem hk
    · exact ⟨_, rfl, .inr (.inr rfl)⟩

end RouterCli
