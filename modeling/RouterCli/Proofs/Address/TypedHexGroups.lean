import Mathlib.Data.List.Basic
import RouterCli.Proofs.Address.HexGroups

/-!
  RouterCli.Proofs.Address.TypedHexGroups

  The walks over an IPv6 address that is being typed. Over an address without a
  dotted quad a walk comes to every character in a state that takes it whatever is
  typed next (`IsGrouped.exists_readsOn`), so it can be cut anywhere. Within a dotted
  quad the start of the group is not moved behind the dots, and a group that has
  grown beyond four characters stops both walks (`TooLong`): no address with a quad
  can be typed beyond its third octet (`walks_typed_iff`).
-/

namespace RouterCli.Ipv6

open RouterCli.Text

-- ============================================================================
-- Reading on
-- ============================================================================

/-- The walk takes the character, whatever follows it. -/
inductive Walk.Ready : Walk → Char → Prop
  | colon {k : Int} {n : Nat} {doubled : Bool} {group : List Char} (few : n ≤ 8) (colons : k < 7) :
      Ready ⟨.colon, k, n, doubled, group⟩ ':'
  | double {k : Int} {n : Nat} {group : List Char} (few : n < 8) (colons : k ≤ 7) :
      Ready ⟨.double, k, n, false, group⟩ ':'
  | address {k : Int} {n : Nat} {doubled : Bool} {group : List Char} {c : Char}
      (digit : isHexDigit c = true) (run : IsRun isHexDigit group) (short : group.length < 4)
      (few : n < 8) (colons : k ≤ 7) : Ready ⟨.address, k, n, doubled, group⟩ c

/-- The walk is ready for each of the characters when it comes to it, and not in wait
    of another colon at the last one. -/
inductive ReadsOn : Walk → List Char → Prop
  | nil {w : Walk} : ReadsOn w []
  | last {w : Walk} {c : Char} (ready : w.Ready c) (ended : w.expecting ≠ .colon) : ReadsOn w [c]
  | next {w w' : Walk} {c d : Char} {rest : List Char} (ready : w.Ready c)
      (step : w.step c (some d) = some w') (more : ReadsOn w' (d :: rest)) :
      ReadsOn w (c :: d :: rest)

theorem Walk.within_iff {limit n : Nat} {e : Expecting} {k : Int} {doubled : Bool}
    {group : List Char} :
    (Walk.mk e k n doubled group).within limit = true ↔ n ≤ limit ∧ k ≤ 7 := by
  rw [Walk.within, Bool.and_eq_true, decide_eq_true_eq, decide_eq_true_eq]

theorem ne_of_isHexDigit {c d : Char} (hc : isHexDigit c = true) (hd : isHexDigit d = false) :
    c ≠ d := by
  rintro rfl
  rw [hc] at hd
  cases hd

section Ready

variable {w w' : Walk} {c d : Char}

theorem Walk.Ready.within (h : w.Ready c) {limit : Nat} (hlimit : 8 ≤ limit) :
    w.within limit = true := by
  cases h with
  | colon few colons => exact Walk.within_iff.2 ⟨by omega, by omega⟩
  | double few colons => exact Walk.within_iff.2 ⟨by omega, colons⟩
  | address digit run short few colons => exact Walk.within_iff.2 ⟨by omega, colons⟩

/-- A walk is ready for nothing but digits and colons. -/
theorem Walk.Ready.ne_dot_slash (h : w.Ready c) : c ≠ '.' ∧ c ≠ '/' := by
  cases h with
  | colon => decide
  | double => decide
  | address digit =>
    exact ⟨ne_of_isHexDigit digit (by decide), ne_of_isHexDigit digit (by decide)⟩

theorem Walk.Ready.ne_slash (h : w.Ready c) : w.expecting ≠ .slash := by
  cases h <;> exact Expecting.noConfusion

/-- Both walks do the same where another character to be read follows. -/
theorem Walk.Ready.stepPrefix_eq (h : w.Ready c) (h' : w'.Ready d)
    (hstep : w.step c (some d) = some w') : w.stepPrefix c (some d) = some w' := by
  obtain ⟨hdot, hslash⟩ := h'.ne_dot_slash
  cases h with
  | colon few colons => simpa [Walk.step, Walk.stepPrefix, hslash] using hstep
  | double few colons => simpa [Walk.step, Walk.stepPrefix, hslash] using hstep
  | address digit run short few colons =>
    have hgroup := run.notMem (c := '/') (by decide)
    have hne := ne_of_isHexDigit digit (d := '/') (by decide)
    by_cases hcolon : d = ':'
    · subst hcolon
      simpa [Walk.step, Walk.stepPrefix, hgroup, hne.symm] using hstep
    · simpa [Walk.step, Walk.stepPrefix, hdot, hslash, hcolon] using hstep

/-- A walk can end at any character it is ready for. -/
theorem Walk.Ready.walkFrom_eq (h : w.Ready c) : walkFrom w [c] = .exact := by
  cases h with
  | @colon k n doubled group few colons =>
    have hwithin : (Walk.mk .address (k + 1) n doubled []).within 8 = true :=
      Walk.within_iff.2 ⟨few, by omega⟩
    simp [walkFrom, Walk.step, hwithin]
  | @double k n group few colons =>
    have hwithin : (Walk.mk .address k (n + 1) true []).within 8 = true :=
      Walk.within_iff.2 ⟨few, colons⟩
    simp [walkFrom, Walk.step, hwithin]
  | @address k n doubled group c digit run short few colons =>
    have hlength : ¬ 4 < group.length + 1 := by omega
    have hwithin : (Walk.mk .colon k (n + 1) doubled (c :: group)).within 8 = true :=
      Walk.within_iff.2 ⟨few, colons⟩
    simp [walkFrom, Walk.step, hlength, hwithin]

theorem notMem_slash_cons {group : List Char} (digit : isHexDigit c = true)
    (run : IsRun isHexDigit group) : '/' ∉ c :: group :=
  List.not_mem_cons_of_ne_of_not_mem (ne_of_isHexDigit digit (by decide)).symm
    (run.notMem (by decide))

/-- So can one towards a mask, which is still to come. -/
theorem Walk.Ready.walkPrefixFrom_eq (h : w.Ready c) : walkPrefixFrom w [c] = .partly := by
  cases h with
  | @colon k n doubled group few colons =>
    have hwithin : (Walk.mk .address (k + 1) n doubled []).within 11 = true :=
      Walk.within_iff.2 ⟨by omega, by omega⟩
    simp [walkPrefixFrom, Walk.stepPrefix, hwithin]
  | @double k n group few colons =>
    have hwithin : (Walk.mk .address k (n + 1) true []).within 11 = true :=
      Walk.within_iff.2 ⟨by omega, colons⟩
    simp [walkPrefixFrom, Walk.stepPrefix, hwithin]
  | @address k n doubled group c digit run short few colons =>
    have hlength : ¬ 4 < group.length + 1 := by omega
    have hslash := notMem_slash_cons digit run
    have hwithin : (Walk.mk .address k (n + 1) doubled (c :: group)).within 11 = true :=
      Walk.within_iff.2 ⟨by omega, colons⟩
    simp [walkPrefixFrom, Walk.stepPrefix, hlength, hslash, hwithin]

/-- Unless it waits for a second colon, it takes a slash, too. -/
theorem Walk.Ready.exists_slash (h : w.Ready c) (hended : w.expecting ≠ .colon) :
    ∃ w' : Walk, w'.expecting = .slash ∧ w'.within 11 = true ∧
      ∀ mask, walkPrefixFrom w (c :: '/' :: mask) = walkPrefixFrom w' ('/' :: mask) := by
  cases h with
  | colon => exact absurd rfl hended
  | @double k n group few colons =>
    have hwithin : (Walk.mk .slash k (n + 1) true []).within 11 = true :=
      Walk.within_iff.2 ⟨by omega, colons⟩
    refine ⟨_, rfl, hwithin, fun mask => ?_⟩
    simp [walkPrefixFrom, Walk.stepPrefix, hwithin]
  | @address k n doubled group c digit run short few colons =>
    have hlength : ¬ 4 < group.length + 1 := by omega
    have hslash := notMem_slash_cons digit run
    have hwithin : (Walk.mk .slash k (n + 1) doubled (c :: group)).within 11 = true :=
      Walk.within_iff.2 ⟨by omega, colons⟩
    refine ⟨_, rfl, hwithin, fun mask => ?_⟩
    simp [walkPrefixFrom, Walk.stepPrefix, hlength, hslash, hwithin]

end Ready

section ReadsOn

variable {w : Walk} {cs ahead behind : List Char} {c d : Char}

theorem ReadsOn.of_cons (h : ReadsOn w (c :: behind)) :
    w.Ready c ∧ (behind = [] → w.expecting ≠ .colon) ∧
      ∀ d ∈ behind.head?, ∃ w', w'.Ready d ∧ w.step c (some d) = some w' ∧ ReadsOn w' behind := by
  cases h with
  | last ready ended => exact ⟨ready, fun _ => ended, fun d hd => nomatch hd⟩
  | @next _ w' _ e rest ready step more =>
    refine ⟨ready, fun hnil => absurd hnil (List.cons_ne_nil e rest), fun d hd => ?_⟩
    rw [List.head?_cons, Option.mem_some_iff] at hd
    subst hd
    have hnext : w'.Ready e := by
      cases more with
      | last ready => exact ready
      | next ready => exact ready
    exact ⟨w', hnext, step, more⟩

/-- The walk comes to each character in a state that is ready for it, whatever stands
    behind that character. -/
theorem ReadsOn.exists_ready (h : ReadsOn w (ahead ++ d :: behind)) :
    ∃ w' : Walk, w'.Ready d ∧ (behind = [] → w'.expecting ≠ .colon) ∧
      ∀ more, walkFrom w (ahead ++ d :: more) = walkFrom w' (d :: more) ∧
        walkPrefixFrom w (ahead ++ d :: more) = walkPrefixFrom w' (d :: more) := by
  induction ahead generalizing w with
  | nil => exact ⟨w, h.of_cons.1, h.of_cons.2.1, fun more => ⟨rfl, rfl⟩⟩
  | cons c ahead ih =>
    obtain ⟨hready, -, hnext⟩ := h.of_cons
    -- The step looks one character ahead, and that one is the same whatever follows `d`.
    have hhead : ∀ more, (ahead ++ d :: more).head? = some (ahead.head?.getD d) := by
      intro more
      cases ahead <;> rfl
    obtain ⟨w₁, hready₁, hstep, hmore⟩ := hnext _ (hhead behind)
    obtain ⟨w', hready', hended, hwalk⟩ := ih hmore
    refine ⟨w', hready', hended, fun more => ⟨?_, ?_⟩⟩
    · rw [← (hwalk more).1, List.cons_append, walkFrom, hhead more, hstep]
      exact if_pos (hready₁.within (Nat.le_refl 8))
    · rw [← (hwalk more).2, List.cons_append, walkPrefixFrom, if_neg hready.ne_slash, hhead more,
        hready.stepPrefix_eq hready₁ hstep]
      exact if_pos (hready₁.within (by decide))

/-- A text that is read on through can be cut anywhere. -/
theorem ReadsOn.of_prefix (h : ReadsOn w cs) {cut : List Char} (hcut : cut <+: cs) :
    walkFrom w cut = .exact ∧ walkPrefixFrom w cut = .partly := by
  rcases List.eq_nil_or_concat' cut with rfl | ⟨ahead, d, rfl⟩
  · exact ⟨rfl, rfl⟩
  · obtain ⟨behind, rfl⟩ := hcut
    rw [List.append_assoc] at h
    obtain ⟨w', hready, -, hwalk⟩ := h.exists_ready
    rw [(hwalk []).1, (hwalk []).2]
    exact ⟨hready.walkFrom_eq, hready.walkPrefixFrom_eq⟩

/-- And a mask can be typed behind it. -/
theorem ReadsOn.append_mask (h : ReadsOn w cs) (hne : cs ≠ []) :
    walkPrefixFrom w (cs ++ ['/']) = .partly ∧
      ∀ mask, Ipv4.IsNumber maskLimit mask → walkPrefixFrom w (cs ++ '/' :: mask) = .exact := by
  obtain ⟨ahead, d, rfl⟩ := (List.eq_nil_or_concat' cs).resolve_left hne
  obtain ⟨w', hready, hended, hwalk⟩ := h.exists_ready
  obtain ⟨w₁, hslash, hwithin, hmask⟩ := hready.exists_slash (hended rfl)
  have hall : ∀ mask, walkPrefixFrom w (ahead ++ [d] ++ '/' :: mask) =
      walkPrefixFrom w₁ ('/' :: mask) := by
    intro mask
    rw [List.append_assoc, List.singleton_append, (hwalk _).2, hmask mask]
  refine ⟨?_, fun mask hnumber => ?_⟩
  · rw [hall, walkPrefixFrom, if_pos hslash]
    rfl
  · have hempty : mask.isEmpty = false := List.isEmpty_eq_false_iff.2 hnumber.ne_nil
    have hmasked := (Ipv4.isNumber_iff_isMask hnumber.ne_nil).1 hnumber
    rw [hall, walkPrefixFrom, if_pos hslash, hempty, hwithin, hmasked]
    rfl

end ReadsOn

-- ============================================================================
-- Addresses without a dotted quad
-- ============================================================================

/-- A group ends at the end of the text, or at a colon. -/
def EndsGroup (rest : List Char) : Prop :=
  ∀ c ∈ rest.head?, c = ':'

section Groups

variable {k : Int} {n m : Nat} {doubled : Bool} {group g cs rest : List Char}

theorem endsGroup_nil : EndsGroup [] :=
  fun _ hc => nomatch hc

theorem endsGroup_colon : EndsGroup (':' :: rest) :=
  fun _ hc => (Option.mem_some_iff.1 hc).symm

theorem IsRow.endsGroup (h : IsRow false n cs) (hrest : EndsGroup rest) :
    EndsGroup (cs ++ rest) := by
  cases h with
  | nil => exact hrest
  | cons => exact endsGroup_colon

/-- A row that is not empty begins with a digit. -/
theorem IsRow.exists_head (h : IsRow true (n + 1) cs) :
    ∃ d rest, cs = d :: rest ∧ isHexDigit d = true := by
  cases h with
  | @cons _ _ g cs hg =>
    obtain ⟨d, g, rfl⟩ := List.exists_cons_of_ne_nil hg.ne_nil
    exact ⟨d, g ++ cs, rfl, hg.isRun d List.mem_cons_self⟩

theorem readsOn_group (hne : g ≠ []) (hg : IsRun isHexDigit g) (hgroup : IsRun isHexDigit group)
    (hlength : group.length + g.length ≤ 4) (hfew : n < 8) (hcolons : k ≤ 7)
    (hends : EndsGroup rest) (hrest : ∀ group, ReadsOn ⟨.colon, k, n + 1, doubled, group⟩ rest) :
    ReadsOn ⟨.address, k, n, doubled, group⟩ (g ++ rest) := by
  induction g generalizing group with
  | nil => exact absurd rfl hne
  | cons c g ih =>
    have hc : isHexDigit c = true := hg c List.mem_cons_self
    have hg' : IsRun isHexDigit g := fun d hd => hg d (List.mem_cons_of_mem c hd)
    rw [List.length_cons] at hlength
    have hready : Walk.Ready ⟨.address, k, n, doubled, group⟩ c :=
      .address hc hgroup (by omega) hfew hcolons
    cases g with
    | nil =>
      cases rest with
      | nil => exact .last hready Expecting.noConfusion
      | cons d rest =>
        obtain rfl := hends d rfl
        refine .next hready ?_ (hrest (c :: group))
        have hshort : ¬ 4 < group.length + 1 := by omega
        simp [Walk.step, hshort]
    | cons d g =>
      have hd : isHexDigit d = true := hg' d List.mem_cons_self
      have hcolon : d ≠ ':' := ne_of_isHexDigit hd (by decide)
      have hdot : d ≠ '.' := ne_of_isHexDigit hd (by decide)
      have hgroup' : IsRun isHexDigit (c :: group) := by
        intro e he
        rcases List.mem_cons.1 he with rfl | he
        · exact hc
        · exact hgroup e he
      have hlength' : (c :: group).length + (d :: g).length ≤ 4 := by
        rw [List.length_cons]
        omega
      refine .next hready ?_ (ih (List.cons_ne_nil d g) hg' hgroup' hlength')
      simp [Walk.step, hcolon, hdot]

/-- The groups of a row are read one after the other. -/
theorem readsOn_row (h : IsRow false m cs) (hfew : n + m ≤ 8) (hcolons : k + m ≤ 7)
    (hends : EndsGroup rest)
    (hrest : ∀ group, ReadsOn ⟨.colon, k + m, n + m, doubled, group⟩ rest) (group : List Char) :
    ReadsOn ⟨.colon, k, n, doubled, group⟩ (cs ++ rest) := by
  generalize hfirst : false = first at h
  induction h generalizing k n group with
  | nil => simpa using hrest group
  | @cons first m g cs hg hrow ih =>
    subst hfirst
    rw [Int.natCast_succ] at hcolons
    obtain ⟨d, g', hd⟩ := List.exists_cons_of_ne_nil hg.ne_nil
    have hhex : isHexDigit d = true := hg.isRun d (hd ▸ List.mem_cons_self)
    -- Behind its colon the group is read from an empty one, whatever was read before.
    have hread : ReadsOn ⟨.address, k + 1, n, doubled, []⟩ (g ++ (cs ++ rest)) := by
      refine readsOn_group hg.ne_nil hg.isRun isRun_nil (by simpa using hg.length_le) (by omega)
        (by omega) (hrow.endsGroup hends) ?_
      refine fun group => ih (by omega) (by omega) (fun group => ?_) group rfl
      have hall := hrest group
      rwa [Int.natCast_succ, Int.add_comm (m : Int) 1, ← Int.add_assoc, Nat.add_comm m 1,
        ← Nat.add_assoc] at hall
    rw [lead, List.append_assoc, List.append_assoc]
    rw [hd] at hread ⊢
    refine .next (.colon (by omega) (by omega)) ?_ hread
    have hcolon : d ≠ ':' := ne_of_isHexDigit hhex (by decide)
    simp [Walk.step, hcolon]

/-- So are the groups of the first row, the first of which no colon is in front of. -/
theorem readsOn_firstRow (h : IsRow true (m + 1) cs) (hfew : n + m < 8) (hcolons : k + m ≤ 7)
    (hends : EndsGroup rest)
    (hrest : ∀ group, ReadsOn ⟨.colon, k + m, n + 1 + m, doubled, group⟩ rest) :
    ReadsOn ⟨.address, k, n, doubled, []⟩ (cs ++ rest) := by
  cases h with
  | @cons _ _ g cs hg hrow =>
    rw [lead, List.nil_append, List.append_assoc]
    refine readsOn_group hg.ne_nil hg.isRun isRun_nil (by simpa using hg.length_le) (by omega)
      (by omega) (hrow.endsGroup hends) ?_
    exact readsOn_row hrow (by omega) hcolons hends hrest

/-- Behind a first row of `n` groups, `::` and a second row are read. -/
theorem readsOn_double (h : IsRow true m cs) (hfew : n + m ≤ 7) (hcolons : k + 1 = n) :
    ReadsOn ⟨.colon, k, n, false, group⟩ (':' :: ':' :: cs) := by
  have hstep : Walk.step ⟨.colon, k, n, false, group⟩ ':' (some ':') =
      some ⟨.double, k + 1, n, false, group⟩ := by
    simp [Walk.step]
  refine .next (.colon (by omega) (by omega)) hstep ?_
  have hready : Walk.Ready ⟨.double, k + 1, n, false, group⟩ ':' := .double (by omega) (by omega)
  cases m with
  | zero =>
    cases h
    exact .last hready Expecting.noConfusion
  | succ m =>
    have hread : ReadsOn ⟨.address, k + 1 + 1, n + 1, true, []⟩ (cs ++ []) :=
      readsOn_firstRow h (by omega) (by omega) endsGroup_nil fun _ => .nil
    rw [List.append_nil] at hread
    obtain ⟨d, rest, rfl, hhex⟩ := h.exists_head
    refine .next hready ?_ hread
    have hcolon : d ≠ ':' := ne_of_isHexDigit hhex (by decide)
    simp [Walk.step, hcolon]

theorem Walk.start?_of_ne_colon {c : Char} (hc : c ≠ ':') (rest : List Char) :
    Walk.start? (c :: rest) = some ⟨.address, 0, 0, false, []⟩ := by
  unfold Walk.start?
  split
  · rename_i heq
    exact absurd (List.cons.inj heq).1 hc
  · rename_i heq
    exact absurd (List.cons.inj heq).1 hc
  · rfl

/-- Every address without a dotted quad is read on through. -/
theorem IsGrouped.exists_readsOn (h : IsGrouped cs) :
    cs ≠ [] ∧ cs ≠ [':'] ∧ ∃ w, Walk.start? cs = some w ∧ ReadsOn w cs := by
  cases h with
  | full row =>
    have hread : ReadsOn ⟨.address, 0, 0, false, []⟩ (cs ++ []) :=
      readsOn_firstRow row (by decide) (by decide) endsGroup_nil fun _ => .nil
    rw [List.append_nil] at hread
    obtain ⟨d, rest, rfl, hhex⟩ := row.exists_head
    have hcolon : d ≠ ':' := ne_of_isHexDigit hhex (by decide)
    exact ⟨List.cons_ne_nil d rest, fun heq => hcolon (List.cons.inj heq).1, _,
      Walk.start?_of_ne_colon hcolon rest, hread⟩
  | @short m k head tail front back few =>
    refine ⟨List.append_ne_nil_of_right_ne_nil head (List.cons_ne_nil _ _), ?_, ?_⟩
    · intro heq
      have hlength := congrArg List.length heq
      rw [List.length_append, List.length_cons, List.length_cons, List.length_singleton] at hlength
      omega
    · cases m with
      | zero =>
        -- The walk starts one colon short, as it stands behind a row of no groups.
        cases front
        exact ⟨⟨.colon, -1, 0, false, []⟩, rfl, readsOn_double back few rfl⟩
      | succ m =>
        have hread : ReadsOn ⟨.address, 0, 0, false, []⟩ (head ++ ':' :: ':' :: tail) := by
          refine readsOn_firstRow front (by omega) (by omega) endsGroup_colon fun group => ?_
          exact readsOn_double back (by omega) (by omega)
        obtain ⟨d, rest, rfl, hhex⟩ := front.exists_head
        exact ⟨_, Walk.start?_of_ne_colon (ne_of_isHexDigit hhex (by decide)) _, hread⟩

end Groups

-- ============================================================================
-- Words that begin an address
-- ============================================================================

section Start

variable {w : Walk} {cs cut : List Char}

/-- How a walk starts is settled by two characters, or by one that is no colon. -/
theorem Walk.start?_append (hne : cs ≠ []) (hcolon : cs ≠ [':']) (more : List Char) :
    Walk.start? (cs ++ more) = Walk.start? cs := by
  obtain ⟨c, rest, rfl⟩ := List.exists_cons_of_ne_nil hne
  by_cases hc : c = ':'
  · subst hc
    cases rest with
    | nil => exact absurd rfl hcolon
    | cons d rest => rfl
  · rw [List.cons_append, Walk.start?_of_ne_colon hc, Walk.start?_of_ne_colon hc]

theorem Walk.start?_append_cons {d : Char} (hd : d ≠ ':') (front more : List Char) :
    Walk.start? (front ++ d :: more) = Walk.start? (front ++ [d]) := by
  have hone : front ++ [d] ≠ [':'] := by
    intro heq
    have hlast := congrArg List.getLast? heq
    rw [List.getLast?_concat] at hlast
    exact hd (Option.some.inj hlast)
  rw [← Walk.start?_append (List.concat_ne_nil d front) hone more, List.append_assoc,
    List.singleton_append]

theorem Walk.start?_of_prefix (h : Walk.start? cs = some w) (hcut : cut <+: cs) (hne : cut ≠ []) :
    Walk.start? cut = some w := by
  obtain ⟨more, rfl⟩ := hcut
  by_cases hcolon : cut = [':']
  · subst hcolon
    cases more with
    | nil => exact h
    | cons d more =>
      have h' : (if d = ':' then some ⟨.colon, -1, 0, false, []⟩ else none) = some w := h
      rw [Option.ite_none_right_eq_some] at h'
      exact h'.2
  · rwa [Walk.start?_append hne hcolon] at h

end Start

section Typed

variable {cs : List Char} {word : String}

theorem IsGrouped.all_isAddressChar (h : IsGrouped cs) : ∀ c ∈ cs, isAddressChar c = true := by
  intro c hc
  rcases h.isHexDigit_or_colon c hc with hhex | rfl
  · rw [isAddressChar, hhex]
    rfl
  · decide

/-- An address without a dotted quad can be typed: the walk accepts all that begins
    it. -/
theorem IsGrouped.walk_eq_exact (h : IsGrouped cs) (hword : word.toList <+: cs) :
    walk word = .exact := by
  obtain ⟨-, -, w, hstart, hread⟩ := h.exists_readsOn
  have hchars : word.toList.all isAddressChar = true :=
    List.all_eq_true.2 fun c hc => h.all_isAddressChar c (hword.mem hc)
  rw [walk, hchars]
  by_cases hliteral : isLiteral word.toList = true
  · simp [hliteral]
  · by_cases hne : word.toList = []
    · rw [hne]
      decide
    · have hend := (hread.of_prefix hword).1
      simp [hliteral, Walk.start?_of_prefix hstart hword hne, hend]

/-- The walk towards a mask goes by the walk over the characters, where they are those
    of an address and its mask. -/
theorem walkPrefix_eq {w : Walk} (hstart : Walk.start? word.toList = some w)
    (hchars : ∀ c ∈ word.toList, isAddressChar c = true ∨ c = '/') :
    walkPrefix word = walkPrefixFrom w word.toList := by
  have hall : word.toList.all (fun c => isAddressChar c || c == '/') = true := by
    rw [List.all_eq_true]
    intro c hc
    rw [Bool.or_eq_true, beq_iff_eq]
    exact hchars c hc
  rw [walkPrefix, hall, hstart]
  rfl

theorem isAddressChar_of_isDigit {c : Char} (h : c.isDigit = true) : isAddressChar c = true := by
  rw [isAddressChar, isHexDigit_of_isDigit h]
  rfl

theorem IsGrouped.isAddressChar_or_slash (h : IsGrouped cs) {digits : List Char}
    (hdigits : IsRun Char.isDigit digits) :
    ∀ c ∈ cs ++ '/' :: digits, isAddressChar c = true ∨ c = '/' := by
  intro c hc
  rcases List.mem_append.1 hc with hc | hc
  · exact .inl (h.all_isAddressChar c hc)
  · rcases List.mem_cons.1 hc with rfl | hc
    · exact .inr rfl
    · exact .inl (isAddressChar_of_isDigit (hdigits c hc))

/-- With a mask behind it, it is accepted by the other walk. -/
theorem IsGrouped.walkPrefix_eq_exact (h : IsGrouped cs) {mask : List Char}
    (hmask : Ipv4.IsNumber maskLimit mask) (hword : word.toList = cs ++ '/' :: mask) :
    walkPrefix word = .exact := by
  obtain ⟨hne, hcolon, w, hstart, hread⟩ := h.exists_readsOn
  have hstart' : Walk.start? word.toList = some w := by
    rw [hword, Walk.start?_append hne hcolon, hstart]
  have hchars : ∀ c ∈ word.toList, isAddressChar c = true ∨ c = '/' := by
    rw [hword]
    exact h.isAddressChar_or_slash hmask.isRun
  rw [walkPrefix_eq hstart' hchars, hword]
  exact (hread.append_mask hne).2 mask hmask

/-- What begins it with its mask is taken for the start of one at least. -/
theorem IsGrouped.walkPrefix_ne_noMatch (h : IsGrouped cs) {mask : List Char}
    (hmask : Ipv4.IsNumber maskLimit mask) (hword : word.toList <+: cs ++ '/' :: mask) :
    walkPrefix word ≠ .noMatch := by
  obtain ⟨hne, hcolon, w, hstart, hread⟩ := h.exists_readsOn
  have hchars : ∀ c ∈ word.toList, isAddressChar c = true ∨ c = '/' :=
    fun c hc => h.isAddressChar_or_slash hmask.isRun c (hword.mem hc)
  rcases prefix_append_cons_cases hword with hcut | ⟨digits, hdigits, more, rfl⟩
  · by_cases hempty : word.toList = []
    · rw [walkPrefix, hempty]
      decide
    · rw [walkPrefix_eq (Walk.start?_of_prefix hstart hcut hempty) hchars, (hread.of_prefix hcut).2]
      exact Grade.noConfusion
  · by_cases hempty : digits = []
    · subst hempty
      have hstart' : Walk.start? word.toList = some w := by
        rw [hdigits, Walk.start?_append hne hcolon, hstart]
      rw [walkPrefix_eq hstart' hchars, hdigits, (hread.append_mask hne).1]
      exact Grade.noConfusion
    · rw [h.walkPrefix_eq_exact (hmask.of_append hempty) hdigits]
      exact Grade.noConfusion

end Typed

-- ============================================================================
-- Addresses with a dotted quad
-- ============================================================================

/-- The walk is within a group that is too long by the end of the characters, none of
    which ends it. -/
structure TooLong (w : Walk) (cs : List Char) : Prop where
  expecting : w.expecting = .address ∨ w.expecting = .dot ∧ cs.head? = some '.'
  long : 4 < w.group.length + cs.length
  ne_nil : cs ≠ []
  no_colon : ':' ∉ cs
  no_slash : '/' ∉ cs
  ends : cs.getLast? ≠ some '.'

section Quad

variable {w w' : Walk} {c d : Char} {cs : List Char}

/-- The next character is one more of the same group. -/
theorem TooLong.push (h : TooLong w (c :: d :: cs)) (hgroup : w'.group = c :: w.group)
    (hexpecting : w'.expecting = if d = '.' ∧ w.expecting = .address then .dot else .address) :
    TooLong w' (d :: cs) := by
  have hlong := h.long
  refine ⟨?_, ?_, List.cons_ne_nil d cs, fun hmem => h.no_colon (List.mem_cons_of_mem c hmem),
    fun hmem => h.no_slash (List.mem_cons_of_mem c hmem), ?_⟩
  · split_ifs at hexpecting with hdot
    · exact .inr ⟨hexpecting, congrArg some hdot.1⟩
    · exact .inl hexpecting
  · rw [hgroup]
    rw [List.length_cons] at hlong ⊢
    omega
  · have hends := h.ends
    rwa [List.getLast?_cons_cons] at hends

theorem Walk.step_of_ne_colon (hw : w.expecting = .address) (hd : d ≠ ':') :
    w.step c (some d) =
      some { w with expecting := if d = '.' then .dot else .address, group := c :: w.group } := by
  by_cases hdot : d = '.'
  · simp [Walk.step, hw, hdot]
  · simp [Walk.step, hw, hd, hdot]

/-- Within the characters of the group the walk goes on in it. -/
theorem TooLong.step (h : TooLong w (c :: d :: cs)) (hstep : w.step c (some d) = some w') :
    TooLong w' (d :: cs) := by
  have hcolon : d ≠ ':' := by
    rintro rfl
    exact h.no_colon (List.mem_cons_of_mem c List.mem_cons_self)
  rcases h.expecting with haddress | ⟨hdot, -⟩
  · rw [Walk.step_of_ne_colon haddress hcolon] at hstep
    rw [← Option.some.inj hstep]
    exact h.push rfl (by simp [haddress])
  · simp only [Walk.step, hdot, Option.some.injEq] at hstep
    rw [← hstep]
    exact h.push rfl (by simp [hdot])

theorem TooLong.stepPrefix (h : TooLong w (c :: d :: cs))
    (hstep : w.stepPrefix c (some d) = some w') : TooLong w' (d :: cs) := by
  have hcolon : d ≠ ':' := by
    rintro rfl
    exact h.no_colon (List.mem_cons_of_mem c List.mem_cons_self)
  have hslash : d ≠ '/' := by
    rintro rfl
    exact h.no_slash (List.mem_cons_of_mem c List.mem_cons_self)
  rcases h.expecting with haddress | ⟨hdot, -⟩
  · by_cases hd : d = '.'
    · simp only [Walk.stepPrefix, haddress, hd, Option.ite_none_left_eq_some,
        Option.some.injEq] at hstep
      rw [← hstep.2]
      exact h.push rfl (by simp [haddress, hd])
    · simp only [Walk.stepPrefix, haddress, Option.some.injEq] at hstep
      rw [← hstep]
      exact h.push rfl (by simp [haddress, hd])
  · simp only [Walk.stepPrefix, hdot, Option.some.injEq] at hstep
    rw [← hstep]
    exact h.push rfl (by simp [hdot])

/-- At its last character the group is found to be too long. -/
theorem TooLong.expecting_last (h : TooLong w [c]) : w.expecting = .address := by
  rcases h.expecting with haddress | ⟨-, hhead⟩
  · exact haddress
  · exact absurd hhead h.ends

theorem TooLong.walkFrom_eq (h : TooLong w cs) : walkFrom w cs = .noMatch := by
  fun_induction walkFrom w cs with
  | case1 w => exact absurd rfl h.ne_nil
  | case2 w c rest hstep => rfl
  | case3 w c rest w' hstep hwithin ih =>
    cases rest with
    | nil =>
      have hlong : 4 < w.group.length + 1 := h.long
      simp [Walk.step, h.expecting_last, hlong] at hstep
    | cons d rest => exact ih (h.step hstep)
  | case4 w c rest w' hstep hwithin => rfl

theorem TooLong.walkPrefixFrom_eq (h : TooLong w cs) {more : List Char}
    (hmore : more = [] ∨ more.head? = some '.') : walkPrefixFrom w (cs ++ more) = .noMatch := by
  induction cs generalizing w with
  | nil => exact absurd rfl h.ne_nil
  | cons c cs ih =>
    have hslash : w.expecting ≠ .slash := by
      rcases h.expecting with heq | ⟨heq, -⟩ <;> simp [heq]
    rw [List.cons_append, walkPrefixFrom, if_neg hslash]
    cases cs with
    | nil =>
      have hlong : 4 < w.group.length + 1 := h.long
      have hstep : w.stepPrefix c more.head? = none := by
        rcases hmore with rfl | hdot
        · simp [Walk.stepPrefix, h.expecting_last, hlong]
        · simp [Walk.stepPrefix, h.expecting_last, hlong, hdot]
      rw [List.nil_append, hstep]
    | cons d cs =>
      rw [List.cons_append, List.head?_cons]
      cases hstep : w.stepPrefix c (some d) with
      | none => rfl
      | some w' => 
        have hnext := ih (h.stepPrefix hstep)
        rw [List.cons_append] at hnext
        simp only [hnext, ite_self]

/-- No address has two dots: a quad brings three. -/
theorem not_isLiteral_of_count_dot (h : cs.count '.' = 2) : isLiteral cs = false := by
  rw [Bool.eq_false_iff]
  intro hliteral
  rcases isGrouped_or_endsInQuad hliteral with hgrouped | hends
  · have hnone := List.count_eq_zero.2 ((isGrouped_iff_notMem_dot hliteral).1 hgrouped)
    omega
  · have hcount := hends.count_dot
    omega

/-- Three octets are too long for one group. -/
theorem tooLong_octets {a b c : List Char} (hw : w.expecting = .address) (ha : Ipv4.IsOctet a)
    (hb : Ipv4.IsOctet b) (hc : Ipv4.IsOctet c) : TooLong w (a ++ '.' :: (b ++ '.' :: c)) := by
  have hlengths : 0 < a.length ∧ 0 < b.length ∧ 0 < c.length :=
    ⟨List.length_pos_iff.2 ha.ne_nil, List.length_pos_iff.2 hb.ne_nil,
      List.length_pos_iff.2 hc.ne_nil⟩
  have hnone : ∀ x : Char, x.isDigit = false → x ≠ '.' → x ∉ a ++ '.' :: (b ++ '.' :: c) := by
    intro x hx hdot hmem
    simp only [List.mem_append, List.mem_cons, hdot, ha.isRun.notMem hx, hb.isRun.notMem hx,
      hc.isRun.notMem hx, or_self] at hmem
  refine ⟨.inl hw, ?_, List.append_ne_nil_of_left_ne_nil ha.ne_nil _,
    hnone ':' (by decide) (by decide), hnone '/' (by decide) (by decide), ?_⟩
  · simp only [List.length_append, List.length_cons]
    omega
  · have hlast : (a ++ '.' :: (b ++ '.' :: c)).getLast? = some (c.getLast hc.ne_nil) := by
      rw [List.getLast?_append, List.getLast?_cons, List.getLast?_append, List.getLast?_cons,
        List.getLast?_eq_some_getLast hc.ne_nil]
      rfl
    rw [hlast]
    intro heq
    have hdigit := hc.isRun _ (List.getLast_mem hc.ne_nil)
    rw [Option.some.inj heq] at hdigit
    exact absurd hdigit (by decide)

/-- An address that ends in a dotted quad cannot be typed beyond the third octet. -/
theorem EndsInQuad.exists_noMatch (h : EndsInQuad IsGrouped cs) :
    ∃ cut behind, cs = cut ++ '.' :: behind ∧
      (∀ word : String, word.toList = cut → walk word = .noMatch) ∧
      ∀ (word : String) (more : List Char), (more = [] ∨ more.head? = some '.') →
        word.toList = cut ++ more → walkPrefix word = .noMatch := by
  obtain ⟨front, _, ⟨o₁, o₂, o₃, o₄, h₁, h₂, h₃, h₄, rfl⟩, hdot, rfl, hgroups⟩ := h
  obtain ⟨-, -, w, hstart, hread⟩ :=
    (hgroups o₁ o₁ (.of_isOctet h₁) (.of_isOctet h₁)).exists_readsOn
  obtain ⟨d, ds, rfl⟩ := List.exists_cons_of_ne_nil h₁.ne_nil
  have hdigit : d.isDigit = true := h₁.isRun d List.mem_cons_self
  have hcolon : d ≠ ':' := by
    rintro rfl
    exact absurd hdigit (by decide)
  obtain ⟨w', hready, -, hwalk⟩ := hread.exists_ready
  have hexpecting : w'.expecting = .address := by
    cases hready with
    | colon => exact absurd rfl hcolon
    | double => exact absurd rfl hcolon
    | address => rfl
  -- The walk is at the first digit of the quad, in the group that the quad then overfills.
  have hlong : TooLong w' (d :: ds ++ '.' :: (o₂ ++ '.' :: o₃)) :=
    tooLong_octets hexpecting h₁ h₂ h₃
  have hbegin : ∀ more, Walk.start? (front ++ d :: more) = some w := by
    intro more
    rw [Walk.start?_append_cons hcolon, ← hstart]
    exact (Walk.start?_append_cons hcolon front _).symm
  refine ⟨front ++ (d :: ds ++ '.' :: (o₂ ++ '.' :: o₃)), o₄, ?_, ?_, ?_⟩
  · simp only [List.append_assoc, List.cons_append]
  · intro word hword
    have hdots : word.toList.count '.' = 2 := by
      rw [hword]
      simp only [List.count_append, List.count_cons_self, List.count_eq_zero.2 hdot,
        count_dot_of_isOctet, h₁, h₂, h₃]
    have hend : walkFrom w word.toList = .noMatch := by
      rw [hword, List.cons_append, (hwalk _).1, ← List.cons_append]
      exact hlong.walkFrom_eq
    have hstart' : Walk.start? word.toList = some w := by
      rw [hword]
      exact hbegin _
    simp only [walk, not_isLiteral_of_count_dot hdots, hstart', hend, Bool.false_eq_true, if_false,
      ite_self]
  · intro word more hmore hword
    have hend : walkPrefixFrom w word.toList = .noMatch := by
      rw [hword, List.append_assoc, List.cons_append, List.cons_append, (hwalk _).2,
        ← List.cons_append, ← List.cons_append]
      exact hlong.walkPrefixFrom_eq hmore
    have hstart' : Walk.start? word.toList = some w := by
      rw [hword, List.append_assoc]
      exact hbegin _
    simp only [walkPrefix, hstart', hend, ite_self]

end Quad

/-- An address can be typed, and typed with any mask, if and only if it is written
    without a dotted quad. -/
theorem walks_typed_iff {address : String} (h : isLiteral address.toList = true) :
    ((∀ word : String, word.toList <+: address.toList → walk word ≠ .noMatch) ↔
        '.' ∉ address.toList) ∧
      ∀ mask : String, Ipv4.IsNumber 128 mask.toList →
        (walkPrefix (address ++ "/" ++ mask) = .exact ↔ '.' ∉ address.toList) ∧
          ((∀ word : String, word.toList <+: (address ++ "/" ++ mask).toList →
            walkPrefix word ≠ .noMatch) ↔ '.' ∉ address.toList) := by
  have hmasked : ∀ mask : String,
      (address ++ "/" ++ mask).toList = address.toList ++ '/' :: mask.toList := by
    intro mask
    simp
  rw [← isGrouped_iff_notMem_dot h]
  by_cases hgrouped : IsGrouped address.toList
  · simp only [hgrouped, iff_true]
    refine ⟨fun word hword => ?_, fun mask hmask => ⟨?_, fun word hword => ?_⟩⟩
    · rw [hgrouped.walk_eq_exact hword]
      exact Grade.noConfusion
    · exact hgrouped.walkPrefix_eq_exact hmask (hmasked mask)
    · rw [hmasked] at hword
      exact hgrouped.walkPrefix_ne_noMatch hmask hword
  · obtain ⟨cut, behind, hcut, hwalk, hwalkPrefix⟩ :=
      ((isGrouped_or_endsInQuad h).resolve_left hgrouped).exists_noMatch
    have hword : (String.ofList cut).toList = cut := String.toList_ofList
    simp only [hgrouped, iff_false]
    refine ⟨fun hall => ?_, fun mask hmask => ⟨fun hexact => ?_, fun hall => ?_⟩⟩
    · exact hall (.ofList cut) (by rw [hword, hcut]; exact List.prefix_append _ _) (hwalk _ hword)
    · have hno := hwalkPrefix (address ++ "/" ++ mask) ('.' :: (behind ++ '/' :: mask.toList))
        (.inr rfl) (by rw [hmasked, hcut, List.append_assoc, List.cons_append])
      rw [hno] at hexact
      cases hexact
    · refine hall (.ofList cut) ?_ (hwalkPrefix _ [] (.inl rfl) (by rw [hword, List.append_nil]))
      rw [hword, hmasked, hcut, List.append_assoc]
      exact List.prefix_append _ _

/-- Seven groups and `::` for the eighth, with a mask. -/
theorem walks_typed_iff_sevenGroups :
    isLiteral "1:2:3:4:5:6:7::".toList = true ∧ Ipv4.IsNumber 128 "64".toList ∧
      walkPrefix ("1:2:3:4:5:6:7::" ++ "/" ++ "64") = .exact ∧
      ∀ word : String, word.toList <+: ("1:2:3:4:5:6:7::" ++ "/" ++ "64").toList →
        walkPrefix word ≠ .noMatch := by
  have hliteral : isLiteral "1:2:3:4:5:6:7::".toList = true := by decide +kernel
  have hmask : Ipv4.IsNumber 128 "64".toList := ⟨by decide, by decide, by decide⟩
  have htyped := (walks_typed_iff hliteral).2 "64" hmask
  exact ⟨hliteral, hmask, htyped.1.2 (by decide), htyped.2.2 (by decide)⟩

/-- An address whose third octet cannot be typed, and that is accepted with no mask. -/
theorem not_forall_typed :
    isLiteral "::ffff:10.0.0.1".toList = true ∧ walk "::ffff:10.0.0" = .noMatch ∧
      walkPrefix "::ffff:10.0.0.1/96" = .noMatch ∧
      ¬ (∀ address word : String, isLiteral address.toList = true →
        word.toList <+: address.toList → walk word ≠ .noMatch) ∧
      ¬ ∀ address mask : String, isLiteral address.toList = true →
        Ipv4.IsNumber 128 mask.toList → walkPrefix (address ++ "/" ++ mask) = .exact := by
  have hliteral : isLiteral "::ffff:10.0.0.1".toList = true := by decide +kernel
  have hwalk : walk "::ffff:10.0.0" = .noMatch := by decide +kernel
  have hwalkPrefix : walkPrefix ("::ffff:10.0.0.1" ++ "/" ++ "96") = .noMatch := by decide +kernel
  refine ⟨hliteral, hwalk, hwalkPrefix, fun hall => ?_, fun hall => ?_⟩
  · exact hall "::ffff:10.0.0.1" "::ffff:10.0.0" hliteral (by decide) hwalk
  · have hexact := hall "::ffff:10.0.0.1" "96" hliteral ⟨by decide, by decide, by decide⟩
    rw [hwalkPrefix] at hexact
    cases hexact

end RouterCli.Ipv6
