import RouterCli.Address.Ipv6
import RouterCli.Proofs.Address.DottedQuad

/-!
  RouterCli.Proofs.Address.HexGroups

  The form of the IPv6 literals: eight groups of hexadecimal digits with single
  colons between them, or two rows of fewer with `::` between. Where a literal has
  a dot it ends in a dotted quad, and is of that form once the quad is written as
  two groups (`isGrouped_or_endsInQuad`).
-/

namespace RouterCli.Ipv6

open RouterCli.Text

-- ============================================================================
-- The form of an address
-- ============================================================================

/-- One to four hexadecimal digits. -/
structure IsGroup (g : List Char) : Prop where
  ne_nil : g ≠ []
  length_le : g.length ≤ 4
  isRun : IsRun isHexDigit g

/-- What stands in front of a group: a colon, if it is not the first. -/
def lead : Bool → List Char
  | true => []
  | false => [':']

/-- So many groups with single colons between them, and one in front if they are not
    the first. -/
inductive IsRow : Bool → Nat → List Char → Prop
  | nil {first : Bool} : IsRow first 0 []
  | cons {first : Bool} {n : Nat} {g cs : List Char} (group : IsGroup g) (row : IsRow false n cs) :
      IsRow first (n + 1) (lead first ++ (g ++ cs))

/-- An address without a dotted quad: eight groups, or two rows of fewer with `::`
    between them. -/
inductive IsGrouped : List Char → Prop
  | full {cs : List Char} (row : IsRow true 8 cs) : IsGrouped cs
  | short {m k : Nat} {head tail : List Char} (front : IsRow true m head) (back : IsRow true k tail)
      (few : m + k ≤ 7) : IsGrouped (head ++ ':' :: ':' :: tail)

/-- The text ends in a dotted quad, and has the form once two groups stand in the
    place of it. -/
def EndsInQuad (Form : List Char → Prop) (cs : List Char) : Prop :=
  ∃ front quad, Ipv4.IsQuad quad ∧ '.' ∉ front ∧ cs = front ++ quad ∧
    ∀ g g', IsGroup g → IsGroup g' → Form (front ++ (g ++ ':' :: g'))

theorem isHexDigit_of_isDigit {c : Char} (h : c.isDigit = true) : isHexDigit c = true := by
  rw [Char.isDigit, Bool.and_eq_true, decide_eq_true_eq, decide_eq_true_eq] at h
  have hle : '0'.toNat ≤ c.toNat ∧ c.toNat ≤ '9'.toNat := h
  rw [isHexDigit, hexValue?, if_pos hle]
  rfl

/-- Digits of an octet can stand where a group does. -/
theorem IsGroup.of_isOctet {ds : List Char} (h : Ipv4.IsOctet ds) : IsGroup ds :=
  ⟨h.ne_nil, Nat.le_succ_of_le h.length_le, fun c hc => isHexDigit_of_isDigit (h.isRun c hc)⟩

section Form

variable {Form Form' : List Char → Prop} {first : Bool} {n : Nat} {cs : List Char}

theorem EndsInQuad.append {ahead : List Char} (h : EndsInQuad Form cs) (hdot : '.' ∉ ahead)
    (hform : ∀ text, Form text → Form' (ahead ++ text)) : EndsInQuad Form' (ahead ++ cs) := by
  obtain ⟨front, quad, hquad, hfront, rfl, hgroups⟩ := h
  refine ⟨ahead ++ front, quad, hquad, ?_, (List.append_assoc ..).symm, fun g g' hg hg' => ?_⟩
  · exact fun hmem => (List.mem_append.1 hmem).elim hdot hfront
  · rw [List.append_assoc]
    exact hform _ (hgroups g g' hg hg')

theorem count_dot_of_isOctet {ds : List Char} (h : Ipv4.IsOctet ds) : ds.count '.' = 0 :=
  List.count_eq_zero.2 (h.isRun.notMem (by decide))

/-- Its dots are those of the quad. -/
theorem EndsInQuad.count_dot (h : EndsInQuad Form cs) : cs.count '.' = 3 := by
  obtain ⟨front, _, ⟨a, b, c, d, ha, hb, hc, hd, rfl⟩, hfront, rfl, -⟩ := h
  simp only [List.count_append, List.count_cons_self, List.count_eq_zero.2 hfront,
    count_dot_of_isOctet, ha, hb, hc, hd]

theorem isHexDigit_or_colon_of_mem_lead {c : Char} (h : c ∈ lead first) :
    isHexDigit c = true ∨ c = ':' := by
  cases first with
  | true => exact absurd h List.not_mem_nil
  | false => exact .inr (List.mem_singleton.1 h)

/-- A row is written in digits and colons. -/
theorem IsRow.isHexDigit_or_colon (h : IsRow first n cs) :
    ∀ c ∈ cs, isHexDigit c = true ∨ c = ':' := by
  induction h with
  | nil => exact fun c hc => absurd hc List.not_mem_nil
  | cons group row ih =>
    intro c hc
    rcases List.mem_append.1 hc with hc | hc
    · exact isHexDigit_or_colon_of_mem_lead hc
    · rcases List.mem_append.1 hc with hc | hc
      · exact .inl (group.isRun c hc)
      · exact ih c hc

/-- So is an address without a dotted quad. -/
theorem IsGrouped.isHexDigit_or_colon (h : IsGrouped cs) :
    ∀ c ∈ cs, isHexDigit c = true ∨ c = ':' := by
  cases h with
  | full row => exact row.isHexDigit_or_colon
  | short front back few =>
    intro c hc
    rcases List.mem_append.1 hc with hc | hc
    · exact front.isHexDigit_or_colon c hc
    · rcases List.mem_cons.1 hc with rfl | hc
      · exact .inr rfl
      · rcases List.mem_cons.1 hc with rfl | hc
        · exact .inr rfl
        · exact back.isHexDigit_or_colon c hc

theorem IsGrouped.notMem (h : IsGrouped cs) {c : Char} (hhex : isHexDigit c = false)
    (hcolon : c ≠ ':') : c ∉ cs := by
  intro hc
  rcases h.isHexDigit_or_colon c hc with hyes | hyes
  · rw [hhex] at hyes
    cases hyes
  · exact hcolon hyes

end Form

-- ============================================================================
-- What the reader takes
-- ============================================================================

section Reader

variable {first : Bool} {room : Nat} {cs rest : List Char}

theorem expect_eq_some {c : Char} (h : expect c cs = some rest) : cs = c :: rest := by
  cases cs with
  | nil => cases h
  | cons d cs =>
    rw [expect, Option.ite_none_right_eq_some] at h
    obtain ⟨rfl, heq⟩ := h
    rw [Option.some.inj heq]

theorem takeGroup_eq_some (h : takeGroup cs = some rest) :
    ∃ g, IsGroup g ∧ cs = g ++ rest := by
  rw [takeGroup, Option.ite_none_left_eq_some] at h
  obtain ⟨hlength, heq⟩ := h
  rw [Bool.or_eq_true, decide_eq_true_eq, decide_eq_true_eq, not_or] at hlength
  have hne : cs.takeWhile isHexDigit ≠ [] := fun hnil => hlength.1 (by rw [hnil]; rfl)
  refine ⟨_, ⟨hne, by omega, fun c hc => ?_⟩, ?_⟩
  · exact List.all_eq_true.1 List.all_takeWhile c hc
  · rw [← Option.some.inj heq, List.takeWhile_append_dropWhile]

theorem takeOctet_eq_some (h : takeOctet cs = some rest) :
    ∃ ds, Ipv4.IsOctet ds ∧ cs = ds ++ rest := by
  rw [takeOctet, Option.ite_none_left_eq_some, Option.ite_none_left_eq_some,
    Option.ite_none_left_eq_some] at h
  obtain ⟨hlength, -, hvalue, heq⟩ := h
  rw [Bool.or_eq_true, decide_eq_true_eq, decide_eq_true_eq, not_or] at hlength
  have hne : cs.takeWhile Char.isDigit ≠ [] := fun hnil => hlength.1 (by rw [hnil]; rfl)
  refine ⟨_, ⟨hne, by omega, fun c hc => ?_, by omega⟩, ?_⟩
  · exact List.all_eq_true.1 List.all_takeWhile c hc
  · rw [← Option.some.inj heq, List.takeWhile_append_dropWhile]

theorem takeQuad_eq_some (h : takeQuad cs = some rest) :
    ∃ quad, Ipv4.IsQuad quad ∧ cs = quad ++ rest := by
  have hnext : ∀ {cs rest : List Char}, (expect '.' cs >>= takeOctet) = some rest →
      ∃ ds, Ipv4.IsOctet ds ∧ cs = '.' :: (ds ++ rest) := by
    intro cs rest h
    obtain ⟨behind, hdot, hoctet⟩ := Option.bind_eq_some_iff.1 h
    obtain ⟨ds, hds, rfl⟩ := takeOctet_eq_some hoctet
    exact ⟨ds, hds, expect_eq_some hdot⟩
  obtain ⟨rest₁, h₁, h⟩ := Option.bind_eq_some_iff.1 h
  obtain ⟨rest₂, h₂, h⟩ := Option.bind_eq_some_iff.1 h
  obtain ⟨rest₃, h₃, h₄⟩ := Option.bind_eq_some_iff.1 h
  obtain ⟨a, ha, rfl⟩ := takeOctet_eq_some h₁
  obtain ⟨b, hb, rfl⟩ := hnext h₂
  obtain ⟨c, hc, rfl⟩ := hnext h₃
  obtain ⟨d, hd, rfl⟩ := hnext h₄
  refine ⟨_, ⟨a, b, c, d, ha, hb, hc, hd, rfl⟩, ?_⟩
  simp only [List.append_assoc, List.cons_append]

/-- What is read as a group stands behind what stands in front of one. -/
theorem eq_lead_append {take : List Char → Option (List Char)}
    (h : ((if first then some cs else expect ':' cs) >>= take) = some rest) :
    ∃ body, take body = some rest ∧ cs = lead first ++ body := by
  obtain ⟨body, hbody, htake⟩ := Option.bind_eq_some_iff.1 h
  refine ⟨body, htake, ?_⟩
  cases first with
  | true => exact Option.some.inj hbody
  | false => exact expect_eq_some hbody

/-- A row, or one that a dotted quad ends, is what is taken. -/
theorem takeGroups_spec (first : Bool) (room : Nat) (cs : List Char) :
    (takeGroups first room cs).count ≤ room ∧
      ∃ text, cs = text ++ (takeGroups first room cs).rest ∧
        (IsRow first (takeGroups first room cs).count text ∨
          (takeGroups first room cs).endsInQuad = true ∧
            EndsInQuad (IsRow first (takeGroups first room cs).count) text) := by
  have hlead : ∀ first, '.' ∉ lead first := by decide
  fun_induction takeGroups first room cs with
  | case1 first cs => exact ⟨Nat.le_refl 0, [], rfl, .inl .nil⟩
  | case2 first cs room body rest hquad =>
    rw [Option.ite_none_right_eq_some] at hquad
    obtain ⟨body, htake, rfl⟩ := eq_lead_append hquad.2
    obtain ⟨quad, hq, rfl⟩ := takeQuad_eq_some htake
    refine ⟨Nat.succ_le_succ hquad.1, lead first ++ quad, (List.append_assoc ..).symm,
      .inr ⟨rfl, lead first, quad, hq, hlead first, rfl, fun g g' hg hg' => ?_⟩⟩
    have hlast : IsRow false 1 (':' :: g') := by
      have hrow : IsRow false 1 (lead false ++ (g' ++ [])) := .cons hg' .nil
      rwa [List.append_nil] at hrow
    exact .cons hg hlast
  | case3 first cs room body hquad hgroup =>
    exact ⟨Nat.zero_le _, [], rfl, .inl .nil⟩
  | case4 first cs room body hquad rest hgroup more ih =>
    obtain ⟨body, htake, rfl⟩ := eq_lead_append hgroup
    obtain ⟨g, hg, rfl⟩ := takeGroup_eq_some htake
    obtain ⟨hle, text, htext, hrow⟩ := ih
    refine ⟨Nat.succ_le_succ hle, lead first ++ (g ++ text), ?_, ?_⟩
    · rw [List.append_assoc, List.append_assoc, ← htext]
    · rcases hrow with hrow | ⟨hends, hrow⟩
      · exact .inl (.cons hg hrow)
      · refine .inr ⟨hends, ?_⟩
        rw [← List.append_assoc]
        refine hrow.append ?_ fun text hrow => ?_
        · intro hmem
          exact (List.mem_append.1 hmem).elim (hlead first) (hg.isRun.notMem (by decide))
        · rw [List.append_assoc]
          exact .cons hg hrow

/-- A literal is an address without a dotted quad, or one that ends in a quad. -/
theorem isGrouped_or_endsInQuad (h : isLiteral cs = true) :
    IsGrouped cs ∨ EndsInQuad IsGrouped cs := by
  obtain ⟨hle, text, htext, hrow⟩ := takeGroups_spec true 8 cs
  rw [isLiteral] at h
  split_ifs at h with hfull hquad
  · rw [List.isEmpty_iff.1 h, List.append_nil] at htext
    rw [hfull] at hrow
    rw [htext]
    rcases hrow with hrow | ⟨-, hrow⟩
    · exact .inl (.full hrow)
    · obtain ⟨front, quad, hquad, hdot, heq, hgroups⟩ := hrow
      exact .inr ⟨front, quad, hquad, hdot, heq, fun g g' hg hg' => .full (hgroups g g' hg hg')⟩
  · cases hcolons : expect ':' (takeGroups true 8 cs).rest >>= expect ':' with
    | none => rw [hcolons] at h; cases h
    | some behind =>
      rw [hcolons] at h
      obtain ⟨rest, hfirst, hsecond⟩ := Option.bind_eq_some_iff.1 hcolons
      rw [expect_eq_some hfirst, expect_eq_some hsecond] at htext
      have hhead := hrow.resolve_right fun hends => hquad hends.1
      obtain ⟨htailLe, tail, htail, htailRow⟩ :=
        takeGroups_spec true (8 - ((takeGroups true 8 cs).count + 1)) behind
      rw [List.isEmpty_iff.1 h, List.append_nil] at htail
      rw [htext, htail]
      rcases htailRow with htailRow | ⟨-, htailRow⟩
      · exact .inl (.short hhead htailRow (by omega))
      · have hdot : '.' ∉ text ++ [':', ':'] := by
          intro hmem
          rcases List.mem_append.1 hmem with hmem | hmem
          · exact absurd (hhead.isHexDigit_or_colon _ hmem) (by decide)
          · exact absurd hmem (by decide)
        have hends : EndsInQuad IsGrouped ((text ++ [':', ':']) ++ tail) := by
          refine htailRow.append hdot fun text' hrow => ?_
          rw [List.append_assoc]
          exact .short hhead hrow (by omega)
        rw [List.append_assoc] at hends
        exact .inr hends

/-- A literal without a dot has no dotted quad in it. -/
theorem isGrouped_iff_notMem_dot (h : isLiteral cs = true) : IsGrouped cs ↔ '.' ∉ cs := by
  refine ⟨fun hgrouped => hgrouped.notMem (by decide) (by decide), fun hdot => ?_⟩
  refine (isGrouped_or_endsInQuad h).resolve_right fun hends => ?_
  have hcount := hends.count_dot
  rw [List.count_eq_zero.2 hdot] at hcount
  cases hcount

end Reader

end RouterCli.Ipv6
