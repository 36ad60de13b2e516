import Mathlib.Tactic.SplitIfs
import RouterCli.Address.Ipv4
import RouterCli.Proofs.Text.Runs

/-!
  RouterCli.Proofs.Address.DottedQuad

  The walks over IPv4 addresses against the form of such an address. A walk has
  read some octets with their dots and the digits of one more; what it says of the
  rest is what holds of the octets that are still to come (`Octets`), the one begun
  among them. Each character either ends that octet, or is one more digit of it, or
  ends the walk (`walkFrom_isGraded`, `walkPrefixFrom_isGraded`).

  Three kinds of words are misread: those that begin with a dot, those that end in a
  dot behind digits that make no octet, and, before a mask, those with a slash ahead
  of the third dot. None of them begins an address, and the walk says so only where
  something else in the word stops it (`walk_isGraded_iff`).
-/

namespace RouterCli.Ipv4

open RouterCli.Text

-- ============================================================================
-- The form of an address
-- ============================================================================

/-- One to three digits of value at most 255. -/
structure IsOctet (ds : List Char) : Prop where
  ne_nil : ds ≠ []
  length_le : ds.length ≤ 3
  isRun : IsRun Char.isDigit ds
  value_le : decimalValue ds ≤ 255

/-- Four octets with single dots between them. -/
def IsQuad (cs : List Char) : Prop :=
  ∃ a b c d, IsOctet a ∧ IsOctet b ∧ IsOctet c ∧ IsOctet d ∧
    cs = a ++ '.' :: (b ++ '.' :: (c ++ '.' :: d))

/-- A decimal number of at most `limit`. -/
structure IsNumber (limit : Nat) (ds : List Char) : Prop where
  ne_nil : ds ≠ []
  isRun : IsRun Char.isDigit ds
  value_le : decimalValue ds ≤ limit

theorem isNumber_iff_isMask {limit : Nat} {ds : List Char} (hne : ds ≠ []) :
    IsNumber limit ds ↔ isMask limit ds = true := by
  rw [isMask, Bool.and_eq_true, List.all_eq_true, decide_eq_true_eq]
  exact ⟨fun h => ⟨h.isRun, h.value_le⟩, fun h => ⟨hne, h.1, h.2⟩⟩

/-- The digits that a number begins with are no more than it. -/
theorem IsNumber.of_append {limit : Nat} {ds more : List Char} (h : IsNumber limit (ds ++ more))
    (hne : ds ≠ []) : IsNumber limit ds :=
  ⟨hne, h.isRun.of_prefix (List.prefix_append ds more),
    Nat.le_trans (decimalValue_le_append ds more) h.value_le⟩

/-- A dotted quad, a slash and the length of a mask. -/
def IsMaskedQuad (cs : List Char) : Prop :=
  ∃ quad mask, IsQuad quad ∧ IsNumber 32 mask ∧ cs = quad ++ '/' :: mask

/-- The grade of a word that is held against a form: `exact` for what has the form,
    `partly` for what is only the start of something that has it, and `noMatch` for
    the rest. -/
def IsGraded (Form : List Char → Prop) (word : List Char) : Grade → Prop
  | .exact => Form word
  | .partly => ¬ Form word ∧ ∃ more, Form (word ++ more)
  | .noMatch => ∀ more, ¬ Form (word ++ more)
  | _ => False

section Graded

variable {Form Form' : List Char → Prop} {word word' : List Char} {g : Grade}

/-- Words that become the same by the same characters have the same grades. -/
theorem IsGraded.congr (h : ∀ more, Form (word ++ more) ↔ Form' (word' ++ more)) :
    IsGraded Form word g ↔ IsGraded Form' word' g := by
  have hself : Form word ↔ Form' word' := by
    have hnil := h []
    rwa [List.append_nil, List.append_nil] at hnil
  cases g with
  | exact => exact hself
  | partly => exact and_congr (not_congr hself) (exists_congr h)
  | noMatch => exact forall_congr' fun more => not_congr (h more)
  | _ => exact Iff.rfl

/-- What begins nothing of the form has the one grade only. -/
theorem isGraded_iff_of_forall_not (h : ∀ more, ¬ Form (word ++ more)) :
    IsGraded Form word g ↔ g = .noMatch := by
  have hself : ¬ Form word := by
    have hnil := h []
    rwa [List.append_nil] at hnil
  cases g with
  | exact => simp [IsGraded, hself]
  | partly => simp [IsGraded, h]
  | noMatch => simp [IsGraded, h]
  | _ => simp [IsGraded]

end Graded

-- ============================================================================
-- Octets to come
-- ============================================================================

/-- An octet, so many more with a dot in front of each, and something of the form
    `Tail` behind them. -/
def Octets (Tail : List Char → Prop) : Nat → List Char → Prop
  | 0, cs => ∃ ds rest, IsOctet ds ∧ Tail rest ∧ cs = ds ++ rest
  | left + 1, cs => ∃ ds rest, IsOctet ds ∧ Octets Tail left rest ∧ cs = ds ++ '.' :: rest

/-- What may stand behind an address: nothing, or a slash and more. -/
def IsTail (Tail : List Char → Prop) : Prop :=
  ∀ rest, Tail rest → rest = [] ∨ ∃ more, rest = '/' :: more ∧ '.' ∉ more

/-- The mask behind an address. -/
def IsMaskTail (rest : List Char) : Prop :=
  ∃ mask, IsNumber 32 mask ∧ rest = '/' :: mask

theorem isTail_nil : IsTail (· = []) :=
  fun _ h => .inl h

theorem isTail_mask : IsTail IsMaskTail := by
  rintro rest ⟨mask, hmask, rfl⟩
  exact .inr ⟨mask, rfl, hmask.isRun.notMem (by decide)⟩

theorem isQuad_iff_octets {cs : List Char} : IsQuad cs ↔ Octets (· = []) 3 cs := by
  constructor
  · rintro ⟨a, b, c, d, ha, hb, hc, hd, rfl⟩
    have hlast : Octets (· = []) 0 d := ⟨d, [], hd, rfl, (List.append_nil d).symm⟩
    exact ⟨a, _, ha, ⟨b, _, hb, ⟨c, _, hc, hlast, rfl⟩, rfl⟩, rfl⟩
  · rintro ⟨a, _, ha, ⟨b, _, hb, ⟨c, _, hc, ⟨d, _, hd, rfl, rfl⟩, rfl⟩, rfl⟩, rfl⟩
    exact ⟨a, b, c, d, ha, hb, hc, hd, by rw [List.append_nil]⟩

theorem isMaskedQuad_iff_octets {cs : List Char} : IsMaskedQuad cs ↔ Octets IsMaskTail 3 cs := by
  constructor
  · rintro ⟨_, mask, ⟨a, b, c, d, ha, hb, hc, hd, rfl⟩, hmask, rfl⟩
    have hlast : Octets IsMaskTail 0 (d ++ '/' :: mask) := ⟨d, _, hd, ⟨mask, hmask, rfl⟩, rfl⟩
    refine ⟨a, _, ha, ⟨b, _, hb, ⟨c, _, hc, hlast, rfl⟩, rfl⟩, ?_⟩
    simp only [List.append_assoc, List.cons_append]
  · rintro ⟨a, _, ha, ⟨b, _, hb, ⟨c, _, hc, ⟨d, _, hd, ⟨mask, hmask, rfl⟩, rfl⟩, rfl⟩, rfl⟩, rfl⟩
    refine ⟨_, mask, ⟨a, b, c, d, ha, hb, hc, hd, rfl⟩, hmask, ?_⟩
    simp only [List.append_assoc, List.cons_append]

section Octets

variable {Tail : List Char → Prop} {left : Nat} {ds cs rest : List Char}

theorem IsTail.stops (hT : IsTail Tail) (h : Tail rest) : Stops Char.isDigit rest := by
  rcases hT rest h with rfl | ⟨more, rfl, -⟩
  · exact stops_nil
  · exact stops_cons (by decide)

/-- The first octet is all the digits there are. -/
theorem Octets.exists_octet (hT : IsTail Tail) (h : Octets Tail left cs) :
    ∃ o rest, IsOctet o ∧ Stops Char.isDigit rest ∧ cs = o ++ rest := by
  cases left with
  | zero =>
    obtain ⟨o, rest, ho, hrest, rfl⟩ := h
    exact ⟨o, rest, ho, hT.stops hrest, rfl⟩
  | succ left =>
    obtain ⟨o, rest, ho, -, rfl⟩ := h
    exact ⟨o, '.' :: rest, ho, stops_cons (by decide), rfl⟩

theorem Octets.ne_nil (hT : IsTail Tail) (h : Octets Tail left cs) : cs ≠ [] := by
  obtain ⟨o, rest, ho, -, rfl⟩ := h.exists_octet hT
  exact List.append_ne_nil_of_left_ne_nil ho.ne_nil rest

/-- An address begins with a digit. -/
theorem Octets.isDigit_head (hT : IsTail Tail) {c : Char} (h : Octets Tail left (c :: cs)) :
    c.isDigit = true := by
  obtain ⟨o, rest, ho, -, heq⟩ := h.exists_octet hT
  obtain ⟨d, o', rfl⟩ := List.exists_cons_of_ne_nil ho.ne_nil
  obtain ⟨rfl, -⟩ := List.cons.inj heq
  exact ho.isRun c List.mem_cons_self

/-- Behind the digits of an octet comes a dot and another octet, or the tail. -/
theorem octets_succ_iff (hds : IsRun Char.isDigit ds) {c : Char} (hc : c.isDigit = false) :
    Octets Tail (left + 1) (ds ++ c :: rest) ↔ IsOctet ds ∧ c = '.' ∧ Octets Tail left rest := by
  constructor
  · rintro ⟨o, rest', ho, hrest', heq⟩
    obtain ⟨rfl, htail⟩ := isRun_append_inj hds ho.isRun (stops_cons hc)
      (stops_cons (by decide)) heq
    obtain ⟨rfl, rfl⟩ := List.cons.inj htail
    exact ⟨ho, rfl, hrest'⟩
  · rintro ⟨ho, rfl, hrest⟩
    exact ⟨ds, rest, ho, hrest, rfl⟩

theorem octets_zero_iff (hT : IsTail Tail) (hds : IsRun Char.isDigit ds)
    (hrest : Stops Char.isDigit rest) : Octets Tail 0 (ds ++ rest) ↔ IsOctet ds ∧ Tail rest := by
  constructor
  · rintro ⟨o, rest', ho, hrest', heq⟩
    obtain ⟨rfl, rfl⟩ := isRun_append_inj hds ho.isRun hrest (hT.stops hrest') heq
    exact ⟨ho, hrest'⟩
  · rintro ⟨ho, hrest⟩
    exact ⟨ds, rest, ho, hrest, rfl⟩

/-- Digits alone are no two octets. -/
theorem not_octets_succ_of_isRun (hds : IsRun Char.isDigit ds) : ¬ Octets Tail (left + 1) ds := by
  rintro ⟨o, rest, -, -, rfl⟩
  exact hds.notMem (by decide) (List.mem_append_right o List.mem_cons_self)

/-- Nothing but a digit, a dot and what begins the tail stands in an address. -/
theorem not_octets_of_ne (hT : IsTail Tail) (hds : IsRun Char.isDigit ds) {c : Char}
    (hc : c.isDigit = false) (hdot : c ≠ '.') (htail : ¬ Tail (c :: rest)) :
    ¬ Octets Tail left (ds ++ c :: rest) := by
  cases left with
  | zero =>
    rw [octets_zero_iff hT hds (stops_cons hc)]
    exact fun h => htail h.2
  | succ left =>
    rw [octets_succ_iff hds hc]
    exact fun h => hdot h.2.1

-- ============================================================================
-- The digits read
-- ============================================================================

/-- The group of the digits read. -/
def Group.ofDigits (ds : List Char) : Group :=
  ⟨ds.length, decimalValue ds⟩

theorem Group.push_ofDigits (ds : List Char) (c : Char) :
    (Group.ofDigits ds).push c = Group.ofDigits (ds ++ [c]) := by
  rw [Group.ofDigits, Group.ofDigits, decimalValue_concat, List.length_append]
  rfl

theorem Group.fits_ofDigits {ds : List Char} :
    (Group.ofDigits ds).fits = true ↔ ds.length ≤ 3 ∧ decimalValue ds ≤ 255 := by
  rw [Group.fits, Bool.and_eq_true, decide_eq_true_eq, decide_eq_true_eq]
  exact Iff.rfl

theorem isOctet_iff_fits (hne : ds ≠ []) (hds : IsRun Char.isDigit ds) :
    IsOctet ds ↔ (Group.ofDigits ds).fits = true := by
  rw [Group.fits_ofDigits]
  exact ⟨fun h => ⟨h.length_le, h.value_le⟩, fun h => ⟨hne, h.1, hds, h.2⟩⟩

/-- Digits that begin an address are few enough for an octet. -/
theorem Octets.fits (hT : IsTail Tail) (hds : IsRun Char.isDigit ds)
    (h : Octets Tail left (ds ++ cs)) : (Group.ofDigits ds).fits = true := by
  obtain ⟨o, rest, ho, hrest, heq⟩ := h.exists_octet hT
  have hprefix : ds <+: o := by
    rw [← takeWhile_of_stops ho.isRun hrest, ← heq]
    exact hds.prefix_takeWhile cs
  obtain ⟨more, rfl⟩ := hprefix
  have hlength := ho.length_le
  have hvalue := ho.value_le
  have hle := decimalValue_le_append ds more
  rw [List.length_append] at hlength
  rw [Group.fits_ofDigits]
  omega

/-- So are digits in front of a dot, wherever they stand. -/
theorem Octets.fits_of_dot (hT : IsTail Tail) {front : List Char} (hds : IsRun Char.isDigit ds)
    (h : Octets Tail left (front ++ ds ++ '.' :: cs)) : (Group.ofDigits ds).fits = true := by
  have hdot : ∀ {digits : List Char}, IsRun Char.isDigit digits → '.' ∉ digits :=
    fun hdigits => hdigits.notMem (by decide)
  induction left generalizing front with
  | zero =>
    obtain ⟨o, rest, ho, hrest, heq⟩ := h
    have hmem : '.' ∈ o ++ rest := by
      rw [← heq]
      exact List.mem_append_right _ List.mem_cons_self
    rcases List.mem_append.1 hmem with hmem | hmem
    · exact absurd hmem (hdot ho.isRun)
    · rcases hT rest hrest with rfl | ⟨more, rfl, hmore⟩
      · cases hmem
      · exact absurd (List.mem_of_ne_of_mem (by decide) hmem) hmore
  | succ left ih =>
    obtain ⟨o, rest, ho, hrest, heq⟩ := h
    rcases append_cons_cases (hdot ho.isRun) heq.symm with
      ⟨rfl, -, -⟩ | ⟨between, hfront, rfl⟩
    · -- The digits end the first octet.
      have hlength := ho.length_le
      have hvalue := ho.value_le
      have hle := decimalValue_le_append_right front ds
      rw [List.length_append] at hlength
      rw [Group.fits_ofDigits]
      omega
    · -- They stand behind its dot.
      rcases List.append_eq_append_iff.1 hfront with ⟨as, -, has⟩ | ⟨bs, -, hbs⟩
      · have hmem : '.' ∈ ds := has ▸ List.mem_append_right _ List.mem_cons_self
        exact absurd hmem (hdot hds)
      · cases bs with
        | nil =>
          have hmem : '.' ∈ ds := by
            rw [List.nil_append] at hbs
            rw [← hbs]
            exact List.mem_cons_self
          exact absurd hmem (hdot hds)
        | cons b bs =>
          obtain ⟨-, rfl⟩ := List.cons.inj hbs
          exact ih hrest

/-- A slash stands behind all the dots. -/
theorem Octets.le_count_of_slash {front : List Char}
    (h : Octets Tail left (front ++ '/' :: cs)) : left ≤ front.count '.' := by
  induction left generalizing front with
  | zero => exact Nat.zero_le _
  | succ left ih =>
    obtain ⟨o, rest, ho, hrest, heq⟩ := h
    rcases append_cons_cases (ho.isRun.notMem (by decide)) heq.symm with
      ⟨-, hslash, -⟩ | ⟨between, rfl, rfl⟩
    · exact absurd hslash (by decide)
    · have hbetween := ih hrest
      rw [List.count_append, List.count_cons_self]
      omega

theorem exists_octets (left : Nat) (htail : Tail rest) : ∃ more, Octets Tail left more := by
  have hzero : IsOctet ['0'] := ⟨by decide, by decide, by decide, by decide⟩
  induction left with
  | zero => exact ⟨'0' :: rest, ['0'], rest, hzero, htail, rfl⟩
  | succ left ih =>
    obtain ⟨more, hmore⟩ := ih
    exact ⟨'0' :: '.' :: more, ['0'], more, hzero, hmore, rfl⟩

/-- Digits few enough for an octet begin an address. -/
theorem exists_octets_of_fits (hds : IsRun Char.isDigit ds) (htail : Tail rest)
    (h : (Group.ofDigits ds).fits = true) : ∃ more, Octets Tail left (ds ++ more) := by
  by_cases hne : ds = []
  · subst hne
    exact exists_octets left htail
  · have ho := (isOctet_iff_fits hne hds).2 h
    cases left with
    | zero => exact ⟨rest, ds, rest, ho, htail, rfl⟩
    | succ left =>
      obtain ⟨more, hmore⟩ := exists_octets left htail
      exact ⟨'.' :: more, ds, more, ho, hmore, rfl⟩

-- ============================================================================
-- One character
-- ============================================================================

/-- Too many digits begin no address. -/
theorem isGraded_noMatch_of_not_fits (hT : IsTail Tail) (hds : IsRun Char.isDigit ds)
    (h : (Group.ofDigits ds).fits = false) : IsGraded (Octets Tail left) (ds ++ cs) .noMatch := by
  intro more hmore
  rw [List.append_assoc] at hmore
  exact absurd (hmore.fits hT hds) (by simp [h])

/-- There is no dot behind the last octet. -/
theorem isGraded_noMatch_of_last_dot (hT : IsTail Tail) (hds : IsRun Char.isDigit ds) :
    IsGraded (Octets Tail 0) (ds ++ '.' :: rest) .noMatch := by
  intro more hmore
  rw [List.append_assoc, List.cons_append, octets_zero_iff hT hds (stops_cons (by decide))] at hmore
  rcases hT _ hmore.2 with hnil | ⟨_, hcons, -⟩
  · cases hnil
  · exact absurd (List.cons.inj hcons).1 (by decide)

/-- A dot has a digit behind it. -/
theorem isGraded_noMatch_of_dot_cons (hT : IsTail Tail) (hds : IsRun Char.isDigit ds) {c : Char}
    (hc : c.isDigit = false) :
    IsGraded (Octets Tail (left + 1)) (ds ++ '.' :: c :: rest) .noMatch := by
  intro more hmore
  rw [List.append_assoc] at hmore
  have hrest := ((octets_succ_iff hds (by decide)).1 hmore).2.2
  exact absurd (hrest.isDigit_head hT) (by simp [hc])

/-- Nothing but digits, dots and what begins the tail stands in an address. -/
theorem isGraded_noMatch_of_ne (hT : IsTail Tail) (hds : IsRun Char.isDigit ds) {c : Char}
    (hc : c.isDigit = false) (hdot : c ≠ '.') (htail : ∀ more, ¬ Tail (c :: more)) :
    IsGraded (Octets Tail left) (ds ++ c :: rest) .noMatch := by
  intro more hmore
  rw [List.append_assoc] at hmore
  exact not_octets_of_ne hT hds hc hdot (htail _) hmore

/-- The word ends in the dot behind an octet. -/
theorem isGraded_partly_of_dot (hT : IsTail Tail) (ho : IsOctet ds) (htail : Tail rest) :
    IsGraded (Octets Tail (left + 1)) (ds ++ ['.']) .partly := by
  constructor
  · intro h
    have hnil := ((octets_succ_iff ho.isRun (by decide)).1 h).2.2
    exact hnil.ne_nil hT rfl
  · obtain ⟨more, hmore⟩ := exists_octets left htail
    exact ⟨more, ds, more, ho, hmore, by simp⟩

/-- Behind an octet and its dot the walk is over one octet less. -/
theorem isGraded_dot_iff (ho : IsOctet ds) {g : Grade} :
    IsGraded (Octets Tail (left + 1)) (ds ++ '.' :: rest) g ↔
      IsGraded (Octets Tail left) rest g := by
  refine IsGraded.congr fun more => ?_
  rw [List.append_assoc, List.cons_append, octets_succ_iff ho.isRun (by decide)]
  exact ⟨fun h => h.2.2, fun h => ⟨ho, rfl, h⟩⟩

/-- Behind the last octet and a slash comes the number of a mask. -/
theorem octets_slash_iff (hds : IsRun Char.isDigit ds) :
    Octets IsMaskTail 0 (ds ++ '/' :: rest) ↔ IsOctet ds ∧ IsNumber 32 rest := by
  rw [octets_zero_iff isTail_mask hds (stops_cons (by decide))]
  constructor
  · rintro ⟨ho, mask, hmask, heq⟩
    obtain ⟨-, rfl⟩ := List.cons.inj heq
    exact ⟨ho, hmask⟩
  · rintro ⟨ho, hmask⟩
    exact ⟨ho, rest, hmask, rfl⟩

/-- There the walk is over that number alone. -/
theorem isGraded_slash_iff (ho : IsOctet ds) {g : Grade} :
    IsGraded (Octets IsMaskTail 0) (ds ++ '/' :: rest) g ↔ IsGraded (IsNumber 32) rest g := by
  refine IsGraded.congr fun more => ?_
  rw [List.append_assoc, List.cons_append, octets_slash_iff ho.isRun]
  exact and_iff_right ho

end Octets

/-- Nothing yet is the start of a number. -/
theorem isGraded_partly_nil_number (limit : Nat) : IsGraded (IsNumber limit) [] .partly :=
  ⟨fun h => h.ne_nil rfl, ['0'], by decide, by decide, Nat.zero_le limit⟩

/-- What is no number begins none. -/
theorem isGraded_noMatch_of_not_isMask {limit : Nat} {ds : List Char} (hne : ds ≠ [])
    (h : isMask limit ds ≠ true) : IsGraded (IsNumber limit) ds .noMatch :=
  fun _ hnumber => h ((isNumber_iff_isMask hne).1 (hnumber.of_append hne))

-- ============================================================================
-- Words that are misread
-- ============================================================================

/-- The word ends in a dot behind digits that make no octet. -/
def EndsBeyondOctet (cs : List Char) : Prop :=
  ∃ front ds, IsRun Char.isDigit ds ∧ (3 < ds.length ∨ 255 < decimalValue ds) ∧
    cs = front ++ ds ++ ['.']

/-- The word begins with a dot, or ends in one behind digits that make no octet. -/
def IsMisread (cs : List Char) : Prop :=
  cs.head? = some '.' ∨ EndsBeyondOctet cs

/-- There is a slash ahead of the third dot. -/
def HasEarlySlash (cs : List Char) : Prop :=
  ∃ front rest, cs = front ++ '/' :: rest ∧ front.count '.' < 3

theorem EndsBeyondOctet.behind_dot {rest : List Char} (h : EndsBeyondOctet rest)
    (ahead : List Char) : EndsBeyondOctet (ahead ++ '.' :: rest) := by
  obtain ⟨front, ds, hds, hbeyond, rfl⟩ := h
  refine ⟨ahead ++ '.' :: front, ds, hds, hbeyond, ?_⟩
  simp only [List.append_assoc, List.cons_append]

theorem fits_of_not_endsBeyondOctet {ds : List Char} (hds : IsRun Char.isDigit ds)
    (h : ¬ EndsBeyondOctet (ds ++ ['.'])) : (Group.ofDigits ds).fits = true := by
  rw [Group.fits_ofDigits]
  have hall : ¬ (3 < ds.length ∨ 255 < decimalValue ds) :=
    fun hbeyond => h ⟨[], ds, hds, hbeyond, rfl⟩
  omega

/-- A misread word begins no address. -/
theorem IsMisread.not_octets {Tail : List Char → Prop} (hT : IsTail Tail) {left : Nat}
    {cs : List Char} (h : IsMisread cs) (more : List Char) : ¬ Octets Tail left (cs ++ more) := by
  intro hmore
  rcases h with hdot | ⟨front, ds, hds, hbeyond, rfl⟩
  · obtain ⟨rest, rfl⟩ := List.head?_eq_some_iff.1 hdot
    exact absurd (hmore.isDigit_head hT) (by decide)
  · rw [List.append_assoc, List.singleton_append] at hmore
    have hfits := hmore.fits_of_dot hT hds
    rw [Group.fits_ofDigits] at hfits
    omega

/-- Neither does a word with a slash ahead of its third dot. -/
theorem HasEarlySlash.not_octets {Tail : List Char → Prop} {cs : List Char}
    (h : HasEarlySlash cs) (more : List Char) : ¬ Octets Tail 3 (cs ++ more) := by
  intro hmore
  obtain ⟨front, rest, rfl, hfew⟩ := h
  rw [List.append_assoc, List.cons_append] at hmore
  have hcount := hmore.le_count_of_slash
  omega

-- ============================================================================
-- The walks
-- ============================================================================

/-- What the walk says of the rest of an address is right, if the word is not
    misread. -/
theorem walkFrom_isGraded {dots : Nat} {group : Group} {cs ds : List Char} (left : Nat)
    (hsum : dots + left = 3) (hgroup : group = .ofDigits ds) (hds : IsRun Char.isDigit ds)
    (hlast : left = 0 → ds ++ cs ≠ []) (hlead : ds ≠ [] ∨ cs.head? ≠ some '.')
    (hend : ¬ EndsBeyondOctet (ds ++ cs)) :
    IsGraded (Octets (· = []) left) (ds ++ cs) (walkFrom dots group cs) := by
  have hT := isTail_nil
  fun_induction walkFrom dots group cs generalizing left ds with
  | case1 dots group hunfit =>
    subst hgroup
    exact isGraded_noMatch_of_not_fits hT hds (by simpa using hunfit)
  | case2 dots group hfits hdots =>
    subst hgroup
    obtain ⟨left, rfl⟩ : ∃ n, left = n + 1 := ⟨left - 1, by omega⟩
    rw [List.append_nil]
    exact ⟨not_octets_succ_of_isRun hds, exists_octets_of_fits hds rfl (by simpa using hfits)⟩
  | case3 dots group hfits hdots =>
    subst hgroup
    obtain rfl : left = 0 := by omega
    rw [List.append_nil] at hlast ⊢
    have ho := (isOctet_iff_fits (hlast rfl) hds).2 (by simpa using hfits)
    exact ⟨ds, [], ho, rfl, (List.append_nil ds).symm⟩
  | case4 dots group rest hstop =>
    cases left with
    | zero => exact isGraded_noMatch_of_last_dot hT hds
    | succ left =>
      have hdot : rest.head? = some '.' := by
        rw [Bool.or_eq_true, decide_eq_true_eq, beq_iff_eq] at hstop
        exact hstop.resolve_left (by omega)
      obtain ⟨more, rfl⟩ := List.head?_eq_some_iff.1 hdot
      exact isGraded_noMatch_of_dot_cons hT hds (by decide)
  | case5 dots group rest hstop hempty =>
    -- A dot at the end is answered before its octet is looked at.
    subst hgroup
    obtain rfl := List.isEmpty_iff.1 hempty
    rw [Bool.or_eq_true, decide_eq_true_eq, not_or] at hstop
    obtain ⟨left, rfl⟩ : ∃ n, left = n + 1 := ⟨left - 1, by omega⟩
    have hne : ds ≠ [] := hlead.resolve_right (by simp)
    have ho := (isOctet_iff_fits hne hds).2 (fits_of_not_endsBeyondOctet hds hend)
    exact isGraded_partly_of_dot hT ho rfl
  | case6 dots group rest hstop hempty hfits ih =>
    subst hgroup
    rw [Bool.or_eq_true, decide_eq_true_eq, beq_iff_eq, not_or] at hstop
    obtain ⟨left, rfl⟩ : ∃ n, left = n + 1 := ⟨left - 1, by omega⟩
    have hne : ds ≠ [] := hlead.resolve_right (by simp)
    have ho := (isOctet_iff_fits hne hds).2 hfits
    refine (isGraded_dot_iff ho).2 (ih left (by omega) rfl isRun_nil ?_ (.inr hstop.2) ?_)
    · intro _ hnil
      exact hempty (List.isEmpty_iff.2 hnil)
    · intro hrest
      exact hend (hrest.behind_dot ds)
  | case7 dots group rest hstop hempty hunfit =>
    subst hgroup
    exact isGraded_noMatch_of_not_fits hT hds (by simpa using hunfit)
  | case8 dots group c rest hdot hdigit ih =>
    subst hgroup
    rw [List.append_cons] at hlast hend ⊢
    refine ih left hsum (Group.push_ofDigits ds c) (hds.concat hdigit) hlast ?_ hend
    exact .inl (List.append_ne_nil_of_right_ne_nil ds (List.cons_ne_nil c []))
  | case9 dots group c rest hdot hdigit =>
    have hc : c.isDigit = false := by simpa using hdigit
    exact isGraded_noMatch_of_ne hT hds hc hdot fun more => List.cons_ne_nil c more

/-- So is what the walk towards a mask says, if there is no slash ahead of the third
    dot. -/
theorem walkPrefixFrom_isGraded {dots : Nat} {group : Group} {cs ds : List Char} (left : Nat)
    (hsum : dots + left = 3) (hgroup : group = .ofDigits ds) (hds : IsRun Char.isDigit ds)
    (hlead : ds ≠ [] ∨ cs.head? ≠ some '.' ∧ cs.head? ≠ some '/')
    (hend : ¬ EndsBeyondOctet (ds ++ cs))
    (hslash : ∀ front rest, cs = front ++ '/' :: rest → left ≤ front.count '.') :
    IsGraded (Octets IsMaskTail left) (ds ++ cs) (walkPrefixFrom dots group cs) := by
  have hT := isTail_mask
  have hsome : IsMaskTail ['/', '0'] := ⟨['0'], ⟨by decide, by decide, by decide⟩, rfl⟩
  fun_induction walkPrefixFrom dots group cs generalizing left ds with
  | case1 dots group hfits =>
    subst hgroup
    rw [List.append_nil]
    refine ⟨?_, exists_octets_of_fits hds hsome hfits⟩
    cases left with
    | zero =>
      rintro ⟨o, _, -, ⟨mask, -, rfl⟩, rfl⟩
      exact hds.notMem (by decide) (List.mem_append_right o List.mem_cons_self)
    | succ left => exact not_octets_succ_of_isRun hds
  | case2 dots group hunfit =>
    subst hgroup
    exact isGraded_noMatch_of_not_fits hT hds (by simpa using hunfit)
  | case3 dots group rest hunfit =>
    subst hgroup
    exact isGraded_noMatch_of_not_fits hT hds (by simpa using hunfit)
  | case4 dots group rest hfits hdots ih =>
    -- The walk passes a slash that comes too early as if it were not there.
    have hfew : left ≤ 0 := hslash [] rest rfl
    omega
  | case5 dots group rest hfits hdots hempty =>
    subst hgroup
    obtain rfl := List.isEmpty_iff.1 hempty
    obtain rfl : left = 0 := by omega
    have ho := (isOctet_iff_fits (hlead.resolve_right (by simp)) hds).2 (by simpa using hfits)
    exact (isGraded_slash_iff ho).2 (isGraded_partly_nil_number 32)
  | case6 dots group rest hfits hdots hempty hmask =>
    subst hgroup
    obtain rfl : left = 0 := by omega
    have ho := (isOctet_iff_fits (hlead.resolve_right (by simp)) hds).2 (by simpa using hfits)
    have hne : rest ≠ [] := fun hnil => hempty (List.isEmpty_iff.2 hnil)
    exact (isGraded_slash_iff ho).2 ((isNumber_iff_isMask hne).2 hmask)
  | case7 dots group rest hfits hdots hempty hmask =>
    subst hgroup
    obtain rfl : left = 0 := by omega
    have ho := (isOctet_iff_fits (hlead.resolve_right (by simp)) hds).2 (by simpa using hfits)
    have hne : rest ≠ [] := fun hnil => hempty (List.isEmpty_iff.2 hnil)
    exact (isGraded_slash_iff ho).2 (isGraded_noMatch_of_not_isMask hne hmask)
  | case8 dots group rest hstop =>
    cases left with
    | zero => exact isGraded_noMatch_of_last_dot hT hds
    | succ left =>
      have hhead : ∃ c more, rest = c :: more ∧ c.isDigit = false := by
        rw [Bool.or_eq_true, Bool.or_eq_true, decide_eq_true_eq, beq_iff_eq, beq_iff_eq,
          List.head?_eq_some_iff, List.head?_eq_some_iff] at hstop
        rcases hstop with (hdots | ⟨more, rfl⟩) | ⟨more, rfl⟩
        · omega
        · exact ⟨'.', more, rfl, by decide⟩
        · exact ⟨'/', more, rfl, by decide⟩
      obtain ⟨c, more, rfl, hc⟩ := hhead
      exact isGraded_noMatch_of_dot_cons hT hds hc
  | case9 dots group rest hstop hempty =>
    subst hgroup
    obtain rfl := List.isEmpty_iff.1 hempty
    rw [Bool.or_eq_true, Bool.or_eq_true, decide_eq_true_eq, not_or, not_or] at hstop
    obtain ⟨left, rfl⟩ : ∃ n, left = n + 1 := ⟨left - 1, by omega⟩
    have hne : ds ≠ [] := hlead.resolve_right (by simp)
    have ho := (isOctet_iff_fits hne hds).2 (fits_of_not_endsBeyondOctet hds hend)
    exact isGraded_partly_of_dot hT ho hsome
  | case10 dots group rest hstop hempty hfits ih =>
    subst hgroup
    rw [Bool.or_eq_true, Bool.or_eq_true, decide_eq_true_eq, beq_iff_eq, beq_iff_eq, not_or,
      not_or] at hstop
    obtain ⟨left, rfl⟩ : ∃ n, left = n + 1 := ⟨left - 1, by omega⟩
    have hne : ds ≠ [] := hlead.resolve_right (by simp)
    have ho := (isOctet_iff_fits hne hds).2 hfits
    refine (isGraded_dot_iff ho).2
      (ih left (by omega) rfl isRun_nil (.inr ⟨hstop.1.2, hstop.2⟩) ?_ ?_)
    · intro hrest
      exact hend (hrest.behind_dot ds)
    · rintro front more rfl
      have hcount := hslash ('.' :: front) more rfl
      rw [List.count_cons_self] at hcount
      omega
  | case11 dots group rest hstop hempty hunfit =>
    subst hgroup
    exact isGraded_noMatch_of_not_fits hT hds (by simpa using hunfit)
  | case12 dots group c rest hnoslash hdot hdigit ih =>
    subst hgroup
    rw [List.append_cons] at hend ⊢
    refine ih left hsum (Group.push_ofDigits ds c) (hds.concat hdigit) ?_ hend ?_
    · exact .inl (List.append_ne_nil_of_right_ne_nil ds (List.cons_ne_nil c []))
    · rintro front more rfl
      have hcount := hslash (c :: front) more rfl
      rwa [List.count_cons_of_ne hdot] at hcount
  | case13 dots group c rest hnoslash hdot hdigit =>
    have hc : c.isDigit = false := by simpa using hdigit
    refine isGraded_noMatch_of_ne hT hds hc hdot fun more htail => ?_
    obtain ⟨mask, -, heq⟩ := htail
    exact hnoslash (List.cons.inj heq).1

/-- Both walks grade a word by the form of an address if and only if they find that
    it begins none, or it is not misread and, before a mask, has no slash ahead of
    its third dot. -/
theorem walk_isGraded_iff (word : String) :
    (IsGraded IsQuad word.toList (walk word) ↔
        walk word = .noMatch ∨ ¬ IsMisread word.toList) ∧
      (IsGraded IsMaskedQuad word.toList (walkPrefix word) ↔
        walkPrefix word = .noMatch ∨ ¬ (IsMisread word.toList ∨ HasEarlySlash word.toList)) := by
  have hquad : IsQuad = Octets (· = []) 3 := funext fun cs => propext isQuad_iff_octets
  have hmasked : IsMaskedQuad = Octets IsMaskTail 3 :=
    funext fun cs => propext isMaskedQuad_iff_octets
  rw [hquad, hmasked]
  constructor
  · by_cases hmisread : IsMisread word.toList
    · rw [isGraded_iff_of_forall_not (hmisread.not_octets isTail_nil)]
      simp [hmisread]
    · have hlead : word.toList.head? ≠ some '.' := fun hdot => hmisread (.inl hdot)
      have hgraded : IsGraded (Octets (· = []) 3) word.toList (walk word) :=
        walkFrom_isGraded 3 rfl rfl isRun_nil (fun h => absurd h (by decide)) (.inr hlead)
          fun hend => hmisread (.inr hend)
      exact ⟨fun _ => .inr hmisread, fun _ => hgraded⟩
  · by_cases hearly : HasEarlySlash word.toList
    · rw [isGraded_iff_of_forall_not hearly.not_octets]
      simp [hearly]
    · by_cases hmisread : IsMisread word.toList
      · rw [isGraded_iff_of_forall_not (hmisread.not_octets isTail_mask)]
        simp [hmisread]
      · have hslash : ∀ front rest, word.toList = front ++ '/' :: rest → 3 ≤ front.count '.' :=
          fun front rest heq => Nat.le_of_not_lt fun hfew => hearly ⟨front, rest, heq, hfew⟩
        have hlead : word.toList.head? ≠ some '.' ∧ word.toList.head? ≠ some '/' := by
          refine ⟨fun hdot => hmisread (.inl hdot), fun hhead => ?_⟩
          obtain ⟨rest, heq⟩ := List.head?_eq_some_iff.1 hhead
          exact absurd (hslash [] rest heq) (by decide)
        have hgraded : IsGraded (Octets IsMaskTail 3) word.toList (walkPrefix word) :=
          walkPrefixFrom_isGraded 3 rfl rfl isRun_nil (.inr hlead)
            (fun hend => hmisread (.inr hend)) hslash
        exact ⟨fun _ => .inr fun h => h.elim hmisread hearly, fun _ => hgraded⟩

/-- Words that begin no address and are taken for one, or for the start of one: an
    octet is missing, is too large, or is cut in two by a slash. -/
theorem not_forall_isGraded :
    walk ".1.2.3" = .exact ∧ walk "256." = .partly ∧ walkPrefix "1/2.3.4.5/8" = .exact ∧
      ¬ (∀ word : String, IsGraded IsQuad word.toList (walk word)) ∧
      ¬ ∀ word : String, IsGraded IsMaskedQuad word.toList (walkPrefix word) := by
  have hquad : walk ".1.2.3" = .exact := by decide +kernel
  have hmasked : walkPrefix "1/2.3.4.5/8" = .exact := by decide +kernel
  refine ⟨hquad, by decide +kernel, hmasked, fun hall => ?_, fun hall => ?_⟩
  · have h := hall ".1.2.3"
    rw [hquad] at h
    exact absurd ((isQuad_iff_octets.1 h).isDigit_head isTail_nil) (by decide)
  · have h := hall "1/2.3.4.5/8"
    rw [hmasked] at h
    have hcount : 3 ≤ ['1'].count '.' := (isMaskedQuad_iff_octets.1 h).le_count_of_slash
    exact absurd hcount (by decide)

end RouterCli.Ipv4
