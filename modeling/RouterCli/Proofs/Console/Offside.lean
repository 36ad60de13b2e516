import RouterCli.Line
import RouterCli.Session

/-!
  RouterCli.Proofs.Console.Offside

  The offside rule on its own: which block a line of a configuration text
  belongs to, told from the indentations of the lines above it alone, and the
  place the session has in that block.

  A history lists the lines that were run, the latest first.
-/

namespace RouterCli

/-- Where a session is: a node and the object configured there. -/
structure Place (κ : Type) where
  node : NodeId
  context : Option κ

/-- Where the session is. -/
def Session.place {κ : Type} (s : Session κ) : Place κ :=
  ⟨s.node, s.context⟩

namespace Offside

-- ============================================================================
-- The lines of a text
-- ============================================================================

/-- What a line of a configuration text is. -/
inductive Shape where
  /-- Spaces only, or a comment. -/
  | skipped
  /-- Indented by something other than spaces. -/
  | malformed
  /-- A command, indented by so many spaces. -/
  | command (indent : Nat) (words : List String)
deriving DecidableEq, Repr

/-- Read a line that holds no line break. -/
def shape (text : String) : Shape :=
  match (text.toList.dropWhile (· == ' ')).head? with
  | none => .skipped
  | some c =>
    if c = '!' ∨ c = '#' then .skipped
    else if Text.isBlank c then .malformed
    else .command (text.toList.takeWhile (· == ' ')).length (Text.words text)

-- ============================================================================
-- Blocks
-- ============================================================================

/-- A line that was run. -/
structure Past (κ : Type) where
  number : Nat
  indent : Nat
  /-- The number of the line that opened its block, zero for the top block. -/
  block : Nat
  /-- Where it was run. -/
  found : Place κ
  /-- Where it left the session. -/
  left : Place κ

variable {κ : Type}

/-- The line opened a block: it moved the session to another node. -/
def Past.opened (x : Past κ) : Bool :=
  x.left.node != x.found.node

/-- The nearest line above of smaller indentation. -/
def opener? (n : Nat) (past : List (Past κ)) : Option (Past κ) :=
  past.find? fun x => x.indent < n

/-- The block of a line of indentation `n`. -/
def blockOf (n : Nat) (past : List (Past κ)) : Nat :=
  (opener? n past).elim 0 (·.number)

/-- The lines of that block so far. -/
def members (n : Nat) (past : List (Past κ)) : List (Past κ) :=
  past.filter (·.block == blockOf n past)

/-- Where the session is in that block: its opener leads there, and those of
    its lines that open nothing may change the object. -/
def place (start : Place κ) (n : Nat) (past : List (Past κ)) : Place κ :=
  match (members n past).find? (!·.opened) with
  | some m => m.left
  | none => (opener? n past).elim start (·.left)

/-- A line of indentation `n` fits its block: the line above did open one, and
    all lines of the block so far have that indentation. -/
structure Fits (n : Nat) (past : List (Past κ)) : Prop where
  /-- The nearest line above of smaller indentation opened a block. -/
  opened : ∀ o, opener? n past = some o → o.opened
  aligned : ∀ m ∈ members n past, m.indent = n

/-- The lines that opened the blocks around a line of indentation `n`, the
    nearest first. -/
def openers (n : Nat) : List (Past κ) → List (Past κ)
  | [] => []
  | x :: past => if x.indent < n then x :: openers x.indent past else openers n past

-- ============================================================================
-- Openers
-- ============================================================================

section Openers

variable {n m : Nat} {x y : Past κ} {past newer older : List (Past κ)}

theorem opener?_cons_of_lt (h : x.indent < n) : opener? n (x :: past) = some x := by
  simp [opener?, h]

theorem opener?_cons_of_le (h : n ≤ x.indent) : opener? n (x :: past) = opener? n past := by
  simp [opener?, Nat.not_lt.2 h]

theorem openers_cons_of_lt (h : x.indent < n) :
    openers n (x :: past) = x :: openers x.indent past :=
  if_pos h

theorem openers_cons_of_le (h : n ≤ x.indent) : openers n (x :: past) = openers n past :=
  if_neg (Nat.not_lt.2 h)

theorem opener?_append_of_le (h : ∀ z ∈ newer, n ≤ z.indent) :
    opener? n (newer ++ older) = opener? n older := by
  induction newer with
  | nil => rfl
  | cons z newer ih =>
    rw [List.cons_append, opener?_cons_of_le (h z (by simp))]
    exact ih fun w hw => h w (by simp [hw])

theorem openers_append_of_le (h : ∀ z ∈ newer, n ≤ z.indent) :
    openers n (newer ++ older) = openers n older := by
  induction newer with
  | nil => rfl
  | cons z newer ih =>
    rw [List.cons_append, openers_cons_of_le (h z (by simp))]
    exact ih fun w hw => h w (by simp [hw])

theorem opener?_eq_head? (n : Nat) (past : List (Past κ)) :
    opener? n past = (openers n past).head? := by
  induction past with
  | nil => rfl
  | cons x past ih =>
    by_cases h : x.indent < n
    · rw [opener?_cons_of_lt h, openers_cons_of_lt h, List.head?_cons]
    · rw [opener?_cons_of_le (Nat.not_lt.1 h), openers_cons_of_le (Nat.not_lt.1 h), ih]

/-- The nearest opener, with the lines behind it and those before it. -/
theorem exists_append_of_openers {ys : List (Past κ)} (h : openers n past = y :: ys) :
    ∃ newer older, past = newer ++ y :: older ∧ (∀ z ∈ newer, n ≤ z.indent) ∧
      y.indent < n ∧ ys = openers y.indent older := by
  induction past with
  | nil => simp [openers] at h
  | cons x past ih =>
    by_cases hx : x.indent < n
    · rw [openers_cons_of_lt hx, List.cons.injEq] at h
      obtain ⟨rfl, rfl⟩ := h
      exact ⟨[], past, rfl, by simp, hx, rfl⟩
    · rw [openers_cons_of_le (Nat.not_lt.1 hx)] at h
      obtain ⟨newer, older, rfl, hnewer, hy, hys⟩ := ih h
      refine ⟨x :: newer, older, rfl, ?_, hy, hys⟩
      intro z hz
      rcases List.mem_cons.1 hz with rfl | hz
      · exact Nat.not_lt.1 hx
      · exact hnewer z hz

/-- Between a line and its opener no other is nearest. -/
theorem opener?_of_between (hn : n ≤ m) (ho : ∀ o, opener? m past = some o → o.indent < n) :
    opener? n past = opener? m past := by
  induction past with
  | nil => rfl
  | cons z past ih =>
    by_cases hz : z.indent < m
    · have hzn := ho z (opener?_cons_of_lt hz)
      rw [opener?_cons_of_lt hz, opener?_cons_of_lt hzn]
    · rw [opener?_cons_of_le (Nat.not_lt.1 hz)] at ho ⊢
      rw [opener?_cons_of_le (by omega)]
      exact ih ho

end Openers

-- ============================================================================
-- Histories
-- ============================================================================

variable {start : Place κ} {way : NodeId → Prop}

/-- A line was run behind others as the rule says. Nodes that were entered
    inside a block have a property `way`. -/
structure Past.Follows (start : Place κ) (way : NodeId → Prop) (x : Past κ)
    (older : List (Past κ)) : Prop where
  positive : 0 < x.number
  newer : ∀ y ∈ older, y.number < x.number
  block : x.block = blockOf x.indent older
  fits : Fits x.indent older
  found : x.found = place start x.indent older
  /-- A node entered inside a block has the property. -/
  way : x.opened → openers x.indent older ≠ [] → way x.left.node

/-- Every line of a history was run as the rule says. -/
def Sound (start : Place κ) (way : NodeId → Prop) (past : List (Past κ)) : Prop :=
  ∀ x older, x :: older <:+ past → x.Follows start way older

section Histories

variable {n : Nat} {x y z : Past κ} {past newer older : List (Past κ)}

theorem Sound.nil : Sound start way [] := by
  intro x older h
  simp at h

theorem Sound.cons (h : Sound start way past) (hx : x.Follows start way past) :
    Sound start way (x :: past) := by
  intro y older hy
  rcases List.suffix_cons_iff.1 hy with heq | hy
  · obtain ⟨rfl, rfl⟩ := List.cons.inj heq
    exact hx
  · exact h y older hy

theorem Sound.of_append (h : Sound start way (newer ++ past)) : Sound start way past :=
  fun x older hx => h x older (hx.trans (List.suffix_append _ _))

theorem Sound.head (h : Sound start way (x :: past)) : x.Follows start way past :=
  h x past List.suffix_rfl

theorem Sound.tail (h : Sound start way (x :: past)) : Sound start way past := by
  rw [← List.singleton_append] at h
  exact h.of_append

theorem Sound.number_lt (h : Sound start way (newer ++ y :: older)) (hx : x ∈ newer) :
    y.number < x.number := by
  induction newer with
  | nil => simp at hx
  | cons z newer ih =>
    rcases List.mem_cons.1 hx with rfl | hx
    · exact h.head.newer y (by simp)
    · exact ih h.tail hx

theorem blockOf_eq_zero_or_mem (n : Nat) (past : List (Past κ)) :
    blockOf n past = 0 ∨ ∃ o ∈ past, blockOf n past = o.number := by
  unfold blockOf
  cases ho : opener? n past with
  | none => exact .inl rfl
  | some o => exact .inr ⟨o, List.mem_of_find?_eq_some ho, rfl⟩

/-- The block of a line was opened before it. -/
theorem blockOf_lt (hx : x.Follows start way past) (n : Nat) : blockOf n past < x.number := by
  rcases blockOf_eq_zero_or_mem n past with h | ⟨o, ho, h⟩
  · rw [h]
    exact hx.positive
  · rw [h]
    exact hx.newer o ho

-- A line of the same indentation as the latest.

theorem blockOf_cons_of_le (h : n ≤ x.indent) : blockOf n (x :: past) = blockOf n past := by
  rw [blockOf, blockOf, opener?_cons_of_le h]

theorem members_cons_self (hx : x.Follows start way past) :
    members x.indent (x :: past) = x :: members x.indent past := by
  rw [members, members, blockOf_cons_of_le (Nat.le_refl _)]
  exact List.filter_cons_of_pos (by simp [hx.block])

theorem fits_cons_self (hx : x.Follows start way past) : Fits x.indent (x :: past) where
  opened := by
    rw [opener?_cons_of_le (Nat.le_refl _)]
    exact hx.fits.opened
  aligned := by
    rw [members_cons_self hx]
    intro m hm
    rcases List.mem_cons.1 hm with rfl | hm
    · rfl
    · exact hx.fits.aligned m hm

theorem place_cons_self (hx : x.Follows start way past) :
    place start x.indent (x :: past) = if x.opened then x.found else x.left := by
  rw [place, members_cons_self hx, opener?_cons_of_le (Nat.le_refl _)]
  by_cases hopened : x.opened
  · rw [List.find?_cons_of_neg (by simp [hopened]), if_pos hopened, hx.found]
    rfl
  · rw [List.find?_cons_of_pos (by simp [hopened]), if_neg hopened]

-- A deeper line.

theorem members_cons_of_lt (h : Sound start way (x :: past)) (hn : x.indent < n) :
    members n (x :: past) = [] := by
  rw [members, List.filter_eq_nil_iff]
  intro m hm
  have hblock : blockOf n (x :: past) = x.number := by
    rw [blockOf, opener?_cons_of_lt hn]
    rfl
  obtain ⟨newer, older, hsplit⟩ := List.append_of_mem hm
  have hfollows : m.Follows start way older := (hsplit ▸ h).of_append.head
  have hlt : m.block < m.number := by
    rw [hfollows.block]
    exact blockOf_lt hfollows _
  have hle : m.number ≤ x.number := by
    rcases List.mem_cons.1 hm with rfl | hm
    · exact Nat.le_refl _
    · exact Nat.le_of_lt (h.head.newer m hm)
  rw [hblock, beq_iff_eq]
  omega

theorem fits_cons_of_lt (h : Sound start way (x :: past)) (hn : x.indent < n) :
    Fits n (x :: past) ↔ x.opened := by
  constructor
  · intro hfits
    exact hfits.opened x (opener?_cons_of_lt hn)
  · intro hopened
    refine ⟨?_, ?_⟩
    · intro o ho
      rw [opener?_cons_of_lt hn, Option.some.injEq] at ho
      rwa [← ho]
    · rw [members_cons_of_lt h hn]
      simp

theorem place_cons_of_lt (h : Sound start way (x :: past)) (hn : x.indent < n) :
    place start n (x :: past) = x.left := by
  rw [place, members_cons_of_lt h hn, opener?_cons_of_lt hn]
  rfl

-- A line less deep than all behind an opener.

/-- The lines inside a block do not belong to the blocks around it. -/
theorem members_append (h : Sound start way (newer ++ y :: older))
    (hnewer : ∀ z ∈ newer, y.indent < z.indent) (hn : n ≤ y.indent) :
    members n (newer ++ y :: older) = members n (y :: older) := by
  have hblock : blockOf n (newer ++ y :: older) = blockOf n (y :: older) := by
    rw [blockOf, blockOf, opener?_append_of_le fun z hz => Nat.le_trans hn (Nat.le_of_lt (hnewer z hz))]
  have hlt : blockOf n (y :: older) < y.number := by
    rw [blockOf_cons_of_le hn]
    exact blockOf_lt h.of_append.head n
  suffices hnone : newer.filter (·.block == blockOf n (y :: older)) = [] by
    rw [members, members, hblock, List.filter_append, hnone, List.nil_append]
  rw [List.filter_eq_nil_iff]
  intro z hz
  -- The line `y` is less deep than `z`, so that the opener of `z` is not before it.
  have hge : y.number ≤ z.block := by
    obtain ⟨front, back, rfl⟩ := List.append_of_mem hz
    rw [List.append_assoc, List.cons_append] at h
    have hz' : z.Follows start way (back ++ y :: older) := h.of_append.head
    have hsome : (opener? z.indent (back ++ y :: older)).isSome := by
      rw [opener?, List.find?_isSome]
      exact ⟨y, by simp, by simpa using hnewer z hz⟩
    obtain ⟨o, ho⟩ := Option.isSome_iff_exists.1 hsome
    rw [hz'.block, blockOf, ho, Option.elim_some]
    rw [opener?, List.find?_append, Option.or_eq_some_iff] at ho
    rcases ho with ho | ⟨-, ho⟩
    · exact Nat.le_of_lt (h.of_append.tail.number_lt (List.mem_of_find?_eq_some ho))
    · rw [List.find?_cons_of_pos (by simpa using hnewer z hz), Option.some.injEq] at ho
      exact ho ▸ Nat.le_refl _
  simp only [beq_iff_eq]
  omega

theorem opener?_append_of_lt (hnewer : ∀ z ∈ newer, y.indent < z.indent) (hn : n ≤ y.indent) :
    opener? n (newer ++ y :: older) = opener? n (y :: older) :=
  opener?_append_of_le fun z hz => Nat.le_trans hn (Nat.le_of_lt (hnewer z hz))

theorem fits_append_iff (h : Sound start way (newer ++ y :: older))
    (hnewer : ∀ z ∈ newer, y.indent < z.indent) (hn : n ≤ y.indent) :
    Fits n (newer ++ y :: older) ↔ Fits n (y :: older) := by
  have hmembers := members_append h hnewer hn
  have hopener : opener? n (newer ++ y :: older) = opener? n (y :: older) :=
    opener?_append_of_lt hnewer hn
  constructor
  · intro hfits
    exact ⟨hopener ▸ hfits.opened, hmembers ▸ hfits.aligned⟩
  · intro hfits
    exact ⟨hopener ▸ hfits.opened, hmembers ▸ hfits.aligned⟩

theorem place_append (h : Sound start way (newer ++ y :: older))
    (hnewer : ∀ z ∈ newer, y.indent < z.indent) (hn : n ≤ y.indent) :
    place start n (newer ++ y :: older) = place start n (y :: older) := by
  rw [place, place, members_append h hnewer hn, opener?_append_of_lt hnewer hn]

/-- A line between the latest and its opener fits no block. -/
theorem not_fits_of_between (h : Sound start way (x :: past)) (hn : n < x.indent)
    (ho : ∀ o, opener? x.indent past = some o → o.indent < n) : ¬ Fits n (x :: past) := by
  intro hfits
  have hblock : x.block = blockOf n (x :: past) := by
    rw [h.head.block, blockOf_cons_of_le (Nat.le_of_lt hn), blockOf, blockOf,
      opener?_of_between (Nat.le_of_lt hn) ho]
  have hmem : x ∈ members n (x :: past) :=
    List.mem_filter.2 ⟨by simp, by simp [hblock]⟩
  have := hfits.aligned x hmem
  omega

-- ============================================================================
-- Nodes
-- ============================================================================

/-- Lines of one block have the same blocks around them. -/
theorem openers_of_mem_members (h : Sound start way (newer ++ x :: older))
    (hx : x ∈ members n (newer ++ x :: older)) (hn : x.indent = n) :
    openers n (newer ++ x :: older) = openers x.indent older := by
  have hblock : x.block = blockOf n (newer ++ x :: older) := by
    simpa using (List.mem_filter.1 hx).2
  have hlt : x.block < x.number := by
    rw [h.of_append.head.block]
    exact blockOf_lt h.of_append.head _
  have hnewer : ∀ z ∈ newer, n ≤ z.indent := by
    intro z hz
    refine Nat.le_of_not_lt fun hzn => ?_
    have hsome : (newer.find? fun x => x.indent < n).isSome := by
      rw [List.find?_isSome]
      exact ⟨z, hz, by simpa using hzn⟩
    obtain ⟨o, ho⟩ := Option.isSome_iff_exists.1 hsome
    have hnumber := h.number_lt (List.mem_of_find?_eq_some ho)
    rw [blockOf, opener?, List.find?_append, ho, Option.some_or, Option.elim_some] at hblock
    omega
  rw [openers_append_of_le hnewer, openers_cons_of_le (Nat.le_of_eq hn.symm), hn]

/-- The node of a block is the one the session began at, or was entered by the
    opener. -/
theorem Sound.way_place (h : Sound start way past) (hfits : Fits n past) :
    (openers n past = [] → (place start n past).node = start.node) ∧
      (∀ o os, openers n past = o :: os → os ≠ [] → way (place start n past).node) := by
  generalize hlen : past.length = len
  induction len using Nat.strongRecOn generalizing n past with
  | ind len ih =>
    cases hm : (members n past).find? (!·.opened) with
    | some m =>
      have hmem := List.mem_of_find?_eq_some hm
      have hclosed : m.left.node = m.found.node := by
        simpa [Past.opened] using List.find?_some hm
      have hindent := hfits.aligned m hmem
      obtain ⟨newer, older, rfl⟩ := List.append_of_mem (List.mem_filter.1 hmem).1
      have hfollows := h.of_append.head
      have hplace : (place start n (newer ++ m :: older)).node =
          (place start m.indent older).node := by
        rw [place, hm, ← hfollows.found]
        exact hclosed
      rw [hplace, openers_of_mem_members h hmem hindent]
      simp only [List.length_append, List.length_cons] at hlen
      exact ih older.length (by omega) h.of_append.tail hfollows.fits rfl
    | none =>
      have hplace : place start n past = (opener? n past).elim start (·.left) := by
        rw [place, hm]
      rw [hplace, opener?_eq_head?]
      constructor
      · intro hnil
        rw [hnil]
        rfl
      · intro o os hcons hos
        obtain ⟨newer, older, rfl, -, -, rfl⟩ := exists_append_of_openers hcons
        rw [hcons, List.head?_cons, Option.elim_some]
        have hopened := hfits.opened o (by rw [opener?_eq_head?, hcons]; rfl)
        exact h.of_append.head.way hopened hos

end Histories

end Offside

end RouterCli
