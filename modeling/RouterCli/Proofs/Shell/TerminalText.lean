import RouterCli.Shell.Terminal

/-!
  RouterCli.Proofs.Shell.TerminalText

  What a terminal has of a text that is written to it. Characters reach it from the first
  on, until it takes no more (`Terminal.putAll_eq`), and writing a text comes to writing the
  characters of the text with the terminal's line breaks (`Terminal.writeText_eq_putAll`).
  So what arrives begins that text, wherever in it the terminal stops, and the writer is told
  of success exactly where all of it has arrived (`Terminal.writeText_takes`).
-/

namespace RouterCli.Terminal

-- ============================================================================
-- Characters
-- ============================================================================

/-- How many of `n` characters the terminal takes. -/
def takes (t : Terminal) (n : Nat) : Nat :=
  match t.room with
  | none => n
  | some room => min room n

/-- The terminal behind the characters, of which it has those that it takes. -/
def behind (t : Terminal) (cs : List Char) : Terminal where
  written := t.written ++ String.ofList (cs.take (t.takes cs.length))
  room := t.room.map (· - cs.length)

/-- There is room for `n` characters. -/
def hasRoomFor (t : Terminal) (n : Nat) : Bool :=
  t.room.all (n ≤ ·)

theorem put_of_none {t : Terminal} (h : t.room = none) (c : Char) :
    t.put c = (true, { t with written := t.written.push c }) := by
  rw [put, h]

theorem put_of_zero {t : Terminal} (h : t.room = some 0) (c : Char) : t.put c = (false, t) := by
  rw [put, h]

theorem put_of_succ {t : Terminal} {room : Nat} (h : t.room = some (room + 1)) (c : Char) :
    t.put c = (true, ⟨t.written.push c, some room⟩) := by
  rw [put, h]

/-- All the characters are taken, or as many of them as there is room for. -/
theorem putAll_eq (t : Terminal) (cs : List Char) :
    t.putAll cs = (t.hasRoomFor cs.length, t.behind cs) := by
  induction cs generalizing t with
  | nil =>
    obtain ⟨written, _ | room⟩ := t <;> simp [putAll, hasRoomFor, behind]
  | cons c rest ih =>
    have hpush (more : List Char) :
        t.written.push c ++ String.ofList more = t.written ++ String.ofList (c :: more) :=
      String.toList_inj.1 (by simp)
    rw [putAll]
    match hroom : t.room with
    | none =>
      rw [put_of_none hroom]
      dsimp only
      rw [ih]
      simp [hasRoomFor, takes, behind, hroom, hpush]
    | some 0 =>
      rw [put_of_zero hroom]
      obtain ⟨written, room⟩ := t
      obtain rfl : room = some 0 := hroom
      simp [hasRoomFor, takes, behind]
    | some (room + 1) =>
      rw [put_of_succ hroom]
      dsimp only
      rw [ih]
      simp [hasRoomFor, takes, behind, hroom, hpush]

theorem putAll_append (t : Terminal) (cs more : List Char) :
    t.putAll (cs ++ more) =
      match t.putAll cs with
      | (true, t) => t.putAll more
      | (false, t) => (false, t) := by
  induction cs generalizing t with
  | nil => rfl
  | cons c rest ih =>
    rw [List.cons_append, putAll, putAll]
    cases t.put c with
    | mk taken t₁ =>
      cases taken with
      | false => rfl
      | true => exact ih t₁

-- ============================================================================
-- Texts
-- ============================================================================

/-- The characters with the line break of a terminal in the place of each line feed. -/
def withLineBreaks (cs : List Char) : List Char :=
  cs.flatMap fun c => if c = '\n' then lineBreak.toList else [c]

theorem putLines_eq_putAll (t : Terminal) (lines : List (List Char)) :
    t.putLines lines = t.putAll (lines.flatMap (lineBreak.toList ++ ·)) := by
  induction lines generalizing t with
  | nil => rfl
  | cons line rest ih =>
    rw [putLines, write, List.flatMap_cons, putAll_append, putAll_append]
    cases t.putAll lineBreak.toList with
    | mk taken t₁ =>
      cases taken with
      | false => rfl
      | true =>
        dsimp only
        cases t₁.putAll line with
        | mk taken t₂ =>
          cases taken with
          | false => rfl
          | true => exact ih t₂

/-- The lines of a text, put together with the line breaks of a terminal. -/
theorem exists_pieces_lineFeed (cs : List Char) :
    ∃ first rest, Text.pieces (· == '\n') cs = first :: rest ∧
      withLineBreaks cs = first ++ rest.flatMap (lineBreak.toList ++ ·) := by
  induction cs with
  | nil => exact ⟨[], [], rfl, rfl⟩
  | cons c cs ih =>
    obtain ⟨first, rest, hpieces, hbreaks⟩ := ih
    have hcons : withLineBreaks (c :: cs) =
        (if c = '\n' then lineBreak.toList else [c]) ++ withLineBreaks cs :=
      List.flatMap_cons
    by_cases hc : c = '\n'
    · refine ⟨[], first :: rest, by simp [Text.pieces, hc, hpieces], ?_⟩
      rw [hcons, if_pos hc, hbreaks, List.flatMap_cons, List.append_assoc, List.nil_append]
    · refine ⟨c :: first, rest, by simp [Text.pieces, hc, hpieces, Text.consWord], ?_⟩
      rw [hcons, if_neg hc, hbreaks]
      rfl

theorem writeText_eq_putAll (t : Terminal) (s : String) :
    t.writeText s = t.putAll (withLineBreaks s.toList) := by
  obtain ⟨first, rest, hpieces, hbreaks⟩ := exists_pieces_lineFeed s.toList
  rw [writeText, hpieces, hbreaks, putAll_append]
  dsimp only
  cases t.putAll first with
  | mk taken t₁ =>
    cases taken with
    | false => rfl
    | true => exact putLines_eq_putAll t₁ rest

/-- Of a text with the terminal's line breaks, `n` characters long, a terminal that takes
    only `b` characters more gets the first `min b n`, and any other gets all. The writing
    succeeds exactly if there was room for all of them. -/
theorem writeText_takes (t : Terminal) (s : String) :
    (t.writeText s).2.written = t.written ++ String.ofList
        ((withLineBreaks s.toList).take
          (match t.room with
          | none => (withLineBreaks s.toList).length
          | some b => min b (withLineBreaks s.toList).length)) ∧
      ((t.writeText s).1 = true ↔
        ∀ b, t.room = some b → (withLineBreaks s.toList).length ≤ b) := by
  rw [writeText_eq_putAll, putAll_eq]
  refine ⟨rfl, ?_⟩
  rw [hasRoomFor]
  cases t.room <;> simp

/-- The terminal stops within a line break. -/
example :
    ({ room := some 2 } : Terminal).writeText "a\nb" = (false, ⟨"a\r", some 0⟩) := by
  decide

end RouterCli.Terminal
