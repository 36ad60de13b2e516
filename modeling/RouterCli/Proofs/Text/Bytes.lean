import Mathlib.Data.String.Basic
import RouterCli.Text.Utf8

/-!
  RouterCli.Proofs.Text.Bytes

  The bytes of characters. A character of ASCII is the one byte that it has, and every byte of
  any other character is beyond ASCII (`Text.le_of_mem_utf8EncodeChar`). So a reader that goes
  on through bytes of an ASCII class stops where one that goes on through characters does
  (`Text.IsAsciiClass.takeWhile_bytesOf`), and an ASCII character is found by its byte
  (`Text.head?_bytesOf`).
-/

namespace RouterCli.Text

-- ============================================================================
-- Encoding
-- ============================================================================

/-- The bytes of characters. -/
def bytesOf (cs : List Char) : List UInt8 :=
  cs.flatMap String.utf8EncodeChar

theorem bytesOf_cons (c : Char) (cs : List Char) :
    bytesOf (c :: cs) = String.utf8EncodeChar c ++ bytesOf cs :=
  List.flatMap_cons

theorem bytesOf_append (cs more : List Char) :
    bytesOf (cs ++ more) = bytesOf cs ++ bytesOf more :=
  List.flatMap_append

theorem length_bytesOf (cs : List Char) : (bytesOf cs).length = String.utf8Len cs := by
  induction cs with
  | nil => rfl
  | cons c cs ih =>
    rw [bytesOf_cons, List.length_append, ih, String.length_utf8EncodeChar, String.utf8Len_cons,
      Nat.add_comm]

theorem toList_loop_eq (bytes : ByteArray) (i : Nat) (front : List UInt8) :
    ByteArray.toList.loop bytes i front = front.reverse ++ bytes.data.toList.drop i := by
  fun_induction ByteArray.toList.loop bytes i front with
  | case1 i front hi ih =>
    have hget : bytes.get! i = bytes.data.toList[i] := by
      simp [ByteArray.get!, hi]
    rw [ih, List.reverse_cons, List.append_assoc, List.singleton_append, hget,
      ← List.drop_eq_getElem_cons]
  | case2 i front hi =>
    rw [List.drop_eq_nil_of_le (Nat.not_lt.1 hi), List.append_nil]

theorem encode_eq_bytesOf (s : String) : encode s = bytesOf s.toList := by
  have hbytes : s.toUTF8.data.toList = bytesOf s.toList := by
    rw [String.toUTF8, ← String.utf8Encode_toList, List.utf8Encode, List.toList_data_toByteArray]
    rfl
  rw [encode, ByteArray.toList, toList_loop_eq, hbytes]
  rfl

theorem utf8EncodeChar_of_lt {c : Char} (h : c.toNat < 128) :
    String.utf8EncodeChar c = [c.toUInt8] :=
  String.utf8EncodeChar_eq_singleton
    (Char.utf8Size_eq_one_iff.2 (UInt32.le_iff_toNat_le.2 (Nat.le_of_lt_succ h)))

theorem utf8Len_singleton_of_lt {c : Char} (h : c.toNat < 128) : String.utf8Len [c] = 1 := by
  rw [← length_bytesOf, bytesOf_cons, utf8EncodeChar_of_lt h]
  rfl

/-- No byte of a character beyond ASCII is ASCII. -/
theorem le_of_mem_utf8EncodeChar {c : Char} (h : 128 ≤ c.toNat) :
    ∀ b ∈ String.utf8EncodeChar c, 128 ≤ b.toNat := by
  intro b hb
  have hvalue : c.toNat = c.val.toNat := rfl
  unfold String.utf8EncodeChar at hb
  dsimp only at hb
  split at hb
  · omega
  · split at hb
    · simp only [List.mem_cons, List.not_mem_nil, or_false] at hb
      rcases hb with rfl | rfl <;> rw [UInt8.toNat_ofNat'] <;> omega
    · split at hb
      · simp only [List.mem_cons, List.not_mem_nil, or_false] at hb
        rcases hb with rfl | rfl | rfl <;> rw [UInt8.toNat_ofNat'] <;> omega
      · simp only [List.mem_cons, List.not_mem_nil, or_false] at hb
        rcases hb with rfl | rfl | rfl | rfl <;> rw [UInt8.toNat_ofNat'] <;> omega

theorem toNat_toUInt8 {c : Char} (h : c.toNat < 128) : c.toUInt8.toNat = c.toNat := by
  have hmod : c.toUInt8.toNat = c.toNat % 256 := UInt32.toNat_toUInt8 c.val
  omega

-- ============================================================================
-- Classes of ASCII
-- ============================================================================

/-- A class of bytes and one of characters that come to the same on ASCII, and beyond it
    have all or none. -/
structure IsAsciiClass (p : UInt8 → Bool) (q : Char → Bool) (beyond : Bool) : Prop where
  ascii : ∀ c : Char, c.toNat < 128 → p c.toUInt8 = q c
  bytes : ∀ b : UInt8, 128 ≤ b.toNat → p b = beyond
  chars : ∀ c : Char, 128 ≤ c.toNat → q c = beyond

namespace IsAsciiClass

/-- An ASCII character is a class of its own. -/
theorem single {mark : Char} (hmark : mark.toNat < 128) :
    IsAsciiClass (· == mark.toUInt8) (· == mark) false where
  ascii c hc := by
    rw [Bool.eq_iff_iff, beq_iff_eq, beq_iff_eq]
    refine ⟨fun h => Char.toNat_inj.1 ?_, fun h => h ▸ rfl⟩
    rw [← toNat_toUInt8 hc, h, toNat_toUInt8 hmark]
  bytes b hb := beq_eq_false_iff_ne.2 fun h => by
    rw [h, toNat_toUInt8 hmark] at hb
    omega
  chars c hc := beq_eq_false_iff_ne.2 fun h => by
    rw [h] at hc
    omega

variable {p p' : UInt8 → Bool} {q q' : Char → Bool} {beyond beyond' : Bool}

theorem or (h : IsAsciiClass p q beyond) (h' : IsAsciiClass p' q' beyond') :
    IsAsciiClass (fun b => p b || p' b) (fun c => q c || q' c) (beyond || beyond') where
  ascii c hc := congrArg₂ Bool.or (h.ascii c hc) (h'.ascii c hc)
  bytes b hb := congrArg₂ Bool.or (h.bytes b hb) (h'.bytes b hb)
  chars c hc := congrArg₂ Bool.or (h.chars c hc) (h'.chars c hc)

theorem not (h : IsAsciiClass p q beyond) :
    IsAsciiClass (fun b => !p b) (fun c => !q c) (!beyond) where
  ascii c hc := congrArg Bool.not (h.ascii c hc)
  bytes b hb := congrArg Bool.not (h.bytes b hb)
  chars c hc := congrArg Bool.not (h.chars c hc)

/-- Going on through bytes of such a class ends where going on through the characters does. -/
theorem takeWhile_bytesOf (h : IsAsciiClass p q beyond) (cs : List Char) :
    (bytesOf cs).takeWhile p = bytesOf (cs.takeWhile q) := by
  induction cs with
  | nil => rfl
  | cons c cs ih =>
    by_cases hc : c.toNat < 128
    · rw [bytesOf_cons, utf8EncodeChar_of_lt hc, List.singleton_append, List.takeWhile_cons,
        List.takeWhile_cons, h.ascii c hc, ih]
      split
      · rw [bytesOf_cons, utf8EncodeChar_of_lt hc, List.singleton_append]
      · rfl
    · have hc := Nat.not_lt.1 hc
      have hbytes : ∀ b ∈ String.utf8EncodeChar c, p b = beyond := fun b hb =>
        h.bytes b (le_of_mem_utf8EncodeChar hc b hb)
      rw [List.takeWhile_cons, h.chars c hc, bytesOf_cons]
      cases beyond with
      | true => rw [List.takeWhile_append_of_pos hbytes, ih, if_pos rfl, bytesOf_cons]
      | false =>
        obtain ⟨b, bs, hbs⟩ := List.exists_cons_of_ne_nil (String.utf8EncodeChar_ne_nil (c := c))
        rw [hbs, List.cons_append,
          List.takeWhile_cons_of_neg (by simp [hbytes b (hbs ▸ List.mem_cons_self)])]
        rfl

end IsAsciiClass

/-- An ASCII character begins the bytes where it begins the characters. -/
theorem head?_bytesOf {mark : Char} (hmark : mark.toNat < 128) (cs : List Char) :
    (bytesOf cs).head? = some mark.toUInt8 ↔ cs.head? = some mark := by
  have hclass := IsAsciiClass.single hmark
  obtain _ | ⟨c, cs⟩ := cs
  · simp [bytesOf]
  rw [bytesOf_cons, List.head?_append, List.head?_cons, Option.some.injEq, ← beq_iff_eq (a := c)]
  by_cases hc : c.toNat < 128
  · rw [utf8EncodeChar_of_lt hc, List.head?_cons, Option.some_or, Option.some.injEq,
      ← hclass.ascii c hc, beq_iff_eq]
  · have hc := Nat.not_lt.1 hc
    obtain ⟨b, bs, hbs⟩ := List.exists_cons_of_ne_nil (String.utf8EncodeChar_ne_nil (c := c))
    have hb : 128 ≤ b.toNat := le_of_mem_utf8EncodeChar hc b (hbs ▸ List.mem_cons_self)
    rw [hbs, List.head?_cons, Option.some_or, Option.some.injEq, ← beq_iff_eq (a := b),
      hclass.bytes b hb, hclass.chars c hc]

end RouterCli.Text
