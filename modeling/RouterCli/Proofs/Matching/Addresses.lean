import RouterCli.Proofs.Matching.Threshold

/-!
  RouterCli.Proofs.Matching.Addresses

  Words at an address token. The walkers answer `partly` to the start of an
  address, which is what help needs. Of the words of an accepted line those at an
  address with a mask are finished: whether such a word is only begun is asked
  when the candidates have to agree on it (`not_beginsPrefix_of_agreement`). It
  is never asked of a word at an address `A.B.C.D` (`walk_exact_iff_of_resolve`),
  so the start of one is accepted (`not_forall_walk_exact`).
-/

namespace RouterCli

-- ============================================================================
-- The answers of the walkers
-- ============================================================================

/-- What a walker may answer: the word is no address, begins one, or is one. -/
def Grade.walks : List Grade :=
  [.noMatch, .partly, .exact]

theorem Grade.walks_of_any_le {g : Grade} (hg : g ∈ walks) (h : any ≤ g) :
    g = .exact ∨ g = .partly := by
  rw [walks, List.mem_cons, List.mem_cons, List.mem_singleton] at hg
  rcases hg with rfl | rfl | rfl
  · exact absurd h (by decide)
  · exact .inr rfl
  · exact .inl rfl

namespace Ipv4

theorem walkFrom_mem_walks (dots : Nat) (group : Group) (cs : List Char) :
    walkFrom dots group cs ∈ Grade.walks := by
  fun_induction walkFrom dots group cs with
  | case6 _ _ _ _ _ _ ih | case8 _ _ _ _ _ _ ih => exact ih
  | _ => decide

theorem walkPrefixFrom_mem_walks (dots : Nat) (group : Group) (cs : List Char) :
    walkPrefixFrom dots group cs ∈ Grade.walks := by
  fun_induction walkPrefixFrom dots group cs with
  | case4 _ _ _ _ _ ih | case10 _ _ _ _ _ _ ih | case12 _ _ _ _ _ _ _ ih => exact ih
  | _ => decide

end Ipv4

namespace Ipv6

/-- No word only begins an address without a mask: what may become one is taken
    for one. -/
theorem walkFrom_eq_or (w : Walk) (cs : List Char) :
    walkFrom w cs = .noMatch ∨ walkFrom w cs = .exact := by
  fun_induction walkFrom w cs with
  | case3 _ _ _ _ _ _ ih => exact ih
  | case1 => exact .inr rfl
  | _ => exact .inl rfl

theorem walk_eq_or (word : String) : walk word = .noMatch ∨ walk word = .exact := by
  unfold walk
  dsimp only
  split_ifs
  · exact .inl rfl
  · exact .inr rfl
  · split
    · exact .inl rfl
    · exact walkFrom_eq_or _ _

theorem walkPrefixFrom_mem_walks (w : Walk) (cs : List Char) :
    walkPrefixFrom w cs ∈ Grade.walks := by
  fun_induction walkPrefixFrom w cs with
  | case6 _ _ _ _ _ _ _ ih => exact ih
  | _ => decide

theorem walkPrefix_mem_walks (word : String) : walkPrefix word ∈ Grade.walks := by
  unfold walkPrefix
  dsimp only
  split_ifs
  · decide
  · split
    · decide
    · exact walkPrefixFrom_mem_walks _ _

end Ipv6

/-- The shapes of addresses. -/
def Shape.addresses : List Shape :=
  [.ipv4, .ipv4Prefix, .ipv6, .ipv6Prefix]

/-- What the walker of an address token says of a word. -/
def Atom.walk (a : Atom) (word : String) : Grade :=
  match a.shape with
  | .ipv4 => Ipv4.walk word
  | .ipv4Prefix => Ipv4.walkPrefix word
  | .ipv6 => Ipv6.walk word
  | .ipv6Prefix => Ipv6.walkPrefix word
  | .keyword | .range _ | .variable | .vararg => .noMatch

-- ============================================================================
-- One word
-- ============================================================================

namespace Candidates

variable {cs kept : Candidates} {e : Element} {index : Nat} {word : String} {a : Atom}

/-- Candidates that agree on a word do not take it for the start of an address
    with a mask, if anything may stand there. -/
theorem not_beginsPrefix_of_agreement {grade : Grade}
    (h : cs.agreement index word grade = .unique) (he : e ∈ cs) (ha : a ∈ e.atomsAt index) :
    OnePass.beginsPrefix grade word = false := by
  have hatoms : (cs.flatMap (·.atomsAt index)).isEmpty = false :=
    List.isEmpty_eq_false_iff.2 (List.ne_nil_of_mem (List.mem_flatMap.2 ⟨e, he, ha⟩))
  unfold agreement at h
  dsimp only at h
  rw [hatoms] at h
  cases grade with
  | ipv4Prefix | ipv6Prefix =>
    dsimp only at h
    split_ifs at h with hbegins
    simpa [OnePass.beginsPrefix] using hbegins
  | noMatch | any | extend | ipv4 | ipv6 | range | vararg | partly | exact => rfl

/-- A typed word that is taken at a lone address is a finished address, or else
    the start of an address `A.B.C.D`. -/
theorem walk_of_advance (h : cs.advance .any index word = some kept) (he : e ∈ kept)
    (hlone : e.atomsAt index = [a]) (haddress : a.shape ∈ Shape.addresses) :
    a.walk word = .exact ∨ a.shape = .ipv4 ∧ Ipv4.walk word = .partly := by
  obtain ⟨-, hagree, rfl⟩ := advance_eq_some_iff.1 h
  have hnarrow := (List.mem_filter.1 he).1
  obtain ⟨hmem, hfits, hbest⟩ := mem_narrow_iff.1 hnarrow
  have hsame := Grade.le_antisymm hbest (grade_le_best hmem index word .any)
  have ha : a ∈ e.atomsAt index := by
    rw [hlone]
    exact List.mem_singleton_self a
  have hbegins := not_beginsPrefix_of_agreement hagree hnarrow ha
  rw [hsame] at hbegins
  obtain ⟨b, hb, htakes⟩ := Element.exists_takes_of_grade rfl hfits
  rw [hlone, List.mem_singleton] at hb
  subst hb
  generalize e.grade index word .any = g at htakes hbegins
  unfold Atom.walk
  cases htakes with
  | keyword hs | begun hs | range hs | «variable» hs | vararg hs =>
    rw [hs] at haddress
    simp [Shape.addresses] at haddress
  | ipv4 hs hle =>
    rw [hs]
    rcases Grade.walks_of_any_le (Ipv4.walkFrom_mem_walks _ _ _) hle with hexact | hpartly
    · exact .inl hexact
    · exact .inr ⟨rfl, hpartly⟩
  | ipv6 hs hle =>
    rw [hs]
    rcases Ipv6.walk_eq_or word with hnone | hexact
    · rw [hnone] at hle
      exact absurd hle (by decide)
    · exact .inl hexact
  | ipv4Prefix hs hle =>
    rw [hs]
    rcases Grade.walks_of_any_le (Ipv4.walkPrefixFrom_mem_walks _ _ _) hle with hexact | hpartly
    · exact .inl hexact
    · simp [OnePass.beginsPrefix, Ipv4.walkPrefix, hpartly] at hbegins
  | ipv6Prefix hs hle =>
    rw [hs]
    rcases Grade.walks_of_any_le (Ipv6.walkPrefix_mem_walks word) hle with hexact | hpartly
    · exact .inl hexact
    · simp [OnePass.beginsPrefix, hpartly] at hbegins

end Candidates

-- ============================================================================
-- The whole line
-- ============================================================================

/-- Of the words of an accepted line that stand at a lone address, bare or in
    brackets, and before the free text if there is one, those are finished
    addresses that are not the start of an address `A.B.C.D` at such a token. -/
theorem walk_exact_iff_of_resolve {elements : List Element} {words : List String} {most : Nat}
    {r : Resolved} {s : Scan} {i : Nat} {word : String} {alternative : Alternative} {a : Atom}
    (h : resolve elements words false most = .ok r) (hscan : scan .any 0 elements words = .ok s)
    (hi : i < s.index) (hword : words[i]? = some word)
    (hlevel : r.element.level? i = some [alternative]) (hatom : alternative.token.atom? = some a)
    (haddress : a.shape ∈ Shape.addresses) :
    a.walk word = .exact ↔ ¬ (a.shape = .ipv4 ∧ Ipv4.walk word = .partly) := by
  obtain ⟨s', hscan', hselect, -⟩ := exists_scan_of_resolve h
  obtain rfl : s' = s := Except.ok.inj (hscan'.symm.trans hscan)
  obtain ⟨_, _, hkept, -, hsurvivors⟩ := exists_advance_of_scan hscan hword (by omega)
  rw [Nat.zero_add] at hkept
  have hlone : r.element.atomsAt i = [a] := by
    rw [Element.atomsAt, hlevel]
    simp [Level.atoms, hatom]
  have hwalk := Candidates.walk_of_advance hkept (hsurvivors (mem_of_select hselect).1) hlone
    haddress
  constructor
  · rintro hexact ⟨hs, hpartly⟩
    rw [Atom.walk, hs] at hexact
    exact absurd (hpartly.symm.trans hexact) (by decide)
  · exact hwalk.resolve_right

/-- A route to an address with a mask, its gateway in brackets. -/
def gatewayCommands : List Element :=
  [.ofTexts [["ip"], ["route"], ["A.B.C.D/M"], ["[A.B.C.D]"]],
    .ofTexts [["ip"], ["route"], ["NAME"]]]

/-- The gateway of `ip route 10.0.0.0/8 10.0.0.1` is finished. -/
theorem walk_exact_iff_of_resolve_gateway :
    let words := ["ip", "route", "10.0.0.0/8", "10.0.0.1"]
    let found : Resolved :=
      ⟨.ofTexts [["ip"], ["route"], ["A.B.C.D/M"], ["[A.B.C.D]"]], ["10.0.0.0/8", "10.0.0.1"]⟩
    let gateway := Atom.ofText "A.B.C.D"
    resolve gatewayCommands words false 256 = .ok found ∧
      scan .any 0 gatewayCommands words = .ok ⟨[found.element], 4, false⟩ ∧
      words[3]? = some "10.0.0.1" ∧
      found.element.level? 3 = some [⟨.optional "[A.B.C.D]" (some gateway), ""⟩] ∧
      gateway.shape ∈ Shape.addresses ∧ gateway.walk "10.0.0.1" = .exact := by
  intro words found gateway
  have hfound : resolve gatewayCommands words false 256 = .ok found := rfl
  have hscan : scan .any 0 gatewayCommands words = .ok ⟨[found.element], 4, false⟩ := rfl
  have hlevel : found.element.level? 3 =
      some [⟨.optional "[A.B.C.D]" (some gateway), ""⟩] := by decide +kernel
  have haddress : gateway.shape ∈ Shape.addresses := by decide +kernel
  have hfinished : ¬ (gateway.shape = .ipv4 ∧ Ipv4.walk "10.0.0.1" = .partly) := by
    decide +kernel
  exact ⟨hfound, hscan, rfl, hlevel, haddress,
    (walk_exact_iff_of_resolve (i := 3) hfound hscan (by decide) rfl hlevel rfl haddress).2
      hfinished⟩

/-- The start of an address `A.B.C.D` is accepted: `oml ip 192.168` is a line of
    the command `oml ip A.B.C.D`. -/
theorem not_forall_walk_exact :
    (resolve [.ofTexts [["oml"], ["ip"], ["A.B.C.D"]]] ["oml", "ip", "192.168"] false
        256).toOption.map (·.arguments) = some ["192.168"] ∧
      Ipv4.walk "192.168" = .partly ∧
      ¬ ∀ (elements : List Element) (words : List String) (most : Nat) (r : Resolved) (i : Nat)
          (word : String) (alternative : Alternative) (a : Atom),
        (∀ e ∈ elements, e.IsCompiled) → (∀ w ∈ words, w ≠ "") →
        resolve elements words false most = .ok r → words[i]? = some word →
        r.element.level? i = some [alternative] → alternative.token.atom? = some a →
        a.shape ∈ [.ipv4, .ipv4Prefix, .ipv6Prefix] → a.walk word = .exact := by
  refine ⟨by decide +kernel, by decide +kernel, ?_⟩
  intro hall
  have hcompiled : ∀ e ∈ [Element.ofTexts [["oml"], ["ip"], ["A.B.C.D"]]], e.IsCompiled := by
    intro e he
    rw [List.mem_singleton.1 he]
    exact Element.isCompiled_ofTexts _
  have hfound : resolve [.ofTexts [["oml"], ["ip"], ["A.B.C.D"]]] ["oml", "ip", "192.168"] false
      256 = .ok ⟨.ofTexts [["oml"], ["ip"], ["A.B.C.D"]], ["192.168"]⟩ := rfl
  have hexact := hall _ _ 256 _ 2 "192.168" ⟨.bare (.ofText "A.B.C.D"), ""⟩ (.ofText "A.B.C.D")
    hcompiled (by decide) hfound rfl (by decide +kernel) rfl (by decide +kernel)
  exact absurd hexact (by decide +kernel)

end RouterCli
