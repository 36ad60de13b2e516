import RouterCli.Console.Builtins
import RouterCli.Proofs.Command.Terminal

/-!
  RouterCli.Proofs.Command.Arguments

  What the arguments of a command of a terminal look like when the command is
  run (`argumentsFit_of_resolve`). An eight that stands alone is never taken
  for a password, since the pattern with the stored form takes it better.
-/

namespace RouterCli

-- ============================================================================
-- Levels without help texts
-- ============================================================================

namespace Level

/-- A level of one keyword. -/
def keyword (text : String) : Level :=
  [⟨.bare ⟨text, .keyword⟩, ""⟩]

/-- A level of one free word. -/
def free (text : String) : Level :=
  [⟨.bare ⟨text, .variable⟩, ""⟩]

/-- The level in front of a stored password: an eight, or nothing. -/
def eight : Level :=
  keyword "8" ++ keyword ""

/-- The level of a number of lines. -/
def lineCount : Level :=
  [⟨.bare ⟨"<0-512>", .range (some (.unsigned 0 512))⟩, ""⟩]

end Level

/-- Keywords in front are no arguments. -/
theorem arguments_keywords (texts : List String) (levels : List Level) (words : List String) :
    arguments (texts.map Level.keyword ++ levels) words =
      arguments levels (words.drop texts.length) := by
  induction texts generalizing words with
  | nil => rfl
  | cons text texts ih =>
    cases words with
    | nil => cases levels <;> simp [arguments]
    | cons word words =>
      rw [List.length_cons, List.drop_succ_cons, ← ih]
      rfl

theorem mandatory_keywords (texts : List String) (levels : List Level) :
    mandatory (texts.map Level.keyword ++ levels) = texts.length + mandatory levels := by
  induction texts with
  | nil => simp
  | cons text texts ih =>
    have hcons : mandatory (Level.keyword text :: (texts.map Level.keyword ++ levels)) =
        mandatory (texts.map Level.keyword ++ levels) + 1 := rfl
    rw [List.map_cons, List.cons_append, hcons, ih, List.length_cons]
    omega

theorem level?_keywords {e : Element} {texts : List String} {levels : List Level}
    (h : e.levels = texts.map Level.keyword ++ levels) (i : Nat) :
    e.level? (texts.length + i) = levels[i]? := by
  rw [Element.level?, h, List.getElem?_append_right (by simp)]
  simp

theorem hasNoVararg_keywords {e : Element} {texts : List String} {levels : List Level}
    (h : e.levels = texts.map Level.keyword ++ levels)
    (hlevels : ∀ level ∈ levels, ∀ atom ∈ level.atoms, atom.shape ≠ .vararg) :
    e.HasNoVararg := by
  intro level hlevel
  rw [h, List.mem_append, List.mem_map] at hlevel
  rcases hlevel with ⟨text, -, rfl⟩ | hlevel
  · intro atom hatom
    obtain rfl : atom = ⟨text, .keyword⟩ := List.mem_singleton.1 hatom
    exact Shape.noConfusion
  · exact hlevels level hlevel

namespace Resolved.Fits

variable {elements : List Element} {words : List String} {r : Resolved} {texts : List String}
  {levels : List Level}

theorem arguments_eq (h : r.Fits elements words)
    (hlevels : r.element.levels = texts.map Level.keyword ++ levels) :
    r.arguments = RouterCli.arguments levels (words.drop texts.length) := by
  rw [h.arguments, hlevels, arguments_keywords]

theorem mandatory_le (h : r.Fits elements words)
    (hlevels : r.element.levels = texts.map Level.keyword ++ levels) :
    RouterCli.mandatory levels ≤ (words.drop texts.length).length := by
  have := h.mandatory
  rw [Element.mandatory, hlevels, mandatory_keywords] at this
  rw [List.length_drop]
  omega

theorem length_le (h : r.Fits elements words)
    (hlevels : r.element.levels = texts.map Level.keyword ++ levels) :
    (words.drop texts.length).length ≤ levels.length := by
  have := h.length
  rw [hlevels, List.length_append, List.length_map] at this
  rw [List.length_drop]
  omega

end Resolved.Fits

-- ============================================================================
-- The commands with arguments that stay
-- ============================================================================

namespace Standard

open Registry

theorem levels_hostname : plainLevels hostname.pattern =
    some (["hostname"].map Level.keyword ++ [.free "WORD"]) := by
  decide +kernel

theorem levels_storedPassword : plainLevels storedPassword.pattern =
    some (["password"].map Level.keyword ++ [.eight, .free "WORD"]) := by
  decide +kernel

theorem levels_password : plainLevels password.pattern =
    some (["password"].map Level.keyword ++ [.free "LINE"]) := by
  decide +kernel

theorem levels_storedEnablePassword : plainLevels storedEnablePassword.pattern =
    some (["enable", "password"].map Level.keyword ++ [.eight, .free "WORD"]) := by
  decide +kernel

theorem levels_enablePassword : plainLevels enablePassword.pattern =
    some (["enable", "password"].map Level.keyword ++ [.free "LINE"]) := by
  decide +kernel

theorem levels_serviceTerminalLength : plainLevels serviceTerminalLength.pattern =
    some (["service", "terminal-length"].map Level.keyword ++ [.lineCount]) := by
  decide +kernel

theorem levels_logFile : plainLevels logFile.pattern =
    some (["log", "file"].map Level.keyword ++ [.free "FILENAME"]) := by
  decide +kernel

theorem levels_logFileLevel : plainLevels logFileLevel.pattern =
    some (["log", "file"].map Level.keyword ++
      [Level.free "FILENAME", Severity.all.flatMap fun s => Level.keyword s.name]) := by
  decide +kernel

/-- The installations of a command of the library. -/
def ownersOf (command : Builtin) : List Installation :=
  (standard true).filter fun
    | .node _ => false
    | .command _ spec => spec.action = .builtin command

theorem ownersOf_password : ownersOf .password =
    [.command .config storedPassword, .command .config password] := rfl

theorem ownersOf_enablePassword : ownersOf .enablePassword =
    [.command .config storedEnablePassword, .command .config enablePassword] := rfl

theorem ownersOf_serviceTerminalLength : ownersOf .serviceTerminalLength =
    [.command .config serviceTerminalLength] := rfl

theorem ownersOf_logFile : ownersOf .logFile =
    [.command .config logFile, .command .config logFileLevel] := rfl

theorem exists_owner {n : NodeId} {e : Element} {command : Builtin} (he : e ∈ plainAt n)
    (haction : e.spec.action = .builtin command) :
    ∃ spec, .command n spec ∈ ownersOf command ∧ plainLevels spec.pattern = some e.levels := by
  obtain ⟨spec, hspec, hplain⟩ := exists_spec_of_mem_plainAt he
  obtain ⟨levels, hlevels, rfl⟩ := Option.map_eq_some_iff.1 hplain
  have haction : spec.action = .builtin command := haction
  exact ⟨spec, List.mem_filter.2 ⟨hspec, by simpa using haction⟩, hlevels⟩

theorem owner_of_pair {n m : NodeId} {e : Element} {command : Builtin} {a b : CommandSpec}
    (h : ownersOf command = [.command m a, .command m b]) (he : e ∈ plainAt n)
    (haction : e.spec.action = .builtin command) :
    n = m ∧ (plainLevels a.pattern = some e.levels ∨ plainLevels b.pattern = some e.levels) := by
  obtain ⟨spec, howner, hlevels⟩ := exists_owner he haction
  rw [h, List.mem_cons, List.mem_singleton] at howner
  rcases howner with heq | heq
  · obtain ⟨rfl, rfl⟩ := Installation.command.inj heq
    exact ⟨rfl, .inl hlevels⟩
  · obtain ⟨rfl, rfl⟩ := Installation.command.inj heq
    exact ⟨rfl, .inr hlevels⟩

/-- A command of a node by its levels. -/
theorem exists_mem_plainAt {n : NodeId} {spec : CommandSpec} {levels : List Level}
    (h : .command n spec ∈ standard true) (hlevels : plainLevels spec.pattern = some levels) :
    ∃ e ∈ plainAt n, e.levels = levels := by
  refine ⟨⟨spec.plain, levels⟩, ?_, rfl⟩
  refine List.mem_filterMap.2 ⟨spec, ?_, ?_⟩
  · exact List.mem_filterMap.2 ⟨_, h, if_pos rfl⟩
  · rw [plainOf, hlevels]
    rfl

-- ============================================================================
-- Arguments
-- ============================================================================

/-- What the library counts on in the arguments of its commands: an eight in
    front of a stored password, a screen length within bounds, a path. -/
def ArgumentsFit (command : Builtin) (args : List String) : Prop :=
  match command with
  | .password | .enablePassword => args.head? = some "8" → args.length = 2
  | .serviceTerminalLength => ∀ n, screenLength? args = some n → n ≤ 512
  | .logFile => args ≠ []
  | _ => True

variable {elements : List Element} {words : List String} {r : Resolved} {texts : List String}

theorem length_arguments_of_stored (h : r.Fits elements words)
    (hlevels : r.element.levels = texts.map Level.keyword ++ [.eight, .free "WORD"]) :
    r.arguments.length = 2 := by
  have hleast : 2 ≤ (words.drop texts.length).length := h.mandatory_le hlevels
  have hmost : (words.drop texts.length).length ≤ 2 := h.length_le hlevels
  rw [h.arguments_eq hlevels]
  rcases hwords : words.drop texts.length with _ | ⟨mark, _ | ⟨word, _ | _⟩⟩
  · simp [hwords] at hleast
  · simp [hwords] at hleast
  · rfl
  · simp [hwords] at hmost

/-- Behind the keywords there is one word. -/
theorem exists_word {level : Level} (h : r.Fits elements words)
    (hlevels : r.element.levels = texts.map Level.keyword ++ [level])
    (hmandatory : mandatory [level] = 1) (harguments : ∀ word, arguments [level] [word] = [word]) :
    ∃ word, words[texts.length]? = some word ∧ r.arguments = [word] := by
  have hleast := h.mandatory_le hlevels
  have hmost : (words.drop texts.length).length ≤ 1 := h.length_le hlevels
  rw [h.arguments_eq hlevels, ← List.head?_drop]
  rcases hwords : words.drop texts.length with _ | ⟨word, _ | _⟩
  · simp [hwords, hmandatory] at hleast
  · exact ⟨word, rfl, harguments word⟩
  · simp [hwords] at hmost

/-- Of an eight the pattern with the stored form makes more than a password. -/
theorem length_arguments_of_secret {text : String} (h : r.Fits elements words)
    (hlevels : r.element.levels = texts.map Level.keyword ++ [.eight, .free "WORD"] ∨
      r.element.levels = texts.map Level.keyword ++ [.free text])
    {stored : Element} (hmem : stored ∈ elements)
    (hstored : stored.levels = texts.map Level.keyword ++ [.eight, .free "WORD"])
    (height : r.arguments.head? = some "8") : r.arguments.length = 2 := by
  rcases hlevels with hlevels | hlevels
  · exact length_arguments_of_stored h hlevels
  · obtain ⟨word, hword, hargs⟩ := exists_word h hlevels rfl fun _ => rfl
    rw [hargs, List.head?_cons, Option.some.injEq] at height
    subst height
    have hbefore : ∀ j < texts.length, stored.level? j = r.element.level? j := by
      intro j hj
      rw [Element.level?, Element.level?, hstored, hlevels,
        List.getElem?_append_left (by simpa using hj),
        List.getElem?_append_left (by simpa using hj)]
    have hexact : stored.grade texts.length "8" .any = .exact := by
      have hlevel : stored.level? texts.length = some .eight := level?_keywords hstored 0
      rw [Element.grade, hlevel]
      decide +kernel
    have hextend : r.element.grade texts.length "8" .any = .extend := by
      have hlevel : r.element.level? texts.length = some (.free text) :=
        level?_keywords hlevels 0
      rw [Element.grade, hlevel]
      rfl
    have hle := h.strongest texts.length "8" hword stored hmem hbefore
    rw [hexact, hextend] at hle
    exact absurd hle (by decide)

theorem le_of_accepts {word : String} {limit most n : Nat}
    (h : (Range.unsigned 0 most).accepts word) (hn : Text.readUnsigned limit word.toList = some n) :
    n ≤ most := by
  simp only [Range.accepts, Text.readUnsigned, Option.any_eq_true,
    Option.filter_eq_some_iff] at h hn
  obtain ⟨m, ⟨hm, -⟩, hmost⟩ := h
  rw [hn.1, Option.some.injEq] at hm
  rw [hm]
  simpa using hmost

/-- A number of lines is within bounds at whatever word size it is read. -/
theorem screenLength_le (h : r.Fits elements words)
    (hlevels : r.element.levels = texts.map Level.keyword ++ [.lineCount]) {n : Nat}
    (hn : screenLength? r.arguments = some n) : n ≤ 512 := by
  obtain ⟨word, hword, hargs⟩ := exists_word h hlevels rfl fun _ => rfl
  rw [hargs] at hn
  refine le_of_accepts ?_ hn
  have hgrade := h.fits texts.length word hword
  have hlevel : r.element.level? texts.length = some .lineCount := level?_keywords hlevels 0
  rw [Element.grade, hlevel] at hgrade
  by_cases haccepts : (Range.unsigned 0 512).accepts word
  · exact haccepts
  · have hnone : Level.lineCount.grade word .any = .noMatch := by
      simp only [Level.grade, Level.lineCount, List.map_cons, List.map_nil, Token.classify,
        Atom.classify, Option.any_some, haccepts]
      rfl
    exact absurd hnone hgrade

theorem arguments_ne_nil {text : String} {levels : List Level} (h : r.Fits elements words)
    (hlevels : r.element.levels = texts.map Level.keyword ++ Level.free text :: levels) :
    r.arguments ≠ [] := by
  have hleast := h.mandatory_le hlevels
  rw [h.arguments_eq hlevels]
  rcases hwords : words.drop texts.length with _ | ⟨word, rest⟩
  · rw [hwords] at hleast
    exact absurd hleast (Nat.not_succ_le_zero _)
  · exact List.cons_ne_nil _ _

variable {n : NodeId} {most : Nat}

theorem fits_of_levels {levels : List Level} (h : resolve (plainAt n) words false most = .ok r)
    (hlevels : r.element.levels = texts.map Level.keyword ++ levels)
    (hfree : ∀ level ∈ levels, ∀ atom ∈ level.atoms, atom.shape ≠ .vararg) :
    r.Fits (plainAt n) words :=
  fits_of_resolve h (hasNoVararg_keywords hlevels hfree)

/-- The arguments of a password command fit it, of whichever of its two
    patterns they are. -/
theorem argumentsFit_secret {command : Builtin} {stored line : CommandSpec}
    (howners : ownersOf command = [.command .config stored, .command .config line])
    (hstored : plainLevels stored.pattern =
      some (texts.map Level.keyword ++ [.eight, .free "WORD"]))
    (hline : plainLevels line.pattern = some (texts.map Level.keyword ++ [.free "LINE"]))
    (h : resolve (plainAt n) words false most = .ok r)
    (haction : r.element.spec.action = .builtin command)
    (height : r.arguments.head? = some "8") : r.arguments.length = 2 := by
  obtain ⟨rfl, hlevels⟩ := owner_of_pair howners (mem_of_resolve h).1 haction
  rw [hstored, hline, Option.some.injEq, Option.some.injEq] at hlevels
  have hcases := hlevels.imp Eq.symm Eq.symm
  have hmem : Installation.command .config stored ∈ standard true := by
    have hfirst : Installation.command .config stored ∈ ownersOf command := by
      rw [howners]
      exact List.mem_cons_self
    exact (List.mem_filter.1 hfirst).1
  obtain ⟨e, he, hstoredLevels⟩ := exists_mem_plainAt hmem hstored
  have hfits : r.Fits (plainAt .config) words := by
    rcases hcases with hlevels | hlevels <;> exact fits_of_levels h hlevels (by decide)
  exact length_arguments_of_secret hfits hcases he hstoredLevels height

/-- The arguments of a typed line fit the command that it means. -/
theorem argumentsFit_of_resolve {command : Builtin}
    (h : resolve (plainAt n) words false most = .ok r)
    (haction : r.element.spec.action = .builtin command) :
    ArgumentsFit command r.arguments := by
  have hmem := (mem_of_resolve h).1
  cases command
  case password =>
    exact argumentsFit_secret ownersOf_password levels_storedPassword levels_password h haction
  case enablePassword =>
    exact argumentsFit_secret ownersOf_enablePassword levels_storedEnablePassword
      levels_enablePassword h haction
  case serviceTerminalLength =>
    obtain ⟨spec, howner, hlevels⟩ := exists_owner hmem haction
    rw [ownersOf_serviceTerminalLength] at howner
    rw [(Installation.command.inj (List.mem_singleton.1 howner)).2,
      levels_serviceTerminalLength] at hlevels
    have hlevels := (Option.some.inj hlevels).symm
    exact fun n hn => screenLength_le (fits_of_levels h hlevels (by decide)) hlevels hn
  case logFile =>
    have hlevels := (owner_of_pair ownersOf_logFile hmem haction).2
    rw [levels_logFile, levels_logFileLevel, Option.some.injEq, Option.some.injEq] at hlevels
    rcases hlevels.imp Eq.symm Eq.symm with hlevels | hlevels <;>
      exact arguments_ne_nil (fits_of_levels h hlevels (by decide)) hlevels
  all_goals trivial

end Standard

end RouterCli
