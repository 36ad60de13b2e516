import RouterCli.Proofs.Command.Arguments
import RouterCli.Proofs.Text.Words

/-!
  RouterCli.Proofs.Command.ConfigLines

  What the lines that a host's settings are written as mean to a terminal. The
  words in front leave few commands, and a word that is not known is taken by
  the one of them that has a place for it.
-/

namespace RouterCli.Standard

open Text

theorem plainOf_of_levels {spec : CommandSpec} {levels : List Level}
    (h : plainLevels spec.pattern = some levels) : plainOf spec = some ⟨spec.plain, levels⟩ := by
  rw [plainOf, h]
  rfl

/-- The level of the file of a banner. -/
def fileLevel : Level :=
  [⟨.optional "[FILE]" (some ⟨"FILE", .variable⟩), ""⟩]

theorem levels_bannerFile : plainLevels bannerFile.pattern =
    some (["banner", "motd", "file"].map Level.keyword ++ [fileLevel]) := by
  decide +kernel

-- ============================================================================
-- Lines without other words
-- ============================================================================

theorem mem_all (s : Severity) : s ∈ Severity.all := by
  cases s <;> decide

theorem means_logTrap (s : Severity) : Means true ["log", "trap", s.name] .logTrap [s.name] := by
  refine terminal_table.2.1 (["log", "trap", s.name], .logTrap, [s.name]) ?_
  exact List.mem_append_right _ (List.mem_flatMap.2 ⟨s, mem_all s, by simp⟩)

theorem means_logStdoutLevel (s : Severity) :
    Means true ["log", "stdout", s.name] .logStdout [s.name] := by
  refine terminal_table.2.1 (["log", "stdout", s.name], .logStdout, [s.name]) ?_
  exact List.mem_append_right _ (List.mem_flatMap.2 ⟨s, mem_all s, by simp⟩)

theorem means_logStdout : Means true ["log", "stdout"] .logStdout [] :=
  terminal_table.2.1 (["log", "stdout"], .logStdout, []) (by simp [fixedLines])

theorem means_recordPriority : Means true ["log", "record-priority"] .recordPriority [] :=
  terminal_table.2.1 (["log", "record-priority"], .recordPriority, []) (by simp [fixedLines])

theorem means_encryption : Means true ["service", "password-encryption"] .encryption [] :=
  terminal_table.2.1 (["service", "password-encryption"], .encryption, []) (by simp [fixedLines])

theorem means_noBanner : Means true ["no", "banner", "motd"] .noBanner [] :=
  terminal_table.2.1 (["no", "banner", "motd"], .noBanner, []) (by simp [fixedLines])

-- ============================================================================
-- Lines with a word that is not known
-- ============================================================================

theorem level?_mk (spec : CommandSpec) (texts : List String) (levels : List Level) (i : Nat) :
    Element.level? ⟨spec, texts.map Level.keyword ++ levels⟩ (texts.length + i) = levels[i]? :=
  level?_keywords rfl i

theorem advance_free {index : Nat} {cs : Candidates} (w : String) (hne : cs ≠ [])
    (h : ∀ e ∈ cs, ∃ text, e.level? index = some (Level.free text)) :
    cs.advance .exact index w = some cs := by
  refine Candidates.advance_of_variable w hne fun e he => ?_
  obtain ⟨text, hlevel⟩ := h e he
  exact ⟨_, _, hlevel, rfl, rfl⟩

theorem advance_free_one {index : Nat} {e : Element} {text : String} (w : String)
    (h : e.level? index = some (Level.free text)) :
    Candidates.advance .exact index [e] w = some [e] := by
  refine advance_free w (List.cons_ne_nil e []) fun e' he' => ⟨text, ?_⟩
  rw [List.mem_singleton.1 he']
  exact h

section

variable {front texts rest args : List String} {specs : List CommandSpec}
  {stored spec : CommandSpec} {levels : List Level} {level : Level} {w : String}
  {command : Builtin}

theorem means_of_scan {s : Scan} (h : Begins front specs)
    (hscan : scan .exact front.length (specs.filterMap plainOf) rest = .ok s)
    (hselect : s.select = .ok ⟨spec.plain, levels⟩)
    (haction : spec.action = .builtin command ∧ spec.daemon = 0)
    (hargs : arguments levels (front ++ rest) = args) (hfew : args.length ≤ 2) :
    Means true (front ++ rest) command args := by
  have hlimit : args.length < Limits.standard.arguments :=
    Nat.lt_of_le_of_lt hfew (by decide)
  rw [Means, resolve_of_advanceAll h hscan hselect hargs hlimit, ← haction.1, ← haction.2]
  rfl

/-- The last word leaves one command. -/
theorem means_of_advance (h : Begins front specs)
    (hadvance : Candidates.advance .exact front.length (specs.filterMap plainOf) w =
      some [⟨spec.plain, levels⟩])
    (hmandatory : mandatory levels ≤ front.length + 1)
    (haction : spec.action = .builtin command ∧ spec.daemon = 0)
    (hargs : arguments levels (front ++ [w]) = args) (hfew : args.length ≤ 2) :
    Means true (front ++ [w]) command args := by
  have hscan : scan .exact front.length (specs.filterMap plainOf) [w] =
      .ok ⟨[⟨spec.plain, levels⟩], front.length + 1, false⟩ := by
    rw [scan_of_advance hadvance]
    rfl
  refine means_of_scan h hscan ?_ haction hargs hfew
  simp [Scan.select, Element.mandatory, hmandatory]

/-- Behind the keywords of a pattern stands the word that it asks for. -/
theorem means_of_last (h : Begins texts specs)
    (hadvance : Candidates.advance .exact texts.length (specs.filterMap plainOf) w =
      some [⟨spec.plain, texts.map Level.keyword ++ [level]⟩])
    (hmandatory : mandatory [level] ≤ 1) (hword : arguments [level] [w] = [w])
    (haction : spec.action = .builtin command ∧ spec.daemon = 0) :
    Means true (texts ++ [w]) command [w] := by
  refine means_of_advance h hadvance ?_ haction ?_ (Nat.le_succ 1)
  · rw [mandatory_keywords]
    omega
  · rw [arguments_keywords, List.drop_left, hword]

theorem grade_eight (hw : IsWord w) (height : w ≠ "8") :
    Level.eight.grade w .exact = .noMatch := by
  have hkeyword : ∀ text, text ≠ w → Grade.ofKeyword text w .exact = .noMatch := by
    intro text htext
    unfold Grade.ofKeyword
    have hstrict : ¬ Grade.exact ≤ Grade.partly := by decide
    rw [if_neg htext, if_neg hstrict, ite_self]
  show Grade.strongest [Grade.ofKeyword "8" w .exact, Grade.ofKeyword "" w .exact] = .noMatch
  rw [hkeyword "8" (Ne.symm height), hkeyword "" (Ne.symm hw.1)]
  rfl

/-- A password that is no eight is taken as typed. -/
theorem means_plainSecret (h : Begins texts [stored, spec])
    (hstored : plainLevels stored.pattern =
      some (texts.map Level.keyword ++ [.eight, .free "WORD"]))
    (hline : plainLevels spec.pattern = some (texts.map Level.keyword ++ [.free "LINE"]))
    (haction : spec.action = .builtin command ∧ spec.daemon = 0) (hw : IsWord w)
    (height : w ≠ "8") : Means true (texts ++ [w]) command [w] := by
  have hmandatory : mandatory [Level.free "LINE"] ≤ 1 := Nat.le_refl 1
  refine means_of_last h ?_ hmandatory rfl haction
  have hmark : Element.level? ⟨stored.plain, texts.map Level.keyword ++ [.eight, .free "WORD"]⟩
      texts.length = some .eight := level?_mk _ texts _ 0
  have hgone : Element.grade ⟨stored.plain, texts.map Level.keyword ++ [.eight, .free "WORD"]⟩
      texts.length w .exact = .noMatch := by
    rw [Element.grade, hmark]
    exact grade_eight hw height
  have hlast : Element.level? ⟨spec.plain, texts.map Level.keyword ++ [.free "LINE"]⟩
      texts.length = some (.free "LINE") := level?_mk _ texts _ 0
  have hkept : Element.grade ⟨spec.plain, texts.map Level.keyword ++ [.free "LINE"]⟩
      texts.length w .exact = .extend := by
    rw [Element.grade, hlast]
    rfl
  rw [Candidates.advance_filter]
  simp only [List.filterMap_cons, List.filterMap_nil, plainOf_of_levels hstored,
    plainOf_of_levels hline, List.filter_cons, List.filter_nil, hgone, hkept]
  exact advance_free_one w hlast

/-- Behind an eight stands a stored password. -/
theorem means_storedSecret (h : Begins front [spec]) (hfront : front = texts ++ ["8"])
    (hlevels : plainLevels spec.pattern =
      some (texts.map Level.keyword ++ [.eight, .free "WORD"]))
    (haction : spec.action = .builtin command ∧ spec.daemon = 0) (w : String) :
    Means true (front ++ [w]) command ["8", w] := by
  have hlength : front.length = texts.length + 1 := by
    rw [hfront]
    exact List.length_append
  have hadvance : Candidates.advance .exact front.length ([spec].filterMap plainOf) w =
      some [⟨spec.plain, texts.map Level.keyword ++ [.eight, .free "WORD"]⟩] := by
    simp only [List.filterMap_cons, List.filterMap_nil, plainOf_of_levels hlevels, hlength]
    exact advance_free_one w (level?_mk _ texts _ 1)
  refine means_of_advance h hadvance ?_ haction ?_ (Nat.le_refl 2)
  · rw [mandatory_keywords, hlength]
    exact Nat.le_refl _
  · rw [hfront, List.append_assoc, arguments_keywords, List.drop_left]
    rfl

theorem means_of_free {text : String} (h : Begins texts [spec])
    (hlevels : plainLevels spec.pattern = some (texts.map Level.keyword ++ [.free text]))
    (haction : spec.action = .builtin command ∧ spec.daemon = 0) (w : String) :
    Means true (texts ++ [w]) command [w] := by
  have hmandatory : mandatory [Level.free text] ≤ 1 := Nat.le_refl 1
  refine means_of_last h ?_ hmandatory rfl haction
  simp only [List.filterMap_cons, List.filterMap_nil, plainOf_of_levels hlevels]
  exact advance_free_one w (level?_mk _ texts _ 0)

end

theorem begins {front : List String} {specs : List CommandSpec}
    (h : (front, specs) ∈ beginnings) : Begins front specs :=
  terminal_table.2.2 (front, specs) h

theorem means_hostname (w : String) : Means true ["hostname", w] .hostname [w] := by
  have hbegins : Begins ["hostname"] [hostname] := begins (by simp [beginnings])
  exact means_of_free hbegins levels_hostname ⟨rfl, rfl⟩ w

theorem means_password {w : String} (hw : IsWord w) (height : w ≠ "8") :
    Means true ["password", w] .password [w] := by
  have hbegins : Begins ["password"] [storedPassword, password] := begins (by simp [beginnings])
  show Means true (["password"] ++ [w]) .password [w]
  exact means_plainSecret hbegins levels_storedPassword levels_password ⟨rfl, rfl⟩ hw height

theorem means_storedPassword (w : String) : Means true ["password", "8", w] .password ["8", w] := by
  have hbegins : Begins ["password", "8"] [storedPassword] := begins (by simp [beginnings])
  exact means_storedSecret hbegins rfl levels_storedPassword ⟨rfl, rfl⟩ w

theorem means_enablePassword {w : String} (hw : IsWord w) (height : w ≠ "8") :
    Means true ["enable", "password", w] .enablePassword [w] := by
  have hbegins : Begins ["enable", "password"] [storedEnablePassword, enablePassword] :=
    begins (by simp [beginnings])
  show Means true (["enable", "password"] ++ [w]) .enablePassword [w]
  exact means_plainSecret hbegins levels_storedEnablePassword levels_enablePassword ⟨rfl, rfl⟩
    hw height

theorem means_storedEnablePassword (w : String) :
    Means true ["enable", "password", "8", w] .enablePassword ["8", w] := by
  have hbegins : Begins ["enable", "password", "8"] [storedEnablePassword] :=
    begins (by simp [beginnings])
  exact means_storedSecret hbegins rfl levels_storedEnablePassword ⟨rfl, rfl⟩ w

theorem means_bannerFile (w : String) : Means true ["banner", "motd", "file", w] .bannerFile [w] := by
  have hbegins : Begins ["banner", "motd", "file"] [bannerFile] := begins (by simp [beginnings])
  have hadvance : Candidates.advance .exact ["banner", "motd", "file"].length
      ([bannerFile].filterMap plainOf) w =
        some [⟨bannerFile.plain, ["banner", "motd", "file"].map Level.keyword ++ [fileLevel]⟩] := by
    simp only [List.filterMap_cons, List.filterMap_nil, plainOf_of_levels levels_bannerFile]
    refine Candidates.advance_of_variable w (by simp) fun e he => ?_
    obtain rfl := List.mem_singleton.1 he
    exact ⟨_, _, level?_mk _ ["banner", "motd", "file"] _ 0, rfl, rfl⟩
  show Means true (["banner", "motd", "file"] ++ [w]) .bannerFile [w]
  exact means_of_last hbegins hadvance (Nat.zero_le 1) rfl ⟨rfl, rfl⟩

theorem means_serviceTerminalLength {n : Nat} (h : n ≤ 512) :
    Means true ["service", "terminal-length", toString n] .serviceTerminalLength [toString n] := by
  have hbegins : Begins ["service", "terminal-length"] [serviceTerminalLength] :=
    begins (by simp [beginnings])
  have haccepts : (Range.unsigned 0 512).accepts (toString n) := by
    have hread : readUnsigned (maxUnsigned 64) (toString n).toList = some n :=
      readUnsigned_toString (Nat.le_trans h (by decide))
    rw [Range.accepts, hread]
    simp [h]
  have hadvance : Candidates.advance .exact ["service", "terminal-length"].length
      ([serviceTerminalLength].filterMap plainOf) (toString n) =
        some [⟨serviceTerminalLength.plain,
          ["service", "terminal-length"].map Level.keyword ++ [.lineCount]⟩] := by
    simp only [List.filterMap_cons, List.filterMap_nil,
      plainOf_of_levels levels_serviceTerminalLength]
    have hlast := level?_mk serviceTerminalLength.plain ["service", "terminal-length"]
      [.lineCount] 0
    exact Candidates.advance_of_range hlast rfl haccepts
  have hmandatory : mandatory [Level.lineCount] ≤ 1 := Nat.le_refl 1
  show Means true (["service", "terminal-length"] ++ [toString n]) .serviceTerminalLength [toString n]
  exact means_of_last hbegins hadvance hmandatory rfl ⟨rfl, rfl⟩

/-- The two patterns of a log file take its path alike. -/
theorem advance_logFile (w : String) : Candidates.advance .exact ["log", "file"].length
    ([logFile, logFileLevel].filterMap plainOf) w =
      some ([logFile, logFileLevel].filterMap plainOf) := by
  simp only [List.filterMap_cons, List.filterMap_nil, plainOf_of_levels levels_logFile,
    plainOf_of_levels levels_logFileLevel]
  refine advance_free w (by simp) fun e he => ⟨"FILENAME", ?_⟩
  rw [List.mem_cons, List.mem_singleton] at he
  rcases he with rfl | rfl
  · exact level?_mk _ ["log", "file"] _ 0
  · exact level?_mk _ ["log", "file"] _ 0

theorem means_logFile (w : String) : Means true ["log", "file", w] .logFile [w] := by
  have hbegins : Begins ["log", "file"] [logFile, logFileLevel] := begins (by simp [beginnings])
  have hscan : scan .exact ["log", "file"].length ([logFile, logFileLevel].filterMap plainOf) [w] =
      .ok ⟨[logFile, logFileLevel].filterMap plainOf, 3, false⟩ := by
    rw [scan_of_advance (advance_logFile w)]
    rfl
  have hselect : Scan.select ⟨[logFile, logFileLevel].filterMap plainOf, 3, false⟩ =
      .ok ⟨logFile.plain, ["log", "file"].map Level.keyword ++ [.free "FILENAME"]⟩ := by
    simp only [List.filterMap_cons, List.filterMap_nil, plainOf_of_levels levels_logFile,
      plainOf_of_levels levels_logFileLevel]
    rfl
  show Means true (["log", "file"] ++ [w]) .logFile [w]
  exact means_of_scan hbegins hscan hselect ⟨rfl, rfl⟩ rfl (Nat.le_succ 1)

theorem advance_logFileLevel : ∀ s ∈ Severity.all,
    Candidates.advance .exact 3 ([logFile, logFileLevel].filterMap plainOf) s.name =
      some ([logFileLevel].filterMap plainOf) := by
  decide +kernel

theorem means_logFileLevel (w : String) (s : Severity) :
    Means true ["log", "file", w, s.name] .logFile [w, s.name] := by
  have hbegins : Begins ["log", "file"] [logFile, logFileLevel] := begins (by simp [beginnings])
  have hscan : scan .exact ["log", "file"].length ([logFile, logFileLevel].filterMap plainOf)
      [w, s.name] = .ok ⟨[logFileLevel].filterMap plainOf, 4, false⟩ := by
    rw [scan_of_advance (advance_logFile w)]
    exact scan_of_advance (advance_logFileLevel s (mem_all s)) []
  have hselect : Scan.select ⟨[logFileLevel].filterMap plainOf, 4, false⟩ =
      .ok ⟨logFileLevel.plain, ["log", "file"].map Level.keyword ++
        [Level.free "FILENAME", Severity.all.flatMap fun s => Level.keyword s.name]⟩ := by
    simp only [List.filterMap_cons, List.filterMap_nil, plainOf_of_levels levels_logFileLevel]
    rfl
  show Means true (["log", "file"] ++ [w, s.name]) .logFile [w, s.name]
  exact means_of_scan hbegins hscan hselect ⟨rfl, rfl⟩ rfl (Nat.le_refl 2)

end RouterCli.Standard
