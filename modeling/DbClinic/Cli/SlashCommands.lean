import DbClinic.Runtime.Trim

/-!
The slash commands. The command word is found by a tokeniser that skips any number
of slashes and blanks; the text behind it by a match of the input against one slash
and the word. Where the two disagree the text is lost.
-/

namespace DbClinic.Cli

open DbClinic.Runtime List

inductive SlashCommand
  | help | status | sandbox | compact | commit | debugToolCall | cost | memory | init | diff
  | version | doctor | vim | upgrade | stats | share | feedback | files | fast | exit | summary
  | desktop | brief | advisor | stickers | insights | thinkback | releaseNotes | securityReview
  | keybindings | privacySettings
  | bughunter (scope : Option String)
  | pr (context : Option String)
  | issue (context : Option String)
  | ultraplan (task : Option String)
  | teleport (target : Option String)
  | resume (sessionPath : Option String)
  | export (path : Option String)
  | plan (mode : Option String)
  | review (scope : Option String)
  | tasks (args : Option String)
  | theme (name : Option String)
  | voice (mode : Option String)
  | usage (scope : Option String)
  | rename (name : Option String)
  | copy (target : Option String)
  | hooks (args : Option String)
  | context (action : Option String)
  | color (scheme : Option String)
  | effort (level : Option String)
  | branch (name : Option String)
  | rewind (steps : Option String)
  | ide (target : Option String)
  | tag (label : Option String)
  | outputStyle (style : Option String)
  | addDir (path : Option String)
  | agents (args : Option String)
  | skills (args : Option String)
  | model (model : Option String)
  | permissions (mode : Option String)
  | clear (confirm : Bool)
  | config (option : Option String)
  | history (count : Option String)
  | mcp (action target : Option String)
  | session (action target : Option String)
  | plugins (action target : Option String)
  | unknown (name : String)

def asString (f : List Char → List Char) (s : String) : String := String.ofList (f s.toList)

section Parser

-- What `render_slash_command_help_detail` prints, at the end of the messages.
variable (helpDetail : String → Option String)

def commandError (message command usage : String) : String :=
  let detail := ((helpDetail command).map fun detail => "\n\n" ++ detail).getD ""
  s!"{message}\n  Usage            {usage}{detail}"

def commandRootName (command : String) : String :=
  ((splitWhitespace command.toList).head?.map String.ofList).getD command

def usageError (command argumentHint : String) : String :=
  let usage := asString trimEnd s!"/{command} {argumentHint}"
  commandError helpDetail s!"Usage: {usage}" (commandRootName command) usage

/-- What the arms of the parser return: a value, or the message of the error. -/
abbrev Parsed (α : Type) : Type := Except String α

def validateNoArgs (command : String) (args : List String) : Parsed Unit :=
  if args = [] then .ok ()
  else .error (commandError helpDetail
    s!"Unexpected arguments for /{command}." command s!"/{command}")

def optionalSingleArg (command : String) (args : List String) (argumentHint : String) :
    Parsed (Option String) :=
  match args with
  | [] => .ok none
  | [value] => .ok (some value)
  | _ => .error (usageError helpDetail command argumentHint)

def requireRemainder (command : String) (remainder : Option String) (argumentHint : String) :
    Parsed String :=
  match remainder with
  | some text => .ok text
  | none => .error (usageError helpDetail command argumentHint)

def parseChoice (command argumentHint : String) (choices : List String)
    (unsupported : String → String) (args : List String) : Parsed (Option String) := do
  match ← optionalSingleArg helpDetail command args argumentHint with
  | none => .ok none
  | some choice =>
    if choice ∈ choices then .ok (some choice)
    else .error (commandError helpDetail (unsupported choice) command
      s!"/{command} {argumentHint}")

def parsePermissionsMode (args : List String) : Parsed (Option String) :=
  parseChoice helpDetail "permissions"
    "[read-only|workspace-write|danger-full-access]"
    ["read-only", "workspace-write", "danger-full-access"]
    (fun mode => s!"Unsupported /permissions mode '{mode}'. " ++
      "Use read-only, workspace-write, or danger-full-access.") args

def parseConfigSection (args : List String) : Parsed (Option String) :=
  parseChoice helpDetail "config" "[env|hooks|model|plugins]"
    ["env", "hooks", "model", "plugins"]
    (fun part => s!"Unsupported /config section '{part}'. Use env, hooks, model, or plugins.") args

def parseClearArgs (args : List String) : Parsed Bool :=
  match args with
  | [] => .ok false
  | ["--confirm"] => .ok true
  | [unexpected] => .error (commandError helpDetail
      s!"Unsupported /clear argument '{unexpected}'. Use /clear or /clear --confirm."
      "clear" "/clear [--confirm]")
  | _ => .error (usageError helpDetail "clear" "[--confirm]")

def parseSessionCommand (args : List String) : Parsed SlashCommand :=
  let unexpected (action usage : String) := Except.error (commandError
    helpDetail s!"Unexpected arguments for /session {action}." "session" usage)
  match args with
  | [] => .ok (.session none none)
  | ["list"] => .ok (.session (some "list") none)
  | "list" :: _ => .error (usageError helpDetail "session"
      "[list|switch <session-id>|fork [branch-name]|delete <session-id> [--force]]")
  | ["switch"] => .error (usageError helpDetail "session switch" "<session-id>")
  | ["switch", target] => .ok (.session (some "switch") (some target))
  | "switch" :: _ => unexpected "switch" "/session switch <session-id>"
  | ["fork"] => .ok (.session (some "fork") none)
  | ["fork", target] => .ok (.session (some "fork") (some target))
  | "fork" :: _ => unexpected "fork" "/session fork [branch-name]"
  | ["delete"] => .error (usageError helpDetail "session delete" "<session-id> [--force]")
  | ["delete", target] => .ok (.session (some "delete") (some target))
  | ["delete", target, "--force"] => .ok (.session (some "delete-force") (some target))
  | ["delete", _, flag] => .error (commandError helpDetail
      s!"Unsupported /session delete flag '{flag}'. Use --force to skip confirmation."
      "session" "/session delete <session-id> [--force]")
  | "delete" :: _ => unexpected "delete" "/session delete <session-id> [--force]"
  | action :: _ => .error (commandError helpDetail
      (s!"Unknown /session action '{action}'. Use list, switch <session-id>, " ++
        "fork [branch-name], or delete <session-id> [--force].") "session"
      "/session [list|switch <session-id>|fork [branch-name]|delete <session-id> [--force]]")

def parseMcpCommand (args : List String) : Parsed SlashCommand :=
  match args with
  | [] => .ok (.mcp none none)
  | ["list"] => .ok (.mcp (some "list") none)
  | "list" :: _ => .error (usageError helpDetail "mcp list" "")
  | ["show"] => .error (usageError helpDetail "mcp show" "<server>")
  | ["show", target] => .ok (.mcp (some "show") (some target))
  | "show" :: _ => .error (commandError helpDetail
      "Unexpected arguments for /mcp show." "mcp" "/mcp show <server>")
  | ["help"] | ["-h"] | ["--help"] => .ok (.mcp (some "help") none)
  | action :: _ => .error (commandError helpDetail
      s!"Unknown /mcp action '{action}'. Use list, show <server>, or help."
      "mcp" "/mcp [list|show <server>|help]")

/-- An action of `/plugin` with exactly one argument. -/
def parsePluginTarget (action hint : String) (targets : List String) : Parsed SlashCommand :=
  match targets with
  | [] => .error (usageError helpDetail s!"plugin {action}" hint)
  | [target] => .ok (.plugins (some action) (some target))
  | _ => .error (commandError helpDetail
      s!"Unexpected arguments for /plugin {action}." "plugin" s!"/plugin {action} {hint}")

def parsePluginCommand (args : List String) : Parsed SlashCommand :=
  match args with
  | [] => .ok (.plugins none none)
  | ["list"] => .ok (.plugins (some "list") none)
  | "list" :: _ => .error (usageError helpDetail "plugin list" "")
  | ["install"] => .error (usageError helpDetail "plugin install" "<path>")
  | "install" :: target => .ok (.plugins (some "install") (some (" ".intercalate target)))
  | "enable" :: targets => parsePluginTarget helpDetail "enable" "<name>" targets
  | "disable" :: targets => parsePluginTarget helpDetail "disable" "<name>" targets
  | "uninstall" :: targets => parsePluginTarget helpDetail "uninstall" "<id>" targets
  | "update" :: targets => parsePluginTarget helpDetail "update" "<id>" targets
  | action :: _ => .error (commandError helpDetail
      (s!"Unknown /plugin action '{action}'. Use list, install <path>, enable <name>, " ++
        "disable <name>, uninstall <id>, or update <id>.") "plugin"
      "/plugin [list|install <path>|enable <name>|disable <name>|uninstall <id>|update <id>]")

def normalizeOptionalArgs (args : Option String) : Option String :=
  (args.map (asString trim)).filter fun value => value ≠ ""

def parseListOrHelpArgs (command : String) (args : Option String) : Parsed (Option String) :=
  match normalizeOptionalArgs args with
  | none => .ok args
  | some value =>
    if value ∈ ["list", "help", "-h", "--help"] then .ok args
    else .error (commandError helpDetail
      (s!"Unexpected arguments for /{command}: {value}. " ++
        s!"Use /{command}, /{command} list, or /{command} help.")
      command s!"/{command} [list|help]")

def installWord : List Char := "install".toList

def parseSkillsArgs (args : Option String) : Parsed (Option String) :=
  match normalizeOptionalArgs args with
  | none => .ok none
  | some args =>
    if args ∈ ["list", "help", "-h", "--help"] then .ok (some args)
    else if args = "install" then
      .error (commandError helpDetail "Usage: /skills install <path>" "skills"
        "/skills install <path>")
    else
      match (stripPrefix installWord args.toList).map trim with
      | none => .ok (some args)
      | some target =>
        if target ≠ [] then .ok (some ("install " ++ String.ofList target))
        else .ok (some args)

inductive Arm
  | noArgs (command : SlashCommand)
  | remainder (carry : Option String → SlashCommand)
  | required (carry : Option String → SlashCommand) (hint : String)
  | listOrHelp (carry : Option String → SlashCommand)
  | skills
  | parsed (parse : String → List String → Parsed SlashCommand)
  | removed

def arms : List (String × Arm) :=
  let single (carry : Option String → SlashCommand) (hint : String) :=
    Arm.parsed fun command args =>
    carry <$> optionalSingleArg helpDetail command args hint
  [("help", .noArgs .help), ("status", .noArgs .status), ("sandbox", .noArgs .sandbox),
    ("compact", .noArgs .compact), ("bughunter", .remainder .bughunter),
    ("commit", .noArgs .commit), ("pr", .remainder .pr), ("issue", .remainder .issue),
    ("ultraplan", .remainder .ultraplan),
    ("teleport", .required .teleport "<symbol-or-path>"),
    ("debug-tool-call", .noArgs .debugToolCall), ("model", single .model "[model]"),
    ("permissions", .parsed fun _ args => .permissions <$> parsePermissionsMode helpDetail args),
    ("clear", .parsed fun _ args => .clear <$> parseClearArgs helpDetail args),
    ("cost", .noArgs .cost), ("resume", .required .resume "<session-path>"),
    ("config", .parsed fun _ args => .config <$> parseConfigSection helpDetail args),
    ("mcp", .parsed fun _ => parseMcpCommand helpDetail),
    ("memory", .noArgs .memory), ("init", .noArgs .init), ("diff", .noArgs .diff),
    ("version", .noArgs .version), ("export", .remainder .export),
    ("session", .parsed fun _ => parseSessionCommand helpDetail),
    ("plugin", .parsed fun _ => parsePluginCommand helpDetail),
    ("plugins", .parsed fun _ => parsePluginCommand helpDetail),
    ("marketplace", .parsed fun _ => parsePluginCommand helpDetail),
    ("agents", .listOrHelp .agents), ("skills", .skills), ("skill", .skills),
    ("doctor", .noArgs .doctor), ("providers", .noArgs .doctor), ("login", .removed),
    ("logout", .removed), ("vim", .noArgs .vim), ("upgrade", .noArgs .upgrade),
    ("stats", .noArgs .stats), ("tokens", .noArgs .stats), ("cache", .noArgs .stats),
    ("share", .noArgs .share), ("feedback", .noArgs .feedback), ("files", .noArgs .files),
    ("fast", .noArgs .fast), ("exit", .noArgs .exit), ("summary", .noArgs .summary),
    ("desktop", .noArgs .desktop), ("brief", .noArgs .brief), ("advisor", .noArgs .advisor),
    ("stickers", .noArgs .stickers), ("insights", .noArgs .insights),
    ("thinkback", .noArgs .thinkback), ("release-notes", .noArgs .releaseNotes),
    ("security-review", .noArgs .securityReview), ("keybindings", .noArgs .keybindings),
    ("privacy-settings", .noArgs .privacySettings), ("plan", .remainder .plan),
    ("review", .remainder .review), ("tasks", .remainder .tasks), ("theme", .remainder .theme),
    ("voice", .remainder .voice), ("usage", .remainder .usage), ("rename", .remainder .rename),
    ("copy", .remainder .copy), ("hooks", .remainder .hooks), ("context", .remainder .context),
    ("color", .remainder .color), ("effort", .remainder .effort), ("branch", .remainder .branch),
    ("rewind", .remainder .rewind), ("ide", .remainder .ide), ("tag", .remainder .tag),
    ("output-style", .remainder .outputStyle), ("add-dir", .remainder .addDir),
    ("history", single .history "[count]")]

def remainderAfterCommand (input command : List Char) : Option String :=
  (((stripPrefix ('/' :: command) (trim input)).map trim).filter (· ≠ [])).map String.ofList

def runArm (arm : Arm) (command : String) (args : List String) (remainder : Option String) :
    Parsed SlashCommand :=
  match arm with
  | .noArgs parsed => do
    validateNoArgs helpDetail command args
    return parsed
  | .remainder carry => .ok (carry remainder)
  | .required carry hint => do
    return carry (some (← requireRemainder helpDetail command remainder hint))
  | .listOrHelp carry => carry <$> parseListOrHelpArgs helpDetail command remainder
  | .skills => .skills <$> parseSkillsArgs helpDetail remainder
  | .parsed parse => parse command args
  | .removed => .error (commandError helpDetail
      "This auth flow was removed. Set ANTHROPIC_API_KEY or ANTHROPIC_AUTH_TOKEN instead."
      command "")

def validateSlashCommandInput (input : String) : Parsed (Option SlashCommand) :=
  let trimmed := trim input.toList
  if trimmed.head? ≠ some '/' then .ok none
  else
    match splitWhitespace (trimmed.dropWhile (· = '/')) with
    | [] => .error "Slash command name is missing. Use /help to list available slash commands."
    | word :: parts =>
      let command := String.ofList word
      let args := parts.map String.ofList
      let remainder := remainderAfterCommand trimmed word
      match (arms helpDetail).lookup command with
      | some arm => some <$> runArm helpDetail arm command args remainder
      | none => .ok (some (.unknown command))

end Parser

def freeText : SlashCommand → Option (Option String)
  | .bughunter text | .pr text | .issue text | .ultraplan text | .teleport text | .resume text
  | .export text | .plan text | .review text | .tasks text | .theme text | .voice text
  | .usage text | .rename text | .copy text | .hooks text | .context text | .color text
  | .effort text | .branch text | .rewind text | .ide text | .tag text | .outputStyle text
  | .addDir text | .agents text => some text
  | _ => none

def skillsText : SlashCommand → Option (Option String)
  | .skills text => some text
  | _ => none

def isWordChar (c : Char) : Bool := !isWhitespace c

def fromWord (input : String) : List Char :=
  ((trim input.toList).dropWhile (· = '/')).dropWhile isWhitespace

def commandWord (input : String) : List Char := (fromWord input).takeWhile isWordChar

def argumentText (input : String) : List Char := trim ((fromWord input).dropWhile isWordChar)

def textOrNone (text : List Char) : Option String :=
  if text = [] then none else some (String.ofList text)

/-- One slash stands directly before the command word, and nothing before the slash. -/
def Direct (input : String) : Prop := '/' :: commandWord input <+: trim input.toList

def found (input : String) : Option String :=
  remainderAfterCommand (trim input.toList) (commandWord input)

variable {helpDetail : String → Option String} {input : String} {cs word : List Char}

theorem splitWhitespace_first (h : cs.dropWhile isWhitespace ≠ []) :
    splitWhitespace cs = (cs.dropWhile isWhitespace).takeWhile isWordChar ::
      splitWhitespace ((cs.dropWhile isWhitespace).dropWhile isWordChar) := by
  have hblanks : splitWhitespace cs = splitWhitespace (cs.dropWhile isWhitespace) := by
    conv_lhs => rw [← @takeWhile_append_dropWhile _ isWhitespace cs]
    exact splitWhitespace_blanks (fun c hc => mem_takeWhile_imp hc) _
  rw [hblanks]
  have hhead := head?_dropWhile_not isWhitespace cs
  generalize cs.dropWhile isWhitespace = rest at h hhead
  have hne : rest.takeWhile isWordChar ≠ [] := by
    cases rest with
    | nil => exact absurd rfl h
    | cons c rest => simpa [isWordChar] using hhead
  have hword : ∀ c ∈ rest.takeWhile isWordChar, isWhitespace c = false := by
    intro c hc
    simpa [isWordChar] using mem_takeWhile_imp hc
  conv_lhs => rw [← @takeWhile_append_dropWhile _ isWordChar rest]
  have hback := head?_dropWhile_not isWordChar rest
  cases hafter : rest.dropWhile isWordChar with
  | nil => simpa [splitWhitespace] using splitWhitespace_word hne hword
  | cons b more =>
    have hb : isWhitespace b = true := by simpa [hafter, isWordChar] using hback
    have hmore : splitWhitespace (b :: more) = splitWhitespace more :=
      @splitWhitespace_blanks [b] (by simpa using hb) more
    rw [splitWhitespace_append _ hb, splitWhitespace_word hne hword, hmore]
    rfl

theorem found_eq (hword : commandWord input ≠ [] ∧ (commandWord input).head? ≠ some '/') :
    (Direct input → found input = textOrNone (argumentText input)) ∧
      (¬Direct input → found input = none) := by
  obtain ⟨hne, hslash⟩ := hword
  unfold found remainderAfterCommand
  rw [trim_trim]
  constructor
  · rintro ⟨after, hafter⟩
    rw [stripPrefix_eq_some_iff.mpr hafter.symm]
    have hfrom : fromWord input = commandWord input ++ after := by
      have hword : ∀ c ∈ (commandWord input).head?, c ≠ '/' ∧ isWhitespace c = false := by
        intro c hc
        have hmem := mem_takeWhile_imp (mem_of_mem_head? hc)
        refine ⟨?_, by simpa [isWordChar] using hmem⟩
        rintro rfl
        exact hslash hc
      rw [fromWord, ← hafter]
      generalize commandWord input = word at hne hword
      cases word with
      | nil => exact absurd rfl hne
      | cons c word =>
        obtain ⟨hc, hblank⟩ := hword c rfl
        simp [hc, hblank]
    have harg : (fromWord input).dropWhile isWordChar = after := by
      have hsplit := @takeWhile_append_dropWhile _ isWordChar (fromWord input)
      nth_rewrite 3 [hfrom] at hsplit
      exact append_cancel_left hsplit
    rw [argumentText, harg, textOrNone]
    simp only [Option.map_some, Option.filter_some]
    by_cases hnil : trim after = [] <;> simp [hnil]
  · intro h
    rw [stripPrefix_eq_none_iff.mpr h]
    rfl

def NoText (command : SlashCommand) : Prop :=
  freeText command = none ∧ skillsText command = none

def Carries (carry : Option String → SlashCommand) : Prop :=
  ∀ text, freeText (carry text) = some text ∧ skillsText (carry text) = none

def Arm.Spec : Arm → Prop
  | .noArgs command => NoText command
  | .remainder carry | .required carry _ | .listOrHelp carry => Carries carry
  | .skills | .removed => True
  | .parsed parse => ∀ name args command, parse name args = .ok command → NoText command

variable {command : SlashCommand} {α : Type} {args : List String} {carry : α → SlashCommand}
variable {arm : Arm} {text : List Char}

theorem noText_of_map {parsed : Parsed α} (hcarry : ∀ a, NoText (carry a))
    (h : carry <$> parsed = .ok command) : NoText command := by
  cases parsed with
  | error message => cases h
  | ok a =>
    cases h
    exact hcarry a

theorem noText_parseMcpCommand (h : parseMcpCommand helpDetail args = .ok command) :
    NoText command := by
  unfold parseMcpCommand at h
  split at h <;> cases h <;> exact ⟨rfl, rfl⟩

theorem noText_parseSessionCommand (h : parseSessionCommand helpDetail args = .ok command) :
    NoText command := by
  unfold parseSessionCommand at h
  simp only at h
  split at h <;> cases h <;> exact ⟨rfl, rfl⟩

theorem noText_parsePluginTarget {action hint : String} {targets : List String}
    (h : parsePluginTarget helpDetail action hint targets = .ok command) :
    NoText command := by
  unfold parsePluginTarget at h
  split at h <;> cases h
  exact ⟨rfl, rfl⟩

theorem noText_parsePluginCommand (h : parsePluginCommand helpDetail args = .ok command) :
    NoText command := by
  unfold parsePluginCommand at h
  split at h
  all_goals first
    | exact noText_parsePluginTarget h
    | cases h <;> exact ⟨rfl, rfl⟩

theorem spec_parsed_map (hcarry : ∀ a, NoText (carry a)) {parse : String → List String → Parsed α} :
    (Arm.parsed fun name args => carry <$> parse name args).Spec :=
  fun _ _ _ h => noText_of_map hcarry h

theorem mem_of_lookup {name : String} {a : α} {rows : List (String × α)}
    (h : rows.lookup name = some a) : (name, a) ∈ rows := by
  obtain ⟨front, back, rfl, -⟩ := lookup_eq_some_iff.mp h
  exact mem_append_right _ mem_cons_self

theorem names_arms : (arms helpDetail).map Prod.fst = (arms fun _ => none).map Prod.fst := by
  simp only [arms, map_cons, map_nil]

theorem head?_of_lookup (h : (arms helpDetail).lookup (String.ofList word) = some arm) :
    word ≠ [] ∧ word.head? ≠ some '/' := by
  have hall : ∀ name ∈ (arms fun _ => none).map Prod.fst,
      name.toList ≠ [] ∧ name.toList.head? ≠ some '/' := by
    decide +kernel
  have hname := mem_map_of_mem (f := Prod.fst) (mem_of_lookup h)
  rw [names_arms] at hname
  have hword := hall _ hname
  rwa [String.toList_ofList] at hword

theorem spec_of_mem_arms : ∀ row ∈ arms helpDetail, row.2.Spec := by
  unfold arms
  simp only [forall_mem_cons]
  refine ⟨⟨rfl, rfl⟩, ?_⟩
  repeat' apply And.intro
  all_goals first
    | exact rfl
    | exact trivial
    | exact fun _ => ⟨rfl, rfl⟩
    | exact spec_parsed_map fun _ => ⟨rfl, rfl⟩
    | exact fun _ _ _ => noText_parseMcpCommand
    | exact fun _ _ _ => noText_parseSessionCommand
    | exact fun _ _ _ => noText_parsePluginCommand
    | exact forall_mem_nil _

def FirstIsInstall (text : List Char) : Prop := text.takeWhile isWordChar = installWord

/-- Behind the letters of `install`, with no blank after them, a blank is put in. -/
theorem parseSkillsArgs_text (htrim : trim text = text) (hne : text ≠ [])
    (hfirst : ¬FirstIsInstall text) :
    ∃ carried, parseSkillsArgs helpDetail (some (String.ofList text)) = .ok carried ∧
      (carried = some (String.ofList text) ↔ ¬installWord <+: text) := by
  have hnormal : normalizeOptionalArgs (some (String.ofList text)) = some (String.ofList text) := by
    simp [normalizeOptionalArgs, asString, htrim, hne]
  unfold parseSkillsArgs
  rw [hnormal]
  by_cases hlist : String.ofList text ∈ ["list", "help", "-h", "--help"]
  · refine ⟨_, if_pos hlist, iff_of_true rfl ?_⟩
    simp only [mem_cons, not_mem_nil, or_false, ← String.toList_inj,
      String.toList_ofList] at hlist
    rcases hlist with rfl | rfl | rfl | rfl <;> decide
  have hword : String.ofList text ≠ "install" := by
    intro heq
    rw [← String.toList_inj, String.toList_ofList] at heq
    subst heq
    exact hfirst (by unfold FirstIsInstall; decide)
  cases hstrip : stripPrefix installWord text with
  | none =>
    refine ⟨some (String.ofList text), (if_neg hlist).trans ((if_neg hword).trans ?_),
      iff_of_true rfl (stripPrefix_eq_none_iff.mp hstrip)⟩
    rw [String.toList_ofList, hstrip]
    rfl
  | some target =>
    have htext := stripPrefix_eq_some_iff.mp hstrip
    -- The text ends as its trimmed rest does, so only a blank in front could go.
    obtain ⟨c, rest, rfl⟩ : ∃ c rest, target = c :: rest := by
      cases target with
      | nil =>
        rw [append_nil] at htext
        subst htext
        exact absurd (@String.ofList_toList "install") hword
      | cons c rest => exact ⟨c, rest, rfl⟩
    have hc : isWhitespace c = false := by
      by_contra hblank
      refine hfirst ?_
      have hletters : ∀ c ∈ installWord, isWordChar c = true := all_eq_true.mp (by decide)
      rw [FirstIsInstall, htext, takeWhile_append_of_pos hletters]
      simp [isWordChar, hblank]
    have htarget : trim (c :: rest) = c :: rest := by
      refine trim_of_ends (by simpa using hc) fun d hd => ?_
      refine getLast?_of_trim htrim d ?_
      rw [htext, getLast?_append, Option.mem_def.mp hd]
      rfl
    refine ⟨some ("install " ++ String.ofList (c :: rest)),
      (if_neg hlist).trans ((if_neg hword).trans ?_), iff_of_false ?_ ?_⟩
    · rw [String.toList_ofList, hstrip, Option.map_some, htarget]
      rfl
    · intro heq
      have hlen := congrArg (fun s => s.toList.length) (Option.some.inj heq)
      have hinstall : installWord.length = 7 := by decide
      simp [htext, hinstall] at hlen
      omega
    · exact fun hnot => hnot (htext ▸ prefix_append _ _)

/-- The argument text is carried whole, and left out if it is blank; the text of
`/skills` that begins with the word `install` may be changed. -/
def Kept (input : String) (command : SlashCommand) : Prop :=
  (∀ text, freeText command = some text → text = textOrNone (argumentText input)) ∧
    ∀ text, skillsText command = some text → ¬FirstIsInstall (argumentText input) →
      text = textOrNone (argumentText input)

def KeepsText (helpDetail : String → Option String) (input : String) : Prop :=
  ∀ command, validateSlashCommandInput helpDetail input = .ok (some command) → Kept input command

def Arm.Finds (input : String) : Arm → Prop
  | .remainder _ | .listOrHelp _ => argumentText input = [] ∨ Direct input
  | .skills => argumentText input = [] ∨ FirstIsInstall (argumentText input) ∨
      Direct input ∧ ¬installWord <+: argumentText input
  | _ => True

theorem textOrNone_eq_none_iff : textOrNone text = none ↔ text = [] := by
  unfold textOrNone
  split <;> simp_all

theorem splitWhitespace_fromWord (h : fromWord input ≠ []) :
    splitWhitespace ((trim input.toList).dropWhile (· = '/')) =
      commandWord input :: splitWhitespace ((fromWord input).dropWhile isWordChar) :=
  splitWhitespace_first h

theorem validateSlashCommandInput_eq (hslash : (trim input.toList).head? = some '/')
    (harm : (arms helpDetail).lookup (String.ofList (commandWord input)) = some arm) :
    ∃ args, validateSlashCommandInput helpDetail input =
      some <$> runArm helpDetail arm (String.ofList (commandWord input)) args (found input) := by
  have hfrom : fromWord input ≠ [] := by
    intro hnil
    refine (head?_of_lookup harm).1 ?_
    rw [commandWord, hnil]
    rfl
  refine ⟨(splitWhitespace ((fromWord input).dropWhile isWordChar)).map String.ofList, ?_⟩
  unfold validateSlashCommandInput
  simp only
  rw [if_neg (not_not.mpr hslash), splitWhitespace_fromWord hfrom]
  simp only
  rw [harm]
  rfl

theorem noText_of_lookup_eq_none (hslash : (trim input.toList).head? = some '/')
    (harm : (arms helpDetail).lookup (String.ofList (commandWord input)) = none)
    (h : validateSlashCommandInput helpDetail input = .ok (some command)) : NoText command := by
  unfold validateSlashCommandInput at h
  simp only at h
  rw [if_neg (not_not.mpr hslash)] at h
  by_cases hfrom : fromWord input = []
  · have hblank := splitWhitespace_blanks (dropWhile_eq_nil_iff.mp hfrom) []
    rw [append_nil] at hblank
    rw [hblank] at h
    cases h
  · rw [splitWhitespace_fromWord hfrom] at h
    simp only at h
    rw [harm] at h
    cases h
    exact ⟨rfl, rfl⟩

def Arm.Keeps (helpDetail : String → Option String) (input : String) (args : List String)
    (arm : Arm) : Prop :=
  ∀ command, runArm helpDetail arm (String.ofList (commandWord input)) args (found input) =
    .ok command → Kept input command

theorem kept_of_noText (h : NoText command) : Kept input command := by
  obtain ⟨hfree, hskills⟩ := h
  unfold Kept
  rw [hfree, hskills]
  exact ⟨nofun, nofun⟩

theorem kept_carry_iff {carry : Option String → SlashCommand} (hcarry : Carries carry)
    {text : Option String} : Kept input (carry text) ↔ text = textOrNone (argumentText input) := by
  obtain ⟨hfree, hskills⟩ := hcarry text
  unfold Kept
  rw [hfree, hskills]
  simp

theorem kept_skills_iff {text : Option String} : Kept input (.skills text) ↔
    FirstIsInstall (argumentText input) ∨ text = textOrNone (argumentText input) := by
  simp [Kept, freeText, skillsText, or_iff_not_imp_left]

section Named

variable (hword : commandWord input ≠ [] ∧ (commandWord input).head? ≠ some '/')
  {args : List String}

include hword

theorem found_iff : found input = textOrNone (argumentText input) ↔
    argumentText input = [] ∨ Direct input := by
  obtain ⟨hdirect, hnot⟩ := found_eq hword
  by_cases hfar : Direct input
  · simp [hdirect hfar, hfar]
  · rw [hnot hfar, eq_comm, textOrNone_eq_none_iff]
    simp [hfar]

theorem keeps_carry_iff {carry : Option String → SlashCommand} (hcarry : Carries carry)
    (hrun : ∀ remainder command, runArm helpDetail arm (String.ofList (commandWord input)) args
      remainder = .ok command → command = carry remainder)
    (hnone : runArm helpDetail arm (String.ofList (commandWord input)) args none =
      .ok (carry none)) :
    arm.Keeps helpDetail input args ↔ argumentText input = [] ∨ Direct input := by
  rw [← found_iff hword]
  constructor
  · intro h
    by_cases hfar : Direct input
    · exact (found_eq hword).1 hfar
    · have hfound := (found_eq hword).2 hfar
      rw [Arm.Keeps, hfound] at h
      rw [hfound]
      exact (kept_carry_iff hcarry).mp (h _ hnone)
  · intro h command hcmd
    rw [hrun _ command hcmd]
    exact (kept_carry_iff hcarry).mpr h

theorem keeps_required {carry : Option String → SlashCommand} (hcarry : Carries carry)
    {hint : String} : (Arm.required carry hint).Keeps helpDetail input args := by
  intro command hcmd
  cases hfound : found input with
  | none =>
    rw [hfound] at hcmd
    cases hcmd
  | some text =>
    rw [hfound] at hcmd
    cases hcmd
    refine (kept_carry_iff hcarry).mpr (hfound.symm.trans ((found_iff hword).mpr (.inr ?_)))
    by_contra hfar
    rw [(found_eq hword).2 hfar] at hfound
    cases hfound

theorem keeps_skills_iff : Arm.skills.Keeps helpDetail input args ↔ argumentText input = [] ∨
    FirstIsInstall (argumentText input) ∨
      Direct input ∧ ¬installWord <+: argumentText input := by
  have hkeeps : Arm.skills.Keeps helpDetail input args ↔ FirstIsInstall (argumentText input) ∨
      ∀ text, parseSkillsArgs helpDetail (found input) = .ok text →
        text = textOrNone (argumentText input) := by
    unfold Arm.Keeps runArm
    simp only
    cases parseSkillsArgs helpDetail (found input) with
    | error message => simp [Functor.map, Except.map]
    | ok text => simp [Functor.map, Except.map, kept_skills_iff]
  rw [hkeeps]
  by_cases hfirst : FirstIsInstall (argumentText input)
  · simp [hfirst]
  by_cases hnil : argumentText input = []
  · have hfound := (found_iff hword).mpr (.inl hnil)
    have hnone := textOrNone_eq_none_iff.mpr hnil
    rw [hfound, hnone]
    refine iff_of_true (.inr ?_) (.inl hnil)
    rintro text h
    cases h
    rfl
  by_cases hfar : Direct input
  · have htext : textOrNone (argumentText input) = some (String.ofList (argumentText input)) :=
      if_neg hnil
    have htrim : trim (argumentText input) = argumentText input := trim_trim _
    obtain ⟨carried, hparse, hcarried⟩ := parseSkillsArgs_text htrim hnil hfirst
    rw [(found_eq hword).1 hfar, htext, hparse, ← hcarried]
    simp [hnil, hfar, hfirst]
  · have hparse : parseSkillsArgs helpDetail (found input) = .ok none := by
      rw [(found_eq hword).2 hfar]
      rfl
    have hsome : textOrNone (argumentText input) ≠ none := mt textOrNone_eq_none_iff.mp hnil
    rw [hparse]
    simp [hnil, hfar, hfirst, hsome.symm]

theorem keeps_iff_finds (hspec : arm.Spec) :
    arm.Keeps helpDetail input args ↔ arm.Finds input := by
  cases arm with
  | noArgs parsed =>
    refine iff_of_true (fun command h => kept_of_noText ?_) trivial
    unfold runArm validateNoArgs at h
    simp only at h
    split at h <;> cases h
    exact hspec
  | remainder carry => exact keeps_carry_iff hword hspec (fun _ _ h => by cases h; rfl) rfl
  | required carry hint => exact iff_of_true (keeps_required hword hspec) trivial
  | listOrHelp carry =>
    refine keeps_carry_iff hword hspec (fun remainder command h => ?_) rfl
    unfold runArm parseListOrHelpArgs at h
    simp only at h
    split at h
    · cases h
      rfl
    · split at h <;> cases h
      rfl
  | skills => exact keeps_skills_iff hword
  | parsed parse =>
    exact iff_of_true (fun command h => kept_of_noText (hspec _ _ command h)) trivial
  | removed => exact iff_of_true (fun command h => nomatch h) trivial

end Named

/-- An arm that stores the remainder keeps the text if the input has none, or if one
slash stands directly before the command word. -/
theorem keepsText_iff (helpDetail : String → Option String) (input : String) :
    KeepsText helpDetail input ↔ ((trim input.toList).head? = some '/' →
      ∀ arm, (arms helpDetail).lookup (String.ofList (commandWord input)) = some arm →
        arm.Finds input) := by
  by_cases hslash : (trim input.toList).head? = some '/'
  · cases harm : (arms helpDetail).lookup (String.ofList (commandWord input)) with
    | none =>
      refine iff_of_true (fun command hcmd => ?_) (fun _ arm h => by cases h)
      exact kept_of_noText (noText_of_lookup_eq_none hslash harm hcmd)
    | some arm =>
      obtain ⟨args, heq⟩ := validateSlashCommandInput_eq hslash harm
      have hkeeps : KeepsText helpDetail input ↔ arm.Keeps helpDetail input args := by
        unfold KeepsText Arm.Keeps
        rw [heq]
        cases runArm helpDetail arm (String.ofList (commandWord input)) args (found input) with
        | error message => simp [Functor.map, Except.map]
        | ok command => simp [Functor.map, Except.map]
      rw [hkeeps, keeps_iff_finds (head?_of_lookup harm)
        (spec_of_mem_arms _ (mem_of_lookup harm))]
      simp [hslash]
  · refine iff_of_true (fun command hcmd => ?_) (fun h => absurd h hslash)
    unfold validateSlashCommandInput at hcmd
    simp only at hcmd
    rw [if_pos hslash] at hcmd
    cases hcmd

/-- Behind two slashes the text is lost, and a word that begins with `install` is cut. -/
theorem not_keepsText :
    ¬KeepsText (fun _ => none) "//pr fix" ∧ ¬KeepsText (fun _ => none) "/skills installer" := by
  refine ⟨fun h => ?_, fun h => ?_⟩
  · have hparsed : validateSlashCommandInput (fun _ => none) "//pr fix" =
        .ok (some (.pr none)) := rfl
    exact absurd ((h _ hparsed).1 none rfl) (by decide)
  · have hparsed : validateSlashCommandInput (fun _ => none) "/skills installer" =
        .ok (some (.skills (some "install er"))) := rfl
    exact absurd ((h _ hparsed).2 _ rfl (by unfold FirstIsInstall; decide)) (by decide)

end DbClinic.Cli
