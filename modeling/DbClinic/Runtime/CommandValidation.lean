import DbClinic.Runtime.ReadOnlyComposition

/-!
The validation pipeline of a bash command, and the commands for which it
returns. Two things stop it. The end of an assignment's value is counted behind
the blanks of the value and used in front of them, so that the slice can fall
inside a character. The command behind `sudo` is looked up by its text, so that
a word that also begins the command brings the whole command back.
-/

namespace DbClinic.Runtime

open List

def DESTRUCTIVE_PATTERNS : List (String × String) :=
  [("rm -rf /", "Recursive forced deletion at root — this will destroy the system"),
    ("rm -rf ~", "Recursive forced deletion of home directory"),
    ("rm -rf *", "Recursive forced deletion of all files in current directory"),
    ("rm -rf .", "Recursive forced deletion of current directory"),
    ("mkfs", "Filesystem creation will destroy existing data on the device"),
    ("dd if=", "Direct disk write — can overwrite partitions or devices"),
    ("> /dev/sd", "Writing to raw disk device"),
    ("chmod -R 777", "Recursively setting world-writable permissions"),
    ("chmod -R 000", "Recursively removing all permissions"),
    (":()\x7b :|:& \x7d;:", "Fork bomb — will crash the system")]

def ALWAYS_DESTRUCTIVE_COMMANDS : List String := ["shred", "wipefs"]

def checkDestructive (command : List Char) : Option ValidationResult :=
  match DESTRUCTIVE_PATTERNS.find? fun entry => containsText entry.1.toList command with
  | some entry => some (.warn ("Destructive command detected: " ++ entry.2))
  | none =>
    match extractFirstCommand command with
    | none => none
    | some first =>
      match ALWAYS_DESTRUCTIVE_COMMANDS.find? fun cmd => cmd.toList = first with
      | some cmd =>
        some (.warn ("Command '" ++ cmd ++
          "' is inherently destructive and may cause data loss"))
      | none =>
        if containsText "rm ".toList command ∧ containsText "-r".toList command ∧
            containsText "-f".toList command then
          some (.warn
            "Recursive forced deletion detected — verify the target path is correct")
        else some .allow

def SYSTEM_PATHS : List String :=
  ["/etc/", "/usr/", "/var/", "/boot/", "/sys/", "/proc/", "/dev/", "/sbin/", "/lib/", "/opt/"]

def commandTargetsOutsideWorkspace (command : List Char) : Option Bool :=
  match extractFirstCommand command with
  | none => none
  | some first =>
    if IsBlockedName first then
      some (SYSTEM_PATHS.any fun sysPath => containsText sysPath.toList command)
    else some false

def validateMode (fuel : Nat) (command : List Char) : PermissionMode → Option ValidationResult
  | .readOnly => validateReadOnly .readOnly fuel command
  | .workspaceWrite =>
    match commandTargetsOutsideWorkspace command with
    | none => none
    | some true =>
      some (.warn ("Command appears to target files outside the workspace — requires " ++
        "elevated permission"))
    | some false => some .allow
  | .dangerFullAccess | .allow | .prompt => some .allow

def validateSed (command : List Char) (mode : PermissionMode) : Option ValidationResult :=
  match extractFirstCommand command with
  | none => none
  | some first =>
    if first ≠ "sed".toList then some .allow
    else if mode = .readOnly ∧ containsText " -i".toList command then
      some (.block "sed -i (in-place editing) is not allowed in read-only mode")
    else some .allow

def validatePaths (command workspace : List Char) : ValidationResult :=
  if containsText "../".toList command ∧ ¬containsText workspace command then
    .warn ("Command contains directory traversal pattern '../' — verify the target path " ++
      "resolves within the workspace")
  else if containsText "~/".toList command ∨ containsText "$HOME".toList command then
    .warn "Command references home directory — verify it stays within the workspace scope"
  else .allow

def validateCommand (fuel : Nat) (command : List Char) (mode : PermissionMode)
    (workspace : List Char) : Option ValidationResult :=
  match validateMode fuel command mode with
  | none => none
  | some .allow =>
    match validateSed command mode with
    | none => none
    | some .allow =>
      match checkDestructive command with
      | none => none
      | some .allow => some (validatePaths command workspace)
      | some result => some result
    | some result => some result
  | some result => some result

def byteLength (cs : List Char) : Nat := (cs.map Char.utf8Size).sum

theorem byteLength_cons (c : Char) (cs : List Char) :
    byteLength (c :: cs) = c.utf8Size + byteLength cs := by
  simp [byteLength]

theorem dropBytes_add (before rest : List Char) (offset : Nat) :
    dropBytes (byteLength before + offset) (before ++ rest) = dropBytes offset rest := by
  induction before with
  | nil => simp [byteLength]
  | cons c before ih =>
    have hc : 0 < c.utf8Size := c.utf8Size_pos
    obtain ⟨n, hn⟩ : ∃ n, byteLength (c :: before) + offset = n + 1 := by
      refine ⟨byteLength (c :: before) + offset - 1, ?_⟩
      rw [byteLength_cons]
      omega
    have hlen := byteLength_cons c before
    rw [hn, cons_append, dropBytes, if_pos (by omega),
      show n + 1 - c.utf8Size = byteLength before + offset by omega]
    exact ih

theorem dropBytes_prefix (before rest : List Char) :
    dropBytes (byteLength before) (before ++ rest) = some rest := by
  have hdrop := dropBytes_add before rest 0
  rw [Nat.add_zero] at hdrop
  rw [hdrop]
  cases rest <;> rfl

variable {command cs text word : List Char} {offset n : Nat}

theorem dropBytes_eq {rest : List Char} (h : dropBytes offset cs = some rest) :
    ∃ before, cs = before ++ rest ∧ byteLength before = offset := by
  induction cs generalizing offset with
  | nil =>
    cases offset with
    | zero =>
      cases h
      exact ⟨[], rfl, rfl⟩
    | succ offset => cases h
  | cons c cs ih =>
    cases offset with
    | zero =>
      cases h
      exact ⟨[], rfl, rfl⟩
    | succ offset =>
      simp only [dropBytes] at h
      split at h
      · rename_i hsize
        obtain ⟨before, rfl, hlen⟩ := ih h
        refine ⟨c :: before, rfl, ?_⟩
        rw [byteLength_cons]
        omega
      · cases h

/-- The offset is behind the first byte of a character, and before the next. -/
def InsideCharacter (offset : Nat) (cs : List Char) : Prop :=
  ∃ before c after, cs = before ++ c :: after ∧ byteLength before < offset ∧
    offset < byteLength before + c.utf8Size

theorem dropBytes_eq_none_iff (hle : offset ≤ byteLength cs) :
    dropBytes offset cs = none ↔ InsideCharacter offset cs := by
  induction cs generalizing offset with
  | nil =>
    have hzero : offset = 0 := Nat.le_zero.mp hle
    subst hzero
    constructor
    · nofun
    · rintro ⟨before, c, after, hcs, -⟩
      simp at hcs
  | cons c cs ih =>
    cases offset with
    | zero =>
      constructor
      · nofun
      · rintro ⟨before, d, after, -, hbefore, -⟩
        omega
    | succ offset =>
      rw [byteLength_cons] at hle
      simp only [dropBytes]
      split
      · rename_i hsize
        rw [ih (by omega)]
        constructor
        · rintro ⟨before, d, after, rfl, hbefore, hafter⟩
          refine ⟨c :: before, d, after, rfl, ?_, ?_⟩ <;> rw [byteLength_cons] <;> omega
        · rintro ⟨before, d, after, hcs, hbefore, hafter⟩
          cases before with
          | nil =>
            obtain ⟨rfl, rfl⟩ := List.cons.inj hcs
            simp only [byteLength, map_nil, sum_nil] at hafter
            omega
          | cons d' before =>
            obtain ⟨rfl, rfl⟩ := List.cons.inj hcs
            rw [byteLength_cons] at hbefore hafter
            refine ⟨before, d, after, rfl, ?_, ?_⟩ <;> omega
      · rename_i hsize
        refine iff_of_true rfl ⟨[], c, cs, rfl, ?_, ?_⟩
        · simp [byteLength]
        · simp only [byteLength, map_nil, sum_nil]
          omega

theorem findOffset_le {p : Char → Bool} (h : findOffset p offset cs = some n) :
    n ≤ offset + byteLength cs := by
  induction cs generalizing offset with
  | nil => cases h
  | cons c cs ih =>
    rw [byteLength_cons]
    simp only [findOffset] at h
    split at h
    · cases h
      omega
    · have hle := ih h
      omega

theorem quotedEnd_le {quote previous : Char} (h : quotedEnd quote previous offset cs = some n) :
    n ≤ offset + byteLength cs := by
  induction cs generalizing previous offset with
  | nil => cases h
  | cons c cs ih =>
    rw [byteLength_cons]
    simp only [quotedEnd] at h
    split at h
    · have hle := findOffset_le h
      omega
    · have hle := ih h
      omega

theorem byteLength_append (cs ds : List Char) :
    byteLength (cs ++ ds) = byteLength cs + byteLength ds := by
  simp [byteLength]

theorem byteLength_trimStart (cs : List Char) : byteLength (trimStart cs) ≤ byteLength cs := by
  have hsplit : cs.takeWhile isWhitespace ++ trimStart cs = cs := takeWhile_append_dropWhile
  have hlen := byteLength_append (cs.takeWhile isWhitespace) (trimStart cs)
  rw [hsplit] at hlen
  omega

theorem findEndOfValue_le (h : findEndOfValue cs = some n) :
    n ≤ byteLength cs := by
  have htrim := byteLength_trimStart cs
  unfold findEndOfValue at h
  cases hcs : trimStart cs with
  | nil =>
    rw [hcs] at h
    cases h
  | cons first rest =>
    rw [hcs] at h htrim
    dsimp only at h
    split at h
    · have hle := quotedEnd_le h
      rw [byteLength_cons] at htrim
      omega
    · have hle := findOffset_le h
      omega

/-- The text begins, behind blanks, with a name and a `=`. -/
def Assigns (text afterEq : List Char) : Prop :=
  ∃ name, name ≠ [] ∧ name.all isNameChar = true ∧ trimStart text = name ++ '=' :: afterEq

/-- A round of the loop over the assignments slices inside a character. -/
inductive SlicesCharacter : List Char → Prop where
  | here {text afterEq : List Char} {offset : Nat} (hassign : Assigns text afterEq)
      (hend : findEndOfValue afterEq = some offset) (hinside : InsideCharacter offset afterEq) :
      SlicesCharacter text
  | later {text before rest : List Char} (hassign : Assigns text (before ++ rest))
      (hend : findEndOfValue (before ++ rest) = some (byteLength before))
      (hrest : SlicesCharacter rest) : SlicesCharacter text

theorem isNameChar_eq : isNameChar '=' = false := by
  decide

theorem takeWhile_name {name : List Char} (hname : name.all isNameChar = true)
    (afterEq : List Char) :
    (name ++ '=' :: afterEq).takeWhile (· ≠ '=') = name ∧
      (name ++ '=' :: afterEq).dropWhile (· ≠ '=') = '=' :: afterEq := by
  have hall : ∀ c ∈ name, decide (c ≠ '=') = true := by
    intro c hc
    rw [decide_eq_true_eq]
    rintro rfl
    have hnameEq := all_eq_true.mp hname '=' hc
    rw [isNameChar_eq] at hnameEq
    cases hnameEq
  constructor
  · rw [takeWhile_append_of_pos hall, takeWhile_cons_of_neg (by simp), append_nil]
  · rw [dropWhile_append_of_pos hall, dropWhile_cons_of_neg (by simp)]

theorem Assigns.unique {afterEq afterEq' : List Char} (h : Assigns text afterEq)
    (h' : Assigns text afterEq') : afterEq = afterEq' := by
  obtain ⟨name, -, hname, htext⟩ := h
  obtain ⟨name', -, hname', htext'⟩ := h'
  have hdrop := (takeWhile_name hname afterEq).2
  rw [← htext, htext', (takeWhile_name hname' afterEq').2] at hdrop
  exact (List.cons.inj hdrop).2.symm

theorem skipAssignments_assigns {afterEq : List Char} (h : Assigns text afterEq) (fuel : Nat) :
    skipAssignments (fuel + 1) text = match findEndOfValue afterEq with
      | none => .noCommand
      | some offset =>
        match dropBytes offset afterEq with
        | none => .panicked
        | some rest => skipAssignments fuel rest := by
  obtain ⟨name, hne, hname, htext⟩ := h
  obtain ⟨htake, hdrop⟩ := takeWhile_name hname afterEq
  simp only [skipAssignments, htext, htake, hdrop]
  exact if_pos ⟨hne, hname⟩

theorem skipAssignments_not_assigns (h : ∀ afterEq, ¬Assigns text afterEq) (fuel : Nat) :
    skipAssignments (fuel + 1) text = .command text := by
  simp only [skipAssignments]
  cases hdrop : (trimStart text).dropWhile (· ≠ '=') with
  | nil => rfl
  | cons eq afterEq =>
    dsimp only
    rw [if_neg]
    rintro ⟨hne, hname⟩
    have heq : eq = '=' := by
      have hhead := head?_dropWhile_not (fun c => decide (c ≠ '=')) (trimStart text)
      rw [hdrop] at hhead
      simpa using hhead
    subst heq
    refine h afterEq ⟨_, hne, hname, ?_⟩
    rw [← hdrop]
    exact takeWhile_append_dropWhile.symm

/-- A round leaves less than it got: at least the `=` is gone. -/
theorem Assigns.shorter {before rest : List Char} (h : Assigns text (before ++ rest)) :
    rest.length < text.length := by
  obtain ⟨name, -, -, htext⟩ := h
  have hle : (trimStart text).length ≤ text.length := length_dropWhile_le _ _
  rw [htext] at hle
  simp only [length_append, length_cons] at hle
  omega

theorem skipAssignments_panicked_iff {fuel : Nat} (hfuel : text.length < fuel) :
    skipAssignments fuel text = .panicked ↔ SlicesCharacter text := by
  induction fuel generalizing text with
  | zero => omega
  | succ fuel ih =>
    by_cases hassigns : ∃ afterEq, Assigns text afterEq
    · obtain ⟨afterEq, hassign⟩ := hassigns
      rw [skipAssignments_assigns hassign]
      cases hend : findEndOfValue afterEq with
      | none =>
        refine iff_of_false nofun fun hslices => ?_
        cases hslices with
        | here hassign' hend' _ =>
          rw [← hassign.unique hassign', hend] at hend'
          cases hend'
        | later hassign' hend' _ =>
          rw [← hassign.unique hassign', hend] at hend'
          cases hend'
      | some offset =>
        dsimp only
        cases hdrop : dropBytes offset afterEq with
        | none =>
          have hinside := (dropBytes_eq_none_iff (findEndOfValue_le hend)).mp hdrop
          exact iff_of_true rfl (.here hassign hend hinside)
        | some rest =>
          obtain ⟨before, rfl, rfl⟩ := dropBytes_eq hdrop
          have hshorter := hassign.shorter
          dsimp only
          rw [ih (by omega)]
          constructor
          · exact .later hassign hend
          · intro hslices
            cases hslices with
            | here hassign' hend' hinside =>
              cases hassign.unique hassign'
              cases hend.symm.trans hend'
              rw [(dropBytes_eq_none_iff (findEndOfValue_le hend)).mpr hinside] at hdrop
              cases hdrop
            | @later _ before' rest' hassign' hend' hrest =>
              have hsame := hassign.unique hassign'
              rw [← hsame, hend] at hend'
              have hdrop' := dropBytes_prefix before' rest'
              rw [← hsame, ← Option.some.inj hend', hdrop] at hdrop'
              rwa [Option.some.inj hdrop']
    · have hnot : ∀ afterEq, ¬Assigns text afterEq := fun afterEq h => hassigns ⟨afterEq, h⟩
      rw [skipAssignments_not_assigns hnot]
      refine iff_of_false nofun fun hslices => ?_
      cases hslices with
      | here hassign _ _ => exact hnot _ hassign
      | later hassign _ _ => exact hnot _ hassign

theorem extractFirstCommand_eq_none_iff (command : List Char) :
    extractFirstCommand command = none ↔ SlicesCharacter (trim command) := by
  rw [← skipAssignments_panicked_iff (Nat.lt_succ_self _)]
  unfold extractFirstCommand
  cases skipAssignments ((trim command).length + 1) (trim command) <;> simp

/-- The first word behind the word `sudo` that is no flag. -/
def sudoWord (command : List Char) : Option (List Char) :=
  (((splitWhitespace command).dropWhile (· ≠ "sudo".toList)).drop 1).find?
    fun part => !startsWithDash part

theorem sudoWord_mem (h : sudoWord command = some word) :
    word ∈ splitWhitespace command := by
  have hmem := mem_of_mem_drop (mem_of_find?_eq_some h)
  exact (dropWhile_sublist (· ≠ "sudo".toList)).subset hmem

theorem extractSudoInner_of_none (h : sudoWord command = none) :
    extractSudoInner command = [] := by
  unfold sudoWord at h
  unfold extractSudoInner
  simp only [h]

/-- What is behind `sudo` ends the text, from the first place where the word
stands. -/
theorem extractSudoInner_of_some (h : sudoWord command = some word) :
    ∃ before after, splitOnce word command = some (before, after) ∧
      extractSudoInner command = word ++ after := by
  obtain ⟨⟨before, after⟩, hsplit⟩ :=
    splitOnce_of_infix (infix_of_mem_splitWhitespace (sudoWord_mem h))
  refine ⟨before, after, hsplit, ?_⟩
  unfold sudoWord at h
  unfold extractSudoInner
  simp only [h, hsplit]

theorem sudoWord_ne_nil (h : sudoWord command = some word) :
    word ≠ [] := by
  have hne := of_mem_filter (sudoWord_mem h)
  simpa using hne

/-- The command calls `sudo`, and the word that is looked up begins it. -/
def Repeats (command : List Char) : Prop :=
  extractFirstCommand command = some "sudo".toList ∧
    ∃ word, sudoWord command = some word ∧ word <+: command

theorem extractSudoInner_of_prefix (h : sudoWord command = some word) (hbegins : word <+: command) :
    extractSudoInner command = command := by
  obtain ⟨before, after, hsplit, hinner⟩ := extractSudoInner_of_some h
  obtain ⟨rest, hrest⟩ := hbegins
  have hfirst : before.length ≤ ([] : List Char).length :=
    splitOnce_first hsplit (by rw [nil_append, hrest])
  have hnil : before = [] := length_eq_zero_iff.mp (Nat.le_zero.mp hfirst)
  have hcmd := splitOnce_eq hsplit
  rw [hnil, nil_append] at hcmd
  rw [hinner, ← hcmd]

theorem extractSudoInner_shorter (hfirst : extractFirstCommand command = some "sudo".toList)
    (hne : extractSudoInner command ≠ []) (hrepeats : ¬Repeats command) :
    (extractSudoInner command).length < command.length := by
  cases hword : sudoWord command with
  | none => exact absurd (extractSudoInner_of_none hword) hne
  | some word =>
    obtain ⟨before, after, hsplit, hinner⟩ := extractSudoInner_of_some hword
    have hcmd := splitOnce_eq hsplit
    cases before with
    | nil =>
      refine absurd ⟨hfirst, word, hword, after, ?_⟩ hrepeats
      rw [hcmd, nil_append]
    | cons c before =>
      rw [hinner]
      conv_rhs => rw [hcmd]
      simp only [length_append, length_cons]
      omega

/-- The commands the validation comes to as it cuts off prefixes of `sudo`. -/
inductive PeelsTo : List Char → List Char → Prop where
  | refl (command : List Char) : PeelsTo command command
  | behindSudo {command inner : List Char} (hfirst : extractFirstCommand command = some "sudo".toList)
      (hne : extractSudoInner command ≠ []) (hinner : PeelsTo (extractSudoInner command) inner) :
      PeelsTo command inner

/-- The prefixes of `sudo` end exactly when no command on the way is sliced
inside a character or brings itself back. -/
theorem unwraps_command_iff (command : List Char) :
    (∃ inner, Unwraps command inner) ↔ ∀ reached, PeelsTo command reached →
      ¬SlicesCharacter (trim reached) ∧ ¬Repeats reached := by
  constructor
  · rintro ⟨inner, hunwraps⟩
    induction hunwraps with
    | @bare command first hfirst hsudo =>
      intro reached hreached
      cases hreached with
      | refl =>
        constructor
        · rw [← extractFirstCommand_eq_none_iff, hfirst]
          nofun
        · rintro ⟨hsudoFirst, word, hword, -⟩
          have hnil := hsudo (Option.some.inj (hfirst.symm.trans hsudoFirst))
          obtain ⟨before, after, -, hinner⟩ := extractSudoInner_of_some hword
          rw [hnil] at hinner
          exact sudoWord_ne_nil hword (append_eq_nil_iff.mp hinner.symm).1
      | behindSudo hsudoFirst hne _ =>
        exact absurd (hsudo (Option.some.inj (hfirst.symm.trans hsudoFirst))) hne
    | @behindSudo command inner hfirst hne hinner ih =>
      intro reached hreached
      cases hreached with
      | refl =>
        constructor
        · rw [← extractFirstCommand_eq_none_iff, hfirst]
          nofun
        · rintro ⟨hsudoFirst, word, hword, hbegins⟩
          -- a command that brings itself back is itself the next one on the way
          have hself := extractSudoInner_of_prefix hword hbegins
          have hnext := ih (extractSudoInner command) (.refl _)
          rw [hself] at hnext
          exact hnext.2 ⟨hsudoFirst, word, hword, hbegins⟩
      | behindSudo _ _ hrest => exact ih reached hrest
  · intro hreached
    induction hlen : command.length using Nat.strong_induction_on generalizing command with
    | _ length ih =>
      subst hlen
      obtain ⟨hslices, hrepeats⟩ := hreached command (.refl command)
      cases hfirst : extractFirstCommand command with
      | none => exact absurd ((extractFirstCommand_eq_none_iff command).mp hfirst) hslices
      | some first =>
        by_cases hsudo : first = "sudo".toList ∧ extractSudoInner command ≠ []
        · obtain ⟨rfl, hne⟩ := hsudo
          have hshorter := extractSudoInner_shorter hfirst hne hrepeats
          obtain ⟨inner, hinner⟩ := ih _ hshorter (extractSudoInner command)
            (fun reached h => hreached reached (.behindSudo hfirst hne h)) rfl
          exact ⟨inner, .behindSudo hfirst hne hinner⟩
        · refine ⟨command, .bare hfirst fun heq => ?_⟩
          by_contra hne
          exact hsudo ⟨heq, hne⟩

/-- The validation returns: it ends, and no slice panics. -/
def Returns (command : List Char) (mode : PermissionMode) (workspace : List Char) : Prop :=
  ∃ fuel result, validateCommand fuel command mode workspace = some result

theorem validateReadOnly_returns_iff (command : List Char) :
    (∃ fuel result, validateReadOnly .readOnly fuel command = some result) ↔
      ∃ inner, Unwraps command inner := by
  constructor
  · rintro ⟨fuel, result, hvalidate⟩
    exact unwraps_of_validate hvalidate
  · rintro ⟨inner, hinner⟩
    rcases validate_of_unwraps hinner with ⟨-, fuel, reason, hblock⟩ | ⟨-, fuel, hallow⟩
    · exact ⟨fuel, _, hblock⟩
    · exact ⟨fuel, _, hallow⟩

section Pipeline

variable {command first workspace : List Char} {mode : PermissionMode} {fuel : Nat}

theorem checkDestructive_returns (hfirst : extractFirstCommand command = some first) :
    ∃ result, checkDestructive command = some result := by
  unfold checkDestructive
  rw [hfirst]
  dsimp only
  split
  · exact ⟨_, rfl⟩
  · split
    · exact ⟨_, rfl⟩
    · split
      · exact ⟨_, rfl⟩
      · exact ⟨_, rfl⟩

theorem validateSed_returns (hfirst : extractFirstCommand command = some first) :
    ∃ result, validateSed command mode = some result := by
  unfold validateSed
  rw [hfirst]
  dsimp only
  split
  · exact ⟨_, rfl⟩
  · split
    · exact ⟨_, rfl⟩
    · exact ⟨_, rfl⟩

theorem validateCommand_returns {result : ValidationResult}
    (hfirst : extractFirstCommand command = some first)
    (hmode : validateMode fuel command mode = some result) : Returns command mode workspace := by
  obtain ⟨sed, hsed⟩ : ∃ sed, validateSed command mode = some sed := validateSed_returns hfirst
  obtain ⟨destructive, hdestructive⟩ := checkDestructive_returns hfirst
  refine ⟨fuel, ?_⟩
  unfold validateCommand
  rw [hmode, hsed, hdestructive]
  cases result with
  | block reason => exact ⟨_, rfl⟩
  | warn message => exact ⟨_, rfl⟩
  | allow =>
    cases sed with
    | block reason => exact ⟨_, rfl⟩
    | warn message => exact ⟨_, rfl⟩
    | allow => cases destructive <;> exact ⟨_, rfl⟩

theorem firstCommand_of_validateMode (hmode : mode ≠ .readOnly) {result : ValidationResult}
    (h : validateCommand fuel command mode workspace = some result) :
    extractFirstCommand command ≠ none := by
  intro hnone
  have hsed : validateSed command mode = none := by
    unfold validateSed
    rw [hnone]
  unfold validateCommand at h
  cases mode with
  | readOnly => exact hmode rfl
  | workspaceWrite => simp [validateMode, commandTargetsOutsideWorkspace, hnone] at h
  | dangerFullAccess => simp [validateMode, hsed] at h
  | prompt => simp [validateMode, hsed] at h
  | allow => simp [validateMode, hsed] at h

theorem validateMode_returns (hmode : mode ≠ .readOnly)
    (hfirst : extractFirstCommand command = some first) :
    ∃ result, validateMode fuel command mode = some result := by
  cases mode with
  | readOnly => exact absurd rfl hmode
  | workspaceWrite =>
    obtain ⟨outside, houtside⟩ : ∃ outside,
        commandTargetsOutsideWorkspace command = some outside := by
      unfold commandTargetsOutsideWorkspace
      rw [hfirst]
      dsimp only
      split
      · exact ⟨_, rfl⟩
      · exact ⟨_, rfl⟩
    unfold validateMode
    rw [houtside]
    cases outside with
    | true => exact ⟨_, rfl⟩
    | false => exact ⟨_, rfl⟩
  | dangerFullAccess => exact ⟨_, rfl⟩
  | prompt => exact ⟨_, rfl⟩
  | allow => exact ⟨_, rfl⟩

end Pipeline

/-- The validation returns exactly when no round over the assignments slices
inside a character and, in read-only mode, the same holds of every command it
comes to behind `sudo`, none of which brings itself back. -/
theorem validation_returns_iff (command : List Char) (mode : PermissionMode)
    (workspace : List Char) :
    Returns command mode workspace ↔ ¬SlicesCharacter (trim command) ∧
      (mode = .readOnly → ∀ reached, PeelsTo command reached →
        ¬SlicesCharacter (trim reached) ∧ ¬Repeats reached) := by
  by_cases hmode : mode = .readOnly
  · subst hmode
    constructor
    · rintro ⟨fuel, result, hvalidate⟩
      have hreturns : ∃ fuel result, validateReadOnly .readOnly fuel command = some result := by
        cases hrec : validateReadOnly .readOnly fuel command with
        | none => simp [validateCommand, validateMode, hrec] at hvalidate
        | some result => exact ⟨fuel, result, hrec⟩
      have hunwraps := (validateReadOnly_returns_iff command).mp hreturns
      have hreached := (unwraps_command_iff command).mp hunwraps
      exact ⟨(hreached command (.refl command)).1, fun _ => hreached⟩
    · rintro ⟨hslices, hreached⟩
      obtain ⟨fuel, result, hrec⟩ := (validateReadOnly_returns_iff command).mpr
        ((unwraps_command_iff command).mpr (hreached rfl))
      obtain ⟨first, hfirst⟩ := Option.ne_none_iff_exists'.mp
        (mt (extractFirstCommand_eq_none_iff command).mp hslices)
      exact validateCommand_returns hfirst hrec
  · constructor
    · rintro ⟨fuel, result, hvalidate⟩
      refine ⟨?_, fun hread => absurd hread hmode⟩
      exact mt (extractFirstCommand_eq_none_iff command).mpr
        (firstCommand_of_validateMode hmode hvalidate)
    · rintro ⟨hslices, -⟩
      obtain ⟨first, hfirst⟩ := Option.ne_none_iff_exists'.mp
        (mt (extractFirstCommand_eq_none_iff command).mp hslices)
      obtain ⟨result, hvalidate⟩ : ∃ result, validateMode 0 command mode = some result :=
        validateMode_returns hmode hfirst
      exact validateCommand_returns hfirst hvalidate

/-- In read-only mode `sudo su` brings itself back for ever, and a value behind
a blank is cut inside its first letter. -/
theorem sudo_su_never_returns :
    ¬Returns "sudo su".toList .readOnly [] ∧ ∀ mode, ¬Returns "A= é x".toList mode [] := by
  constructor
  · rintro ⟨fuel, result, hvalidate⟩
    have hnone : ∀ fuel, validateReadOnly .readOnly fuel "sudo su".toList = none := by
      intro fuel
      induction fuel with
      | zero => rfl
      | succ fuel ih =>
        rw [validate_sudo (by decide) (by decide),
          show extractSudoInner "sudo su".toList = "sudo su".toList by decide, ih]
    simp only [validateCommand, validateMode, hnone] at hvalidate
    cases hvalidate
  · rintro mode ⟨fuel, result, hvalidate⟩
    have hnone : extractFirstCommand "A= é x".toList = none := by decide
    cases mode with
    | readOnly =>
      cases fuel with
      | zero => simp [validateCommand, validateMode, validateReadOnly] at hvalidate
      | succ fuel =>
        simp only [validateCommand, validateMode, validateReadOnly, hnone] at hvalidate
        cases hvalidate
    | workspaceWrite => exact firstCommand_of_validateMode (by decide) hvalidate hnone
    | dangerFullAccess => exact firstCommand_of_validateMode (by decide) hvalidate hnone
    | prompt => exact firstCommand_of_validateMode (by decide) hvalidate hnone
    | allow => exact firstCommand_of_validateMode (by decide) hvalidate hnone

end DbClinic.Runtime
