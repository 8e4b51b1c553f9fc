import DbClinic.Runtime.Permissions

/-!
The read-only validation of a bash command, and what it sees of a pipeline or
chain. A text is the list of its characters, an offset counts bytes. Slicing
inside a character panics, and the recursion through `sudo` need not end: the
validation runs on fuel and returns nothing in both cases.
-/

namespace DbClinic.Runtime

inductive ValidationResult where
  | allow
  | block (reason : String)
  | warn (message : String)
  deriving DecidableEq

def WRITE_COMMANDS : List String :=
  ["cp", "mv", "rm", "mkdir", "rmdir", "touch", "chmod", "chown", "chgrp", "ln", "install", "tee",
    "truncate", "shred", "mkfifo", "mknod", "dd"]

def STATE_MODIFYING_COMMANDS : List String :=
  ["apt", "apt-get", "yum", "dnf", "pacman", "brew", "pip", "pip3", "npm", "yarn", "pnpm", "bun",
    "cargo", "gem", "go", "rustup", "docker", "systemctl", "service", "mount", "umount", "kill",
    "pkill", "killall", "reboot", "shutdown", "halt", "poweroff", "useradd", "userdel", "usermod",
    "groupadd", "groupdel", "crontab", "at"]

def WRITE_REDIRECTIONS : List String := [">", ">>", ">&"]

def GIT_READ_ONLY_SUBCOMMANDS : List String :=
  ["status", "log", "diff", "show", "branch", "tag", "stash", "remote", "fetch", "ls-files",
    "ls-tree", "cat-file", "rev-parse", "describe", "shortlog", "blame", "bisect", "reflog",
    "config"]

/-- `&text[offset..]`; an offset that is no character boundary panics. -/
def dropBytes : (offset : Nat) → List Char → Option (List Char)
  | 0, cs => some cs
  | _ + 1, [] => none
  | offset + 1, c :: cs =>
    if c.utf8Size ≤ offset + 1 then dropBytes (offset + 1 - c.utf8Size) cs else none

def isAsciiWhitespace (c : Char) : Bool := [' ', '\t', '\n', Char.ofNat 0x0c, '\r'].contains c

/-- The offset of the first character that satisfies a predicate. -/
def findOffset (p : Char → Bool) : (offset : Nat) → List Char → Option Nat
  | _, [] => none
  | offset, c :: cs => if p c then some offset else findOffset p (offset + c.utf8Size) cs

def quotedEnd (quote : Char) : (previous : Char) → (offset : Nat) → List Char → Option Nat
  | _, _, [] => none
  | previous, offset, c :: cs =>
    if c = quote ∧ previous ≠ '\\' then findOffset isAsciiWhitespace (offset + c.utf8Size) cs
    else quotedEnd quote c (offset + c.utf8Size) cs

def trimStart (cs : List Char) : List Char := cs.dropWhile isWhitespace

def findEndOfValue (s : List Char) : Option Nat :=
  match trimStart s with
  | [] => none
  | first :: rest =>
    if first = '"' ∨ first = '\'' then quotedEnd first first first.utf8Size rest
    else findOffset isWhitespace 0 (first :: rest)

def isNameChar (c : Char) : Bool := c.isAlphanum || c = '_'

/-- The text from the command on, no command behind the assignments, or a
slice inside a character. -/
inductive Scan where
  | command (remaining : List Char)
  | noCommand
  | panicked
  deriving DecidableEq

/-- The loop of `extract_first_command`; a round consumes at least a `=`. -/
def skipAssignments : (fuel : Nat) → List Char → Scan
  | 0, _ => .panicked
  | fuel + 1, remaining =>
    let next := trimStart remaining
    match next.dropWhile (· ≠ '=') with
    | [] => .command remaining
    | _ :: afterEq =>
      let beforeEq := next.takeWhile (· ≠ '=')
      if beforeEq ≠ [] ∧ beforeEq.all isNameChar then
        match findEndOfValue afterEq with
        | none => .noCommand
        | some offset =>
          match dropBytes offset afterEq with
          | none => .panicked
          | some rest => skipAssignments fuel rest
      else .command remaining

def extractFirstCommand (command : List Char) : Option (List Char) :=
  match skipAssignments ((trim command).length + 1) (trim command) with
  | .command remaining => some ((splitWhitespace remaining).head?.getD [])
  | .noCommand => some []
  | .panicked => none

def startsWithDash (part : List Char) : Bool := part.head? = some '-'

/-- From the first occurrence of the first word after `sudo` that is no flag. -/
def extractSudoInner (command : List Char) : List Char :=
  let parts := splitWhitespace command
  match ((parts.dropWhile (· ≠ "sudo".toList)).drop 1).find? fun part => !startsWithDash part with
  | none => []
  | some part =>
    match splitOnce part command with
    | some (_, after) => part ++ after
    | none => command

/-- The first word after the first that is no flag. -/
def gitSubcommand (command : List Char) : Option (List Char) :=
  ((splitWhitespace command).drop 1).find? fun part => !startsWithDash part

def validateGitReadOnly (command : List Char) : ValidationResult :=
  match gitSubcommand command with
  | some sub =>
    if sub ∈ GIT_READ_ONLY_SUBCOMMANDS.map String.toList then .allow
    else .block ("Git subcommand '" ++ String.ofList sub ++
      "' modifies repository state and is not allowed in read-only mode")
  | none => .allow

/-- The checks after the one for `sudo`. -/
def validateRedirections (first command : List Char) : ValidationResult :=
  match WRITE_REDIRECTIONS.find? fun redir => containsText redir.toList command with
  | some redir =>
    .block ("Command contains write redirection '" ++ redir ++
      "' which is not allowed in read-only mode")
  | none => if first = "git".toList then validateGitReadOnly command else .allow

def validateReadOnly (mode : PermissionMode) : (fuel : Nat) → (command : List Char) →
    Option ValidationResult
  | 0, _ => none
  | fuel + 1, command =>
    if mode ≠ .readOnly then some .allow
    else
      match extractFirstCommand command with
      | none => none
      | some first =>
        match WRITE_COMMANDS.find? fun cmd => cmd.toList = first with
        | some writeCmd =>
          some (.block ("Command '" ++ writeCmd ++
            "' modifies the filesystem and is not allowed in read-only mode"))
        | none =>
          match STATE_MODIFYING_COMMANDS.find? fun cmd => cmd.toList = first with
          | some stateCmd =>
            some (.block ("Command '" ++ stateCmd ++
              "' modifies system state and is not allowed in read-only mode"))
          | none =>
            let inner := extractSudoInner command
            if first = "sudo".toList ∧ inner ≠ [] then
              match validateReadOnly mode fuel inner with
              | none => none
              | some .allow => some (validateRedirections first command)
              | some result => some result
            else some (validateRedirections first command)

theorem isNameChar_of_isWhitespace {b : Char} (hb : isWhitespace b = true) :
    isNameChar b = false := by
  by_contra hname
  rw [Bool.not_eq_false] at hname
  simp only [isWhitespace, Bool.or_eq_true, Bool.and_eq_true, decide_eq_true_eq] at hb
  -- A name character is an upper-case or lower-case letter, a digit or an underscore.
  change (((decide (b.val ≥ 'A'.val ∧ b.val ≤ 'Z'.val) ||
    (decide (b.val ≥ 'a'.val) && decide (b.val ≤ 'z'.val))) ||
    (decide (b.val ≥ '0'.val) && decide (b.val ≤ '9'.val))) || decide (b = '_')) = true at hname
  simp only [Bool.or_eq_true, Bool.and_eq_true, decide_eq_true_eq, ge_iff_le,
    UInt32.le_iff_toNat_le] at hname
  have hval : b.val.toNat = b.toNat := rfl
  rw [hval] at hname
  rcases hname with ((hupper | hlower) | hdigit) | hunderscore
  · simp at hupper
    omega
  · simp at hlower
    omega
  · simp at hdigit
    omega
  · rw [hunderscore] at hb
    revert hb
    decide

end DbClinic.Runtime
