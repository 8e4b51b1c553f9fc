import DbClinic.Runtime.Trim
import DbClinic.Tools.Classify
import DbClinic.Tools.ShellSyntax

/-!
What a command that is classified as `workspace-write` may do: the classifier sees the
name in front of the first token, and the tokens between whitespace. A command in a
later position, and a path that is no token of its own or that does not resolve, it
does not see.
-/

namespace DbClinic.Tools

open DbClinic.Runtime DbClinic.Runtime.FileOps LinkTree Shell

/-- Where a path leads: what it resolves to, or, with directories for the names that
are missing, what it will resolve to. -/
def Process.leadsTo (process : Process) (p : PathBuf) : PathBuf :=
  match process.canonicalize p, (advance process.files maxLinks p.osNames).reached with
  | .ok canonical, _ => canonical
  | .error _, .ok (l, _) => .ofLocation l
  | .error _, .error _ => p

/-- The path leads to a place in the working directory. -/
def LiesWithin (process : Process) (path : List Char) : Prop :=
  ∃ cwd, process.currentDir = some cwd ∧
    (process.leadsTo (.ofText (String.ofList path))).startsWith cwd = true

def StartsReadOnly (command : SimpleCommand) : Prop :=
  ∃ word ∈ command.words.head?, String.ofList word ∈ readOnlyCommands

/-- Every simple command is one that reads, and every absolute path lies within the
working directory. -/
structure ReadsWithin (process : Process) (command : List Char) : Prop where
  commands : ∀ simple ∈ simpleCommands command, StartsReadOnly simple
  paths : ∀ simple ∈ simpleCommands command, ∀ path ∈ simple.absolutePaths,
    LiesWithin process path

/-- The simple command starts with the name that the classifier looks at. -/
def IsNamed (command : List Char) (simple : SimpleCommand) : Prop :=
  simple.words.head? = some (commandName command)

/-- The path is a token by itself, and it resolves. -/
def IsChecked (process : Process) (command path : List Char) : Prop :=
  path ∈ (splitWhitespace command).map (trimMatches isPathQuote) ∧
    process.currentDir.isSome = true ∧ process.pathExists (.ofText (String.ofList path)) = true

variable {process : Process} {command : List Char}

theorem classifyBashPermission_eq_iff (process : Process) (command : String) :
    classifyBashPermission process command = .workspaceWrite ↔
      String.ofList (commandName command.toList) ∈ readOnlyCommands ∧
        hasDangerousPaths process command.toList = false := by
  unfold classifyBashPermission
  rw [← List.contains_iff_mem]
  cases readOnlyCommands.contains (String.ofList (commandName command.toList)) with
  | false => simp
  | true => cases hasDangerousPaths process command.toList <;> simp

theorem canonicalize_of_exists {p : PathBuf} (h : process.pathExists p = true) :
    ∃ canonical, process.canonicalize p = .ok canonical := by
  unfold Process.pathExists at h
  split at h
  · rename_i canonical hcanonical
    exact ⟨canonical, hcanonical⟩
  · cases h

theorem startsWith_of_not_dangerous {word : List Char} {cwd canonical : PathBuf} {rest : List Char}
    (htoken : trimMatches isPathQuote word = '/' :: rest) (hcwd : process.currentDir = some cwd)
    (hcanonical : process.canonicalize (.ofText (String.ofList ('/' :: rest))) = .ok canonical)
    (h : isDangerousToken process word = false) : canonical.startsWith cwd = true := by
  have habsolute : PathBuf.isAbsoluteText (String.ofList ('/' :: rest)) = true := by
    simp [PathBuf.isAbsoluteText]
  have hjoin : cwd.join (String.ofList ('/' :: rest)) = .ofText (String.ofList ('/' :: rest)) := by
    unfold PathBuf.join
    rw [if_pos habsolute]
  unfold isDangerousToken at h
  rw [htoken] at h
  dsimp only at h
  split at h
  · rename_i hdash
    cases hdash
  split at h
  · cases h
  split at h
  · cases h
  simp only [Bool.or_eq_false_iff, hcwd, Option.any_some, hjoin, hcanonical] at h
  obtain ⟨-, hleads⟩ := h
  simpa using hleads

theorem liesWithin_of_checked {path : List Char} (habsolute : path.head? = some '/')
    (hchecked : IsChecked process command path)
    (h : hasDangerousPaths process command = false) : LiesWithin process path := by
  obtain ⟨htoken, hcwd, hexists⟩ := hchecked
  obtain ⟨word, hword, rfl⟩ := List.mem_map.mp htoken
  obtain ⟨cwd, hcwd⟩ := Option.isSome_iff_exists.mp hcwd
  obtain ⟨canonical, hcanonical⟩ := canonicalize_of_exists hexists
  obtain ⟨rest, hrest⟩ := List.head?_eq_some_iff.mp habsolute
  have hsafe : isDangerousToken process word = false := by
    have hall := List.any_eq_false.mp h word hword
    simpa using hall
  refine ⟨cwd, hcwd, ?_⟩
  unfold Process.leadsTo
  rw [hcanonical]
  rw [hrest] at hcanonical
  exact startsWith_of_not_dangerous hrest hcwd hcanonical hsafe

/-- A command that is classified as `workspace-write` only reads, and only in the
working directory, exactly if this holds of what the classifier does not see: the
simple commands of another name, and the paths that are not checked. -/
theorem classified_reads_within_iff (process : Process) (command : String) :
    (classifyBashPermission process command = .workspaceWrite →
      ReadsWithin process command.toList) ↔
    (String.ofList (commandName command.toList) ∈ readOnlyCommands →
      hasDangerousPaths process command.toList = false →
      ∀ simple ∈ simpleCommands command.toList,
        (¬ IsNamed command.toList simple → StartsReadOnly simple) ∧
        ∀ path ∈ simple.absolutePaths, ¬ IsChecked process command.toList path →
          LiesWithin process path) := by
  rw [classifyBashPermission_eq_iff]
  constructor
  · intro h hname hpaths simple hsimple
    have hreads := h ⟨hname, hpaths⟩
    exact ⟨fun _ => hreads.commands simple hsimple,
      fun path hpath _ => hreads.paths simple hsimple path hpath⟩
  · rintro h ⟨hname, hpaths⟩
    have hunseen := h hname hpaths
    refine ⟨fun simple hsimple => ?_, fun simple hsimple path hpath => ?_⟩
    · by_cases hnamed : IsNamed command.toList simple
      · exact ⟨commandName command.toList, hnamed, hname⟩
      · exact (hunseen simple hsimple).1 hnamed
    · by_cases hchecked : IsChecked process command.toList path
      · obtain ⟨-, habsolute⟩ := List.mem_filter.mp hpath
        exact liesWithin_of_checked (of_decide_eq_true habsolute) hchecked hpaths
      · exact (hunseen simple hsimple).2 path hpath hchecked

/-- A simple command behind a separator is not looked at. -/
theorem removal_behind_separator :
    classifyBashPermission ⟨fun _ => none, some [], [], id⟩ "cat notes; rm notes" =
        .workspaceWrite ∧
      ¬ ReadsWithin ⟨fun _ => none, some [], [], id⟩ "cat notes; rm notes".toList := by
  have hmem : ⟨["rm".toList, "notes".toList], []⟩ ∈ simpleCommands "cat notes; rm notes".toList := by
    decide +kernel
  refine ⟨by decide +kernel, fun h => ?_⟩
  obtain ⟨word, hword, hread⟩ := h.commands _ hmem
  cases hword
  revert hread
  decide +kernel

end DbClinic.Tools
