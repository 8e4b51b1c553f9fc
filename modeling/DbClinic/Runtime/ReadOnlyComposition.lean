import DbClinic.Runtime.BashValidation
import DbClinic.Runtime.Trim

/-!
What the read-only validation sees of a pipeline, a chain, or a command behind
`sudo`: the first command, as the scanner finds it, and a redirection anywhere.
A command in a later position is not looked at, and neither is one behind an
argument of an option of `sudo`.
-/

namespace DbClinic.Runtime

open List

/-- The validation of the command returns `Block` in read-only mode. -/
def Blocks (command : List Char) : Prop :=
  ∃ fuel reason, validateReadOnly .readOnly fuel command = some (.block reason)

/-- The command that remains when prefixes with `sudo` are cut off, each with
the flags behind it. -/
inductive Unwraps : List Char → List Char → Prop where
  | bare {command first : List Char} (hfirst : extractFirstCommand command = some first)
      (hsudo : first = "sudo".toList → extractSudoInner command = []) :
      Unwraps command command
  | behindSudo {command inner : List Char}
      (hfirst : extractFirstCommand command = some "sudo".toList)
      (hne : extractSudoInner command ≠ []) (hinner : Unwraps (extractSudoInner command) inner) :
      Unwraps command inner

def IsBlockedName (name : List Char) : Prop :=
  name ∈ (WRITE_COMMANDS ++ STATE_MODIFYING_COMMANDS).map String.toList

instance (name : List Char) : Decidable (IsBlockedName name) :=
  inferInstanceAs (Decidable (name ∈ _))

/-- The command starts with a write command or a state-modifying command, or it
is a call of git whose first word that is no flag is no read-only subcommand. -/
def StartsBlocked (command : List Char) : Prop :=
  ∃ first, extractFirstCommand command = some first ∧
    (IsBlockedName first ∨ (first = "git".toList ∧
      ∃ sub, gitSubcommand command = some sub ∧
        sub ∉ GIT_READ_ONLY_SUBCOMMANDS.map String.toList))

section Level

variable {command first : List Char}

theorem validate_of_blockedName (hfirst : extractFirstCommand command = some first)
    (hname : IsBlockedName first) :
    ∃ reason, ∀ fuel,
      validateReadOnly .readOnly (fuel + 1) command = some (.block reason) := by
  cases hwrite : WRITE_COMMANDS.find? fun cmd => cmd.toList = first with
  | some writeCmd =>
    refine ⟨"Command '" ++ writeCmd ++
      "' modifies the filesystem and is not allowed in read-only mode", fun fuel => ?_⟩
    simp only [validateReadOnly, hfirst, hwrite]
    rfl
  | none =>
    cases hstate : STATE_MODIFYING_COMMANDS.find? fun cmd => cmd.toList = first with
    | some stateCmd =>
      refine ⟨"Command '" ++ stateCmd ++
        "' modifies system state and is not allowed in read-only mode", fun fuel => ?_⟩
      simp only [validateReadOnly, hfirst, hwrite, hstate]
      rfl
    | none =>
      exfalso
      obtain ⟨cmd, hcmd, rfl⟩ := mem_map.mp hname
      rcases mem_append.mp hcmd with hcmd | hcmd
      · simpa using find?_eq_none.mp hwrite cmd hcmd
      · simpa using find?_eq_none.mp hstate cmd hcmd

theorem validate_of_not_blockedName (hfirst : extractFirstCommand command = some first)
    (hname : ¬ IsBlockedName first) (fuel : Nat) :
    validateReadOnly .readOnly (fuel + 1) command =
      if first = "sudo".toList ∧ extractSudoInner command ≠ [] then
        match validateReadOnly .readOnly fuel (extractSudoInner command) with
        | none => none
        | some .allow => some (validateRedirections first command)
        | some result => some result
      else some (validateRedirections first command) := by
  have hwrite : (WRITE_COMMANDS.find? fun cmd => cmd.toList = first) = none := by
    rw [find?_eq_none]
    intro cmd hcmd heq
    exact hname (mem_map.mpr ⟨cmd, mem_append_left _ hcmd, by simpa using heq⟩)
  have hstate : (STATE_MODIFYING_COMMANDS.find? fun cmd => cmd.toList = first) = none := by
    rw [find?_eq_none]
    intro cmd hcmd heq
    exact hname (mem_map.mpr ⟨cmd, mem_append_right _ hcmd, by simpa using heq⟩)
  simp only [validateReadOnly, hfirst, hwrite, hstate]
  rfl

theorem validateRedirections_cases (first command : List Char) :
    ('>' ∈ command ∧ ∃ reason, validateRedirections first command = .block reason) ∨
    ('>' ∉ command ∧ validateRedirections first command =
      if first = "git".toList then validateGitReadOnly command else .allow) := by
  by_cases hmem : '>' ∈ command
  · left
    refine ⟨hmem, ?_⟩
    unfold validateRedirections
    split
    · exact ⟨_, rfl⟩
    · rename_i hnone
      exfalso
      have hfound := find?_eq_none.mp hnone ">" (by decide)
      exact hfound (containsText_singleton hmem)
  · right
    refine ⟨hmem, ?_⟩
    unfold validateRedirections
    split
    · rename_i redir hfound
      exfalso
      have hcontains := find?_some hfound
      have hredir : redir ∈ WRITE_REDIRECTIONS := mem_of_find?_eq_some hfound
      have hstart : ∀ redir ∈ WRITE_REDIRECTIONS, '>' ∈ redir.toList := by decide
      exact hmem (mem_of_containsText hcontains (hstart redir hredir))
    · rfl

theorem validateGitReadOnly_cases (command : List Char) :
    validateGitReadOnly command = .allow ∧ (∀ sub, gitSubcommand command = some sub →
        sub ∈ GIT_READ_ONLY_SUBCOMMANDS.map String.toList) ∨
    (∃ reason, validateGitReadOnly command = .block reason) ∧ ∃ sub,
      gitSubcommand command = some sub ∧
        sub ∉ GIT_READ_ONLY_SUBCOMMANDS.map String.toList := by
  unfold validateGitReadOnly
  split
  · rename_i sub hsub
    split
    · rename_i hmem
      refine .inl ⟨rfl, fun sub' hsub' => ?_⟩
      cases hsub.symm.trans hsub'
      exact hmem
    · rename_i hmem
      exact .inr ⟨⟨_, rfl⟩, sub, hsub, hmem⟩
  · rename_i hsub
    refine .inl ⟨rfl, fun sub' hsub' => ?_⟩
    rw [hsub] at hsub'
    cases hsub'

end Level

variable {command : List Char} {fuel : Nat} {result : ValidationResult}

/-- What is behind `sudo` is a part of the command's text. -/
theorem mem_of_mem_extractSudoInner {c : Char} (h : c ∈ extractSudoInner command) :
    c ∈ command := by
  unfold extractSudoInner at h
  dsimp only at h
  split at h
  · cases h
  · split at h
    · rename_i part _ _ after hsplit
      rw [splitOnce_eq hsplit]
      rcases mem_append.mp h with h | h <;> simp [h]
    · exact h

/-- Without a prefix of `sudo`, the text is blocked for its start or for a
redirection. -/
theorem validate_bare {first : List Char} (hfirst : extractFirstCommand command = some first)
    (hsudo : first = "sudo".toList → extractSudoInner command = []) :
    (StartsBlocked command ∨ '>' ∈ command) ∧
        (∃ reason, ∀ fuel, validateReadOnly .readOnly (fuel + 1) command = some (.block reason)) ∨
      ¬ (StartsBlocked command ∨ '>' ∈ command) ∧
        ∀ fuel, validateReadOnly .readOnly (fuel + 1) command = some .allow := by
  by_cases hname : IsBlockedName first
  · exact .inl ⟨.inl ⟨first, hfirst, .inl hname⟩, validate_of_blockedName hfirst hname⟩
  · have hlevel : ∀ fuel, validateReadOnly .readOnly (fuel + 1) command =
        some (validateRedirections first command) := by
      intro fuel
      rw [validate_of_not_blockedName hfirst hname, if_neg]
      rintro ⟨heq, hne⟩
      exact hne (hsudo heq)
    have hnotName : ∀ {first'}, extractFirstCommand command = some first' → first' = first :=
      fun h => Option.some.inj (h.symm.trans hfirst)
    rcases validateRedirections_cases first command with ⟨hmem, reason, hblock⟩ | ⟨hmem, hrest⟩
    · exact .inl ⟨.inr hmem, reason, fun fuel => by rw [hlevel, hblock]⟩
    · by_cases hgit : first = "git".toList
      · rw [if_pos hgit] at hrest
        rcases validateGitReadOnly_cases command with ⟨hallow, hsubs⟩ | ⟨⟨reason, hblock⟩, hsubs⟩
        · refine .inr ⟨?_, fun fuel => by rw [hlevel, hrest, hallow]⟩
          rintro (⟨first', hfirst', hblocked⟩ | hmem')
          · rw [hnotName hfirst'] at hblocked
            rcases hblocked with hblocked | ⟨-, sub, hsub, hnot⟩
            · exact hname hblocked
            · exact hnot (hsubs sub hsub)
          · exact hmem hmem'
        · exact .inl ⟨.inl ⟨first, hfirst, .inr ⟨hgit, hsubs⟩⟩, reason,
            fun fuel => by rw [hlevel, hrest, hblock]⟩
      · rw [if_neg hgit] at hrest
        refine .inr ⟨?_, fun fuel => by rw [hlevel, hrest]⟩
        rintro (⟨first', hfirst', hblocked⟩ | hmem')
        · rw [hnotName hfirst'] at hblocked
          rcases hblocked with hblocked | ⟨hgit', -⟩
          · exact hname hblocked
          · exact hgit hgit'
        · exact hmem hmem'

/-- A prefix of `sudo`: what is behind it decides, then a redirection. -/
theorem validate_sudo (hfirst : extractFirstCommand command = some "sudo".toList)
    (hne : extractSudoInner command ≠ []) (fuel : Nat) :
    validateReadOnly .readOnly (fuel + 1) command =
      match validateReadOnly .readOnly fuel (extractSudoInner command) with
      | none => none
      | some .allow => some (validateRedirections "sudo".toList command)
      | some result => some result := by
  rw [validate_of_not_blockedName hfirst (by decide), if_pos ⟨rfl, hne⟩]

/-- What the validation returns for a text whose prefixes of `sudo` end. -/
theorem validate_of_unwraps {inner : List Char} (h : Unwraps command inner) :
    (StartsBlocked inner ∨ '>' ∈ command) ∧
        (∃ fuel reason, validateReadOnly .readOnly fuel command = some (.block reason)) ∨
      ¬ (StartsBlocked inner ∨ '>' ∈ command) ∧
        ∃ fuel, validateReadOnly .readOnly fuel command = some .allow := by
  induction h with
  | bare hfirst hsudo =>
    rcases validate_bare hfirst hsudo with ⟨hcond, reason, hall⟩ | ⟨hcond, hall⟩
    · exact .inl ⟨hcond, 1, reason, hall 0⟩
    · exact .inr ⟨hcond, 1, hall 0⟩
  | behindSudo hfirst hne hinner ih =>
    rename_i command inner
    rcases ih with ⟨hcond, fuel, reason, hblock⟩ | ⟨hcond, fuel, hallow⟩
    · refine .inl ⟨hcond.imp id mem_of_mem_extractSudoInner, fuel + 1, reason, ?_⟩
      rw [validate_sudo hfirst hne, hblock]
    · have hlevel := validate_sudo hfirst hne fuel
      rw [hallow] at hlevel
      dsimp only at hlevel
      have hstart : ¬ StartsBlocked inner := fun hstart => hcond (.inl hstart)
      rcases validateRedirections_cases "sudo".toList command with
        ⟨hmem, reason, hblock⟩ | ⟨hmem, hrest⟩
      · rw [hblock] at hlevel
        exact .inl ⟨.inr hmem, fuel + 1, reason, hlevel⟩
      · rw [hrest, if_neg (by decide)] at hlevel
        exact .inr ⟨by simp [hstart, hmem], fuel + 1, hlevel⟩

/-- A validation that returns has cut off every prefix of `sudo`. -/
theorem unwraps_of_validate (h : validateReadOnly .readOnly fuel command = some result) :
    ∃ inner, Unwraps command inner := by
  induction fuel generalizing command result with
  | zero => cases h
  | succ fuel ih =>
    cases hfirst : extractFirstCommand command with
    | none => simp [validateReadOnly, hfirst] at h
    | some first =>
      by_cases hsudo : first = "sudo".toList ∧ extractSudoInner command ≠ []
      · obtain ⟨rfl, hne⟩ := hsudo
        rw [validate_sudo hfirst hne] at h
        cases hrec : validateReadOnly .readOnly fuel (extractSudoInner command) with
        | none => simp [hrec] at h
        | some result' =>
          obtain ⟨inner, hinner⟩ := ih hrec
          exact ⟨inner, .behindSudo hfirst hne hinner⟩
      · refine ⟨command, .bare hfirst fun heq => ?_⟩
        by_contra hne
        exact hsudo ⟨heq, hne⟩

theorem validate_mono {fuel' : Nat} (h : validateReadOnly .readOnly fuel command = some result)
    (hle : fuel ≤ fuel') :
    validateReadOnly .readOnly fuel' command = some result := by
  induction fuel generalizing fuel' command result with
  | zero => cases h
  | succ fuel ih =>
    obtain ⟨fuel', rfl⟩ : ∃ k, fuel' = k + 1 := ⟨fuel' - 1, by omega⟩
    cases hfirst : extractFirstCommand command with
    | none => simp [validateReadOnly, hfirst] at h
    | some first =>
      by_cases hname : IsBlockedName first
      · obtain ⟨reason, hall⟩ := validate_of_blockedName hfirst hname
        rw [hall] at h
        rw [hall, h]
      · rw [validate_of_not_blockedName hfirst hname] at h ⊢
        split at h
        · rename_i hsudo
          rw [if_pos hsudo]
          cases hrec : validateReadOnly .readOnly fuel (extractSudoInner command) with
          | none => simp [hrec] at h
          | some result' =>
            rw [hrec] at h
            rw [ih hrec (by omega)]
            exact h
        · rename_i hsudo
          rw [if_neg hsudo]
          exact h

theorem validate_unique {fuel' : Nat} {result' : ValidationResult}
    (h : validateReadOnly .readOnly fuel command = some result)
    (h' : validateReadOnly .readOnly fuel' command = some result') : result = result' := by
  have hmax := validate_mono h (Nat.le_max_left fuel fuel')
  rw [validate_mono h' (Nat.le_max_right fuel fuel')] at hmax
  exact (Option.some.inj hmax).symm

/-- A text is blocked when, behind its prefixes of `sudo`, it starts with a
blocked command, or when it holds a redirection. -/
theorem blocks_iff (command : List Char) :
    Blocks command ↔ ∃ inner, Unwraps command inner ∧ (StartsBlocked inner ∨ '>' ∈ command) := by
  constructor
  · rintro ⟨fuel, reason, hblock⟩
    obtain ⟨inner, hinner⟩ := unwraps_of_validate hblock
    refine ⟨inner, hinner, ?_⟩
    rcases validate_of_unwraps hinner with ⟨hcond, -⟩ | ⟨-, fuel', hallow⟩
    · exact hcond
    · cases validate_unique hblock hallow
  · rintro ⟨inner, hinner, hcond⟩
    rcases validate_of_unwraps hinner with ⟨-, fuel, reason, hblock⟩ | ⟨hnot, -⟩
    · exact ⟨fuel, reason, hblock⟩
    · exact absurd hcond hnot

inductive Operator where
  | pipe
  | and
  | or
  | sequence
  deriving DecidableEq

def Operator.text : Operator → List Char
  | pipe => ['|']
  | and => ['&', '&']
  | or => ['|', '|']
  | sequence => [';']

structure Link where
  before : Nat
  operator : Operator
  after : Nat
  command : List Char

def Link.text (link : Link) : List Char :=
  List.replicate link.before ' ' ++ link.operator.text ++ List.replicate link.after ' ' ++
    link.command

/-- A pipeline or chain of commands. -/
structure Composition where
  first : List Char
  links : List Link

namespace Composition

def commands (c : Composition) : List (List Char) := c.first :: c.links.map Link.command

def text (c : Composition) : List Char := c.first ++ c.links.flatMap Link.text

end Composition

/-- A command behind `sudo` and its options, each a word or several. -/
def sudoText (options : List (List Char)) (command : List Char) : List Char :=
  "sudo".toList ++ (options.flatMap fun option => ' ' :: option) ++ ' ' :: command

theorem redirect_mem_link {link : Link} : '>' ∈ link.text ↔ '>' ∈ link.command := by
  have hoperator : '>' ∉ link.operator.text := by cases link.operator <;> decide
  simp [Link.text, hoperator, mem_replicate]

theorem redirect_mem_text {c : Composition} :
    '>' ∈ c.text ↔ ∃ command ∈ c.commands, '>' ∈ command := by
  simp [Composition.text, Composition.commands, redirect_mem_link]

theorem redirect_mem_sudoText {options : List (List Char)} :
    '>' ∈ sudoText options command ↔ '>' ∈ command ∨ ∃ option ∈ options, '>' ∈ option := by
  simp [sudoText, or_comm]

end DbClinic.Runtime
