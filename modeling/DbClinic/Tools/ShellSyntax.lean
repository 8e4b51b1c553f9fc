import Mathlib.Data.List.Basic

/-!
The words, redirections and simple commands of a shell command, as the shell reads
them: quotes are removed, and pipes, lists, subshells and substitutions are taken
apart at their operators. What a substitution in double quotes contains is part of
its word. A reserved word in front of a command is no word of it; `for`, `case` and
functions are not read.
-/

namespace DbClinic.Tools.Shell

inductive ShellToken where
  | word (text : List Char) (quoted : Bool)
  | redirect
  | separator
  deriving DecidableEq

/-- The word being read, last character first, and the here-documents to come. -/
structure Lexer where
  word : Option (List Char × Bool)
  awaitsDelimiter : Bool
  delimiters : List (List Char)
  deriving Repr

namespace Lexer

def start : Lexer := ⟨none, false, []⟩

def push (s : Lexer) (quoted : Bool) (text : List Char) : Lexer :=
  match s.word with
  | none => { s with word := some (text.reverse, quoted) }
  | some (before, wasQuoted) =>
    { s with word := some (text.reverse ++ before, wasQuoted || quoted) }

def ended (s : Lexer) : List ShellToken :=
  match s.word with
  | some (text, quoted) => if s.awaitsDelimiter then [] else [.word text.reverse quoted]
  | none => []

def endWord (s : Lexer) : Lexer :=
  match s.word with
  | some (text, _) =>
    if s.awaitsDelimiter then ⟨none, false, s.delimiters ++ [text.reverse]⟩
    else { s with word := none }
  | none => s

/-- The number of a file descriptor, in front of a redirection. -/
def isDescriptor (s : Lexer) : Bool :=
  match s.word with
  | some (text, quoted) => !quoted && text.all Char.isDigit
  | none => false

end Lexer

/-- What a double quote encloses, and what follows it. -/
def doubleQuoted : List Char → List Char × List Char
  | [] => ([], [])
  | '"' :: rest => ([], rest)
  | '\\' :: c :: rest =>
    let (inside, after) := doubleQuoted rest
    if c = '\n' then (inside, after)
    else if c = '$' ∨ c = '\x60' ∨ c = '"' ∨ c = '\\' then (c :: inside, after)
    else ('\\' :: c :: inside, after)
  | c :: rest =>
    let (inside, after) := doubleQuoted rest
    (c :: inside, after)

def skipHereDocument (cs : List Char) (delimiter : List Char) : List Char :=
  let lines := cs.splitOn '\n'
  ['\n'].intercalate
    ((lines.dropWhile fun line => line.dropWhile (· = '\t') ≠ delimiter).drop 1)

/-- Behind a `<` or `>`: whether a delimiter follows, and the text after the operator. -/
def redirection : List Char → Bool × List Char
  | '<' :: '<' :: '<' :: rest => (false, rest)
  | '<' :: '<' :: '-' :: rest => (true, rest)
  | '<' :: '<' :: rest => (true, rest)
  | '<' :: '>' :: rest => (false, rest)
  | '<' :: '&' :: rest => (false, rest)
  | '>' :: '>' :: rest => (false, rest)
  | '>' :: '|' :: rest => (false, rest)
  | '>' :: '&' :: rest => (false, rest)
  | _ :: rest => (false, rest)
  | [] => (false, [])

def isSeparator (c : Char) : Bool :=
  c = ';' || c = '&' || c = '|' || c = '(' || c = ')' || c = '\x60'

/-- Every step reads a character, so the length of the text is fuel enough. -/
def tokens : (fuel : Nat) → Lexer → List Char → List ShellToken
  | 0, s, _ => s.ended
  | _ + 1, s, [] => s.ended
  | fuel + 1, s, c :: rest =>
    if c = '\\' then
      match rest with
      | '\n' :: rest => tokens fuel s rest
      | d :: rest => tokens fuel (s.push true [d]) rest
      | [] => tokens fuel (s.push true ['\\']) []
    else if c = '\'' then
      tokens fuel (s.push true (rest.takeWhile (· ≠ '\''))) ((rest.dropWhile (· ≠ '\'')).drop 1)
    else if c = '"' then
      tokens fuel (s.push true (doubleQuoted rest).1) (doubleQuoted rest).2
    else if c = ' ' ∨ c = '\t' then s.ended ++ tokens fuel s.endWord rest
    else if c = '\n' then
      s.ended ++ .separator :: tokens fuel { s.endWord with delimiters := [] }
        (s.endWord.delimiters.foldl skipHereDocument rest)
    else if c = '#' ∧ s.word = none then tokens fuel s (rest.dropWhile (· ≠ '\n'))
    else if c = '&' ∧ rest.head? = some '>' then s.ended ++ tokens fuel s.endWord rest
    else if isSeparator c then s.ended ++ .separator :: tokens fuel s.endWord rest
    else if c = '<' ∨ c = '>' then
      (if s.isDescriptor then [] else s.ended) ++
        if (redirection (c :: rest)).1 then
          tokens fuel { s.endWord with awaitsDelimiter := true } (redirection (c :: rest)).2
        else .redirect :: tokens fuel s.endWord (redirection (c :: rest)).2
    else tokens fuel (s.push false [c]) rest

structure SimpleCommand where
  words : List (List Char)
  targets : List (List Char)
  deriving DecidableEq

def reservedWords : List String :=
  ["!", "\x7b", "\x7d", "if", "then", "elif", "else", "fi", "while", "until", "do", "done", "time"]

def isReserved : ShellToken → Bool
  | .word text quoted => !quoted && reservedWords.contains (String.ofList text)
  | _ => false

def simpleCommand : List ShellToken → SimpleCommand
  | [] => ⟨[], []⟩
  | .redirect :: .word target _ :: rest =>
    let command := simpleCommand rest
    ⟨command.words, target :: command.targets⟩
  | .word text _ :: rest =>
    let command := simpleCommand rest
    ⟨text :: command.words, command.targets⟩
  | _ :: rest => simpleCommand rest

def simpleCommands (command : List Char) : List SimpleCommand :=
  (((tokens (command.length + 1) .start command).splitOn .separator).map fun segment =>
    simpleCommand (segment.dropWhile isReserved)).filter (· ≠ ⟨[], []⟩)

def optionValue : List Char → List Char
  | '-' :: '-' :: rest => (rest.dropWhile (· ≠ '=')).drop 1
  | '-' :: rest => rest.dropWhile Char.isAlphanum
  | _ => []

def SimpleCommand.absolutePaths (command : SimpleCommand) : List (List Char) :=
  (command.words ++ command.targets ++ command.words.map optionValue).filter
    fun path => path.head? = some '/'

example : simpleCommands "cat 'a b' | sort>/tmp/out && ! rm -f/etc/x # done".toList =
    [⟨["cat".toList, "a b".toList], []⟩, ⟨["sort".toList], ["/tmp/out".toList]⟩,
      ⟨["rm".toList, "-f/etc/x".toList], []⟩] := by decide +kernel

end DbClinic.Tools.Shell
