import DbClinic.Lib.Glob
import DbClinic.Runtime.PathBuf
import DbClinic.Runtime.WorkerScreen

/-!
The patterns of the trust resolver's allowlist, and how they match a path.
-/

namespace DbClinic.Runtime

open WorkerBoot (trimEndMatches containsAny toAsciiLowercase normalizePath pathComponents)

namespace TrustConfig

/-- A star tries every number of characters; one at the end takes them all. -/
def globMatches : (pattern path : List Char) → Bool
  | [], path => path.isEmpty
  | c :: pattern, path =>
    if c = '*' then
      if pattern = [] then true
      else (List.range (path.length + 1)).any fun skip => globMatches pattern (path.drop skip)
    else
      match path with
      | [] => false
      | d :: path => (c = '?' || d = c) && globMatches pattern path

def hasWildcard (pattern : List Char) : Bool := '*' ∈ pattern || '?' ∈ pattern

/-- What follows a directory in a path: nothing, or another component. -/
def continues (rest : List Char) : Bool := rest = [] || rest.head? = some '/'

/-- A pattern without wildcards contains the path, or is followed by something else. -/
def directoryMatch (pattern path : List Char) : Option Bool :=
  if hasWildcard pattern then none else (stripPrefix pattern path).map continues

/-- The pattern in front of the `/*` at its end. -/
def directoryOf (pattern : List Char) : List Char :=
  trimEndMatches ['/', '*'] pattern.length pattern

def stemOf (pattern : List Char) : List Char := trimEndMatches ['*'] pattern.length pattern

def endsInDirectoryStar (pattern : List Char) : Bool := ['/', '*'].isSuffixOf pattern

def endsInStar (pattern : List Char) : Bool :=
  !endsInDirectoryStar pattern && ['*'].isSuffixOf pattern &&
    !containsText ['/', '*', '/'] pattern

/-- A star at the end is looked at when the text in front of it begins the path. -/
def trailingStarMatch (pattern path : List Char) : Option Bool :=
  if endsInDirectoryStar pattern then (stripPrefix (directoryOf pattern) path).map continues
  else if endsInStar pattern then
    (stripPrefix (stemOf pattern) path).map fun rest => rest = [] || !(rest.head? = some '/')
  else none

def componentMatch (pattern path : List Char) : Bool :=
  ((path.splitOn '/').any fun component => component = pattern) ||
    (path.splitOn '/').any fun component => containsText pattern component

/-- The patterns that are matched character by character. -/
def isGlob (pattern : List Char) : Bool :=
  '?' ∈ pattern || containsText ['/', '*', '/'] pattern || ['*', '/'].isPrefixOf pattern

def normalizeSeparators (text : List Char) : List Char := replaceText ['/', '/'] ['/'] text

def patternMatches (pattern path : String) : Bool :=
  let pattern := trim pattern.toList
  let path := trim path.toList
  if pattern = path then true
  else
    let patternNormalized := normalizeSeparators pattern
    let pathNormalized := normalizeSeparators path
    ((directoryMatch patternNormalized pathNormalized).or
      (trailingStarMatch patternNormalized pathNormalized)).getD
      (componentMatch patternNormalized pathNormalized ||
        (isGlob pattern && globMatches patternNormalized pathNormalized))

end TrustConfig

end DbClinic.Runtime
