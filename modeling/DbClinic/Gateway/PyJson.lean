import DbClinic.Runtime.JsonRoundTrip

/-!
The module `json` of Python: `dumps` with its default options and `loads`. A
string is a list of code points, a text is a list of characters. A float is its
`repr`; what `float` makes of the text of a number is a parameter. The limits of
the interpreter, on nesting and on the digits of an integer, are left out.
-/

namespace DbClinic.PyJson

open DbClinic.Runtime

abbrev CodePoint := Fin 0x110000

def ord (c : Char) : CodePoint := Fin.ofNat 0x110000 c.toNat

def chr (c : CodePoint) : Option Char :=
  if c.val.isValidChar then some (Char.ofNat c.val) else none

inductive Json where
  | none
  | bool (value : Bool)
  | int (value : Int)
  | float (repr : List Char)
  | str (text : List CodePoint)
  | list (items : List Json)
  | dict (entries : List (List CodePoint × Json))

/-- `entries[key] = value`, in place when the key is there. -/
def setItem {α : Type} (key : List CodePoint) (value : α) :
    List (List CodePoint × α) → List (List CodePoint × α)
  | [] => [(key, value)]
  | (k, v) :: rest => if k = key then (key, value) :: rest else (k, v) :: setItem key value rest

def unicodeEscape (n : Nat) : List Char :=
  '\\' :: 'u' :: [12, 8, 4, 0].map fun shift => JsonValue.hexDigit ((n >>> shift) % 16)

/-- With `ensure_ascii`: every character but those from the blank to the tilde is
escaped. -/
def escapeCodePoint (c : CodePoint) : List Char :=
  if c = ord '"' then ['\\', '"']
  else if c = ord '\\' then ['\\', '\\']
  else if c = ord '\n' then ['\\', 'n']
  else if c = ord '\r' then ['\\', 'r']
  else if c = ord '\t' then ['\\', 't']
  else if c.val = 12 then ['\\', 'f']
  else if c.val = 8 then ['\\', 'b']
  else if 0x20 ≤ c.val ∧ c.val ≤ 0x7e then [Char.ofNat c.val]
  else if c.val < 0x10000 then unicodeEscape c.val
  else
    unicodeEscape (0xd800 + (c.val - 0x10000) / 0x400) ++
      unicodeEscape (0xdc00 + (c.val - 0x10000) % 0x400)

def dumpsStr (text : List CodePoint) : List Char := '"' :: text.flatMap escapeCodePoint ++ ['"']

mutual

def dumps : Json → List Char
  | .none => "null".toList
  | .bool true => "true".toList
  | .bool false => "false".toList
  | .int value => JsonValue.renderNumber value
  | .float repr => repr
  | .str text => dumpsStr text
  | .list items => '[' :: dumpsItems items ++ [']']
  | .dict entries => '\x7b' :: dumpsEntries entries ++ ['\x7d']

def dumpsItems : List Json → List Char
  | [] => []
  | [item] => dumps item
  | item :: rest => dumps item ++ ',' :: ' ' :: dumpsItems rest

def dumpsEntries : List (List CodePoint × Json) → List Char
  | [] => []
  | [(key, value)] => dumpsStr key ++ ':' :: ' ' :: dumps value
  | (key, value) :: rest =>
    dumpsStr key ++ ':' :: ' ' :: dumps value ++ ',' :: ' ' :: dumpsEntries rest

end

def skipWs (cs : List Char) : List Char :=
  cs.dropWhile fun c => c = ' ' || c = '\t' || c = '\n' || c = '\r'

def scanHex : (digits : Nat) → (value : Nat) → List Char → Option (Nat × List Char)
  | 0, value, cs => some (value, cs)
  | _ + 1, _, [] => none
  | digits + 1, value, c :: rest =>
    match Parser.hexValue c with
    | some d => scanHex digits (value * 16 + d) rest
    | none => none

/-- Behind `\u`: two surrogates that belong together are one code point. -/
def scanUnicode (cs : List Char) : Option (CodePoint × List Char) :=
  match scanHex 4 0 cs with
  | none => none
  | some (uni, rest) =>
    if 0xd800 ≤ uni ∧ uni ≤ 0xdbff then
      match rest with
      | '\\' :: 'u' :: after =>
        match scanHex 4 0 after with
        | none => none
        | some (uni2, after) =>
          if 0xdc00 ≤ uni2 ∧ uni2 ≤ 0xdfff then
            some (Fin.ofNat _ (0x10000 + (uni - 0xd800) * 0x400 + (uni2 - 0xdc00)), after)
          else some (Fin.ofNat _ uni, rest)
      | _ => some (Fin.ofNat _ uni, rest)
    else some (Fin.ofNat _ uni, rest)

def scanEscape : List Char → Option (CodePoint × List Char)
  | '"' :: rest => some (ord '"', rest)
  | '\\' :: rest => some (ord '\\', rest)
  | '/' :: rest => some (ord '/', rest)
  | 'b' :: rest => some (8, rest)
  | 'f' :: rest => some (12, rest)
  | 'n' :: rest => some (ord '\n', rest)
  | 'r' :: rest => some (ord '\r', rest)
  | 't' :: rest => some (ord '\t', rest)
  | 'u' :: rest => scanUnicode rest
  | _ => none

/-- Behind the opening quote; a control character ends the text with an error. -/
def scanString : (fuel : Nat) → (text : List CodePoint) → List Char →
    Option (List CodePoint × List Char)
  | 0, _, _ => none
  | _ + 1, _, [] => none
  | fuel + 1, text, c :: rest =>
    if c = '"' then some (text.reverse, rest)
    else if c = '\\' then
      match scanEscape rest with
      | some (escaped, after) => scanString fuel (escaped :: text) after
      | none => none
    else if c.toNat < 0x20 then none
    else scanString fuel (ord c :: text) rest

def scanDigits (cs : List Char) : List Char × List Char := cs.span Char.isDigit

/-- The integer part of a number: a zero, or digits that do not begin with one. -/
def scanInt : List Char → Option (List Char × List Char)
  | '-' :: '0' :: rest => some (['-', '0'], rest)
  | '0' :: rest => some (['0'], rest)
  | '-' :: rest =>
    match scanDigits rest with
    | ([], _) => none
    | (digits, rest) => some ('-' :: digits, rest)
  | cs =>
    match scanDigits cs with
    | ([], _) => none
    | (digits, rest) => some (digits, rest)

def scanFrac : List Char → List Char × List Char
  | '.' :: rest =>
    match scanDigits rest with
    | ([], _) => ([], '.' :: rest)
    | (digits, after) => ('.' :: digits, after)
  | cs => ([], cs)

/-- An exponent without digits is none. -/
def scanExp : List Char → List Char × List Char
  | [] => ([], [])
  | c :: rest =>
    if c = 'e' ∨ c = 'E' then
      match rest with
      | s :: rest' =>
        if s = '+' ∨ s = '-' then
          match scanDigits rest' with
          | ([], _) => ([], c :: rest)
          | (digits, after) => (c :: s :: digits, after)
        else
          match scanDigits rest with
          | ([], _) => ([], c :: rest)
          | (digits, after) => (c :: digits, after)
      | [] => ([], c :: rest)
    else ([], c :: rest)

def intValue : List Char → Int
  | '-' :: digits => -(Parser.digitsValue digits : Int)
  | digits => Parser.digitsValue digits

/-- The text of a number, without and with what makes it a float. -/
def scanNumberText (cs : List Char) : Option (List Char × List Char × List Char) :=
  match scanInt cs with
  | none => none
  | some (whole, rest) =>
    let (frac, rest) := scanFrac rest
    let (exp, rest) := scanExp rest
    some (whole, frac ++ exp, rest)

def scanNumber (float : List Char → List Char) (cs : List Char) : Option (Json × List Char) :=
  match scanNumberText cs with
  | none => none
  | some (whole, [], rest) => some (.int (intValue whole), rest)
  | some (whole, tail, rest) => some (.float (float (whole ++ tail)), rest)

def scanLiteral (literal : String) (value : Json) (cs : List Char) : Option (Json × List Char) :=
  if literal.toList.isPrefixOf cs then some (value, cs.drop literal.length) else none

section Loads

variable (float : List Char → List Char)

mutual

def scanOnce : (fuel : Nat) → List Char → Option (Json × List Char)
  | 0, _ => none
  | fuel + 1, cs =>
    match cs with
    | '"' :: rest => (scanString (rest.length + 1) [] rest).map fun r => (.str r.1, r.2)
    | '\x7b' :: rest =>
      match skipWs rest with
      | '\x7d' :: rest => some (.dict [], rest)
      | rest => scanEntries fuel [] rest
    | '[' :: rest =>
      match skipWs rest with
      | ']' :: rest => some (.list [], rest)
      | rest => scanItems fuel [] rest
    | cs =>
      (scanLiteral "null" .none cs).or <| (scanLiteral "true" (.bool true) cs).or <|
        (scanLiteral "false" (.bool false) cs).or <|
        (scanLiteral "NaN" (.float "nan".toList) cs).or <|
        (scanLiteral "Infinity" (.float "inf".toList) cs).or <|
        (scanLiteral "-Infinity" (.float "-inf".toList) cs).or (scanNumber float cs)

/-- From an element on. -/
def scanItems : (fuel : Nat) → (items : List Json) → List Char → Option (Json × List Char)
  | 0, _, _ => none
  | fuel + 1, items, cs =>
    match scanOnce fuel cs with
    | none => none
    | some (item, rest) =>
      match skipWs rest with
      | ']' :: rest => some (.list (items ++ [item]), rest)
      | ',' :: rest => scanItems fuel (items ++ [item]) (skipWs rest)
      | _ => none

def scanEntries : (fuel : Nat) → (entries : List (List CodePoint × Json)) → List Char →
    Option (Json × List Char)
  | 0, _, _ => none
  | fuel + 1, entries, cs =>
    match cs with
    | '"' :: rest =>
      match scanString (rest.length + 1) [] rest with
      | none => none
      | some (key, rest) =>
        match skipWs rest with
        | ':' :: rest =>
          match scanOnce fuel (skipWs rest) with
          | none => none
          | some (value, rest) =>
            match skipWs rest with
            | '\x7d' :: rest => some (.dict (setItem key value entries), rest)
            | ',' :: rest => scanEntries fuel (setItem key value entries) (skipWs rest)
            | _ => none
        | _ => none
    | _ => none

end

/-- `json.loads`; nothing where it raises `JSONDecodeError`. -/
def loads (text : List Char) : Option Json :=
  if text.head? = some (Char.ofNat 0xfeff) then none
  else
    match scanOnce float (2 * text.length + 2) (skipWs text) with
    | none => none
    | some (value, rest) => if skipWs rest = [] then some value else none

end Loads

end DbClinic.PyJson
