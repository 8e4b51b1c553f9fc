import Mathlib.Tactic

/-!
The JSON type of the runtime, its renderer and its recursive-descent parser.
A `BTreeMap` is the list of its entries in key order. The parser works on the
remaining characters; it recurses on fuel, and twice the length of the text is
more than its depth, because a nested value or a next element is only reached
past a character. Numbers are the 64-bit integers the source parses into.

The values of `serde_json`, as far as they are looked at, follow. There a number
is a `u64`, a negative `i64`, or anything else by its text, and the parser and
the printer of the library are parameters of what uses them.
-/

namespace DbClinic.Runtime

inductive JsonValue where
  | null
  | bool (value : Bool)
  | number (value : Int)
  | string (value : String)
  | array (values : List JsonValue)
  | object (entries : List (String × JsonValue))

structure JsonError where
  message : String
  deriving DecidableEq

/-- `BTreeMap::insert`. -/
def insertEntry {α : Type} (key : String) (value : α) :
    List (String × α) → List (String × α)
  | [] => [(key, value)]
  | (k, v) :: rest =>
    if key = k then (key, value) :: rest
    else if key < k then (key, value) :: (k, v) :: rest
    else (k, v) :: insertEntry key value rest

def entriesOf {α : Type} (entries : List (String × α)) : List (String × α) :=
  entries.foldl (fun map e => insertEntry e.1 e.2 map) []

/-- `BTreeMap::get`. -/
def getEntry {α : Type} (entries : List (String × α)) (key : String) : Option α :=
  (entries.find? fun e => e.1 = key).map Prod.snd

namespace JsonValue

def asObject : JsonValue → Option (List (String × JsonValue))
  | object entries => some entries
  | _ => none

def asArray : JsonValue → Option (List JsonValue)
  | array values => some values
  | _ => none

def asStr : JsonValue → Option String
  | string value => some value
  | _ => none

def asBool : JsonValue → Option Bool
  | bool value => some value
  | _ => none

def asI64 : JsonValue → Option Int
  | number value => some value
  | _ => none

/-- `char::is_control`: the category Cc. -/
def isControl (c : Char) : Bool := c.toNat < 0x20 || (0x7f ≤ c.toNat && c.toNat < 0xa0)

def hexDigit (nibble : Nat) : Char := "0123456789abcdef".toList.getD nibble '0'

def pushUnicodeEscape (c : Char) : List Char :=
  '\\' :: 'u' :: [12, 8, 4, 0].map fun shift => hexDigit ((c.toNat >>> shift) % 16)

def renderChar (c : Char) : List Char :=
  if c = '"' then ['\\', '"']
  else if c = '\\' then ['\\', '\\']
  else if c = '\n' then ['\\', 'n']
  else if c = '\r' then ['\\', 'r']
  else if c = '\t' then ['\\', 't']
  else if c = Char.ofNat 8 then ['\\', 'b']
  else if c = Char.ofNat 12 then ['\\', 'f']
  else if isControl c then pushUnicodeEscape c
  else [c]

def renderString (value : String) : List Char :=
  '"' :: value.toList.flatMap renderChar ++ ['"']

def renderNumber (value : Int) : List Char := (toString value).toList

mutual

/-- `JsonValue::render`, as characters. -/
def render : JsonValue → List Char
  | null => "null".toList
  | bool true => "true".toList
  | bool false => "false".toList
  | number value => renderNumber value
  | string value => renderString value
  | array values => '[' :: renderValues values ++ [']']
  | object entries => '\x7b' :: renderEntries entries ++ ['\x7d']

/-- The elements of an array, joined by commas. -/
def renderValues : List JsonValue → List Char
  | [] => []
  | [value] => render value
  | value :: rest => render value ++ ',' :: renderValues rest

/-- The entries of an object, joined by commas. -/
def renderEntries : List (String × JsonValue) → List Char
  | [] => []
  | [(key, value)] => renderString key ++ ':' :: render value
  | (key, value) :: rest => renderString key ++ ':' :: render value ++ ',' :: renderEntries rest

end

end JsonValue

/-! The parser. Each function takes the remaining characters and returns what
it read with the characters after it. -/

namespace Parser

abbrev Result (α : Type) := Except JsonError (α × List Char)

def fail {α : Type} (message : String) : Except JsonError α := .error ⟨message⟩

def skipWhitespace (cs : List Char) : List Char :=
  cs.dropWhile fun c => c = ' ' || c = '\n' || c = '\r' || c = '\t'

def expect (expected : Char) : List Char → Except JsonError (List Char)
  | c :: rest =>
    if c = expected then .ok rest
    else fail ("expected '" ++ expected.toString ++ "', found '" ++ c.toString ++ "'")
  | [] => fail ("expected '" ++ expected.toString ++ "', found end of input")

def parseLiteral (expected : String) (value : JsonValue) (cs : List Char) : Result JsonValue :=
  if cs.take expected.length = expected.toList then .ok (value, cs.drop expected.length)
  else fail ("invalid literal: expected " ++ expected)

/-- `char::to_digit` with radix 16. -/
def hexValue (c : Char) : Option Nat :=
  if '0' ≤ c ∧ c ≤ '9' then some (c.toNat - '0'.toNat)
  else if 'a' ≤ c ∧ c ≤ 'f' then some (c.toNat - 'a'.toNat + 10)
  else if 'A' ≤ c ∧ c ≤ 'F' then some (c.toNat - 'A'.toNat + 10)
  else none

/-- Read `digits` hexadecimal digits onto `value`. -/
def parseHex : (digits : Nat) → (value : Nat) → List Char → Result Nat
  | 0, value, cs => .ok (value, cs)
  | _ + 1, _, [] => fail "unexpected end of input in unicode escape"
  | digits + 1, value, c :: rest =>
    match hexValue c with
    | some d => parseHex digits (value * 16 + d) rest
    | none => fail "invalid unicode escape"

def parseUnicodeEscape (cs : List Char) : Result Char :=
  match parseHex 4 0 cs with
  | .error e => .error e
  | .ok (value, rest) =>
    if value.isValidChar then .ok (Char.ofNat value, rest)
    else fail "invalid unicode scalar value"

def parseEscape : List Char → Result Char
  | '"' :: rest => .ok ('"', rest)
  | '\\' :: rest => .ok ('\\', rest)
  | '/' :: rest => .ok ('/', rest)
  | 'b' :: rest => .ok (Char.ofNat 8, rest)
  | 'f' :: rest => .ok (Char.ofNat 12, rest)
  | 'n' :: rest => .ok ('\n', rest)
  | 'r' :: rest => .ok ('\r', rest)
  | 't' :: rest => .ok ('\t', rest)
  | 'u' :: rest => parseUnicodeEscape rest
  | c :: _ => fail ("invalid escape sequence: " ++ c.toString)
  | [] => fail "unexpected end of input in escape sequence"

/-- The loop of `parse_string`, after the opening quote. -/
def parseStringFrom : (fuel : Nat) → (value : List Char) → List Char → Result String
  | 0, _, _ => fail "out of fuel"
  | _ + 1, _, [] => fail "unterminated string"
  | fuel + 1, value, c :: rest =>
    if c = '"' then .ok (String.ofList value.reverse, rest)
    else if c = '\\' then
      match parseEscape rest with
      | .ok (escaped, after) => parseStringFrom fuel (escaped :: value) after
      | .error e => .error e
    else parseStringFrom fuel (c :: value) rest

def parseString (cs : List Char) : Result String :=
  match expect '"' cs with
  | .error e => .error e
  | .ok rest => parseStringFrom (rest.length + 1) [] rest

def digitsValue (digits : List Char) : Nat :=
  digits.foldl (fun n c => n * 10 + (c.toNat - '0'.toNat)) 0

/-- An integer of the range of `i64`. -/
def InI64 (n : Int) : Prop := -2 ^ 63 ≤ n ∧ n < 2 ^ 63

instance (n : Int) : Decidable (InI64 n) := inferInstanceAs (Decidable (_ ∧ _))

def parseNumber (cs : List Char) : Result Int :=
  let (negative, cs) := match cs with
    | '-' :: rest => (true, rest)
    | _ => (false, cs)
  let digits := cs.takeWhile Char.isDigit
  let rest := cs.dropWhile Char.isDigit
  if digits = [] then fail "invalid number"
  else
    let value : Int := if negative then -(digitsValue digits : Int) else digitsValue digits
    if InI64 value then .ok (value, rest) else fail "number out of range"

mutual

def parseValue : (fuel : Nat) → List Char → Result JsonValue
  | 0, _ => fail "out of fuel"
  | fuel + 1, cs =>
    match skipWhitespace cs with
    | [] => fail "unexpected end of input"
    | 'n' :: rest => parseLiteral "null" .null ('n' :: rest)
    | 't' :: rest => parseLiteral "true" (.bool true) ('t' :: rest)
    | 'f' :: rest => parseLiteral "false" (.bool false) ('f' :: rest)
    | '"' :: rest => (parseString ('"' :: rest)).map fun r => (.string r.1, r.2)
    | '[' :: rest => parseElements fuel [] rest
    | '\x7b' :: rest => parseMembers fuel [] rest
    | c :: rest =>
      if c = '-' ∨ c.isDigit then
        (parseNumber (c :: rest)).map fun r => (.number r.1, r.2)
      else fail ("unexpected character: " ++ c.toString)

/-- The loop of `parse_array`. -/
def parseElements : (fuel : Nat) → (values : List JsonValue) → List Char → Result JsonValue
  | 0, _, _ => fail "out of fuel"
  | fuel + 1, values, cs =>
    match skipWhitespace cs with
    | ']' :: rest => .ok (.array values.reverse, rest)
    | cs =>
      match parseValue fuel cs with
      | .error e => .error e
      | .ok (value, rest) =>
        match skipWhitespace rest with
        | ']' :: rest => .ok (.array (value :: values).reverse, rest)
        | rest =>
          match expect ',' rest with
          | .error e => .error e
          | .ok rest => parseElements fuel (value :: values) rest

/-- The loop of `parse_object`. -/
def parseMembers : (fuel : Nat) → (entries : List (String × JsonValue)) → List Char →
    Result JsonValue
  | 0, _, _ => fail "out of fuel"
  | fuel + 1, entries, cs =>
    match skipWhitespace cs with
    | '\x7d' :: rest => .ok (.object entries, rest)
    | cs =>
      match parseString cs with
      | .error e => .error e
      | .ok (key, rest) =>
        match expect ':' (skipWhitespace rest) with
        | .error e => .error e
        | .ok rest =>
          match parseValue fuel rest with
          | .error e => .error e
          | .ok (value, rest) =>
            match skipWhitespace rest with
            | '\x7d' :: rest => .ok (.object (insertEntry key value entries), rest)
            | rest =>
              match expect ',' rest with
              | .error e => .error e
              | .ok rest => parseMembers fuel (insertEntry key value entries) rest

end

end Parser

/-- `JsonValue::parse`. -/
def JsonValue.parse (source : List Char) : Except JsonError JsonValue :=
  match Parser.parseValue (2 * source.length + 2) source with
  | .error e => .error e
  | .ok (value, rest) =>
    if Parser.skipWhitespace rest = [] then .ok value
    else .error ⟨"unexpected trailing content"⟩

end DbClinic.Runtime

namespace DbClinic.Serde

open DbClinic.Runtime

inductive Number where
  | unsigned (value : UInt64)
  | negative (value : Int)
  | float (text : String)
  deriving DecidableEq

inductive Value where
  | null
  | bool (value : Bool)
  | number (value : Number)
  | string (value : String)
  | array (values : List Value)
  | object (entries : List (String × Value))

namespace Value

def asStr : Value → Option String
  | string value => some value
  | _ => none

def asBool : Value → Option Bool
  | bool value => some value
  | _ => none

/-- `Value::get` with a key. -/
def get (value : Value) (key : String) : Option Value :=
  match value with
  | object entries => getEntry entries key
  | _ => none

def typeName : Value → String
  | null => "null"
  | bool _ => "boolean"
  | number _ => "number"
  | string _ => "string"
  | array _ => "array"
  | object _ => "object"

end Value

end DbClinic.Serde
