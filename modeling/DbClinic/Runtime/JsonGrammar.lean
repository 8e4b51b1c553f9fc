import DbClinic.Runtime.JsonRoundTrip

/-!
The texts of JSON as syntax trees that keep every character, after RFC 8259, with
numbers that are 64-bit integers. A tree may also make use of a feature that only one
of two sides has: the RFC escapes a character as a pair of surrogates; a lenient
reader takes a trailing comma, leading zeros or a raw control character.
-/

namespace DbClinic.Runtime

namespace JsonGrammar

inductive Feature where
  | surrogatePair
  | trailingComma
  | leadingZero
  | controlCharacter
  deriving DecidableEq

def Blank (ws : List Char) : Prop := ∀ c ∈ ws, c = ' ' ∨ c = '\n' ∨ c = '\r' ∨ c = '\t'

/-- The number that hexadecimal digits write, read on from another one. -/
def hexNumber (value : Nat) (digits : List Char) : Option Nat :=
  digits.foldlM (fun n c => (Parser.hexValue c).map (n * 16 + ·)) value

def HexFour (digits : List Char) (n : Nat) : Prop :=
  digits.length = 4 ∧ hexNumber 0 digits = some n

def escapes : List (Char × Char) :=
  [('"', '"'), ('\\', '\\'), ('/', '/'), ('b', Char.ofNat 8), ('f', Char.ofNat 12), ('n', '\n'),
    ('r', '\r'), ('t', '\t')]

/-- A character of a string, as it is written. -/
inductive Item where
  | plain (c : Char)
  | escape (letter c : Char)
  | unicode (digits : List Char) (n : Nat)
  | pair (digits digits' : List Char) (high low : Nat)

namespace Item

def text : Item → List Char
  | plain c => [c]
  | escape letter _ => ['\\', letter]
  | unicode digits _ => '\\' :: 'u' :: digits
  | pair digits digits' _ _ => '\\' :: 'u' :: digits ++ '\\' :: 'u' :: digits'

def value : Item → Char
  | plain c => c
  | escape _ c => c
  | unicode _ n => Char.ofNat n
  | pair _ _ high low => Char.ofNat (0x10000 + (high - 0xd800) * 0x400 + (low - 0xdc00))

def WellFormed : Item → Prop
  | plain c => c ≠ '"' ∧ c ≠ '\\'
  | escape letter c => (letter, c) ∈ escapes
  | unicode digits n => HexFour digits n ∧ n.isValidChar
  | pair digits digits' high low =>
    HexFour digits high ∧ HexFour digits' low ∧ (0xd800 ≤ high ∧ high ≤ 0xdbff) ∧
      (0xdc00 ≤ low ∧ low ≤ 0xdfff)

def features : Item → List Feature
  | plain c => if c.toNat < 0x20 then [.controlCharacter] else []
  | pair _ _ _ _ => [.surrogatePair]
  | _ => []

end Item

def stringText (items : List Item) : List Char := '"' :: items.flatMap Item.text ++ ['"']

def stringValue (items : List Item) : String := String.ofList (items.map Item.value)

def numberText (negative : Bool) (digits : List Char) : List Char :=
  if negative then '-' :: digits else digits

def numberValue (negative : Bool) (digits : List Char) : Int :=
  if negative then -(Parser.digitsValue digits : Int) else Parser.digitsValue digits

mutual

inductive Tree where
  | null
  | bool (value : Bool)
  | number (negative : Bool) (digits : List Char)
  | string (items : List Item)
  | array (elements : Elements)
  | object (members : Members)

/-- What stands between the brackets of an array. -/
inductive Elements where
  | blank (ws : List Char)
  | last (before : List Char) (element : Tree) (after : List Char)
  | more (before : List Char) (element : Tree) (after : List Char) (rest : Elements)

/-- What stands between the brackets of an object. -/
inductive Members where
  | blank (ws : List Char)
  | last (before : List Char) (key : List Item) (colon colon' : List Char) (member : Tree)
      (after : List Char)
  | more (before : List Char) (key : List Item) (colon colon' : List Char) (member : Tree)
      (after : List Char) (rest : Members)

end

mutual

def Tree.text : Tree → List Char
  | .null => "null".toList
  | .bool true => "true".toList
  | .bool false => "false".toList
  | .number negative digits => numberText negative digits
  | .string items => stringText items
  | .array elements => '[' :: elements.text ++ [']']
  | .object members => '\x7b' :: members.text ++ ['\x7d']

def Elements.text : Elements → List Char
  | .blank ws => ws
  | .last before element after => before ++ (element.text ++ after)
  | .more before element after rest => before ++ (element.text ++ (after ++ ',' :: rest.text))

def Members.text : Members → List Char
  | .blank ws => ws
  | .last before key colon colon' member after =>
    before ++ (stringText key ++ (colon ++ ':' :: (colon' ++ (member.text ++ after))))
  | .more before key colon colon' member after rest =>
    before ++ (stringText key ++ (colon ++ ':' :: (colon' ++ (member.text ++
      (after ++ ',' :: rest.text)))))

end

mutual

/-- Of the members with one key the last stands. -/
def Tree.value : Tree → JsonValue
  | .null => .null
  | .bool value => .bool value
  | .number negative digits => .number (numberValue negative digits)
  | .string items => .string (stringValue items)
  | .array elements => .array elements.values
  | .object members => .object (entriesOf members.entries)

def Elements.values : Elements → List JsonValue
  | .blank _ => []
  | .last _ element _ => [element.value]
  | .more _ element _ rest => element.value :: rest.values

def Members.entries : Members → List (String × JsonValue)
  | .blank _ => []
  | .last _ key _ _ member _ => [(stringValue key, member.value)]
  | .more _ key _ _ member _ rest => (stringValue key, member.value) :: rest.entries

end

mutual

def Tree.WellFormed : Tree → Prop
  | .null => True
  | .bool _ => True
  | .number negative digits =>
    digits ≠ [] ∧ (∀ c ∈ digits, c.isDigit = true) ∧
      Parser.InI64 (numberValue negative digits)
  | .string items => ∀ item ∈ items, item.WellFormed
  | .array elements => elements.WellFormed
  | .object members => members.WellFormed

def Elements.WellFormed : Elements → Prop
  | .blank ws => Blank ws
  | .last before element after => Blank before ∧ element.WellFormed ∧ Blank after
  | .more before element after rest =>
    Blank before ∧ element.WellFormed ∧ Blank after ∧ rest.WellFormed

def Members.WellFormed : Members → Prop
  | .blank ws => Blank ws
  | .last before key colon colon' member after =>
    Blank before ∧ (∀ item ∈ key, item.WellFormed) ∧ Blank colon ∧ Blank colon' ∧
      member.WellFormed ∧ Blank after
  | .more before key colon colon' member after rest =>
    Blank before ∧ (∀ item ∈ key, item.WellFormed) ∧ Blank colon ∧ Blank colon' ∧
      member.WellFormed ∧ Blank after ∧ rest.WellFormed

end

def Elements.trailing : Elements → List Feature
  | .blank _ => [.trailingComma]
  | _ => []

def Members.trailing : Members → List Feature
  | .blank _ => [.trailingComma]
  | _ => []

/-- A zero in front of other digits. -/
def numberFeatures : List Char → List Feature
  | '0' :: _ :: _ => [.leadingZero]
  | _ => []

mutual

def Tree.features : Tree → List Feature
  | .null => []
  | .bool _ => []
  | .number _ digits => numberFeatures digits
  | .string items => items.flatMap Item.features
  | .array elements => elements.features
  | .object members => members.features

def Elements.features : Elements → List Feature
  | .blank _ => []
  | .last _ element _ => element.features
  | .more _ element _ rest => element.features ++ (rest.trailing ++ rest.features)

def Members.features : Members → List Feature
  | .blank _ => []
  | .last _ key _ _ member _ => key.flatMap Item.features ++ member.features
  | .more _ key _ _ member _ rest =>
    key.flatMap Item.features ++ (member.features ++ (rest.trailing ++ rest.features))

end

/-- The text is one of JSON with a value, of no feature but those that are allowed. -/
def Reads (allowed : Feature → Prop) (text : List Char) (value : JsonValue) : Prop :=
  ∃ before tree after, Blank before ∧ Tree.WellFormed tree ∧ Blank after ∧
    (∀ f ∈ tree.features, allowed f) ∧ text = before ++ (tree.text ++ after) ∧
    value = tree.value

end JsonGrammar

end DbClinic.Runtime
