import DbClinic.Runtime.Json
import DbClinic.Runtime.JsonRoundTrip

/-!
Values of `serde_json` beside those of the runtime. A value of the one library
is a value of the other unless it has a number that is no 64-bit integer; and
the two parsers agree where both read a text, except that `serde_json` takes
`-0` for a float.
-/

namespace DbClinic.Serde

open DbClinic.Runtime List

def Number.toJson : Number → Option JsonValue
  | unsigned value => if value.toNat < 2 ^ 63 then some (.number value.toNat) else none
  | negative value => if Parser.InI64 value then some (.number value) else none
  | float _ => none

mutual

def Value.toJson : Value → Option JsonValue
  | .null => some .null
  | .bool value => some (.bool value)
  | .number value => value.toJson
  | .string value => some (.string value)
  | .array values => (toJsonValues values).map .array
  | .object entries => (toJsonEntries entries).map .object

def toJsonValues : List Value → Option (List JsonValue)
  | [] => some []
  | value :: rest => value.toJson.bind fun v => (toJsonValues rest).map fun vs => v :: vs

def toJsonEntries : List (String × Value) → Option (List (String × JsonValue))
  | [] => some []
  | (key, value) :: rest =>
    value.toJson.bind fun v => (toJsonEntries rest).map fun es => (key, v) :: es

end

def Number.Agrees : Number → Int → Prop
  | unsigned value, n => (value.toNat : Int) = n
  | negative value, n => value = n
  | float _, _ => True

mutual

/-- The two libraries read the same value; a float may be any number. -/
def Value.Agrees : Value → JsonValue → Prop
  | .null, .null => True
  | .bool value, .bool b => value = b
  | .number value, .number n => value.Agrees n
  | .string value, .string s => value = s
  | .array values, .array vs => AgreesValues values vs
  | .object entries, .object es => AgreesEntries entries es
  | _, _ => False

def AgreesValues : List Value → List JsonValue → Prop
  | [], [] => True
  | value :: rest, v :: vs => value.Agrees v ∧ AgreesValues rest vs
  | _, _ => False

def AgreesEntries : List (String × Value) → List (String × JsonValue) → Prop
  | [], [] => True
  | (key, value) :: rest, (k, v) :: es => key = k ∧ value.Agrees v ∧ AgreesEntries rest es
  | _, _ => False

end

/-- The numbers that the library has: an integer below zero, and a float by a text
with a point or an exponent. -/
def Number.Proper : Number → Prop
  | unsigned _ => True
  | negative value => value < 0 ∧ Parser.InI64 value
  | float text => '.' ∈ text.toList ∨ 'e' ∈ text.toList

mutual

def Value.Proper : Value → Prop
  | .null => True
  | .bool _ => True
  | .number value => value.Proper
  | .string _ => True
  | .array values => ProperValues values
  | .object entries => KeyOrdered entries ∧ ProperEntries entries

def ProperValues : List Value → Prop
  | [] => True
  | value :: rest => value.Proper ∧ ProperValues rest

def ProperEntries : List (String × Value) → Prop
  | [] => True
  | (_, value) :: rest => value.Proper ∧ ProperEntries rest

end

variable {value : Number} {n : Int} {v : JsonValue}

theorem Number.toJson_of_agrees (h : value.Agrees n) (hjson : value.toJson = some v) :
    v = .number n := by
  cases value with
  | unsigned value =>
    rw [Number.toJson] at hjson
    split at hjson
    · cases hjson
      exact congrArg JsonValue.number h
    · cases hjson
  | negative value =>
    rw [Number.toJson] at hjson
    split at hjson
    · cases hjson
      exact congrArg JsonValue.number h
    · cases hjson
  | float text => cases hjson

mutual

theorem Value.toJson_of_agrees : ∀ (value : Value) (v w : JsonValue), value.Agrees v →
    value.toJson = some w → w = v
  | .null, v, w, h, hjson => by
    cases v with
    | null => exact (Option.some.inj hjson).symm
    | _ => exact h.elim
  | .bool value, v, w, h, hjson => by
    cases v with
    | bool b =>
      cases hjson
      exact congrArg JsonValue.bool h
    | _ => exact h.elim
  | .number value, v, w, h, hjson => by
    cases v with
    | number n => exact Number.toJson_of_agrees h hjson
    | _ => exact h.elim
  | .string value, v, w, h, hjson => by
    cases v with
    | string s =>
      cases hjson
      exact congrArg JsonValue.string h
    | _ => exact h.elim
  | .array values, v, w, h, hjson => by
    cases v with
    | array vs =>
      obtain ⟨ws, hws, rfl⟩ := Option.map_eq_some_iff.mp hjson
      exact congrArg JsonValue.array (toJsonValues_of_agrees values vs ws h hws)
    | _ => exact h.elim
  | .object entries, v, w, h, hjson => by
    cases v with
    | object es =>
      obtain ⟨fs, hfs, rfl⟩ := Option.map_eq_some_iff.mp hjson
      exact congrArg JsonValue.object (toJsonEntries_of_agrees entries es fs h hfs)
    | _ => exact h.elim

theorem toJsonValues_of_agrees : ∀ (values : List Value) (vs ws : List JsonValue),
    AgreesValues values vs → toJsonValues values = some ws → ws = vs
  | [], [], ws, _, hjson => (Option.some.inj hjson).symm
  | [], _ :: _, _, h, _ => h.elim
  | _ :: _, [], _, h, _ => h.elim
  | value :: rest, v :: vs, ws, h, hjson => by
    obtain ⟨w, hw, hrest⟩ := Option.bind_eq_some_iff.mp hjson
    obtain ⟨more, hmore, rfl⟩ := Option.map_eq_some_iff.mp hrest
    rw [Value.toJson_of_agrees value v w h.1 hw, toJsonValues_of_agrees rest vs more h.2 hmore]

theorem toJsonEntries_of_agrees : ∀ (entries : List (String × Value))
    (es fs : List (String × JsonValue)), AgreesEntries entries es →
      toJsonEntries entries = some fs → fs = es
  | [], [], _, _, hjson => (Option.some.inj hjson).symm
  | [], _ :: _, _, h, _ => h.elim
  | _ :: _, [], _, h, _ => h.elim
  | (key, value) :: rest, (k, v) :: es, fs, h, hjson => by
    obtain ⟨w, hw, hrest⟩ := Option.bind_eq_some_iff.mp hjson
    obtain ⟨more, hmore, rfl⟩ := Option.map_eq_some_iff.mp hrest
    rw [Value.toJson_of_agrees value v w h.2.1 hw,
      toJsonEntries_of_agrees rest es more h.2.2 hmore, h.1]

end

section Entries

variable {entries : List (String × Value)} {es : List (String × JsonValue)}

theorem getEntry_agrees (h : AgreesEntries entries es) (key : String) :
    (getEntry entries key = none ∧ getEntry es key = none) ∨
      ∃ value v, getEntry entries key = some value ∧ getEntry es key = some v ∧
        value.Agrees v := by
  induction entries generalizing es with
  | nil =>
    cases es with
    | nil => exact .inl ⟨rfl, rfl⟩
    | cons e es => exact h.elim
  | cons entry entries ih =>
    cases es with
    | nil => exact h.elim
    | cons e es =>
      obtain ⟨k, value⟩ := entry
      obtain ⟨k', v⟩ := e
      obtain ⟨hkey, hval, hrest⟩ := h
      subst hkey
      rw [getEntry_cons, getEntry_cons]
      by_cases heq : k = key
      · rw [if_pos heq, if_pos heq]
        exact .inr ⟨value, v, rfl, rfl, hval⟩
      · rw [if_neg heq, if_neg heq]
        exact ih hrest

theorem toJsonEntries_keys (h : toJsonEntries entries = some es) :
    es.map Prod.fst = entries.map Prod.fst := by
  induction entries generalizing es with
  | nil =>
    cases h
    rfl
  | cons entry entries ih =>
    obtain ⟨w, _, hrest⟩ := Option.bind_eq_some_iff.mp h
    obtain ⟨more, hmore, rfl⟩ := Option.map_eq_some_iff.mp hrest
    rw [map_cons, map_cons, ih hmore]

theorem getEntry_toJsonEntries (h : toJsonEntries entries = some es) (key : String) :
    getEntry es key = (getEntry entries key).bind Value.toJson := by
  induction entries generalizing es with
  | nil =>
    cases h
    rfl
  | cons entry entries ih =>
    obtain ⟨k, value⟩ := entry
    obtain ⟨w, hw, hrest⟩ := Option.bind_eq_some_iff.mp h
    obtain ⟨more, hmore, rfl⟩ := Option.map_eq_some_iff.mp hrest
    rw [getEntry_cons, getEntry_cons, ih hmore]
    split
    · exact hw.symm
    · rfl

theorem map_toJson_getEntry (h : toJsonEntries entries = some es) (key : String) :
    (getEntry entries key).map Value.toJson = (getEntry es key).map some := by
  induction entries generalizing es with
  | nil =>
    cases h
    rfl
  | cons entry entries ih =>
    obtain ⟨k, value⟩ := entry
    obtain ⟨w, hw, hrest⟩ := Option.bind_eq_some_iff.mp h
    obtain ⟨more, hmore, rfl⟩ := Option.map_eq_some_iff.mp hrest
    rw [getEntry_cons, getEntry_cons]
    split
    · exact congrArg some hw
    · exact ih hmore

theorem toJsonEntries_isSome_iff :
    (toJsonEntries entries).isSome = true ↔ ∀ e ∈ entries, e.2.toJson.isSome = true := by
  induction entries with
  | nil => exact iff_of_true rfl (forall_mem_nil _)
  | cons entry entries ih =>
    obtain ⟨key, value⟩ := entry
    rw [forall_mem_cons, ← ih]
    rw [toJsonEntries]
    cases value.toJson with
    | none => simp
    | some v => simp

theorem keyOrdered_of_keys {α β : Type} {a : List (String × α)} {b : List (String × β)}
    (h : b.map Prod.fst = a.map Prod.fst) (ha : KeyOrdered a) : KeyOrdered b := by
  have hkeys : (a.map Prod.fst).Pairwise (· < ·) := pairwise_map.mpr ha
  rw [← h] at hkeys
  exact pairwise_map.mp hkeys

variable {key : String}

theorem toJsonEntries_insertEntry {value : Value} (hval : value.toJson = some v)
    (h : toJsonEntries entries = some es) :
    toJsonEntries (insertEntry key value entries) = some (insertEntry key v es) := by
  induction entries generalizing es with
  | nil =>
    cases h
    unfold insertEntry toJsonEntries
    rw [hval]
    rfl
  | cons entry entries ih =>
    obtain ⟨k, old⟩ := entry
    obtain ⟨w, hw, hrest⟩ := Option.bind_eq_some_iff.mp h
    obtain ⟨more, hmore, rfl⟩ := Option.map_eq_some_iff.mp hrest
    unfold insertEntry
    split
    · unfold toJsonEntries
      rw [hval, Option.bind_some, hmore]
      rfl
    · split
      · unfold toJsonEntries
        rw [hval, Option.bind_some, h]
        rfl
      · unfold toJsonEntries
        rw [hw, Option.bind_some, ih hmore]
        rfl

theorem toJsonEntries_filter {keep : String → Bool} (h : toJsonEntries entries = some es) :
    toJsonEntries (entries.filter fun e => keep e.1) = some (es.filter fun e => keep e.1) := by
  induction entries generalizing es with
  | nil =>
    cases h
    rfl
  | cons entry entries ih =>
    obtain ⟨k, old⟩ := entry
    obtain ⟨w, hw, hrest⟩ := Option.bind_eq_some_iff.mp h
    obtain ⟨more, hmore, rfl⟩ := Option.map_eq_some_iff.mp hrest
    rw [filter_cons, filter_cons]
    dsimp only
    split
    · unfold toJsonEntries
      rw [hw, Option.bind_some, ih hmore]
      rfl
    · exact ih hmore

theorem properEntries_iff : ProperEntries entries ↔ ∀ e ∈ entries, e.2.Proper := by
  induction entries with
  | nil => exact iff_of_true trivial (forall_mem_nil _)
  | cons e entries ih =>
    rw [forall_mem_cons, ← ih]
    exact Iff.rfl

theorem proper_object_iff :
    (Value.object entries).Proper ↔ KeyOrdered entries ∧ ∀ e ∈ entries, e.2.Proper := by
  rw [← properEntries_iff]
  exact Iff.rfl

theorem proper_nil : (Value.object []).Proper := ⟨List.Pairwise.nil, trivial⟩

theorem proper_of_getEntry (h : (Value.object entries).Proper) {value : Value}
    (hval : getEntry entries key = some value) : value.Proper :=
  (proper_object_iff.mp h).2 _ (mem_of_getEntry hval)

theorem proper_insertEntry {value : Value} (hval : value.Proper)
    (h : (Value.object entries).Proper) :
    (Value.object (insertEntry key value entries)).Proper := by
  obtain ⟨hordered, hents⟩ := proper_object_iff.mp h
  refine proper_object_iff.mpr ⟨hordered.insertEntry key value, ?_⟩
  intro e he
  rcases mem_insertEntry he with rfl | hold
  · exact hval
  · exact hents e hold

theorem proper_filter {keep : String × Value → Bool} (h : (Value.object entries).Proper) :
    (Value.object (entries.filter keep)).Proper := by
  obtain ⟨hordered, hents⟩ := proper_object_iff.mp h
  refine proper_object_iff.mpr ⟨List.Pairwise.filter _ hordered, ?_⟩
  intro e he
  exact hents e (mem_filter.mp he).1

end Entries

def Number.ofInt (n : Int) : Number :=
  if 0 ≤ n then unsigned (UInt64.ofNat n.toNat) else negative n

mutual

def Value.ofJson : JsonValue → Value
  | .null => .null
  | .bool value => .bool value
  | .number value => .number (Number.ofInt value)
  | .string value => .string value
  | .array values => .array (ofJsonValues values)
  | .object entries => .object (ofJsonEntries entries)

def ofJsonValues : List JsonValue → List Value
  | [] => []
  | value :: rest => Value.ofJson value :: ofJsonValues rest

def ofJsonEntries : List (String × JsonValue) → List (String × Value)
  | [] => []
  | (key, value) :: rest => (key, Value.ofJson value) :: ofJsonEntries rest

end

theorem ofJsonEntries_keys (es : List (String × JsonValue)) :
    (ofJsonEntries es).map Prod.fst = es.map Prod.fst := by
  induction es with
  | nil => rfl
  | cons e es ih =>
    unfold ofJsonEntries
    rw [map_cons, map_cons, ih]

theorem Number.ofInt_spec (h : Parser.InI64 n) :
    (ofInt n).Agrees n ∧ (ofInt n).Proper ∧ (ofInt n).toJson = some (.number n) := by
  unfold ofInt
  split
  · rename_i hnonneg
    have hsmall : n.toNat < 2 ^ 63 := by
      have hupper := h.2
      omega
    have hval : (UInt64.ofNat n.toNat).toNat = n.toNat := by
      rw [UInt64.toNat_ofNat']
      exact Nat.mod_eq_of_lt (by omega)
    have hback : ((UInt64.ofNat n.toNat).toNat : Int) = n := by
      rw [hval]
      omega
    have hbound : (UInt64.ofNat n.toNat).toNat < 2 ^ 63 := by
      rw [hval]
      exact hsmall
    refine ⟨hback, trivial, ?_⟩
    unfold toJson
    dsimp only
    rw [if_pos hbound, hback]
  · rename_i hnegative
    refine ⟨rfl, ⟨by omega, h⟩, ?_⟩
    unfold toJson
    dsimp only
    rw [if_pos h]

mutual

theorem Value.ofJson_spec : ∀ v : JsonValue, v.Storable →
    (Value.ofJson v).Agrees v ∧ (Value.ofJson v).Proper ∧ (Value.ofJson v).toJson = some v
  | .null, _ => ⟨trivial, trivial, rfl⟩
  | .bool _, _ => ⟨rfl, trivial, rfl⟩
  | .number _, h => Number.ofInt_spec h
  | .string _, _ => ⟨rfl, trivial, rfl⟩
  | .array values, h => by
    obtain ⟨hagrees, hproper, hjson⟩ := ofJsonValues_spec values h
    refine ⟨hagrees, hproper, ?_⟩
    unfold Value.ofJson Value.toJson
    rw [hjson]
    rfl
  | .object entries, h => by
    obtain ⟨hagrees, hproper, hjson⟩ := ofJsonEntries_spec entries h.2
    refine ⟨hagrees, ⟨keyOrdered_of_keys (ofJsonEntries_keys entries) h.1, hproper⟩, ?_⟩
    unfold Value.ofJson Value.toJson
    rw [hjson]
    rfl

theorem ofJsonValues_spec : ∀ values : List JsonValue, JsonValue.StorableValues values →
    AgreesValues (ofJsonValues values) values ∧ ProperValues (ofJsonValues values) ∧
      toJsonValues (ofJsonValues values) = some values
  | [], _ => ⟨trivial, trivial, rfl⟩
  | value :: rest, h => by
    obtain ⟨hagrees, hproper, hjson⟩ := Value.ofJson_spec value h.1
    obtain ⟨hrestAgrees, hrestProper, hrestJson⟩ := ofJsonValues_spec rest h.2
    refine ⟨⟨hagrees, hrestAgrees⟩, ⟨hproper, hrestProper⟩, ?_⟩
    unfold ofJsonValues toJsonValues
    rw [hjson, hrestJson]
    rfl

theorem ofJsonEntries_spec : ∀ entries : List (String × JsonValue),
    JsonValue.StorableEntries entries →
    AgreesEntries (ofJsonEntries entries) entries ∧ ProperEntries (ofJsonEntries entries) ∧
      toJsonEntries (ofJsonEntries entries) = some entries
  | [], _ => ⟨trivial, trivial, rfl⟩
  | (key, value) :: rest, h => by
    obtain ⟨hagrees, hproper, hjson⟩ := Value.ofJson_spec value h.1
    obtain ⟨hrestAgrees, hrestProper, hrestJson⟩ := ofJsonEntries_spec rest h.2
    refine ⟨⟨rfl, hagrees, hrestAgrees⟩, ⟨hproper, hrestProper⟩, ?_⟩
    unfold ofJsonEntries toJsonEntries
    rw [hjson, hrestJson]
    rfl

end

theorem Number.storable_of_proper (h : value.toJson = some v) :
    v.Storable := by
  cases value with
  | unsigned value =>
    unfold toJson at h
    dsimp only at h
    split at h
    · rename_i hsmall
      cases h
      exact ⟨by omega, by omega⟩
    · cases h
  | negative value =>
    unfold toJson at h
    dsimp only at h
    split at h
    · rename_i hrange
      cases h
      exact hrange
    · cases h
  | float text => cases h

mutual

theorem Value.storable_of_proper : ∀ (value : Value) (v : JsonValue), value.Proper →
    value.toJson = some v → v.Storable
  | .null, v, _, h => by
    cases h
    trivial
  | .bool _, v, _, h => by
    cases h
    trivial
  | .number value, v, _, h => Number.storable_of_proper h
  | .string _, v, _, h => by
    cases h
    trivial
  | .array values, v, hproper, h => by
    obtain ⟨vs, hvs, rfl⟩ := Option.map_eq_some_iff.mp h
    exact storableValues_of_proper values vs hproper hvs
  | .object entries, v, hproper, h => by
    obtain ⟨es, hes, rfl⟩ := Option.map_eq_some_iff.mp h
    exact ⟨keyOrdered_of_keys (toJsonEntries_keys hes) hproper.1,
      storableEntries_of_proper entries es hproper.2 hes⟩

theorem storableValues_of_proper : ∀ (values : List Value) (vs : List JsonValue),
    ProperValues values → toJsonValues values = some vs → JsonValue.StorableValues vs
  | [], vs, _, h => by
    cases h
    trivial
  | value :: rest, vs, hproper, h => by
    obtain ⟨v, hv, hmore⟩ := Option.bind_eq_some_iff.mp h
    obtain ⟨more, hrest, rfl⟩ := Option.map_eq_some_iff.mp hmore
    exact ⟨Value.storable_of_proper value v hproper.1 hv,
      storableValues_of_proper rest more hproper.2 hrest⟩

theorem storableEntries_of_proper : ∀ (entries : List (String × Value))
    (es : List (String × JsonValue)), ProperEntries entries → toJsonEntries entries = some es →
      JsonValue.StorableEntries es
  | [], es, _, h => by
    cases h
    trivial
  | (key, value) :: rest, es, hproper, h => by
    obtain ⟨v, hv, hmore⟩ := Option.bind_eq_some_iff.mp h
    obtain ⟨more, hrest, rfl⟩ := Option.map_eq_some_iff.mp hmore
    exact ⟨Value.storable_of_proper value v hproper.1 hv,
      storableEntries_of_proper rest more hproper.2 hrest⟩

end

def Number.text : Number → List Char
  | unsigned value => Nat.toDigits 10 value.toNat
  | negative value => JsonValue.renderNumber value
  | float text => text.toList

mutual

/-- `to_string_pretty`. -/
def Value.pretty (indent : List Char) : Value → List Char
  | .null => "null".toList
  | .bool value => (if value then "true" else "false").toList
  | .number value => value.text
  | .string value => JsonValue.renderString value
  | .array [] => "[]".toList
  | .array (value :: rest) =>
    '[' :: prettyValues (' ' :: ' ' :: indent) (value :: rest) ++ '\n' :: indent ++ [']']
  | .object [] => "\x7b\x7d".toList
  | .object (entry :: rest) =>
    '\x7b' :: prettyEntries (' ' :: ' ' :: indent) (entry :: rest) ++ '\n' :: indent ++ ['\x7d']

def prettyValues (indent : List Char) : List Value → List Char
  | [] => []
  | [value] => '\n' :: indent ++ value.pretty indent
  | value :: rest => '\n' :: indent ++ value.pretty indent ++ ',' :: prettyValues indent rest

def prettyEntries (indent : List Char) : List (String × Value) → List Char
  | [] => []
  | [(key, value)] =>
    '\n' :: indent ++ JsonValue.renderString key ++ ':' :: ' ' :: value.pretty indent
  | (key, value) :: rest =>
    '\n' :: indent ++ JsonValue.renderString key ++ ':' :: ' ' :: value.pretty indent ++
      ',' :: prettyEntries indent rest

end

end DbClinic.Serde
