import DbClinic.Runtime.SerdeJson
import DbClinic.Runtime.Trim

/-!
Files that hold a value of `serde_json`. The parser and the printer of the library are
parameters. What is printed is read back, but for the floats, which the parser reads with
the best effort that the library promises, and up to the depth that it reads.
-/

namespace DbClinic.Serde

open DbClinic.Runtime List

mutual

def Value.mapFloats (f : String → String) : Value → Value
  | .null => .null
  | .bool value => .bool value
  | .number (.float text) => .number (.float (f text))
  | .number value => .number value
  | .string value => .string value
  | .array values => .array (mapFloatsValues f values)
  | .object entries => .object (mapFloatsEntries f entries)

def mapFloatsValues (f : String → String) : List Value → List Value
  | [] => []
  | value :: rest => value.mapFloats f :: mapFloatsValues f rest

def mapFloatsEntries (f : String → String) : List (String × Value) → List (String × Value)
  | [] => []
  | (key, value) :: rest => (key, value.mapFloats f) :: mapFloatsEntries f rest

end

mutual

def Value.depth : Value → Nat
  | .array values => depthValues values + 1
  | .object entries => depthEntries entries + 1
  | _ => 0

def depthValues : List Value → Nat
  | [] => 0
  | value :: rest => max value.depth (depthValues rest)

def depthEntries : List (String × Value) → Nat
  | [] => 0
  | (_, value) :: rest => max value.depth (depthEntries rest)

end

/-- The deepest value that the parser reads. -/
def depthLimit : Nat := 127

/-- `from_str`, `to_string_pretty`, and the float that the parser makes of a printed one. -/
structure SerdeText where
  fromStr : List Char → Except String Value
  toStringPretty : Value → List Char
  refloat : String → String

/-- What the library is known for. -/
structure SerdeText.Lawful (json : SerdeText) : Prop where
  reads : ∀ {text : List Char} {value : Value}, json.fromStr text = .ok value →
    value.Proper ∧ value.depth ≤ depthLimit
  readsBack : ∀ {value : Value} {tail : List Char}, value.Proper → value.depth ≤ depthLimit →
    (∀ c ∈ tail, c = '\n') →
    json.fromStr (json.toStringPretty value ++ tail) = .ok (value.mapFloats json.refloat)
  blank : ∀ {text : List Char} {value : Value}, trim text = [] → json.fromStr text ≠ .ok value

section Entries

variable {entries : List (String × Value)} {f : String → String}

theorem getEntry_mapFloatsEntries (f : String → String) (entries : List (String × Value))
    (key : String) :
    getEntry (mapFloatsEntries f entries) key = (getEntry entries key).map (Value.mapFloats f) := by
  induction entries with
  | nil => rfl
  | cons e entries ih =>
    obtain ⟨k, v⟩ := e
    unfold mapFloatsEntries
    rw [getEntry_cons, getEntry_cons, ih]
    split <;> rfl

theorem mapFloatsEntries_eq_self : mapFloatsEntries f entries = entries ↔
    ∀ e ∈ entries, e.2.mapFloats f = e.2 := by
  induction entries with
  | nil => exact iff_of_true rfl (forall_mem_nil _)
  | cons e entries ih =>
    unfold mapFloatsEntries
    rw [forall_mem_cons, List.cons.injEq, ih]
    simp [Prod.ext_iff]

theorem mapFloats_object_iff : (Value.object entries).mapFloats f = .object entries ↔
    ∀ e ∈ entries, e.2.mapFloats f = e.2 := by
  rw [← mapFloatsEntries_eq_self]
  exact ⟨fun h => Value.object.inj h, fun h => congrArg Value.object h⟩

variable {n : Nat} {key : String} {value : Value}

theorem depthEntries_lt :
    depthEntries entries < n ↔ 0 < n ∧ ∀ e ∈ entries, e.2.depth < n := by
  induction entries with
  | nil => simp [depthEntries]
  | cons e entries ih =>
    unfold depthEntries
    rw [forall_mem_cons, Nat.max_lt, ih]
    exact ⟨fun ⟨hfirst, hpos, hrest⟩ => ⟨hpos, hfirst, hrest⟩,
      fun ⟨hpos, hfirst, hrest⟩ => ⟨hfirst, hpos, hrest⟩⟩

theorem depth_object_le :
    (Value.object entries).depth ≤ n ↔ 0 < n ∧ ∀ e ∈ entries, e.2.depth < n := by
  rw [← depthEntries_lt]
  exact Iff.rfl

theorem depth_insertEntry (hval : value.depth < n) (h : (Value.object entries).depth ≤ n) :
    (Value.object (insertEntry key value entries)).depth ≤ n := by
  obtain ⟨hpos, hents⟩ := depth_object_le.mp h
  apply depth_object_le.mpr
  refine ⟨hpos, ?_⟩
  intro e he
  rcases mem_insertEntry he with rfl | he
  · exact hval
  · exact hents e he

theorem depth_filter {keep : String × Value → Bool} (h : (Value.object entries).depth ≤ n) :
    (Value.object (entries.filter keep)).depth ≤ n := by
  obtain ⟨hpos, hents⟩ := depth_object_le.mp h
  apply depth_object_le.mpr
  exact ⟨hpos, fun e he => hents e (mem_filter.mp he).1⟩

theorem depth_of_getEntry (h : getEntry entries key = some value) :
    value.depth < (Value.object entries).depth :=
  (depth_object_le.mp (Nat.le_refl _)).2 _ (mem_of_getEntry h)

end Entries

/-! A library of this kind: the codec of the runtime. The numbers that it does not have, and
objects that look like one of these, are objects with an empty key. -/

def keyIsEmpty {α : Type} (entries : List (String × α)) : Prop :=
  entries.head?.map Prod.fst = some ""

instance {α : Type} (entries : List (String × α)) : Decidable (keyIsEmpty entries) :=
  inferInstanceAs (Decidable (_ = _))

theorem keyIsEmpty_cons {α : Type} (value : α) (rest : List (String × α)) :
    keyIsEmpty (("", value) :: rest) := rfl

def pairValue (e : String × JsonValue) : JsonValue := .array [.string e.1, e.2]

def pairOf : Value → Option (String × Value)
  | .array [.string key, value] => some (key, value)
  | _ => none

mutual

def Value.tagged : Value → JsonValue
  | .null => .null
  | .bool value => .bool value
  | .number (.unsigned value) =>
    if value.toNat < 2 ^ 63 then .number value.toNat
    else .object [("", .number (value.toNat - 2 ^ 64))]
  | .number (.negative value) => .number value
  | .number (.float text) => .object [("", .string text)]
  | .string value => .string value
  | .array values => .array (taggedValues values)
  | .object entries =>
    if keyIsEmpty entries then .object [("", .array ((taggedEntries entries).map pairValue))]
    else .object (taggedEntries entries)

def taggedValues : List Value → List JsonValue
  | [] => []
  | value :: rest => value.tagged :: taggedValues rest

def taggedEntries : List (String × Value) → List (String × JsonValue)
  | [] => []
  | (key, value) :: rest => (key, value.tagged) :: taggedEntries rest

end

def untag (entries : List (String × Value)) : Value :=
  if keyIsEmpty entries then
    match entries with
    | [(_, .string text)] => .number (.float text)
    | [(_, .number (.negative value))] =>
      .number (.unsigned (UInt64.ofNat (value + 2 ^ 64).toNat))
    | [(_, .array pairs)] => .object (pairs.filterMap pairOf)
    | entries => .object entries
  else .object entries

mutual

def Value.untagged : JsonValue → Value
  | .null => .null
  | .bool value => .bool value
  | .number value => .number (Number.ofInt value)
  | .string value => .string value
  | .array values => .array (untaggedValues values)
  | .object entries => untag (untaggedEntries entries)

def untaggedValues : List JsonValue → List Value
  | [] => []
  | value :: rest => Value.untagged value :: untaggedValues rest

def untaggedEntries : List (String × JsonValue) → List (String × Value)
  | [] => []
  | (key, value) :: rest => (key, Value.untagged value) :: untaggedEntries rest

end

theorem taggedEntries_keys (entries : List (String × Value)) :
    (taggedEntries entries).map Prod.fst = entries.map Prod.fst := by
  induction entries with
  | nil => rfl
  | cons e entries ih =>
    unfold taggedEntries
    rw [map_cons, map_cons, ih]

theorem untaggedValues_pairs (entries : List (String × JsonValue)) :
    (untaggedValues (entries.map pairValue)).filterMap pairOf = untaggedEntries entries := by
  induction entries with
  | nil => rfl
  | cons e entries ih =>
    unfold untaggedEntries
    rw [← ih]
    rfl

variable {value : JsonValue}

theorem storable_singleton {key : String} (h : value.Storable) :
    (JsonValue.object [(key, value)]).Storable :=
  ⟨pairwise_singleton _ _, h, trivial⟩

theorem storable_pairs {entries : List (String × JsonValue)}
    (h : JsonValue.StorableEntries entries) :
    (JsonValue.array (entries.map pairValue)).Storable := by
  apply JsonValue.storable_array
  intro value hval
  obtain ⟨e, he, rfl⟩ := mem_map.mp hval
  exact ⟨trivial, JsonValue.storableEntries_iff.mp h e he, trivial⟩

mutual

theorem tagged_spec : ∀ value : Value, value.Proper →
    value.tagged.Storable ∧ Value.untagged value.tagged = value
  | .null, _ => ⟨trivial, rfl⟩
  | .bool _, _ => ⟨trivial, rfl⟩
  | .string _, _ => ⟨trivial, rfl⟩
  | .number (.unsigned value), _ => by
    have hval := value.toNat_lt
    unfold Value.tagged
    split
    · rename_i hsmall
      refine ⟨⟨by omega, by omega⟩, ?_⟩
      unfold Value.untagged Number.ofInt
      rw [if_pos (by omega), Int.toNat_natCast, UInt64.ofNat_toNat]
    · rename_i hlarge
      have hnegative : ¬0 ≤ (value.toNat : Int) - 2 ^ 64 := by omega
      refine ⟨?_, ?_⟩
      · apply storable_singleton
        exact ⟨by omega, by omega⟩
      · unfold Value.untagged untaggedEntries untaggedEntries Value.untagged Number.ofInt
        rw [if_neg hnegative]
        unfold untag
        rw [if_pos (keyIsEmpty_cons _ _)]
        dsimp only
        rw [Int.sub_add_cancel, Int.toNat_natCast, UInt64.ofNat_toNat]
  | .number (.negative value), h => by
    refine ⟨h.2, ?_⟩
    unfold Value.tagged Value.untagged Number.ofInt
    rw [if_neg (by have := h.1; omega)]
  | .number (.float text), _ => by
    exact ⟨storable_singleton trivial, rfl⟩
  | .array values, h => by
    obtain ⟨hstorable, hback⟩ := taggedValues_spec values h
    refine ⟨hstorable, ?_⟩
    unfold Value.tagged Value.untagged
    rw [hback]
  | .object entries, h => by
    obtain ⟨hstorable, hback⟩ := taggedEntries_spec entries h.2
    unfold Value.tagged
    split
    · rename_i hempty
      refine ⟨?_, ?_⟩
      · exact storable_singleton (storable_pairs hstorable)
      · unfold Value.untagged untaggedEntries untaggedEntries Value.untagged untag
        rw [if_pos (keyIsEmpty_cons _ _)]
        dsimp only
        rw [untaggedValues_pairs, hback]
    · rename_i hkey
      refine ⟨⟨keyOrdered_of_keys (taggedEntries_keys entries) h.1, hstorable⟩, ?_⟩
      unfold Value.untagged untag
      rw [hback, if_neg hkey]

theorem taggedValues_spec : ∀ values : List Value, ProperValues values →
    JsonValue.StorableValues (taggedValues values) ∧
      untaggedValues (taggedValues values) = values
  | [], _ => ⟨trivial, rfl⟩
  | value :: rest, h => by
    obtain ⟨hstorable, hback⟩ := tagged_spec value h.1
    obtain ⟨hrest, hmore⟩ := taggedValues_spec rest h.2
    refine ⟨⟨hstorable, hrest⟩, ?_⟩
    unfold taggedValues untaggedValues
    rw [hback, hmore]

theorem taggedEntries_spec : ∀ entries : List (String × Value), ProperEntries entries →
    JsonValue.StorableEntries (taggedEntries entries) ∧
      untaggedEntries (taggedEntries entries) = entries
  | [], _ => ⟨trivial, rfl⟩
  | (key, value) :: rest, h => by
    obtain ⟨hstorable, hback⟩ := tagged_spec value h.1
    obtain ⟨hrest, hmore⟩ := taggedEntries_spec rest h.2
    refine ⟨⟨hstorable, hrest⟩, ?_⟩
    unfold taggedEntries untaggedEntries
    rw [hback, hmore]

end

mutual

theorem mapFloats_id : ∀ value : Value, value.mapFloats id = value
  | .null => rfl
  | .bool _ => rfl
  | .number (.unsigned _) => rfl
  | .number (.negative _) => rfl
  | .number (.float _) => rfl
  | .string _ => rfl
  | .array values => congrArg Value.array (mapFloatsValues_id values)
  | .object entries => congrArg Value.object (mapFloatsEntries_id entries)

theorem mapFloatsValues_id : ∀ values : List Value, mapFloatsValues id values = values
  | [] => rfl
  | value :: rest => congrArg₂ List.cons (mapFloats_id value) (mapFloatsValues_id rest)

theorem mapFloatsEntries_id : ∀ entries : List (String × Value),
    mapFloatsEntries id entries = entries
  | [] => rfl
  | (key, value) :: rest =>
    congrArg₂ List.cons (congrArg (Prod.mk key) (mapFloats_id value)) (mapFloatsEntries_id rest)

end

instance (number : Number) : Decidable number.Proper :=
  match number with
  | .unsigned _ => .isTrue trivial
  | .negative _ => inferInstanceAs (Decidable (_ ∧ _ ∧ _))
  | .float _ => inferInstanceAs (Decidable (_ ∨ _))

mutual

def decideProper : (value : Value) → Decidable value.Proper
  | .null => .isTrue trivial
  | .bool _ => .isTrue trivial
  | .number value => inferInstanceAs (Decidable value.Proper)
  | .string _ => .isTrue trivial
  | .array values => decideProperValues values
  | .object entries =>
    have : Decidable (ProperEntries entries) := decideProperEntries entries
    have : Decidable (KeyOrdered entries) := inferInstanceAs (Decidable (List.Pairwise _ _))
    inferInstanceAs (Decidable (_ ∧ _))

def decideProperValues : (values : List Value) → Decidable (ProperValues values)
  | [] => .isTrue trivial
  | value :: rest =>
    have : Decidable value.Proper := decideProper value
    have : Decidable (ProperValues rest) := decideProperValues rest
    inferInstanceAs (Decidable (_ ∧ _))

def decideProperEntries : (entries : List (String × Value)) → Decidable (ProperEntries entries)
  | [] => .isTrue trivial
  | (_, value) :: rest =>
    have : Decidable value.Proper := decideProper value
    have : Decidable (ProperEntries rest) := decideProperEntries rest
    inferInstanceAs (Decidable (_ ∧ _))

end

instance : DecidablePred Value.Proper := decideProper

def runtimeText : SerdeText where
  fromStr text :=
    match JsonValue.parse text with
    | .error e => .error e.message
    | .ok v =>
      if (Value.untagged v).Proper ∧ (Value.untagged v).depth ≤ depthLimit then
        .ok (Value.untagged v)
      else .error "recursion limit exceeded"
  toStringPretty value := value.tagged.render
  refloat := id

theorem parse_render_lines (h : value.Storable) {tail : List Char} (htail : ∀ c ∈ tail, c = '
') : JsonValue.parse (value.render ++ tail) = .ok value := by
  have hends : Parser.EndsNumber tail := by
    intro c hc
    rw [htail c (mem_of_mem_head? hc)]
    rfl
  have hval := Parser.parseValue_render value h (2 * (value.render ++ tail).length + 2) tail
    (by rw [length_append]; omega) hends
  have hskip : Parser.skipWhitespace tail = [] := by
    apply dropWhile_eq_nil_iff.mpr
    intro c hc
    rw [htail c hc]
    rfl
  unfold JsonValue.parse
  rw [hval]
  exact if_pos hskip

theorem parse_blank {text : List Char} (h : ∀ c ∈ text, isWhitespace c = true) (v : JsonValue) :
    JsonValue.parse text ≠ .ok v := by
  intro hparse
  have hstart : ∀ c rest, Parser.skipWhitespace text = c :: rest → isWhitespace c = true := by
    intro c rest hskip
    apply h c
    apply (dropWhile_suffix _).subset (show c ∈ Parser.skipWhitespace text from ?_)
    rw [hskip]
    exact mem_cons_self
  have hfails : ∃ e, Parser.parseValue (2 * text.length + 2) text = .error e := by
    unfold Parser.parseValue
    cases hskip : Parser.skipWhitespace text with
    | nil => exact ⟨_, rfl⟩
    | cons c rest =>
      have hblank := hstart c rest hskip
      have hnum : ¬(c = '-' ∨ c.isDigit = true) := by
        rintro (rfl | hdigit)
        · cases hblank
        · rw [isWhitespace_of_isDigit hdigit] at hblank
          cases hblank
      split
      case h_8 =>
        rename_i hcons
        cases hcons
        rw [if_neg hnum]
        exact ⟨_, rfl⟩
      case h_1 hcons => cases hcons
      all_goals
        rename_i hcons
        cases hcons
        cases hblank
  obtain ⟨e, he⟩ := hfails
  unfold JsonValue.parse at hparse
  rw [he] at hparse
  cases hparse

theorem runtimeText_lawful : runtimeText.Lawful where
  reads := by
    intro text value h
    unfold runtimeText at h
    dsimp only at h
    split at h
    · cases h
    · split at h
      · rename_i hchecked
        cases h
        exact hchecked
      · cases h
  readsBack := by
    intro value tail hproper hdepth htail
    obtain ⟨hstorable, hback⟩ := tagged_spec value hproper
    unfold runtimeText
    dsimp only
    rw [parse_render_lines hstorable htail]
    dsimp only
    rw [hback, if_pos ⟨hproper, hdepth⟩, mapFloats_id]
  blank := by
    intro text value hblank h
    unfold runtimeText at h
    dsimp only at h
    split at h
    · cases h
    · rename_i v hparse
      exact parse_blank (trim_eq_nil hblank) v hparse

end DbClinic.Serde
