import DbClinic.Runtime.Json
import Mathlib.Data.String.Basic

/-!
What the renderer writes, the parser reads back. A value is storable when its
numbers are 64-bit integers and the entries of its objects stand in key order,
as those of a `BTreeMap` do.
-/

namespace DbClinic.Runtime

open List

section Entries

variable {α : Type}

def KeyOrdered (entries : List (String × α)) : Prop :=
  entries.Pairwise fun a b => a.1 < b.1

variable {entries : List (String × α)} {key : String} {value : α}

variable {e : String × α} {others : List (String × α)}

theorem mem_insertEntry (h : e ∈ insertEntry key value entries) :
    e = (key, value) ∨ e ∈ entries := by
  induction entries with
  | nil => simpa [insertEntry] using h
  | cons first rest ih =>
    obtain ⟨k, v⟩ := first
    unfold insertEntry at h
    split at h
    · rcases mem_cons.mp h with h | h
      · exact .inl h
      · exact .inr (mem_cons_of_mem _ h)
    · split at h
      · exact mem_cons.mp h
      · rcases mem_cons.mp h with rfl | h
        · exact .inr mem_cons_self
        · rcases ih h with h | h
          · exact .inl h
          · exact .inr (mem_cons_of_mem _ h)

theorem KeyOrdered.insertEntry (h : KeyOrdered entries) (key : String) (value : α) :
    KeyOrdered (insertEntry key value entries) := by
  induction entries with
  | nil => exact pairwise_singleton _ _
  | cons first rest ih =>
    obtain ⟨k, v⟩ := first
    obtain ⟨hfirst, hrest⟩ := pairwise_cons.mp h
    unfold Runtime.insertEntry
    split
    · rename_i heq
      exact pairwise_cons.mpr ⟨fun e he => heq ▸ hfirst e he, hrest⟩
    · rename_i hne
      split
      · rename_i hlt
        refine pairwise_cons.mpr ⟨fun e he => ?_, h⟩
        rcases mem_cons.mp he with rfl | he
        · exact hlt
        · exact String.lt_trans hlt (hfirst e he)
      · rename_i hle
        refine pairwise_cons.mpr ⟨fun e he => ?_, ih hrest⟩
        rcases mem_insertEntry he with rfl | he
        · exact Decidable.byContradiction fun hnot => hne (String.le_antisymm hnot hle)
        · exact hfirst e he

theorem keyOrdered_entriesOf (entries : List (String × α)) : KeyOrdered (entriesOf entries) := by
  suffices h : ∀ map : List (String × α), KeyOrdered map →
      KeyOrdered (entries.foldl (fun map e => insertEntry e.1 e.2 map) map) from
    h [] List.Pairwise.nil
  induction entries with
  | nil => exact fun map hmap => hmap
  | cons e rest ih => exact fun map hmap => ih _ (hmap.insertEntry e.1 e.2)

theorem mem_entriesOf (h : e ∈ entriesOf entries) : e ∈ entries := by
  suffices hfold : ∀ map : List (String × α),
      e ∈ entries.foldl (fun map e => insertEntry e.1 e.2 map) map → e ∈ map ∨ e ∈ entries by
    rcases hfold [] h with h | h
    · cases h
    · exact h
  clear h
  induction entries with
  | nil => exact fun map h => .inl h
  | cons first rest ih =>
    intro map h
    rcases ih _ h with h | h
    · rcases mem_insertEntry h with rfl | h
      · exact .inr mem_cons_self
      · exact .inl h
    · exact .inr (mem_cons_of_mem _ h)

theorem insertEntry_last (h : ∀ e ∈ entries, e.1 < key) :
    insertEntry key value entries = entries ++ [(key, value)] := by
  induction entries with
  | nil => rfl
  | cons first rest ih =>
    obtain ⟨k, v⟩ := first
    have hk : k < key := h (k, v) mem_cons_self
    unfold insertEntry
    have hne : key ≠ k := fun heq => String.lt_irrefl k (heq ▸ hk)
    have hnot : ¬ key < k := fun hlt => String.lt_irrefl k (String.lt_trans hk hlt)
    rw [if_neg hne, if_neg hnot,
      ih fun e he => h e (mem_cons_of_mem _ he)]
    rfl

@[simp] theorem getEntry_nil (key : String) : getEntry ([] : List (String × α)) key = none := rfl

@[simp] theorem getEntry_cons (k : String) (v : α) (rest : List (String × α)) (key : String) :
    getEntry ((k, v) :: rest) key = if k = key then some v else getEntry rest key := by
  unfold getEntry
  rw [find?_cons]
  by_cases h : k = key
  · simp [h]
  · simp [h]

@[simp] theorem getEntry_append (entries rest : List (String × α)) (key : String) :
    getEntry (entries ++ rest) key = (getEntry entries key).or (getEntry rest key) := by
  unfold getEntry
  rw [find?_append]
  cases entries.find? fun e => e.1 = key <;> rfl

theorem getEntry_insertEntry (key : String) (value : α) (entries : List (String × α))
    (other : String) : getEntry (insertEntry key value entries) other =
      if key = other then some value else getEntry entries other := by
  induction entries with
  | nil => simp [insertEntry]
  | cons first rest ih =>
    obtain ⟨k, v⟩ := first
    unfold insertEntry
    split
    · rename_i heq
      subst heq
      simp only [getEntry_cons]
      split <;> rfl
    · split
      · simp only [getEntry_cons]
      · rename_i hne _
        simp only [getEntry_cons, ih]
        by_cases hother : key = other
        · subst hother
          rw [if_neg (Ne.symm hne)]
          simp
        · simp [hother]

theorem getEntry_entriesOf (entries : List (String × α)) (key : String) :
    getEntry (entriesOf entries) key = getEntry entries.reverse key := by
  suffices h : ∀ map : List (String × α),
      getEntry (entries.foldl (fun map e => insertEntry e.1 e.2 map) map) key =
        (getEntry entries.reverse key).or (getEntry map key) by
    simpa [entriesOf] using h []
  induction entries with
  | nil => simp
  | cons first rest ih =>
    obtain ⟨k, v⟩ := first
    intro map
    rw [foldl_cons, ih, getEntry_insertEntry, reverse_cons, getEntry_append,
      Option.or_assoc, getEntry_cons]
    by_cases hk : k = key
    · simp [hk]
    · simp [hk]

theorem getEntry_filter_ne (key : String) (entries : List (String × α)) (other : String) :
    getEntry (entries.filter fun e => e.1 ≠ key) other =
      if key = other then none else getEntry entries other := by
  induction entries with
  | nil => simp
  | cons e entries ih =>
    obtain ⟨k, v⟩ := e
    rw [filter_cons]
    by_cases hk : k = key
    · subst hk
      rw [if_neg (by simp), ih, getEntry_cons]
      split <;> rfl
    · rw [if_pos (by simpa using hk), getEntry_cons, ih, getEntry_cons]
      by_cases hother : key = other
      · subst hother
        rw [if_pos rfl, if_neg hk, if_pos rfl]
      · rw [if_neg hother, if_neg hother]

theorem mem_of_getEntry (h : getEntry entries key = some value) : (key, value) ∈ entries := by
  obtain ⟨e, he, rfl⟩ := Option.map_eq_some_iff.mp h
  have hkey : e.1 = key := by simpa using find?_some he
  subst hkey
  exact mem_of_find?_eq_some he

theorem getEntry_of_mem (h : KeyOrdered entries) (hmem : (key, value) ∈ entries) :
    getEntry entries key = some value := by
  induction entries with
  | nil => cases hmem
  | cons e rest ih =>
    obtain ⟨k, v⟩ := e
    obtain ⟨hfirst, hrest⟩ := pairwise_cons.mp h
    rw [getEntry_cons]
    rcases mem_cons.mp hmem with heq | hlater
    · cases heq
      rw [if_pos rfl]
    · have hlt : k < key := hfirst (key, value) hlater
      have hne : k ≠ key := fun heq => String.lt_irrefl key (heq ▸ hlt)
      rw [if_neg hne]
      exact ih hrest hlater

theorem KeyOrdered.ext (h : KeyOrdered entries) (hothers : KeyOrdered others)
    (hsame : ∀ key, getEntry entries key = getEntry others key) :
    entries = others := by
  have hperm : entries.Perm others := by
    apply (perm_ext_iff_of_nodup (h.imp ?_) (hothers.imp ?_)).mpr
    · rintro ⟨key, value⟩
      constructor
      · intro hmem
        exact mem_of_getEntry (hsame key ▸ getEntry_of_mem h hmem)
      · intro hmem
        exact mem_of_getEntry (hsame key ▸ getEntry_of_mem hothers hmem)
    all_goals
      rintro a b hlt rfl
      exact absurd hlt (String.lt_irrefl _)
  apply hperm.eq_of_pairwise _ h hothers
  intro a b _ _ hab hba
  exact absurd hab (lt_asymm hba)

theorem insertEntry_perm (hkey : key ∉ entries.map Prod.fst) :
    (insertEntry key value entries).Perm ((key, value) :: entries) := by
  induction entries with
  | nil => exact .refl _
  | cons first rest ih =>
    obtain ⟨k, v⟩ := first
    simp only [map_cons, mem_cons, not_or] at hkey
    simp only [insertEntry, if_neg hkey.1]
    split
    · exact .refl _
    · exact ((ih hkey.2).cons (k, v)).trans (.swap _ _ _)

theorem entriesOf_perm (hkeys : (entries.map Prod.fst).Nodup) :
    (entriesOf entries).Perm entries := by
  suffices hfold : ∀ map : List (String × α), ((map ++ entries).map Prod.fst).Nodup →
      (entries.foldl (fun map e => insertEntry e.1 e.2 map) map).Perm (map ++ entries) from
    hfold [] hkeys
  clear hkeys
  induction entries with
  | nil => exact fun map _ => by simp
  | cons e rest ih =>
    intro map hmap
    have hmiddle : (map ++ e :: rest).Perm (e :: map ++ rest) := perm_middle
    have hfresh : e.1 ∉ map.map Prod.fst := by
      have hnodup := (hmiddle.map Prod.fst).nodup_iff.mp hmap
      rw [cons_append, map_cons, nodup_cons, map_append] at hnodup
      exact fun h => hnodup.1 (mem_append_left _ h)
    have hinsert : (insertEntry e.1 e.2 map).Perm (e :: map) := insertEntry_perm hfresh
    have hnext : ((insertEntry e.1 e.2 map ++ rest).map Prod.fst).Nodup :=
      (((hinsert.append_right rest).trans hmiddle.symm).map Prod.fst).nodup_iff.mpr hmap
    exact (ih _ hnext).trans ((hinsert.append_right rest).trans hmiddle.symm)

theorem entriesOf_eq_of_perm (hperm : entries.Perm others) (hkeys : (entries.map Prod.fst).Nodup) :
    entriesOf entries = entriesOf others := by
  have hothers : (others.map Prod.fst).Nodup := (hperm.map Prod.fst).nodup_iff.mp hkeys
  have hall : (entriesOf entries).Perm (entriesOf others) :=
    (entriesOf_perm hkeys).trans (hperm.trans (entriesOf_perm hothers).symm)
  apply List.Perm.eq_of_pairwise _ (keyOrdered_entriesOf entries) (keyOrdered_entriesOf others) hall
  intro a b _ _ hab hba
  exact absurd hab (lt_asymm hba)

end Entries

namespace JsonValue

mutual

/-- What a value of the source always is. -/
def Storable : JsonValue → Prop
  | null => True
  | bool _ => True
  | number value => Parser.InI64 value
  | string _ => True
  | array values => StorableValues values
  | object entries => KeyOrdered entries ∧ StorableEntries entries

def StorableValues : List JsonValue → Prop
  | [] => True
  | value :: rest => value.Storable ∧ StorableValues rest

def StorableEntries : List (String × JsonValue) → Prop
  | [] => True
  | (_, value) :: rest => value.Storable ∧ StorableEntries rest

end

variable {values : List JsonValue} {entries : List (String × JsonValue)}

theorem storableValues_iff :
    StorableValues values ↔ ∀ v ∈ values, v.Storable := by
  induction values with
  | nil => simp [StorableValues]
  | cons v rest ih => simp [StorableValues, ih]

theorem storableEntries_iff :
    StorableEntries entries ↔ ∀ e ∈ entries, e.2.Storable := by
  induction entries with
  | nil => simp [StorableEntries]
  | cons e rest ih => simp [StorableEntries, ih]

theorem storable_array (h : ∀ v ∈ values, v.Storable) :
    (array values).Storable := by
  unfold Storable
  exact storableValues_iff.mpr h

theorem storable_entriesOf (h : ∀ e ∈ entries, e.2.Storable) :
    (object (entriesOf entries)).Storable := by
  unfold Storable
  exact ⟨keyOrdered_entriesOf entries,
    storableEntries_iff.mpr fun e he => h e (mem_entriesOf he)⟩

end JsonValue

namespace Parser

open JsonValue

theorem expect_self (c : Char) (rest : List Char) : expect c (c :: rest) = .ok rest :=
  if_pos rfl

theorem hexValue_hexDigit : ∀ n < 16, hexValue (hexDigit n) = some n := by decide

variable {c : Char} {rest cs : List Char} {fuel : Nat} {value : JsonValue} {key : String}

theorem parseUnicodeEscape_render (hc : c.toNat < 2 ^ 16) (rest : List Char) :
    parseUnicodeEscape (([12, 8, 4, 0].map fun shift =>
      hexDigit ((c.toNat >>> shift) % 16)) ++ rest) = .ok (c, rest) := by
  have hdigit (shift : Nat) :
      hexValue (hexDigit ((c.toNat >>> shift) % 16)) = some ((c.toNat >>> shift) % 16) :=
    hexValue_hexDigit _ (Nat.mod_lt _ (by decide))
  have hval : (((0 * 16 + (c.toNat >>> 12) % 16) * 16 + (c.toNat >>> 8) % 16) * 16 +
      (c.toNat >>> 4) % 16) * 16 + (c.toNat >>> 0) % 16 = c.toNat := by
    simp only [Nat.shiftRight_eq_div_pow]
    omega
  unfold parseUnicodeEscape
  simp only [map_cons, map_nil, cons_append, nil_append, parseHex, hdigit,
    hval]
  have hvalid : c.toNat.isValidChar := c.valid
  rw [if_pos hvalid, Char.ofNat_toNat]

theorem parseStringFrom_plain (hquote : c ≠ '"') (hslash : c ≠ '\\') (fuel : Nat)
    (value rest : List Char) :
    parseStringFrom (fuel + 1) value (c :: rest) = parseStringFrom fuel (c :: value) rest := by
  rw [parseStringFrom, if_neg hquote, if_neg hslash]

theorem parseStringFrom_escape (h : parseEscape cs = .ok (c, rest)) (fuel : Nat)
    (value : List Char) :
    parseStringFrom (fuel + 1) value ('\\' :: cs) = parseStringFrom fuel (c :: value) rest := by
  rw [parseStringFrom, if_neg (by decide), if_pos rfl, h]

theorem parseStringFrom_renderChar (c : Char) (fuel : Nat) (value rest : List Char) :
    parseStringFrom (fuel + 1) value (renderChar c ++ rest) =
      parseStringFrom fuel (c :: value) rest := by
  unfold renderChar
  split
  · subst c; exact parseStringFrom_escape rfl fuel value
  rename_i hquote
  split
  · subst c; exact parseStringFrom_escape rfl fuel value
  rename_i hslash
  split
  · subst c; exact parseStringFrom_escape rfl fuel value
  split
  · subst c; exact parseStringFrom_escape rfl fuel value
  split
  · subst c; exact parseStringFrom_escape rfl fuel value
  split
  · subst c; exact parseStringFrom_escape rfl fuel value
  split
  · subst c; exact parseStringFrom_escape rfl fuel value
  split
  · rename_i hcontrol
    have hc : c.toNat < 2 ^ 16 := by
      simp only [isControl, Bool.or_eq_true, Bool.and_eq_true, decide_eq_true_eq] at hcontrol
      omega
    have hescape : parseEscape ('u' :: (([12, 8, 4, 0].map fun shift =>
        hexDigit ((c.toNat >>> shift) % 16)) ++ rest)) = .ok (c, rest) :=
      parseUnicodeEscape_render hc rest
    exact parseStringFrom_escape hescape fuel value
  · exact parseStringFrom_plain hquote hslash fuel value rest

theorem parseStringFrom_render (cs : List Char) (fuel : Nat) (hfuel : cs.length < fuel)
    (value rest : List Char) :
    parseStringFrom fuel value (cs.flatMap renderChar ++ '"' :: rest) =
      .ok (String.ofList (value.reverse ++ cs), rest) := by
  induction cs generalizing fuel value with
  | nil =>
    obtain ⟨fuel, rfl⟩ := Nat.exists_eq_add_of_lt hfuel
    simp [parseStringFrom]
  | cons c cs ih =>
    obtain ⟨fuel, rfl⟩ := Nat.exists_eq_add_of_lt (Nat.lt_of_le_of_lt (Nat.zero_le _) hfuel)
    rw [length_cons] at hfuel
    rw [flatMap_cons, append_assoc, parseStringFrom_renderChar,
      ih _ (by omega)]
    simp

theorem renderChar_ne_nil (c : Char) : renderChar c ≠ [] := by
  unfold renderChar pushUnicodeEscape
  repeat' split
  all_goals exact cons_ne_nil _ _

theorem length_le_flatMap_renderChar (cs : List Char) :
    cs.length ≤ (cs.flatMap renderChar).length := by
  induction cs with
  | nil => exact Nat.le_refl _
  | cons c cs ih =>
    have hc := length_pos_iff.mpr (renderChar_ne_nil c)
    rw [flatMap_cons, length_append, length_cons]
    omega

/-- `parse_string` reads what `render_string` wrote. -/
theorem parseString_render (text : String) (rest : List Char) :
    parseString (renderString text ++ rest) = .ok (text, rest) := by
  have hlen := length_le_flatMap_renderChar text.toList
  have hbody : renderString text ++ rest =
      '"' :: (text.toList.flatMap renderChar ++ '"' :: rest) := by
    simp [renderString]
  rw [hbody]
  unfold parseString
  rw [expect_self]
  dsimp only
  rw [parseStringFrom_render _ _ (by simp only [length_append, length_cons]; omega)]
  simp

def EndsNumber (rest : List Char) : Prop := ∀ c ∈ rest.head?, c.isDigit = false

theorem endsNumber_cons (h : c.isDigit = false) (rest : List Char) :
    EndsNumber (c :: rest) := by
  intro d hd
  cases hd
  exact h

theorem digitsValue_toDigits (n : Nat) : digitsValue (Nat.toDigits 10 n) = n := by
  have hfold : digitsValue (Nat.toDigits 10 n) = Nat.ofDigitChars 10 (Nat.toDigits 10 n) 0 := by
    unfold digitsValue
    rw [Nat.ofDigitChars_eq_foldl]
    congr 1
    funext m c
    rw [Nat.mul_comm]
  rw [hfold, Nat.ofDigitChars_ten_toDigits]

theorem isDigit_toDigits {n : Nat} (h : c ∈ Nat.toDigits 10 n) : c.isDigit = true :=
  Nat.isDigit_of_mem_toDigits (by decide) (by decide) h

theorem span_toDigits (n : Nat) (hrest : EndsNumber rest) :
    (Nat.toDigits 10 n ++ rest).takeWhile Char.isDigit = Nat.toDigits 10 n ∧
      (Nat.toDigits 10 n ++ rest).dropWhile Char.isDigit = rest := by
  have hall : ∀ c ∈ Nat.toDigits 10 n, c.isDigit = true := fun c hc => isDigit_toDigits hc
  have hstop : rest.takeWhile Char.isDigit = [] ∧ rest.dropWhile Char.isDigit = rest := by
    cases rest with
    | nil => exact ⟨rfl, rfl⟩
    | cons c rest =>
      have hc : c.isDigit = false := hrest c rfl
      simp [hc]
  rw [takeWhile_append_of_pos hall, dropWhile_append_of_pos hall, hstop.1, hstop.2]
  exact ⟨append_nil _, rfl⟩

theorem renderNumber_eq (value : Int) : renderNumber value =
    if 0 ≤ value then Nat.toDigits 10 value.toNat
    else '-' :: Nat.toDigits 10 (-value).toNat := by
  unfold renderNumber
  rw [Int.toString_eq_repr, Int.repr_eq_if]
  split
  · exact Nat.toList_repr
  · rw [String.toList_append, Nat.toList_repr]
    rfl

theorem renderNumber_head (value : Int) :
    ∃ c cs, renderNumber value = c :: cs ∧ (c = '-' ∨ c.isDigit = true) := by
  rw [renderNumber_eq]
  split
  · obtain ⟨c, cs, heq⟩ := exists_cons_of_ne_nil (Nat.toDigits_ne_nil (n := value.toNat)
      (b := 10))
    exact ⟨c, cs, heq, .inr (isDigit_toDigits (heq ▸ mem_cons_self))⟩
  · exact ⟨'-', _, rfl, .inl rfl⟩

theorem parseNumber_render {value : Int} (hval : InI64 value) (hrest : EndsNumber rest) :
    parseNumber (renderNumber value ++ rest) = .ok (value, rest) := by
  rw [renderNumber_eq]
  split
  · rename_i hsign
    obtain ⟨htake, hdrop⟩ := span_toDigits value.toNat hrest
    unfold parseNumber
    split
    rename_i negative cs hsplit
    split at hsplit
    · rename_i ds heq
      obtain ⟨c, es, hes⟩ := exists_cons_of_ne_nil (Nat.toDigits_ne_nil
        (n := value.toNat) (b := 10))
      have hc : c.isDigit = true := isDigit_toDigits (hes ▸ mem_cons_self)
      rw [hes] at heq
      cases heq
      cases hc
    cases hsplit
    dsimp only
    rw [htake, hdrop, if_neg Nat.toDigits_ne_nil, if_neg Bool.false_ne_true,
      digitsValue_toDigits, Int.toNat_of_nonneg hsign, if_pos hval]
  · rename_i hsign
    obtain ⟨htake, hdrop⟩ := span_toDigits (-value).toNat hrest
    have hneg : -(((-value).toNat : Nat) : Int) = value := by omega
    unfold parseNumber
    simp only [cons_append]
    rw [htake, hdrop, if_neg Nat.toDigits_ne_nil, if_pos trivial, digitsValue_toDigits, hneg,
      if_pos hval]

def StartsValue (c : Char) : Prop :=
  c ≠ ' ' ∧ c ≠ '\n' ∧ c ≠ '\r' ∧ c ≠ '\t' ∧ c ≠ ']'

instance (c : Char) : Decidable (StartsValue c) := inferInstanceAs (Decidable (_ ∧ _))

theorem startsValue_number (h : c = '-' ∨ c.isDigit = true) : StartsValue c := by
  rcases h with rfl | h
  · decide
  · refine ⟨?_, ?_, ?_, ?_, ?_⟩ <;> (rintro rfl; cases h)

theorem render_head (value : JsonValue) : ∃ c cs, value.render = c :: cs ∧ StartsValue c := by
  cases value with
  | null => exact ⟨'n', _, rfl, by decide⟩
  | bool value => cases value <;> exact ⟨_, _, rfl, by decide⟩
  | number value =>
    obtain ⟨c, cs, heq, hc⟩ := renderNumber_head value
    exact ⟨c, cs, heq, startsValue_number hc⟩
  | string value => exact ⟨'"', _, rfl, by decide⟩
  | array values => exact ⟨'[', _, rfl, by decide⟩
  | object entries => exact ⟨'\x7b', _, rfl, by decide⟩

theorem skipWhitespace_cons (h : StartsValue c) (rest : List Char) :
    skipWhitespace (c :: rest) = c :: rest := by
  obtain ⟨hspace, hnewline, hreturn, htab, -⟩ := h
  unfold skipWhitespace
  rw [dropWhile_cons_of_neg]
  simp [hspace, hnewline, hreturn, htab]

theorem parseValue_number (h : c = '-' ∨ c.isDigit = true) (fuel : Nat) (cs : List Char) :
    parseValue (fuel + 1) (c :: cs) =
      (parseNumber (c :: cs)).map fun r => (.number r.1, r.2) := by
  rw [parseValue, skipWhitespace_cons (startsValue_number h)]
  split
  case h_8 hcons =>
      cases hcons
      rw [if_pos h]
  case h_1 hcons => cases hcons
  all_goals
    rename_i hcons
    cases hcons
    rcases h with h | h <;> cases h

theorem parseElements_last (hc : StartsValue c)
    (h : parseValue fuel (c :: cs) = .ok (value, ']' :: rest)) (values : List JsonValue) :
    parseElements (fuel + 1) values (c :: cs) =
      .ok (.array (value :: values).reverse, rest) := by
  rw [parseElements, skipWhitespace_cons hc]
  split
  · rename_i hcons
    cases hcons
    exact absurd rfl hc.2.2.2.2
  · rw [h]
    rfl

theorem parseElements_more (hc : StartsValue c)
    (h : parseValue fuel (c :: cs) = .ok (value, ',' :: rest)) (values : List JsonValue) :
    parseElements (fuel + 1) values (c :: cs) =
      parseElements fuel (value :: values) rest := by
  rw [parseElements, skipWhitespace_cons hc]
  split
  · rename_i hcons
    cases hcons
    exact absurd rfl hc.2.2.2.2
  · rw [h]
    rfl

theorem parseMembers_entry {after : List Char} (h : parseValue fuel cs = .ok (value, after))
    (entries : List (String × JsonValue)) :
    parseMembers (fuel + 1) entries (renderString key ++ ':' :: cs) =
      match skipWhitespace after with
      | '\x7d' :: rest => .ok (.object (insertEntry key value entries), rest)
      | rest =>
        match expect ',' rest with
        | .error e => .error e
        | .ok rest => parseMembers fuel (insertEntry key value entries) rest := by
  have hquote : renderString key ++ ':' :: cs =
      '"' :: (key.toList.flatMap renderChar ++ ['"'] ++ ':' :: cs) := rfl
  rw [parseMembers, hquote, skipWhitespace_cons (by decide)]
  split
  · rename_i hcons
    cases hcons
  · rw [← hquote, parseString_render]
    dsimp only
    rw [skipWhitespace_cons (by decide), expect_self]
    dsimp only
    cases hval : parseValue fuel cs with
    | error e =>
      rw [hval] at h
      cases h
    | ok parsed =>
      rw [hval] at h
      cases h
      rfl

theorem parseMembers_last (h : parseValue fuel cs = .ok (value, '\x7d' :: rest))
    (entries : List (String × JsonValue)) :
    parseMembers (fuel + 1) entries (renderString key ++ ':' :: cs) =
      .ok (.object (insertEntry key value entries), rest) := by
  rw [parseMembers_entry h]
  rfl

theorem parseMembers_more (h : parseValue fuel cs = .ok (value, ',' :: rest))
    (entries : List (String × JsonValue)) :
    parseMembers (fuel + 1) entries (renderString key ++ ':' :: cs) =
      parseMembers fuel (insertEntry key value entries) rest := by
  rw [parseMembers_entry h]
  rfl

mutual

/-- `parse_value` reads what `render` wrote, up to what follows it. -/
theorem parseValue_render : ∀ (value : JsonValue), value.Storable →
    ∀ (fuel : Nat) (rest : List Char), value.render.length ≤ fuel → EndsNumber rest →
      parseValue fuel (value.render ++ rest) = .ok (value, rest)
  | .null, _, fuel, rest, hfuel, _ => by
    cases fuel with
    | zero => exact absurd hfuel (by decide)
    | succ fuel => rfl
  | .bool true, _, fuel, rest, hfuel, _ => by
    cases fuel with
    | zero => exact absurd hfuel (by decide)
    | succ fuel => rfl
  | .bool false, _, fuel, rest, hfuel, _ => by
    cases fuel with
    | zero => exact absurd hfuel (by decide)
    | succ fuel => rfl
  | .number value, hval, fuel, rest, hfuel, hrest => by
    obtain ⟨c, cs, heq, hc⟩ := renderNumber_head value
    have hrender : (JsonValue.number value).render = c :: cs := heq
    rw [hrender] at hfuel ⊢
    cases fuel with
    | zero => cases hfuel
    | succ fuel =>
      have hnum : parseNumber (c :: cs ++ rest) = .ok (value, rest) :=
        heq ▸ parseNumber_render hval hrest
      rw [cons_append, parseValue_number hc, ← cons_append, hnum]
      rfl
  | .string value, _, fuel, rest, hfuel, _ => by
    cases fuel with
    | zero => cases hfuel
    | succ fuel =>
      have hstring := parseString_render value rest
      change (parseString (renderString value ++ rest)).map
        (fun r => (JsonValue.string r.1, r.2)) = _
      rw [hstring]
      rfl
  | .array values, hvals, fuel, rest, hfuel, _ => by
    cases fuel with
    | zero => cases hfuel
    | succ fuel =>
      have hlen : (renderValues values).length + 1 ≤ fuel := by
        simp only [render, length_cons, length_append, length_nil] at hfuel
        omega
      have helems := parseElements_render values hvals fuel [] rest hlen
      simp only [render, cons_append, append_assoc, nil_append]
      exact helems
  | .object entries, hents, fuel, rest, hfuel, _ => by
    cases fuel with
    | zero => cases hfuel
    | succ fuel =>
      have hlen : (renderEntries entries).length + 1 ≤ fuel := by
        simp only [render, length_cons, length_append, length_nil] at hfuel
        omega
      have hmembers := parseMembers_render entries hents.2 fuel [] rest hlen hents.1
      simp only [render, cons_append, append_assoc, nil_append]
      exact hmembers

theorem parseElements_render : ∀ (values : List JsonValue), StorableValues values →
    ∀ (fuel : Nat) (before : List JsonValue) (rest : List Char),
      (renderValues values).length + 1 ≤ fuel →
      parseElements fuel before (renderValues values ++ ']' :: rest) =
        .ok (.array (before.reverse ++ values), rest)
  | [], _, fuel, before, rest, hfuel => by
    cases fuel with
    | zero => cases hfuel
    | succ fuel => simp [renderValues, parseElements, skipWhitespace]
  | [value], hvals, fuel, before, rest, hfuel => by
    cases fuel with
    | zero => cases hfuel
    | succ fuel =>
      obtain ⟨c, cs, heq, hc⟩ := render_head value
      have hval := parseValue_render value hvals.1 fuel (']' :: rest)
        (Nat.le_of_succ_le_succ hfuel) (endsNumber_cons (by decide) rest)
      rw [heq, cons_append] at hval
      rw [renderValues, heq, cons_append, parseElements_last hc hval]
      simp
  | value :: next :: values, hvals, fuel, before, rest, hfuel => by
    cases fuel with
    | zero => cases hfuel
    | succ fuel =>
      obtain ⟨c, cs, heq, hc⟩ := render_head value
      simp only [renderValues, length_append, length_cons] at hfuel
      have hpos : 0 < value.render.length := by rw [heq]; exact Nat.succ_pos _
      have hval := parseValue_render value hvals.1 fuel
        (',' :: (renderValues (next :: values) ++ ']' :: rest)) (by omega)
        (endsNumber_cons (by decide) _)
      have hnext := parseElements_render (next :: values) hvals.2 fuel (value :: before) rest
        (by omega)
      rw [renderValues, append_assoc, cons_append]
      · rw [heq, cons_append] at hval
        rw [heq, cons_append, parseElements_more hc hval, hnext]
        simp
      · exact cons_ne_nil _ _

theorem parseMembers_render : ∀ (entries : List (String × JsonValue)), StorableEntries entries →
    ∀ (fuel : Nat) (before : List (String × JsonValue)) (rest : List Char),
      (renderEntries entries).length + 1 ≤ fuel → KeyOrdered (before ++ entries) →
      parseMembers fuel before (renderEntries entries ++ '\x7d' :: rest) =
        .ok (.object (before ++ entries), rest)
  | [], _, fuel, before, rest, hfuel, _ => by
    cases fuel with
    | zero => cases hfuel
    | succ fuel => simp [renderEntries, parseMembers, skipWhitespace]
  | [(key, value)], hents, fuel, before, rest, hfuel, hordered => by
    cases fuel with
    | zero => cases hfuel
    | succ fuel =>
      simp only [renderEntries, length_append, length_cons] at hfuel
      have hval := parseValue_render value hents.1 fuel ('\x7d' :: rest)
        (by omega) (endsNumber_cons (by decide) rest)
      rw [renderEntries, append_assoc, cons_append, parseMembers_last hval,
        insertEntry_last fun e he =>
          (pairwise_append.mp hordered).2.2 e he _ mem_cons_self]
  | (key, value) :: next :: entries, hents, fuel, before, rest, hfuel, hordered => by
    cases fuel with
    | zero => cases hfuel
    | succ fuel =>
      obtain ⟨c, cs, heq, hc⟩ := render_head value
      have hsplit : before ++ (key, value) :: next :: entries =
          before ++ [(key, value)] ++ next :: entries := by simp
      simp only [renderEntries, length_append, length_cons] at hfuel
      have hval := parseValue_render value hents.1 fuel
        (',' :: (renderEntries (next :: entries) ++ '\x7d' :: rest)) (by omega)
        (endsNumber_cons (by decide) _)
      have hnext := parseMembers_render (next :: entries) hents.2 fuel
        (before ++ [(key, value)]) rest (by omega) (hsplit ▸ hordered)
      rw [renderEntries, append_assoc, cons_append, append_assoc,
        cons_append]
      · rw [parseMembers_more hval, insertEntry_last fun e he =>
          (pairwise_append.mp hordered).2.2 e he _ mem_cons_self, hnext, hsplit]
      · exact cons_ne_nil _ _

end

end Parser

variable {value : JsonValue}

theorem JsonValue.parse_render (h : value.Storable) :
    JsonValue.parse value.render = .ok value := by
  have hval := Parser.parseValue_render value h (2 * value.render.length + 2) []
    (by omega) (by intro c hc; cases hc)
  rw [append_nil] at hval
  unfold JsonValue.parse
  rw [hval]
  rfl

namespace JsonValue

def Printable (cs : List Char) : Prop := ∀ c ∈ cs, isControl c = false

instance (cs : List Char) : Decidable (Printable cs) :=
  List.decidableBAll _ cs

variable {cs : List Char} {c : Char}

theorem printable_append {ds : List Char} :
    Printable (cs ++ ds) ↔ Printable cs ∧ Printable ds := forall_mem_append

theorem printable_cons :
    Printable (c :: cs) ↔ isControl c = false ∧ Printable cs := forall_mem_cons

theorem printable_nil : Printable [] := forall_mem_nil _

theorem hexDigit_printable (n : Nat) : isControl (hexDigit n) = false := by
  have hall : ∀ n < 16, isControl (hexDigit n) = false := by decide
  rcases Nat.lt_or_ge n 16 with h | h
  · exact hall n h
  · unfold hexDigit
    rw [getD_eq_getElem?_getD, getElem?_eq_none (by simpa using h)]
    rfl

theorem renderChar_printable (c : Char) : Printable (renderChar c) := by
  unfold renderChar
  split
  · decide
  split
  · decide
  split
  · decide
  split
  · decide
  split
  · decide
  split
  · decide
  split
  · decide
  split
  · simp [pushUnicodeEscape, printable_cons, printable_nil, hexDigit_printable]
    decide
  · rename_i hcontrol
    exact printable_cons.mpr ⟨Bool.not_eq_true _ ▸ hcontrol, printable_nil⟩

theorem renderString_printable (text : String) : Printable (renderString text) := by
  unfold renderString
  refine printable_cons.mpr ⟨by decide, printable_append.mpr ⟨?_, by decide⟩⟩
  intro c hc
  obtain ⟨d, -, hd⟩ := mem_flatMap.mp hc
  exact renderChar_printable d c hd

theorem isDigit_printable (h : c.isDigit = true) : isControl c = false := by
  have hrange : 48 ≤ c.toNat ∧ c.toNat ≤ 57 := Char.isDigit_iff_toNat.mp h
  unfold isControl
  simp
  omega

theorem renderNumber_printable (value : Int) : Printable (renderNumber value) := by
  have hdigits (n : Nat) : Printable (Nat.toDigits 10 n) :=
    fun c hc => isDigit_printable (Parser.isDigit_toDigits hc)
  rw [Parser.renderNumber_eq]
  split
  · exact hdigits _
  · exact printable_cons.mpr ⟨by decide, hdigits _⟩

mutual

theorem render_printable : ∀ value : JsonValue, Printable value.render
  | .null => by decide
  | .bool true => by decide
  | .bool false => by decide
  | .number value => renderNumber_printable value
  | .string value => renderString_printable value
  | .array values =>
    printable_cons.mpr
      ⟨by decide, printable_append.mpr ⟨renderValues_printable values, by decide⟩⟩
  | .object entries =>
    printable_cons.mpr
      ⟨by decide, printable_append.mpr ⟨renderEntries_printable entries, by decide⟩⟩

theorem renderValues_printable : ∀ values : List JsonValue, Printable (renderValues values)
  | [] => printable_nil
  | [value] => render_printable value
  | value :: next :: rest =>
    printable_append.mpr ⟨render_printable value,
      printable_cons.mpr ⟨by decide, renderValues_printable (next :: rest)⟩⟩

theorem renderEntries_printable :
    ∀ entries : List (String × JsonValue), Printable (renderEntries entries)
  | [] => printable_nil
  | [(key, value)] =>
    printable_append.mpr ⟨renderString_printable key,
      printable_cons.mpr ⟨by decide, render_printable value⟩⟩
  | (key, value) :: next :: rest =>
    printable_append.mpr ⟨printable_append.mpr ⟨renderString_printable key,
      printable_cons.mpr ⟨by decide, render_printable value⟩⟩,
      printable_cons.mpr ⟨by decide, renderEntries_printable (next :: rest)⟩⟩

end

/-- A value is read back from its text, which is one line without any control
character. -/
theorem render_one_line {value : JsonValue} (h : value.Storable) :
    JsonValue.parse value.render = .ok value ∧ Printable value.render :=
  ⟨parse_render h, render_printable value⟩

/-- An object in an array, with the ends of the range of numbers and a newline. -/
theorem render_one_line_nested :
    JsonValue.parse (array [object [("a\n", number (-2 ^ 63)), ("b", null)]]).render =
      .ok (array [object [("a\n", number (-2 ^ 63)), ("b", null)]]) ∧
    Printable (array [object [("a\n", number (-2 ^ 63)), ("b", null)]]).render := by
  have hordered : KeyOrdered [("a\n", number (-2 ^ 63)), ("b", null)] := by
    simp only [KeyOrdered, pairwise_cons]
    decide
  have hnum : Parser.InI64 (-2 ^ 63) := by decide
  exact render_one_line ⟨⟨hordered, hnum, trivial, trivial⟩, trivial⟩

end JsonValue

namespace Parser

open JsonValue

variable {cs rest : List Char} {α ε : Type} {p : Prop} {e : ε} {r : Except ε α} {a : α}

theorem parseLiteral_ok {expected : String} {v : JsonValue}
    (h : parseLiteral expected value cs = .ok (v, rest)) : v = value := by
  unfold parseLiteral at h
  split at h
  · cases h
    rfl
  · cases h

theorem ite_error_ok [Decidable p] (h : (if p then .error e else r) = .ok a) : ¬p ∧ r = .ok a := by
  split at h
  · cases h
  · exact ⟨‹_›, h⟩

theorem ite_ok_error [Decidable p] (h : (if p then r else .error e) = .ok a) : p ∧ r = .ok a := by
  split at h
  · exact ⟨‹_›, h⟩
  · cases h

theorem parseNumber_inI64 {n : Int} (h : parseNumber cs = .ok (n, rest)) :
    InI64 n := by
  obtain ⟨_, hnum⟩ := ite_error_ok h
  obtain ⟨hrange, hread⟩ := ite_ok_error hnum
  cases hread
  exact hrange

theorem storable_insertEntry {key : String} {entries : List (String × JsonValue)}
    (hval : value.Storable) (h : (JsonValue.object entries).Storable) :
    (JsonValue.object (insertEntry key value entries)).Storable := by
  obtain ⟨hordered, hents⟩ := h
  refine ⟨hordered.insertEntry key value, storableEntries_iff.mpr ?_⟩
  intro e he
  rcases mem_insertEntry he with rfl | hold
  · exact hval
  · exact storableEntries_iff.mp hents e hold

theorem parse_storable_aux (fuel : Nat) :
    (∀ {cs rest : List Char} {v : JsonValue}, parseValue fuel cs = .ok (v, rest) → v.Storable) ∧
    (∀ {values : List JsonValue} {cs rest : List Char} {v : JsonValue},
      (∀ x ∈ values, x.Storable) → parseElements fuel values cs = .ok (v, rest) → v.Storable) ∧
    (∀ {entries : List (String × JsonValue)} {cs rest : List Char} {v : JsonValue},
      (JsonValue.object entries).Storable → parseMembers fuel entries cs = .ok (v, rest) →
        v.Storable) := by
  induction fuel with
  | zero =>
    refine ⟨?_, ?_, ?_⟩
    · intro cs rest v h
      cases h
    · intro values cs rest v _ h
      cases h
    · intro entries cs rest v _ h
      cases h
  | succ fuel ih =>
    obtain ⟨ihvalue, ihelements, ihmembers⟩ := ih
    refine ⟨?_, ?_, ?_⟩
    · intro cs rest v h
      unfold parseValue at h
      split at h
      · cases h
      · rw [parseLiteral_ok h]
        trivial
      · rw [parseLiteral_ok h]
        trivial
      · rw [parseLiteral_ok h]
        trivial
      · cases hstring : parseString ('"' :: ‹List Char›) with
        | error e => rw [hstring] at h; cases h
        | ok r => rw [hstring] at h; cases h; trivial
      · exact ihelements (forall_mem_nil _) h
      · exact ihmembers ⟨List.Pairwise.nil, trivial⟩ h
      · rename_i c tail _ _ _ _ _ _ _
        split at h
        · cases hnum : parseNumber (c :: tail) with
          | error e => rw [hnum] at h; cases h
          | ok r =>
            rw [hnum] at h
            cases h
            exact parseNumber_inI64 hnum
        · cases h
    · intro values cs rest v hvals h
      have hdone : ∀ {items : List JsonValue}, (∀ x ∈ items, x.Storable) →
          (JsonValue.array items.reverse).Storable := fun hitems =>
        storable_array fun x hx => hitems x (mem_reverse.mp hx)
      unfold parseElements at h
      split at h
      · cases h
        exact hdone hvals
      · split at h
        · cases h
        · rename_i value after hval
          have hmore : ∀ x ∈ value :: values, x.Storable := by
            intro x hx
            rcases mem_cons.mp hx with rfl | hx
            · exact ihvalue hval
            · exact hvals x hx
          split at h
          · cases h
            exact hdone hmore
          · split at h
            · cases h
            · exact ihelements hmore h
    · intro entries cs rest v hents h
      unfold parseMembers at h
      split at h
      · cases h
        exact hents
      · split at h
        · cases h
        · split at h
          · cases h
          · split at h
            · cases h
            · rename_i value after hval
              have hmore : ∀ key, (JsonValue.object (insertEntry key value entries)).Storable :=
                fun key => storable_insertEntry (ihvalue hval) hents
              split at h
              · cases h
                exact hmore _
              · split at h
                · cases h
                · exact ihmembers (hmore _) h

end Parser

theorem JsonValue.parse_storable {source : List Char} (h : JsonValue.parse source = .ok value) :
    value.Storable := by
  unfold JsonValue.parse at h
  split at h
  · cases h
  · rename_i v rest hparse
    split at h
    · cases h
      exact (Parser.parse_storable_aux _).1 hparse
    · cases h

end DbClinic.Runtime
