import DbClinic.Runtime.JsonGrammar

/-!
The parser of the runtime against the grammar: it returns the value of a tree without
pairs of surrogates, it fails on a tree with one, and what it returns is the value of
a tree. It takes the liberties of a lenient reader.
-/

namespace DbClinic.Runtime

open List

namespace Parser

open JsonGrammar

variable {rest cs digits ws : List Char} {c : Char} {n : Nat}

theorem skipWhitespace_blank (h : Blank ws) (cs : List Char) :
    skipWhitespace (ws ++ cs) = skipWhitespace cs := by
  apply dropWhile_append_of_pos
  intro c hc
  rcases h c hc with rfl | rfl | rfl | rfl <;> rfl

theorem skipWhitespace_split (cs : List Char) : ∃ ws, Blank ws ∧ cs = ws ++ skipWhitespace cs := by
  refine ⟨cs.takeWhile _, fun c hc => ?_, takeWhile_append_dropWhile.symm⟩
  have hblank := all_eq_true.mp all_takeWhile c hc
  simpa [or_assoc] using hblank

theorem skipWhitespace_stop (h : Blank ws) (hc : StartsValue c ∨ c = ']') (rest : List Char) :
    skipWhitespace (ws ++ c :: rest) = c :: rest := by
  rw [skipWhitespace_blank h]
  rcases hc with hc | rfl
  · exact skipWhitespace_cons hc rest
  · rfl

theorem endsNumber_blank (h : Blank ws) (hrest : EndsNumber rest) :
    EndsNumber (ws ++ rest) := by
  cases ws with
  | nil => exact hrest
  | cons c ws =>
    apply endsNumber_cons
    rcases h c mem_cons_self with rfl | rfl | rfl | rfl <;> rfl

/-! What a reader of a tree gives: its value, or an error where a character is
written as a pair of surrogates. -/

def Gives {α : Type} (paired : Prop) (value : α) (rest : List Char) (result : Result α) : Prop :=
  (¬ paired → result = .ok (value, rest)) ∧ (paired → ∃ e, result = .error e)

def Paired (features : List Feature) : Prop := Feature.surrogatePair ∈ features

theorem paired_of_mem {features : List Feature} {f : Feature} (h : f ∈ features)
    (heq : f = .surrogatePair) : Paired features := by
  rw [heq] at h
  exact h

theorem not_paired_plain (c : Char) : ¬ Paired (Item.plain c).features := by
  change Feature.surrogatePair ∉ if c.toNat < 0x20 then [Feature.controlCharacter] else []
  split <;> simp

variable {value fuel : Nat} {letter : Char} {items : List Item}

theorem parseHex_digits (h : hexNumber value digits = some n) (rest : List Char) :
    parseHex digits.length value (digits ++ rest) = .ok (n, rest) := by
  induction digits generalizing value with
  | nil =>
    cases h
    rfl
  | cons c digits ih =>
    unfold hexNumber at h
    rw [foldlM_cons] at h
    cases hc : hexValue c with
    | none =>
      rw [hc] at h
      cases h
    | some d =>
      rw [hc] at h
      simp only [cons_append, length_cons, parseHex, hc]
      exact ih h

theorem parseHex_sound {count : Nat} (h : parseHex count value cs = .ok (n, rest)) :
    ∃ digits, digits.length = count ∧ hexNumber value digits = some n ∧ cs = digits ++ rest := by
  induction count generalizing value cs with
  | zero =>
    cases h
    exact ⟨[], rfl, rfl, rfl⟩
  | succ count ih =>
    cases cs with
    | nil => cases h
    | cons c cs =>
      rw [parseHex] at h
      split at h
      · rename_i d hd
        obtain ⟨digits, hlen, hnum, rfl⟩ := ih h
        refine ⟨c :: digits, by rw [length_cons, hlen], ?_, rfl⟩
        unfold hexNumber
        rw [foldlM_cons, hd]
        exact hnum
      · cases h

theorem parseUnicodeEscape_digits (h : HexFour digits n) (rest : List Char) :
    parseUnicodeEscape (digits ++ rest) =
      if n.isValidChar then .ok (Char.ofNat n, rest) else fail "invalid unicode scalar value" := by
  have hhex := parseHex_digits h.2 rest
  rw [h.1] at hhex
  unfold parseUnicodeEscape
  rw [hhex]

theorem parseEscape_short (h : (letter, c) ∈ escapes) (rest : List Char) :
    parseEscape (letter :: rest) = .ok (c, rest) := by
  simp only [escapes, mem_cons, Prod.mk.injEq, not_mem_nil, or_false] at h
  rcases h with ⟨rfl, rfl⟩ | ⟨rfl, rfl⟩ | ⟨rfl, rfl⟩ | ⟨rfl, rfl⟩ | ⟨rfl, rfl⟩ | ⟨rfl, rfl⟩ |
    ⟨rfl, rfl⟩ | ⟨rfl, rfl⟩ <;> rfl

theorem parseEscape_u (cs : List Char) : parseEscape ('u' :: cs) = parseUnicodeEscape cs := rfl

theorem parseStringFrom_error {e : JsonError} (h : parseEscape cs = .error e) (fuel : Nat)
    (before : List Char) : parseStringFrom (fuel + 1) before ('\\' :: cs) = .error e := by
  rw [parseStringFrom, if_neg (by decide), if_pos rfl, h]

theorem parseStringFrom_item {item : Item} (h : item.WellFormed) (fuel : Nat)
    (before rest : List Char) :
    (¬ Paired item.features →
      parseStringFrom (fuel + 1) before (item.text ++ rest) =
        parseStringFrom fuel (item.value :: before) rest) ∧
    (Paired item.features →
      ∃ e, parseStringFrom (fuel + 1) before (item.text ++ rest) = .error e) := by
  cases item with
  | plain c =>
    exact ⟨fun _ => parseStringFrom_plain h.1 h.2 fuel before rest,
      fun hmem => absurd hmem (not_paired_plain c)⟩
  | escape letter c =>
    refine ⟨fun _ => ?_, fun hmem => by cases hmem⟩
    exact parseStringFrom_escape (parseEscape_short h rest) fuel before
  | unicode digits n =>
    refine ⟨fun _ => ?_, fun hmem => by cases hmem⟩
    have hescape := parseUnicodeEscape_digits h.1 rest
    rw [if_pos h.2, ← parseEscape_u] at hescape
    exact parseStringFrom_escape hescape fuel before
  | pair digits digits' high low =>
    refine ⟨fun hnot => absurd mem_cons_self hnot, fun _ => ?_⟩
    obtain ⟨hdigits, -, hhigh, -⟩ := h
    have hinvalid : ¬ high.isValidChar := by
      unfold Nat.isValidChar
      omega
    have hescape := parseUnicodeEscape_digits hdigits ('\\' :: 'u' :: digits' ++ rest)
    rw [if_neg hinvalid, ← parseEscape_u] at hescape
    have htext : (Item.pair digits digits' high low).text ++ rest =
        '\\' :: 'u' :: (digits ++ ('\\' :: 'u' :: digits' ++ rest)) := by
      simp [Item.text]
    rw [htext]
    exact ⟨_, parseStringFrom_error hescape fuel before⟩

theorem parseStringFrom_items (h : ∀ item ∈ items, item.WellFormed) (hfuel : items.length < fuel)
    (before rest : List Char) :
    Gives (Paired (items.flatMap Item.features))
      (String.ofList (before.reverse ++ items.map Item.value)) rest
      (parseStringFrom fuel before (items.flatMap Item.text ++ '"' :: rest)) := by
  induction items generalizing fuel before with
  | nil =>
    obtain ⟨fuel, rfl⟩ := Nat.exists_eq_add_of_lt hfuel
    refine ⟨fun _ => by simp [parseStringFrom], fun hmem => by cases hmem⟩
  | cons item items ih =>
    obtain ⟨fuel, rfl⟩ := Nat.exists_eq_add_of_lt (Nat.lt_of_le_of_lt (Nat.zero_le _) hfuel)
    rw [length_cons] at hfuel
    have hitem := parseStringFrom_item (h item mem_cons_self) (0 + fuel) before
      (items.flatMap Item.text ++ '"' :: rest)
    have hlt : items.length < 0 + fuel := by omega
    have hrest := ih (fun i hi => h i (mem_cons_of_mem item hi)) hlt (item.value :: before)
    have hpaired : Paired ((item :: items).flatMap Item.features) ↔
        Paired item.features ∨ Paired (items.flatMap Item.features) := mem_append
    have htext : (item :: items).flatMap Item.text ++ '"' :: rest =
        item.text ++ (items.flatMap Item.text ++ '"' :: rest) := by
      rw [flatMap_cons, append_assoc]
    rw [htext]
    by_cases hmem : Paired item.features
    · exact ⟨fun hnot => absurd (hpaired.mpr (.inl hmem)) hnot, fun _ => hitem.2 hmem⟩
    · rw [hitem.1 hmem]
      refine ⟨fun hnot => ?_, fun hor => hrest.2 ((hpaired.mp hor).resolve_left hmem)⟩
      rw [hrest.1 fun hlater => hnot (hpaired.mpr (.inr hlater))]
      simp

theorem item_text_length (item : Item) : 0 < item.text.length := by
  cases item <;> simp [Item.text]

theorem length_le_items (items : List Item) :
    items.length ≤ (items.flatMap Item.text).length := by
  induction items with
  | nil => exact Nat.le_refl _
  | cons item items ih =>
    have hitem := item_text_length item
    rw [flatMap_cons, length_append, length_cons]
    omega

theorem parseString_items (h : ∀ item ∈ items, item.WellFormed) (rest : List Char) :
    Gives (Paired (items.flatMap Item.features)) (stringValue items) rest
      (parseString (stringText items ++ rest)) := by
  have hlen := length_le_items items
  have hbody : stringText items ++ rest = '"' :: (items.flatMap Item.text ++ '"' :: rest) := by
    simp [stringText]
  have hfuel : items.length < (items.flatMap Item.text ++ '"' :: rest).length + 1 := by
    simp only [length_append, length_cons]
    omega
  have hitems := parseStringFrom_items h hfuel [] rest
  rw [hbody]
  unfold parseString
  rw [expect_self]
  exact hitems

theorem span_digits (h : ∀ c ∈ digits, c.isDigit = true) (hrest : EndsNumber rest) :
    (digits ++ rest).takeWhile Char.isDigit = digits ∧
      (digits ++ rest).dropWhile Char.isDigit = rest := by
  have hstop : rest.takeWhile Char.isDigit = [] ∧ rest.dropWhile Char.isDigit = rest := by
    cases rest with
    | nil => exact ⟨rfl, rfl⟩
    | cons c rest =>
      have hc : c.isDigit = false := hrest c rfl
      simp [hc]
  rw [takeWhile_append_of_pos h, dropWhile_append_of_pos h, hstop.1, hstop.2]
  exact ⟨append_nil _, rfl⟩

theorem parseNumber_text {negative : Bool} (hne : digits ≠ [])
    (hall : ∀ c ∈ digits, c.isDigit = true) (hrange : InI64 (numberValue negative digits))
    (hrest : EndsNumber rest) : parseNumber (numberText negative digits ++ rest) =
      .ok (numberValue negative digits, rest) := by
  obtain ⟨htake, hdrop⟩ := span_digits hall hrest
  cases negative with
  | true =>
    unfold parseNumber
    simp only [numberText, if_true, cons_append]
    rw [htake, hdrop, if_neg hne]
    exact if_pos hrange
  | false =>
    obtain ⟨d, ds, rfl⟩ := exists_cons_of_ne_nil hne
    have hd : d.isDigit = true := hall d mem_cons_self
    unfold parseNumber
    split
    rename_i sign cs hsplit
    split at hsplit
    · rename_i after heq
      cases heq
      cases hd
    cases hsplit
    dsimp only [numberText]
    rw [if_neg Bool.false_ne_true, htake, hdrop, if_neg hne]
    exact if_pos hrange

theorem numberText_head (negative : Bool) (hne : digits ≠ [])
    (hall : ∀ c ∈ digits, c.isDigit = true) :
    ∃ c cs, numberText negative digits = c :: cs ∧ (c = '-' ∨ c.isDigit = true) := by
  cases negative with
  | true => exact ⟨'-', digits, rfl, .inl rfl⟩
  | false =>
    obtain ⟨d, ds, rfl⟩ := exists_cons_of_ne_nil hne
    exact ⟨d, ds, rfl, .inr (hall d mem_cons_self)⟩

theorem tree_head {tree : Tree} (h : tree.WellFormed) :
    ∃ c cs, tree.text = c :: cs ∧ StartsValue c := by
  cases tree with
  | null => exact ⟨'n', _, rfl, by decide⟩
  | bool value => cases value <;> exact ⟨_, _, rfl, by decide⟩
  | number negative digits =>
    obtain ⟨c, cs, heq, hc⟩ := numberText_head negative h.1 h.2.1
    exact ⟨c, cs, heq, startsValue_number hc⟩
  | string items => exact ⟨'"', _, rfl, by decide⟩
  | array elements => exact ⟨'[', _, rfl, by decide⟩
  | object members => exact ⟨'\x7b', _, rfl, by decide⟩

theorem parseValue_blank (h : Blank ws) (fuel : Nat) (cs : List Char) :
    parseValue fuel (ws ++ cs) = parseValue fuel cs := by
  cases fuel with
  | zero => rfl
  | succ fuel => rw [parseValue, parseValue, skipWhitespace_blank h]

theorem parseValue_string (fuel : Nat) (items : List Item) (rest : List Char) :
    parseValue (fuel + 1) (stringText items ++ rest) =
      (parseString (stringText items ++ rest)).map fun r => (.string r.1, r.2) := rfl

theorem parseValue_array (fuel : Nat) (cs : List Char) :
    parseValue (fuel + 1) ('[' :: cs) = parseElements fuel [] cs := rfl

theorem parseValue_object (fuel : Nat) (cs : List Char) :
    parseValue (fuel + 1) ('\x7b' :: cs) = parseMembers fuel [] cs := rfl

section Steps

variable {fuel : Nat} {before after : List Char} {c : Char} {cs rest : List Char}
  {value : JsonValue}

/-- What the loop of `parse_array` does from an element on. -/
theorem parseElements_element (hbefore : Blank before) (hc : StartsValue c)
    (values : List JsonValue) : parseElements (fuel + 1) values (before ++ c :: cs) =
      (parseValue fuel (c :: cs)).bind fun r =>
        match skipWhitespace r.2 with
        | ']' :: rest => .ok (.array (r.1 :: values).reverse, rest)
        | rest =>
          match expect ',' rest with
          | .error e => .error e
          | .ok rest => parseElements fuel (r.1 :: values) rest := by
  rw [parseElements, skipWhitespace_stop hbefore (.inl hc)]
  split
  · rename_i hcons
    cases hcons
    exact absurd rfl hc.2.2.2.2
  · cases parseValue fuel (c :: cs) <;> rfl

theorem parseElements_fails (hbefore : Blank before) (hc : StartsValue c)
    (values : List JsonValue) {e : JsonError} (h : parseValue fuel (c :: cs) = .error e) :
    parseElements (fuel + 1) values (before ++ c :: cs) = .error e := by
  rw [parseElements_element hbefore hc, h]
  rfl

theorem parseElements_ends (hbefore : Blank before) (hc : StartsValue c)
    (values : List JsonValue) (hafter : Blank after)
    (h : parseValue fuel (c :: cs) = .ok (value, after ++ ']' :: rest)) :
    parseElements (fuel + 1) values (before ++ c :: cs) =
      .ok (.array (value :: values).reverse, rest) := by
  rw [parseElements_element hbefore hc, h]
  change (match skipWhitespace (after ++ ']' :: rest) with
    | ']' :: rest => _
    | rest => _) = _
  rw [skipWhitespace_stop hafter (.inr rfl)]
  rfl

theorem parseElements_continues (hbefore : Blank before) (hc : StartsValue c)
    (values : List JsonValue) (hafter : Blank after)
    (h : parseValue fuel (c :: cs) = .ok (value, after ++ ',' :: rest)) :
    parseElements (fuel + 1) values (before ++ c :: cs) =
      parseElements fuel (value :: values) rest := by
  have hcomma : StartsValue ',' := by decide
  rw [parseElements_element hbefore hc, h]
  change (match skipWhitespace (after ++ ',' :: rest) with
    | ']' :: rest => _
    | rest => _) = _
  rw [skipWhitespace_stop hafter (.inl hcomma)]
  rfl

section Members

variable {key : List Item} {colon : List Char} (entries : List (String × JsonValue))

/-- What the loop of `parse_object` does from a key on. -/
theorem parseMembers_key (hbefore : Blank before) (hcolon : Blank colon)
    (hkey : parseString (stringText key ++ (colon ++ ':' :: cs)) =
      .ok (stringValue key, colon ++ ':' :: cs)) :
    parseMembers (fuel + 1) entries (before ++ (stringText key ++ (colon ++ ':' :: cs))) =
      (parseValue fuel cs).bind fun r =>
        match skipWhitespace r.2 with
        | '\x7d' :: rest => .ok (.object (insertEntry (stringValue key) r.1 entries), rest)
        | rest =>
          match expect ',' rest with
          | .error e => .error e
          | .ok rest => parseMembers fuel (insertEntry (stringValue key) r.1 entries) rest := by
  have hquote : StartsValue '"' := by decide
  have hstop : StartsValue ':' := by decide
  have hskip : skipWhitespace (before ++ (stringText key ++ (colon ++ ':' :: cs))) =
      stringText key ++ (colon ++ ':' :: cs) := skipWhitespace_stop hbefore (.inl hquote) _
  rw [parseMembers, hskip]
  split
  · rename_i hcons
    cases hcons
  · rw [hkey]
    dsimp only
    rw [skipWhitespace_stop hcolon (.inl hstop), expect_self]
    dsimp only
    cases parseValue fuel cs <;> rfl

variable {e : JsonError}

theorem parseMembers_key_fails (hbefore : Blank before)
    (hkey : parseString (stringText key ++ cs) = .error e) :
    parseMembers (fuel + 1) entries (before ++ (stringText key ++ cs)) = .error e := by
  have hquote : StartsValue '"' := by decide
  have hskip : skipWhitespace (before ++ (stringText key ++ cs)) = stringText key ++ cs :=
    skipWhitespace_stop hbefore (.inl hquote) _
  rw [parseMembers, hskip]
  split
  · rename_i hcons
    cases hcons
  · rw [hkey]

theorem parseMembers_fails (hbefore : Blank before) (hcolon : Blank colon)
    (hkey : parseString (stringText key ++ (colon ++ ':' :: cs)) =
      .ok (stringValue key, colon ++ ':' :: cs)) (h : parseValue fuel cs = .error e) :
    parseMembers (fuel + 1) entries (before ++ (stringText key ++ (colon ++ ':' :: cs))) =
      .error e := by
  rw [parseMembers_key entries hbefore hcolon hkey, h]
  rfl

theorem parseMembers_ends (hbefore : Blank before) (hcolon : Blank colon)
    (hkey : parseString (stringText key ++ (colon ++ ':' :: cs)) =
      .ok (stringValue key, colon ++ ':' :: cs)) (hafter : Blank after)
    (h : parseValue fuel cs = .ok (value, after ++ '\x7d' :: rest)) :
    parseMembers (fuel + 1) entries (before ++ (stringText key ++ (colon ++ ':' :: cs))) =
      .ok (.object (insertEntry (stringValue key) value entries), rest) := by
  have hclose : StartsValue '\x7d' := by decide
  rw [parseMembers_key entries hbefore hcolon hkey, h]
  change (match skipWhitespace (after ++ '\x7d' :: rest) with
    | '\x7d' :: rest => _
    | rest => _) = _
  rw [skipWhitespace_stop hafter (.inl hclose)]
  rfl

theorem parseMembers_continues (hbefore : Blank before) (hcolon : Blank colon)
    (hkey : parseString (stringText key ++ (colon ++ ':' :: cs)) =
      .ok (stringValue key, colon ++ ':' :: cs)) (hafter : Blank after)
    (h : parseValue fuel cs = .ok (value, after ++ ',' :: rest)) :
    parseMembers (fuel + 1) entries (before ++ (stringText key ++ (colon ++ ':' :: cs))) =
      parseMembers fuel (insertEntry (stringValue key) value entries) rest := by
  have hcomma : StartsValue ',' := by decide
  rw [parseMembers_key entries hbefore hcolon hkey, h]
  change (match skipWhitespace (after ++ ',' :: rest) with
    | '\x7d' :: rest => _
    | rest => _) = _
  rw [skipWhitespace_stop hafter (.inl hcomma)]
  rfl

end Members

end Steps

theorem not_paired_trailing (elements : Elements) : ¬ Paired elements.trailing := by
  cases elements <;> simp [Paired, Elements.trailing]

theorem not_paired_trailing_members (members : Members) : ¬ Paired members.trailing := by
  cases members <;> simp [Paired, Members.trailing]

theorem not_paired_number (digits : List Char) : ¬ Paired (numberFeatures digits) := by
  unfold numberFeatures Paired
  split <;> simp

mutual

/-- `parse_value` on a tree, whatever follows it. -/
theorem parseValue_tree : ∀ (tree : Tree), tree.WellFormed →
    ∀ (fuel : Nat) (rest : List Char), tree.text.length ≤ fuel → EndsNumber rest →
      Gives (Paired tree.features) tree.value rest (parseValue fuel (tree.text ++ rest))
  | .null, _, fuel, rest, hfuel, _ => by
    cases fuel with
    | zero => exact absurd hfuel (by decide)
    | succ fuel => exact ⟨fun _ => rfl, fun hmem => nomatch hmem⟩
  | .bool true, _, fuel, rest, hfuel, _ => by
    cases fuel with
    | zero => exact absurd hfuel (by decide)
    | succ fuel => exact ⟨fun _ => rfl, fun hmem => nomatch hmem⟩
  | .bool false, _, fuel, rest, hfuel, _ => by
    cases fuel with
    | zero => exact absurd hfuel (by decide)
    | succ fuel => exact ⟨fun _ => rfl, fun hmem => nomatch hmem⟩
  | .number negative digits, htree, fuel, rest, hfuel, hrest => by
    obtain ⟨c, cs, htext, hc⟩ := numberText_head negative htree.1 htree.2.1
    have hnum := parseNumber_text htree.1 htree.2.1 htree.2.2 hrest
    have hhead : (Tree.number negative digits).text = c :: cs := htext
    cases fuel with
    | zero =>
      rw [hhead] at hfuel
      cases hfuel
    | succ fuel =>
      refine ⟨fun _ => ?_, fun hmem => absurd hmem (not_paired_number digits)⟩
      rw [hhead, cons_append, parseValue_number hc, ← cons_append, ← htext, hnum]
      rfl
  | .string items, htree, fuel, rest, hfuel, _ => by
    cases fuel with
    | zero => cases hfuel
    | succ fuel =>
      have hitems := parseString_items htree rest
      refine ⟨fun hnot => ?_, fun hmem => ?_⟩
      · rw [Tree.text, parseValue_string, hitems.1 hnot]
        rfl
      · obtain ⟨e, he⟩ := hitems.2 hmem
        rw [Tree.text, parseValue_string, he]
        exact ⟨e, rfl⟩
  | .array elements, htree, fuel, rest, hfuel, _ => by
    cases fuel with
    | zero => cases hfuel
    | succ fuel =>
      have hlen : elements.text.length + 1 ≤ fuel := by
        simp only [Tree.text, length_cons, length_append, length_nil] at hfuel
        omega
      have helements := parseElements_text elements htree fuel [] rest hlen
      rw [Tree.text, cons_append, cons_append, append_assoc, parseValue_array]
      exact helements
  | .object members, htree, fuel, rest, hfuel, _ => by
    cases fuel with
    | zero => cases hfuel
    | succ fuel =>
      have hlen : members.text.length + 1 ≤ fuel := by
        simp only [Tree.text, length_cons, length_append, length_nil] at hfuel
        omega
      have hmembers := parseMembers_text members htree fuel [] rest hlen
      rw [Tree.text, cons_append, cons_append, append_assoc, parseValue_object]
      exact hmembers

theorem parseElements_text : ∀ (elements : Elements), elements.WellFormed →
    ∀ (fuel : Nat) (values : List JsonValue) (rest : List Char),
      elements.text.length + 1 ≤ fuel →
      Gives (Paired elements.features) (.array (values.reverse ++ elements.values)) rest
        (parseElements fuel values (elements.text ++ ']' :: rest))
  | .blank ws, hws, fuel, values, rest, hfuel => by
    cases fuel with
    | zero => cases hfuel
    | succ fuel =>
      refine ⟨fun _ => ?_, fun hmem => nomatch hmem⟩
      rw [Elements.text, parseElements, skipWhitespace_stop hws (.inr rfl), Elements.values,
        append_nil]
      rfl
  | .last before element after, h, fuel, values, rest, hfuel => by
    cases fuel with
    | zero => cases hfuel
    | succ fuel =>
      obtain ⟨hbefore, helement, hafter⟩ := h
      obtain ⟨c, cs, hhead, hc⟩ := tree_head helement
      have hclose : EndsNumber (']' :: rest) := endsNumber_cons (by decide) rest
      simp only [Elements.text, length_append] at hfuel
      have hval := parseValue_tree element helement fuel (after ++ ']' :: rest) (by omega)
        (endsNumber_blank hafter hclose)
      rw [hhead, cons_append] at hval
      have htext : (Elements.last before element after).text ++ ']' :: rest =
          before ++ c :: (cs ++ (after ++ ']' :: rest)) := by
        simp only [Elements.text, hhead, append_assoc, cons_append]
      rw [htext]
      refine ⟨fun hnot => ?_, fun hmem => ?_⟩
      · rw [parseElements_ends hbefore hc values hafter (hval.1 hnot), reverse_cons]
        rfl
      · obtain ⟨e, he⟩ := hval.2 hmem
        exact ⟨e, parseElements_fails hbefore hc values he⟩
  | .more before element after more, h, fuel, values, rest, hfuel => by
    cases fuel with
    | zero => cases hfuel
    | succ fuel =>
      obtain ⟨hbefore, helement, hafter, hmore⟩ := h
      obtain ⟨c, cs, hhead, hc⟩ := tree_head helement
      have hcomma : EndsNumber (',' :: (more.text ++ ']' :: rest)) :=
        endsNumber_cons (by decide) _
      simp only [Elements.text, length_append, length_cons] at hfuel
      have hval := parseValue_tree element helement fuel
        (after ++ ',' :: (more.text ++ ']' :: rest)) (by omega)
        (endsNumber_blank hafter hcomma)
      have hnext := parseElements_text more hmore fuel (element.value :: values) rest (by omega)
      rw [hhead, cons_append] at hval
      have htext : (Elements.more before element after more).text ++ ']' :: rest =
          before ++ c :: (cs ++ (after ++ ',' :: (more.text ++ ']' :: rest))) := by
        simp only [Elements.text, hhead, append_assoc, cons_append]
      have hpaired : Paired (Elements.more before element after more).features ↔
          Paired element.features ∨ Paired more.features := by
        have htrailing := not_paired_trailing more
        unfold Paired at htrailing ⊢
        simp only [Elements.features, mem_append, htrailing, false_or]
      rw [htext]
      by_cases hmem : Paired element.features
      · obtain ⟨e, he⟩ := hval.2 hmem
        exact ⟨fun hnot => absurd (hpaired.mpr (.inl hmem)) hnot,
          fun _ => ⟨e, parseElements_fails hbefore hc values he⟩⟩
      · rw [parseElements_continues hbefore hc values hafter (hval.1 hmem)]
        refine ⟨fun hnot => ?_, fun hor => hnext.2 ((hpaired.mp hor).resolve_left hmem)⟩
        rw [hnext.1 fun hlater => hnot (hpaired.mpr (.inr hlater)), reverse_cons,
          append_assoc]
        rfl

theorem parseMembers_text : ∀ (members : Members), members.WellFormed →
    ∀ (fuel : Nat) (entries : List (String × JsonValue)) (rest : List Char),
      members.text.length + 1 ≤ fuel →
      Gives (Paired members.features)
        (.object (members.entries.foldl (fun map e => insertEntry e.1 e.2 map) entries)) rest
        (parseMembers fuel entries (members.text ++ '\x7d' :: rest))
  | .blank ws, hws, fuel, entries, rest, hfuel => by
    cases fuel with
    | zero => cases hfuel
    | succ fuel =>
      have hclose : StartsValue '\x7d' := by decide
      refine ⟨fun _ => ?_, fun hmem => nomatch hmem⟩
      rw [Members.text, parseMembers, skipWhitespace_stop hws (.inl hclose)]
      rfl
  | .last before key colon colon' member after, h, fuel, entries, rest, hfuel => by
    cases fuel with
    | zero => cases hfuel
    | succ fuel =>
      obtain ⟨hbefore, hkey, hcolon, hcolon', hmember, hafter⟩ := h
      have hclose : EndsNumber ('\x7d' :: rest) := endsNumber_cons (by decide) rest
      simp only [Members.text, length_append, length_cons] at hfuel
      have hval := parseValue_tree member hmember fuel (after ++ '\x7d' :: rest) (by omega)
        (endsNumber_blank hafter hclose)
      rw [← parseValue_blank hcolon'] at hval
      have hstring := parseString_items hkey
        (colon ++ ':' :: (colon' ++ (member.text ++ (after ++ '\x7d' :: rest))))
      have htext : (Members.last before key colon colon' member after).text ++ '\x7d' :: rest =
          before ++ (stringText key ++
            (colon ++ ':' :: (colon' ++ (member.text ++ (after ++ '\x7d' :: rest))))) := by
        simp only [Members.text, append_assoc, cons_append]
      have hpaired : Paired (Members.last before key colon colon' member after).features ↔
          Paired (key.flatMap Item.features) ∨ Paired member.features := mem_append
      rw [htext]
      by_cases hmem : Paired (key.flatMap Item.features)
      · obtain ⟨e, he⟩ := hstring.2 hmem
        exact ⟨fun hnot => absurd (hpaired.mpr (.inl hmem)) hnot,
          fun _ => ⟨e, parseMembers_key_fails entries hbefore he⟩⟩
      have hkeyRead := hstring.1 hmem
      refine ⟨fun hnot => ?_, fun hor => ?_⟩
      · have hread := hval.1 fun hlater => hnot (hpaired.mpr (.inr hlater))
        rw [parseMembers_ends entries hbefore hcolon hkeyRead hafter hread]
        rfl
      · obtain ⟨e, he⟩ := hval.2 ((hpaired.mp hor).resolve_left hmem)
        exact ⟨e, parseMembers_fails entries hbefore hcolon hkeyRead he⟩
  | .more before key colon colon' member after more, h, fuel, entries, rest, hfuel => by
    cases fuel with
    | zero => cases hfuel
    | succ fuel =>
      obtain ⟨hbefore, hkey, hcolon, hcolon', hmember, hafter, hmore⟩ := h
      have hcomma : EndsNumber (',' :: (more.text ++ '\x7d' :: rest)) :=
        endsNumber_cons (by decide) _
      simp only [Members.text, length_append, length_cons] at hfuel
      have hval := parseValue_tree member hmember fuel
        (after ++ ',' :: (more.text ++ '\x7d' :: rest)) (by omega)
        (endsNumber_blank hafter hcomma)
      rw [← parseValue_blank hcolon'] at hval
      have hstring := parseString_items hkey (colon ++ ':' :: (colon' ++ (member.text ++
        (after ++ ',' :: (more.text ++ '\x7d' :: rest)))))
      have hnext := parseMembers_text more hmore fuel
        (insertEntry (stringValue key) member.value entries) rest (by omega)
      have htext : (Members.more before key colon colon' member after more).text ++
          '\x7d' :: rest = before ++ (stringText key ++ (colon ++ ':' :: (colon' ++
            (member.text ++ (after ++ ',' :: (more.text ++ '\x7d' :: rest)))))) := by
        simp only [Members.text, append_assoc, cons_append]
      have hpaired : Paired (Members.more before key colon colon' member after more).features ↔
          Paired (key.flatMap Item.features) ∨ Paired member.features ∨
            Paired more.features := by
        have htrailing := not_paired_trailing_members more
        unfold Paired at htrailing ⊢
        simp only [Members.features, mem_append, htrailing, false_or]
      rw [htext]
      by_cases hmem : Paired (key.flatMap Item.features)
      · obtain ⟨e, he⟩ := hstring.2 hmem
        exact ⟨fun hnot => absurd (hpaired.mpr (.inl hmem)) hnot,
          fun _ => ⟨e, parseMembers_key_fails entries hbefore he⟩⟩
      have hkeyRead := hstring.1 hmem
      by_cases hmem' : Paired member.features
      · obtain ⟨e, he⟩ := hval.2 hmem'
        exact ⟨fun hnot => absurd (hpaired.mpr (.inr (.inl hmem'))) hnot,
          fun _ => ⟨e, parseMembers_fails entries hbefore hcolon hkeyRead he⟩⟩
      · rw [parseMembers_continues entries hbefore hcolon hkeyRead hafter (hval.1 hmem')]
        refine ⟨fun hnot => hnext.1 fun hlater => hnot (hpaired.mpr (.inr (.inr hlater))),
          fun hor => hnext.2 (((hpaired.mp hor).resolve_left hmem).resolve_left hmem')⟩

end

theorem escape_item (h : (letter, c) ∈ escapes) (rest : List Char) :
    ∃ item : Item, item.WellFormed ∧ ¬ Paired item.features ∧
      '\\' :: letter :: rest = item.text ++ rest ∧ c = item.value :=
  ⟨.escape letter c, h, not_mem_nil, rfl, rfl⟩

theorem parseEscape_sound (h : parseEscape cs = .ok (c, rest)) :
    ∃ item : Item, item.WellFormed ∧ ¬ Paired item.features ∧ '\\' :: cs = item.text ++ rest ∧
      c = item.value := by
  unfold parseEscape at h
  split at h
  case h_9 after =>
      unfold parseUnicodeEscape at h
      split at h
      · cases h
      rename_i n behind hhex
      split at h
      · rename_i hvalid
        cases h
        obtain ⟨digits, hlen, hnum, rfl⟩ := parseHex_sound hhex
        exact ⟨.unicode digits n, ⟨⟨hlen, hnum⟩, hvalid⟩, not_mem_nil, rfl, rfl⟩
      · cases h
  case h_10 => cases h
  case h_11 => cases h
  all_goals
    cases h
    exact escape_item (by decide) _

theorem parseStringFrom_sound {before : List Char} {value : String}
    (h : parseStringFrom fuel before cs = .ok (value, rest)) :
    ∃ items : List Item, (∀ item ∈ items, item.WellFormed) ∧
      ¬ Paired (items.flatMap Item.features) ∧
      cs = items.flatMap Item.text ++ '"' :: rest ∧
      value = String.ofList (before.reverse ++ items.map Item.value) := by
  induction fuel generalizing before cs with
  | zero => cases h
  | succ fuel ih =>
    cases cs with
    | nil => cases h
    | cons c cs =>
      rw [parseStringFrom] at h
      split at h
      · rename_i hquote
        cases h
        subst hquote
        exact ⟨[], forall_mem_nil _, not_mem_nil, rfl, by simp⟩
      rename_i hquote
      split at h
      · rename_i hslash
        subst hslash
        split at h
        · rename_i escaped after hescape
          obtain ⟨item, hitem, hpair, htext, rfl⟩ := parseEscape_sound hescape
          obtain ⟨items, hitems, hpairs, rfl, rfl⟩ := ih h
          refine ⟨item :: items, forall_mem_cons.mpr ⟨hitem, hitems⟩, ?_, ?_, by simp⟩
          · unfold Paired at hpair hpairs ⊢
            rw [flatMap_cons, mem_append, not_or]
            exact ⟨hpair, hpairs⟩
          · rw [htext, flatMap_cons, append_assoc]
        · cases h
      · rename_i hslash
        obtain ⟨items, hitems, hpairs, rfl, rfl⟩ := ih h
        refine ⟨.plain c :: items, forall_mem_cons.mpr ⟨⟨hquote, hslash⟩, hitems⟩, ?_, rfl,
          by simp [Item.value]⟩
        unfold Paired at hpairs ⊢
        rw [flatMap_cons, mem_append, not_or]
        exact ⟨not_paired_plain c, hpairs⟩

theorem expect_ok (h : expect c cs = .ok rest) :
    cs = c :: rest := by
  unfold expect at h
  split at h
  · split at h
    · rename_i heq
      cases h
      rw [heq]
    · cases h
  · cases h

theorem parseString_sound {value : String} (h : parseString cs = .ok (value, rest)) :
    ∃ items : List Item, (∀ item ∈ items, item.WellFormed) ∧
      ¬ Paired (items.flatMap Item.features) ∧ cs = stringText items ++ rest ∧
      value = stringValue items := by
  unfold parseString at h
  split at h
  · cases h
  rename_i after hquote
  obtain rfl := expect_ok hquote
  obtain ⟨items, hitems, hpairs, rfl, rfl⟩ := parseStringFrom_sound h
  exact ⟨items, hitems, hpairs, by simp [stringText], rfl⟩

theorem parseNumber_sound {value : Int} (h : parseNumber cs = .ok (value, rest)) :
    ∃ negative digits, digits ≠ [] ∧ (∀ c ∈ digits, c.isDigit = true) ∧
      InI64 (numberValue negative digits) ∧ cs = numberText negative digits ++ rest ∧
      value = numberValue negative digits := by
  unfold parseNumber at h
  split at h
  rename_i negative after hsplit
  have htext : ∀ digits behind, after = digits ++ behind →
      cs = numberText negative digits ++ behind := by
    rintro digits behind rfl
    split at hsplit <;> cases hsplit <;> rfl
  have hdigits : ∀ c ∈ after.takeWhile Char.isDigit, c.isDigit = true :=
    all_eq_true.mp all_takeWhile
  have hread := htext _ _ (takeWhile_append_dropWhile (p := Char.isDigit)).symm
  dsimp only at h
  generalize after.takeWhile Char.isDigit = digits at h hdigits hread
  split at h
  · cases h
  rename_i hne
  change (if InI64 (numberValue negative digits) then
    Except.ok (numberValue negative digits, _) else _) = _ at h
  split at h
  · rename_i hrange
    cases h
    exact ⟨negative, digits, hne, hdigits, hrange, hread, rfl⟩
  · cases h

theorem parseLiteral_sound {expected : String} {value found : JsonValue}
    (h : parseLiteral expected value cs = .ok (found, rest)) :
    cs = expected.toList ++ rest ∧ found = value := by
  unfold parseLiteral at h
  split at h
  · rename_i htake
    cases h
    exact ⟨by rw [← htake, take_append_drop], rfl⟩
  · cases h

theorem map_eq_ok {α β : Type} {result : Except JsonError α} {f : α → β} {b : β}
    (h : result.map f = .ok b) : ∃ a, result = .ok a ∧ b = f a := by
  cases result with
  | error e => cases h
  | ok a =>
    cases h
    exact ⟨a, rfl, rfl⟩

mutual

theorem parseValue_sound : ∀ (fuel : Nat) (cs rest : List Char) (value : JsonValue),
    parseValue fuel cs = .ok (value, rest) →
      ∃ before, ∃ tree : Tree, Blank before ∧ tree.WellFormed ∧ ¬ Paired tree.features ∧
        cs = before ++ (tree.text ++ rest) ∧ value = tree.value
  | 0, _, _, _, h => by cases h
  | fuel + 1, cs, rest, value, h => by
    obtain ⟨before, hbefore, hsplit⟩ := skipWhitespace_split cs
    rw [parseValue] at h
    have hnot : ¬ Paired [] := not_mem_nil
    split at h
    case h_1 => cases h
    case h_2 after heq =>
        obtain ⟨htext, rfl⟩ := parseLiteral_sound h
        exact ⟨before, .null, hbefore, trivial, hnot, by rw [hsplit, heq, htext]; rfl, rfl⟩
    case h_3 after heq =>
        obtain ⟨htext, rfl⟩ := parseLiteral_sound h
        exact ⟨before, .bool true, hbefore, trivial, hnot, by rw [hsplit, heq, htext]; rfl, rfl⟩
    case h_4 after heq =>
        obtain ⟨htext, rfl⟩ := parseLiteral_sound h
        exact ⟨before, .bool false, hbefore, trivial, hnot, by rw [hsplit, heq, htext]; rfl, rfl⟩
    case h_5 after heq =>
        obtain ⟨⟨string, behind⟩, hstring, hval⟩ := map_eq_ok h
        obtain ⟨items, hitems, hpairs, htext, rfl⟩ := parseString_sound hstring
        cases hval
        exact ⟨before, .string items, hbefore, hitems, hpairs, by rw [hsplit, heq, htext]; rfl,
          rfl⟩
    case h_6 after heq =>
        obtain ⟨elements, helements, hpairs, rfl, rfl⟩ := parseElements_sound fuel _ _ _ _ h
        refine ⟨before, .array elements, hbefore, helements, hpairs, ?_, rfl⟩
        rw [hsplit, heq]
        simp [Tree.text]
    case h_7 after heq =>
        obtain ⟨members, hmembers, hpairs, rfl, rfl⟩ := parseMembers_sound fuel _ _ _ _ h
        refine ⟨before, .object members, hbefore, hmembers, hpairs, ?_, rfl⟩
        rw [hsplit, heq]
        simp [Tree.text]
    case h_8 c after _ _ _ _ _ _ heq =>
        split at h
        · obtain ⟨⟨number, behind⟩, hnum, hval⟩ := map_eq_ok h
          obtain ⟨negative, digits, hne, hall, hrange, htext, rfl⟩ := parseNumber_sound hnum
          cases hval
          exact ⟨before, .number negative digits, hbefore, ⟨hne, hall, hrange⟩,
            not_paired_number digits, by rw [hsplit, heq, htext]; rfl, rfl⟩
        · cases h

theorem parseElements_sound : ∀ (fuel : Nat) (values : List JsonValue) (cs rest : List Char)
    (value : JsonValue), parseElements fuel values cs = .ok (value, rest) →
      ∃ elements : Elements, elements.WellFormed ∧ ¬ Paired elements.features ∧
        cs = elements.text ++ ']' :: rest ∧ value = .array (values.reverse ++ elements.values)
  | 0, _, _, _, _, h => by cases h
  | fuel + 1, values, cs, rest, value, h => by
    obtain ⟨before, hbefore, hsplit⟩ := skipWhitespace_split cs
    rw [parseElements] at h
    split at h
    · rename_i after heq
      cases h
      refine ⟨.blank before, hbefore, not_mem_nil, by rw [hsplit, heq]; rfl, ?_⟩
      rw [Elements.values, append_nil]
    split at h
    · cases h
    rename_i first behind hfirst
    obtain ⟨inner, tree, hinner, htree, hpair, htext, rfl⟩ :=
      parseValue_sound fuel _ _ _ hfirst
    have hlead : Blank (before ++ inner) := forall_mem_append.mpr ⟨hbefore, hinner⟩
    obtain ⟨after, hafter, hbehind⟩ := skipWhitespace_split behind
    split at h
    · rename_i close heq
      cases h
      refine ⟨.last (before ++ inner) tree after, ⟨hlead, htree, hafter⟩, hpair, ?_, ?_⟩
      · rw [hsplit, htext, hbehind, heq]
        simp [Elements.text]
      · rw [reverse_cons]
        rfl
    · split at h
      · cases h
      rename_i next hnext
      obtain ⟨elements, helements, hpairs, rfl, rfl⟩ := parseElements_sound fuel _ _ _ _ h
      refine ⟨.more (before ++ inner) tree after elements, ⟨hlead, htree, hafter, helements⟩,
        ?_, ?_, ?_⟩
      · have htrailing := not_paired_trailing elements
        unfold Paired at hpair hpairs htrailing ⊢
        simp only [Elements.features, mem_append, hpair, hpairs, htrailing, or_self,
          not_false_eq_true]
      · rw [hsplit, htext, hbehind, expect_ok hnext]
        simp [Elements.text]
      · rw [reverse_cons, append_assoc]
        rfl

theorem parseMembers_sound : ∀ (fuel : Nat) (entries : List (String × JsonValue))
    (cs rest : List Char) (value : JsonValue), parseMembers fuel entries cs = .ok (value, rest) →
      ∃ members : Members, members.WellFormed ∧ ¬ Paired members.features ∧
        cs = members.text ++ '\x7d' :: rest ∧ value =
          .object (members.entries.foldl (fun map e => insertEntry e.1 e.2 map) entries)
  | 0, _, _, _, _, h => by cases h
  | fuel + 1, entries, cs, rest, value, h => by
    obtain ⟨before, hbefore, hsplit⟩ := skipWhitespace_split cs
    rw [parseMembers] at h
    split at h
    · rename_i after heq
      cases h
      exact ⟨.blank before, hbefore, not_mem_nil, by rw [hsplit, heq]; rfl, rfl⟩
    split at h
    · cases h
    rename_i keyText afterKey hkeyRead
    obtain ⟨key, hkey, hkeyPair, hkeyText, rfl⟩ := parseString_sound hkeyRead
    obtain ⟨colon, hcolon, hcolonSplit⟩ := skipWhitespace_split afterKey
    split at h
    · cases h
    rename_i afterColon hcolonRead
    rw [expect_ok hcolonRead] at hcolonSplit
    split at h
    · cases h
    rename_i first behind hfirst
    obtain ⟨colon', tree, hcolon', htree, hpair, htext, rfl⟩ :=
      parseValue_sound fuel _ _ _ hfirst
    obtain ⟨after, hafter, hbehind⟩ := skipWhitespace_split behind
    split at h
    · rename_i close heq
      cases h
      refine ⟨.last before key colon colon' tree after,
        ⟨hbefore, hkey, hcolon, hcolon', htree, hafter⟩, ?_, ?_, rfl⟩
      · unfold Paired at hpair hkeyPair ⊢
        simp only [Members.features, mem_append, hpair, hkeyPair, or_self,
          not_false_eq_true]
      · rw [hsplit, hkeyText, hcolonSplit, htext, hbehind, heq]
        simp [Members.text]
    · split at h
      · cases h
      rename_i next hnext
      obtain ⟨members, hmembers, hpairs, rfl, rfl⟩ := parseMembers_sound fuel _ _ _ _ h
      refine ⟨.more before key colon colon' tree after members,
        ⟨hbefore, hkey, hcolon, hcolon', htree, hafter, hmembers⟩, ?_, ?_, rfl⟩
      · have htrailing := not_paired_trailing_members members
        unfold Paired at hpair hkeyPair hpairs htrailing ⊢
        simp only [Members.features, mem_append, hpair, hkeyPair, hpairs, htrailing,
          or_self, not_false_eq_true]
      · rw [hsplit, hkeyText, hcolonSplit, htext, hbehind, expect_ok hnext]
        simp [Members.text]

end

end Parser

open JsonGrammar

theorem JsonValue.parse_text {before after : List Char} {tree : Tree} (hbefore : Blank before)
    (htree : tree.WellFormed) (hafter : Blank after) :
    (¬ Parser.Paired tree.features →
      JsonValue.parse (before ++ (tree.text ++ after)) = .ok tree.value) ∧
    (Parser.Paired tree.features →
      ∃ e, JsonValue.parse (before ++ (tree.text ++ after)) = .error e) := by
  have hnothing : Parser.EndsNumber [] := by
    intro c hc
    cases hc
  have hends := Parser.endsNumber_blank hafter hnothing
  have hskip := Parser.skipWhitespace_blank hafter []
  rw [append_nil] at hends hskip
  have hval := Parser.parseValue_tree tree htree
    (2 * (before ++ (tree.text ++ after)).length + 2) after
    (by simp only [length_append]; omega) hends
  rw [← Parser.parseValue_blank hbefore] at hval
  unfold JsonValue.parse
  refine ⟨fun hnot => ?_, fun hmem => ?_⟩
  · rw [hval.1 hnot]
    exact if_pos hskip
  · obtain ⟨e, he⟩ := hval.2 hmem
    rw [he]
    exact ⟨e, rfl⟩

theorem JsonValue.parse_eq_ok_iff (text : List Char) (value : JsonValue) :
    JsonValue.parse text = .ok value ↔ Reads (· ≠ .surrogatePair) text value := by
  constructor
  · intro h
    unfold JsonValue.parse at h
    split at h
    · cases h
    rename_i found rest hparse
    split at h
    · rename_i hskip
      cases h
      obtain ⟨before, tree, hbefore, htree, hpair, htext, rfl⟩ := Parser.parseValue_sound _ _ _ _ hparse
      obtain ⟨after, hafter, hrest⟩ := Parser.skipWhitespace_split rest
      rw [hskip, append_nil] at hrest
      exact ⟨before, tree, rest, hbefore, htree, hrest ▸ hafter,
        fun f hf heq => hpair (Parser.paired_of_mem hf heq), htext, rfl⟩
    · cases h
  · rintro ⟨before, tree, after, hbefore, htree, hafter, hfeatures, rfl, rfl⟩
    exact (parse_text hbefore htree hafter).1 fun hmem => hfeatures _ hmem rfl

/-- The parser reads a text as RFC 8259 does exactly when no reading of the text, by the
RFC or by a lenient reader, makes use of a feature that one of them has alone. -/
theorem JsonValue.parse_exact_iff (text : List Char) :
    (∀ value, JsonValue.parse text = .ok value ↔ Reads (· = .surrogatePair) text value) ↔
      ∀ value, Reads (· = .surrogatePair) text value ∨ Reads (· ≠ .surrogatePair) text value →
        Reads (fun _ => False) text value := by
  have hrfc : ∀ value, JsonValue.parse text = .ok value → Reads (· = .surrogatePair) text value →
      Reads (fun _ => False) text value := by
    rintro value hparse ⟨before, tree, after, hbefore, htree, hafter, hfeatures, rfl, rfl⟩
    have hpair : ¬ Parser.Paired tree.features := by
      intro hmem
      obtain ⟨e, he⟩ := (parse_text hbefore htree hafter).2 hmem
      rw [he] at hparse
      cases hparse
    exact ⟨before, tree, after, hbefore, htree, hafter,
      fun f hf => hpair (Parser.paired_of_mem hf (hfeatures f hf)), rfl, rfl⟩
  constructor
  · rintro h value (hreads | hreads)
    · exact hrfc value ((h value).mpr hreads) hreads
    · have hparse := (JsonValue.parse_eq_ok_iff text value).mpr hreads
      exact hrfc value hparse ((h value).mp hparse)
  · intro h value
    have hmono {allowed : Feature → Prop} (hreads : Reads (fun _ => False) text value) :
        Reads allowed text value := by
      obtain ⟨before, tree, after, hbefore, htree, hafter, hfeatures, htext, hval⟩ := hreads
      exact ⟨before, tree, after, hbefore, htree, hafter, fun f hf => (hfeatures f hf).elim,
        htext, hval⟩
    rw [JsonValue.parse_eq_ok_iff]
    exact ⟨fun hreads => hmono (h value (.inr hreads)), fun hreads => hmono (h value (.inl hreads))⟩

/-- A string with an escaped pair of surrogates, which the parser refuses. -/
theorem JsonValue.surrogate_pair_refused :
    Reads (· = .surrogatePair) "\"\\ud83d\\ude00\"".toList (.string "😀") ∧
      JsonValue.parse "\"\\ud83d\\ude00\"".toList =
        .error ⟨"invalid unicode scalar value"⟩ := by
  refine ⟨⟨[], .string [.pair "d83d".toList "de00".toList 0xd83d 0xde00], [],
    forall_mem_nil _, ?_, forall_mem_nil _, ?_, rfl, rfl⟩, rfl⟩
  · exact forall_mem_cons.mpr
      ⟨⟨⟨rfl, rfl⟩, ⟨rfl, rfl⟩, by decide, by decide⟩, forall_mem_nil _⟩
  · exact forall_mem_cons.mpr ⟨rfl, forall_mem_nil _⟩

example : JsonValue.parse "[01,]".toList = .ok (.array [.number 1]) := rfl

end DbClinic.Runtime
