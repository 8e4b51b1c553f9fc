import DbClinic.Gateway.PyJsonRoundTrip
import DbClinic.Lib.KeyMap

/-!
The configuration of a user: the functions of `db` that set and get its values. A
text is stored as characters, so a lone surrogate cannot be stored; a row belongs to
a user of the table `users`.
-/

namespace DbClinic.Gateway

open DbClinic.PyJson List

inductive DbError where
  | unicodeEncodeError
  | integrityError
  deriving DecidableEq

/-- The table `user_configs`, with the ids of the table `users`. -/
structure ConfigDb where
  users : List Int
  configs : KeyMap (Int × List Char) (List Char)
  references : ∀ e ∈ configs.entries, e.1.1 ∈ users

def encode : List CodePoint → Option (List Char)
  | [] => some []
  | c :: text =>
    match chr c, encode text with
    | some c, some text => some (c :: text)
    | _, _ => none

def decode (text : List Char) : List CodePoint := text.map ord

/-- `json_value` as it is bound: a string as it is, any other value dumped. -/
def jsonValue : Json → Option (List Char)
  | .str text => encode text
  | value => some (dumps value)

def setUserConfig (db : ConfigDb) (userId : Int) (key : List CodePoint) (value : Json) :
    Except DbError ConfigDb :=
  match encode key, jsonValue value with
  | some key, some text =>
    if h : userId ∈ db.users then
      .ok { users := db.users
            configs := db.configs.insert (userId, key) text
            references := by
              intro e he
              rcases mem_cons.mp he with rfl | he
              · exact h
              · exact db.references e (mem_of_mem_filter he) }
    else .error .integrityError
  | _, _ => .error .unicodeEncodeError

section Reads

variable (float : List Char → List Char)

def rowValue (text : List Char) : Json := (loads float text).getD (.str (decode text))

/-- `None` where there is no row. -/
def getUserConfig (db : ConfigDb) (userId : Int) (key : List CodePoint) : Except DbError Json :=
  match encode key with
  | some key =>
    match db.configs.get (userId, key) with
    | some text => .ok (rowValue float text)
    | none => .ok .none
  | none => .error .unicodeEncodeError

def getAllUserConfigs (db : ConfigDb) (userId : Int) : List (List CodePoint × Json) :=
  (db.configs.entries.filter fun row => decide (row.1.1 = userId)).foldl
    (fun result row => setItem (decode row.1.2) (rowValue float row.2) result) []

end Reads

/-- `entries.get(key)`. -/
def getItem {α : Type} (key : List CodePoint) : List (List CodePoint × α) → Option α
  | [] => none
  | (k, v) :: rest => if k = key then some v else getItem key rest

theorem getItem_setItem {α : Type} (key other : List CodePoint) (value : α)
    (entries : List (List CodePoint × α)) :
    getItem other (setItem key value entries) =
      if key = other then some value else getItem other entries := by
  induction entries with
  | nil => rfl
  | cons e rest ih =>
    obtain ⟨k, v⟩ := e
    rw [setItem]
    split
    · rename_i hk
      subst hk
      simp only [getItem]
      split <;> rfl
    · rename_i hk
      simp only [getItem, ih]
      split
      · rename_i hother
        rw [if_neg fun h => hk (hother.trans h.symm)]
      · rfl

theorem chr_ord (c : Char) : chr (ord c) = some c := by
  have hvalid : (ord c).val.isValidChar := by
    rw [ord_val]
    exact c.valid
  rw [chr, if_pos hvalid, ord_val, Char.ofNat_toNat]

theorem chr_eq_some {c : CodePoint} {d : Char} (h : chr c = some d) : ord d = c := by
  unfold chr at h
  split at h
  · rename_i hvalid
    cases h
    exact ord_ofNat hvalid c.isLt
  · cases h

theorem chr_isSome (c : CodePoint) : (chr c).isSome ↔ IsScalar c := by
  have hlt := c.isLt
  have hvalid : c.val.isValidChar ↔ IsScalar c := by
    unfold Nat.isValidChar IsScalar
    omega
  unfold chr
  split
  · rename_i h
    exact ⟨fun _ => hvalid.mp h, fun _ => rfl⟩
  · rename_i h
    exact ⟨fun hsome => (Bool.false_ne_true hsome).elim, fun hc => absurd (hvalid.mpr hc) h⟩

theorem encode_decode (text : List Char) : encode (decode text) = some text := by
  induction text with
  | nil => rfl
  | cons c text ih =>
    change (match chr (ord c), encode (decode text) with
      | some c, some text => some (c :: text)
      | _, _ => none) = _
    rw [chr_ord, ih]

theorem encode_eq_some {text : List CodePoint} {chars : List Char} :
    encode text = some chars ↔ decode chars = text := by
  constructor
  · intro h
    induction text generalizing chars with
    | nil =>
      cases h
      rfl
    | cons c text ih =>
      unfold encode at h
      split at h
      · rename_i d rest hc hrest
        cases h
        rw [decode, map_cons, chr_eq_some hc, ← decode, ih hrest]
      · cases h
  · rintro rfl
    exact encode_decode chars

theorem encode_isSome {text : List CodePoint} :
    (∃ chars, encode text = some chars) ↔ ∀ c ∈ text, IsScalar c := by
  induction text with
  | nil => exact ⟨fun _ c hc => (not_mem_nil hc).elim, fun _ => ⟨[], rfl⟩⟩
  | cons c text ih =>
    rw [forall_mem_cons, ← ih, ← chr_isSome, Option.isSome_iff_exists]
    constructor
    · rintro ⟨chars, h⟩
      unfold encode at h
      split at h
      · rename_i d rest hc hrest
        exact ⟨⟨d, hc⟩, ⟨rest, hrest⟩⟩
      · cases h
    · rintro ⟨⟨d, hc⟩, ⟨rest, hrest⟩⟩
      refine ⟨d :: rest, ?_⟩
      unfold encode
      rw [hc, hrest]

theorem decode_injective {text other : List Char} (h : decode text = decode other) :
    text = other := by
  have heq := encode_decode text
  rw [h, encode_decode other] at heq
  exact (Option.some.inj heq).symm

theorem decode_length (text : List Char) : (decode text).length = text.length :=
  length_map _

section Reads

variable (float : List Char → List Char)

theorem getItem_rows (key : List Char)
    (rows : List ((Int × List Char) × List Char)) (result : List (List CodePoint × Json))
    (h : ∀ row ∈ rows, row.1.2 ≠ key) :
    getItem (decode key) (rows.foldl
      (fun result row => setItem (decode row.1.2) (rowValue float row.2) result) result) =
        getItem (decode key) result := by
  induction rows generalizing result with
  | nil => rfl
  | cons row rows ih =>
    rw [foldl_cons, ih _ fun row hrow => h row (mem_cons_of_mem _ hrow),
      getItem_setItem, if_neg]
    exact fun heq => h row mem_cons_self (decode_injective heq)

theorem getItem_getAllUserConfigs (db : ConfigDb) (userId : Int) (key : List Char) :
    getItem (decode key) (getAllUserConfigs float db userId) =
      (db.configs.get (userId, key)).map (rowValue float) := by
  unfold getAllUserConfigs
  cases hget : db.configs.get (userId, key) with
  | none =>
    rw [getItem_rows]
    · rfl
    · intro row hrow heq
      obtain ⟨hmem, huser⟩ := mem_filter.mp hrow
      rw [decide_eq_true_eq] at huser
      have hkey : row.1 = (userId, key) := Prod.ext huser heq
      have hfound := (db.configs.get_eq_some_iff row.1 row.2).mpr hmem
      rw [hkey, hget] at hfound
      cases hfound
  | some text =>
    have hmem : ((userId, key), text) ∈ db.configs.entries :=
      (db.configs.get_eq_some_iff _ _).mp hget
    obtain ⟨before, after, hents⟩ := append_of_mem hmem
    have hnodup := db.configs.nodup
    rw [hents, map_append, map_cons, nodup_append, nodup_cons] at hnodup
    rw [hents, filter_append, filter_cons_of_pos (by simp), foldl_append,
      foldl_cons, getItem_rows, getItem_setItem, if_pos rfl]
    · rfl
    · intro row hrow heq
      obtain ⟨hafter, huser⟩ := mem_filter.mp hrow
      rw [decide_eq_true_eq] at huser
      have hkey : row.1 = (userId, key) := Prod.ext huser heq
      have hfst : row.1 ∈ after.map Prod.fst := mem_map_of_mem hafter
      rw [hkey] at hfst
      exact hnodup.2.1.1 hfst

variable {db db' : ConfigDb} {userId : Int} {value : Json} {text keyText : List Char}
variable {key : List CodePoint}

theorem getItem_getAllUserConfigs_none (db : ConfigDb) (userId : Int) (h : encode key = none) :
    getItem key (getAllUserConfigs float db userId) = none := by
  have hfold (rows : List ((Int × List Char) × List Char))
      (result : List (List CodePoint × Json)) :
      getItem key (rows.foldl
        (fun result row => setItem (decode row.1.2) (rowValue float row.2) result) result) =
          getItem key result := by
    induction rows generalizing result with
    | nil => rfl
    | cons row rows ih =>
      rw [foldl_cons, ih, getItem_setItem, if_neg]
      rintro rfl
      rw [encode_decode] at h
      cases h
  exact hfold _ []

theorem getUserConfig_eq (db : ConfigDb) (userId : Int) (key : List Char) :
    getUserConfig float db userId (decode key) =
      .ok (((db.configs.get (userId, key)).map (rowValue float)).getD .none) := by
  unfold getUserConfig
  rw [encode_decode]
  dsimp only
  cases db.configs.get (userId, key) <;> rfl

theorem setUserConfig_eq_ok (h : setUserConfig db userId key value = .ok db') :
    ∃ keyText text, encode key = some keyText ∧ jsonValue value = some text ∧
      db'.configs = db.configs.insert (userId, keyText) text := by
  unfold setUserConfig at h
  split at h
  · rename_i keyText text hkey htext
    split at h
    · cases h
      exact ⟨keyText, text, hkey, htext, rfl⟩
    · cases h
  · cases h

theorem setUserConfig_ok (huser : userId ∈ db.users) (hkey : encode key = some keyText)
    (htext : jsonValue value = some text) : ∃ db', setUserConfig db userId key value = .ok db' := by
  unfold setUserConfig
  rw [hkey, htext]
  dsimp only
  rw [dif_pos huser]
  exact ⟨_, rfl⟩

/-- The value of a key of a user is the one that was set, and every other value is
what it was. -/
structure Sets (db db' : ConfigDb) (userId : Int) (key : List CodePoint) (value : Json) :
    Prop where
  got : getUserConfig float db' userId key = .ok value
  listed : getItem key (getAllUserConfigs float db' userId) = some value
  others : ∀ user other, (user, other) ≠ (userId, key) →
    getUserConfig float db' user other = getUserConfig float db user other ∧
      getItem other (getAllUserConfigs float db' user) =
        getItem other (getAllUserConfigs float db user)

theorem others_of_insert (h : db'.configs = db.configs.insert (userId, keyText) text) {user : Int}
    {other : List CodePoint} (hne : (user, other) ≠ (userId, decode keyText)) :
    getUserConfig float db' user other = getUserConfig float db user other ∧
      getItem other (getAllUserConfigs float db' user) =
        getItem other (getAllUserConfigs float db user) := by
  cases hother : encode other with
  | none =>
    rw [getItem_getAllUserConfigs_none float db' user hother,
      getItem_getAllUserConfigs_none float db user hother]
    unfold getUserConfig
    rw [hother]
    exact ⟨rfl, rfl⟩
  | some otherText =>
    obtain rfl := encode_eq_some.mp hother
    have hrow : (user, otherText) ≠ (userId, keyText) := by
      intro heq
      obtain ⟨huser, htext⟩ := Prod.mk.inj heq
      exact hne (by rw [huser, htext])
    have hget : db'.configs.get (user, otherText) = db.configs.get (user, otherText) := by
      rw [h, KeyMap.get_insert_of_ne _ _ hrow]
    rw [getUserConfig_eq, getUserConfig_eq, getItem_getAllUserConfigs,
      getItem_getAllUserConfigs, hget]
    exact ⟨rfl, rfl⟩

theorem sets_iff (h : db'.configs = db.configs.insert (userId, keyText) text) :
    Sets float db db' userId (decode keyText) value ↔ rowValue float text = value := by
  have hget : db'.configs.get (userId, keyText) = some text := by
    rw [h, KeyMap.get_insert_self]
  constructor
  · intro hsets
    have hlisted := hsets.listed
    rw [getItem_getAllUserConfigs, hget] at hlisted
    exact Option.some.inj hlisted
  · rintro rfl
    refine ⟨?_, ?_, fun user other hne => others_of_insert float h hne⟩
    · rw [getUserConfig_eq, hget]
      rfl
    · rw [getItem_getAllUserConfigs, hget]
      rfl

theorem rowValue_str (chars : List Char) :
    rowValue float chars = .str (decode chars) ↔ loads float chars = none := by
  unfold rowValue
  constructor
  · intro h
    cases hloads : loads float chars with
    | none => rfl
    | some value =>
      rw [hloads] at h
      have hval : loads float chars = some (.str (decode chars)) := hloads.trans (congrArg _ h)
      have hlen := loads_str_length float hval
      rw [decode_length] at hlen
      exact absurd hlen (Nat.lt_irrefl _)
  · intro h
    rw [h]
    rfl

/-- The strings that are stored as themselves and read as themselves. -/
def ReadsAsItself (value : Json) : Prop :=
  ∀ text, value = .str text → ∃ chars, encode text = some chars ∧ loads float chars = none

theorem rowValue_jsonValue (hval : Representable float value ∨ ∃ text, value = .str text)
    (htext : jsonValue value = some text) :
    rowValue float text = value ↔ ReadsAsItself float value := by
  by_cases hstr : ∃ string, value = .str string
  · obtain ⟨string, rfl⟩ := hstr
    obtain rfl := encode_eq_some.mp htext
    rw [rowValue_str]
    constructor
    · rintro hloads other heq
      cases heq
      exact ⟨text, htext, hloads⟩
    · intro hreads
      obtain ⟨chars, hchars, hloads⟩ := hreads _ rfl
      rw [encode_decode] at hchars
      cases hchars
      exact hloads
  · have hdumps : jsonValue value = some (dumps value) := by
      cases value with
      | str string => exact absurd ⟨string, rfl⟩ hstr
      | _ => rfl
    rw [hdumps] at htext
    cases htext
    have hrepresentable : Representable float value := hval.resolve_right hstr
    constructor
    · exact fun _ string heq => absurd ⟨string, heq⟩ hstr
    · intro _
      rw [rowValue, loads_dumps float hrepresentable]
      rfl

/-- A value of JSON that is set is got as it is, and nothing else changes, exactly
when it is no string whose text is JSON itself. Lone surrogates are not stored. -/
theorem set_user_config_iff (db : ConfigDb) (userId : Int) (key : List CodePoint) (value : Json)
    (huser : userId ∈ db.users)
    (hval : Representable float value ∨ ∃ text, value = .str text) :
    (∃ db', setUserConfig db userId key value = .ok db' ∧ Sets float db db' userId key value) ↔
      (∀ c ∈ key, IsScalar c) ∧ ReadsAsItself float value := by
  constructor
  · rintro ⟨db', hset, hsets⟩
    obtain ⟨keyText, text, hkey, htext, hconfigs⟩ := setUserConfig_eq_ok hset
    refine ⟨encode_isSome.mp ⟨keyText, hkey⟩, ?_⟩
    obtain rfl := encode_eq_some.mp hkey
    rw [sets_iff float hconfigs] at hsets
    exact (rowValue_jsonValue float hval htext).mp hsets
  · rintro ⟨hkey, hreads⟩
    obtain ⟨keyText, hkey⟩ := encode_isSome.mpr hkey
    obtain ⟨text, htext⟩ : ∃ text, jsonValue value = some text := by
      cases value with
      | str string =>
        obtain ⟨chars, hchars, -⟩ := hreads string rfl
        exact ⟨chars, hchars⟩
      | _ => exact ⟨_, rfl⟩
    obtain ⟨db', hset⟩ := setUserConfig_ok huser hkey htext
    obtain ⟨keyText', text', hkey', htext', hconfigs⟩ := setUserConfig_eq_ok hset
    cases hkey.symm.trans hkey'
    cases htext.symm.trans htext'
    refine ⟨db', hset, ?_⟩
    obtain rfl := encode_eq_some.mp hkey
    exact (sets_iff float hconfigs).mpr ((rowValue_jsonValue float hval htext).mpr hreads)

end Reads

def oneUser : ConfigDb := ⟨[1], KeyMap.empty, forall_mem_nil _⟩

/-- A list is got as it was set. -/
theorem set_user_config_list :
    ∃ db', setUserConfig oneUser 1 (decode "k".toList) (.list [.int 5]) = .ok db' ∧
      Sets id oneUser db' 1 (decode "k".toList) (.list [.int 5]) :=
  (set_user_config_iff id oneUser 1 (decode "k".toList) (.list [.int 5]) mem_cons_self
    (.inl ⟨trivial, trivial⟩)).mpr
    ⟨encode_isSome.mp ⟨_, encode_decode _⟩, fun _ h => nomatch h⟩

/-- The name of a model that consists of digits is got as a number. -/
theorem digits_become_int :
    ∃ db', setUserConfig oneUser 1 (decode "llm_model".toList) (.str (decode "123".toList)) =
        .ok db' ∧
      getUserConfig id db' 1 (decode "llm_model".toList) = .ok (.int 123) ∧
      ¬ Sets id oneUser db' 1 (decode "llm_model".toList) (.str (decode "123".toList)) := by
  have hloads : loads id "123".toList = some (.int 123) := rfl
  have hset : jsonValue (.str (decode "123".toList)) = some "123".toList := encode_decode _
  have huser : 1 ∈ oneUser.users := mem_cons_self
  obtain ⟨db', hdb⟩ := setUserConfig_ok huser (encode_decode "llm_model".toList) hset
  obtain ⟨keyText, text, hkey, htext, hconfigs⟩ := setUserConfig_eq_ok hdb
  cases (encode_decode _).symm.trans hkey
  cases hset.symm.trans htext
  refine ⟨db', hdb, ?_, ?_⟩
  · rw [getUserConfig_eq, hconfigs, KeyMap.get_insert_self, Option.map_some, rowValue, hloads]
    rfl
  · rw [sets_iff id hconfigs, rowValue, hloads]
    exact Json.noConfusion

end DbClinic.Gateway
