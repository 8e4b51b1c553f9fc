import DbClinic.Lib.Cuts
import DbClinic.Lib.Outcomes
import DbClinic.Mcp.FramingRoundTrip
import DbClinic.Runtime.JsonRoundTrip

/-!
The queries of a login in the browser. Names and values are written with all bytes escaped
but letters, digits and four marks, so that what separates them is never a part of them, and
are read back as they were.
-/

namespace DbClinic.Runtime

open List
open Mcp (encodeUtf8 decodeUtf8 decodeUtf8_encodeUtf8 encodeUtf8_append)

namespace OAuth

inductive DecodeError where
  | percentByte (byte : UInt8)
  | utf8 (bytes : List UInt8)
  deriving DecidableEq

inductive CallbackError where
  | unexpectedPath (path : List Char)
  | decode (error : DecodeError)
  deriving DecidableEq

def percent : UInt8 := 0x25

def plus : UInt8 := 0x2B

def space : UInt8 := 0x20

def isUnreserved (byte : UInt8) : Bool :=
  (0x41 ≤ byte && byte ≤ 0x5A) || (0x61 ≤ byte && byte ≤ 0x7A) || (0x30 ≤ byte && byte ≤ 0x39) ||
    byte = 0x2D || byte = 0x5F || byte = 0x2E || byte = 0x7E

def hexDigit (n : Nat) : Char := Char.ofNat (if n < 10 then 0x30 + n else 0x41 + (n - 10))

def encodeByte (byte : UInt8) : List Char :=
  if isUnreserved byte then [Char.ofNat byte.toNat]
  else ['%', hexDigit (byte.toNat / 16), hexDigit (byte.toNat % 16)]

def percentEncode (value : List Char) : List Char := (encodeUtf8 value).flatMap encodeByte

def decodeHex (byte : UInt8) : Except DecodeError UInt8 :=
  if 0x30 ≤ byte ∧ byte ≤ 0x39 then .ok (byte - 0x30)
  else if 0x61 ≤ byte ∧ byte ≤ 0x66 then .ok (byte - 0x61 + 10)
  else if 0x41 ≤ byte ∧ byte ≤ 0x46 then .ok (byte - 0x41 + 10)
  else .error (.percentByte byte)

/-- A `%` with less than two bytes behind it stands for itself. -/
def decodeBytes : List UInt8 → Except DecodeError (List UInt8)
  | [] => .ok []
  | byte :: rest =>
    if byte = percent then
      match rest with
      | first :: second :: more => do
        let hi ← decodeHex first
        let lo ← decodeHex second
        return (hi <<< 4 ||| lo) :: (← decodeBytes more)
      | rest => return byte :: (← decodeBytes rest)
    else if byte = plus then return space :: (← decodeBytes rest)
    else return byte :: (← decodeBytes rest)

def percentDecode (value : List Char) : Except DecodeError (List Char) := do
  let decoded ← decodeBytes (encodeUtf8 value)
  match decodeUtf8 decoded with
  | some text => return text
  | none => throw (.utf8 decoded)

theorem forall_byte {P : UInt8 → Prop} (h : ∀ n < 256, P (UInt8.ofNat n)) (byte : UInt8) :
    P byte := by
  have hbyte := h byte.toNat byte.toNat_lt
  rwa [UInt8.ofNat_toNat] at hbyte

/-- The signs that cut a URL and a query in parts, and the one that stands for a blank. -/
def separators : List Char := ['&', '=', '+', '?', '#']

theorem separator_notMem_encodeByte (byte : UInt8) : ∀ c ∈ encodeByte byte, c ∉ separators := by
  have hall : ((encodeByte byte).all fun c => c ∉ separators) = true := by
    apply forall_byte (P := fun byte => ((encodeByte byte).all fun c => c ∉ separators) = true)
    decide +kernel
  simpa using hall

theorem separator_notMem_percentEncode (value : List Char) {c : Char} (h : c ∈ separators) :
    c ∉ percentEncode value := by
  intro hmem
  obtain ⟨byte, -, hbyte⟩ := mem_flatMap.mp hmem
  exact separator_notMem_encodeByte byte c hbyte h

def hexByte (n : Nat) : UInt8 := UInt8.ofNat (hexDigit n).toNat

theorem decodeHex_hexByte (n : Nat) (h : n < 16) :
    decodeHex (hexByte n) = .ok (UInt8.ofNat n) := by
  interval_cases n <;> rfl

theorem encodeUtf8_unreserved (byte : UInt8) : isUnreserved byte = true →
    encodeUtf8 (encodeByte byte) = [byte] ∧ byte ≠ percent ∧ byte ≠ plus := by
  apply forall_byte (P := fun byte => isUnreserved byte = true →
    encodeUtf8 (encodeByte byte) = [byte] ∧ byte ≠ percent ∧ byte ≠ plus)
  decide +kernel

theorem encodeUtf8_escaped (byte : UInt8) : isUnreserved byte = false →
    encodeUtf8 (encodeByte byte) =
      [percent, hexByte (byte.toNat / 16), hexByte (byte.toNat % 16)] := by
  apply forall_byte (P := fun byte => isUnreserved byte = false →
    encodeUtf8 (encodeByte byte) =
      [percent, hexByte (byte.toNat / 16), hexByte (byte.toNat % 16)])
  decide +kernel

theorem byte_of_digits (byte : UInt8) :
    UInt8.ofNat (byte.toNat / 16) <<< 4 ||| UInt8.ofNat (byte.toNat % 16) = byte := by
  apply forall_byte (P := fun byte =>
    UInt8.ofNat (byte.toNat / 16) <<< 4 ||| UInt8.ofNat (byte.toNat % 16) = byte)
  decide +kernel

theorem decodeBytes_encodeByte (byte : UInt8) (rest : List UInt8) :
    decodeBytes (encodeUtf8 (encodeByte byte) ++ rest) = (decodeBytes rest).map (byte :: ·) := by
  cases hbyte : isUnreserved byte with
  | true =>
    obtain ⟨hself, hpercent, hplus⟩ := encodeUtf8_unreserved byte hbyte
    rw [hself, singleton_append, decodeBytes.eq_def]
    simp only [if_neg hpercent, if_neg hplus]
    cases decodeBytes rest <;> rfl
  | false =>
    rw [encodeUtf8_escaped byte hbyte, cons_append, cons_append,
      singleton_append, decodeBytes.eq_def]
    simp only [if_true]
    rw [decodeHex_hexByte _ (by have := byte.toNat_lt; omega),
      decodeHex_hexByte _ (Nat.mod_lt _ (by decide))]
    simp only [Outcomes.ok_bind, byte_of_digits]
    cases decodeBytes rest <;> rfl

theorem decodeBytes_encoded (bytes : List UInt8) :
    decodeBytes (encodeUtf8 (bytes.flatMap encodeByte)) = .ok bytes := by
  induction bytes with
  | nil => rfl
  | cons byte bytes ih =>
    rw [flatMap_cons, encodeUtf8_append, decodeBytes_encodeByte, ih]
    rfl

theorem percentDecode_percentEncode (value : List Char) :
    percentDecode (percentEncode value) = .ok value := by
  unfold percentDecode percentEncode
  rw [decodeBytes_encoded, Outcomes.ok_bind, decodeUtf8_encodeUtf8]
  rfl

def encodePair (pair : List Char × List Char) : List Char :=
  percentEncode pair.1 ++ '=' :: percentEncode pair.2

def encodeQuery (pairs : List (List Char × List Char)) : List Char :=
  ['&'].intercalate (pairs.map encodePair)

/-- A pair without `=` has an empty value. -/
def decodePair (pair : List Char) : Except DecodeError (List Char × List Char) := do
  let parts := (splitOnce ['='] pair).getD (pair, [])
  return (← percentDecode parts.1, ← percentDecode parts.2)

def pairsOf (query : List Char) : List (List Char) := (query.splitOn '&').filter (· ≠ [])

def decodeQuery (query : List Char) : Except DecodeError (List (List Char × List Char)) :=
  (pairsOf query).mapM decodePair

theorem decodePair_encodePair (pair : List Char × List Char) :
    decodePair (encodePair pair) = .ok pair := by
  unfold decodePair encodePair
  rw [splitOnce_singleton (separator_notMem_percentEncode _ (by decide)), Option.getD_some]
  dsimp only
  rw [percentDecode_percentEncode, Outcomes.ok_bind, percentDecode_percentEncode]
  rfl

theorem ampersand_notMem_encodePair (pair : List Char × List Char) : '&' ∉ encodePair pair := by
  have hname := separator_notMem_percentEncode pair.1 (show '&' ∈ separators by decide)
  have hval := separator_notMem_percentEncode pair.2 (show '&' ∈ separators by decide)
  simp [encodePair, hname, hval]

theorem pairsOf_encodeQuery (pairs : List (List Char × List Char)) :
    pairsOf (encodeQuery pairs) = pairs.map encodePair := by
  unfold pairsOf encodeQuery
  cases pairs with
  | nil => rfl
  | cons pair pairs =>
    have hpieces : ∀ piece ∈ (pair :: pairs).map encodePair, '&' ∉ piece := by
      intro piece hpiece
      obtain ⟨p, -, rfl⟩ := mem_map.mp hpiece
      exact ampersand_notMem_encodePair p
    rw [Cuts.splitOn_pieces (by simp) hpieces]
    apply filter_eq_self.mpr
    intro piece hpiece
    obtain ⟨p, -, rfl⟩ := mem_map.mp hpiece
    simp [encodePair]

theorem decodeQuery_encodeQuery (pairs : List (List Char × List Char)) :
    decodeQuery (encodeQuery pairs) = .ok pairs := by
  unfold decodeQuery
  rw [pairsOf_encodeQuery]
  induction pairs with
  | nil => rfl
  | cons pair pairs ih =>
    rw [map_cons, mapM_cons, decodePair_encodePair, Outcomes.ok_bind, ih]
    rfl

theorem decodeQuery_append (front back : List Char) :
    decodeQuery (front ++ '&' :: back) =
      (do return (← decodeQuery front) ++ (← decodeQuery back)) := by
  unfold decodeQuery pairsOf
  rw [splitOn_append_cons_self, filter_append, mapM_append]

theorem fragment_notMem_encodeQuery (pairs : List (List Char × List Char)) :
    '#' ∉ encodeQuery pairs := by
  intro hmem
  obtain ⟨piece, hpiece, hsign⟩ := Cuts.exists_piece_of_mem hmem (show '#' ≠ '&' by decide)
  have hpair : piece ∈ pairsOf (encodeQuery pairs) := by
    apply mem_filter.mpr
    exact ⟨hpiece, by simpa using ne_nil_of_mem hsign⟩
  rw [pairsOf_encodeQuery] at hpair
  obtain ⟨p, -, rfl⟩ := mem_map.mp hpair
  have hname := separator_notMem_percentEncode p.1 (show '#' ∈ separators by decide)
  have hval := separator_notMem_percentEncode p.2 (show '#' ∈ separators by decide)
  simp [encodePair, hname, hval] at hsign

end OAuth

open OAuth

inductive PkceChallengeMethod where
  | s256
  deriving DecidableEq

def PkceChallengeMethod.asStr : PkceChallengeMethod → String
  | s256 => "S256"

structure OAuthAuthorizationRequest where
  authorizeUrl : List Char
  clientId : List Char
  redirectUri : List Char
  scopes : List (List Char)
  state : List Char
  codeChallenge : List Char
  codeChallengeMethod : PkceChallengeMethod
  extraParams : List (String × List Char)
  ordered : KeyOrdered extraParams

namespace OAuthAuthorizationRequest

variable (request : OAuthAuthorizationRequest)

def standardParams : List (String × List Char) := [
  ("response_type", "code".toList),
  ("client_id", request.clientId),
  ("redirect_uri", request.redirectUri),
  ("scope", [' '].intercalate request.scopes),
  ("state", request.state),
  ("code_challenge", request.codeChallenge),
  ("code_challenge_method", request.codeChallengeMethod.asStr.toList)]

def standardNames : List String :=
  ["response_type", "client_id", "redirect_uri", "scope", "state", "code_challenge",
    "code_challenge_method"]

def params : List (List Char × List Char) :=
  (request.standardParams ++ request.extraParams).map fun e => (e.1.toList, e.2)

def buildUrl : List Char :=
  request.authorizeUrl ++
    (if '?' ∈ request.authorizeUrl then '&' else '?') :: encodeQuery request.params

theorem standardParams_names : request.standardParams.map Prod.fst = standardNames := rfl

theorem nodup_params (h : ∀ e ∈ request.extraParams, e.1 ∉ standardNames) :
    (request.params.map Prod.fst).Nodup := by
  have hnames : request.params.map Prod.fst =
      ((request.standardParams ++ request.extraParams).map Prod.fst).map String.toList := by
    simp only [params, map_map]
    rfl
  rw [hnames]
  apply List.Nodup.map fun _ _ => String.toList_injective
  rw [map_append, nodup_append']
  refine ⟨by rw [standardParams_names]; decide, ?_, ?_⟩
  · apply pairwise_map.mpr
    exact request.ordered.imp fun hlt => ne_of_lt hlt
  · intro name hstandard hextra
    obtain ⟨e, he, rfl⟩ := mem_map.mp hextra
    exact h e he (request.standardParams_names ▸ hstandard)

end OAuthAuthorizationRequest

/-- What is behind the first `?`. -/
def queryOf (url : List Char) : List Char := ((splitOnce ['?'] url).map Prod.snd).getD []

theorem splitOnce_mark_none {url : List Char} (h : '?' ∉ url) : splitOnce ['?'] url = none := by
  apply splitOnce_eq_none_iff.mpr
  rintro ⟨front, back, rfl⟩
  simp at h

namespace OAuthAuthorizationRequest

variable (request : OAuthAuthorizationRequest)

theorem fragment_notMem_buildUrl (h : '#' ∉ request.authorizeUrl) : '#' ∉ request.buildUrl := by
  have hquery := fragment_notMem_encodeQuery request.params
  unfold buildUrl
  split <;> simp [h, hquery]

theorem queryOf_buildUrl : decodeQuery (queryOf request.buildUrl) =
    (decodeQuery (queryOf request.authorizeUrl)).map (· ++ request.params) := by
  by_cases hmark : '?' ∈ request.authorizeUrl
  · obtain ⟨front, back, hurl⟩ := append_of_mem hmark
    obtain ⟨parts, hparts⟩ := splitOnce_of_infix (show ['?'] <:+: request.authorizeUrl from
      ⟨front, back, by simp [hurl]⟩)
    have hbuilt := splitOnce_append ('&' :: encodeQuery request.params) hparts
    unfold queryOf buildUrl
    rw [if_pos hmark, hbuilt, hparts]
    simp only [Option.map_some, Option.getD_some]
    rw [decodeQuery_append, decodeQuery_encodeQuery]
    cases decodeQuery parts.2 <;> rfl
  · have hbuilt := splitOnce_singleton hmark (encodeQuery request.params)
    unfold queryOf buildUrl
    rw [if_neg hmark, hbuilt, splitOnce_mark_none hmark]
    simp only [Option.map_some, Option.getD_some, Option.map_none, Option.getD_none]
    rw [decodeQuery_encodeQuery]
    rfl

end OAuthAuthorizationRequest

structure OAuthCallbackParams where
  code : Option (List Char)
  state : Option (List Char)
  error : Option (List Char)
  errorDescription : Option (List Char)
  deriving DecidableEq

namespace OAuth

def insertPairs (params : List (String × List Char)) :
    List (List Char) → Except DecodeError (List (String × List Char))
  | [] => .ok params
  | pair :: pairs => do
    let (key, value) ← decodePair pair
    insertPairs (insertEntry (String.ofList key) value params) pairs

def parseOauthCallbackQuery (query : List Char) : Except DecodeError OAuthCallbackParams := do
  let params ← insertPairs [] (pairsOf query)
  return {
    code := getEntry params "code"
    state := getEntry params "state"
    error := getEntry params "error"
    errorDescription := getEntry params "error_description" }

def parseOauthCallbackRequestTarget (target : List Char) :
    Except CallbackError OAuthCallbackParams :=
  let (path, query) := (splitOnce ['?'] target).getD (target, [])
  if path ≠ "/callback".toList then .error (.unexpectedPath path)
  else (parseOauthCallbackQuery query).mapError .decode

theorem insertPairs_encoded (params : List (String × List Char))
    (pairs : List (String × List Char)) :
    insertPairs params (pairs.map fun e => encodePair (e.1.toList, e.2)) =
      .ok (pairs.foldl (fun map e => insertEntry e.1 e.2 map) params) := by
  induction pairs generalizing params with
  | nil => rfl
  | cons pair pairs ih =>
    rw [map_cons, insertPairs, decodePair_encodePair, Outcomes.ok_bind]
    dsimp only
    rw [ih, String.ofList_toList]
    rfl

end OAuth

/-- The parameters that are there, with their names. -/
def OAuthCallbackParams.entries (params : OAuthCallbackParams) : List (String × List Char) :=
  [("code", params.code), ("state", params.state), ("error", params.error),
    ("error_description", params.errorDescription)].filterMap fun e => e.2.map (e.1, ·)

namespace OAuth

def encodeEntries (entries : List (String × List Char)) : List Char :=
  encodeQuery (entries.map fun e => (e.1.toList, e.2))

theorem parseOauthCallbackQuery_encoded {params : OAuthCallbackParams}
    {entries : List (String × List Char)} (h : entries.Perm params.entries) :
    parseOauthCallbackQuery (encodeEntries entries) = .ok params := by
  have hnames : (params.entries.map Prod.fst).Nodup := by
    rcases params with ⟨_ | _, _ | _, _ | _, _ | _⟩ <;> simp [OAuthCallbackParams.entries]
  have hsame : entriesOf entries = entriesOf params.entries := by
    apply entriesOf_eq_of_perm h
    exact (h.map Prod.fst).nodup_iff.mpr hnames
  have hpairs : insertPairs [] (pairsOf (encodeEntries entries)) =
      .ok (entriesOf params.entries) := by
    unfold encodeEntries
    rw [pairsOf_encodeQuery, map_map, ← hsame]
    exact insertPairs_encoded [] entries
  unfold parseOauthCallbackQuery
  rw [hpairs, Outcomes.ok_bind]
  simp only [getEntry_entriesOf]
  rcases params with ⟨_ | _, _ | _, _ | _, _ | _⟩ <;> rfl

theorem parseOauthCallbackRequestTarget_query (query : List Char) :
    parseOauthCallbackRequestTarget ("/callback?".toList ++ query) =
      (parseOauthCallbackQuery query).mapError .decode := by
  have hsplit : splitOnce ['?'] ("/callback?".toList ++ query) =
      some ("/callback".toList, query) := by
    have hpath : '?' ∉ "/callback".toList := by decide
    exact splitOnce_singleton hpath query
  unfold parseOauthCallbackRequestTarget
  rw [hsplit]
  exact if_neg (not_not.mpr rfl)

end OAuth

def tenantRequest (tenant : List Char) : OAuthAuthorizationRequest where
  authorizeUrl := "https://console.test/authorize?tenant=".toList ++ tenant
  clientId := "runtime-client".toList
  redirectUri := "http://localhost:4545/callback".toList
  scopes := []
  state := "state-1".toList
  codeChallenge := "challenge".toList
  codeChallengeMethod := .s256
  extraParams := []
  ordered := List.Pairwise.nil

/-- The parameters of the request are not all that the query has, or it does not decode. -/
theorem tenantRequest_query :
    decodeQuery (queryOf (tenantRequest "blue".toList).buildUrl) ≠
      .ok (tenantRequest "blue".toList).params ∧
    decodeQuery (queryOf (tenantRequest "%zz".toList).buildUrl) = .error (.percentByte 122) ∧
    ∀ tenant ∈ ["blue".toList, "%zz".toList],
      (∀ e ∈ (tenantRequest tenant).extraParams,
        e.1 ∉ OAuthAuthorizationRequest.standardNames) ∧
      '#' ∉ (tenantRequest tenant).authorizeUrl := by
  refine ⟨?_, ?_, by decide +kernel⟩
  · rw [OAuthAuthorizationRequest.queryOf_buildUrl]
    have hown : decodeQuery (queryOf (tenantRequest "blue".toList).authorizeUrl) =
        .ok [("tenant".toList, "blue".toList)] := by
      decide +kernel
    rw [hown]
    decide +kernel
  · rw [OAuthAuthorizationRequest.queryOf_buildUrl]
    have hown : decodeQuery (queryOf (tenantRequest "%zz".toList).authorizeUrl) =
        .error (.percentByte 122) := by
      decide +kernel
    rw [hown]
    rfl

/-- What is encoded is decoded to itself; a login URL has the parameters of its authorize URL
and then those of the request; a callback has the values that it was given. -/
theorem query_codec :
    (∀ value, percentDecode (percentEncode value) = .ok value) ∧
    (∀ request : OAuthAuthorizationRequest,
      (∀ e ∈ request.extraParams, e.1 ∉ OAuthAuthorizationRequest.standardNames) →
      '#' ∉ request.authorizeUrl →
      '#' ∉ request.buildUrl ∧ (request.params.map Prod.fst).Nodup ∧
      decodeQuery (queryOf request.buildUrl) =
        (decodeQuery (queryOf request.authorizeUrl)).map (· ++ request.params) ∧
      ('?' ∉ request.authorizeUrl →
        decodeQuery (queryOf request.buildUrl) = .ok request.params)) ∧
    ∀ (params : OAuthCallbackParams) (entries : List (String × List Char)),
      entries.Perm params.entries →
      parseOauthCallbackQuery (encodeEntries entries) = .ok params ∧
      parseOauthCallbackRequestTarget ("/callback?".toList ++ encodeEntries entries) =
        .ok params := by
  refine ⟨percentDecode_percentEncode, ?_, ?_⟩
  · intro request hextra hfragment
    have hquery := request.queryOf_buildUrl
    refine ⟨request.fragment_notMem_buildUrl hfragment, request.nodup_params hextra, hquery, ?_⟩
    intro hmark
    have hnone : queryOf request.authorizeUrl = [] := by
      unfold queryOf
      rw [splitOnce_mark_none hmark]
      rfl
    rw [hquery, hnone]
    rfl
  · intro params entries hperm
    have hparse := parseOauthCallbackQuery_encoded hperm
    refine ⟨hparse, ?_⟩
    rw [parseOauthCallbackRequestTarget_query, hparse]
    rfl

end DbClinic.Runtime
