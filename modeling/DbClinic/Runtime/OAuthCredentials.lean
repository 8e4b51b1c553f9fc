import DbClinic.Mcp.Framing
import DbClinic.Runtime.SerdeText

/-!
The credentials file. A save and a clear read the object that is there, change its entry for
the login and write the object beside the file before they replace the file with it. Every
step of the file system may fail; a write that fails may leave anything in its place.
-/

namespace DbClinic.Runtime

open Mcp (encodeUtf8 decodeUtf8 decodeUtf8_encodeUtf8)
open Serde (SerdeText depthLimit mapFloatsEntries mapFloatsValues)

structure OAuthTokenSet where
  accessToken : String
  refreshToken : Option String
  expiresAt : Option UInt64
  scopes : List String
  deriving DecidableEq

inductive CredentialsError where
  | noHome
  | io (message : String)
  | notUtf8
  | json (message : String)
  | notObject
  /-- The stored tokens do not have the form of tokens. -/
  | stored
  deriving DecidableEq

namespace OAuthTokenSet

/-- The value of `StoredOAuthCredentials`. -/
def toValue (tokens : OAuthTokenSet) : Serde.Value := .object [
  ("accessToken", .string tokens.accessToken),
  ("expiresAt",
    (tokens.expiresAt.map fun value => Serde.Value.number (.unsigned value)).getD .null),
  ("refreshToken", (tokens.refreshToken.map Serde.Value.string).getD .null),
  ("scopes", .array (tokens.scopes.map Serde.Value.string))]

def readOptionalString : Serde.Value → Option (Option String)
  | .null => some none
  | .string value => some (some value)
  | _ => none

def readOptionalU64 : Serde.Value → Option (Option UInt64)
  | .null => some none
  | .number (.unsigned value) => some (some value)
  | _ => none

def readStrings : Serde.Value → Option (List String)
  | .array values => values.mapM Serde.Value.asStr
  | _ => none

def readField {α : Type} (read : Serde.Value → Option α) (default : α) :
    Option Serde.Value → Option α
  | none => some default
  | some value => read value

def readStored (accessToken refreshToken expiresAt scopes : Option Serde.Value) :
    Option OAuthTokenSet := do
  let access ← accessToken.bind Serde.Value.asStr
  let refresh ← readField readOptionalString none refreshToken
  let expires ← readField readOptionalU64 none expiresAt
  let list ← readField readStrings [] scopes
  return ⟨access, refresh, expires, list⟩

/-- `from_value`: fields by their names, or by their places in an array. -/
def fromValue : Serde.Value → Option OAuthTokenSet
  | .object entries =>
    readStored (getEntry entries "accessToken") (getEntry entries "refreshToken")
      (getEntry entries "expiresAt") (getEntry entries "scopes")
  | .array values =>
    if values.length ≤ 4 then readStored values[0]? values[1]? values[2]? values[3]? else none
  | _ => none

theorem mapM_strings (texts : List String) :
    (texts.map Serde.Value.string).mapM Serde.Value.asStr = some texts := by
  induction texts with
  | nil => rfl
  | cons text texts ih =>
    rw [List.map_cons, List.mapM_cons, ih]
    rfl

theorem fromValue_toValue (tokens : OAuthTokenSet) : fromValue tokens.toValue = some tokens := by
  obtain ⟨access, refresh, expires, scopes⟩ := tokens
  have hscopes : readStrings (.array (scopes.map Serde.Value.string)) = some scopes :=
    mapM_strings scopes
  unfold fromValue toValue readStored
  simp only [getEntry_cons]
  cases refresh <;> cases expires <;>
    simp [readField, readOptionalString, readOptionalU64, hscopes, Serde.Value.asStr]

theorem proper_toValue (tokens : OAuthTokenSet) : tokens.toValue.Proper := by
  obtain ⟨access, refresh, expires, scopes⟩ := tokens
  have hscopes : Serde.ProperValues (scopes.map Serde.Value.string) := by
    induction scopes with
    | nil => trivial
    | cons text texts ih => exact ⟨trivial, ih⟩
  have hkeys : ["accessToken", "expiresAt", "refreshToken", "scopes"].Pairwise (· < ·) := by
    decide +kernel
  refine ⟨List.pairwise_map.mp hkeys, trivial, ?_, ?_, hscopes, trivial⟩
  · cases expires <;> trivial
  · cases refresh <;> trivial

theorem depth_toValue (tokens : OAuthTokenSet) : tokens.toValue.depth ≤ 2 := by
  obtain ⟨access, refresh, expires, scopes⟩ := tokens
  have hscopes : Serde.depthValues (scopes.map Serde.Value.string) = 0 := by
    induction scopes with
    | nil => rfl
    | cons text texts ih =>
      rw [List.map_cons]
      unfold Serde.depthValues
      rw [ih]
      rfl
  cases refresh <;> cases expires <;>
    simp [toValue, Serde.Value.depth, Serde.depthEntries, hscopes]

theorem mapFloats_toValue (tokens : OAuthTokenSet) (f : String → String) :
    tokens.toValue.mapFloats f = tokens.toValue := by
  obtain ⟨access, refresh, expires, scopes⟩ := tokens
  have hscopes :
      mapFloatsValues f (scopes.map Serde.Value.string) = scopes.map Serde.Value.string := by
    induction scopes with
    | nil => rfl
    | cons text texts ih =>
      rw [List.map_cons]
      unfold mapFloatsValues
      rw [ih]
      rfl
  cases refresh <;> cases expires <;>
    simp [toValue, Serde.Value.mapFloats, mapFloatsEntries, hscopes]

end OAuthTokenSet

/-- The file and the temporary file beside it, by their bytes. -/
structure CredentialsDir where
  file : Option (List UInt8)
  temp : Option (List UInt8)

/-- The steps that fail. An error of reading is another one than that there is no file; a
failed write leaves some content or none. -/
structure CredentialsFaults where
  noHome : Bool
  read : Option String
  createDir : Option String
  write : Option (String × Option (List UInt8))
  rename : Option String

def CredentialsFaults.none : CredentialsFaults := ⟨false, .none, .none, .none, .none⟩

section Calls

variable (json : SerdeText) (faults : CredentialsFaults)

def readCredentialsRoot (dir : CredentialsDir) :
    Except CredentialsError (List (String × Serde.Value)) :=
  match faults.read with
  | some message => .error (.io message)
  | none =>
    match dir.file with
    | none => .ok []
    | some bytes =>
      match decodeUtf8 bytes with
      | none => .error .notUtf8
      | some contents =>
        if trim contents = [] then .ok []
        else
          match json.fromStr contents with
          | .error message => .error (.json message)
          | .ok (.object entries) => .ok entries
          | .ok _ => .error .notObject

def renderRoot (root : List (String × Serde.Value)) : List UInt8 :=
  encodeUtf8 (json.toStringPretty (.object root) ++ ['\n'])

def writeCredentialsRoot (root : List (String × Serde.Value)) (dir : CredentialsDir) :
    CredentialsDir × Except CredentialsError Unit :=
  match faults.createDir with
  | some message => (dir, .error (.io message))
  | none =>
    match faults.write with
    | some (message, left) => ({ dir with temp := left }, .error (.io message))
    | none =>
      match faults.rename with
      | some message =>
        ({ dir with temp := some (renderRoot json root) }, .error (.io message))
      | none => (⟨some (renderRoot json root), none⟩, .ok ())

/-- A change of the entries, from the file and back. -/
def updateCredentials (change : List (String × Serde.Value) → List (String × Serde.Value))
    (dir : CredentialsDir) : CredentialsDir × Except CredentialsError Unit :=
  if faults.noHome then (dir, .error .noHome)
  else
    match readCredentialsRoot json faults dir with
    | .error e => (dir, .error e)
    | .ok root => writeCredentialsRoot json faults (change root) dir

def saveOauthCredentials (tokens : OAuthTokenSet) (dir : CredentialsDir) :
    CredentialsDir × Except CredentialsError Unit :=
  updateCredentials json faults (insertEntry "oauth" tokens.toValue) dir

def clearOauthCredentials (dir : CredentialsDir) : CredentialsDir × Except CredentialsError Unit :=
  updateCredentials json faults (List.filter fun e => e.1 ≠ "oauth") dir

def loadOauthCredentials (dir : CredentialsDir) :
    Except CredentialsError (Option OAuthTokenSet) :=
  if faults.noHome then .error .noHome
  else
    match readCredentialsRoot json faults dir with
    | .error e => .error e
    | .ok root =>
      match getEntry root "oauth" with
      | none => .ok none
      | some .null => .ok none
      | some value =>
        match OAuthTokenSet.fromValue value with
        | none => .error .stored
        | some tokens => .ok (some tokens)

end Calls

inductive CredentialsCall where
  | save (tokens : OAuthTokenSet)
  | clear

namespace CredentialsCall

def change : CredentialsCall → List (String × Serde.Value) → List (String × Serde.Value)
  | save tokens => insertEntry "oauth" tokens.toValue
  | clear => List.filter fun e => e.1 ≠ "oauth"

def loaded : CredentialsCall → Option OAuthTokenSet
  | save tokens => some tokens
  | clear => none

def run (json : SerdeText) (faults : CredentialsFaults) (dir : CredentialsDir) :
    CredentialsCall → CredentialsDir × Except CredentialsError Unit
  | save tokens => saveOauthCredentials json faults tokens dir
  | clear => clearOauthCredentials json faults dir

variable (call : CredentialsCall) {json : SerdeText} {faults : CredentialsFaults}
  {dir : CredentialsDir}

theorem run_eq : call.run json faults dir = updateCredentials json faults call.change dir := by
  cases call <;> rfl

theorem getEntry_change (root : List (String × Serde.Value)) {key : String} (hkey : key ≠ "oauth") :
    getEntry (call.change root) key = getEntry root key := by
  cases call with
  | save tokens => exact (getEntry_insertEntry _ _ _ _).trans (if_neg hkey.symm)
  | clear => exact (getEntry_filter_ne _ _ _).trans (if_neg hkey.symm)

/-- What a file can hold. -/
def Held (root : List (String × Serde.Value)) : Prop :=
  (Serde.Value.object root).Proper ∧ (Serde.Value.object root).depth ≤ depthLimit

variable {root : List (String × Serde.Value)}

theorem held_change (h : Held root) : Held (call.change root) := by
  obtain ⟨hproper, hdepth⟩ := h
  cases call with
  | save tokens =>
    have htokens : tokens.toValue.depth < depthLimit :=
      Nat.lt_of_le_of_lt tokens.depth_toValue (by decide)
    exact ⟨Serde.proper_insertEntry tokens.proper_toValue hproper,
      Serde.depth_insertEntry htokens hdepth⟩
  | clear => exact ⟨Serde.proper_filter hproper, Serde.depth_filter hdepth⟩

theorem held_of_read (hjson : json.Lawful) (h : readCredentialsRoot json faults dir = .ok root) :
    Held root := by
  have hnone : Held [] := ⟨Serde.proper_nil, by decide⟩
  unfold readCredentialsRoot at h
  split at h
  · cases h
  · split at h
    · cases h
      exact hnone
    · split at h
      · cases h
      · split at h
        · cases h
          exact hnone
        · split at h
          · cases h
          · rename_i hread
            cases h
            exact hjson.reads hread
          · cases h

theorem read_rendered (hjson : json.Lawful) (h : Held root) (temp : Option (List UInt8)) :
    readCredentialsRoot json .none ⟨some (renderRoot json root), temp⟩ =
      .ok (mapFloatsEntries json.refloat root) := by
  have hback : json.fromStr (json.toStringPretty (.object root) ++ ['\n']) = _ :=
    hjson.readsBack h.1 h.2 (by simp)
  have hblank : trim (json.toStringPretty (.object root) ++ ['\n']) ≠ [] :=
    fun hblank => hjson.blank hblank hback
  unfold readCredentialsRoot renderRoot CredentialsFaults.none
  dsimp only
  rw [decodeUtf8_encodeUtf8]
  dsimp only
  rw [if_neg hblank, hback]
  rfl

theorem run_cases (json : SerdeText) (faults : CredentialsFaults) (dir : CredentialsDir) :
    (∃ e, (call.run json faults dir).2 = .error e ∧ (call.run json faults dir).1.file = dir.file) ∨
    ∃ root, readCredentialsRoot json .none dir = .ok root ∧
      call.run json faults dir = (⟨some (renderRoot json (call.change root)), none⟩, .ok ()) := by
  rw [run_eq]
  unfold updateCredentials
  split
  · exact .inl ⟨_, rfl, rfl⟩
  · split
    · exact .inl ⟨_, rfl, rfl⟩
    · rename_i root hread
      unfold writeCredentialsRoot
      split
      · exact .inl ⟨_, rfl, rfl⟩
      · split
        · exact .inl ⟨_, rfl, rfl⟩
        · split
          · exact .inl ⟨_, rfl, rfl⟩
          · refine .inr ⟨root, ?_, rfl⟩
            rw [← hread]
            unfold readCredentialsRoot at hread ⊢
            split at hread
            · cases hread
            · rfl

theorem load_change (hjson : json.Lawful) (h : Held root) (temp : Option (List UInt8)) :
    loadOauthCredentials json .none ⟨some (renderRoot json (call.change root)), temp⟩ =
      .ok call.loaded := by
  unfold loadOauthCredentials
  rw [read_rendered hjson (call.held_change h)]
  have hnone : CredentialsFaults.none.noHome = false := rfl
  rw [hnone, if_neg Bool.false_ne_true]
  dsimp only
  rw [Serde.getEntry_mapFloatsEntries]
  cases call with
  | save tokens =>
    have hentry : getEntry ((save tokens).change root) "oauth" = some tokens.toValue :=
      (getEntry_insertEntry _ _ _ _).trans (if_pos rfl)
    rw [hentry, Option.map_some, tokens.mapFloats_toValue]
    have hback := tokens.fromValue_toValue
    unfold OAuthTokenSet.toValue at hback ⊢
    dsimp only
    rw [hback]
    rfl
  | clear =>
    have hentry : getEntry (clear.change root) "oauth" = none :=
      (getEntry_filter_ne _ _ _).trans (if_pos rfl)
    rw [hentry]
    rfl

end CredentialsCall

open CredentialsCall

/-- Where a sequence of calls leads, each with the steps of it that fail. -/
def runCredentials (json : SerdeText) (calls : List (CredentialsCall × CredentialsFaults))
    (dir : CredentialsDir) : CredentialsDir :=
  calls.foldl (fun dir call => (call.1.run json call.2 dir).1) dir

/-- The two objects have the same entries but that for the login; floats were read `count`
times in between. -/
def KeepsOthers (json : SerdeText) (count : Nat) (root root' : List (String × Serde.Value)) :
    Prop :=
  ∀ key ≠ "oauth", getEntry root' key =
    (getEntry root key).map ((Serde.Value.mapFloats json.refloat)^[count])

theorem keepsOthers_run {json : SerdeText} (hjson : json.Lawful)
    (calls : List (CredentialsCall × CredentialsFaults)) {dir : CredentialsDir}
    {root : List (String × Serde.Value)} (h : readCredentialsRoot json .none dir = .ok root) :
    ∃ count ≤ calls.length, ∃ root',
      readCredentialsRoot json .none (runCredentials json calls dir) = .ok root' ∧
      KeepsOthers json count root root' := by
  induction calls generalizing dir root with
  | nil => exact ⟨0, Nat.le_refl _, root, h, fun key _ => by simp⟩
  | cons call calls ih =>
    rcases call.1.run_cases json call.2 dir with
      ⟨e, -, hfile⟩ | ⟨old, hold, hrun⟩
    · have hsame : readCredentialsRoot json .none (call.1.run json call.2 dir).1 = .ok root := by
        rw [← h]
        unfold readCredentialsRoot
        rw [hfile]
      obtain ⟨count, hcount, root', hread, hkeeps⟩ := ih hsame
      exact ⟨count, Nat.le_succ_of_le hcount, root', hread, hkeeps⟩
    · cases hold.symm.trans h
      have hnext := read_rendered hjson (call.1.held_change (held_of_read hjson hold)) none
      obtain ⟨count, hcount, root', hread, hkeeps⟩ := ih hnext
      refine ⟨count + 1, Nat.succ_le_succ hcount, root', ?_, ?_⟩
      · unfold runCredentials
        rw [List.foldl_cons, hrun]
        exact hread
      · intro key hkey
        rw [hkeeps key hkey, Serde.getEntry_mapFloatsEntries, getEntry_change _ _ hkey,
          Option.map_map, ← Function.iterate_succ]

/-- At every point of a sequence of calls: one that fails leaves the file as it was; one that
succeeds has written the entries that it read but that for the login, which is loaded then. -/
theorem credentials_never_damaged {json : SerdeText} (hjson : json.Lawful)
    (start : CredentialsDir) (calls : List (CredentialsCall × CredentialsFaults)) :
    (∀ (call : CredentialsCall) (faults : CredentialsFaults),
      let dir := runCredentials json calls start
      let after := call.run json faults dir
      (∀ e, after.2 = .error e → after.1.file = dir.file) ∧
      (after.2 = .ok () →
        loadOauthCredentials json .none after.1 = .ok call.loaded ∧
        ∃ root written, readCredentialsRoot json .none dir = .ok root ∧
          after.1.file = some (renderRoot json written) ∧
          (∀ key ≠ "oauth", getEntry written key = getEntry root key) ∧
          readCredentialsRoot json .none after.1 =
            .ok (mapFloatsEntries json.refloat written))) ∧
    ∀ root, readCredentialsRoot json .none start = .ok root →
      ∃ count ≤ calls.length, ∃ root',
        readCredentialsRoot json .none (runCredentials json calls start) = .ok root' ∧
        KeepsOthers json count root root' := by
  refine ⟨?_, fun root => keepsOthers_run hjson calls⟩
  intro call faults
  dsimp only
  rcases call.run_cases json faults (runCredentials json calls start) with
    ⟨e, herror, hfile⟩ | ⟨root, hread, hrun⟩
  · refine ⟨fun _ _ => hfile, ?_⟩
    intro hok
    cases herror.symm.trans hok
  · have hheld := held_of_read hjson hread
    rw [hrun]
    refine ⟨nofun, fun _ => ⟨call.load_change hjson hheld none, root, call.change root, hread, rfl,
      fun key hkey => call.getEntry_change root hkey, ?_⟩⟩
    exact read_rendered hjson (call.held_change hheld) none

def sampleTokens : OAuthTokenSet := ⟨"access-token", some "refresh-token", some 123, ["scope:a"]⟩

/-- A file that holds something else. -/
def seededDir : CredentialsDir :=
  ⟨some (encodeUtf8 "\x7b\"other\":\"value\"\x7d\n".toList), none⟩

theorem sampleTokens_saved :
    loadOauthCredentials Serde.runtimeText .none
      ((save sampleTokens).run Serde.runtimeText .none seededDir).1 = .ok (some sampleTokens) := by
  have hcalls := (credentials_never_damaged Serde.runtimeText_lawful seededDir []).1
    (save sampleTokens) .none
  exact (hcalls.2 (by decide +kernel)).1

end DbClinic.Runtime
