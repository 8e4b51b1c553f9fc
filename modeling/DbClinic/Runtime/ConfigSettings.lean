import DbClinic.Lib.Outcomes
import DbClinic.Runtime.ConfigMerge

/-!
What the loader reads from an object it accepts. Every setting is the value at
one path, read by its type; only the permission mode and the table of enabled
plugins have two places.
-/

namespace DbClinic.Runtime.Config

open Outcomes List

variable {α : Type}

def stringsOf (value : JsonValue) : Option (List String) :=
  value.asArray.bind fun items => items.mapM JsonValue.asStr

def readAt (read : JsonValue → Option α) (path : List String) (root : JsonObject) : Option α :=
  (leafAt path (.object root)).bind read

/-- A reader that takes no object. -/
def ReadsLeaves (read : JsonValue → Option α) : Prop :=
  ∀ entries : JsonObject, read (.object entries) = none

theorem asStr_readsLeaves : ReadsLeaves JsonValue.asStr := fun _ => rfl

theorem asBool_readsLeaves : ReadsLeaves JsonValue.asBool := fun _ => rfl

theorem asI64_readsLeaves : ReadsLeaves JsonValue.asI64 := fun _ => rfl

theorem stringsOf_readsLeaves : ReadsLeaves stringsOf := fun _ => rfl

section Places

variable {read : JsonValue → Option α} {key inner : String} {path : List String}
  {root object : JsonObject}

theorem leafAt_nil_bind (h : ReadsLeaves read) (value : JsonValue) :
    (leafAt [] value).bind read = read value := by
  cases value with
  | object entries => exact (h entries).symm
  | _ => rfl

theorem readAt_key (h : ReadsLeaves read) : readAt read [key] root = (getEntry root key).bind read := by
  unfold readAt
  rw [leafAt_cons_object]
  cases getEntry root key with
  | none => rfl
  | some value => exact leafAt_nil_bind h value

theorem readAt_inner (hroot : getEntry root key = some (.object object)) :
    readAt read (key :: path) root = readAt read path object := by
  unfold readAt
  rw [leafAt_cons_object, hroot]
  rfl

theorem readAt_field (h : ReadsLeaves read) (hroot : getEntry root key = some (.object object)) :
    readAt read [key, inner] root = (getEntry object inner).bind read := by
  rw [readAt_inner hroot, readAt_key h]

theorem readAt_missing (hroot : getEntry root key = none) :
    readAt read (key :: path) root = none := by
  unfold readAt
  rw [leafAt_cons_object, hroot]
  rfl

end Places

section Fields

variable {object : JsonObject} {key context : String}

theorem expectObject_ok {value : JsonValue} (h : expectObject value context = .ok object) :
    value = .object object := by
  unfold expectObject at h
  split at h
  · rename_i entries hobject
    cases h
    exact asObject_eq_some.mp hobject
  · cases h

theorem expectString_ok {text : String} (h : expectString object key context = .ok text) :
    (getEntry object key).bind JsonValue.asStr = some text := by
  unfold expectString at h
  split at h
  · rename_i t htext
    cases h
    exact htext
  · cases h

variable {complaint : String}

theorem optionalField_ok {read : JsonValue → Option α} {result : Option α}
    (h : optionalField read complaint object key context = .ok result) :
    result = (getEntry object key).bind read := by
  unfold optionalField at h
  split at h
  · rename_i hentry
    cases h
    rw [hentry]
    rfl
  · rename_i value hentry
    rw [hentry]
    split at h
    · rename_i a hread
      cases h
      exact hread.symm
    · cases h

theorem optionalUnsigned_ok {bits : Nat} {result : Option (Fin (2 ^ bits))}
    (h : optionalUnsigned bits complaint object key context = .ok result) :
    result.map (fun n => (n.val : Int)) = (getEntry object key).bind JsonValue.asI64 := by
  unfold optionalUnsigned at h
  obtain ⟨field, hfield, hrange⟩ := bind_eq_ok h
  rw [← optionalField_ok hfield]
  split at hrange
  · cases hrange
    rfl
  · split at hrange
    · rename_i number hnum
      cases hrange
      exact congrArg some (Int.toNat_of_nonneg hnum.1)
    · cases hrange

theorem mapM_strings {items : List JsonValue} {texts : List String} {e : ConfigError}
    (h : items.mapM (fun item => match item.asStr with
      | some text => Except.ok text
      | none => .error e) = .ok texts) :
    items.mapM JsonValue.asStr = some texts := by
  have hforall := mapM_eq_ok h
  clear h
  induction hforall with
  | nil => rfl
  | cons hitem _ ih =>
    rw [mapM_cons]
    split at hitem
    · rename_i text htext
      cases hitem
      rw [htext, ih]
      rfl
    · cases hitem

theorem optionalStringArray_ok {result : Option (List String)}
    (h : optionalStringArray object key context = .ok result) :
    result = (getEntry object key).bind stringsOf := by
  unfold optionalStringArray at h
  obtain ⟨field, hfield, hitems⟩ := bind_eq_ok h
  have harray := optionalField_ok hfield
  have hstrings : (getEntry object key).bind stringsOf =
      ((getEntry object key).bind JsonValue.asArray).bind
        fun items => items.mapM JsonValue.asStr := by
    cases getEntry object key <;> rfl
  rw [hstrings, ← harray]
  split at hitems
  · cases hitems
    rfl
  · obtain ⟨texts, htexts, hres⟩ := bind_eq_ok hitems
    cases hres
    exact (mapM_strings htexts).symm

end Fields

theorem entriesOf_ordered {entries : List (String × α)} (h : KeyOrdered entries) :
    entriesOf entries = entries := by
  suffices hfold : ∀ start : List (String × α), KeyOrdered (start ++ entries) →
      entries.foldl (fun map e => insertEntry e.1 e.2 map) start = start ++ entries from
    hfold [] h
  induction entries with
  | nil => exact fun start _ => (append_nil start).symm
  | cons e entries ih =>
    intro start hstart
    have hlast : ∀ d ∈ start, d.1 < e.1 := fun d hd =>
      (pairwise_append.mp hstart).2.2 d hd e mem_cons_self
    have happend : start ++ e :: entries = (start ++ [e]) ++ entries := by simp
    rw [foldl_cons, insertEntry_last hlast, happend]
    exact ih (pairwise_cons.mp h).2 _ (happend ▸ hstart)

variable {map : JsonObject} {read : JsonValue → Option α} {results : List (String × α)}
variable {context : String}

theorem getEntry_read
    (h : List.Forall₂ (fun e result => result.1 = e.1 ∧ read e.2 = some result.2) map results)
    (name : String) : getEntry results name = (getEntry map name).bind read := by
  induction h with
  | nil => rfl
  | @cons e result _ _ hfirst _ ih =>
    obtain ⟨k, v⟩ := e
    obtain ⟨k', a⟩ := result
    obtain ⟨hkey, hread⟩ := hfirst
    change k' = k at hkey
    subst hkey
    rw [getEntry_cons, getEntry_cons, ih]
    split
    · exact hread.symm
    · rfl

theorem keyOrdered_read
    (h : List.Forall₂ (fun e result => result.1 = e.1 ∧ read e.2 = some result.2) map results)
    (hmap : KeyOrdered map) : KeyOrdered results := by
  have hkeys : results.map Prod.fst = map.map Prod.fst := by
    clear hmap
    induction h with
    | nil => rfl
    | cons hfirst _ ih => rw [map_cons, map_cons, hfirst.1, ih]
  have hordered : (map.map Prod.fst).Pairwise (· < ·) := pairwise_map.mpr hmap
  rw [← hkeys] at hordered
  exact pairwise_map.mp hordered

theorem parseBoolMap_ok {result : List (String × Bool)} (hmap : KeyOrdered map)
    (h : parseBoolMap (.object map) context = .ok result) (name : String) :
    getEntry result name = (getEntry map name).bind JsonValue.asBool := by
  obtain ⟨object, hobject, hents⟩ := bind_eq_ok h
  cases hobject
  obtain ⟨entries, hmapM, hres⟩ := bind_eq_ok hents
  cases hres
  have hforall : List.Forall₂ (fun (e : String × JsonValue) (result : String × Bool) =>
      result.1 = e.1 ∧ e.2.asBool = some result.2) map entries := by
    refine (mapM_eq_ok hmapM).imp ?_
    intro e result hread
    split at hread
    · rename_i enabled hbool
      cases hread
      exact ⟨rfl, hbool⟩
    · cases hread
  rw [entriesOf_ordered (keyOrdered_read hforall hmap)]
  exact getEntry_read hforall name

theorem optionalStringMap_ok {object : JsonObject} {key : String}
    {result : Option (List (String × String))}
    (hmap : ∀ map, getEntry object key = some (.object map) → KeyOrdered map)
    (h : optionalStringMap object key context = .ok result) (name : String) :
    getEntry (result.getD []) name = readAt JsonValue.asStr [key, name] object := by
  unfold optionalStringMap at h
  obtain ⟨field, hfield, hents⟩ := bind_eq_ok h
  have hobject := optionalField_ok hfield
  cases hentry : getEntry object key with
  | none =>
    rw [hentry] at hobject
    cases hobject
    cases hents
    rw [readAt_missing hentry]
    rfl
  | some value =>
    rw [hentry] at hobject
    change field = value.asObject at hobject
    cases hval : value.asObject with
    | none =>
      -- A value of another type has been refused.
      unfold optionalField at hfield
      rw [hentry] at hfield
      dsimp only at hfield
      rw [hval] at hfield
      cases hfield
    | some map =>
      rw [hval] at hobject
      subst hobject
      rw [asObject_eq_some.mp hval] at hentry
      obtain ⟨entries, hmapM, hres⟩ := bind_eq_ok hents
      cases hres
      have hforall : List.Forall₂ (fun (e : String × JsonValue) (result : String × String) =>
          result.1 = e.1 ∧ e.2.asStr = some result.2) map entries := by
        refine (mapM_eq_ok hmapM).imp ?_
        intro e result hread
        split at hread
        · rename_i text htext
          cases hread
          exact ⟨rfl, htext⟩
        · cases hread
      rw [Option.getD_some, entriesOf_ordered (keyOrdered_read hforall (hmap map hentry)),
        getEntry_read hforall, readAt_field asStr_readsLeaves hentry]

section Settings

variable {root : JsonObject} {context : String}

variable {object : JsonObject} {key : String} {c : RuntimePluginConfig}

theorem optionalString_ok {result : Option String}
    (h : optionalString object key context = .ok result) :
    result = (getEntry object key).bind JsonValue.asStr :=
  optionalField_ok h

theorem optionalBool_ok {result : Option Bool} (h : optionalBool object key context = .ok result) :
    result = (getEntry object key).bind JsonValue.asBool :=
  optionalField_ok h

theorem parseOptionalHooksConfig_ok {c : RuntimeHookConfig}
    (h : parseOptionalHooksConfig root = .ok c) :
    c.preToolUse = (readAt stringsOf ["hooks", "PreToolUse"] root).getD [] ∧
    c.postToolUse = (readAt stringsOf ["hooks", "PostToolUse"] root).getD [] ∧
    c.postToolUseFailure = (readAt stringsOf ["hooks", "PostToolUseFailure"] root).getD [] := by
  unfold parseOptionalHooksConfig parseOptionalHooksConfigObject at h
  split at h
  · rename_i hmissing
    cases h
    simp only [readAt_missing hmissing, Option.getD_none, and_self]
  · rename_i value hentry
    obtain ⟨hooks, hobject, h⟩ := bind_eq_ok h
    obtain ⟨pre, hpre, h⟩ := bind_eq_ok h
    obtain ⟨post, hpost, h⟩ := bind_eq_ok h
    obtain ⟨failure, hfailure, h⟩ := bind_eq_ok h
    cases h
    rw [expectObject_ok hobject] at hentry
    simp only [readAt_field stringsOf_readsLeaves hentry, ← optionalStringArray_ok hpre,
      ← optionalStringArray_ok hpost, ← optionalStringArray_ok hfailure, and_self]

theorem parseOptionalPermissionRules_ok {c : RuntimePermissionRuleConfig}
    (h : parseOptionalPermissionRules root = .ok c) :
    c.allow = (readAt stringsOf ["permissions", "allow"] root).getD [] ∧
    c.deny = (readAt stringsOf ["permissions", "deny"] root).getD [] ∧
    c.ask = (readAt stringsOf ["permissions", "ask"] root).getD [] := by
  unfold parseOptionalPermissionRules at h
  split at h
  · rename_i hmissing
    cases h
    have hnone : ∀ key, readAt stringsOf ["permissions", key] root = none := by
      intro key
      cases hentry : getEntry root "permissions" with
      | none => exact readAt_missing hentry
      | some value =>
        rw [hentry] at hmissing
        unfold readAt
        rw [leafAt_cons_object, hentry, Option.bind_some, leafAt_cons_leaf hmissing]
        rfl
    simp only [hnone, Option.getD_none, and_self]
  · rename_i permissions hobject
    obtain ⟨value, hentry, hval⟩ := Option.bind_eq_some_iff.mp hobject
    obtain ⟨allow, hallow, h⟩ := bind_eq_ok h
    obtain ⟨deny, hdeny, h⟩ := bind_eq_ok h
    obtain ⟨ask, hask, h⟩ := bind_eq_ok h
    cases h
    rw [asObject_eq_some.mp hval] at hentry
    simp only [readAt_field stringsOf_readsLeaves hentry, ← optionalStringArray_ok hallow,
      ← optionalStringArray_ok hdeny, ← optionalStringArray_ok hask, and_self]

def filesystemModeOf (value : JsonValue) : Option FilesystemIsolationMode :=
  value.asStr.bind fun label => (parseFilesystemModeLabel label).toOption

theorem parseOptionalSandboxConfig_ok {c : SandboxConfig}
    (h : parseOptionalSandboxConfig root = .ok c) :
    c.enabled = readAt JsonValue.asBool ["sandbox", "enabled"] root ∧
    c.namespaceRestrictions = readAt JsonValue.asBool ["sandbox", "namespaceRestrictions"] root ∧
    c.networkIsolation = readAt JsonValue.asBool ["sandbox", "networkIsolation"] root ∧
    c.filesystemMode = readAt filesystemModeOf ["sandbox", "filesystemMode"] root ∧
    c.allowedMounts = (readAt stringsOf ["sandbox", "allowedMounts"] root).getD [] := by
  unfold parseOptionalSandboxConfig at h
  split at h
  · rename_i hmissing
    cases h
    simp only [readAt_missing hmissing, Option.getD_none, and_self]
  · rename_i value hentry
    obtain ⟨sandbox, hobject, h⟩ := bind_eq_ok h
    obtain ⟨label, hlabel, h⟩ := bind_eq_ok h
    obtain ⟨mode, hmode, h⟩ := bind_eq_ok h
    obtain ⟨enabled, henabled, h⟩ := bind_eq_ok h
    obtain ⟨restrictions, hrestrictions, h⟩ := bind_eq_ok h
    obtain ⟨isolation, hisolation, h⟩ := bind_eq_ok h
    obtain ⟨mounts, hmounts, h⟩ := bind_eq_ok h
    cases h
    rw [expectObject_ok hobject] at hentry
    have hmodeOf : mode = (getEntry sandbox "filesystemMode").bind filesystemModeOf := by
      have hread : (getEntry sandbox "filesystemMode").bind filesystemModeOf =
          label.bind fun text => (parseFilesystemModeLabel text).toOption := by
        rw [optionalString_ok hlabel]
        cases getEntry sandbox "filesystemMode" <;> rfl
      rw [hread]
      cases label with
      | none =>
        cases hmode
        rfl
      | some text =>
        obtain ⟨parsed, hparse, hsome⟩ := map_eq_ok hmode
        rw [← hsome, Option.bind_some, hparse]
        rfl
    have hleaves : ReadsLeaves filesystemModeOf := fun _ => rfl
    simp only [readAt_field asBool_readsLeaves hentry, readAt_field stringsOf_readsLeaves hentry,
      readAt_field hleaves hentry, ← optionalBool_ok henabled, ← optionalBool_ok hrestrictions,
      ← optionalBool_ok hisolation, ← optionalStringArray_ok hmounts, ← hmodeOf, and_self]

theorem parseOptionalProviderFallbacks_ok {c : ProviderFallbackConfig}
    (h : parseOptionalProviderFallbacks root = .ok c) :
    c.primary = readAt JsonValue.asStr ["providerFallbacks", "primary"] root ∧
    c.fallbacks = (readAt stringsOf ["providerFallbacks", "fallbacks"] root).getD [] := by
  unfold parseOptionalProviderFallbacks at h
  split at h
  · rename_i hmissing
    cases h
    simp only [readAt_missing hmissing, Option.getD_none, and_self]
  · rename_i value hentry
    obtain ⟨entry, hobject, h⟩ := bind_eq_ok h
    obtain ⟨primary, hprimary, h⟩ := bind_eq_ok h
    obtain ⟨fallbacks, hfallbacks, h⟩ := bind_eq_ok h
    cases h
    rw [expectObject_ok hobject] at hentry
    simp only [readAt_field asStr_readsLeaves hentry, readAt_field stringsOf_readsLeaves hentry,
      ← optionalString_ok hprimary, ← optionalStringArray_ok hfallbacks, and_self]

theorem parseOptionalTrustedRoots_ok {roots : List String}
    (h : parseOptionalTrustedRoots root = .ok roots) :
    roots = (readAt stringsOf ["trustedRoots"] root).getD [] := by
  obtain ⟨field, hfield, h⟩ := bind_eq_ok h
  cases h
  rw [readAt_key stringsOf_readsLeaves, ← optionalStringArray_ok hfield]

theorem parseOptionalOauthConfig_ok {c : Option OAuthConfig}
    (h : parseOptionalOauthConfig root context = .ok c) :
    c.map OAuthConfig.clientId = readAt JsonValue.asStr ["oauth", "clientId"] root ∧
    c.map OAuthConfig.authorizeUrl = readAt JsonValue.asStr ["oauth", "authorizeUrl"] root ∧
    c.map OAuthConfig.tokenUrl = readAt JsonValue.asStr ["oauth", "tokenUrl"] root ∧
    (c.bind OAuthConfig.callbackPort).map (fun n => (n.val : Int)) =
      readAt JsonValue.asI64 ["oauth", "callbackPort"] root ∧
    c.bind OAuthConfig.manualRedirectUrl =
      readAt JsonValue.asStr ["oauth", "manualRedirectUrl"] root ∧
    (c.map OAuthConfig.scopes).getD [] = (readAt stringsOf ["oauth", "scopes"] root).getD [] := by
  unfold parseOptionalOauthConfig at h
  split at h
  · rename_i hmissing
    cases h
    simp only [readAt_missing hmissing, Option.map_none, Option.bind_none, and_self]
  · rename_i value hentry
    obtain ⟨object, hobject, h⟩ := bind_eq_ok h
    obtain ⟨clientId, hclient, h⟩ := bind_eq_ok h
    obtain ⟨authorizeUrl, hauthorize, h⟩ := bind_eq_ok h
    obtain ⟨tokenUrl, htoken, h⟩ := bind_eq_ok h
    obtain ⟨port, hport, h⟩ := bind_eq_ok h
    obtain ⟨redirect, hredirect, h⟩ := bind_eq_ok h
    obtain ⟨scopes, hscopes, h⟩ := bind_eq_ok h
    cases h
    rw [expectObject_ok hobject] at hentry
    simp only [readAt_field asStr_readsLeaves hentry, readAt_field stringsOf_readsLeaves hentry,
      readAt_field asI64_readsLeaves hentry, expectString_ok hclient, expectString_ok hauthorize,
      expectString_ok htoken, ← optionalUnsigned_ok hport, ← optionalString_ok hredirect,
      ← optionalStringArray_ok hscopes, Option.map_some, Option.bind_some, Option.getD_some,
      and_self]

theorem parseOptionalPluginConfig_ok (h : parseOptionalPluginConfig root = .ok c) :
    c.externalDirectories = (readAt stringsOf ["plugins", "externalDirectories"] root).getD [] ∧
    c.installRoot = readAt JsonValue.asStr ["plugins", "installRoot"] root ∧
    c.registryPath = readAt JsonValue.asStr ["plugins", "registryPath"] root ∧
    c.bundledRoot = readAt JsonValue.asStr ["plugins", "bundledRoot"] root ∧
    c.maxOutputTokens.map (fun n => (n.val : Int)) =
      readAt JsonValue.asI64 ["plugins", "maxOutputTokens"] root := by
  obtain ⟨deprecated, _, h⟩ := bind_eq_ok h
  split at h
  · rename_i hmissing
    cases h
    simp only [readAt_missing hmissing, Option.getD_none, Option.map_none, and_self]
  · rename_i value hentry
    obtain ⟨plugins, hobject, h⟩ := bind_eq_ok h
    obtain ⟨current, _, h⟩ := bind_eq_ok h
    obtain ⟨directories, hdirectories, h⟩ := bind_eq_ok h
    obtain ⟨install, hinstall, h⟩ := bind_eq_ok h
    obtain ⟨registry, hregistry, h⟩ := bind_eq_ok h
    obtain ⟨bundled, hbundled, h⟩ := bind_eq_ok h
    obtain ⟨tokens, htokens, h⟩ := bind_eq_ok h
    cases h
    rw [expectObject_ok hobject] at hentry
    simp only [readAt_field asStr_readsLeaves hentry, readAt_field stringsOf_readsLeaves hentry,
      readAt_field asI64_readsLeaves hentry, ← optionalStringArray_ok hdirectories,
      ← optionalString_ok hinstall, ← optionalString_ok hregistry, ← optionalString_ok hbundled,
      ← optionalUnsigned_ok htokens, and_self]

theorem parseOptionalPluginConfig_enabled (hroot : (JsonValue.object root).Storable)
    (h : parseOptionalPluginConfig root = .ok c) (id : String) :
    getEntry c.enabledPlugins id =
      if (valueAt ["plugins", "enabled"] (.object root)).isSome then
        readAt JsonValue.asBool ["plugins", "enabled", id] root
      else readAt JsonValue.asBool ["enabledPlugins", id] root := by
  have htable : ∀ {map : JsonObject} {result : List (String × Bool)} {context : String},
      (JsonValue.object map).Storable → parseBoolMap (.object map) context = .ok result →
        getEntry result id = readAt JsonValue.asBool [id] map := by
    intro map result context hmap hres
    rw [parseBoolMap_ok hmap.1 hres, readAt_key asBool_readsLeaves]
  obtain ⟨deprecated, hdeprecated, h⟩ := bind_eq_ok h
  unfold replaceBoolMap at hdeprecated
  have hold : getEntry deprecated id = readAt JsonValue.asBool ["enabledPlugins", id] root := by
    split at hdeprecated
    · rename_i hmissing
      cases hdeprecated
      rw [readAt_missing hmissing]
      rfl
    · rename_i value hentry
      obtain ⟨map, hobject, _⟩ := bind_eq_ok hdeprecated
      rw [expectObject_ok hobject] at hentry hdeprecated
      rw [readAt_inner hentry]
      exact htable (storable_of_getEntry hroot hentry) hdeprecated
  split at h
  · rename_i hmissing
    cases h
    have hval : valueAt ["plugins", "enabled"] (.object root) = none := by
      change (getEntry root "plugins").bind _ = none
      rw [hmissing]
      rfl
    rw [hval]
    exact hold
  · rename_i value hentry
    obtain ⟨plugins, hobject, h⟩ := bind_eq_ok h
    obtain ⟨current, hcur, h⟩ := bind_eq_ok h
    obtain ⟨directories, _, h⟩ := bind_eq_ok h
    obtain ⟨install, _, h⟩ := bind_eq_ok h
    obtain ⟨registry, _, h⟩ := bind_eq_ok h
    obtain ⟨bundled, _, h⟩ := bind_eq_ok h
    obtain ⟨tokens, _, h⟩ := bind_eq_ok h
    cases h
    rw [expectObject_ok hobject] at hentry
    have hplugins := storable_of_getEntry hroot hentry
    have hval : valueAt ["plugins", "enabled"] (.object root) = getEntry plugins "enabled" := by
      change (getEntry root "plugins").bind _ = _
      rw [hentry]
      change (getEntry plugins "enabled").bind some = _
      exact Option.bind_fun_some _
    rw [hval]
    unfold replaceBoolMap at hcur
    split at hcur
    · rename_i hmissing
      cases hcur
      rw [hmissing]
      exact hold
    · rename_i value hinner
      obtain ⟨map, hmap, _⟩ := bind_eq_ok hcur
      rw [expectObject_ok hmap] at hinner hcur
      rw [hinner, readAt_inner hentry, readAt_inner hinner]
      exact htable (storable_of_getEntry hplugins hinner) hcur

def permissionModeOf (value : JsonValue) : Option ResolvedPermissionMode :=
  value.asStr.bind fun label => (parsePermissionModeLabel label "").toOption

theorem parsePermissionModeLabel_toOption (mode context context' : String) :
    (parsePermissionModeLabel mode context).toOption =
      (parsePermissionModeLabel mode context').toOption := by
  unfold parsePermissionModeLabel
  split
  · rfl
  · split
    · rfl
    · split <;> rfl

theorem permissionModeOf_readsLeaves : ReadsLeaves permissionModeOf := fun _ => rfl

theorem permissionModeOf_label {value : Option JsonValue} {label : String}
    {mode : ResolvedPermissionMode} (hlabel : value.bind JsonValue.asStr = some label)
    (h : parsePermissionModeLabel label context = .ok mode) :
    value.bind permissionModeOf = some mode := by
  obtain ⟨v, hv, hstr⟩ := Option.bind_eq_some_iff.mp hlabel
  rw [hv, Option.bind_some, permissionModeOf, hstr, Option.bind_some,
    parsePermissionModeLabel_toOption label "" context, h]
  rfl

theorem parseOptionalPermissionMode_ok {c : Option ResolvedPermissionMode}
    (h : parseOptionalPermissionMode root = .ok c) :
    c = if (readAt JsonValue.asStr ["permissionMode"] root).isSome then
        readAt permissionModeOf ["permissionMode"] root
      else readAt permissionModeOf ["permissions", "defaultMode"] root := by
  unfold parseOptionalPermissionMode at h
  rw [readAt_key asStr_readsLeaves]
  split at h
  · rename_i label hlabel
    obtain ⟨mode, hmode, hsome⟩ := map_eq_ok h
    rw [hlabel, readAt_key permissionModeOf_readsLeaves, permissionModeOf_label hlabel hmode]
    exact hsome.symm
  · rename_i hnone
    rw [hnone]
    have hplace : ∀ {α : Type} {read : JsonValue → Option α}, ReadsLeaves read →
        readAt read ["permissions", "defaultMode"] root =
          (((getEntry root "permissions").bind JsonValue.asObject).bind
            fun permissions => getEntry permissions "defaultMode").bind read := by
      intro α read hread
      cases hentry : getEntry root "permissions" with
      | none => exact readAt_missing hentry
      | some value =>
        cases hobject : value.asObject with
        | none =>
          rw [Option.bind_some, hobject]
          unfold readAt
          rw [leafAt_cons_object, hentry, Option.bind_some, leafAt_cons_leaf hobject]
          rfl
        | some permissions =>
          rw [asObject_eq_some.mp hobject] at hentry
          rw [readAt_field hread hentry, Option.bind_some, hobject]
          rfl
    rw [hplace permissionModeOf_readsLeaves]
    split at h
    · rename_i hmissing
      cases h
      refine (Option.bind_eq_none_iff.mpr ?_).symm
      intro value hval
      have hstr := Option.bind_eq_none_iff.mp hmissing value hval
      rw [permissionModeOf, hstr]
      rfl
    · rename_i label hlabel
      obtain ⟨mode, hmode, hsome⟩ := map_eq_ok h
      rw [permissionModeOf_label hlabel hmode]
      exact hsome.symm

end Settings

end DbClinic.Runtime.Config
