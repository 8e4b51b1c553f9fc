import Mathlib.Data.Finset.Insert
import DbClinic.Lib.KeyMap
import DbClinic.Runtime.Trim
import DbClinic.Tools.Registry

/-!
The names of `--allowedTools`. A name is looked up by its folded form, in one map that is
filled with the built-in tools, the plugins', the runtime's and last the aliases. The
constructors of a registry compare exact names.
-/

namespace DbClinic.Tools

open DbClinic.Runtime List

namespace GlobalToolRegistry

def builtinNames : List String := mvpToolSpecs.map ToolSpec.name

def withPluginTools (pluginTools : List PluginTool) : Except String GlobalToolRegistry :=
  go ∅ pluginTools
where
  go (seen : Finset String) : List PluginTool → Except String GlobalToolRegistry
    | [] => .ok ⟨pluginTools, [], none⟩
    | tool :: rest =>
      if tool.name ∈ builtinNames then
        .error ("plugin tool `" ++ tool.name ++ "` conflicts with a built-in tool name")
      else if tool.name ∈ seen then
        .error ("duplicate plugin tool name `" ++ tool.name ++ "`")
      else go (insert tool.name seen) rest

def withRuntimeTools (registry : GlobalToolRegistry) (runtimeTools : List RuntimeToolDefinition) :
    Except String GlobalToolRegistry :=
  go (builtinNames ++ registry.pluginTools.map PluginTool.name).toFinset runtimeTools
where
  go (seen : Finset String) : List RuntimeToolDefinition → Except String GlobalToolRegistry
    | [] => .ok { registry with runtimeTools }
    | tool :: rest =>
      if tool.name ∈ seen then
        .error ("runtime tool `" ++ tool.name ++ "` conflicts with an existing tool name")
      else go (insert tool.name seen) rest

def normalizeToolName (value : String) : String :=
  String.ofList ((trim value.toList).map fun c => (if c = '-' then '_' else c).toLower)

def toolAliases : List (String × String) :=
  [("read", "read_file"), ("write", "write_file"), ("edit", "edit_file"), ("glob", "glob_search"),
    ("grep", "grep_search")]

def canonicalNames (registry : GlobalToolRegistry) : List String :=
  builtinNames ++ registry.pluginTools.map PluginTool.name ++
    registry.runtimeTools.map RuntimeToolDefinition.name

/-- `name_map`: a later name takes the place of an earlier one that folds alike. -/
def nameMap (registry : GlobalToolRegistry) : KeyMap String String :=
  (KeyMap.empty.insertAll
    (registry.canonicalNames.map fun name => (normalizeToolName name, name))).insertAll toolAliases

def resolve (registry : GlobalToolRegistry) (token : String) : Option String :=
  registry.nameMap.get (normalizeToolName token)

def tokensOf (value : String) : List String :=
  ((value.toList.splitOnP fun c => c = ',' || isWhitespace c).filter (· ≠ [])).map String.ofList

/-- The inner loop, over the tokens of all values. -/
def allowTokens (registry : GlobalToolRegistry) :
    List String → Finset String → Except String (Finset String)
  | [], allowed => .ok allowed
  | token :: tokens, allowed =>
    match registry.resolve token with
    | none => .error ("unsupported tool in --allowedTools: " ++ token ++
        " (expected one of: " ++ joinText ", " registry.canonicalNames ++ ")")
    | some canonical => allowTokens registry tokens (insert canonical allowed)

/-- `normalize_allowed_tools`; none where every tool is allowed. -/
def normalizeAllowedTools (registry : GlobalToolRegistry) (values : List String) :
    Except String (Option (Finset String)) :=
  if values = [] then .ok none
  else
    match registry.allowTokens (values.flatMap tokensOf) ∅ with
    | .error error => .error error
    | .ok allowed =>
      if allowed = ∅ then
        .error ("--allowedTools was provided with no usable tool names (got `" ++
          joinText " " values ++ "`). Omit the flag to allow all tools.")
      else .ok (some allowed)

theorem alias_not_folded : ∀ entry ∈ toolAliases, ∀ other ∈ toolAliases,
    normalizeToolName entry.2 ≠ other.1 := by
  decide

theorem get_aliases (m : KeyMap String String) {key : String}
    (h : key ∈ toolAliases.map Prod.fst) :
    ∃ target, (key, target) ∈ toolAliases ∧ (m.insertAll toolAliases).get key = some target := by
  obtain ⟨⟨spelling, target⟩, hmem, rfl⟩ := mem_map.mp h
  refine ⟨target, hmem, ?_⟩
  obtain ⟨before, after, hsplit⟩ := append_of_mem hmem
  rw [hsplit]
  apply KeyMap.get_insertAll_last
  have hkeys : (toolAliases.map Prod.fst).Nodup := by decide
  rw [hsplit, map_append, map_cons] at hkeys
  intro pair hpair heq
  have hlater := (nodup_cons.mp hkeys.of_append_right).1
  exact hlater (mem_map.mpr ⟨pair, hpair, heq⟩)

theorem exists_last {α β : Type} [DecidableEq β] (key : α → β) {items : List α} {item : α}
    (h : item ∈ items) :
    ∃ before last after, items = before ++ last :: after ∧ key last = key item ∧
      ∀ other ∈ after, key other ≠ key item := by
  induction items generalizing item with
  | nil => cases h
  | cons first items ih =>
    by_cases hlater : ∃ other ∈ items, key other = key item
    · obtain ⟨other, hother, hkey⟩ := hlater
      obtain ⟨before, last, after, rfl, hlast, hafter⟩ := ih hother
      exact ⟨first :: before, last, after, rfl, hlast.trans hkey, fun x hx => hkey ▸ hafter x hx⟩
    · push Not at hlater
      rcases mem_cons.mp h with rfl | h
      · exact ⟨[], item, items, rfl, rfl, hlater⟩
      · exact absurd rfl (hlater item h)

/-- No alias folds like the name, and no name after its last place does. -/
def Unshadowed (registry : GlobalToolRegistry) (name : String) : Prop :=
  normalizeToolName name ∉ toolAliases.map Prod.fst ∧
    ∃ before after, registry.canonicalNames = before ++ name :: after ∧
      ∀ other ∈ after, normalizeToolName other ≠ normalizeToolName name

variable {registry : GlobalToolRegistry} {token : String} {allowed : Finset String}

theorem resolve_last {name : String} {before after : List String}
    (halias : normalizeToolName token ∉ toolAliases.map Prod.fst)
    (hnames : registry.canonicalNames = before ++ name :: after)
    (hname : normalizeToolName name = normalizeToolName token)
    (hafter : ∀ other ∈ after, normalizeToolName other ≠ normalizeToolName token) :
    registry.resolve token = some name := by
  have hnot : ∀ pair ∈ toolAliases, pair.1 ≠ normalizeToolName token :=
    fun pair hpair heq => halias (mem_map.mpr ⟨pair, hpair, heq⟩)
  rw [resolve, nameMap, KeyMap.get_insertAll_of_not_mem _ hnot, hnames, map_append,
    map_cons, hname]
  apply KeyMap.get_insertAll_last
  intro pair hpair
  obtain ⟨other, hother, rfl⟩ := mem_map.mp hpair
  exact hafter other hother

theorem resolve_self_iff (h : token ∈ registry.canonicalNames) :
    registry.resolve token = some token ↔ registry.Unshadowed token := by
  constructor
  · intro hself
    have halias : normalizeToolName token ∉ toolAliases.map Prod.fst := by
      intro hmem
      obtain ⟨target, htarget, hget⟩ := get_aliases
        (KeyMap.empty.insertAll
          (registry.canonicalNames.map fun name => (normalizeToolName name, name))) hmem
      have hsame : target = token := Option.some.inj (hget.symm.trans hself)
      subst hsame
      exact alias_not_folded _ htarget _ htarget rfl
    obtain ⟨before, last, after, hnames, hlast, hafter⟩ := exists_last normalizeToolName h
    have hresolve := resolve_last halias hnames hlast hafter
    obtain rfl : last = token := Option.some.inj (hresolve.symm.trans hself)
    exact ⟨halias, before, after, hnames, hafter⟩
  · rintro ⟨halias, before, after, hnames, hafter⟩
    exact resolve_last halias hnames rfl hafter

theorem resolve_spelled {tool : String} (h : registry.resolve token = some tool) :
    (normalizeToolName token, tool) ∈ toolAliases ∨
      tool ∈ registry.canonicalNames ∧ normalizeToolName tool = normalizeToolName token := by
  by_cases halias : normalizeToolName token ∈ toolAliases.map Prod.fst
  · obtain ⟨target, htarget, hget⟩ := get_aliases
      (KeyMap.empty.insertAll
        (registry.canonicalNames.map fun name => (normalizeToolName name, name))) halias
    obtain rfl : target = tool := Option.some.inj (hget.symm.trans h)
    exact .inl htarget
  · by_cases hname : ∃ name ∈ registry.canonicalNames,
        normalizeToolName name = normalizeToolName token
    · obtain ⟨name, hmem, hfold⟩ := hname
      obtain ⟨before, last, after, hnames, hlast, hafter⟩ := exists_last normalizeToolName hmem
      rw [hfold] at hlast hafter
      obtain rfl := Option.some.inj ((resolve_last halias hnames hlast hafter).symm.trans h)
      exact .inr ⟨by simp [hnames], hlast⟩
    · push Not at hname
      have hnot : ∀ pair ∈ toolAliases, pair.1 ≠ normalizeToolName token :=
        fun pair hpair heq => halias (mem_map.mpr ⟨pair, hpair, heq⟩)
      have hnone : ∀ pair ∈ registry.canonicalNames.map fun name => (normalizeToolName name, name),
          pair.1 ≠ normalizeToolName token := by
        intro pair hpair
        obtain ⟨name, hmem, rfl⟩ := mem_map.mp hpair
        exact hname name hmem
      rw [resolve, nameMap, KeyMap.get_insertAll_of_not_mem _ hnot,
        KeyMap.get_insertAll_of_not_mem _ hnone] at h
      cases h

theorem mem_allowTokens {tokens : List String} {start : Finset String}
    (h : registry.allowTokens tokens start = .ok allowed) (tool : String) :
    tool ∈ allowed ↔ tool ∈ start ∨ ∃ token ∈ tokens, registry.resolve token = some tool := by
  induction tokens generalizing start with
  | nil =>
    obtain rfl := Except.ok.inj h
    simp
  | cons token tokens ih =>
    unfold allowTokens at h
    split at h
    · cases h
    · rename_i canonical hresolve
      have hfirst : registry.resolve token = some tool ↔ tool = canonical := by
        rw [hresolve, Option.some_inj, eq_comm]
      rw [ih h, Finset.mem_insert, exists_mem_cons_iff, hfirst, or_assoc,
        or_left_comm]

theorem mem_allowed {values : List String}
    (h : registry.normalizeAllowedTools values = .ok (some allowed)) (tool : String) :
    tool ∈ allowed ↔ ∃ token ∈ values.flatMap tokensOf, registry.resolve token = some tool := by
  by_cases hvals : values = []
  · simp [normalizeAllowedTools, hvals] at h
  · cases hloop : registry.allowTokens (values.flatMap tokensOf) ∅ with
    | error error => simp [normalizeAllowedTools, hvals, hloop] at h
    | ok found =>
      by_cases hempty : found = ∅
      · simp [normalizeAllowedTools, hvals, hloop, hempty] at h
      · have hfound : found = allowed := by
          simpa [normalizeAllowedTools, hvals, hloop, hempty] using h
        simpa [hfound] using mem_allowTokens hloop tool

/-- Each registered name among the tokens stands for itself, and the allowed set is that of
the registered names and of what the other tokens stand for: the target of an alias, or a
name in another spelling. -/
structure NamesExactly (registry : GlobalToolRegistry) (values : List String) : Prop where
  itself : ∀ token ∈ values.flatMap tokensOf, token ∈ registry.canonicalNames →
    registry.resolve token = some token
  allowed : ∀ allowed, registry.normalizeAllowedTools values = .ok (some allowed) →
    ∀ tool, tool ∈ allowed ↔ ∃ token ∈ values.flatMap tokensOf,
      token ∈ registry.canonicalNames ∧ tool = token ∨
        token ∉ registry.canonicalNames ∧ registry.resolve token = some tool
  spelled : ∀ token ∈ values.flatMap tokensOf, token ∉ registry.canonicalNames →
    ∀ tool, registry.resolve token = some tool →
      (normalizeToolName token, tool) ∈ toolAliases ∨
        tool ∈ registry.canonicalNames ∧ normalizeToolName tool = normalizeToolName token

/-- The allowed set names tools exactly if no registered name among the tokens folds like
an alias or like a name registered after it. -/
theorem allowed_tools_named_iff (registry : GlobalToolRegistry) (values : List String) :
    registry.NamesExactly values ↔
      ∀ token ∈ values.flatMap tokensOf, token ∈ registry.canonicalNames →
        registry.Unshadowed token := by
  constructor
  · intro hnamed token htoken hname
    exact (resolve_self_iff hname).mp (hnamed.itself token htoken hname)
  · intro hunshadowed
    have hitself : ∀ token ∈ values.flatMap tokensOf, token ∈ registry.canonicalNames →
        registry.resolve token = some token :=
      fun token htoken hname => (resolve_self_iff hname).mpr (hunshadowed token htoken hname)
    refine ⟨hitself, ?_, fun _ _ _ _ => resolve_spelled⟩
    intro allowed hallowed tool
    rw [mem_allowed hallowed]
    constructor
    · rintro ⟨token, htoken, hresolve⟩
      refine ⟨token, htoken, ?_⟩
      by_cases hname : token ∈ registry.canonicalNames
      · have hsame := (hitself token htoken hname).symm.trans hresolve
        exact .inl ⟨hname, (Option.some.inj hsame).symm⟩
      · exact .inr ⟨hname, hresolve⟩
    · rintro ⟨token, htoken, ⟨hname, rfl⟩ | ⟨-, hresolve⟩⟩
      · exact ⟨tool, htoken, hitself tool htoken hname⟩
      · exact ⟨token, htoken, hresolve⟩

def pluginNamed (name : String) : PluginTool where
  name := name
  command := "run"
  args := []
  requiredPermission := .readOnly

/-- A plugin may be called `Bash` beside the tool `bash`, which then cannot be allowed; and
one called `read` cannot be allowed itself. -/
theorem plugin_shadows_builtin :
    (withPluginTools [pluginNamed "Bash"]).bind (withRuntimeTools · []) =
        .ok ⟨[pluginNamed "Bash"], [], none⟩ ∧
      normalizeAllowedTools ⟨[pluginNamed "Bash"], [], none⟩ ["bash"] = .ok (some {"Bash"}) ∧
      ¬ NamesExactly ⟨[pluginNamed "Bash"], [], none⟩ ["bash"] ∧
      (withPluginTools [pluginNamed "read"]).bind (withRuntimeTools · []) =
        .ok ⟨[pluginNamed "read"], [], none⟩ ∧
      ¬ NamesExactly ⟨[pluginNamed "read"], [], none⟩ ["read"] := by
  refine ⟨rfl, by decide, ?_, rfl, ?_⟩
  · intro h
    exact absurd (h.itself "bash" (by decide) (by decide)) (by decide)
  · intro h
    exact absurd (h.itself "read" (by decide) (by decide)) (by decide)

end GlobalToolRegistry

end DbClinic.Tools
