import DbClinic.Lib.Cuts
import DbClinic.Mcp.Framing
import DbClinic.Runtime.Config
import DbClinic.Runtime.JsonRoundTrip

/-!
The signature of a server configuration, whose hash is to change with the
configuration. The parts stand with a bar between them, an entry of a map with a
`=`, and entries with a `;`; only the arguments of a command are escaped. A part
that may be missing is rendered as an empty one is. A text is the list of its
characters.
-/

namespace DbClinic.Mcp

open DbClinic.Cuts List
open DbClinic.Runtime (KeyOrdered)
open DbClinic.Runtime.Config

def barred (parts : List (List Char)) : List Char := ['|'].intercalate parts

/-- `replace('\\', "\\\\")`, then `replace('|', "\\|")`. -/
def escapePart (part : List Char) : List Char :=
  (part.flatMap fun c => if c = '\\' then ['\\', '\\'] else [c]).flatMap fun c =>
    if c = '|' then ['\\', '|'] else [c]

def renderCommandSignature (command : List String) : List Char :=
  '[' :: barred (command.map fun part => escapePart part.toList) ++ [']']

def renderEnvSignature (map : List (String × String)) : List Char :=
  [';'].intercalate (map.map fun entry => entry.1.toList ++ '=' :: entry.2.toList)

/-- `as_deref().unwrap_or("")`. -/
def textOrEmpty (text : Option String) : List Char := (text.getD "").toList

def numberOrEmpty {bound : Nat} : Option (Fin bound) → List Char
  | some number => number.val.repr.toList
  | none => []

def flagOrEmpty : Option Bool → List Char
  | some true => "true".toList
  | some false => "false".toList
  | none => []

def renderOauthSignature : Option McpOAuthConfig → List Char
  | some oauth =>
    barred [textOrEmpty oauth.clientId, numberOrEmpty oauth.callbackPort,
      textOrEmpty oauth.authServerMetadataUrl, flagOrEmpty oauth.xaa]
  | none => []

def renderRemote (kind : String) (remote : McpRemoteServerConfig) : List Char :=
  barred [kind.toList, remote.url.toList, renderEnvSignature remote.headers,
    textOrEmpty remote.headersHelper, renderOauthSignature remote.oauth]

def renderConfig : McpServerConfig → List Char
  | .stdio stdio =>
    barred ["stdio".toList, stdio.command.toList, renderCommandSignature stdio.args,
      renderEnvSignature stdio.env, numberOrEmpty stdio.toolCallTimeoutMs]
  | .sse remote => renderRemote "sse" remote
  | .http remote => renderRemote "http" remote
  | .ws ws =>
    barred ["ws".toList, ws.url.toList, renderEnvSignature ws.headers,
      textOrEmpty ws.headersHelper]
  | .sdk sdk => barred ["sdk".toList, sdk.name.toList]
  | .managedProxy proxy => barred ["claudeai-proxy".toList, proxy.url.toList, proxy.id.toList]

def MapsOrdered : McpServerConfig → Prop
  | .stdio stdio => KeyOrdered stdio.env
  | .sse remote => KeyOrdered remote.headers
  | .http remote => KeyOrdered remote.headers
  | .ws ws => KeyOrdered ws.headers
  | .sdk _ => True
  | .managedProxy _ => True

def Tracked (config : McpServerConfig) : Prop :=
  ∀ other, MapsOrdered other → renderConfig other = renderConfig config → other = config

/-- At most one entry, and no `=` in it. -/
def MapSettled (map : List (String × String)) : Prop :=
  map.length ≤ 1 ∧ ∀ entry ∈ map, '=' ∉ entry.1.toList ∧ '=' ∉ entry.2.toList

theorem keyOrdered_of_short {map : List (String × String)} (h : map.length ≤ 1) :
    KeyOrdered map := by
  match map with
  | [] => exact List.Pairwise.nil
  | [entry] => exact pairwise_singleton _ _
  | _ :: _ :: _ =>
    simp only [length_cons] at h
    omega

theorem renderEnvSignature_cons (entry : String × String) (map : List (String × String)) :
    ∃ rest, renderEnvSignature (entry :: map) = entry.1.toList ++ '=' :: rest := by
  cases map with
  | nil => exact ⟨entry.2.toList, by simp [renderEnvSignature]⟩
  | cons next map =>
    refine ⟨entry.2.toList ++ [';'] ++ renderEnvSignature (next :: map), ?_⟩
    simp [renderEnvSignature, intercalate_cons_cons]

/-- What stands for a map is empty or has a `=`. -/
theorem renderEnvSignature_cases (map : List (String × String)) :
    renderEnvSignature map = [] ∨ '=' ∈ renderEnvSignature map := by
  cases map with
  | nil => exact .inl rfl
  | cons entry map =>
    obtain ⟨rest, hrest⟩ := renderEnvSignature_cons entry map
    rw [hrest]
    exact .inr (by simp)

/-- Every such text stands for a map of at most one entry, whose key has no `=`. -/
theorem exists_map {text : List Char} (h : text = [] ∨ '=' ∈ text) :
    ∃ map : List (String × String), map.length ≤ 1 ∧ renderEnvSignature map = text ∧
      ∀ entry ∈ map, '=' ∉ entry.1.toList := by
  rcases h with rfl | hmem
  · exact ⟨[], by simp, rfl, by simp⟩
  · obtain ⟨key, value, rfl, hkey⟩ := eq_append_cons_of_mem hmem
    refine ⟨[(String.ofList key, String.ofList value)], by simp, ?_, ?_⟩
    · simp [renderEnvSignature]
    · intro entry hentry
      rw [mem_singleton] at hentry
      subst hentry
      simpa using hkey

theorem length_le_count (map : List (String × String)) :
    map.length ≤ (renderEnvSignature map).count '=' := by
  induction map with
  | nil => simp
  | cons entry map ih =>
    cases map with
    | nil =>
      simp only [renderEnvSignature, map_cons, map_nil, intercalate_singleton,
        count_append, count_cons_self, length_singleton]
      omega
    | cons next map =>
      have hrest : renderEnvSignature (entry :: next :: map) =
          entry.1.toList ++ '=' :: entry.2.toList ++ [';'] ++
            renderEnvSignature (next :: map) := by
        simp [renderEnvSignature, intercalate_cons_cons]
      rw [hrest, count_append, count_append, count_append, count_cons_self]
      simp only [length_cons] at ih ⊢
      omega

theorem MapSettled.unique {map other : List (String × String)} (h : MapSettled map)
    (heq : renderEnvSignature other = renderEnvSignature map) : other = map := by
  have hcount := length_le_count other
  rw [heq] at hcount
  match map with
  | [] =>
    have hzero : (renderEnvSignature []).count '=' = 0 := rfl
    exact eq_nil_of_length_eq_zero (by omega)
  | [entry] =>
    obtain ⟨hkey, hval⟩ := h.2 entry mem_cons_self
    have htext (entry : String × String) :
        renderEnvSignature [entry] = entry.1.toList ++ '=' :: entry.2.toList := by
      simp [renderEnvSignature]
    have hone : (renderEnvSignature [entry]).count '=' = 1 := by
      rw [htext, count_append, count_cons_self, count_eq_zero.mpr hkey,
        count_eq_zero.mpr hval]
    match other with
    | [] =>
      rw [htext] at heq
      have hlen := congrArg List.length heq
      simp [renderEnvSignature] at hlen
    | [entry'] =>
      rw [htext, htext] at heq
      obtain ⟨hfst, -, hsnd⟩ := (append_cons_inj_of_notMem hkey hval).mp heq.symm
      rw [Prod.ext (String.toList_inj.mp hfst) (String.toList_inj.mp hsnd)]
    | _ :: _ :: _ =>
      simp only [length_cons] at hcount
      omega
  | _ :: _ :: _ =>
    have hlen := h.1
    simp only [length_cons] at hlen
    omega

theorem exists_other_map {map : List (String × String)} (h : ¬MapSettled map) :
    ∃ other : List (String × String), other.length ≤ 1 ∧
      renderEnvSignature other = renderEnvSignature map ∧ other ≠ map := by
  obtain ⟨first, hshort, htext, hkey⟩ := exists_map (renderEnvSignature_cases map)
  by_cases hne : first = map
  · subst hne
    -- the key has no `=`, so that the value has one, and is cut there
    have hentry : ∃ entry ∈ first, '=' ∈ entry.2.toList := by
      by_contra hnone
      push Not at hnone
      exact h ⟨hshort, fun entry hentry => ⟨hkey entry hentry, hnone entry hentry⟩⟩
    obtain ⟨entry, hentry, hval⟩ := hentry
    have hfirst : first = [entry] := by
      match first with
      | [] => cases hentry
      | [only] =>
        rw [mem_singleton] at hentry
        rw [hentry]
      | _ :: _ :: _ =>
        simp only [length_cons] at hshort
        omega
    subst hfirst
    obtain ⟨front, back, hback, -⟩ := eq_append_cons_of_mem hval
    refine ⟨[(String.ofList (entry.1.toList ++ '=' :: front), String.ofList back)], by simp, ?_, ?_⟩
    · simp [renderEnvSignature, hback]
    · intro heq
      have hsame := congrArg (fun e : List (String × String) => e.map fun p => p.1.toList) heq
      simp at hsame
  · exact ⟨first, hshort, htext, hne⟩

end DbClinic.Mcp
