import DbClinic.Mcp.ConfigTracking
import DbClinic.Mcp.ProxyUrl

/-!
The signature of a command and its arguments, and with it the last kind of
server. The arguments are escaped and stand in brackets, so that their text tells
them apart where there are any. The command in front of them and the map behind
them are not escaped: what stands in brackets elsewhere can be read as the
arguments.
-/

namespace DbClinic.Mcp

open DbClinic.Cuts List
open DbClinic.Runtime (KeyOrdered)
open DbClinic.Runtime.Config

/-- A character of an argument, or the border of two. -/
def escapeSign : Option Char → List Char
  | some c => if c = '\\' then ['\\', '\\'] else if c = '|' then ['\\', '|'] else [c]
  | none => ['|']

def signs (command : List String) : List (Option Char) :=
  [none].intercalate (command.map fun part => part.toList.map some)

/-- What arguments are rendered as, without the brackets. -/
def commandText (command : List String) : List Char :=
  barred (command.map fun part => escapePart part.toList)

theorem renderCommandSignature_eq (command : List String) :
    renderCommandSignature command = '[' :: commandText command ++ [']'] := rfl

theorem escapePart_eq (part : List Char) :
    escapePart part = (part.map some).flatMap escapeSign := by
  induction part with
  | nil => rfl
  | cons c part ih =>
    have hcons : escapePart (c :: part) = escapePart [c] ++ escapePart part := by
      simp [escapePart]
    have hone : escapePart [c] = escapeSign (some c) := by
      simp only [escapePart, escapeSign, flatMap_cons, flatMap_nil, append_nil]
      split
      · rfl
      · simp
    rw [hcons, hone, ih]
    rfl

theorem commandText_eq (command : List String) :
    commandText command = (signs command).flatMap escapeSign := by
  unfold commandText signs barred
  induction command with
  | nil => rfl
  | cons part command ih =>
    cases command with
    | nil =>
      simp only [map_cons, map_nil, intercalate_singleton]
      exact escapePart_eq _
    | cons next command =>
      simp only [map_cons, intercalate_cons_cons] at ih ⊢
      rw [ih, escapePart_eq]
      simp [escapeSign]

def readSign : List Char → Option (Option Char × List Char)
  | '\\' :: c :: rest => some (some c, rest)
  | '|' :: rest => some (none, rest)
  | c :: rest => some (some c, rest)
  | [] => none

theorem readSign_escapeSign (sign : Option Char) (rest : List Char) :
    readSign (escapeSign sign ++ rest) = some (sign, rest) := by
  cases sign with
  | none => rfl
  | some c =>
    simp only [escapeSign]
    split
    · rename_i hc
      subst hc
      rfl
    · split
      · rename_i hc
        subst hc
        rfl
      · rename_i hslash hbar
        rw [singleton_append, readSign]
        · exact fun _ _ h _ => hslash h
        · exact hbar

theorem flatMap_escapeSign_inj {xs ys : List (Option Char)}
    (h : xs.flatMap escapeSign = ys.flatMap escapeSign) : xs = ys := by
  induction xs generalizing ys with
  | nil =>
    cases ys with
    | nil => rfl
    | cons y ys =>
      have hread := readSign_escapeSign y (ys.flatMap escapeSign)
      rw [← flatMap_cons, ← h] at hread
      cases hread
  | cons x xs ih =>
    have hread := readSign_escapeSign x (xs.flatMap escapeSign)
    rw [← flatMap_cons, h] at hread
    cases ys with
    | nil => cases hread
    | cons y ys =>
      rw [flatMap_cons, readSign_escapeSign] at hread
      obtain ⟨hsign, hrest⟩ := Prod.mk.inj (Option.some.inj hread)
      rw [hsign, ih hrest.symm]

variable {stdio : McpStdioServerConfig} {command other : List String} {text : List Char}

theorem splitOn_signs (h : command ≠ []) :
    (signs command).splitOn none = command.map fun part => part.toList.map some := by
  apply splitOn_intercalate
  · simp
  · simpa using h

theorem commandText_inj (h : command ≠ []) (h' : other ≠ [])
    (heq : commandText other = commandText command) : other = command := by
  rw [commandText_eq, commandText_eq] at heq
  have hsplit := congrArg (List.splitOn none) (flatMap_escapeSign_inj heq)
  rw [splitOn_signs h, splitOn_signs h'] at hsplit
  refine map_injective_iff.mpr ?_ hsplit
  intro a b hab
  exact String.toList_inj.mp (map_injective_iff.mpr (Option.some_injective _) hab)

theorem commandText_unique (h : command ≠ []) (hempty : command ≠ [""])
    (heq : commandText other = commandText command) :
    other = command := by
  cases other with
  | nil => exact absurd (commandText_inj h (cons_ne_nil "" []) heq).symm hempty
  | cons part other => exact commandText_inj h (cons_ne_nil _ _) heq

inductive WellEscaped : List Char → Prop
  | nil : WellEscaped []
  | backslash {cs : List Char} (h : WellEscaped cs) : WellEscaped ('\\' :: '\\' :: cs)
  | bar {cs : List Char} (h : WellEscaped cs) : WellEscaped ('\\' :: '|' :: cs)
  | plain {c : Char} {cs : List Char} (hc : c ≠ '\\') (h : WellEscaped cs) : WellEscaped (c :: cs)

theorem wellEscaped_flatMap (xs : List (Option Char)) : WellEscaped (xs.flatMap escapeSign) := by
  induction xs with
  | nil => exact .nil
  | cons x xs ih =>
    rw [flatMap_cons]
    cases x with
    | none => exact .plain (by decide) ih
    | some c =>
      simp only [escapeSign]
      split
      · exact .backslash ih
      · split
        · exact .bar ih
        · rename_i hslash _
          exact .plain hslash ih

theorem WellEscaped.exists_signs (h : WellEscaped text) :
    ∃ xs : List (Option Char), xs.flatMap escapeSign = text := by
  induction h with
  | nil => exact ⟨[], rfl⟩
  | backslash h ih =>
    obtain ⟨xs, rfl⟩ := ih
    exact ⟨some '\\' :: xs, rfl⟩
  | bar h ih =>
    obtain ⟨xs, rfl⟩ := ih
    exact ⟨some '|' :: xs, rfl⟩
  | @plain c cs hc h ih =>
    obtain ⟨xs, rfl⟩ := ih
    by_cases hbar : c = '|'
    · subst hbar
      exact ⟨none :: xs, rfl⟩
    · exact ⟨some c :: xs, by simp [escapeSign, hc, hbar]⟩

theorem wellEscaped_commandText (command : List String) : WellEscaped (commandText command) := by
  rw [commandText_eq]
  exact wellEscaped_flatMap _

theorem WellEscaped.exists_command (h : WellEscaped text) :
    ∃ command : List String, commandText command = text := by
  obtain ⟨xs, rfl⟩ := h.exists_signs
  refine ⟨(xs.splitOn none).map fun part => String.ofList (part.filterMap id), ?_⟩
  rw [commandText_eq]
  congr 1
  have hparts : (xs.splitOn none).map (fun part => (part.filterMap id).map some) =
      xs.splitOn none := by
    rw [map_congr_left, map_id]
    intro part hpart
    have hnone : none ∉ part := sep_notMem_of_mem_splitOn hpart
    clear hpart
    induction part with
    | nil => rfl
    | cons x part ih =>
      cases x with
      | none => exact absurd mem_cons_self hnone
      | some c =>
        have hrest := ih fun hmem => hnone (mem_cons_of_mem _ hmem)
        simpa using hrest
  rw [signs, map_map]
  calc [none].intercalate ((xs.splitOn none).map _)
      = [none].intercalate (xs.splitOn none) := by
        rw [← hparts]
        simp [Function.comp_def]
    _ = xs := intercalate_splitOn none

/-- What a row holds in front of the timeout. -/
def stdioText (stdio : McpStdioServerConfig) : List Char :=
  barred [stdio.command.toList, renderCommandSignature stdio.args, renderEnvSignature stdio.env]

def StdioTracked (stdio : McpStdioServerConfig) : Prop :=
  ∀ other : McpStdioServerConfig, KeyOrdered other.env → stdioText other = stdioText stdio →
    other.toolCallTimeoutMs = stdio.toolCallTimeoutMs → other = stdio

/-- There are arguments, and not just an empty one. The brackets around them are
the only ones that stand between bars, are well escaped within and have nothing
or a `=` behind them. -/
def StdioPlain (stdio : McpStdioServerConfig) : Prop :=
  stdio.args ≠ [] ∧ stdio.args ≠ [""] ∧ MapSettled stdio.env ∧
    ∀ before block behind, barred [before, '[' :: block ++ [']'], behind] =
        barred [stdio.command.toList, '[' :: commandText stdio.args ++ [']'],
          renderEnvSignature stdio.env] →
      WellEscaped block → behind = [] ∨ '=' ∈ behind →
      before = stdio.command.toList ∧ block = commandText stdio.args

theorem barred_three (a b c : List Char) : barred [a, b, c] = a ++ '|' :: b ++ '|' :: c := by
  simp [barred, intercalate_cons_cons]

theorem StdioTracked.settled (h : StdioTracked stdio) :
    MapSettled stdio.env := by
  by_contra hnot
  obtain ⟨map, hshort, htext, hne⟩ := exists_other_map hnot
  have hother := h { stdio with env := map } (keyOrdered_of_short hshort)
    (by simp [stdioText, htext]) rfl
  exact hne (congrArg McpStdioServerConfig.env hother)

theorem StdioTracked.args_eq (h : StdioTracked stdio) (args : List String)
    (heq : commandText args = commandText stdio.args) : args = stdio.args := by
  have hother := h { stdio with args := args } (keyOrdered_of_short h.settled.1)
    (by simp [stdioText, renderCommandSignature_eq, heq]) rfl
  exact congrArg McpStdioServerConfig.args hother

theorem StdioTracked.plain (h : StdioTracked stdio) :
    StdioPlain stdio := by
  refine ⟨?_, ?_, h.settled, ?_⟩
  · intro hnone
    have hother := h.args_eq [""] (by rw [hnone]; rfl)
    rw [hnone] at hother
    cases hother
  · intro hempty
    have hother := h.args_eq [] (by rw [hempty]; rfl)
    rw [hempty] at hother
    cases hother
  · intro before block behind heq hblock hbehind
    obtain ⟨args, hargs⟩ := hblock.exists_command
    obtain ⟨map, hshort, hmap, -⟩ := exists_map hbehind
    have hother := h ⟨String.ofList before, args, map, stdio.toolCallTimeoutMs⟩
      (keyOrdered_of_short hshort) (by
        simp only [stdioText, renderCommandSignature_eq, hargs, hmap, String.toList_ofList]
        exact heq) rfl
    have hcmd := congrArg (fun s : McpStdioServerConfig => s.command.toList) hother
    have hsame := congrArg (fun s : McpStdioServerConfig => commandText s.args) hother
    simp only [String.toList_ofList] at hcmd hsame
    exact ⟨hcmd, hargs.symm.trans hsame⟩

theorem StdioPlain.tracked (h : StdioPlain stdio) :
    StdioTracked stdio := by
  obtain ⟨hnone, hempty, hsettled, hblock⟩ := h
  rintro ⟨command, args, env, timeout⟩ _ htext htimeout
  obtain ⟨hcmd, hargs⟩ := hblock command.toList (commandText args) (renderEnvSignature env)
    htext (wellEscaped_commandText args) (renderEnvSignature_cases env)
  have henv : renderEnvSignature env = renderEnvSignature stdio.env := by
    simp only [stdioText, renderCommandSignature_eq, hcmd, hargs, barred_three] at htext
    exact (List.cons.inj (append_cancel_left htext)).2
  have h₁ := String.toList_inj.mp hcmd
  have h₂ := commandText_unique hnone hempty hargs
  have h₃ := hsettled.unique henv
  subst h₁ h₂ h₃ htimeout
  rfl

theorem stdioTracked_iff (stdio : McpStdioServerConfig) : StdioTracked stdio ↔ StdioPlain stdio :=
  ⟨StdioTracked.plain, StdioPlain.tracked⟩

def kindText : McpServerConfig → String
  | .stdio _ => "stdio"
  | .sse _ => "sse"
  | .http _ => "http"
  | .ws _ => "ws"
  | .sdk _ => "sdk"
  | .managedProxy _ => "claudeai-proxy"

theorem renderConfig_kind (config : McpServerConfig) :
    ∃ parts, renderConfig config = barred ((kindText config).toList :: parts) := by
  cases config <;> exact ⟨_, rfl⟩

theorem kindText_of_renderConfig {config other : McpServerConfig}
    (h : renderConfig other = renderConfig config) : kindText other = kindText config := by
  have hbar (config : McpServerConfig) : '|' ∉ (kindText config).toList := by
    cases config <;> simp [kindText]
  obtain ⟨parts, hparts⟩ := renderConfig_kind config
  obtain ⟨others, hothers⟩ := renderConfig_kind other
  rw [hparts, hothers] at h
  exact String.toList_inj.mp (kind_of_barred_eq (hbar other) (hbar config) h)

/-- What tells a configuration of each kind apart from all others. -/
def ConfigPlain : McpServerConfig → Prop
  | .stdio stdio => StdioPlain stdio
  | .sse remote => RemotePlain remote
  | .http remote => RemotePlain remote
  | .ws ws => WsPlain ws
  | .sdk _ => True
  | .managedProxy proxy => ProxyPlain proxy

theorem tracked_of_kind {α : Type} (kind : α → McpServerConfig) (hinj : Function.Injective kind)
    (hkind : ∀ a other, kindText other = kindText (kind a) → ∃ b, other = kind b) (a : α) :
    Tracked (kind a) ↔
      ∀ b, MapsOrdered (kind b) → renderConfig (kind b) = renderConfig (kind a) → b = a := by
  constructor
  · intro h b hordered heq
    exact hinj (h (kind b) hordered heq)
  · intro h other hordered heq
    obtain ⟨b, rfl⟩ := hkind a other (kindText_of_renderConfig heq)
    rw [h b hordered heq]

theorem stdio_rendered_iff (stdio other : McpStdioServerConfig) :
    renderConfig (.stdio other) = renderConfig (.stdio stdio) ↔
      stdioText other = stdioText stdio ∧ other.toolCallTimeoutMs = stdio.toolCallTimeoutMs := by
  have hother := pieces_of_notMem (bar_notMem_numberOrEmpty other.toolCallTimeoutMs)
  have hstdio := pieces_of_notMem (bar_notMem_numberOrEmpty stdio.toolCallTimeoutMs)
  rw [renderConfig, renderConfig, barred_cons_eq_iff, stdioText, stdioText, barred, barred,
    joined_inj_iff (cons_ne_nil _ _) (cons_ne_nil _ _)]
  change _ ↔ [_, _, _].flatMap pieces = [_, _, _].flatMap pieces ∧ _
  constructor
  · intro heq
    have hrow : [other.command.toList, renderCommandSignature other.args,
          renderEnvSignature other.env].flatMap pieces ++ [numberOrEmpty other.toolCallTimeoutMs] =
        [stdio.command.toList, renderCommandSignature stdio.args,
          renderEnvSignature stdio.env].flatMap pieces ++
          [numberOrEmpty stdio.toolCallTimeoutMs] := by
      simpa [hother, hstdio] using heq
    obtain ⟨hparts, hlast⟩ := append_inj' hrow rfl
    exact ⟨hparts, numberOrEmpty_inj (List.cons.inj hlast).1⟩
  · rintro ⟨hparts, htimeout⟩
    have hrow := congrArg (· ++ pieces (numberOrEmpty stdio.toolCallTimeoutMs)) hparts
    simpa [htimeout] using hrow

theorem ws_rendered_iff (ws other : McpWebSocketServerConfig) :
    renderConfig (.ws other) = renderConfig (.ws ws) ↔ wsRow other = wsRow ws := by
  rw [renderConfig, renderConfig, barred_cons_eq_iff]
  simp [wsRow]

theorem proxy_rendered_iff (proxy other : McpManagedProxyServerConfig) :
    renderConfig (.managedProxy other) = renderConfig (.managedProxy proxy) ↔
      pieces other.url.toList ++ pieces other.id.toList =
        pieces proxy.url.toList ++ pieces proxy.id.toList := by
  rw [renderConfig, renderConfig, barred_cons_eq_iff]
  simp

theorem sdk_rendered {sdk other : McpSdkServerConfig}
    (h : renderConfig (.sdk other) = renderConfig (.sdk sdk)) : other = sdk := by
  rw [renderConfig, renderConfig, barred_cons_eq_iff] at h
  simp only [flatMap_cons, flatMap_nil, append_nil] at h
  have hname := String.toList_inj.mp (pieces_inj h)
  obtain ⟨name⟩ := other
  subst hname
  rfl

/-- The hash tracks a configuration exactly when it is plain: no other
configuration, but for the scope, has the signature. -/
theorem tracked_iff (config : ScopedMcpServerConfig) :
    Tracked config.config ↔ ConfigPlain config.config := by
  cases config.config with
  | stdio stdio =>
    rw [tracked_of_kind .stdio (fun _ _ => McpServerConfig.stdio.inj)
      (by rintro _ (_ | _) <;> simp [kindText]), ConfigPlain, ← stdioTracked_iff]
    simp only [stdio_rendered_iff, and_imp]
    rfl
  | sse remote =>
    rw [tracked_of_kind .sse (fun _ _ => McpServerConfig.sse.inj)
      (by rintro _ (_ | _) <;> simp [kindText]), ConfigPlain, ← remoteTracked_iff]
    simp only [renderConfig, renderRemote_eq_iff]
    rfl
  | http remote =>
    rw [tracked_of_kind .http (fun _ _ => McpServerConfig.http.inj)
      (by rintro _ (_ | _) <;> simp [kindText]), ConfigPlain, ← remoteTracked_iff]
    simp only [renderConfig, renderRemote_eq_iff]
    rfl
  | ws ws =>
    rw [tracked_of_kind .ws (fun _ _ => McpServerConfig.ws.inj)
      (by rintro _ (_ | _) <;> simp [kindText]), ConfigPlain, ← wsTracked_iff]
    simp only [ws_rendered_iff]
    rfl
  | sdk sdk =>
    rw [tracked_of_kind .sdk (fun _ _ => McpServerConfig.sdk.inj)
      (by rintro _ (_ | _) <;> simp [kindText]), ConfigPlain]
    exact iff_of_true (fun _ _ heq => sdk_rendered heq) trivial
  | managedProxy proxy =>
    rw [tracked_of_kind .managedProxy (fun _ _ => McpServerConfig.managedProxy.inj)
      (by rintro _ (_ | _) <;> simp [kindText]), ConfigPlain, ← proxyTracked_iff]
    simp only [proxy_rendered_iff, MapsOrdered, true_implies]
    rfl

/-- Two headers, and one whose value holds the text of the second. -/
def twoHeaders : McpServerConfig :=
  .ws ⟨"wss://a.example", [("A", "1"), ("B", "2")], some "helper.sh"⟩

def oneHeader : McpServerConfig := .ws ⟨"wss://a.example", [("A", "1;B=2")], some "helper.sh"⟩

theorem headers_not_tracked :
    ¬∀ config other : ScopedMcpServerConfig, MapsOrdered config.config → MapsOrdered other.config →
      renderConfig other.config = renderConfig config.config → other.config = config.config := by
  intro h
  have htwo : MapsOrdered twoHeaders :=
    pairwise_pair.mpr (by decide +kernel : "A" < "B")
  have hone : MapsOrdered oneHeader := pairwise_singleton _ _
  have hsame := h ⟨.user, twoHeaders⟩ ⟨.user, oneHeader⟩ htwo hone (by decide +kernel)
  exact absurd hsame (by decide)

/-- `mcp_server_signature`; nothing where unwrapping the URL panics. -/
def mcpServerSignature : McpServerConfig → Option (Option (List Char))
  | .stdio config =>
    some (some ("stdio:".toList ++ renderCommandSignature (config.command :: config.args)))
  | .sse config | .http config =>
    (unwrapCcrProxyUrl config.url.toList).map fun url => some ("url:".toList ++ url)
  | .ws config => (unwrapCcrProxyUrl config.url.toList).map fun url => some ("url:".toList ++ url)
  | .managedProxy config =>
    (unwrapCcrProxyUrl config.url.toList).map fun url => some ("url:".toList ++ url)
  | .sdk _ => some none

theorem commandText_of_signature {xs ys : List String}
    (h : renderCommandSignature xs = renderCommandSignature ys) :
    commandText xs = commandText ys := by
  rw [renderCommandSignature_eq, renderCommandSignature_eq] at h
  exact append_cancel_right (List.cons.inj h).2

/-- Lists that are not empty have signatures of their own, and so have local
servers with different commands or arguments. -/
theorem renderCommandSignature_inj :
    (∀ xs ys : List String, xs ≠ [] → ys ≠ [] →
      renderCommandSignature xs = renderCommandSignature ys → xs = ys) ∧
    ∀ a b : McpStdioServerConfig,
      mcpServerSignature (.stdio a) = mcpServerSignature (.stdio b) →
        a.command = b.command ∧ a.args = b.args := by
  have hinj : ∀ xs ys : List String, xs ≠ [] → ys ≠ [] →
      renderCommandSignature xs = renderCommandSignature ys → xs = ys := by
    intro xs ys hxs hys heq
    exact commandText_inj hys hxs (commandText_of_signature heq)
  refine ⟨hinj, fun a b heq => ?_⟩
  have htext := Option.some.inj (Option.some.inj heq)
  have hlists := hinj (a.command :: a.args) (b.command :: b.args) (cons_ne_nil _ _)
    (cons_ne_nil _ _) (append_cancel_left htext)
  exact List.cons.inj hlists

theorem renderCommandSignature_inj_bars :
    ["a|", "\\"] = ["a|", "\\"] ∧ "npx" = "npx" ∧ ["-y"] = ["-y"] := by
  have hlists := renderCommandSignature_inj.1 ["a|", "\\"] ["a|", "\\"] nofun nofun rfl
  have hservers := renderCommandSignature_inj.2 ⟨"npx", ["-y"], [], none⟩
    ⟨"npx", ["-y"], [("A", "1")], none⟩ rfl
  exact ⟨hlists, hservers⟩
end DbClinic.Mcp
