import DbClinic.Mcp.ConfigSignature

/-!
The configurations that no other one shares its signature with. A signature is a
row of pieces with bars between them. Another configuration has it when the row
can be cut elsewhere, when the text of a map can be read as another map, or when
a part is missing or empty.
-/

namespace DbClinic.Mcp

open DbClinic.Cuts List
open DbClinic.Runtime (KeyOrdered)
open DbClinic.Runtime.Config

def pieces (text : List Char) : List (List Char) := text.splitOn '|'

theorem pieces_ne_nil (text : List Char) : pieces text ≠ [] := splitOn_ne_nil _ _

theorem pieces_barred {row : List (List Char)} (hne : row ≠ []) (h : ∀ piece ∈ row, '|' ∉ piece) :
    pieces (barred row) = row := splitOn_pieces hne h

variable {remote : McpRemoteServerConfig} {text : List Char} {back : List (List Char)}
variable {ws : McpWebSocketServerConfig}

theorem pieces_of_notMem (h : '|' ∉ text) : pieces text = [text] :=
  splitOn_eq_singleton h

theorem pieces_of_mem (h : '|' ∈ text) :
    ∃ first rest, rest ≠ [] ∧ pieces text = first :: rest := by
  obtain ⟨first, rest, hrow⟩ := exists_cons_of_ne_nil (pieces_ne_nil text)
  refine ⟨first, rest, ?_, hrow⟩
  rintro rfl
  exact length_splitOn_eq_one_iff.mp (congrArg List.length hrow) h

theorem pieces_of_mem_concat (h : '|' ∈ text) :
    ∃ front last, front ≠ [] ∧ pieces text = front ++ [last] := by
  obtain ⟨first, rest, hrest, hrow⟩ := pieces_of_mem h
  refine ⟨first :: rest.dropLast, rest.getLast hrest, cons_ne_nil _ _, ?_⟩
  rw [hrow, cons_append, dropLast_append_getLast hrest]

theorem pieces_inj {other : List Char} (h : pieces text = pieces other) : text = other :=
  splitOn_inj h

variable {parts others middle front client metadata : List (List Char)} {bound : Nat}
variable {flag : Option Bool}

theorem barred_cons_eq_iff (kind : List Char) :
    barred (kind :: parts) = barred (kind :: others) ↔
      parts.flatMap pieces = others.flatMap pieces := by
  rw [barred, barred, joined_inj_iff (cons_ne_nil _ _) (cons_ne_nil _ _)]
  simp only [flatMap_cons]
  exact append_right_inj _

theorem kind_of_barred_eq {kind kind' : List Char} (h : '|' ∉ kind) (h' : '|' ∉ kind')
    (heq : barred (kind :: parts) = barred (kind' :: others)) :
    kind = kind' := by
  rw [barred, barred, joined_inj_iff (cons_ne_nil _ _) (cons_ne_nil _ _)] at heq
  simp only [flatMap_cons] at heq
  rw [splitOn_eq_singleton h, splitOn_eq_singleton h'] at heq
  exact (List.cons.inj heq).1

theorem bar_notMem_numberOrEmpty (number : Option (Fin bound)) :
    '|' ∉ numberOrEmpty number := by
  cases number with
  | none => exact not_mem_nil
  | some number =>
    intro hmem
    have hdigit : '|'.isDigit = true := by
      rw [numberOrEmpty, Nat.toList_repr] at hmem
      exact Nat.isDigit_of_mem_toDigits (by decide) (by decide) hmem
    cases hdigit

theorem numberOrEmpty_inj {number other : Option (Fin bound)}
    (h : numberOrEmpty number = numberOrEmpty other) : number = other := by
  have hne (n : Fin bound) : n.val.repr.toList ≠ [] := by
    rw [Nat.toList_repr]
    exact Nat.toDigits_ne_nil
  cases number with
  | none =>
    cases other with
    | none => rfl
    | some n => exact absurd h.symm (hne n)
  | some m =>
    cases other with
    | none => exact absurd h (hne m)
    | some n =>
      have hval : m.val = n.val := by
        simp only [numberOrEmpty, Nat.toList_repr] at h
        rw [← @Nat.ofDigitChars_ten_toDigits m.val, h, Nat.ofDigitChars_ten_toDigits]
      rw [Fin.ext hval]

theorem bar_notMem_flagOrEmpty (flag : Option Bool) : '|' ∉ flagOrEmpty flag := by
  rcases flag with _ | _ | _ <;> decide

theorem flagOrEmpty_inj {other : Option Bool} (h : flagOrEmpty flag = flagOrEmpty other) :
    flag = other := by
  rcases flag with _ | _ | _ <;> rcases other with _ | _ | _ <;>
    first | rfl | exact absurd h (by decide)

theorem textOrEmpty_inj {text other : Option String} (h : textOrEmpty text = textOrEmpty other)
    (hne : textOrEmpty other ≠ []) : text = other := by
  cases text with
  | none => exact absurd h.symm hne
  | some t =>
    cases other with
    | none => exact absurd rfl hne
    | some u => exact congrArg some (String.toList_inj.mp h)

theorem exists_other_text {text : Option String} (h : textOrEmpty text = []) :
    ∃ other, textOrEmpty other = textOrEmpty text ∧ other ≠ text := by
  cases text with
  | none => exact ⟨some "", rfl, by simp⟩
  | some t => exact ⟨none, h.symm, by simp⟩

theorem middle_map (map : List (String × String)) :
    Middle [] ('=' ∈ ·) (pieces (renderEnvSignature map)) := by
  rcases renderEnvSignature_cases map with hnil | hmem
  · rw [hnil]
    exact .inl rfl
  · obtain ⟨piece, hpiece, heq⟩ := exists_piece_of_mem hmem (show '=' ≠ '|' by decide)
    exact .inr ⟨piece, hpiece, heq⟩

theorem exists_map_of_middle (h : Middle [] ('=' ∈ ·) middle) (hbar : ∀ piece ∈ middle, '|' ∉ piece) :
    ∃ map : List (String × String), map.length ≤ 1 ∧ pieces (renderEnvSignature map) = middle := by
  have hpieces := pieces_barred h.ne_nil hbar
  have htext : barred middle = [] ∨ '=' ∈ barred middle := by
    rcases h with rfl | ⟨piece, hpiece, hmem⟩
    · exact .inl rfl
    · rw [← hpieces] at hpiece
      exact .inr (mem_of_mem_piece hpiece hmem)
  obtain ⟨map, hshort, hmap, -⟩ := exists_map htext
  exact ⟨map, hshort, by rw [hmap, hpieces]⟩

def oauthRow : Option McpOAuthConfig → List (List Char)
  | some oauth =>
    pieces (textOrEmpty oauth.clientId) ++ numberOrEmpty oauth.callbackPort ::
      pieces (textOrEmpty oauth.authServerMetadataUrl) ++ [flagOrEmpty oauth.xaa]
  | none => [[]]

theorem pieces_renderOauthSignature (oauth : Option McpOAuthConfig) :
    pieces (renderOauthSignature oauth) = oauthRow oauth := by
  cases oauth with
  | none => rfl
  | some oauth =>
    have hport := pieces_of_notMem (bar_notMem_numberOrEmpty oauth.callbackPort)
    have hflag := pieces_of_notMem (bar_notMem_flagOrEmpty oauth.xaa)
    rw [pieces, renderOauthSignature, barred, splitOn_joined (cons_ne_nil _ _)]
    change [_, _, _, _].flatMap pieces = _
    simp [oauthRow, hport, hflag]

def remoteRow (remote : McpRemoteServerConfig) : List (List Char) :=
  pieces remote.url.toList ++ pieces (renderEnvSignature remote.headers) ++
    pieces (textOrEmpty remote.headersHelper) ++ oauthRow remote.oauth

theorem renderRemote_eq_iff (kind : String) (remote other : McpRemoteServerConfig) :
    renderRemote kind other = renderRemote kind remote ↔ remoteRow other = remoteRow remote := by
  rw [renderRemote, renderRemote, barred_cons_eq_iff]
  simp [remoteRow, pieces_renderOauthSignature]

theorem bar_notMem_remoteRow {piece : List Char} (h : piece ∈ remoteRow remote) : '|' ∉ piece := by
  unfold remoteRow at h
  rw [← pieces_renderOauthSignature] at h
  simp only [mem_append] at h
  rcases h with ((h | h) | h) | h <;> exact sep_notMem_of_mem_splitOn h

def RemoteTracked (remote : McpRemoteServerConfig) : Prop :=
  ∀ other : McpRemoteServerConfig, KeyOrdered other.headers →
    remoteRow other = remoteRow remote → other = remote

def PortPiece (piece : List Char) : Prop :=
  ∃ port : Option (Fin (2 ^ 16)), numberOrEmpty port = piece

/-- Without OAuth options no piece of the helper can be read as their port. With
them they stand alone: the helper and the client are one piece each, and no piece
of the metadata URL before its last can be read as the port. -/
def OauthPlain (helper : List Char) : Option McpOAuthConfig → Prop
  | none => ∀ piece ∈ ((pieces helper).drop 2).dropLast, ¬PortPiece piece
  | some oauth =>
    '|' ∉ helper ∧
    textOrEmpty oauth.clientId ≠ [] ∧ '|' ∉ textOrEmpty oauth.clientId ∧
    textOrEmpty oauth.authServerMetadataUrl ≠ [] ∧
    (∀ piece ∈ (pieces (textOrEmpty oauth.authServerMetadataUrl)).dropLast, ¬PortPiece piece) ∧
    oauth.xaa ≠ none

def RemotePlain (remote : McpRemoteServerConfig) : Prop :=
  MapSettled remote.headers ∧ textOrEmpty remote.headersHelper ≠ [] ∧
    Plain [] ('=' ∈ ·) (pieces remote.url.toList) (pieces (renderEnvSignature remote.headers))
      (pieces (textOrEmpty remote.headersHelper)) ∧
    OauthPlain (textOrEmpty remote.headersHelper) remote.oauth

theorem RemoteTracked.reading (h : RemoteTracked remote) (oauth : Option McpOAuthConfig)
    (hfront : front ≠ []) (hback : back ≠ []) (hmiddle : Middle [] ('=' ∈ ·) middle)
    (hrow : front ++ middle ++ back ++ oauthRow oauth = remoteRow remote) :
    front = pieces remote.url.toList ∧ middle = pieces (renderEnvSignature remote.headers) ∧
      back = pieces (textOrEmpty remote.headersHelper) ∧ oauth = remote.oauth := by
  have hbar (piece : List Char) (hpiece : piece ∈ front ++ middle ++ back ++ oauthRow oauth) :
      '|' ∉ piece := bar_notMem_remoteRow (hrow ▸ hpiece)
  obtain ⟨map, hshort, hmap⟩ := exists_map_of_middle hmiddle
    (fun piece hpiece => hbar piece (by simp [hpiece]))
  have hurl : pieces (barred front) = front :=
    pieces_barred hfront fun piece hpiece => hbar piece (by simp [hpiece])
  have hhelper : pieces (barred back) = back :=
    pieces_barred hback fun piece hpiece => hbar piece (by simp [hpiece])
  have hother := h ⟨String.ofList (barred front), map, some (String.ofList (barred back)), oauth⟩
    (keyOrdered_of_short hshort) (by
      rw [← hrow]
      simp [remoteRow, textOrEmpty, hurl, hmap, hhelper])
  subst hother
  simp [textOrEmpty, hurl, hmap, hhelper]

theorem RemoteTracked.settled (h : RemoteTracked remote) :
    MapSettled remote.headers := by
  by_contra hnot
  obtain ⟨map, hshort, htext, hne⟩ := exists_other_map hnot
  have hother := h { remote with headers := map } (keyOrdered_of_short hshort)
    (by simp [remoteRow, htext])
  exact hne (congrArg McpRemoteServerConfig.headers hother)

theorem RemoteTracked.helper (h : RemoteTracked remote) :
    textOrEmpty remote.headersHelper ≠ [] := by
  intro hempty
  obtain ⟨helper, htext, hne⟩ := exists_other_text hempty
  have hother := h { remote with headersHelper := helper } (keyOrdered_of_short h.settled.1)
    (by simp [remoteRow, htext])
  exact hne (congrArg McpRemoteServerConfig.headersHelper hother)

theorem RemoteTracked.plain (h : RemoteTracked remote) :
    Plain [] ('=' ∈ ·) (pieces remote.url.toList) (pieces (renderEnvSignature remote.headers))
      (pieces (textOrEmpty remote.headersHelper)) := by
  refine (oneCut_iff ?_ (pieces_ne_nil _) (pieces_ne_nil _) (middle_map _)).mp ?_
  · exact not_mem_nil
  · intro front middle back hfront hback hmiddle heq
    obtain ⟨hurl, hmap, -⟩ := h.reading remote.oauth hfront hback hmiddle (by rw [heq]; rfl)
    exact ⟨hurl, hmap⟩

theorem oauthRow_of_pieces (hclient : client ≠ []) (hmeta : metadata ≠ [])
    (hbar : ∀ piece ∈ client ++ metadata, '|' ∉ piece) (port : Option (Fin (2 ^ 16)))
    (flag : Option Bool) :
    oauthRow (some ⟨some (String.ofList (barred client)), port,
      some (String.ofList (barred metadata)), flag⟩) =
      client ++ numberOrEmpty port :: metadata ++ [flagOrEmpty flag] := by
  have hfirst : pieces (barred client) = client :=
    pieces_barred hclient fun piece hpiece => hbar piece (by simp [hpiece])
  have hsecond : pieces (barred metadata) = metadata :=
    pieces_barred hmeta fun piece hpiece => hbar piece (by simp [hpiece])
  simp [oauthRow, textOrEmpty, hfirst, hsecond]

theorem RemoteTracked.reading_port (h : RemoteTracked remote) (port : Option (Fin (2 ^ 16)))
    (flag : Option Bool) (hback : back ≠ []) (hclient : client ≠ []) (hmeta : metadata ≠ [])
    (hrow : back ++ (client ++ numberOrEmpty port :: metadata ++ [flagOrEmpty flag]) =
      pieces (textOrEmpty remote.headersHelper) ++ oauthRow remote.oauth) :
    back = pieces (textOrEmpty remote.headersHelper) ∧
      some ⟨some (String.ofList (barred client)), port,
        some (String.ofList (barred metadata)), flag⟩ = remote.oauth := by
  have hbar (piece : List Char) (hpiece : piece ∈ client ++ metadata) : '|' ∉ piece := by
    have hmem : piece ∈ remoteRow remote := by
      rw [remoteRow, append_assoc, ← hrow]
      rcases mem_append.mp hpiece with hpiece | hpiece <;> simp [hpiece]
    exact bar_notMem_remoteRow hmem
  obtain ⟨-, -, hhelper, hoauth⟩ := h.reading (some ⟨some (String.ofList (barred client)), port,
    some (String.ofList (barred metadata)), flag⟩) (pieces_ne_nil remote.url.toList) hback
    (middle_map remote.headers) (by rw [oauthRow_of_pieces hclient hmeta hbar, remoteRow,
      append_assoc, hrow, ← append_assoc])
  exact ⟨hhelper, hoauth⟩

theorem RemoteTracked.helper_plain (h : RemoteTracked remote) (hoauth : remote.oauth = none) :
    ∀ piece ∈ ((pieces (textOrEmpty remote.headersHelper)).drop 2).dropLast, ¬PortPiece piece := by
  rintro piece hpiece ⟨port, rfl⟩
  obtain ⟨client, metadata, hmeta, hdrop⟩ := append_of_mem_dropLast hpiece
  obtain ⟨a, b, rest, hhelper⟩ :
      ∃ a b rest, pieces (textOrEmpty remote.headersHelper) = a :: b :: rest := by
    match hrow : pieces (textOrEmpty remote.headersHelper) with
    | [] => simp [hrow] at hdrop
    | [_] => simp [hrow] at hdrop
    | a :: b :: rest => exact ⟨a, b, rest, rfl⟩
  have hrest : rest = client ++ numberOrEmpty port :: metadata := by
    rw [hhelper] at hdrop
    exact hdrop
  obtain ⟨-, hother⟩ := h.reading_port port none (cons_ne_nil a [])
    (cons_ne_nil b client) hmeta (by
      rw [hhelper, hrest, hoauth]
      simp [oauthRow, flagOrEmpty])
  rw [hoauth] at hother
  cases hother

section OauthOptions

variable {remote : McpRemoteServerConfig} {oauth : McpOAuthConfig} (h : RemoteTracked remote)
  (hoauth : remote.oauth = some oauth)

include h hoauth

theorem helper_single : '|' ∉ textOrEmpty remote.headersHelper := by
  intro hmem
  obtain ⟨back, last, hback, hhelper⟩ := pieces_of_mem_concat hmem
  obtain ⟨hother, -⟩ := h.reading_port oauth.callbackPort oauth.xaa hback
    (cons_ne_nil last (pieces (textOrEmpty oauth.clientId)))
    (pieces_ne_nil (textOrEmpty oauth.authServerMetadataUrl)) (by
      rw [hhelper, hoauth]
      simp [oauthRow])
  rw [hhelper] at hother
  exact absurd (self_eq_append_right.mp hother) (cons_ne_nil _ _)

theorem client_stated : textOrEmpty oauth.clientId ≠ [] := by
  intro hempty
  obtain ⟨client, htext, hne⟩ := exists_other_text hempty
  have hother := h { remote with oauth := some { oauth with clientId := client } }
    (keyOrdered_of_short h.settled.1) (by simp [remoteRow, hoauth, oauthRow, htext])
  have hsame := congrArg McpRemoteServerConfig.oauth hother
  rw [hoauth] at hsame
  exact hne (congrArg McpOAuthConfig.clientId (Option.some.inj hsame))

theorem metadata_stated : textOrEmpty oauth.authServerMetadataUrl ≠ [] := by
  intro hempty
  obtain ⟨metadata, htext, hne⟩ := exists_other_text hempty
  have hother := h { remote with oauth := some { oauth with authServerMetadataUrl := metadata } }
    (keyOrdered_of_short h.settled.1) (by simp [remoteRow, hoauth, oauthRow, htext])
  have hsame := congrArg McpRemoteServerConfig.oauth hother
  rw [hoauth] at hsame
  exact hne (congrArg McpOAuthConfig.authServerMetadataUrl (Option.some.inj hsame))

theorem client_single : '|' ∉ textOrEmpty oauth.clientId := by
  intro hmem
  obtain ⟨first, client, hne, hclient⟩ := pieces_of_mem hmem
  have hback : pieces (textOrEmpty remote.headersHelper) ++ [first] ≠ [] := by simp
  obtain ⟨hother, -⟩ := h.reading_port oauth.callbackPort oauth.xaa hback hne
    (pieces_ne_nil (textOrEmpty oauth.authServerMetadataUrl)) (by
      rw [hoauth]
      simp [oauthRow, hclient])
  exact absurd (append_right_eq_self.mp hother) (cons_ne_nil _ _)

theorem metadata_plain :
    ∀ piece ∈ (pieces (textOrEmpty oauth.authServerMetadataUrl)).dropLast, ¬PortPiece piece := by
  rintro piece hpiece ⟨port, rfl⟩
  obtain ⟨front, metadata, hmeta, hrow⟩ := append_of_mem_dropLast hpiece
  have hclient : pieces (textOrEmpty oauth.clientId) ++
      numberOrEmpty oauth.callbackPort :: front ≠ [] := by simp
  obtain ⟨-, hother⟩ := h.reading_port port oauth.xaa
    (pieces_ne_nil (textOrEmpty remote.headersHelper)) hclient hmeta (by
      rw [hoauth]
      simp [oauthRow, hrow])
  rw [hoauth] at hother
  have hsame : barred metadata = textOrEmpty oauth.authServerMetadataUrl := by
    rw [← Option.some.inj hother]
    simp [textOrEmpty]
  have hpieces : pieces (barred metadata) = metadata := by
    apply pieces_barred hmeta
    intro later hlater
    have hmem : later ∈ pieces (textOrEmpty oauth.authServerMetadataUrl) := by
      rw [hrow]
      simp [hlater]
    exact sep_notMem_of_mem_splitOn hmem
  have hlen := congrArg List.length hpieces
  rw [hsame, hrow, length_append, length_cons] at hlen
  omega

theorem flag_stated : oauth.xaa ≠ none := by
  intro hnone
  have hback : pieces (textOrEmpty remote.headersHelper) ++ (pieces (textOrEmpty oauth.clientId) ++
      numberOrEmpty oauth.callbackPort ::
        pieces (textOrEmpty oauth.authServerMetadataUrl)) ≠ [] := by simp
  obtain ⟨-, -, -, hother⟩ := h.reading none (pieces_ne_nil remote.url.toList) hback
    (middle_map remote.headers) (by
      rw [remoteRow, hoauth]
      simp [oauthRow, hnone, flagOrEmpty])
  rw [hoauth] at hother
  cases hother

end OauthOptions

theorem RemoteTracked.remotePlain (h : RemoteTracked remote) :
    RemotePlain remote := by
  refine ⟨h.settled, h.helper, h.plain, ?_⟩
  cases hoauth : remote.oauth with
  | none => exact h.helper_plain hoauth
  | some oauth =>
    exact ⟨helper_single h hoauth, client_stated h hoauth, client_single h hoauth,
      metadata_stated h hoauth, metadata_plain h hoauth, flag_stated h hoauth⟩

theorem remote_eq_of_pieces {other : McpRemoteServerConfig} (hsettled : MapSettled remote.headers)
    (hstated : textOrEmpty remote.headersHelper ≠ [])
    (hurl : pieces other.url.toList = pieces remote.url.toList)
    (hmap : pieces (renderEnvSignature other.headers) = pieces (renderEnvSignature remote.headers))
    (hhelper : pieces (textOrEmpty other.headersHelper) = pieces (textOrEmpty remote.headersHelper))
    (hoauth : other.oauth = remote.oauth) : other = remote := by
  obtain ⟨url, headers, helper, oauth⟩ := other
  have h₁ := String.toList_inj.mp (pieces_inj hurl)
  have h₂ := hsettled.unique (pieces_inj hmap)
  have h₃ := textOrEmpty_inj (pieces_inj hhelper) hstated
  subst h₁ h₂ h₃ hoauth
  rfl

theorem RemotePlain.oneCut (h : RemotePlain remote) :
    OneCut [] ('=' ∈ ·) (pieces remote.url.toList) (pieces (renderEnvSignature remote.headers))
      (pieces (textOrEmpty remote.headersHelper)) := by
  refine (oneCut_iff ?_ (pieces_ne_nil _) (pieces_ne_nil _) (middle_map _)).mpr h.2.2.1
  exact not_mem_nil

theorem tracked_alone (h : RemotePlain remote) (hoauth : remote.oauth = none) :
    RemoteTracked remote := by
  intro other _ hrow
  have hplain := h.2.2.2
  rw [hoauth] at hplain
  rw [remoteRow, remoteRow, hoauth] at hrow
  cases hother : other.oauth with
  | none =>
    rw [hother] at hrow
    have hparts := append_cancel_right hrow
    obtain ⟨hurl, hmap⟩ :=
      h.oneCut _ _ _ (pieces_ne_nil _) (pieces_ne_nil _) (middle_map _) hparts
    rw [hurl, hmap] at hparts
    exact remote_eq_of_pieces h.1 h.2.1 hurl hmap (append_cancel_left hparts)
      (hother.trans hoauth.symm)
  | some oauth =>
    rw [hother, oauthRow, oauthRow, ← append_assoc] at hrow
    have hparts := (append_inj' hrow rfl).1
    rw [append_assoc] at hparts
    have hback := pieces_ne_nil (textOrEmpty other.headersHelper)
    obtain ⟨hurl, hmap⟩ := h.oneCut _ _ _ (pieces_ne_nil _) (by simp) (middle_map _) hparts
    rw [hurl, hmap] at hparts
    have hhelper := append_cancel_left hparts
    rw [← append_assoc] at hhelper
    refine absurd ⟨oauth.callbackPort, rfl⟩ (hplain (numberOrEmpty oauth.callbackPort) ?_)
    rw [← hhelper]
    exact mem_drop_two hback (pieces_ne_nil _) (pieces_ne_nil _)

theorem flagOrEmpty_ne_nil (h : flag ≠ none) : flagOrEmpty flag ≠ [] := by
  rcases flag with _ | _ | _
  · exact absurd rfl h
  · decide
  · decide

theorem tracked_oauth (h : RemotePlain remote) {oauth : McpOAuthConfig}
    (hoauth : remote.oauth = some oauth) : RemoteTracked remote := by
  intro other _ hrow
  have hplain := h.2.2.2
  rw [hoauth] at hplain
  obtain ⟨hhelper, hclient, hclientBar, hmeta, hmetadataPort, hflag⟩ := hplain
  have hcut := h.oneCut
  rw [pieces_of_notMem hhelper] at hcut
  rw [remoteRow, remoteRow, hoauth] at hrow
  cases hother : other.oauth with
  | none =>
    rw [hother, oauthRow, oauthRow, ← append_assoc] at hrow
    have hlast := (append_inj' hrow rfl).2
    exact absurd (List.cons.inj hlast).1.symm (flagOrEmpty_ne_nil hflag)
  | some found =>
    have hsplit : pieces other.url.toList ++ pieces (renderEnvSignature other.headers) ++
          (pieces (textOrEmpty other.headersHelper) ++ pieces (textOrEmpty found.clientId)) ++
          numberOrEmpty found.callbackPort :: pieces (textOrEmpty found.authServerMetadataUrl) ++
          [flagOrEmpty found.xaa] =
        pieces remote.url.toList ++ pieces (renderEnvSignature remote.headers) ++
          [textOrEmpty remote.headersHelper, textOrEmpty oauth.clientId] ++
          numberOrEmpty oauth.callbackPort :: pieces (textOrEmpty oauth.authServerMetadataUrl) ++
          [flagOrEmpty oauth.xaa] := by
      rw [hother, pieces_of_notMem hhelper] at hrow
      simpa [oauthRow, pieces_of_notMem hclientBar] using hrow
    obtain ⟨hparts, hlast⟩ := append_inj' hsplit rfl
    obtain ⟨hurl, hmap, hhelper', hclient', hport, hmeta'⟩ :=
      hcut.signed hmetadataPort (pieces_ne_nil _) (middle_map _) (pieces_ne_nil _)
        (pieces_ne_nil _) ⟨found.callbackPort, rfl⟩ (pieces_ne_nil _) hparts
    have hfound : found = oauth := by
      obtain ⟨client, port, metadata, flag⟩ := found
      have h₁ := textOrEmpty_inj (pieces_inj (hclient'.trans (pieces_of_notMem hclientBar).symm))
        hclient
      have h₂ := numberOrEmpty_inj hport
      have h₃ := textOrEmpty_inj (pieces_inj hmeta') hmeta
      have h₄ := flagOrEmpty_inj (List.cons.inj hlast).1
      simp only at h₁ h₂ h₃ h₄
      subst h₁ h₂ h₃ h₄
      rfl
    exact remote_eq_of_pieces h.1 h.2.1 hurl hmap
      (hhelper'.trans (pieces_of_notMem hhelper).symm) (by rw [hother, hoauth, hfound])

theorem remoteTracked_iff (remote : McpRemoteServerConfig) :
    RemoteTracked remote ↔ RemotePlain remote := by
  constructor
  · exact RemoteTracked.remotePlain
  · intro h
    cases hoauth : remote.oauth with
    | none => exact tracked_alone h hoauth
    | some oauth => exact tracked_oauth h hoauth

def wsRow (ws : McpWebSocketServerConfig) : List (List Char) :=
  pieces ws.url.toList ++ pieces (renderEnvSignature ws.headers) ++
    pieces (textOrEmpty ws.headersHelper)

def WsTracked (ws : McpWebSocketServerConfig) : Prop :=
  ∀ other : McpWebSocketServerConfig, KeyOrdered other.headers → wsRow other = wsRow ws → other = ws

def WsPlain (ws : McpWebSocketServerConfig) : Prop :=
  MapSettled ws.headers ∧ textOrEmpty ws.headersHelper ≠ [] ∧
    Plain [] ('=' ∈ ·) (pieces ws.url.toList) (pieces (renderEnvSignature ws.headers))
      (pieces (textOrEmpty ws.headersHelper))

theorem WsTracked.settled (h : WsTracked ws) :
    MapSettled ws.headers := by
  by_contra hnot
  obtain ⟨map, hshort, htext, hne⟩ := exists_other_map hnot
  have hother := h { ws with headers := map } (keyOrdered_of_short hshort) (by simp [wsRow, htext])
  exact hne (congrArg McpWebSocketServerConfig.headers hother)

theorem WsTracked.helper (h : WsTracked ws) :
    textOrEmpty ws.headersHelper ≠ [] := by
  intro hempty
  obtain ⟨helper, htext, hne⟩ := exists_other_text hempty
  have hother := h { ws with headersHelper := helper } (keyOrdered_of_short h.settled.1)
    (by simp [wsRow, htext])
  exact hne (congrArg McpWebSocketServerConfig.headersHelper hother)

theorem WsTracked.oneCut (h : WsTracked ws) :
    OneCut [] ('=' ∈ ·) (pieces ws.url.toList) (pieces (renderEnvSignature ws.headers))
      (pieces (textOrEmpty ws.headersHelper)) := by
  intro front middle back hfront hback hmiddle heq
  have hbar (piece : List Char) (hpiece : piece ∈ front ++ middle ++ back) : '|' ∉ piece := by
    rw [heq] at hpiece
    simp only [mem_append] at hpiece
    rcases hpiece with (hpiece | hpiece) | hpiece <;> exact sep_notMem_of_mem_splitOn hpiece
  obtain ⟨map, hshort, hmap⟩ := exists_map_of_middle hmiddle
    (fun piece hpiece => hbar piece (by simp [hpiece]))
  have hurl : pieces (barred front) = front :=
    pieces_barred hfront fun piece hpiece => hbar piece (by simp [hpiece])
  have hhelper : pieces (barred back) = back :=
    pieces_barred hback fun piece hpiece => hbar piece (by simp [hpiece])
  have hother := h ⟨String.ofList (barred front), map, some (String.ofList (barred back))⟩
    (keyOrdered_of_short hshort) (by
      rw [wsRow, wsRow, ← heq]
      simp [textOrEmpty, hurl, hmap, hhelper])
  subst hother
  simp [hurl, hmap]

theorem wsTracked_iff (ws : McpWebSocketServerConfig) : WsTracked ws ↔ WsPlain ws := by
  have hcut : OneCut [] ('=' ∈ ·) (pieces ws.url.toList) (pieces (renderEnvSignature ws.headers))
      (pieces (textOrEmpty ws.headersHelper)) ↔
      Plain [] ('=' ∈ ·) (pieces ws.url.toList) (pieces (renderEnvSignature ws.headers))
        (pieces (textOrEmpty ws.headersHelper)) := by
    refine oneCut_iff ?_ (pieces_ne_nil _) (pieces_ne_nil _) (middle_map _)
    exact not_mem_nil
  constructor
  · intro h
    exact ⟨h.settled, h.helper, hcut.mp h.oneCut⟩
  · rintro ⟨hsettled, hstated, hplain⟩ ⟨url, headers, helper⟩ _ hrow
    obtain ⟨hurl, hmap⟩ := hcut.mpr hplain _ _ _ (pieces_ne_nil _) (pieces_ne_nil _)
      (middle_map _) hrow
    have hparts := hrow
    rw [wsRow, wsRow, hurl, hmap] at hparts
    have h₁ := String.toList_inj.mp (pieces_inj hurl)
    have h₂ := hsettled.unique (pieces_inj hmap)
    have h₃ := textOrEmpty_inj (pieces_inj (append_cancel_left hparts)) hstated
    subst h₁ h₂ h₃
    rfl

def ProxyTracked (proxy : McpManagedProxyServerConfig) : Prop :=
  ∀ other : McpManagedProxyServerConfig, pieces other.url.toList ++ pieces other.id.toList =
    pieces proxy.url.toList ++ pieces proxy.id.toList → other = proxy

def ProxyPlain (proxy : McpManagedProxyServerConfig) : Prop :=
  '|' ∉ proxy.url.toList ∧ '|' ∉ proxy.id.toList

theorem ProxyTracked.cut {proxy : McpManagedProxyServerConfig} (h : ProxyTracked proxy)
    (hfront : front ≠ []) (hback : back ≠ [])
    (heq : front ++ back = pieces proxy.url.toList ++ pieces proxy.id.toList) :
    front = pieces proxy.url.toList := by
  have hbar (piece : List Char) (hpiece : piece ∈ front ++ back) : '|' ∉ piece := by
    rw [heq] at hpiece
    rcases mem_append.mp hpiece with hpiece | hpiece <;>
      exact sep_notMem_of_mem_splitOn hpiece
  have hurl : pieces (barred front) = front :=
    pieces_barred hfront fun piece hpiece => hbar piece (by simp [hpiece])
  have hid : pieces (barred back) = back :=
    pieces_barred hback fun piece hpiece => hbar piece (by simp [hpiece])
  have hother := h ⟨String.ofList (barred front), String.ofList (barred back)⟩ (by
    simp [hurl, hid, heq])
  subst hother
  simp [hurl]

theorem proxyTracked_iff (proxy : McpManagedProxyServerConfig) :
    ProxyTracked proxy ↔ ProxyPlain proxy := by
  constructor
  · intro h
    constructor
    · intro hmem
      obtain ⟨first, rest, hrest, hrow⟩ := pieces_of_mem hmem
      have hback : rest ++ pieces proxy.id.toList ≠ [] := by simp [hrest]
      have hcut := h.cut (cons_ne_nil first []) hback (by rw [hrow]; simp)
      rw [hrow] at hcut
      exact hrest (List.cons.inj hcut).2.symm
    · intro hmem
      obtain ⟨first, rest, hrest, hrow⟩ := pieces_of_mem hmem
      have hfront : pieces proxy.url.toList ++ [first] ≠ [] := by simp
      have hcut := h.cut hfront hrest (by rw [hrow]; simp)
      exact absurd (append_right_eq_self.mp hcut) (cons_ne_nil _ _)
  · rintro ⟨hurl, hid⟩ other hrow
    rw [pieces_of_notMem hurl, pieces_of_notMem hid] at hrow
    have h₁ := length_pos_iff.mpr (pieces_ne_nil other.url.toList)
    have h₂ := length_pos_iff.mpr (pieces_ne_nil other.id.toList)
    have hlen := congrArg List.length hrow
    simp only [length_append, length_singleton] at hlen
    have hone : (pieces other.url.toList).length = [proxy.url.toList].length := by
      rw [length_singleton]
      omega
    obtain ⟨hfront, hback⟩ := append_inj hrow hone
    have h₃ := String.toList_inj.mp (pieces_inj (hfront.trans (pieces_of_notMem hurl).symm))
    have h₄ := String.toList_inj.mp (pieces_inj (hback.trans (pieces_of_notMem hid).symm))
    obtain ⟨url, id⟩ := other
    subst h₃ h₄
    rfl

end DbClinic.Mcp
