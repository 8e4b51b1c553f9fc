import DbClinic.Runtime.Permissions
import DbClinic.Runtime.Trim

/-!
The text of a rule for one exact content. The content is written with a backslash
before each backslash and parenthesis. The three replacements that take them away
again look for a backslash before an opening parenthesis, before a closing one,
and before a backslash, in this order; each leaves the pairs of the later ones
where they are.
-/

namespace DbClinic.Runtime

open List

/-- A backslash before each of the special characters. -/
def escapeOnly (special : List Char) (c : Char) : List Char :=
  if c ∈ special then ['\\', c] else [c]

def escapeContent (content : List Char) : List Char :=
  content.flatMap (escapeOnly ['(', ')', '\\'])

section Replacement

variable {k : Char} {rest : List Char}

theorem replaceFrom_pair :
    replaceFrom ['\\', k] [k] 0 ('\\' :: k :: rest) = k :: replaceFrom ['\\', k] [k] 0 rest := by
  have hfound : ['\\', k].isPrefixOf ('\\' :: k :: rest) = true := by
    rw [List.isPrefixOf_iff_prefix]
    exact prefix_append ['\\', k] rest
  rw [replaceFrom, if_pos hfound]
  rfl

theorem replaceFrom_plain {c : Char} (hc : c ≠ '\\') :
    replaceFrom ['\\', k] [k] 0 (c :: rest) = c :: replaceFrom ['\\', k] [k] 0 rest := by
  have hother : ¬ ['\\', k].isPrefixOf (c :: rest) = true := by
    rw [List.isPrefixOf_iff_prefix, cons_prefix_cons]
    exact fun h => hc h.1.symm
  rw [replaceFrom, if_neg hother]

theorem replaceFrom_backslash (hrest : rest.head? ≠ some k) :
    replaceFrom ['\\', k] [k] 0 ('\\' :: rest) = '\\' :: replaceFrom ['\\', k] [k] 0 rest := by
  have hother : ¬ ['\\', k].isPrefixOf ('\\' :: rest) = true := by
    rw [List.isPrefixOf_iff_prefix, cons_prefix_cons]
    rintro ⟨-, tail, htail⟩
    rw [← htail] at hrest
    exact hrest rfl
  rw [replaceFrom, if_neg hother]

theorem head?_flatMap_escapeOnly {special : List Char} (hk : k ∈ special) (hbackslash : k ≠ '\\')
    (content : List Char) : (content.flatMap (escapeOnly special)).head? ≠ some k := by
  cases content with
  | nil => exact Option.some_ne_none k ∘ Eq.symm
  | cons c content =>
    rw [flatMap_cons]
    unfold escapeOnly
    split
    · intro h
      exact hbackslash (Option.some.inj h).symm
    · rename_i hc
      intro h
      exact hc (Option.some.inj h ▸ hk)

theorem replaceText_escapeOnly {special : List Char} (hk : k ∉ special) (hbackslash : k ≠ '\\')
    (hspecial : '\\' ∈ special) (content : List Char) :
    replaceText ['\\', k] [k] (content.flatMap (escapeOnly (k :: special))) =
      content.flatMap (escapeOnly special) := by
  unfold replaceText
  induction content with
  | nil => rfl
  | cons c content ih =>
    have hhead := head?_flatMap_escapeOnly (mem_cons_self (l := special)) hbackslash content
    rw [flatMap_cons, flatMap_cons]
    by_cases hc : c = k
    · subst hc
      have hescaped : escapeOnly (c :: special) c = ['\\', c] := if_pos mem_cons_self
      have hplain : escapeOnly special c = [c] := if_neg hk
      rw [hescaped, hplain, cons_append, singleton_append, replaceFrom_pair, ih]
      rfl
    · have hsame : escapeOnly (k :: special) c = escapeOnly special c := by
        unfold escapeOnly
        simp only [mem_cons, hc, false_or]
      rw [hsame]
      by_cases hmem : c ∈ special
      · have hescaped : escapeOnly special c = ['\\', c] := if_pos hmem
        have hnext : (c :: content.flatMap (escapeOnly (k :: special))).head? ≠ some k :=
          fun h => hc (Option.some.inj h)
        rw [hescaped, cons_append, singleton_append, replaceFrom_backslash hnext]
        by_cases hslash : c = '\\'
        · subst hslash
          rw [replaceFrom_backslash hhead, ih]
          rfl
        · rw [replaceFrom_plain hslash, ih]
          rfl
      · have hplain : escapeOnly special c = [c] := if_neg hmem
        have hslash : c ≠ '\\' := fun h => hmem (h ▸ hspecial)
        rw [hplain, singleton_append, replaceFrom_plain hslash, ih]
        rfl

theorem replaceText_backslashes (content : List Char) :
    replaceText ['\\', '\\'] ['\\'] (content.flatMap (escapeOnly ['\\'])) = content := by
  unfold replaceText
  induction content with
  | nil => rfl
  | cons c content ih =>
    rw [flatMap_cons]
    by_cases hc : c = '\\'
    · subst hc
      have hescaped : escapeOnly ['\\'] '\\' = ['\\', '\\'] := rfl
      rw [hescaped, cons_append, singleton_append, replaceFrom_pair, ih]
    · have hplain : escapeOnly ['\\'] c = [c] := if_neg (mt mem_singleton.mp hc)
      rw [hplain, singleton_append, replaceFrom_plain hc, ih]

end Replacement

theorem unescapeRuleContent_escapeContent (content : List Char) :
    unescapeRuleContent (escapeContent content) = content := by
  unfold unescapeRuleContent escapeContent
  rw [replaceText_escapeOnly (by decide) (by decide) (by decide),
    replaceText_escapeOnly (by decide) (by decide) (by decide), replaceText_backslashes]

theorem trim_escapeContent {content : List Char}
    (hhead : ∀ c ∈ content.head?, isWhitespace c = false)
    (hlast : ∀ c ∈ content.getLast?, isWhitespace c = false) :
    trim (escapeContent content) = escapeContent content := by
  refine trim_of_ends ?_ ?_
  · cases content with
    | nil => exact fun c hc => by cases hc
    | cons c content =>
      unfold escapeContent
      rw [flatMap_cons]
      unfold escapeOnly
      split
      · intro d hd
        cases hd
        decide
      · intro d hd
        cases hd
        exact hhead c rfl
  · rcases eq_nil_or_concat' content with rfl | ⟨before, c, rfl⟩
    · exact fun c hc => by cases hc
    · have hc : (escapeContent (before ++ [c])).getLast? = some c := by
        unfold escapeContent escapeOnly
        rw [flatMap_append, flatMap_singleton, getLast?_append]
        split <;> rfl
      rw [hc]
      intro d hd
      cases hd
      exact hlast c getLast?_concat

theorem even_backslashes_escapeContent (content : List Char) :
    ((escapeContent content).reverse.takeWhile (· = '\\')).length % 2 = 0 := by
  induction content using List.reverseRecOn with
  | nil => rfl
  | append_singleton content c ih =>
    unfold escapeContent at ih ⊢
    rw [flatMap_append, flatMap_singleton, reverse_append]
    by_cases hc : c = '\\'
    · subst hc
      change (((List.flatMap _ content).reverse.takeWhile _).length + 1 + 1) % 2 = 0
      omega
    · have hend : ((escapeOnly ['(', ')', '\\'] c).reverse ++
          (content.flatMap (escapeOnly ['(', ')', '\\'])).reverse).takeWhile (· = '\\') = [] := by
        unfold escapeOnly
        split
        · exact takeWhile_cons_of_neg (by simpa using hc)
        · exact takeWhile_cons_of_neg (by simpa using hc)
      rw [hend]
      rfl

theorem findFirstUnescaped_name {name : List Char} (hname : ∀ c ∈ name, c ≠ '(' ∧ c ≠ '\\')
    (position : Nat) (rest : List Char) :
    findFirstUnescaped '(' false position (name ++ '(' :: rest) = some (position + name.length) := by
  induction name generalizing position with
  | nil =>
    change findFirstUnescaped '(' false position ('(' :: rest) = some position
    unfold findFirstUnescaped
    rw [if_neg (by decide), if_pos ⟨rfl, rfl⟩]
  | cons c name ih =>
    obtain ⟨⟨hopen, hslash⟩, hrest⟩ := forall_mem_cons.mp hname
    rw [cons_append]
    unfold findFirstUnescaped
    rw [if_neg hslash, if_neg (fun h => hopen h.1), ih hrest, length_cons]
    exact congrArg some (by omega)

theorem findLastUnescaped_end {before : List Char}
    (heven : (before.reverse.takeWhile (· = '\\')).length % 2 = 0) :
    findLastUnescaped ')' (before ++ [')']) = some before.length := by
  have hlen : (before ++ [')']).length = before.length + 1 := length_append
  unfold findLastUnescaped
  rw [hlen, range_succ, reverse_append, reverse_singleton, singleton_append,
    find?_cons_of_pos]
  have hclose : (before ++ [')'])[before.length]? = some ')' := getElem?_concat_length
  rw [hclose, take_left]
  simpa using heven

section Parse

variable {name content : List Char}

theorem parse_escaped (hne : name ≠ []) (htrim : trim name = name)
    (hname : ∀ c ∈ name, c ≠ '(' ∧ c ≠ ')' ∧ c ≠ '\\') :
    PermissionRule.parse (String.ofList (name ++ '(' :: escapeContent content ++ [')'])) =
      ⟨String.ofList (name ++ '(' :: escapeContent content ++ [')']), String.ofList name,
        parseRuleMatcher (escapeContent content)⟩ := by
  have hwhole : trim (name ++ '(' :: escapeContent content ++ [')']) =
      name ++ '(' :: escapeContent content ++ [')'] := by
    refine trim_of_ends ?_ ?_
    · cases name with
      | nil => exact absurd rfl hne
      | cons c name =>
        intro d hd
        cases hd
        exact head?_of_trim htrim c rfl
    · rw [getLast?_concat]
      intro d hd
      cases hd
      decide
  have hfirst : findFirstUnescaped '(' false 0 (name ++ '(' :: escapeContent content ++ [')']) =
      some name.length := by
    rw [append_assoc, cons_append,
      findFirstUnescaped_name (fun c hc => ⟨(hname c hc).1, (hname c hc).2.2⟩), Nat.zero_add]
  have hend : findLastUnescaped ')' (name ++ '(' :: escapeContent content ++ [')']) =
      some (name ++ '(' :: escapeContent content).length := by
    refine findLastUnescaped_end ?_
    have hpairs := even_backslashes_escapeContent content
    rw [reverse_append, reverse_cons, append_assoc, takeWhile_append]
    split
    · -- The content is all backslashes: the opening parenthesis ends the run.
      rename_i hall
      rw [singleton_append, takeWhile_cons_of_neg (by decide), append_nil, ← hall]
      exact hpairs
    · exact hpairs
  have hbounds : (name ++ '(' :: escapeContent content).length =
        (name ++ '(' :: escapeContent content ++ [')']).length - 1 ∧
      name.length < (name ++ '(' :: escapeContent content).length := by
    simp only [length_append, length_cons, length_nil]
    omega
  have htake : (name ++ '(' :: escapeContent content ++ [')']).take name.length = name := by
    rw [append_assoc, take_left]
  have hcontent : ((name ++ '(' :: escapeContent content ++ [')']).take
      (name ++ '(' :: escapeContent content).length).drop (name.length + 1) =
        escapeContent content := by
    rw [take_left, drop_append, drop_eq_nil_of_le (Nat.le_succ _),
      Nat.add_sub_cancel_left]
    rfl
  unfold PermissionRule.parse
  rw [String.toList_ofList, hwhole]
  dsimp only
  rw [hfirst, hend]
  dsimp only
  rw [if_pos hbounds, htake, htrim, if_pos hne, hcontent]

theorem parseRuleMatcher_exact (hhead : ∀ c ∈ content.head?, isWhitespace c = false)
    (hlast : ∀ c ∈ content.getLast?, isWhitespace c = false) (hne : content ≠ [])
    (hstar : content ≠ ['*']) (hnone : stripSuffix [':', '*'] content = none) :
    parseRuleMatcher (escapeContent content) = .exact (String.ofList content) := by
  unfold parseRuleMatcher
  rw [trim_escapeContent hhead hlast, unescapeRuleContent_escapeContent]
  dsimp only
  rw [if_neg (not_or.mpr ⟨hne, hstar⟩), hnone]

theorem ends_startsWith (hhead : ∀ c ∈ content.head?, isWhitespace c = false) :
    (∀ c ∈ (content ++ [':', '*']).head?, isWhitespace c = false) ∧
      ∀ c ∈ (content ++ [':', '*']).getLast?, isWhitespace c = false := by
  constructor
  · cases content with
    | nil =>
      intro c hc
      cases hc
      decide
    | cons d rest => exact fun c hc => hhead c hc
  · intro c hc
    rw [getLast?_append] at hc
    cases hc
    decide

/-- With `:*` behind it, it comes back as the start of one. -/
theorem parseRuleMatcher_startsWith (hhead : ∀ c ∈ content.head?, isWhitespace c = false) :
    parseRuleMatcher (escapeContent (content ++ [':', '*'])) =
      .startsWith (String.ofList content) := by
  obtain ⟨hheadAll, hlastAll⟩ := ends_startsWith hhead
  have hstripped : stripSuffix [':', '*'] (content ++ [':', '*']) = some content := by
    unfold stripSuffix
    rw [if_pos (isSuffixOf_iff_suffix.mpr (suffix_append _ _)), length_append,
      Nat.add_sub_cancel, take_left]
  have hlonger : ¬ (content ++ [':', '*'] = [] ∨ content ++ [':', '*'] = ['*']) := by
    rintro (hnil | hstar)
    · exact append_ne_nil_of_right_ne_nil _ (cons_ne_nil _ _) hnil
    · have hlen := congrArg List.length hstar
      simp only [length_append, length_cons, length_nil] at hlen
      omega
  unfold parseRuleMatcher
  rw [trim_escapeContent hheadAll hlastAll, unescapeRuleContent_escapeContent]
  dsimp only
  rw [if_neg hlonger, hstripped]

theorem escapeContent_append (first second : List Char) :
    escapeContent (first ++ second) = escapeContent first ++ escapeContent second :=
  flatMap_append

end Parse

def exactRule (toolName content : String) : String :=
  String.ofList (toolName.toList ++ '(' :: escapeContent content.toList ++ [')'])

/-- The text of a rule for the calls of a tool with a content that begins so. -/
def prefixRule (toolName content : String) : String :=
  String.ofList (toolName.toList ++ '(' :: escapeContent content.toList ++ [':', '*', ')'])

/-- For every tool name that is not empty, has no blank at its ends and no
parenthesis or backslash: the rule with an escaped content is read as that tool
with exactly that content, and matches the calls of the tool whose subject it is;
and with `:*` behind the content it is read as the start of one. -/
theorem rule_escaping_faithful (fromStr : String → Option Value) (toolName content : String)
    (hne : toolName ≠ "") (htrim : trim toolName.toList = toolName.toList)
    (hname : ∀ c ∈ toolName.toList, c ≠ '(' ∧ c ≠ ')' ∧ c ≠ '\\') (hcontent : content ≠ "")
    (hends : trim content.toList = content.toList) (hstar : content ≠ "*")
    (hsuf : ¬ [':', '*'] <:+ content.toList) :
    ((PermissionRule.parse (exactRule toolName content)).toolName = toolName ∧
      (PermissionRule.parse (exactRule toolName content)).matcher = .exact content) ∧
    (∀ name input, (PermissionRule.parse (exactRule toolName content)).isMatch fromStr name input =
      true ↔ name = toolName ∧ extractPermissionSubject fromStr input = some content) ∧
    ∀ text : String, (∀ c ∈ text.toList.head?, isWhitespace c = false) →
      (PermissionRule.parse (prefixRule toolName text)).toolName = toolName ∧
        (PermissionRule.parse (prefixRule toolName text)).matcher = .startsWith text := by
  have hnameNe : toolName.toList ≠ [] := by
    intro h
    exact hne (String.toList_injective h)
  have hcontentNe : content.toList ≠ [] := by
    intro h
    exact hcontent (String.toList_injective h)
  have hcontentStar : content.toList ≠ ['*'] := by
    intro h
    exact hstar (String.toList_injective h)
  have hnone : stripSuffix [':', '*'] content.toList = none := by
    unfold stripSuffix
    rw [if_neg (by simpa [isSuffixOf_iff_suffix] using hsuf)]
  have hexact : PermissionRule.parse (exactRule toolName content) =
      ⟨exactRule toolName content, toolName, .exact content⟩ := by
    unfold exactRule
    rw [parse_escaped hnameNe htrim hname,
      parseRuleMatcher_exact (head?_of_trim hends) (getLast?_of_trim hends) hcontentNe hcontentStar
        hnone, String.ofList_toList, String.ofList_toList]
  refine ⟨⟨by rw [hexact], by rw [hexact]⟩, ?_, ?_⟩
  · intro name input
    rw [hexact]
    unfold PermissionRule.isMatch
    dsimp only
    by_cases hother : toolName = name
    · rw [if_neg (not_not.mpr hother)]
      cases extractPermissionSubject fromStr input with
      | none => simp
      | some subject => simp [hother]
    · rw [if_pos hother]
      exact iff_of_false Bool.false_ne_true fun h => hother h.1.symm
  · intro text hhead
    have htext : prefixRule toolName text = String.ofList (toolName.toList ++
        '(' :: escapeContent (text.toList ++ [':', '*']) ++ [')']) := by
      have hplain : escapeContent [':', '*'] = [':', '*'] := by decide
      unfold prefixRule
      rw [escapeContent_append, hplain]
      simp
    rw [htext, parse_escaped hnameNe htrim hname, parseRuleMatcher_startsWith hhead]
    exact ⟨String.ofList_toList, congrArg _ String.ofList_toList⟩

/-- The rule for one removal with parentheses in it. -/
theorem rule_escaping_faithful_removal :
    ((PermissionRule.parse (exactRule "bash" "rm (a)")).toolName = "bash" ∧
      (PermissionRule.parse (exactRule "bash" "rm (a)")).matcher = .exact "rm (a)") ∧
    (∀ name input, (PermissionRule.parse (exactRule "bash" "rm (a)")).isMatch (fun _ => none) name
      input = true ↔ name = "bash" ∧
        extractPermissionSubject (fun _ => none) input = some "rm (a)") ∧
    ∀ text : String, (∀ c ∈ text.toList.head?, isWhitespace c = false) →
      (PermissionRule.parse (prefixRule "bash" text)).toolName = "bash" ∧
        (PermissionRule.parse (prefixRule "bash" text)).matcher = .startsWith text :=
  rule_escaping_faithful (fun _ => none) "bash" "rm (a)" (by decide) (by decide)
    (forall_mem_of_all (by decide)) (by decide) (by decide) (by decide) (by decide)

end DbClinic.Runtime
