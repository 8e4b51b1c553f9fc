import Mathlib.Logic.Relation
import DbClinic.Runtime.CommandValidation
import DbClinic.Tools.HtmlText

/-!
The scanners of fetched pages. Offsets count bytes, and a slice panics where one
is no character boundary. The scanner of results steps over one byte of whatever
follows a link that is not closed; that of titles takes its offsets from the
page in lower case.
-/

namespace DbClinic.Tools

open DbClinic.Runtime List

/-- `str::find`, with a text. -/
def find (pattern cs : List Char) : Option Nat :=
  (splitOnce pattern cs).map fun parts => byteLength parts.1

/-- `&text[..stop]`. -/
def takeBytes (stop : Nat) (cs : List Char) : Option (List Char) :=
  (dropBytes stop cs).map fun rest => cs.take (cs.length - rest.length)

def extractQuotedValue (input : List Char) : Option (Option (List Char × List Char)) :=
  match input.head? with
  | none => some none
  | some quote =>
    if quote ≠ '"' ∧ quote ≠ '\'' then some none
    else do
      let rest ← dropBytes quote.utf8Size input
      match find [quote] rest with
      | none => some none
      | some stop => do
        let value ← takeBytes stop rest
        let behind ← dropBytes (stop + quote.utf8Size) rest
        some (some (value, behind))

def linkOf (afterMark : List Char) : Option (Option (List Char × List Char)) :=
  match find "href=".toList afterMark with
  | none => some none
  | some href => do
    let hrefSlice ← dropBytes (href + 5) afterMark
    match ← extractQuotedValue hrefSlice with
    | none => some none
    | some (url, rest) =>
      match find ['>'] rest with
      | none => some none
      | some close => do
        let afterTag ← dropBytes (close + 1) rest
        some (some (url, afterTag))

/-- What the scanners look for. -/
def RESULT_MARK : List Char := "result__a".toList

def LINK_MARK : List Char := "<a".toList

def LINK_END : List Char := "</a>".toList

structure SearchHit where
  title : List Char
  url : List Char
  deriving DecidableEq

/-- What the URL parser makes of a URL. -/
structure ParsedUrl where
  host : Option (List Char)
  path : List Char
  queryPairs : List (List Char × List Char)
  text : List Char

section Scanners

variable (parse : List Char → Option ParsedUrl)

def isWebUrl (url : List Char) : Bool :=
  "http://".toList.isPrefixOf url || "https://".toList.isPrefixOf url

def decodeDuckduckgoRedirect (url : List Char) : Option (List Char) := do
  let decoded := decodeHtmlEntities url
  let parsed ←
    if isWebUrl decoded then parse decoded
    else if "//".toList.isPrefixOf decoded then parse ("https:".toList ++ decoded)
    else if "/".toList.isPrefixOf decoded then parse ("https://duckduckgo.com".toList ++ decoded)
    else none
  let host := (parsed.host.getD []).map Char.toLower
  let redirect :=
    if (host = "duckduckgo.com".toList || ".duckduckgo.com".toList.isSuffixOf host) &&
        (parsed.path = "/l/".toList || parsed.path = "/l".toList) then
      parsed.queryPairs.find? fun pair => pair.1 = "uddg".toList
    else none
  match redirect with
  | some pair => some (decodeHtmlEntities pair.2)
  | none => some (if isWebUrl decoded then decoded else parsed.text)

/-- One round of `extract_search_hits`: the hit it finds and what remains. -/
def searchRound (remaining : List Char) : Option (Option (List SearchHit × List Char)) :=
  match find RESULT_MARK remaining with
  | none => some none
  | some anchorStart => do
    let afterClass ← dropBytes anchorStart remaining
    match ← linkOf afterClass with
    | none => do
      let next ← dropBytes 1 afterClass
      some (some ([], next))
    | some (url, afterTag) =>
      match find LINK_END afterTag with
      | none => do
        let next ← dropBytes 1 afterTag
        some (some ([], next))
      | some endAnchor => do
        let inner ← takeBytes endAnchor afterTag
        let next ← dropBytes (endAnchor + 4) afterTag
        let hits := match decodeDuckduckgoRedirect parse url with
          | some decoded => [⟨trim (htmlToText inner), decoded⟩]
          | none => []
        some (some (hits, next))

/-- One round of `extract_search_hits_from_generic_links`. -/
def genericRound (remaining : List Char) : Option (Option (List SearchHit × List Char)) :=
  match find LINK_MARK remaining with
  | none => some none
  | some anchorStart => do
    let afterAnchor ← dropBytes anchorStart remaining
    match ← linkOf afterAnchor with
    | none => do
      let next ← dropBytes 2 afterAnchor
      some (some ([], next))
    | some (url, afterTag) =>
      match find LINK_END afterTag with
      | none => do
        let next ← dropBytes 2 afterAnchor
        some (some ([], next))
      | some endAnchor => do
        let inner ← takeBytes endAnchor afterTag
        let next ← dropBytes (endAnchor + 4) afterTag
        let title := trim (htmlToText inner)
        let decoded := (decodeDuckduckgoRedirect parse url).getD url
        some (some (if title ≠ [] && isWebUrl decoded then [⟨title, decoded⟩] else [], next))

end Scanners

inductive Scan where
  | hits (found : List SearchHit)
  | panicked
  | unfinished
  deriving DecidableEq

/-- The loop of a scanner. -/
def scanRounds (round : List Char → Option (Option (List SearchHit × List Char))) :
    (fuel : Nat) → List Char → Scan
  | 0, _ => .unfinished
  | fuel + 1, remaining =>
    match round remaining with
    | none => .panicked
    | some none => .hits []
    | some (some (found, next)) =>
      match scanRounds round fuel next with
      | .hits more => .hits (found ++ more)
      | other => other

def extractSearchHits (parse : List Char → Option ParsedUrl) (html : List Char) : Scan :=
  scanRounds (searchRound parse) (html.length + 1) html

def extractSearchHitsFromGenericLinks (parse : List Char → Option ParsedUrl)
    (html : List Char) : Scan :=
  scanRounds (genericRound parse) (html.length + 1) html

variable {pattern cs before rest : List Char} {i : Nat}

theorem takeBytes_prefix (before rest : List Char) :
    takeBytes (byteLength before) (before ++ rest) = some before := by
  rw [takeBytes, dropBytes_prefix, Option.map_some, length_append, Nat.add_sub_cancel,
    take_left]

theorem find_spec (h : find pattern cs = some i) :
    ∃ before after, splitOnce pattern cs = some (before, after) ∧
      cs = before ++ pattern ++ after ∧ i = byteLength before ∧
      takeBytes i cs = some before ∧ dropBytes i cs = some (pattern ++ after) ∧
      dropBytes (i + byteLength pattern) cs = some after := by
  obtain ⟨⟨before, after⟩, hsplit, rfl⟩ := Option.map_eq_some_iff.mp h
  have hcs := splitOnce_eq hsplit
  refine ⟨before, after, hsplit, hcs, rfl, ?_, ?_, ?_⟩
  · rw [hcs, append_assoc, takeBytes_prefix]
  · rw [hcs, append_assoc, dropBytes_prefix]
  · rw [hcs, append_assoc, dropBytes_add, dropBytes_prefix]

theorem find_eq_none_iff : find pattern cs = none ↔ ¬pattern <:+: cs := by
  rw [find, Option.map_eq_none_iff, splitOnce_eq_none_iff]

theorem extractQuotedValue_spec (input : List Char) :
    ∃ value, extractQuotedValue input = some value ∧
      ∀ text behind, value = some (text, behind) → behind.length ≤ input.length := by
  unfold extractQuotedValue
  cases input with
  | nil => exact ⟨none, rfl, nofun⟩
  | cons quote input =>
    have hdrop : dropBytes quote.utf8Size (quote :: input) = some input := by
      have hone := dropBytes_prefix [quote] input
      rwa [byteLength_cons, show byteLength [] = 0 from rfl, Nat.add_zero] at hone
    simp only [head?_cons]
    split
    · exact ⟨none, rfl, nofun⟩
    · simp only [hdrop, bind, Option.bind_some]
      cases hfind : find [quote] input with
      | none => exact ⟨none, rfl, nofun⟩
      | some stop =>
        obtain ⟨before, after, -, hinput, -, htake, -, hbehind⟩ := find_spec hfind
        rw [byteLength_cons, show byteLength [] = 0 from rfl, Nat.add_zero] at hbehind
        simp only [htake, hbehind, Option.bind_some]
        refine ⟨_, rfl, fun text behind heq => ?_⟩
        cases heq
        rw [hinput]
        simp only [length_cons, length_append]
        omega

theorem linkOf_spec (afterMark : List Char) :
    ∃ link, linkOf afterMark = some link ∧
      ∀ url tail, link = some (url, tail) → tail.length < afterMark.length := by
  unfold linkOf
  cases hhref : find "href=".toList afterMark with
  | none => exact ⟨none, rfl, nofun⟩
  | some href =>
    obtain ⟨before, after, -, hmark, -, -, -, hslice⟩ := find_spec hhref
    rw [show byteLength "href=".toList = 5 by decide] at hslice
    obtain ⟨value, hval, hlen⟩ := extractQuotedValue_spec after
    simp only [hslice, hval, bind, Option.bind_some]
    cases value with
    | none => exact ⟨none, rfl, nofun⟩
    | some parts =>
      obtain ⟨url, rest⟩ := parts
      have hrest := hlen url rest rfl
      cases hclose : find ['>'] rest with
      | none => exact ⟨none, by simp only [hclose], nofun⟩
      | some close =>
        obtain ⟨front, tail, -, hsplit, -, -, -, htail⟩ := find_spec hclose
        rw [show byteLength ['>'] = 1 by decide] at htail
        simp only [hclose, htail, Option.bind_some]
        refine ⟨_, rfl, fun url tail heq => ?_⟩
        cases heq
        have hrest' := congrArg List.length hsplit
        have hmark' := congrArg List.length hmark
        simp only [length_append] at hrest' hmark'
        have hfive : "href=".toList.length = 5 := by decide
        omega

section Rounds

variable {parse : List Char → Option ParsedUrl} {remaining next : List Char}

/-- The next link of the remaining text has a tag, but no end, and what follows
the tag does not begin with a character of one byte. -/
def Unclosed (remaining : List Char) : Prop :=
  ∃ before after url tail, splitOnce RESULT_MARK remaining = some (before, after) ∧
    linkOf (RESULT_MARK ++ after) = some (some (url, tail)) ∧
    ¬LINK_END <:+: tail ∧ ∀ c ∈ tail.head?, c.utf8Size ≠ 1

theorem dropBytes_one (cs : List Char) :
    (dropBytes 1 cs = none ∧ ∀ c ∈ cs.head?, c.utf8Size ≠ 1) ∨
      ∃ c rest, cs = c :: rest ∧ c.utf8Size = 1 ∧ dropBytes 1 cs = some rest := by
  cases cs with
  | nil => exact .inl ⟨rfl, nofun⟩
  | cons c rest =>
    have hpos := c.utf8Size_pos
    by_cases hc : c.utf8Size = 1
    · have hone := dropBytes_prefix [c] rest
      rw [byteLength_cons, show byteLength [] = 0 from rfl, Nat.add_zero, hc] at hone
      exact .inr ⟨c, rest, rfl, hc, hone⟩
    · refine .inl ⟨by rw [dropBytes, if_neg (by omega)], fun d hd => ?_⟩
      cases hd
      exact hc

theorem dropBytes_linkEnd {tail : List Char} (h : find LINK_END tail = some i) :
    ∃ inner next, takeBytes i tail = some inner ∧ dropBytes (i + 4) tail = some next ∧
      next.length < tail.length := by
  obtain ⟨inner, next, -, htail, -, htake, -, hnext⟩ := find_spec h
  refine ⟨inner, next, htake, hnext, ?_⟩
  have hend : LINK_END.length = 4 := rfl
  rw [htail, length_append, length_append]
  omega

theorem searchRound_spec (remaining : List Char) :
    (searchRound parse remaining = none ↔ Unclosed remaining) ∧
      ∀ found next, searchRound parse remaining = some (some (found, next)) →
        next.length < remaining.length := by
  cases hstart : find RESULT_MARK remaining with
  | none =>
    have hround : searchRound parse remaining = some none := by
      rw [searchRound, hstart]
    rw [find, Option.map_eq_none_iff] at hstart
    rw [hround]
    refine ⟨iff_of_false (by simp) ?_, by simp⟩
    rintro ⟨before, after, -, -, hsplit, -⟩
    rw [hstart] at hsplit
    cases hsplit
  | some start =>
    obtain ⟨before, after, hsplit, hremaining, -, -, hclass, -⟩ := find_spec hstart
    obtain ⟨link, hlink, hshorter⟩ := linkOf_spec (RESULT_MARK ++ after)
    have hlen := congrArg List.length hremaining
    have hmark : RESULT_MARK.length = 9 := rfl
    simp only [length_append, hmark] at hlen hshorter
    have hunclosed : Unclosed remaining ↔ ∃ url tail, link = some (url, tail) ∧
        ¬LINK_END <:+: tail ∧ ∀ c ∈ tail.head?, c.utf8Size ≠ 1 := by
      simp only [Unclosed, hsplit, Option.some.injEq, Prod.mk.injEq, and_assoc,
        exists_and_left, exists_eq_left', hlink]
    rw [hunclosed, searchRound, hstart]
    simp only [hclass, hlink, bind, Option.bind_some]
    cases link with
    | none =>
      have hnext : dropBytes 1 (RESULT_MARK ++ after) = some (RESULT_MARK.tail ++ after) := rfl
      simp only [hnext, Option.bind_some]
      refine ⟨iff_of_false (by simp) (by simp), fun found next heq => ?_⟩
      cases heq
      rw [length_append, length_tail, hmark]
      omega
    | some parts =>
      obtain ⟨url, tail⟩ := parts
      have htail := hshorter url tail rfl
      cases hend : find LINK_END tail with
      | none =>
        have hopen := find_eq_none_iff.mp hend
        simp only [hend]
        rcases dropBytes_one tail with ⟨hnone, hhead⟩ | ⟨c, rest, hcons, hc, hnext⟩
        · rw [hnone]
          exact ⟨iff_of_true rfl ⟨url, tail, rfl, hopen, hhead⟩, by simp⟩
        · simp only [hnext, Option.bind_some]
          refine ⟨iff_of_false (by simp) ?_, fun found next heq => ?_⟩
          · rintro ⟨url', tail', heq, -, hhead⟩
            cases heq
            exact hhead c (by rw [hcons]; rfl) hc
          · cases heq
            rw [hcons, length_cons] at htail
            omega
      | some stop =>
        obtain ⟨inner, next, htake, hnext, hless⟩ := dropBytes_linkEnd hend
        have hin : LINK_END <:+: tail := by
          by_contra hnot
          rw [find_eq_none_iff.mpr hnot] at hend
          cases hend
        simp only [hend, htake, hnext, Option.bind_some]
        refine ⟨iff_of_false (by simp) ?_, fun found next heq => ?_⟩
        · rintro ⟨url', tail', heq, hopen, -⟩
          cases heq
          exact hopen hin
        · cases heq
          omega

theorem genericRound_spec (remaining : List Char) :
    genericRound parse remaining ≠ none ∧
      ∀ found next, genericRound parse remaining = some (some (found, next)) →
        next.length < remaining.length := by
  unfold genericRound
  cases hstart : find LINK_MARK remaining with
  | none => exact ⟨by simp, by simp⟩
  | some start =>
    obtain ⟨before, after, -, hremaining, -, -, hanchor, -⟩ := find_spec hstart
    obtain ⟨link, hlink, hshorter⟩ := linkOf_spec (LINK_MARK ++ after)
    have hlen := congrArg List.length hremaining
    have hmark : LINK_MARK.length = 2 := rfl
    have hskip : dropBytes 2 (LINK_MARK ++ after) = some after := by
      rw [show 2 = byteLength LINK_MARK by decide]
      exact dropBytes_prefix _ _
    simp only [length_append, hmark] at hlen hshorter
    simp only [hanchor, hlink, hskip, bind, Option.bind_some]
    cases link with
    | none =>
      refine ⟨by simp, fun found next heq => ?_⟩
      cases heq
      omega
    | some parts =>
      obtain ⟨url, tail⟩ := parts
      have htail := hshorter url tail rfl
      cases hend : find LINK_END tail with
      | none =>
        simp only [hend]
        refine ⟨by simp, fun found next heq => ?_⟩
        cases heq
        omega
      | some stop =>
        obtain ⟨inner, next, htake, hnext, hless⟩ := dropBytes_linkEnd hend
        simp only [hend, htake, hnext, Option.bind_some]
        refine ⟨by simp, fun found next heq => ?_⟩
        cases heq
        omega

end Rounds

section Runs

variable {round : List Char → Option (Option (List SearchHit × List Char))}

/-- The scan comes to the second text from the first. -/
def Comes (round : List Char → Option (Option (List SearchHit × List Char))) :
    List Char → List Char → Prop :=
  Relation.ReflTransGen fun remaining next => ∃ found, round remaining = some (some (found, next))

theorem scanRounds_spec (hless : ∀ remaining found next,
      round remaining = some (some (found, next)) → next.length < remaining.length)
    {fuel : Nat} {remaining : List Char} (hfuel : remaining.length < fuel) :
    scanRounds round fuel remaining ≠ .unfinished ∧
      ((∃ found, scanRounds round fuel remaining = .hits found) ↔
        ∀ later, Comes round remaining later → round later ≠ none) := by
  induction fuel generalizing remaining with
  | zero => exact absurd hfuel (Nat.not_lt_zero _)
  | succ fuel ih =>
    cases hround : round remaining with
    | none =>
      have hscan : scanRounds round (fuel + 1) remaining = .panicked := by
        rw [scanRounds, hround]
      rw [hscan]
      exact ⟨nofun, iff_of_false nofun fun h => h remaining .refl hround⟩
    | some result =>
      cases result with
      | none =>
        have hscan : scanRounds round (fuel + 1) remaining = .hits [] := by
          rw [scanRounds, hround]
        rw [hscan]
        refine ⟨nofun, iff_of_true ⟨[], rfl⟩ fun later hcomes => ?_⟩
        rcases Relation.ReflTransGen.cases_head hcomes with rfl | ⟨next, ⟨found, hnext⟩, -⟩
        · rw [hround]
          exact nofun
        · rw [hround] at hnext
          cases hnext
      | some step =>
        obtain ⟨found, next⟩ := step
        have hshorter := hless remaining found next hround
        obtain ⟨hfinishes, hreturns⟩ := @ih next (by omega)
        have hcomes : (∀ later, Comes round remaining later → round later ≠ none) ↔
            ∀ later, Comes round next later → round later ≠ none := by
          constructor
          · exact fun h later hlater => h later (.head ⟨found, hround⟩ hlater)
          · intro h later hlater
            rcases Relation.ReflTransGen.cases_head hlater with
              rfl | ⟨other, ⟨found', hother⟩, hrest⟩
            · rw [hround]
              exact nofun
            · rw [hround] at hother
              cases hother
              exact h later hrest
        have hscan : scanRounds round (fuel + 1) remaining =
            match scanRounds round fuel next with
            | .hits more => .hits (found ++ more)
            | other => other := by
          rw [scanRounds, hround]
        rw [hcomes, ← hreturns, hscan]
        cases hrest : scanRounds round fuel next with
        | hits more => exact ⟨nofun, iff_of_true ⟨_, rfl⟩ ⟨_, rfl⟩⟩
        | panicked => exact ⟨nofun, iff_of_false (by simp) (by simp)⟩
        | unfinished => exact absurd hrest hfinishes

end Runs

/-- `str::to_lowercase`, as far as the marks of tags go: the text on both sides
of a mark is lowered by itself, and no other character becomes a mark. -/
structure Lowercase where
  text : List Char → List Char
  nil : text [] = []
  cut : ∀ mark ∈ ['<', '>'], ∀ front back,
    text (front ++ mark :: back) = text front ++ mark :: text back
  mark_of_mem : ∀ mark ∈ ['<', '>'], ∀ cs, mark ∈ text cs → mark ∈ cs

def TITLE_START : List Char := "<title>".toList

def TITLE_END : List Char := "</title>".toList

section Titles

variable (lower : Lowercase)

/-- `raw_body[after..after + end_rel]`, where the page in lower case has the tags. -/
def titleSlice (rawBody : List Char) : Option (Option (List Char)) :=
  let lowered := lower.text rawBody
  match find TITLE_START lowered with
  | none => some none
  | some start => do
    let after := start + 7
    let tail ← dropBytes after lowered
    match find TITLE_END tail with
    | none => some none
    | some endRel => do
      let rest ← dropBytes after rawBody
      let slice ← takeBytes endRel rest
      some (some slice)

def titleText (slice : List Char) : List Char := collapseWhitespace (decodeHtmlEntities slice)

/-- The title that is taken from an element, if it is not empty. -/
def elementTitle (rawBody contentType : List Char) : Option (Option (List Char)) :=
  if containsText "html".toList contentType then
    (titleSlice lower rawBody).map fun slice => (slice.map titleText).filter (· ≠ [])
  else some none

def extractTitle (content rawBody contentType : List Char) : Option (Option (List Char)) :=
  (elementTitle lower rawBody contentType).map fun title =>
    title.or (((textLines content).map trim).find? (· ≠ []))

/-- A first title element of a page, with tags in whatever case: the texts
around them are those that the page in lower case has around its first tags. -/
structure TitleElement (rawBody : List Char) where
  before : List Char
  startTag : List Char
  inner : List Char
  endTag : List Char
  after : List Char
  page : rawBody = before ++ startTag ++ (inner ++ endTag ++ after)
  start : splitOnce TITLE_START (lower.text rawBody) =
    some (lower.text before, lower.text (inner ++ endTag ++ after))
  startName : lower.text startTag = TITLE_START
  stop : splitOnce TITLE_END (lower.text (inner ++ endTag ++ after)) =
    some (lower.text inner, lower.text after)
  endName : lower.text endTag = TITLE_END

/-- A title that is taken is the text between the tags in the page itself. -/
def TitleRight (rawBody contentType : List Char) : Prop :=
  elementTitle lower rawBody contentType ≠ none ∧
    ∀ title, elementTitle lower rawBody contentType = some (some title) →
      Nonempty (TitleElement lower rawBody) ∧
        ∀ element : TitleElement lower rawBody, title = titleText element.inner

variable {lower} {rawBody contentType : List Char}

/-- The page up to the text, and the text, are as long in lower case. -/
def TitleElement.Kept (e : TitleElement lower rawBody) : Prop :=
  byteLength (lower.text e.before) + 7 = byteLength (e.before ++ e.startTag) ∧
    byteLength (lower.text e.inner) = byteLength e.inner

/-- What stands at the places of the page in lower case reads the same, or as nothing. -/
def TitleElement.Coincides (e : TitleElement lower rawBody) : Prop :=
  ∃ rest slice, dropBytes (byteLength (lower.text e.before) + 7) rawBody = some rest ∧
    takeBytes (byteLength (lower.text e.inner)) rest = some slice ∧
      (titleText slice = [] ∨ titleText slice = titleText e.inner)

theorem Lowercase.exists_cut {mark : Char} (hmark : mark ∈ ['<', '>']) {cs front back : List Char}
    (h : lower.text cs = front ++ mark :: back) :
    ∃ a b, cs = a ++ mark :: b ∧ lower.text a = front ∧ lower.text b = back := by
  induction hlen : cs.length using Nat.strong_induction_on generalizing cs front with
  | _ n ih =>
    have hmem : mark ∈ cs := lower.mark_of_mem mark hmark cs (by rw [h]; simp)
    obtain ⟨a, b, rfl, hfresh⟩ := eq_append_cons_of_mem hmem
    have hfresh : mark ∉ lower.text a := mt (lower.mark_of_mem mark hmark a) hfresh
    rw [lower.cut mark hmark] at h
    obtain ⟨k, hfront, hk⟩ | ⟨k, ha, hk⟩ := append_eq_append_iff.mp h
    · cases k with
      | nil => exact ⟨a, b, rfl, by rw [hfront, append_nil], (List.cons.inj hk).2⟩
      | cons d k =>
        obtain ⟨rfl, hb⟩ := List.cons.inj hk
        obtain ⟨a', b', rfl, ha', hb'⟩ := ih b.length
          (by rw [← hlen, length_append, length_cons]; omega) hb rfl
        refine ⟨a ++ mark :: a', b', by simp, ?_, hb'⟩
        rw [lower.cut mark hmark, ha', hfront]
    · cases k with
      | nil => exact ⟨a, b, rfl, by rw [ha, append_nil], (List.cons.inj hk).2.symm⟩
      | cons d k =>
        rw [(List.cons.inj hk).1, ha] at hfresh
        exact absurd (by simp) hfresh

theorem Lowercase.exists_tag {name cs front back : List Char}
    (h : lower.text cs = front ++ ('<' :: name ++ ['>']) ++ back) :
    ∃ a tag b, cs = a ++ tag ++ b ∧ lower.text a = front ∧
      lower.text tag = '<' :: name ++ ['>'] ∧ lower.text b = back := by
  have hstart : lower.text cs = front ++ '<' :: (name ++ '>' :: back) := by simp [h]
  obtain ⟨a, rest, rfl, ha, hrest⟩ := Lowercase.exists_cut (by decide) hstart
  obtain ⟨t, b, rfl, ht, hb⟩ := Lowercase.exists_cut (by decide) hrest
  refine ⟨a, '<' :: t ++ ['>'], b, by simp, ha, ?_, hb⟩
  have htag := lower.cut '<' (by decide) [] (t ++ ['>'])
  have hclose := lower.cut '>' (by decide) t []
  rw [lower.nil] at htag hclose
  simpa [hclose, ht] using htag

theorem exists_titleElement {x y x' y' : List Char}
    (hstart : splitOnce TITLE_START (lower.text rawBody) = some (x, y))
    (hstop : splitOnce TITLE_END y = some (x', y')) : Nonempty (TitleElement lower rawBody) := by
  obtain ⟨before, startTag, rest, hpage, hbefore, hname, hrest⟩ :=
    @Lowercase.exists_tag lower "title".toList _ _ _ (splitOnce_eq hstart)
  rw [← hrest] at hstop
  obtain ⟨inner, endTag, after, rfl, hinner, hend, hafter⟩ :=
    @Lowercase.exists_tag lower "/title".toList _ _ _ (splitOnce_eq hstop)
  exact ⟨⟨before, startTag, inner, endTag, after, hpage, by rw [hstart, hbefore, hrest], hname,
    by rw [hstop, hinner, hafter], hend⟩⟩

theorem titleSlice_eq (e : TitleElement lower rawBody) :
    titleSlice lower rawBody =
      (dropBytes (byteLength (lower.text e.before) + 7) rawBody).bind fun rest =>
        (takeBytes (byteLength (lower.text e.inner)) rest).map some := by
  have hstart : find TITLE_START (lower.text rawBody) =
      some (byteLength (lower.text e.before)) := by
    rw [find, e.start]
    rfl
  have hstop : find TITLE_END (lower.text (e.inner ++ e.endTag ++ e.after)) =
      some (byteLength (lower.text e.inner)) := by
    rw [find, e.stop]
    rfl
  have htail : dropBytes (byteLength (lower.text e.before) + 7) (lower.text rawBody) =
      some (lower.text (e.inner ++ e.endTag ++ e.after)) := by
    have hseven : byteLength TITLE_START = 7 := by decide
    rw [splitOnce_eq e.start, append_assoc, dropBytes_add, ← hseven, dropBytes_prefix]
  simp only [titleSlice, hstart, htail, hstop, bind, Option.bind_some]
  cases dropBytes (byteLength (lower.text e.before) + 7) rawBody with
  | none => rfl
  | some rest =>
    simp only [Option.bind_some]
    cases takeBytes (byteLength (lower.text e.inner)) rest <;> rfl

theorem TitleElement.Kept.coincides {e : TitleElement lower rawBody} (h : e.Kept) :
    e.Coincides := by
  obtain ⟨hbefore, hinner⟩ := h
  refine ⟨e.inner ++ e.endTag ++ e.after, e.inner, ?_, ?_, .inr rfl⟩
  · have hdrop := dropBytes_prefix (e.before ++ e.startTag) (e.inner ++ e.endTag ++ e.after)
    rwa [← e.page, ← hbefore] at hdrop
  · rw [hinner, append_assoc, takeBytes_prefix]

theorem titleSlice_of_empty (h : ¬Nonempty (TitleElement lower rawBody)) :
    titleSlice lower rawBody = some none := by
  cases hstart : find TITLE_START (lower.text rawBody) with
  | none => simp only [titleSlice, hstart]
  | some start =>
    obtain ⟨x, y, hsplit, -, -, -, -, htail⟩ := find_spec hstart
    rw [show byteLength TITLE_START = 7 by decide] at htail
    cases hstop : find TITLE_END y with
    | none => simp only [titleSlice, hstart, htail, hstop, bind, Option.bind_some]
    | some stop =>
      obtain ⟨x', y', hend, -⟩ := find_spec hstop
      exact absurd (exists_titleElement hsplit hend) h

theorem titleRight_iff (hhtml : containsText "html".toList contentType = true) :
    TitleRight lower rawBody contentType ↔
      ∀ e : TitleElement lower rawBody, e.Kept ∨ e.Coincides := by
  have htitle : elementTitle lower rawBody contentType =
      (titleSlice lower rawBody).map fun slice => (slice.map titleText).filter (· ≠ []) :=
    if_pos hhtml
  unfold TitleRight
  rw [htitle]
  constructor
  · rintro ⟨hsafe, hright⟩ e
    right
    rw [titleSlice_eq e] at hsafe hright
    cases hrest : dropBytes (byteLength (lower.text e.before) + 7) rawBody with
    | none => simp [hrest] at hsafe
    | some rest =>
      cases hslice : takeBytes (byteLength (lower.text e.inner)) rest with
      | none => simp [hrest, hslice] at hsafe
      | some slice =>
        refine ⟨rest, slice, hrest, hslice, ?_⟩
        by_cases hempty : titleText slice = []
        · exact .inl hempty
        · exact .inr ((hright _ (by simp [hrest, hslice, hempty])).2 e)
  · intro h
    by_cases helement : Nonempty (TitleElement lower rawBody)
    · have hcoincides (e : TitleElement lower rawBody) : e.Coincides :=
        (h e).elim TitleElement.Kept.coincides id
      have hslices (e : TitleElement lower rawBody) : ∃ slice,
          titleSlice lower rawBody = some (some slice) ∧
            (titleText slice = [] ∨ titleText slice = titleText e.inner) := by
        obtain ⟨rest, slice, hrest, hslice, heq⟩ := hcoincides e
        exact ⟨slice, by rw [titleSlice_eq e, hrest, Option.bind_some, hslice]; rfl, heq⟩
      constructor
      · obtain ⟨slice, hslice, -⟩ := hslices helement.some
        rw [hslice]
        exact nofun
      · intro title htaken
        refine ⟨helement, fun e => ?_⟩
        obtain ⟨slice, hslice, hempty | heq⟩ := hslices e
        · simp [hslice, hempty] at htaken
        · rw [hslice] at htaken
          obtain ⟨htext, -⟩ := Option.filter_eq_some_iff.mp (Option.some.inj htaken)
          rw [← Option.some.inj htext, heq]
    · rw [titleSlice_of_empty helement]
      exact ⟨nofun, nofun⟩

end Titles

/-- A capital whose lower case is a letter and a mark above it. -/
def dottedLowercase : Lowercase where
  text cs := cs.flatMap fun c => if c = 'İ' then ['i', Char.ofNat 0x307] else [c]
  nil := rfl
  cut mark hmark front back := by
    rw [flatMap_append, flatMap_cons]
    simp only [mem_cons, not_mem_nil, or_false] at hmark
    rcases hmark with rfl | rfl <;> rfl
  mark_of_mem mark hmark cs h := by
    obtain ⟨c, hc, hlowered⟩ := mem_flatMap.mp h
    split at hlowered
    · simp only [mem_cons, not_mem_nil, or_false] at hmark hlowered
      rcases hmark with rfl | rfl <;> rcases hlowered with h | h <;> exact absurd h (by decide)
    · rwa [mem_singleton.mp hlowered]

end DbClinic.Tools
