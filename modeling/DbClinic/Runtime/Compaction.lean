import DbClinic.Runtime.Text

/-!
Compaction of a session: the messages before a cut are replaced by one system
message that summarises them. The texts of the summary are lists of characters,
a session's own texts are strings. An index out of range, which the source does
not survive, is `none`.
-/

namespace DbClinic.Runtime

def COMPACT_CONTINUATION_PREAMBLE : String :=
  "This session is being continued from a previous conversation that ran out of context. " ++
    "The summary below covers the earlier portion of the conversation.\n\n"

def COMPACT_RECENT_MESSAGES_NOTE : String := "Recent messages are preserved verbatim."

def COMPACT_DIRECT_RESUME_INSTRUCTION : String :=
  "Continue the conversation from where it left off without asking the user any further " ++
    "questions. Resume directly — do not acknowledge the summary, do not recap what was " ++
    "happening, and do not preface with continuation text."

structure CompactionConfig where
  preserveRecentMessages : Nat
  maxEstimatedTokens : Nat
  deriving DecidableEq

/-- `CompactionConfig::default`. -/
def CompactionConfig.standard : CompactionConfig := ⟨4, 10000⟩

structure CompactionResult where
  summary : String
  formattedSummary : String
  compactedSession : Session
  removedMessageCount : Nat
  deriving DecidableEq

namespace ContentBlock

def isToolUse : ContentBlock → Bool
  | toolUse .. => true
  | _ => false

def isToolResult : ContentBlock → Bool
  | toolResult .. => true
  | _ => false

def estimateTokens : ContentBlock → Nat
  | text t => t.utf8ByteSize / 4 + 1
  | toolUse _ name input => (name.utf8ByteSize + input.utf8ByteSize) / 4 + 1
  | toolResult _ toolName output _ => (toolName.utf8ByteSize + output.utf8ByteSize) / 4 + 1
  | thinking t signature =>
    t.utf8ByteSize / 4 + (signature.map fun value => value.utf8ByteSize / 4 + 1).getD 0

end ContentBlock

def estimateMessageTokens (message : ConversationMessage) : Nat :=
  (message.blocks.map ContentBlock.estimateTokens).sum

def firstTextBlock (message : ConversationMessage) : Option String :=
  message.blocks.findSome? fun block =>
    match block with
    | .text t => if trim t.toList ≠ [] then some t else none
    | _ => none

def truncateSummary (content : String) (maxChars : Nat) : String :=
  if content.toList.length ≤ maxChars then content
  else String.ofList (content.toList.take maxChars ++ ['…'])

def summarizeBlock (block : ContentBlock) : String :=
  let raw := match block with
    | .text t => t
    | .thinking t _ => "thinking (" ++ toString t.toList.length ++ " chars)"
    | .toolUse _ name input => "tool_use " ++ name ++ "(" ++ input ++ ")"
    | .toolResult _ toolName output isError =>
      "tool_result " ++ toolName ++ ": " ++ (if isError then "error " else "") ++ output
  truncateSummary raw 160

def collectRecentRoleSummaries (messages : List ConversationMessage) (role : MessageRole)
    (limit : Nat) : List String :=
  ((((messages.filter fun m => m.role = role).reverse.filterMap firstTextBlock).take limit).map
    (truncateSummary · 160)).reverse

def mentionsPendingWork (text : String) : Bool :=
  let lowered := text.toList.map Char.toLower
  ["todo", "next", "pending", "follow up", "remaining"].any fun word =>
    containsText word.toList lowered

def inferPendingWork (messages : List ConversationMessage) : List String :=
  ((((messages.reverse.filterMap firstTextBlock).filter mentionsPendingWork).take 3).map
    (truncateSummary · 160)).reverse

/-- The extension of the file a path names; `..` names none. -/
def hasInterestingExtension (candidate : String) : Bool :=
  match (Path.components candidate).getLast? with
  | none => false
  | some name =>
    if name = ".." then false
    else
      (Path.extension name).any fun extension =>
        ["rs", "ts", "tsx", "js", "json", "md"].any fun expected =>
          extension.toList.map Char.toLower = expected.toList.map Char.toLower

/-- The punctuation around a file name; the last character is a backtick. -/
def isPunctuation (c : Char) : Bool :=
  [',', '.', ':', ';', ')', '(', '"', '\'', Char.ofNat 0x60].contains c

def extractFileCandidates (content : String) : List String :=
  (splitWhitespace content.toList).filterMap fun token =>
    let candidate := String.ofList (trimMatches isPunctuation token)
    if '/' ∈ candidate.toList ∧ hasInterestingExtension candidate = true then some candidate
    else none

/-- `sort` followed by `dedup`. -/
def sortedDistinct (texts : List String) : List String :=
  (texts.insertionSort fun a b => a ≤ b).destutter (· ≠ ·)

def blockContent : ContentBlock → String
  | .text t => t
  | .toolUse _ _ input => input
  | .toolResult _ _ output _ => output
  | .thinking t _ => t

def collectKeyFiles (messages : List ConversationMessage) : List String :=
  (sortedDistinct ((messages.flatMap ConversationMessage.blocks).flatMap fun block =>
    extractFileCandidates (blockContent block))).take 8

def inferCurrentWork (messages : List ConversationMessage) : Option String :=
  ((messages.reverse.filterMap firstTextBlock).find? fun text => trim text.toList ≠ []).map
    (truncateSummary · 200)

def roleName : MessageRole → String
  | .system => "system"
  | .user => "user"
  | .assistant => "assistant"
  | .tool => "tool"

/-- The names of the tools used or answered, in the order of the blocks. -/
def mentionedTools (messages : List ConversationMessage) : List String :=
  (messages.flatMap ConversationMessage.blocks).filterMap fun block =>
    match block with
    | .toolUse _ name _ => some name
    | .toolResult _ toolName _ _ => some toolName
    | _ => none

def headedItems (heading : String) (items : List String) : List String :=
  if items = [] then [] else heading :: items.map ("  - " ++ ·)

def timelineEntry (message : ConversationMessage) : String :=
  "  - " ++ roleName message.role ++ ": " ++ joinText " | " (message.blocks.map summarizeBlock)

def summarizeMessages (messages : List ConversationMessage) : String :=
  let countOf (role : MessageRole) := toString (messages.countP fun m => m.role = role)
  let toolNames := sortedDistinct (mentionedTools messages)
  let keyFiles := collectKeyFiles messages
  joinText "\n" (
    ["<summary>", "Conversation summary:",
      "- Scope: " ++ toString messages.length ++ " earlier messages compacted (user=" ++
        countOf .user ++ ", assistant=" ++ countOf .assistant ++ ", tool=" ++ countOf .tool ++
        ")."] ++
    (if toolNames = [] then []
      else ["- Tools mentioned: " ++ joinText ", " toolNames ++ "."]) ++
    headedItems "- Recent user requests:" (collectRecentRoleSummaries messages .user 3) ++
    headedItems "- Pending work:" (inferPendingWork messages) ++
    (if keyFiles = [] then []
      else ["- Key files referenced: " ++ joinText ", " keyFiles ++ "."]) ++
    (match inferCurrentWork messages with
      | some currentWork => ["- Current work: " ++ currentWork]
      | none => []) ++
    "- Key timeline:" :: messages.map timelineEntry ++ ["</summary>"])

def openTag (tag : String) : List Char := ("<" ++ tag ++ ">").toList

def closeTag (tag : String) : List Char := ("</" ++ tag ++ ">").toList

def extractTagBlock (content : List Char) (tag : String) : Option (List Char) := do
  let (_, afterStart) ← splitOnce (openTag tag) content
  let (block, _) ← splitOnce (closeTag tag) afterStart
  return block

/-- Both tags are searched from the start of the text. -/
def stripTagBlock (content : List Char) (tag : String) : List Char :=
  match splitOnce (openTag tag) content, splitOnce (closeTag tag) content with
  | some (before, _), some (_, after) => before ++ after
  | _, _ => content

/-- The loop of `collapse_blank_lines`. -/
def collapseFrom : (lastBlank : Bool) → List (List Char) → List Char
  | _, [] => []
  | lastBlank, line :: rest =>
    let isBlank : Bool := trim line = []
    if isBlank && lastBlank then collapseFrom lastBlank rest
    else line ++ '\n' :: collapseFrom isBlank rest

def collapseBlankLines (content : List Char) : List Char := collapseFrom false (textLines content)

def formatCompactSummary (summary : String) : String :=
  let withoutAnalysis := stripTagBlock summary.toList "analysis"
  let formatted :=
    match extractTagBlock withoutAnalysis "summary" with
    | some content =>
      replaceText (openTag "summary" ++ content ++ closeTag "summary")
        ("Summary:\n".toList ++ trim content) withoutAnalysis
    | none => withoutAnalysis
  String.ofList (trim (collapseBlankLines formatted))

def getCompactContinuationMessage (summary : String) (suppressFollowUpQuestions : Bool)
    (recentMessagesPreserved : Bool) : String :=
  COMPACT_CONTINUATION_PREAMBLE ++ formatCompactSummary summary ++
    (if recentMessagesPreserved then "\n\n" ++ COMPACT_RECENT_MESSAGES_NOTE else "") ++
    (if suppressFollowUpQuestions then "\n" ++ COMPACT_DIRECT_RESUME_INSTRUCTION else "")

/-- What is before the first occurrence of a text, or everything. -/
def beforeFirst (pattern : String) (cs : List Char) : List Char :=
  match splitOnce pattern.toList cs with
  | some (before, _) => before
  | none => cs

def extractExistingCompactedSummary (message : ConversationMessage) : Option String :=
  if message.role ≠ .system then none
  else
    match firstTextBlock message with
    | none => none
    | some text =>
      (stripPrefix COMPACT_CONTINUATION_PREAMBLE.toList text.toList).map fun summary =>
        String.ofList (trim (beforeFirst ("\n" ++ COMPACT_DIRECT_RESUME_INSTRUCTION)
          (beforeFirst ("\n\n" ++ COMPACT_RECENT_MESSAGES_NOTE) summary)))

/-- The loop of `extract_summary_highlights`. -/
def highlightsFrom : (inTimeline : Bool) → List (List Char) → List String
  | _, [] => []
  | inTimeline, line :: rest =>
    let trimmed := trimEnd line
    if trimmed = [] ∨ trimmed = "Summary:".toList ∨ trimmed = "Conversation summary:".toList then
      highlightsFrom inTimeline rest
    else if trimmed = "- Key timeline:".toList then highlightsFrom true rest
    else if inTimeline then highlightsFrom inTimeline rest
    else String.ofList trimmed :: highlightsFrom inTimeline rest

def extractSummaryHighlights (summary : String) : List String :=
  highlightsFrom false (textLines (formatCompactSummary summary).toList)

/-- The loop of `extract_summary_timeline`. -/
def timelineFrom : (inTimeline : Bool) → List (List Char) → List String
  | _, [] => []
  | inTimeline, line :: rest =>
    let trimmed := trimEnd line
    if trimmed = "- Key timeline:".toList then timelineFrom true rest
    else if inTimeline = false then timelineFrom inTimeline rest
    else if trimmed = [] then []
    else String.ofList trimmed :: timelineFrom inTimeline rest

def extractSummaryTimeline (summary : String) : List String :=
  timelineFrom false (textLines (formatCompactSummary summary).toList)

def headedLines (heading : String) (items : List String) : List String :=
  if items = [] then [] else heading :: items.map ("  " ++ ·)

def mergeCompactSummaries (existingSummary : Option String) (newSummary : String) : String :=
  match existingSummary with
  | none => newSummary
  | some existing =>
    let newFormattedSummary := formatCompactSummary newSummary
    joinText "\n" (
      ["<summary>", "Conversation summary:"] ++
      headedLines "- Previously compacted context:" (extractSummaryHighlights existing) ++
      headedLines "- Newly compacted context:" (extractSummaryHighlights newFormattedSummary) ++
      headedLines "- Key timeline:" (extractSummaryTimeline newFormattedSummary) ++
      ["</summary>"])

/-- The summary the session starts with, if it was compacted before. -/
def existingSummary (messages : List ConversationMessage) : Option String :=
  messages.head?.bind extractExistingCompactedSummary

def compactedSummaryPrefixLen (messages : List ConversationMessage) : Nat :=
  if (existingSummary messages).isSome then 1 else 0

def shouldCompact (session : Session) (config : CompactionConfig) : Bool :=
  let compactable := session.messages.drop (compactedSummaryPrefixLen session.messages)
  config.preserveRecentMessages < compactable.length &&
    config.maxEstimatedTokens ≤ (compactable.map estimateMessageTokens).sum

def startsWithToolResult (message : ConversationMessage) : Bool :=
  message.blocks.head?.any ContentBlock.isToolResult

def hasToolUse (message : ConversationMessage) : Bool := message.blocks.any ContentBlock.isToolUse

def walkBack (messages : List ConversationMessage) (prefixLen : Nat) : (k : Nat) → Option Nat
  | 0 => some 0
  | k + 1 =>
    if k + 1 ≤ prefixLen then some (k + 1)
    else
      match messages[k + 1]?, messages[k]? with
      | some firstPreserved, some preceding =>
        if startsWithToolResult firstPreserved = false then some (k + 1)
        else if hasToolUse preceding then some k
        else walkBack messages prefixLen k
      | _, _ => none

def Session.recordCompaction (session : Session) (summary : String) (removed now : Nat) :
    Session :=
  { session.touch now with
    compaction := some
      ⟨(session.compaction.map fun value => (value.count + 1) % 2 ^ 32).getD 1, removed, summary⟩ }

def compactSession (session : Session) (config : CompactionConfig) (now : Nat) :
    Option CompactionResult :=
  if shouldCompact session config = false then some ⟨"", "", session, 0⟩
  else
    let messages := session.messages
    let prefixLen := compactedSummaryPrefixLen messages
    match walkBack messages prefixLen (messages.length - config.preserveRecentMessages) with
    | none => none
    | some keepFrom =>
      let removed := (messages.take keepFrom).drop prefixLen
      let preserved := messages.drop keepFrom
      let summary := mergeCompactSummaries (existingSummary messages) (summarizeMessages removed)
      let continuation := getCompactContinuationMessage summary true (preserved ≠ [])
      let compacted := { session with
        messages := ⟨.system, [.text continuation], none⟩ :: preserved }
      some ⟨summary, formatCompactSummary summary,
        compacted.recordCompaction summary removed.length now, removed.length⟩

end DbClinic.Runtime
