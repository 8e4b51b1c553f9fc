import Mathlib.Data.List.Basic

/-!
The loop of the gateway that reads the frames of a chat and puts inputs on the
stream to the kernel. A message that matches skills waits in one slot for the
selection of the user. The values are those that Python makes of JSON; an
operation that raises an exception has no value, and ends the loop.
-/

namespace DbClinic.Gateway

/-- A value that was parsed. The keys of a dictionary are distinct. -/
inductive PyValue where
  | none
  | bool (value : Bool)
  | int (value : Int)
  | float (repr : String)
  | str (text : String)
  | list (items : List PyValue)
  | dict (entries : List (String × PyValue))

namespace PyValue

/-- `bool(value)`. -/
def truthy : PyValue → Bool
  | none => false
  | bool value => value
  | int value => decide (value ≠ 0)
  | float repr => decide (repr ≠ "0.0" ∧ repr ≠ "-0.0")
  | str text => decide (text ≠ "")
  | list items => !items.isEmpty
  | dict entries => !entries.isEmpty

/-- `value or other`. -/
def orElse (value other : PyValue) : PyValue := if value.truthy then value else other

/-- `len(value)`. -/
def len : PyValue → Option Nat
  | str text => some text.length
  | list items => some items.length
  | dict entries => some entries.length
  | _ => .none

/-- What `for item in value` goes through. -/
def iter : PyValue → Option (List PyValue)
  | str text => some (text.toList.map fun c => str (String.singleton c))
  | list items => some items
  | dict entries => some (entries.map fun entry => str entry.1)
  | _ => .none

/-- A list or a dictionary cannot be a key. -/
def hashable : PyValue → Bool
  | list _ | dict _ => false
  | _ => true

/-- `str(value)`; what is not a string is written by a function that is given. -/
def text (pyRepr : PyValue → String) : PyValue → String
  | str text => text
  | value => pyRepr value

end PyValue

def lookup {α : Type} (entries : List (String × α)) (key : String) : Option α :=
  (entries.find? fun entry => entry.1 = key).map Prod.snd

/-- `entries.get(key, default)`. -/
def getOr (entries : List (String × PyValue)) (key : String) (default : PyValue) : PyValue :=
  (lookup entries key).getD default

structure ContextAttachment where
  source : String
  content : String
  metaData : List (String × String)
  deriving DecidableEq

structure UserMessage where
  content : String
  context : List ContextAttachment
  deriving DecidableEq

structure ProxyToolResult where
  instructionId : String
  toolUseId : String
  output : String
  isError : Bool
  deriving DecidableEq

inductive ChatPayload where
  | userMessage (message : UserMessage)
  | proxyResult (result : ProxyToolResult)
  | cancel (reason : String)
  deriving DecidableEq

structure ChatInput where
  sessionId : String
  payload : ChatPayload
  deriving DecidableEq

/-- What the loop itself sends back. -/
inductive ChatReply where
  | skillMatch (skills : PyValue)
  | error (message : String)

/-- The result of `_build_skill_context`. -/
structure SkillMatch where
  skills : PyValue
  dbSkillsMap : List (String × List (String × PyValue))

/-- A frame, what the matching makes of it, if it returns at all, and whether a
reply can be sent. -/
structure Received where
  data : PyValue
  matching : Option (Option SkillMatch)
  sends : Bool

structure PendingUserMessage where
  content : String
  dbSkillsMap : List (String × List (String × PyValue))

structure ChatState where
  pending : Option PendingUserMessage
  inputs : List ChatInput
  replies : List ChatReply

structure SkillFiles where
  caseContext : String → Option String
  knowledgeContext : String → Option String

section Frames

variable (pyRepr : PyValue → String)

/-- A string field of a message; `None` leaves it unset. -/
def protoString : PyValue → Option String
  | .str text => some text
  | .none => some ""
  | _ => none

/-- `{str(k): str(v) for k, v in raw_meta.items() if v is not None}`. -/
def protoMetadata : PyValue → List (String × String)
  | .dict entries => entries.filterMap fun entry =>
    match entry.2 with
    | .none => none
    | value => some (entry.1, value.text pyRepr)
  | _ => []

def protoAttachment : PyValue → Option ContextAttachment
  | .dict entries =>
    some ⟨(getOr entries "source" (.str "")).text pyRepr,
      (getOr entries "content" (.str "")).text pyRepr,
      protoMetadata pyRepr ((getOr entries "metadata" .none).orElse (.dict []))⟩
  | _ => none

def skillLines (files : SkillFiles) (dbSkillsMap : List (String × List (String × PyValue)))
    (sid : PyValue) : Option (List String) :=
  match sid with
  | .str id =>
    match files.caseContext id, files.knowledgeContext id, lookup dbSkillsMap id with
    | some context, _, _ => some [context, ""]
    | none, some context, _ => some [context, ""]
    | none, none, some skill =>
      let heading :=
        ["## Skill: " ++ (getOr skill "name" sid).text pyRepr,
          "Category: " ++ (getOr skill "category" (.str "general")).text pyRepr,
          "Description: " ++ (getOr skill "description" (.str "")).text pyRepr, ""]
      match (getOr skill "content" .none).truthy, getOr skill "content" .none with
      | false, _ => some (heading ++ [""])
      | true, .str content => some (heading ++ [content, ""])
      -- The lines cannot be joined.
      | true, _ => none
    | none, none, none => some []
  | sid => if sid.hashable then some [] else none

/-- `build_context` with selected ids. -/
def buildContext (files : SkillFiles) (selectedIds : PyValue)
    (dbSkillsMap : List (String × List (String × PyValue))) : Option String :=
  if selectedIds.truthy then do
    let sids ← selectedIds.iter
    let lines ← sids.mapM (skillLines pyRepr files dbSkillsMap)
    some ("\n".intercalate
      (["[Matched Diagnostic Skills]", ""] ++ lines.flatten ++ ["[End of Matched Skills]"]))
  else some ""

inductive FrameKind where
  | userMessage
  | skillSelection
  | cancel
  | proxyResult
  | unknown
  deriving DecidableEq

def kindOfType : PyValue → FrameKind
  | .str text =>
    if text = "user_message" then .userMessage
    else if text = "skill_selection" then .skillSelection
    else if text = "cancel" then .cancel
    else if text = "proxy_result" then .proxyResult
    else .unknown
  | _ => .unknown

def fields : PyValue → List (String × PyValue)
  | .dict entries => entries
  | _ => []

def frameType (data : PyValue) : PyValue := getOr (fields data) "type" (.str "")

def frameKind : PyValue → Option FrameKind
  | .dict entries => some (kindOfType (frameType (.dict entries)))
  | _ => none

def contentOf (data : PyValue) : PyValue := getOr (fields data) "content" (.str "")

def contextOf (data : PyValue) : PyValue := (getOr (fields data) "context" .none).orElse (.list [])

def skillIdsOf (data : PyValue) : PyValue := getOr (fields data) "skill_ids" (.list [])

/-- The attachments of a frame, as they are put on the stream. -/
def protoAttachments (data : PyValue) : Option (List ContextAttachment) :=
  (contextOf data).iter.bind fun items => items.mapM (protoAttachment pyRepr)

def selectionMarker : PyValue :=
  .dict [("source", .str "skill_selection"), ("content", .str "")]

variable (files : SkillFiles) (sessionId : String)

def ChatState.put (s : ChatState) (payload : ChatPayload) : ChatState :=
  { s with inputs := s.inputs ++ [⟨sessionId, payload⟩] }

/-- `ws.send_json`. -/
def ChatState.reply (s : ChatState) (sends : Bool) (reply : ChatReply) : Option ChatState :=
  if sends then some { s with replies := s.replies ++ [reply] } else none

def onUserMessage (s : ChatState) (f : Received) : Option ChatState := do
  let _ ← (contentOf f.data).len
  let _ ← (contextOf f.data).len
  match ← f.matching with
  | some skillMatch =>
    match contentOf f.data with
    | .str content => do
      let replied ← s.reply f.sends (.skillMatch skillMatch.skills)
      some { replied with pending := some ⟨content, skillMatch.dbSkillsMap⟩ }
    -- The message cannot be normalised.
    | _ => none
  | none => do
    let attachments ← protoAttachments pyRepr f.data
    let content ← protoString (contentOf f.data)
    some (s.put sessionId (.userMessage ⟨content, attachments⟩))

def onSkillSelection (s : ChatState) (f : Received) : Option ChatState :=
  match s.pending with
  | none => s.reply f.sends (.error "unexpected skill_selection, no pending message")
  | some pending => do
    let context ← buildContext pyRepr files (skillIdsOf f.data) pending.dbSkillsMap
    let content :=
      if context ≠ "" then context ++ "\n\n---\n\n" ++ pending.content else pending.content
    let attachments ← [selectionMarker].mapM (protoAttachment pyRepr)
    let _ ← (skillIdsOf f.data).len
    some { s.put sessionId (.userMessage ⟨content, attachments⟩) with pending := none }

def onCancel (s : ChatState) : Option ChatState :=
  some { s.put sessionId (.cancel "user cancelled") with pending := none }

def onProxyResult (s : ChatState) (f : Received) : Option ChatState := do
  let entries := fields f.data
  let _ ← (getOr entries "output" (.str "")).len
  let instructionId ← protoString (getOr entries "instruction_id" (.str ""))
  let toolUseId ← protoString (getOr entries "tool_use_id" (.str ""))
  let output ← protoString (getOr entries "output" (.str ""))
  some (s.put sessionId (.proxyResult
    ⟨instructionId, toolUseId, output, (getOr entries "is_error" (.bool false)).truthy⟩))

/-- One round of the loop. -/
def onFrame (s : ChatState) (f : Received) : Option ChatState :=
  match frameKind f.data with
  | none => none
  | some .userMessage => onUserMessage pyRepr sessionId s f
  | some .skillSelection => onSkillSelection pyRepr files sessionId s f
  | some .cancel => onCancel sessionId s
  | some .proxyResult => onProxyResult sessionId s f
  | some .unknown =>
    s.reply f.sends (.error ("unknown message type: " ++ (frameType f.data).text pyRepr))

/-- The state after the frames that come in, up to one that ends the loop. -/
def wsChat (s : ChatState) : List Received → ChatState
  | [] => s
  | f :: frames =>
    match onFrame pyRepr files sessionId s f with
    | some next => wsChat next frames
    | none => s

def readFrames (s : ChatState) : List Received → List Received
  | [] => []
  | f :: frames =>
    match onFrame pyRepr files sessionId s f with
    | some next => f :: readFrames next frames
    | none => [f]

end Frames

def ChatState.start : ChatState := ⟨none, [], []⟩

end DbClinic.Gateway
