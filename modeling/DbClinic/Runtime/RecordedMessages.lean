import DbClinic.Runtime.Snapshot
import DbClinic.Runtime.SessionSave

/-!
The messages recorded in a session file, line by line: a line that is not well
formed records none, and the others count whether or not the file as a whole
can be loaded. A file that loads records the messages of its session.
-/

namespace DbClinic.Runtime

open List

def lineMessages (line : List TextUnit) : List ConversationMessage :=
  match line.mapM TextUnit.asChar with
  | none => []
  | some text =>
    match Session.decodeRecord 1 (trim text) .start with
    | .ok d => d.messages
    | .error _ => []

def recordedMessages (content : List TextUnit) : List ConversationMessage :=
  (splitLines (· = .char '\n') content).flatMap lineMessages

def messagesAt (t : SessionTree) (path : Path) : List ConversationMessage :=
  match t.fileAt path with
  | some file => recordedMessages file.content
  | none => []

/-- The messages can be read, in their order, from the session file or from a
rotated copy of it. -/
def StillReadable (t : SessionTree) (path : Path) (messages : List ConversationMessage) : Prop :=
  messages.Sublist (messagesAt t path) ∨
    ∃ name, isRotatedName (Path.stem (fileName path)) name = true ∧
      messages.Sublist (messagesAt t (withFileName path name))

variable {path : Path} {t : SessionTree}

theorem messagesAt_congr {t' : SessionTree} (h : t'.get path = t.get path) :
    messagesAt t' path = messagesAt t path := by
  unfold messagesAt FileTree.fileAt
  rw [h]

theorem messagesAt_of_file {file : SessionFile} (h : t.get path = some (.file file)) :
    messagesAt t path = recordedMessages file.content := by
  unfold messagesAt FileTree.fileAt
  rw [h]

theorem messagesAt_of_absent (h : t.get path = none) :
    messagesAt t path = [] := by
  unfold messagesAt FileTree.fileAt
  rw [h]

theorem messagesAt_treeWithFile {q : Path} {text : String} (h : q ≠ path) :
    messagesAt (treeWithFile path text) q = [] := by
  have hempty : ∀ file, (FileTree.empty : SessionTree).get q ≠ some (.file file) := by
    intro file
    cases q with
    | nil => simp
    | cons name rest => simp
  have hnofile : ∀ file, (treeWithFile path text).get q ≠ some (.file file) := by
    intro file
    unfold treeWithFile
    split
    · exact hempty file
    · rename_i made hmade
      have hdirs := FileTree.get_of_createDirAll hmade q
      split
      · exact hempty file
      · rename_i written hwritten
        rw [FileTree.get_of_writeFile hwritten, if_neg h, hdirs]
        split
        · simp
        · exact hempty file
  unfold messagesAt
  cases hfile : (treeWithFile path text).fileAt q with
  | none => rfl
  | some file => exact absurd (get_of_fileAt hfile) (hnofile file)

theorem splitLines_char (text : List Char) :
    splitLines (· = .char '\n') (text.map TextUnit.char) =
      (lines text).map (List.map TextUnit.char) := by
  have hsplit : (text.map TextUnit.char).splitOnP (· = .char '\n') =
      (text.splitOnP (· = '\n')).map (List.map TextUnit.char) := by
    induction text with
    | nil => rfl
    | cons c rest ih =>
      rw [map_cons, splitOnP_cons_eq_if_modifyHead,
        splitOnP_cons_eq_if_modifyHead, ih]
      by_cases hc : c = '\n'
      · simp [hc]
      · cases rest.splitOnP (· = '\n') <;> simp [hc]
  unfold lines splitLines
  rw [hsplit]
  dsimp only
  rw [getLast?_map]
  cases (text.splitOnP (· = '\n')).getLast? with
  | none => rfl
  | some last =>
    cases last with
    | nil => exact map_dropLast.symm
    | cons c rest => rfl

namespace Session

theorem exists_ok_of_bind {ε α β : Type} {m : Except ε α} {f g : α → Except ε β} {b : β}
    {property : β → Prop} (h : (m >>= f) = .ok b)
    (hnext : ∀ a, f a = .ok b → ∃ c, g a = .ok c ∧ property c) :
    ∃ c, (m >>= g) = .ok c ∧ property c := by
  cases m with
  | error e => cases h
  | ok a => exact hnext a h

variable {number : Nat} {d d' : Decoded}

theorem decodeRecord_messages {line : List Char} (h : decodeRecord number line d = .ok d') :
    ∃ alone, decodeRecord 1 line .start = .ok alone ∧
      d'.messages = d.messages ++ alone.messages := by
  unfold decodeRecord at h ⊢
  cases hval : JsonValue.parse line with
  | error e =>
    rw [hval] at h
    cases h
  | ok value =>
    rw [hval] at h
    dsimp only at h ⊢
    cases hobject : value.asObject with
    | none =>
      rw [hobject] at h
      cases h
    | some object =>
      rw [hobject] at h
      dsimp only at h ⊢
      cases hkind : optionalString object "type" with
      | none =>
        rw [hkind] at h
        cases h
      | some kind =>
        rw [hkind] at h
        dsimp only at h ⊢
        split_ifs at h ⊢ with hmeta hmsg hcompaction hprompt
        · refine exists_ok_of_bind h fun version h => ?_
          refine exists_ok_of_bind h fun sessionId h => ?_
          refine exists_ok_of_bind h fun createdAtMs h => ?_
          refine exists_ok_of_bind h fun updatedAtMs h => ?_
          refine exists_ok_of_bind h fun fork h => ?_
          cases h
          exact ⟨_, rfl, (append_nil _).symm⟩
        · cases hentry : getEntry object "message" with
          | none =>
            rw [hentry] at h
            cases h
          | some value =>
            rw [hentry] at h
            refine exists_ok_of_bind h fun message h => ?_
            cases h
            exact ⟨_, rfl, rfl⟩
        · refine exists_ok_of_bind h fun compaction h => ?_
          cases h
          exact ⟨_, rfl, (append_nil _).symm⟩
        · cases hentry : SessionPromptEntry.fromJsonOpt (.object object) with
          | none =>
            rw [hentry] at h
            cases h
            exact ⟨_, rfl, (append_nil _).symm⟩
          | some entry =>
            rw [hentry] at h
            cases h
            exact ⟨_, rfl, (append_nil _).symm⟩

theorem decodeLines_messages {texts : List (List Char)} (h : decodeLines number texts d = .ok d') :
    d'.messages = d.messages ++ (texts.map (List.map TextUnit.char)).flatMap lineMessages := by
  induction texts generalizing number d with
  | nil =>
    cases h
    exact (append_nil _).symm
  | cons text rest ih =>
    rw [decodeLines] at h
    have hline : lineMessages (text.map .char) =
        match decodeRecord 1 (trim text) .start with
        | .ok alone => alone.messages
        | .error _ => [] := by
      unfold lineMessages
      rw [mapM_asChar]
    rw [map_cons, flatMap_cons, hline]
    by_cases hempty : trim text = []
    · rw [if_pos hempty] at h
      rw [ih h, hempty]
      rfl
    · rw [if_neg hempty] at h
      cases hrecord : decodeRecord number (trim text) d with
      | error e =>
        rw [hrecord] at h
        cases h
      | ok next =>
        rw [hrecord] at h
        obtain ⟨alone, halone, hmsgs⟩ := decodeRecord_messages hrecord
        rw [ih h, halone, hmsgs, append_assoc]

theorem recordedMessages_of_fromJsonl {text : List Char} {now : Nat} {stamp : Stamp}
    {session : Session} (h : fromJsonl text now stamp = .ok session) :
    recordedMessages (text.map .char) = session.messages := by
  unfold fromJsonl at h
  cases hlines : decodeLines 1 (lines text) .start with
  | error e =>
    rw [hlines] at h
    cases h
  | ok d =>
    rw [hlines] at h
    cases h
    unfold recordedMessages
    rw [splitLines_char]
    exact (decodeLines_messages hlines).symm

end Session

end DbClinic.Runtime
