import DbClinic.Mcp.Framing
import DbClinic.Runtime.Trim

/-!
Nothing is lost between a writer of frames and the reader on the other side. A
header line is read as it was written, since no byte of its characters is a line
break; the payload is then counted and not looked at.
-/

namespace DbClinic.Mcp
open List
open DbClinic.Runtime (isWhitespace isWhitespace_of_isDigit trimMatches)
open DbClinic.Runtime (splitOnce splitOnce_singleton)
open DbClinic.Serde (Value)

variable {c : Char} {stream rest payload : List UInt8} {ends : List Char → Bool}
variable {line : List Char} {known : Option Nat}

theorem utf8EncodeChar_ascii (h : c.toNat < 0x80) :
    String.utf8EncodeChar c = [UInt8.ofNat c.toNat] := by
  have hle : c.val.toNat ≤ 0x7F := Nat.le_of_lt_succ h
  unfold String.utf8EncodeChar
  simp only
  rw [if_pos hle]
  rfl

theorem ascii_notMem_utf8EncodeChar {b : UInt8} (hb : b.toNat < 0x80) (hc : c.val.toNat ≠ b.toNat) :
    b ∉ String.utf8EncodeChar c := by
  have hlt : c.val.toNat < 4294967296 := c.val.toNat_lt
  unfold String.utf8EncodeChar
  generalize c.val.toNat = v at hc hlt
  intro hmem
  simp only at hmem
  split at hmem
  all_goals try split at hmem
  all_goals try split at hmem
  all_goals
    simp [← UInt8.toNat_inj] at hmem
    omega

theorem newline_notMem_utf8EncodeChar (hc : c ≠ '\n') :
    newline ∉ String.utf8EncodeChar c := by
  apply ascii_notMem_utf8EncodeChar (by decide)
  intro hval
  exact hc (Char.ext (UInt32.toNat_inj.mp hval))

theorem takeLine_append {front : List UInt8} (h : newline ∉ front) (rest : List UInt8) :
    takeLine (front ++ newline :: rest) = (front ++ [newline], rest) := by
  induction front with
  | nil => simp [takeLine]
  | cons b front ih =>
    obtain ⟨hb, hfront⟩ := not_or.mp (mem_cons.not.mp h)
    simp [takeLine, Ne.symm hb, ih hfront]

theorem encodeUtf8_append (front back : List Char) :
    encodeUtf8 (front ++ back) = encodeUtf8 front ++ encodeUtf8 back := flatMap_append

theorem readLine_encoded (h : '\n' ∉ line) (rest : List UInt8) :
    readLine (encodeUtf8 (line ++ ['\n']) ++ rest) = .ok (line ++ ['\n'], rest) := by
  have hfront : newline ∉ encodeUtf8 line := by
    intro hmem
    obtain ⟨c, hc, hbyte⟩ := mem_flatMap.mp hmem
    exact newline_notMem_utf8EncodeChar (fun heq => h (heq ▸ hc)) hbyte
  have hbreak : encodeUtf8 ['\n'] = [newline] := rfl
  have htake : takeLine (encodeUtf8 (line ++ ['\n']) ++ rest) =
      (encodeUtf8 (line ++ ['\n']), rest) := by
    rw [encodeUtf8_append, hbreak, append_assoc]
    exact takeLine_append hfront rest
  rw [readLine, htake, decodeUtf8_encodeUtf8]

theorem parseDigits_eq {cs : List Char} (hdigits : ∀ c ∈ cs, c.isDigit) {value : Nat}
    (hfits : Nat.ofDigitChars 10 cs value ≤ usizeMax) :
    parseDigits value cs = .ok (Nat.ofDigitChars 10 cs value) := by
  induction cs generalizing value with
  | nil => rw [parseDigits, Nat.ofDigitChars_nil]
  | cons c cs ih =>
    rw [Nat.ofDigitChars_cons] at hfits ⊢
    have hle : 10 * value + (c.toNat - '0'.toNat) ≤ usizeMax := by
      refine le_trans ?_ hfits
      rw [Nat.ofDigitChars_eq_ofDigitChars_zero]
      have hpos : 0 < 10 ^ cs.length := Nat.pow_pos (by decide)
      have := Nat.le_mul_of_pos_left (10 * value + (c.toNat - '0'.toNat)) hpos
      omega
    rw [parseDigits, if_pos (hdigits c mem_cons_self), if_pos hle]
    exact ih (fun d hd => hdigits d (mem_cons_of_mem _ hd)) hfits

theorem isDigit_of_mem_repr {n : Nat} (h : c ∈ n.repr.toList) : c.isDigit := by
  rw [Nat.toList_repr] at h
  exact Nat.isDigit_of_mem_toDigits (by decide) (by decide) h

theorem parseUsize_repr {n : Nat} (h : n ≤ usizeMax) : parseUsize n.repr.toList = .ok n := by
  have hdigits : ∀ c ∈ n.repr.toList, c.isDigit := fun c => isDigit_of_mem_repr
  have hvalue : Nat.ofDigitChars 10 n.repr.toList 0 = n := by
    rw [Nat.toList_repr, Nat.ofDigitChars_ten_toDigits]
  have hparse := parseDigits_eq hdigits (hvalue.le.trans h)
  rw [hvalue] at hparse
  unfold parseUsize
  split
  · rename_i hnil
    rw [Nat.toList_repr] at hnil
    exact absurd hnil Nat.toDigits_ne_nil
  · rename_i hplus
    exact absurd (hdigits '+' (by rw [hplus]; exact mem_cons_self)) (by decide)
  · rename_i hplus
    exact absurd (hdigits '+' (by rw [hplus]; exact mem_cons_self)) (by decide)
  · exact hparse

theorem isLineEnd_of_isDigit (h : c.isDigit) : isLineEnd c = false := by
  have hreturn : c ≠ '\r' := by
    rintro rfl
    exact absurd h (by decide)
  have hbreak : c ≠ '\n' := by
    rintro rfl
    exact absurd h (by decide)
  simp [isLineEnd, hreturn, hbreak]

theorem dropWhile_digits (rest : List Char) {drop : Char → Bool}
    (hdrop : ∀ c : Char, c.isDigit → drop c = false)
    {digits : List Char} (hdigits : ∀ c ∈ digits, c.isDigit)
    (hne : digits ≠ []) : (digits ++ rest).dropWhile drop = digits ++ rest := by
  cases digits with
  | nil => exact absurd rfl hne
  | cons c digits =>
    rw [cons_append, dropWhile_cons, hdrop c (hdigits c mem_cons_self)]
    rfl

theorem repr_ne_nil (n : Nat) : n.repr.toList ≠ [] := by
  rw [Nat.toList_repr]
  exact Nat.toDigits_ne_nil

theorem trimMatches_repr (n : Nat) :
    trimMatches isWhitespace (' ' :: n.repr.toList) = n.repr.toList := by
  have hdigits : ∀ c ∈ n.repr.toList, c.isDigit := fun c => isDigit_of_mem_repr
  have hfront := dropWhile_digits [] (fun c => isWhitespace_of_isDigit) hdigits
    (repr_ne_nil n)
  have hback := dropWhile_digits [] (fun c => isWhitespace_of_isDigit)
    (fun c hc => hdigits c (mem_reverse.mp hc)) (reverse_ne_nil_iff.mpr (repr_ne_nil n))
  rw [append_nil] at hfront hback
  rw [trimMatches, dropWhile_cons, if_pos (by decide), hfront, hback, reverse_reverse]

def contentLengthLine (length : Nat) : List Char :=
  contentLengthName ++ [':', ' '] ++ length.repr.toList ++ ['\r', '\n']

theorem trimLineEnd_contentLengthLine (length : Nat) : trimLineEnd (contentLengthLine length) =
    contentLengthName ++ ':' :: ' ' :: length.repr.toList := by
  have hback := dropWhile_digits (contentLengthName ++ [':', ' ']).reverse
    (fun c => isLineEnd_of_isDigit)
    (fun c hc => isDigit_of_mem_repr (mem_reverse.mp hc))
    (reverse_ne_nil_iff.mpr (repr_ne_nil length))
  have hends : (contentLengthLine length).reverse = '\n' :: '\r' ::
      (length.repr.toList.reverse ++ (contentLengthName ++ [':', ' ']).reverse) := by
    rw [contentLengthLine, reverse_append, reverse_append]
    rfl
  rw [trimLineEnd, hends, dropWhile_cons_of_pos (by decide),
    dropWhile_cons_of_pos (by decide), hback, ← reverse_append, reverse_reverse,
    append_assoc]
  rfl

theorem readHeader_contentLengthLine {length : Nat} (h : length ≤ usizeMax)
    (known : Option Nat) : readHeader known (contentLengthLine length) = .ok (some length) := by
  have hcolon : ':' ∉ contentLengthName := by decide
  have hname : eqIgnoreAsciiCase (trimMatches isWhitespace contentLengthName) contentLengthName =
      true := by decide
  rw [readHeader, trimLineEnd_contentLengthLine, splitOnce_singleton hcolon]
  simp only [hname, if_true, trimMatches_repr, parseUsize_repr h]

theorem contentLengthHeader_eq (length : Nat) : contentLengthHeader length =
    encodeUtf8 (contentLengthLine length) ++ encodeUtf8 ['\r', '\n'] := by
  rw [contentLengthHeader, ← encodeUtf8_append, contentLengthLine]
  simp only [append_assoc, cons_append, nil_append]

theorem readHeaders_unreadable {error : IoError} (hne : stream ≠ [])
    (hline : readLine stream = .error error) : readHeaders ends known stream = .error error := by
  rw [readHeaders, dif_neg hne]
  split
  · rename_i heq
    rw [hline] at heq
    cases heq
    rfl
  · rename_i heq
    rw [hline] at heq
    cases heq

theorem readHeaders_line (hne : stream ≠ []) (hline : readLine stream = .ok (line, rest)) :
    readHeaders ends known stream =
      if ends line then .ok (known, rest)
      else (readHeader known line).bind fun next => readHeaders ends next rest := by
  conv_lhs => rw [readHeaders, dif_neg hne]
  split
  · rename_i heq
    rw [hline] at heq
    cases heq
  · rename_i heq
    rw [hline] at heq
    cases heq
    cases readHeader known line <;> rfl

theorem append_encodeUtf8_ne_nil (c : Char) (cs : List Char) (rest : List UInt8) :
    encodeUtf8 (c :: cs) ++ rest ≠ [] := by
  have hne : String.utf8EncodeChar c ≠ [] := String.utf8EncodeChar_ne_nil
  simp [encodeUtf8, hne]

theorem readHeaders_contentLengthHeader {length : Nat} (hfits : length ≤ usizeMax)
    (hheader : ends (contentLengthLine length) = false) (hblank : ends ['\r', '\n'] = true)
    (rest : List UInt8) :
    readHeaders ends none (contentLengthHeader length ++ rest) = .ok (some length, rest) := by
  have hbreak : '\n' ∉ contentLengthName ++ [':', ' '] ++ length.repr.toList ++ ['\r'] := by
    intro hmem
    rcases mem_append.mp hmem with hmem | hmem
    · rcases mem_append.mp hmem with hmem | hmem
      · exact absurd hmem (by decide)
      · exact absurd (isDigit_of_mem_repr hmem) (by decide)
    · exact absurd hmem (by decide)
  have hsplit : contentLengthLine length =
      contentLengthName ++ [':', ' '] ++ length.repr.toList ++ ['\r'] ++ ['\n'] :=
    (append_assoc _ ['\r'] ['\n']).symm
  have hfirst := readLine_encoded hbreak (encodeUtf8 ['\r', '\n'] ++ rest)
  have hsecond : readLine (encodeUtf8 ['\r', '\n'] ++ rest) = .ok (['\r', '\n'], rest) :=
    @readLine_encoded ['\r'] (by decide) rest
  rw [← hsplit] at hfirst
  have hfirstNe : encodeUtf8 (contentLengthLine length) ++ (encodeUtf8 ['\r', '\n'] ++ rest) ≠ [] := by
    rw [hsplit]
    exact append_encodeUtf8_ne_nil 'C' _ _
  rw [contentLengthHeader_eq, append_assoc, readHeaders_line hfirstNe hfirst, hheader,
    readHeader_contentLengthLine hfits]
  simp only [Bool.false_eq_true, if_false, Except.bind]
  rw [readHeaders_line (append_encodeUtf8_ne_nil _ _ _) hsecond, if_pos hblank]

theorem readPayload_append (payload rest : List UInt8) :
    readPayload (some payload.length, payload ++ rest) = .ok (payload, rest) := by
  have hle : payload.length ≤ (payload ++ rest).length := by
    rw [length_append]
    exact Nat.le_add_right _ _
  simp only [readPayload, readExact, if_pos hle, take_left, drop_left]

theorem readHeaders_shorter {length : Option Nat}
    (h : readHeaders ends known stream = .ok (length, rest)) :
    rest.length < stream.length := by
  induction hsize : stream.length using Nat.strong_induction_on generalizing stream known with
  | _ n ih =>
    subst hsize
    by_cases hne : stream = []
    · rw [readHeaders, dif_pos hne] at h
      cases h
    · cases hline : readLine stream with
      | error error =>
        rw [readHeaders_unreadable hne hline] at h
        cases h
      | ok taken =>
        obtain ⟨line, after⟩ := taken
        have hafter := readLine_shorter hne hline
        rw [readHeaders_line hne hline] at h
        split at h
        · cases h
          exact hafter
        · cases hheader : readHeader known line with
          | error error =>
            rw [hheader] at h
            cases h
          | ok next =>
            rw [hheader] at h
            exact (ih _ hafter h rfl).trans hafter

theorem readPayload_shorter {headers : Option Nat × List UInt8}
    (h : readPayload headers = .ok (payload, rest)) : rest.length ≤ headers.2.length := by
  unfold readPayload readExact at h
  split at h
  · cases h
  · split at h
    · cases h
      rw [length_drop]
      exact Nat.sub_le _ _
    · cases h

theorem McpStdioProcess.readFrame_shorter (h : readFrame stream = .ok (payload, rest)) :
    rest.length < stream.length := by
  unfold readFrame at h
  cases hheaders : readHeaders endsHeaders none stream with
  | error error =>
    rw [hheaders] at h
    cases h
  | ok headers =>
    rw [hheaders] at h
    exact (readPayload_shorter h).trans_lt (readHeaders_shorter hheaders)

theorem McpServer.readFrame_shorter (h : readFrame stream = .ok (some (payload, rest))) :
    rest.length < stream.length := by
  unfold readFrame at h
  by_cases hne : stream = []
  · rw [if_pos hne] at h
    cases h
  · rw [if_neg hne] at h
    cases hheaders : readHeaders endsHeaders none stream with
    | error error =>
      rw [hheaders] at h
      cases h
    | ok headers =>
      rw [hheaders] at h
      cases hpayload : readPayload headers with
      | error error =>
        simp only [bind, Except.bind, hpayload] at h
        cases h
      | ok taken =>
        simp only [bind, Except.bind, hpayload] at h
        cases h
        exact (readPayload_shorter hpayload).trans_lt (readHeaders_shorter hheaders)

/-- The frames that the client reads; the end of its input is an error. -/
def McpStdioProcess.frameReader : FrameReader UInt8 (List UInt8) IoError where
  read stream := (readFrame stream).map some
  shorter := by
    intro stream payload rest h
    cases hread : readFrame stream with
    | error error =>
      rw [hread] at h
      cases h
    | ok taken =>
      rw [hread] at h
      cases h
      exact readFrame_shorter hread

def McpServer.frameReader : FrameReader UInt8 (List UInt8) IoError where
  read := readFrame
  shorter := readFrame_shorter

theorem Bytes.fits_usize (payload : Bytes) : payload.data.length ≤ usizeMax :=
  payload.fits.trans (by decide)

theorem contentLengthLine_ne (length : Nat) (h : line.length ≤ 2) :
    contentLengthLine length ≠ line := by
  intro heq
  have hlen := congrArg List.length heq
  simp only [contentLengthLine, contentLengthName, length_append, length_cons,
    length_nil] at hlen
  omega

theorem McpStdioProcess.readFrame_encodeFrame (payload : Bytes) (rest : List UInt8) :
    readFrame (encodeFrame payload ++ rest) = .ok (payload.data, rest) := by
  have hheader : endsHeaders (contentLengthLine payload.data.length) = false :=
    decide_eq_false (contentLengthLine_ne _ (by decide))
  have hheaders := readHeaders_contentLengthHeader payload.fits_usize hheader (by decide)
    (payload.data ++ rest)
  rw [readFrame, encodeFrame, append_assoc, hheaders]
  exact readPayload_append payload.data rest

theorem McpServer.readFrame_encodeFrame (payload : Bytes) (rest : List UInt8) :
    readFrame (encodeFrame payload ++ rest) = .ok (some (payload.data, rest)) := by
  have hheader : endsHeaders (contentLengthLine payload.data.length) = false := by
    rw [endsHeaders, decide_eq_false (contentLengthLine_ne _ (by decide)),
      decide_eq_false (contentLengthLine_ne _ (by decide))]
    rfl
  have hheaders := readHeaders_contentLengthHeader payload.fits_usize hheader (by decide)
    (payload.data ++ rest)
  have hne : contentLengthHeader payload.data.length ++ (payload.data ++ rest) ≠ [] :=
    append_encodeUtf8_ne_nil 'C' _ _
  rw [readFrame, encodeFrame, append_assoc, if_neg hne, hheaders]
  simp only [bind, Except.bind, readPayload_append]
  rfl

theorem McpStdioProcess.take_encodeFrame (payload : Bytes) (rest : List UInt8) :
    frameReader.read (encodeFrame payload ++ rest) = .ok (some (payload.data, rest)) :=
  congrArg (Except.map some) (readFrame_encodeFrame payload rest)

theorem McpStdioProcess.take_nil : frameReader.read [] = .error streamClosed := by
  have hheaders : readHeaders endsHeaders none [] = .error streamClosed := by
    rw [readHeaders, dif_pos rfl]
  have hread : readFrame [] = .error streamClosed := by rw [readFrame, hheaders]; rfl
  exact congrArg (Except.map some) hread

theorem McpServer.take_encodeFrame (payload : Bytes) (rest : List UInt8) :
    frameReader.read (encodeFrame payload ++ rest) = .ok (some (payload.data, rest)) :=
  readFrame_encodeFrame payload rest

theorem McpServer.take_nil : frameReader.read [] = .ok none := rfl

theorem McpServer.writeResponses_eq (toVec : JsonRpcResponse Value → Except SerdeError Bytes)
    (responses : List (JsonRpcResponse Value)) (stdout : List UInt8) :
    responses.foldlM (writeResponse toVec) stdout =
      (responses.mapM (serialize toVec)).map fun bodies => stdout ++ bodies.flatMap encodeFrame := by
  induction responses generalizing stdout with
  | nil =>
    rw [foldlM_nil, mapM_nil]
    exact congrArg Except.ok (append_nil stdout).symm
  | cons response responses ih =>
    rw [foldlM_cons, mapM_cons, writeResponse]
    cases serialize toVec response with
    | error error => rfl
    | ok body =>
      simp only [bind, Except.bind, pure, Except.pure, ih]
      cases responses.mapM (serialize toVec) with
      | error error => rfl
      | ok bodies =>
        simp only [Except.map, flatMap_cons, encodeFrame, append_assoc]

/-- What the writer on one side writes is what the reader on the other side
reads, whatever the payloads are; then the input ends cleanly for the server, and
the client sees a closed stream. -/
theorem framing_lossless (payloads : List Bytes)
    (toVec : JsonRpcResponse Value → Except SerdeError Bytes)
    (responses : List (JsonRpcResponse Value)) :
    McpServer.frameReader.readAll (payloads.flatMap encodeFrame) =
        (payloads.map Bytes.data, .ok ()) ∧
      (responses.foldlM (McpServer.writeResponse toVec) []).map
          McpStdioProcess.frameReader.readAll =
        (responses.mapM (McpServer.serialize toVec)).map fun bodies =>
          (bodies.map Bytes.data, .error streamClosed) := by
  constructor
  · rw [FrameReader.readAll_encoded McpServer.take_encodeFrame payloads, FrameReader.readAll,
      FrameReader.drive_done McpServer.take_nil]
  · have hread (bodies : List Bytes) : McpStdioProcess.frameReader.readAll
        (bodies.flatMap encodeFrame) = (bodies.map Bytes.data, .error streamClosed) := by
      rw [FrameReader.readAll_encoded McpStdioProcess.take_encodeFrame bodies, FrameReader.readAll,
        FrameReader.drive_failed McpStdioProcess.take_nil]
    rw [McpServer.writeResponses_eq]
    cases responses.mapM (McpServer.serialize toVec) with
    | error error => rfl
    | ok bodies => exact congrArg Except.ok (hread bodies)

end DbClinic.Mcp
