import DbClinic.Runtime.CommandValidation

/-!
Assignments in front of a command, and when the scanner finds the command behind
them. A value that is not empty and stands in no quotes is always skipped as a
whole. A quoted one is followed up to a blank of the ASCII range. An empty one
is taken for the text behind its blanks: as many bytes as that text's first value
has are cut off from the blanks on.
-/

namespace DbClinic.Runtime

open List

inductive EnvValue where
  | empty
  | bare (first : Char) (rest : List Char)
  | quoted (quote : Char) (inner : List Char)
  deriving DecidableEq

namespace EnvValue

def text : EnvValue → List Char
  | .empty => []
  | .bare first rest => first :: rest
  | .quoted quote inner => quote :: (inner ++ [quote])

def IsQuote (c : Char) : Prop := c = '"' ∨ c = '\''

instance (c : Char) : Decidable (IsQuote c) := inferInstanceAs (Decidable (_ ∨ _))

/-- Unquoted without blanks, or quoted without that quote and backslashes. -/
def WellFormed : EnvValue → Prop
  | .empty => True
  | .bare first rest => ¬IsQuote first ∧ ∀ c ∈ first :: rest, isWhitespace c = false
  | .quoted quote inner => IsQuote quote ∧ ∀ c ∈ inner, c ≠ quote ∧ c ≠ '\\'

end EnvValue

/-- `NAME=value` and the blanks behind it. -/
structure EnvAssignment where
  name : List Char
  value : EnvValue
  blanks : List Char
  name_ne : name ≠ []
  name_chars : name.all isNameChar = true
  value_ok : value.WellFormed
  blanks_ne : blanks ≠ []
  blanks_blank : ∀ c ∈ blanks, isWhitespace c = true

namespace EnvAssignment

def text (a : EnvAssignment) : List Char := a.name ++ '=' :: (a.value.text ++ a.blanks)

def round (a : EnvAssignment) (next : List Char) : Option (List Char) :=
  let afterEq := a.value.text ++ a.blanks ++ next
  match findEndOfValue afterEq with
  | none => none
  | some offset => dropBytes offset afterEq

/-- The round leaves the text behind the assignment, and blanks in front of it. -/
def IsPeeled (a : EnvAssignment) (next : List Char) : Prop :=
  ∃ blanks, (∀ c ∈ blanks, isWhitespace c = true) ∧ a.round next = some (blanks ++ next)

/-- The blanks behind a quoted value include one of the ASCII range. The blanks
behind an empty one have room for the first value of the text behind them. -/
def Clean (a : EnvAssignment) (next : List Char) : Prop :=
  match a.value with
  | .empty => ∃ skipped blanks, a.blanks = skipped ++ blanks ∧
      findEndOfValue next = some (byteLength skipped)
  | .bare _ _ => True
  | .quoted _ _ => ∃ c ∈ a.blanks, isAsciiWhitespace c = true

end EnvAssignment

structure EnvCommand where
  assignments : List EnvAssignment
  word : List Char
  args : List Char
  word_ne : word ≠ []
  word_chars : ∀ c ∈ word, isWhitespace c = false ∧ c ≠ '='
  args_blank : ∀ c ∈ args.head?, isWhitespace c = true

/-- Each of the assignments in front of a text is in the relation with the text
behind it. -/
def EachStage (P : EnvAssignment → List Char → Prop) (tail : List Char) :
    List EnvAssignment → Prop
  | [] => True
  | a :: later => P a (later.flatMap EnvAssignment.text ++ tail) ∧ EachStage P tail later

def commandWordVerdict (first : List Char) : Option ValidationResult :=
  match WRITE_COMMANDS.find? fun cmd => cmd.toList = first with
  | some writeCmd =>
    some (.block ("Command '" ++ writeCmd ++
      "' modifies the filesystem and is not allowed in read-only mode"))
  | none =>
    match STATE_MODIFYING_COMMANDS.find? fun cmd => cmd.toList = first with
    | some stateCmd =>
      some (.block ("Command '" ++ stateCmd ++
        "' modifies system state and is not allowed in read-only mode"))
    | none => none

def laterChecks (fuel : Nat) (first command : List Char) : Option ValidationResult :=
  if first = "sudo".toList ∧ extractSudoInner command ≠ [] then
    match validateReadOnly .readOnly fuel (extractSudoInner command) with
    | none => none
    | some .allow => some (validateRedirections first command)
    | some result => some result
  else some (validateRedirections first command)

theorem validateReadOnly_checks {command first : List Char}
    (hfirst : extractFirstCommand command = some first) (fuel : Nat) :
    validateReadOnly .readOnly (fuel + 1) command =
      (commandWordVerdict first).or (laterChecks fuel first command) := by
  simp only [validateReadOnly, hfirst, commandWordVerdict]
  cases WRITE_COMMANDS.find? fun cmd => cmd.toList = first with
  | some writeCmd => rfl
  | none =>
    cases STATE_MODIFYING_COMMANDS.find? fun cmd => cmd.toList = first with
    | some stateCmd => rfl
    | none => rfl

namespace EnvCommand

def bare (p : EnvCommand) : List Char := p.word ++ p.args

def text (p : EnvCommand) : List Char := p.assignments.flatMap EnvAssignment.text ++ p.bare

def Clean (p : EnvCommand) : Prop := EachStage EnvAssignment.Clean (trimEnd p.bare) p.assignments

/-- Each round leaves the text behind its assignment, the command's word is
found there, and the read-only validation checks the word as it does without
the assignments. -/
structure Skips (p : EnvCommand) : Prop where
  peeled : EachStage EnvAssignment.IsPeeled (trimEnd p.bare) p.assignments
  word : extractFirstCommand p.text = some p.word
  verdict : ∀ fuel, ∀ command ∈ [p.text, p.bare], validateReadOnly .readOnly (fuel + 1) command =
    (commandWordVerdict p.word).or (laterChecks fuel p.word command)

end EnvCommand

variable {cs : List Char} {p : Char → Bool} {c : Char}

theorem findOffset_skip (h : ∀ c ∈ cs, p c = false) (offset : Nat) (rest : List Char) :
    findOffset p offset (cs ++ rest) = findOffset p (offset + byteLength cs) rest := by
  induction cs generalizing offset with
  | nil => rfl
  | cons c cs ih =>
    have hc : p c = false := h c mem_cons_self
    rw [cons_append, findOffset, hc, byteLength_cons, ← Nat.add_assoc]
    exact ih (fun d hd => h d (mem_cons_of_mem c hd)) _

theorem findOffset_ge {offset n : Nat} (h : findOffset p offset cs = some n) : offset ≤ n := by
  induction cs generalizing offset with
  | nil => cases h
  | cons c cs ih =>
    simp only [findOffset] at h
    split at h
    · cases h
      exact Nat.le_refl _
    · have hle := ih h
      omega

theorem quotedEnd_skip {quote previous : Char} {inner : List Char} (hprevious : previous ≠ '\\')
    (h : ∀ c ∈ inner, c ≠ quote ∧ c ≠ '\\') (offset : Nat) (rest : List Char) :
    quotedEnd quote previous offset (inner ++ quote :: rest) =
      findOffset isAsciiWhitespace (offset + byteLength inner + quote.utf8Size) rest := by
  induction inner generalizing previous offset with
  | nil =>
    rw [nil_append, quotedEnd, if_pos ⟨rfl, hprevious⟩]
    rfl
  | cons c inner ih =>
    obtain ⟨hquote, hbackslash⟩ := h c mem_cons_self
    rw [cons_append, quotedEnd, if_neg (fun hc => hquote hc.1), byteLength_cons,
      ← Nat.add_assoc]
    exact ih hbackslash (fun d hd => h d (mem_cons_of_mem c hd)) _

theorem trimStart_of_head (h : ∀ c ∈ cs.head?, isWhitespace c = false) :
    trimStart cs = cs := by
  cases cs with
  | nil => rfl
  | cons c cs =>
    have hc := h c rfl
    exact dropWhile_cons_of_neg (by rw [hc]; exact Bool.false_ne_true)

theorem trimStart_blanks {blanks : List Char} (hblanks : ∀ c ∈ blanks, isWhitespace c = true)
    (h : ∀ c ∈ cs.head?, isWhitespace c = false) : trimStart (blanks ++ cs) = cs := by
  unfold trimStart
  rw [dropWhile_append_of_pos hblanks]
  exact trimStart_of_head h

theorem isWhitespace_of_ascii (h : isAsciiWhitespace c = true) :
    isWhitespace c = true := by
  have hmem : c ∈ [' ', '\t', '\n', Char.ofNat 0x0c, '\r'] := by
    simpa [isAsciiWhitespace] using h
  have hall : ∀ c ∈ [' ', '\t', '\n', Char.ofNat 0x0c, '\r'], isWhitespace c = true :=
    forall_mem_of_all (by decide)
  exact hall c hmem

theorem EnvValue.isWhitespace_quote (h : EnvValue.IsQuote c) :
    isWhitespace c = false ∧ c ≠ '\\' := by
  rcases h with rfl | rfl <;> decide

namespace EnvAssignment

variable {a : EnvAssignment} {next : List Char}

theorem round_empty (hval : a.value = .empty) (hhead : ∀ c ∈ next.head?, isWhitespace c = false) :
    a.round next = match findEndOfValue next with
      | none => none
      | some offset => dropBytes offset (a.blanks ++ next) := by
  have hend : findEndOfValue (a.blanks ++ next) = findEndOfValue next := by
    unfold findEndOfValue
    rw [trimStart_blanks a.blanks_blank hhead, trimStart_of_head hhead]
  simp only [round, hval, EnvValue.text, nil_append, hend]

theorem round_bare {first : Char} {rest : List Char} (hval : a.value = .bare first rest) :
    a.round next = some (a.blanks ++ next) := by
  have hok := a.value_ok
  rw [hval] at hok
  obtain ⟨hquote, hchars⟩ := hok
  have hfirst : isWhitespace first = false := hchars first mem_cons_self
  obtain ⟨b, blanks, hblanks⟩ := exists_cons_of_ne_nil a.blanks_ne
  have hb : isWhitespace b = true := a.blanks_blank b (by rw [hblanks]; exact mem_cons_self)
  have hend : findEndOfValue ((first :: rest) ++ (a.blanks ++ next)) =
      some (byteLength (first :: rest)) := by
    unfold findEndOfValue
    rw [trimStart_of_head (by rintro c hc; cases hc; exact hfirst), cons_append]
    dsimp only
    rw [if_neg (show ¬(first = '"' ∨ first = '\'') from hquote), ← cons_append, findOffset_skip hchars, hblanks, cons_append,
      findOffset, if_pos hb, Nat.zero_add]
  simp only [round, hval, EnvValue.text, append_assoc, hend]
  exact dropBytes_prefix _ _

theorem round_quoted {quote : Char} {inner : List Char} (hval : a.value = .quoted quote inner) :
    a.round next =
      match findOffset isAsciiWhitespace (byteLength a.value.text) (a.blanks ++ next) with
      | none => none
      | some offset => dropBytes offset (a.value.text ++ (a.blanks ++ next)) := by
  have hok := a.value_ok
  rw [hval] at hok
  obtain ⟨hquote, hinner⟩ := hok
  obtain ⟨hblank, hbackslash⟩ := EnvValue.isWhitespace_quote hquote
  have hlen : byteLength (quote :: (inner ++ [quote])) =
      quote.utf8Size + byteLength inner + quote.utf8Size := by
    rw [byteLength_cons, byteLength_append, byteLength_cons]
    simp only [byteLength, map_nil, sum_nil]
    omega
  have hend : findEndOfValue (quote :: (inner ++ [quote]) ++ (a.blanks ++ next)) =
      findOffset isAsciiWhitespace (byteLength (quote :: (inner ++ [quote]))) (a.blanks ++ next) := by
    unfold findEndOfValue
    rw [trimStart_of_head (by rintro c hc; cases hc; exact hblank), cons_append]
    dsimp only
    rw [if_pos (show quote = '"' ∨ quote = '\'' from hquote), append_assoc, singleton_append, quotedEnd_skip hbackslash hinner,
      hlen]
  simp only [round, hval, EnvValue.text, append_assoc] at hend ⊢
  rw [← hend]

theorem isPeeled_iff (hne : next ≠ []) (hhead : ∀ c ∈ next.head?, isWhitespace c = false) :
    a.IsPeeled next ↔ a.Clean next := by
  unfold IsPeeled Clean
  cases hval : a.value with
  | empty =>
    dsimp only
    rw [round_empty hval hhead]
    constructor
    · rintro ⟨blanks, -, hround⟩
      cases hend : findEndOfValue next with
      | none => simp [hend] at hround
      | some offset =>
        rw [hend] at hround
        obtain ⟨before, hsplit, hlen⟩ := dropBytes_eq hround
        rw [← append_assoc] at hsplit
        exact ⟨before, blanks, append_cancel_right hsplit, by rw [hlen]⟩
    · rintro ⟨skipped, blanks, hblanks, hend⟩
      refine ⟨blanks, ?_, ?_⟩
      · intro c hc
        exact a.blanks_blank c (by rw [hblanks]; exact mem_append_right _ hc)
      · rw [hend, hblanks, append_assoc]
        exact dropBytes_prefix _ _
  | bare first rest =>
    exact iff_of_true ⟨a.blanks, a.blanks_blank, round_bare hval⟩ trivial
  | quoted quote inner =>
    dsimp only
    rw [round_quoted hval]
    constructor
    · rintro ⟨blanks, -, hround⟩
      by_contra hnone
      have hblanks : ∀ c ∈ a.blanks, isAsciiWhitespace c = false := by
        intro c hc
        by_contra hascii
        exact hnone ⟨c, hc, by simpa using hascii⟩
      obtain ⟨d, more, rfl⟩ := exists_cons_of_ne_nil hne
      have hd : isAsciiWhitespace d = false := by
        by_contra hascii
        have hblank := isWhitespace_of_ascii (Bool.not_eq_false _ ▸ hascii)
        rw [hhead d rfl] at hblank
        cases hblank
      rw [findOffset_skip hblanks, findOffset, hd] at hround
      cases hend : findOffset isAsciiWhitespace
          (byteLength a.value.text + byteLength a.blanks + d.utf8Size) more with
      | none => simp [hend] at hround
      | some offset =>
        simp only [Bool.false_eq_true, if_false, hend] at hround
        -- the offset is behind the first character of the text
        have hge := findOffset_ge hend
        have hd0 := d.utf8Size_pos
        obtain ⟨before, hsplit, hlen⟩ := dropBytes_eq hround
        rw [← append_assoc, ← append_assoc] at hsplit
        have hbefore := congrArg byteLength (append_cancel_right hsplit)
        rw [byteLength_append, byteLength_append] at hbefore
        omega
    · rintro ⟨c, hc, hascii⟩
      have hdrop : a.blanks.dropWhile (fun c => !isAsciiWhitespace c) ≠ [] := by
        intro hnil
        have hall := dropWhile_eq_nil_iff.mp hnil c hc
        rw [hascii] at hall
        cases hall
      obtain ⟨b, blanks, hb⟩ := exists_cons_of_ne_nil hdrop
      have hbAscii : isAsciiWhitespace b = true := by
        have hhead := head?_dropWhile_not (fun c => !isAsciiWhitespace c) a.blanks
        rw [hb] at hhead
        simpa using hhead
      have hsplit : a.blanks.takeWhile (fun c => !isAsciiWhitespace c) ++ b :: blanks =
          a.blanks := by
        rw [← hb]
        exact takeWhile_append_dropWhile
      generalize htake : a.blanks.takeWhile (fun c => !isAsciiWhitespace c) = skipped at hsplit
      have hskipped : ∀ c ∈ skipped, isAsciiWhitespace c = false := by
        intro c hc
        rw [← htake] at hc
        simpa using mem_takeWhile_imp hc
      refine ⟨b :: blanks, ?_, ?_⟩
      · intro c hc
        exact a.blanks_blank c (by rw [← hsplit]; exact mem_append_right _ hc)
      · rw [← hsplit, append_assoc, findOffset_skip hskipped, cons_append, findOffset,
          if_pos hbAscii]
        dsimp only
        rw [← byteLength_append, ← append_assoc]
        exact dropBytes_prefix _ _

theorem text_ne_nil (a : EnvAssignment) : a.text ≠ [] := by
  unfold text
  simp

theorem text_head (a : EnvAssignment) : ∀ c ∈ a.text.head?, isWhitespace c = false := by
  obtain ⟨c, name, hname⟩ := exists_cons_of_ne_nil a.name_ne
  have hc : isNameChar c = true :=
    all_eq_true.mp a.name_chars c (by rw [hname]; exact mem_cons_self)
  intro d hd
  unfold text at hd
  rw [hname] at hd
  cases hd
  by_contra hblank
  rw [isNameChar_of_isWhitespace (Bool.not_eq_false _ ▸ hblank)] at hc
  cases hc

end EnvAssignment

section Rounds

variable {tail : List Char}

theorem stage_head (hne : tail ≠ []) (hhead : ∀ c ∈ tail.head?, isWhitespace c = false)
    (later : List EnvAssignment) :
    later.flatMap EnvAssignment.text ++ tail ≠ [] ∧
      ∀ c ∈ (later.flatMap EnvAssignment.text ++ tail).head?, isWhitespace c = false := by
  cases later with
  | nil => exact ⟨hne, hhead⟩
  | cons a later =>
    rw [flatMap_cons, append_assoc]
    refine ⟨fun hnil => a.text_ne_nil (append_eq_nil_iff.mp hnil).1, ?_⟩
    rw [head?_append_of_ne_nil _ a.text_ne_nil]
    exact a.text_head

theorem eachStage_iff (hne : tail ≠ []) (hhead : ∀ c ∈ tail.head?, isWhitespace c = false)
    (assignments : List EnvAssignment) :
    EachStage EnvAssignment.IsPeeled tail assignments ↔
      EachStage EnvAssignment.Clean tail assignments := by
  induction assignments with
  | nil => exact Iff.rfl
  | cons a later ih =>
    obtain ⟨hnext, hnextHead⟩ := stage_head hne hhead later
    exact and_congr (EnvAssignment.isPeeled_iff hnext hnextHead) ih

theorem skipAssignments_stages {assignments : List EnvAssignment} {blanks : List Char} {fuel : Nat}
    (hne : tail ≠ []) (hhead : ∀ c ∈ tail.head?, isWhitespace c = false)
    (htail : ∀ blanks afterEq, (∀ c ∈ blanks, isWhitespace c = true) →
      ¬Assigns (blanks ++ tail) afterEq)
    (hblanks : ∀ c ∈ blanks, isWhitespace c = true)
    (hpeeled : EachStage EnvAssignment.IsPeeled tail assignments)
    (hfuel : assignments.length < fuel) :
    ∃ blanks', (∀ c ∈ blanks', isWhitespace c = true) ∧
      skipAssignments fuel (blanks ++ (assignments.flatMap EnvAssignment.text ++ tail)) =
        .command (blanks' ++ tail) := by
  induction assignments generalizing blanks fuel with
  | nil =>
    obtain ⟨fuel, rfl⟩ : ∃ k, fuel = k + 1 := ⟨fuel - 1, by simp at hfuel; omega⟩
    refine ⟨blanks, hblanks, ?_⟩
    exact skipAssignments_not_assigns (fun afterEq => htail blanks afterEq hblanks) fuel
  | cons a later ih =>
    obtain ⟨fuel, rfl⟩ : ∃ k, fuel = k + 1 := ⟨fuel - 1, by simp at hfuel; omega⟩
    obtain ⟨⟨blanks', hblanks', hround⟩, hlater⟩ := hpeeled
    obtain ⟨-, hnextHead⟩ := stage_head hne hhead later
    have hassigns : Assigns
        (blanks ++ ((a :: later).flatMap EnvAssignment.text ++ tail))
        (a.value.text ++ a.blanks ++ (later.flatMap EnvAssignment.text ++ tail)) := by
      refine ⟨a.name, a.name_ne, a.name_chars, ?_⟩
      have hstart := (stage_head hne hhead (a :: later)).2
      rw [trimStart_blanks hblanks hstart, flatMap_cons]
      simp only [EnvAssignment.text, append_assoc, cons_append]
    have hrest := ih hblanks' hlater (by simpa using hfuel)
    rw [skipAssignments_assigns hassigns]
    unfold EnvAssignment.round at hround
    dsimp only at hround
    cases hend : findEndOfValue
        (a.value.text ++ a.blanks ++ (later.flatMap EnvAssignment.text ++ tail)) with
    | none => simp only [hend, reduceCtorEq] at hround
    | some offset =>
      simp only [hend] at hround
      dsimp only
      rw [hround]
      exact hrest

end Rounds

namespace EnvCommand

theorem trimEnd_bare (p : EnvCommand) : trimEnd p.bare = p.word ++ trimEnd p.args := by
  unfold bare
  by_cases hargs : trimEnd p.args = []
  · have hlast : p.word.reverse.dropWhile isWhitespace = p.word.reverse := by
      refine trimStart_of_head fun c hc => ?_
      exact (p.word_chars c (mem_reverse.mp (mem_of_mem_head? hc))).1
    rw [hargs, append_nil]
    unfold trimEnd at hargs ⊢
    rw [reverse_append, dropWhile_append, if_pos (by simpa using hargs), hlast,
      reverse_reverse]
  · exact trimEnd_append p.word hargs

theorem args_cases (p : EnvCommand) : trimEnd p.args = [] ∨
    ∃ b rest, trimEnd p.args = b :: rest ∧ isWhitespace b = true := by
  obtain ⟨blank, hargs, -⟩ := trimEnd_append_blank p.args
  cases hcases : trimEnd p.args with
  | nil => exact .inl rfl
  | cons b rest =>
    rw [hcases] at hargs
    refine .inr ⟨b, rest, rfl, p.args_blank b ?_⟩
    rw [hargs]
    rfl

theorem tail_ne (p : EnvCommand) : trimEnd p.bare ≠ [] := by
  rw [p.trimEnd_bare]
  exact fun hnil => p.word_ne (append_eq_nil_iff.mp hnil).1

theorem word_head (p : EnvCommand) (more : List Char) :
    ∀ c ∈ (p.word ++ more).head?, isWhitespace c = false := by
  intro c hc
  rw [head?_append_of_ne_nil _ p.word_ne] at hc
  exact (p.word_chars c (mem_of_mem_head? hc)).1

theorem tail_head (p : EnvCommand) : ∀ c ∈ (trimEnd p.bare).head?, isWhitespace c = false := by
  rw [p.trimEnd_bare]
  exact p.word_head _

/-- The command begins no assignment: a `=` is behind a blank. -/
theorem tail_not_assigns (p : EnvCommand) {blanks : List Char} (afterEq : List Char)
    (hblanks : ∀ c ∈ blanks, isWhitespace c = true) :
    ¬Assigns (blanks ++ trimEnd p.bare) afterEq := by
  rintro ⟨name, -, hname, htext⟩
  rw [trimStart_blanks hblanks p.tail_head, p.trimEnd_bare] at htext
  have hword : ∀ c ∈ p.word, decide (c ≠ '=') = true :=
    fun c hc => decide_eq_true (p.word_chars c hc).2
  have htake := congrArg (List.takeWhile (· ≠ '=')) htext
  rw [(takeWhile_name hname afterEq).1, takeWhile_append_of_pos hword] at htake
  rcases p.args_cases with hnil | ⟨b, rest, hargs, hb⟩
  · rw [hnil, append_nil] at htext
    have heq : '=' ∈ p.word := by
      rw [htext]
      simp
    exact (p.word_chars '=' heq).2 rfl
  · have hbName : isNameChar b = true := by
      refine all_eq_true.mp hname b ?_
      have hbEq : decide (b ≠ '=') = true := by
        rw [decide_eq_true_eq]
        rintro rfl
        revert hb
        decide
      rw [← htake, hargs, takeWhile_cons, if_pos hbEq]
      simp
    rw [isNameChar_of_isWhitespace hb] at hbName
    cases hbName

theorem splitWhitespace_tail (p : EnvCommand) :
    (splitWhitespace (trimEnd p.bare)).head? = some p.word := by
  have hword := splitWhitespace_word p.word_ne fun c hc => (p.word_chars c hc).1
  rw [p.trimEnd_bare]
  rcases p.args_cases with hnil | ⟨b, rest, hargs, hb⟩
  · rw [hnil, append_nil, hword]
    rfl
  · rw [hargs, splitWhitespace_append _ hb, hword]
    rfl

theorem extractFirstCommand_of_peeled (p : EnvCommand)
    (h : EachStage EnvAssignment.IsPeeled (trimEnd p.bare) p.assignments) :
    extractFirstCommand p.text = some p.word := by
  have htrim : trim p.text = p.assignments.flatMap EnvAssignment.text ++ trimEnd p.bare := by
    have hbare : p.bare ≠ [] := fun hnil => p.word_ne (append_eq_nil_iff.mp hnil).1
    have hhead := (stage_head hbare (p.word_head p.args) p.assignments).2
    unfold text
    rw [trim_of_head hhead, trimEnd_append _ p.tail_ne]
  have hlen : p.assignments.length < (trim p.text).length + 1 := by
    have hle : ∀ assignments : List EnvAssignment,
        assignments.length ≤ (assignments.flatMap EnvAssignment.text).length := by
      intro assignments
      induction assignments with
      | nil => exact Nat.le_refl _
      | cons a later ih =>
        have ha := length_pos_iff.mpr a.text_ne_nil
        rw [flatMap_cons, length_append, length_cons]
        omega
    have hassignments := hle p.assignments
    rw [htrim, length_append]
    omega
  have hnil : ∀ c ∈ ([] : List Char), isWhitespace c = true := fun c hc => by cases hc
  obtain ⟨blanks, hblanks, hskip⟩ := skipAssignments_stages p.tail_ne p.tail_head
    (fun blanks afterEq hblanks => p.tail_not_assigns afterEq hblanks) hnil h hlen
  rw [nil_append, ← htrim] at hskip
  unfold extractFirstCommand
  rw [hskip]
  dsimp only
  rw [splitWhitespace_blanks hblanks, p.splitWhitespace_tail]
  rfl

end EnvCommand

/-- The assignments in front of a command are skipped, each in a round of its
own, exactly when all of them are clean. -/
theorem env_prefix_skipped_iff (p : EnvCommand) : p.Skips ↔ p.Clean := by
  have hstages := eachStage_iff p.tail_ne p.tail_head p.assignments
  constructor
  · rintro ⟨hpeeled, -, -⟩
    exact hstages.mp hpeeled
  · intro hclean
    have hpeeled := hstages.mpr hclean
    have hword := p.extractFirstCommand_of_peeled hpeeled
    have hbare : extractFirstCommand p.bare = some p.word :=
      EnvCommand.extractFirstCommand_of_peeled { p with assignments := [] } trivial
    refine ⟨hpeeled, hword, fun fuel command hcmd => ?_⟩
    rcases mem_cons.mp hcmd with rfl | hcmd
    · exact validateReadOnly_checks hword fuel
    · cases mem_singleton.mp hcmd
      exact validateReadOnly_checks hbare fuel

/-- `B= rm x` -/
def removalBehindEmpty : EnvCommand where
  assignments :=
    [{ name := ['B'], value := .empty, blanks := [' '], name_ne := by decide,
       name_chars := by decide, value_ok := trivial, blanks_ne := by decide,
       blanks_blank := forall_mem_of_all (by decide) }]
  word := "rm".toList
  args := " x".toList
  word_ne := by decide
  word_chars := forall_mem_of_all (by decide)
  args_blank := by
    intro c hc
    cases hc
    rfl

/-- Behind an empty value the removal is taken for a command `m`, which the
read-only validation allows. -/
theorem removal_behind_empty_value :
    removalBehindEmpty.text = "B= rm x".toList ∧
      extractFirstCommand removalBehindEmpty.text = some "m".toList ∧
      validateReadOnly .readOnly 1 removalBehindEmpty.text = some .allow ∧
      validateReadOnly .readOnly 1 removalBehindEmpty.bare = some (.block
        "Command 'rm' modifies the filesystem and is not allowed in read-only mode") := by
  decide

end DbClinic.Runtime
