import NilsCli.ReadOnly.Agreement

/-!
# Quoted words

`quotePosixSingleWithStyle` writes a word for a POSIX shell. The shell and the audited parser read it
back in both styles.
-/

namespace NilsCli.ReadOnly

open Lib Lib.Shell

inductive SingleQuoteEscapeStyle where
  | backslash
  | doubleQuoteBoundary

/-- What stands for an apostrophe: the quotes are closed in front of it and opened again behind it. -/
def SingleQuoteEscapeStyle.escape : SingleQuoteEscapeStyle → List Char
  | .backslash => [apostrophe, Shell.backslash, apostrophe, apostrophe]
  | .doubleQuoteBoundary => [apostrophe, quotationMark, apostrophe, quotationMark, apostrophe]

def quoteChars (style : SingleQuoteEscapeStyle) (input : List Char) : List Char :=
  input.flatMap fun ch => if ch = apostrophe then style.escape else [ch]

def quotePosixSingleWithStyle (input : String) (style : SingleQuoteEscapeStyle) : String :=
  if input = "" then .ofList [apostrophe, apostrophe]
  else .ofList (apostrophe :: quoteChars style input.toList ++ [apostrophe])

def quotePosixSingle (input : String) : String := quotePosixSingleWithStyle input .backslash

example : quotePosixSingle "it's" = "'it'\\''s'" := by decide

variable {style : SingleQuoteEscapeStyle} {input : String} {reading : Reading} {c : Char}
  {x cs : List Char} {out : List String}

/-- The empty word is no exception. -/
theorem toList_quotePosixSingle :
    (quotePosixSingleWithStyle input style).toList =
      apostrophe :: (quoteChars style input.toList ++ [apostrophe]) := by
  unfold quotePosixSingleWithStyle
  by_cases h : input = ""
  · rw [if_pos h, h]
    rfl
  · rw [if_neg h, String.toList_ofList]
    rfl

theorem lexFrom_closeSingle {words : List Word} {word : Option Word} :
    lexFrom .single words word (apostrophe :: cs) = lexFrom .bare words word cs := by
  rw [lexFrom.eq_def]
  rfl

/-- Behind the opening quote the shell reads up to the closing one, and no expansion is left. -/
theorem lexFrom_quoteChars (style : SingleQuoteEscapeStyle) (x : List Char) :
    ∃ marks : Word, chars marks = x ∧ (∀ mark ∈ marks, mark.kind = .literal ∨ mark.kind = .quote) ∧
      ∀ (words : List Word) (word : Word) (rest : List Char),
        lexFrom .single words (some word) (quoteChars style x ++ apostrophe :: rest) =
          lexFrom .bare words (some (word ++ marks)) rest := by
  induction x with
  | nil => exact ⟨[], rfl, by simp, fun words word rest => by rw [List.append_nil]; rfl⟩
  | cons c x ih =>
    obtain ⟨marks, hchars, hkinds, hlex⟩ := ih
    by_cases hc : c = apostrophe
    · subst hc
      have htext (rest : List Char) : quoteChars style (apostrophe :: x) ++ rest =
          style.escape ++ (quoteChars style x ++ rest) := List.append_assoc ..
      cases style with
      | backslash =>
        refine ⟨⟨apostrophe, .literal⟩ :: ⟨apostrophe, .quote⟩ :: marks, congrArg _ hchars, ?_, ?_⟩
        · simpa using hkinds
        · intro words word rest
          rw [htext, SingleQuoteEscapeStyle.escape, List.cons_append, List.cons_append, List.cons_append,
            List.cons_append, List.nil_append, lexFrom_closeSingle, lexFrom_escape (by decide),
            lexFrom_openSingle]
          refine (hlex words (word ++ [⟨apostrophe, .literal⟩] ++ [⟨apostrophe, .quote⟩]) rest).trans ?_
          simp only [List.append_assoc, List.cons_append, List.nil_append]
      | doubleQuoteBoundary =>
        refine ⟨⟨quotationMark, .quote⟩ :: ⟨apostrophe, .literal⟩ :: ⟨apostrophe, .quote⟩ :: marks,
          congrArg _ hchars, ?_, ?_⟩
        · simpa using hkinds
        · intro words word rest
          rw [htext, SingleQuoteEscapeStyle.escape, List.cons_append, List.cons_append, List.cons_append,
            List.cons_append, List.cons_append, List.nil_append, lexFrom_closeSingle,
            lexFrom_openDouble, lexFrom_double (by decide) (by decide) (by decide),
            lexFrom_closeDouble, lexFrom_openSingle]
          refine (hlex words (word ++ [⟨quotationMark, .quote⟩] ++ [⟨apostrophe, .literal⟩] ++
            [⟨apostrophe, .quote⟩]) rest).trans ?_
          simp only [List.append_assoc, List.cons_append, List.nil_append]
    · refine ⟨⟨c, .literal⟩ :: marks, congrArg _ hchars, by simpa using hkinds, fun words word rest => ?_⟩
      have htext : quoteChars style (c :: x) = c :: quoteChars style x :=
        congrArg (· ++ quoteChars style x) (if_neg hc)
      rw [htext, List.cons_append, lexFrom_single hc]
      refine (hlex words (word ++ [⟨c, .literal⟩]) rest).trans ?_
      rw [List.append_assoc]
      rfl

/-- The shell reads the text as one word, whatever follows, and `p` holds of the word. -/
def ReadAs (text : List Char) (input : String) (p : Word → Prop) : Prop :=
  ∃ word : Word, value word = input ∧ startsSpecial word = false ∧ p word ∧
    ∀ (words : List Word) (rest : List Char),
      lexFrom .bare words none (text ++ rest) = lexFrom .bare words (some word) rest

theorem readAs_quoted (input : String) (style : SingleQuoteEscapeStyle) :
    ReadAs (quotePosixSingleWithStyle input style).toList input fun word =>
      word.head? = some ⟨apostrophe, .quote⟩ ∧
        ∀ mark ∈ word, mark.kind = .literal ∨ mark.kind = .quote := by
  obtain ⟨marks, hchars, hkinds, hlex⟩ := lexFrom_quoteChars style input.toList
  refine ⟨⟨apostrophe, .quote⟩ :: marks, ?_, rfl, ⟨rfl, by simpa using hkinds⟩, fun words rest => ?_⟩
  · exact (congrArg String.ofList hchars).trans String.ofList_toList
  · rw [toList_quotePosixSingle, List.cons_append, List.append_assoc, lexFrom_openSingle]
    exact hlex words [⟨apostrophe, .quote⟩] rest

/-! ## The audited parser -/

@[simp] theorem Reading.push_push (reading : Reading) (a b : List Char) :
    (reading.push a).push b = reading.push (a ++ b) := by
  simp [Reading.push]

theorem parse_closeSingle (h : parseFrom .single reading (apostrophe :: cs) = .ok out) :
    parseFrom .bare (reading.push []) cs = .ok out := by
  unfold parseFrom at h
  obtain ⟨-, -, h⟩ := bind_eq_ok.mp h
  obtain ⟨-, -, h⟩ := bind_eq_ok.mp h
  exact h

theorem parse_inSingle (hc : c ≠ apostrophe) (h : parseFrom .single reading (c :: cs) = .ok out) :
    parseFrom .single (reading.push [c]) cs = .ok out := by
  unfold parseFrom at h
  obtain ⟨-, -, h⟩ := bind_eq_ok.mp h
  obtain ⟨-, -, h⟩ := bind_eq_ok.mp h
  rwa [if_neg hc, if_neg hc] at h

theorem parse_openSingle (h : parseFrom .bare reading (apostrophe :: cs) = .ok out) :
    parseFrom .single (reading.push []) cs = .ok out := by
  unfold parseFrom at h
  obtain ⟨-, -, h⟩ := bind_eq_ok.mp h
  obtain ⟨-, -, h⟩ := bind_eq_ok.mp h
  exact h

theorem parse_escapedApostrophe
    (h : parseFrom .bare reading (Shell.backslash :: apostrophe :: cs) = .ok out) :
    parseFrom .bare (reading.push [apostrophe]) cs = .ok out := by
  unfold parseFrom at h
  obtain ⟨-, -, h⟩ := bind_eq_ok.mp h
  obtain ⟨-, h⟩ := ensure_bind_ok.mp h
  obtain ⟨-, -, h⟩ := bind_eq_ok.mp h
  exact h

theorem parse_doubledApostrophe
    (h : parseFrom .bare reading (quotationMark :: apostrophe :: quotationMark :: cs) = .ok out) :
    parseFrom .bare (reading.push [apostrophe]) cs = .ok out := by
  unfold parseFrom at h
  obtain ⟨-, -, h⟩ := bind_eq_ok.mp h
  obtain ⟨-, -, h⟩ := bind_eq_ok.mp h
  replace h : parseFrom .double (reading.push []) (apostrophe :: quotationMark :: cs) = .ok out := h
  unfold parseFrom at h
  obtain ⟨-, -, h⟩ := bind_eq_ok.mp h
  obtain ⟨-, h⟩ := ensure_bind_ok.mp h
  obtain ⟨-, h⟩ := ensure_bind_ok.mp h
  obtain ⟨-, -, h⟩ := bind_eq_ok.mp h
  replace h : parseFrom .double ((reading.push []).push [apostrophe]) (quotationMark :: cs) = .ok out := h
  unfold parseFrom at h
  obtain ⟨-, -, h⟩ := bind_eq_ok.mp h
  obtain ⟨-, -, h⟩ := bind_eq_ok.mp h
  simpa using h

theorem parse_quoteChars (h : parseFrom .single reading (quoteChars style x ++ apostrophe :: cs) = .ok out) :
    parseFrom .bare (reading.push x) cs = .ok out := by
  induction x generalizing reading with
  | nil => exact parse_closeSingle h
  | cons c x ih =>
    by_cases hc : c = apostrophe
    · subst hc
      have htext : quoteChars style (apostrophe :: x) ++ apostrophe :: cs =
          style.escape ++ (quoteChars style x ++ apostrophe :: cs) := List.append_assoc ..
      rw [htext] at h
      have hopen : parseFrom .bare (reading.push [apostrophe])
          (apostrophe :: (quoteChars style x ++ apostrophe :: cs)) = .ok out := by
        cases style with
        | backslash => simpa using parse_escapedApostrophe (parse_closeSingle h)
        | doubleQuoteBoundary => simpa using parse_doubledApostrophe (parse_closeSingle h)
      simpa using ih (parse_openSingle hopen)
    · have htext : quoteChars style (c :: x) = c :: quoteChars style x :=
        congrArg (· ++ quoteChars style x) (if_neg hc)
      rw [htext] at h
      simpa using ih (parse_inSingle hc h)

/-- The words that are read stay where they are. -/
theorem Reads.keeps {quoting : Quoting} (h : Reads quoting reading cs out) : reading.words <+: out := by
  have hflush (reading : Reading) : reading.words <+: reading.flush.words := by
    unfold Reading.flush
    split
    · exact List.prefix_append ..
    · exact List.prefix_rfl
  induction h with
  | finish => exact hflush _
  | blank _ _ ih => exact (hflush _).trans ih
  | _ => assumption

/-- Whatever the parser accepts behind `before`, it has read `words` by then and is at the start of a
word. -/
def AtWord (before : List Char) (words : List String) : Prop :=
  ∀ rest out, parseFrom .bare ⟨[], [], false⟩ (before ++ rest) = .ok out →
    parseFrom .bare ⟨words, [], false⟩ rest = .ok out

theorem parse_blank (hc : isAsciiWhitespace c = true)
    (h : parseFrom .bare reading (c :: cs) = .ok out) : parseFrom .bare reading.flush cs = .ok out := by
  unfold parseFrom at h
  obtain ⟨-, -, h⟩ := bind_eq_ok.mp h
  rw [if_pos hc] at h
  obtain ⟨-, h⟩ := ensure_bind_ok.mp h
  obtain ⟨reading', hpush, h⟩ := bind_eq_ok.mp h
  obtain rfl := pushStarted_eq_ok hpush
  obtain ⟨-, -, h⟩ := bind_eq_ok.mp h
  exact h

theorem parse_quoted
    (h : parseFrom .bare reading ((quotePosixSingleWithStyle input style).toList ++ cs) = .ok out) :
    parseFrom .bare (reading.push input.toList) cs = .ok out := by
  rw [toList_quotePosixSingle, List.cons_append, List.append_assoc] at h
  simpa using parse_quoteChars (parse_openSingle h)

theorem flush_quoted (words : List String) (input : String) :
    (Reading.push ⟨words, [], false⟩ input.toList).flush = ⟨words ++ [input], [], false⟩ :=
  congrArg (Reading.mk · [] false) (congrArg (words ++ [·]) String.ofList_toList)

theorem AtWord.quoted {before : List Char} {words : List String} (h : AtWord before words)
    (hc : isAsciiWhitespace c = true) :
    AtWord (before ++ (quotePosixSingleWithStyle input style).toList ++ [c]) (words ++ [input]) := by
  intro rest out hparse
  rw [List.append_assoc, List.append_assoc] at hparse
  have hrest := parse_blank hc (parse_quoted (h _ _ hparse))
  rwa [flush_quoted] at hrest

/-- The shell reads one word, of which nothing is expanded, and so does the parser wherever it accepts
the text as a word of a command. -/
theorem quoted_round_trip (input : String) (style : SingleQuoteEscapeStyle) :
    (∃ word, lex (quotePosixSingleWithStyle input style).toList = some [word] ∧ value word = input ∧
      ∀ mark ∈ word, mark.kind = .literal ∨ mark.kind = .quote) ∧
    (∀ (reading : Reading) (rest : List Char) (out : List String),
      parseFrom .bare reading ((quotePosixSingleWithStyle input style).toList ++ rest) = .ok out →
        parseFrom .bare (reading.push input.toList) rest = .ok out) ∧
    ∀ (before after : List Char) (words out : List String), AtWord before words →
      (∀ c ∈ after.head?, isAsciiWhitespace c = true) →
      parseSimpleCommand (.ofList (before ++ (quotePosixSingleWithStyle input style).toList ++ after)) =
        .ok out →
      words ++ [input] <+: out := by
  refine ⟨?_, fun reading rest out => parse_quoted, fun before after words out hword hafter h => ?_⟩
  · obtain ⟨word, hvalue, -, ⟨-, hkinds⟩, hlex⟩ := readAs_quoted input style
    refine ⟨word, ?_, hvalue, hkinds⟩
    have hread := hlex [] []
    rw [List.append_nil] at hread
    rw [lex, hread, lexFrom.eq_def]
    rfl
  · unfold parseSimpleCommand at h
    obtain ⟨-, h⟩ := ensure_bind_ok.mp h
    rw [String.toList_ofList] at h
    cases after with
    | nil =>
      rw [List.append_nil] at h
      replace h := hword _ _ h
      rw [← List.append_nil (quotePosixSingleWithStyle input style).toList] at h
      cases reads_of_parse (parse_quoted h)
      simp [flush_quoted]
    | cons c rest =>
      rw [← List.singleton_append, ← List.append_assoc] at h
      have hread := @AtWord.quoted style input c before words hword (hafter c rfl) rest out h
      exact (reads_of_parse hread).keeps

/-! ## Command lines -/

/-- `shell_escape` leaves a word of these alone. -/
def isSafe (c : Char) : Bool :=
  isAsciiLower c || isAsciiUpper c || isAsciiDigit c || c ∈ "-_./:@+=".toList

def shellEscape (arg : String) : String :=
  if arg = "" then .ofList [apostrophe, apostrophe]
  else if arg.toList.all isSafe then arg
  else quotePosixSingleWithStyle arg .doubleQuoteBoundary

/-- `command_str`: the arguments, with blanks between them. -/
def commandStr : List String → List Char
  | [] => []
  | [arg] => (shellEscape arg).toList
  | arg :: rest => (shellEscape arg).toList ++ ' ' :: commandStr rest

/-- What means something to the shell or ends a word. -/
def meaningful : List Char :=
  [' ', '\t', apostrophe, quotationMark, Shell.backslash, '\n', ';', '&', '|', '<', '>', '(', ')', '$',
    backquote, '*', '?', '[', '#', '~']

theorem ne_of_safe (h : isSafe c = true) : ∀ d ∈ meaningful, c ≠ d := by
  have hall : (meaningful.all fun d => !isSafe d) = true := by decide
  rintro d hd rfl
  simpa [h] using List.all_eq_true.mp hall c hd

/-- A word of safe characters stands for itself. -/
theorem lexFrom_safe {words : List Word} {word : Option Word} (hx : ∀ c ∈ x, isSafe c = true) :
    lexFrom .bare words word (x ++ cs) =
      lexFrom .bare words (x.foldl (fun word c => extend word [⟨c, .bare⟩]) word) cs := by
  induction x generalizing word with
  | nil => rfl
  | cons c x ih =>
    have hne := ne_of_safe (hx c List.mem_cons_self)
    simp only [meaningful, List.forall_mem_cons] at hne
    obtain ⟨hspace, htab, hsingle, hdouble, hescape, -⟩ := hne
    rw [List.cons_append, lexFrom_bare (by simp [isBlank, hspace, htab]) hsingle hdouble hescape]
    exact ih fun d hd => hx d (List.mem_cons_of_mem _ hd)

theorem foldl_extend (word : Word) (x : List Char) :
    x.foldl (fun word c => extend word [⟨c, .bare⟩]) (some word) =
      some (word ++ x.map fun c => ⟨c, .bare⟩) := by
  induction x generalizing word with
  | nil => simp
  | cons c x ih =>
    refine (ih (word ++ [⟨c, .bare⟩])).trans ?_
    rw [List.append_assoc]
    rfl

theorem chars_bare (x : List Char) : chars (x.map fun c => ⟨c, .bare⟩) = x := by
  induction x with
  | nil => rfl
  | cons c x ih => exact congrArg (c :: ·) ih

/-- A reserved word or an assignment: at the start of a command it does not name the command. -/
def isKeyword (word : Word) : Bool := isReserved word || isAssignment word

/-- The word that the shell reads when the argument is printed without quotes. -/
def bareWord (arg : String) : Word := arg.toList.map fun c => ⟨c, .bare⟩

/-- `shell_escape` prints the argument without quotes, and it is a reserved word or an assignment. -/
def isBareKeyword (arg : String) : Bool := arg.toList.all isSafe && isKeyword (bareWord arg)

theorem isKeyword_quoted {word : Word} (h : word.head? = some ⟨apostrophe, .quote⟩) :
    isKeyword word = false := by
  obtain ⟨marks, rfl⟩ := List.head?_eq_some_iff.mp h
  simp [isKeyword, isReserved, isAssignment, isEquals, isName]

/-- The shell reads an argument as one word, and nothing in it is special. -/
theorem readAs_shellEscape (arg : String) : ReadAs (shellEscape arg).toList arg fun word =>
    isKeyword word = isBareKeyword arg ∧ ∀ mark ∈ word, mark.isSpecial = false := by
  have hquoted (style : SingleQuoteEscapeStyle) (h : isBareKeyword arg = false) :
      ReadAs (quotePosixSingleWithStyle arg style).toList arg fun word =>
        isKeyword word = isBareKeyword arg ∧ ∀ mark ∈ word, mark.isSpecial = false := by
    obtain ⟨word, hvalue, hstart, ⟨hhead, hkinds⟩, hlex⟩ := readAs_quoted arg style
    refine ⟨word, hvalue, hstart, ⟨(isKeyword_quoted hhead).trans h.symm, fun mark hmark => ?_⟩, hlex⟩
    rcases hkinds mark hmark with h | h <;> simp [Mark.isSpecial, h]
  unfold shellEscape
  split
  case isTrue hempty =>
    have hsame := hquoted .backslash (hempty ▸ by decide)
    rwa [quotePosixSingleWithStyle, if_pos hempty] at hsame
  case isFalse hempty =>
    split
    case isTrue hsafe =>
      have hbare : isKeyword (bareWord arg) = isBareKeyword arg := by rw [isBareKeyword, hsafe, Bool.true_and]
      rw [List.all_eq_true] at hsafe
      have hne (c : Char) (hc : c ∈ arg.toList) := ne_of_safe (hsafe c hc)
      refine ⟨bareWord arg, ?_, ?_, ⟨hbare, ?_⟩, fun words rest => ?_⟩
      · exact (congrArg String.ofList (chars_bare _)).trans String.ofList_toList
      · unfold bareWord
        cases hx : arg.toList with
        | nil => rfl
        | cons c x =>
          have h := hne c (hx ▸ List.mem_cons_self)
          simp only [meaningful, List.forall_mem_cons] at h
          simp [startsSpecial, h]
      · intro mark hmark
        obtain ⟨c, hc, rfl⟩ := List.mem_map.mp hmark
        have h := hne c hc
        simp only [meaningful, List.forall_mem_cons] at h
        simp [Mark.isSpecial, isSpecial, h]
      · rw [lexFrom_safe hsafe, bareWord]
        cases hx : arg.toList with
        | nil => exact absurd (String.toList_eq_nil_iff.mp hx) hempty
        | cons c x => exact congrArg (lexFrom .bare words · rest) (foldl_extend [⟨c, .bare⟩] x)
    case isFalse hunsafe =>
      refine hquoted .doubleQuoteBoundary ?_
      rw [isBareKeyword, Bool.eq_false_iff.mpr hunsafe, Bool.false_and]

/-- The words of a line of arguments, and which of them are reserved words or assignments. -/
theorem lexFrom_commandStr {argv : List String} (before : List Word) (h : argv ≠ []) : ∃ words,
    lexFrom .bare before none (commandStr argv) = some (before ++ words) ∧ words.map value = argv ∧
      Unspecial words ∧ words.map isKeyword = argv.map isBareKeyword := by
  induction argv generalizing before with
  | nil => exact absurd rfl h
  | cons arg rest ih =>
    obtain ⟨word, hvalue, hstart, ⟨hkeyword, hmarks⟩, hlex⟩ := readAs_shellEscape arg
    have hword : Unspecial [word] := fun w hw => List.mem_singleton.mp hw ▸ ⟨hstart, hmarks⟩
    cases rest with
    | nil =>
      refine ⟨[word], ?_, by simp [hvalue], hword, by simp [hkeyword]⟩
      have hend := hlex before []
      rw [List.append_nil] at hend
      rw [commandStr, hend, lexFrom.eq_def]
      rfl
    | cons next rest =>
      obtain ⟨words, hwords, hvalues, hunspecial, hkeywords⟩ :=
        ih (before ++ [word]) (List.cons_ne_nil _ _)
      refine ⟨word :: words, ?_, by simp [hvalue, hvalues], fun w hw => ?_, ?_⟩
      · rw [commandStr, hlex, lexFrom_blank rfl]
        · simpa using hwords
        · exact List.cons_ne_nil _ _
      · rcases List.mem_cons.mp hw with rfl | hw
        · exact ⟨hstart, hmarks⟩
        · exact hunspecial w hw
      · rw [List.map_cons, hkeyword, hkeywords, List.map_cons (l := next :: rest)]

/-- The shell reads a command line as exactly the arguments that it was made of, expands nothing in
them, and starts no other command. The first argument names the command that is run, and the others
are its arguments, just when it is not printed as a reserved word or an assignment. -/
theorem command_line_round_trip (argv : List String) :
    ∃ words, lex (commandStr argv) = some words ∧ words.map value = argv ∧ Unspecial words ∧
      (Simple words ∧ words.takeWhile isAssignment = [] ↔
        ∃ name rest, argv = name :: rest ∧ isBareKeyword name = false) := by
  cases argv with
  | nil =>
    refine ⟨[], by rw [commandStr, lex, lexFrom.eq_def]; rfl, rfl, by simp [Unspecial], ?_⟩
    simp [Simple]
  | cons arg rest =>
    obtain ⟨words, hlex, hvalues, hunspecial, hkeyword⟩ :=
      lexFrom_commandStr [] (List.cons_ne_nil arg rest)
    refine ⟨words, hlex, hvalues, hunspecial, ?_⟩
    cases words with
    | nil => cases hvalues
    | cons first others =>
      obtain ⟨hfirst, -⟩ := List.cons.inj hkeyword
      simp [Simple, ← hfirst, isKeyword, List.takeWhile_cons]

example : isBareKeyword "A=b" = true ∧ isBareKeyword "if" = true ∧ isBareKeyword "A b=c" = false := by
  decide

end NilsCli.ReadOnly
