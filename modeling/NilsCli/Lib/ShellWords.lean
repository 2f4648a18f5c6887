import NilsCli.Lib.Text

/-!
# Words of a POSIX shell

How a POSIX shell reads a command: `lex` recognizes the words and removes the quotes, and records for
each character that is left how it was quoted, and where a quote was opened.
-/

namespace Lib.Shell

def apostrophe : Char := Char.ofNat 0x27
def quotationMark : Char := Char.ofNat 0x22
def backslash : Char := Char.ofNat 0x5C
def backquote : Char := Char.ofNat 0x60

/-- What surrounds a character. -/
inductive Quoting where
  | bare
  | single
  | double

inductive Kind where
  | bare
  | literal
  | active
  | quote
  deriving DecidableEq

structure Mark where
  char : Char
  kind : Kind

abbrev Word := List Mark

/-- The characters that quote removal leaves. -/
def chars (word : Word) : List Char :=
  word.filterMap fun mark => if mark.kind = .quote then none else some mark.char

def value (word : Word) : String := .ofList (chars word)

/-- Outside quotes only these separate words. -/
def isBlank (c : Char) : Bool := c = ' ' || c = '\t'

def isEscapable (c : Char) : Bool :=
  c = '$' || c = backquote || c = quotationMark || c = backslash

def isActive (c : Char) : Bool := c = '$' || c = backquote

def extend (word : Option Word) (marks : List Mark) : Option Word := some (word.getD [] ++ marks)

def lexFrom : Quoting → List Word → Option Word → List Char → Option (List Word)
  | .bare, words, word, [] => some (words ++ word.toList)
  | .single, _, _, [] => none
  | .double, _, _, [] => none
  | .bare, words, word, c :: cs =>
    if isBlank c then lexFrom .bare (words ++ word.toList) none cs
    else if c = apostrophe then lexFrom .single words (extend word [⟨c, .quote⟩]) cs
    else if c = quotationMark then lexFrom .double words (extend word [⟨c, .quote⟩]) cs
    else if c = backslash then
      match cs with
      | [] => none
      | next :: cs =>
        if next = '\n' then lexFrom .bare words word cs
        else lexFrom .bare words (extend word [⟨next, .literal⟩]) cs
    else lexFrom .bare words (extend word [⟨c, .bare⟩]) cs
  | .single, words, word, c :: cs =>
    if c = apostrophe then lexFrom .bare words word cs
    else lexFrom .single words (extend word [⟨c, .literal⟩]) cs
  | .double, words, word, c :: cs =>
    if c = quotationMark then lexFrom .bare words word cs
    else if c = backslash then
      match cs with
      | [] => none
      | next :: cs =>
        if next = '\n' then lexFrom .double words word cs
        else if isEscapable next then lexFrom .double words (extend word [⟨next, .literal⟩]) cs
        else lexFrom .double words (extend word [⟨c, .literal⟩, ⟨next, .literal⟩]) cs
    else if isActive c then lexFrom .double words (extend word [⟨c, .active⟩]) cs
    else lexFrom .double words (extend word [⟨c, .literal⟩]) cs

section

variable {words : List Word} {word : Option Word} {c next : Char} {cs : List Char}

theorem lexFrom_blank (h : isBlank c = true) :
    lexFrom .bare words word (c :: cs) = lexFrom .bare (words ++ word.toList) none cs := by
  rw [lexFrom.eq_def]
  exact if_pos h

theorem lexFrom_bare (hblank : isBlank c = false) (hsingle : c ≠ apostrophe)
    (hdouble : c ≠ quotationMark) (hescape : c ≠ backslash) :
    lexFrom .bare words word (c :: cs) = lexFrom .bare words (extend word [⟨c, .bare⟩]) cs := by
  rw [lexFrom.eq_def]
  simp only [hblank, hsingle, hdouble, hescape, Bool.false_eq_true, if_false]

theorem lexFrom_openSingle : lexFrom .bare words word (apostrophe :: cs) =
    lexFrom .single words (extend word [⟨apostrophe, .quote⟩]) cs := by
  rw [lexFrom.eq_def]
  rfl

theorem lexFrom_openDouble : lexFrom .bare words word (quotationMark :: cs) =
    lexFrom .double words (extend word [⟨quotationMark, .quote⟩]) cs := by
  rw [lexFrom.eq_def]
  rfl

theorem lexFrom_closeDouble :
    lexFrom .double words word (quotationMark :: cs) = lexFrom .bare words word cs := by
  rw [lexFrom.eq_def]
  rfl

theorem lexFrom_escape (h : next ≠ '\n') :
    lexFrom .bare words word (backslash :: next :: cs) =
      lexFrom .bare words (extend word [⟨next, .literal⟩]) cs := if_neg h

theorem lexFrom_single (h : c ≠ apostrophe) :
    lexFrom .single words word (c :: cs) = lexFrom .single words (extend word [⟨c, .literal⟩]) cs :=
  if_neg h

theorem lexFrom_double (hdouble : c ≠ quotationMark) (hescape : c ≠ backslash)
    (hactive : isActive c = false) :
    lexFrom .double words word (c :: cs) =
      lexFrom .double words (extend word [⟨c, .literal⟩]) cs := by
  rw [lexFrom.eq_def]
  simp only [hdouble, hescape, hactive, Bool.false_eq_true, if_false]

theorem lexFrom_doubleLine :
    lexFrom .double words word (backslash :: '\n' :: cs) = lexFrom .double words word cs := rfl

theorem lexFrom_doubleEscape (hline : next ≠ '\n') (h : isEscapable next = true) :
    lexFrom .double words word (backslash :: next :: cs) =
      lexFrom .double words (extend word [⟨next, .literal⟩]) cs := (if_neg hline).trans (if_pos h)

theorem lexFrom_doubleKeep (hline : next ≠ '\n') (h : isEscapable next = false) :
    lexFrom .double words word (backslash :: next :: cs) =
      lexFrom .double words (extend word [⟨backslash, .literal⟩, ⟨next, .literal⟩]) cs :=
  (if_neg hline).trans (if_neg (by simp [h]))

end

/-- The words of a command. -/
def lex (text : List Char) : Option (List Word) := lexFrom .bare [] none text

/-! ## Simple commands -/

def isSpecial (c : Char) : Bool :=
  c = '\n' || c = ';' || c = '&' || c = '|' || c = '<' || c = '>' || c = '(' || c = ')' ||
    c = '$' || c = backquote || c = '*' || c = '?' || c = '['

def Mark.isSpecial (mark : Mark) : Bool :=
  mark.kind = .active || (mark.kind = .bare && Shell.isSpecial mark.char)

def startsSpecial (word : Word) : Bool :=
  match word with
  | ⟨c, .bare⟩ :: _ => c = '#' || c = '~'
  | _ => false

def reservedWords : List String :=
  ["!", "\x7b", "\x7d", "case", "do", "done", "elif", "else", "esac", "fi", "for", "if", "in",
    "then", "until", "while"]

def isReserved (word : Word) : Bool :=
  word.all (fun mark => mark.kind = .bare) && value word ∈ reservedWords

def isName (name : Word) : Bool :=
  name.all (fun mark => mark.kind = .bare &&
    (isAsciiLower mark.char || isAsciiUpper mark.char || isAsciiDigit mark.char ||
      mark.char = '_')) &&
    match name with
    | [] => false
    | mark :: _ => !isAsciiDigit mark.char

def isEquals (mark : Mark) : Bool := mark.kind = .bare && mark.char = '='

def isAssignment (word : Word) : Bool :=
  isName (word.takeWhile (!isEquals ·)) && word.any isEquals

def hasTilde : Bool → Word → Bool
  | _, [] => false
  | atStart, mark :: rest =>
    (atStart && mark.kind = .bare && mark.char = '~') ||
      hasTilde (mark.kind = .bare && mark.char = ':') rest

def assignsTilde (word : Word) : Bool :=
  isAssignment word && hasTilde true ((word.dropWhile (!isEquals ·)).drop 1)

def Simple (words : List Word) : Prop := ∃ first rest, words = first :: rest ∧ isReserved first = false

/-- None of the assignments in front of the command name has a tilde prefix in its value. -/
def PlainAssignments (words : List Word) : Prop :=
  ∀ word ∈ words.takeWhile isAssignment, assignsTilde word = false

def Unspecial (words : List Word) : Prop :=
  ∀ word ∈ words, startsSpecial word = false ∧ ∀ mark ∈ word, mark.isSpecial = false

end Lib.Shell
