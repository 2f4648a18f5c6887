import Mathlib.Algebra.GroupWithZero.Nat
import NilsCli.Lib.Guard
import NilsCli.Lib.ShellWords

/-!
# The audited command parser

`parse_simple_command` splits a command into words and refuses what a shell would not take
literally.
-/

namespace NilsCli.ReadOnly

open Lib Lib.Shell

variable (c : Char)

def maxCommandBytes : Nat := 32 * 1024
def maxArguments : Nat := 256
def maxArgumentBytes : Nat := 8 * 1024

/-- `HookError::data`. -/
structure HookError where
  code : String
  message : String
  deriving DecidableEq

def rejected (message : String) : HookError := ⟨"read-only-command-unsupported", message⟩

def utf8Len (text : List Char) : Nat := (text.map Char.utf8Size).sum

def isAsciiWhitespace : Bool :=
  c = ' ' || c = '\t' || c = '\n' || c.toNat = 0x0C || c = '\r'

/-- What is refused outside quotes. -/
def isComposition : Bool :=
  c = ';' || c = '&' || c = '|' || c = '<' || c = '>' || c = '(' || c = ')' || c = '$' ||
    c = backquote || c = '*' || c = '?' || c = '[' || c = ']' || c.toNat = 0x7B ||
    c.toNat = 0x7D || c = '#'

/-- The words so far, the word that is being read, and whether it has been started. -/
structure Reading where
  words : List String
  word : List Char
  started : Bool

variable (reading : Reading)

def pushWord : Except HookError Reading := do
  ensure (reading.words.length < maxArguments)
    (rejected "command exceeds the audited argument limit")
  .ok ⟨reading.words ++ [.ofList reading.word], [], false⟩

def pushStarted : Except HookError Reading :=
  if reading.started then pushWord reading else .ok reading

def Reading.push (chars : List Char) : Reading :=
  ⟨reading.words, reading.word ++ chars, true⟩

/-- The check that ends each round. -/
def checkArgument : Except HookError Unit :=
  ensure (utf8Len reading.word ≤ maxArgumentBytes)
    (rejected "command argument exceeds the audited limit")

def checkControl : Except HookError Unit :=
  ensure (¬ (isControl c = true ∧ isAsciiWhitespace c = false))
    (rejected "command contains unsupported control bytes")

def incompleteEscape : HookError := rejected "command ends with an incomplete escape"

def multipleStatements : HookError := rejected "command contains multiple shell statements"

/-- The loop over the characters. -/
def parseFrom : Quoting → Reading → List Char → Except HookError (List String)
  | .bare, reading, [] => do
    let reading ← pushStarted reading
    .ok reading.words
  | .single, _, [] => .error (rejected "command contains an unterminated quote")
  | .double, _, [] => .error (rejected "command contains an unterminated quote")
  | .single, reading, c :: cs => do
    checkControl c
    let next := if c = apostrophe then reading.push [] else reading.push [c]
    checkArgument next
    parseFrom (if c = apostrophe then .bare else .single) next cs
  | .double, reading, c :: cs => do
    checkControl c
    if c = quotationMark then do
      checkArgument (reading.push [])
      parseFrom .bare (reading.push []) cs
    else do
      ensure (isActive c = false) (rejected "command contains shell expansion")
      if c = backslash then
        match cs with
        | [] => .error incompleteEscape
        | escaped :: cs => do
          let next := if escaped = quotationMark ∨ escaped = backslash then reading.push [escaped]
            else reading.push [backslash, escaped]
          checkArgument next
          parseFrom .double next cs
      else do
        ensure (c ≠ '\n' ∧ c ≠ '\r') multipleStatements
        checkArgument (reading.push [c])
        parseFrom .double (reading.push [c]) cs
  | .bare, reading, c :: cs => do
    checkControl c
    if isAsciiWhitespace c then do
      ensure (c ≠ '\n' ∧ c ≠ '\r') multipleStatements
      let reading ← pushStarted reading
      checkArgument reading
      parseFrom .bare reading cs
    else if c = apostrophe ∨ c = quotationMark then do
      checkArgument (reading.push [])
      parseFrom (if c = apostrophe then .single else .double) (reading.push []) cs
    else if c = backslash then
      match cs with
      | [] => .error incompleteEscape
      | escaped :: cs => do
        ensure (escaped ≠ '\n' ∧ escaped ≠ '\r') multipleStatements
        checkArgument (reading.push [escaped])
        parseFrom .bare (reading.push [escaped]) cs
    else do
      ensure (isComposition c = false)
        (rejected "command contains shell composition or expansion")
      ensure (¬ (c = '~' ∧ reading.started = false))
        (rejected "command contains shell expansion")
      checkArgument (reading.push [c])
      parseFrom .bare (reading.push [c]) cs

def parseSimpleCommand (command : String) : Except HookError (List String) := do
  ensure (command.toList ≠ [] ∧ utf8Len command.toList ≤ maxCommandBytes)
    (rejected "command is empty or exceeds the audited command limit")
  parseFrom .bare ⟨[], [], false⟩ command.toList

end NilsCli.ReadOnly
