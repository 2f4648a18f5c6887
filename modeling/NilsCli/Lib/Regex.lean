import Mathlib.Data.List.Basic
import NilsCli.Lib.Text

/-!
# Regular expressions

Expressions over classes of characters, with one capture group, and the matcher that a leftmost
search with priorities stands for: `run` lists the ways to match in the order of preference, and
`capturesFrom` takes the first one at the leftmost place, then goes on after it.
-/

namespace Lib

inductive Regex where
  | empty
  | one (class_ : Char → Bool)
  | times (class_ : Char → Bool) (least : Nat) (most : Option Nat) (greedy : Bool)
  | seq (first second : Regex)
  | alt (first second : Regex)
  | group (inner : Regex)

/-- The byte ranges of a match and of its group. -/
structure Captures where
  whole : Nat × Nat
  group : Option (Nat × Nat)

def Captures.get (caps : Captures) : Nat → Option (Nat × Nat)
  | 0 => some caps.whole
  | 1 => caps.group
  | _ => none

namespace Regex

/-- The expression that matches one text. -/
def literal (text : String) : Regex :=
  text.toList.foldr (fun c rest => .seq (.one fun x => x = c) rest) .empty

def concat (parts : List Regex) : Regex := parts.foldr .seq .empty

def anyOf : List Regex → Regex
  | [] => .one fun _ => false
  | [r] => r
  | r :: rs => .alt r (anyOf rs)

def anyCase (class_ : Char → Bool) (c : Char) : Bool :=
  class_ c || (isAsciiUpper c && class_ (Char.ofNat (c.toNat + 32))) ||
    (isAsciiLower c && class_ (Char.ofNat (c.toNat - 32))) ||
    (c.toNat = 0x17F && (class_ 's' || class_ 'S')) ||
    (c.toNat = 0x212A && (class_ 'k' || class_ 'K'))

def literalAnyCase (text : String) : Regex :=
  text.toList.foldr (fun c rest => .seq (.one (anyCase fun x => x = c)) rest) .empty

structure Place where
  pos : Nat
  rest : List Char
  group : Option (Nat × Nat)

def advances (class_ : Char → Bool) : Option Nat → Nat → List Char → List (Nat × List Char)
  | some 0, pos, rest => [(pos, rest)]
  | _, pos, [] => [(pos, [])]
  | most, pos, c :: cs =>
    (pos, c :: cs) ::
      if class_ c then advances class_ (most.map (· - 1)) (pos + c.utf8Size) cs else []

def run : Regex → Place → List Place
  | .empty, place => [place]
  | .one class_, place =>
    match place.rest with
    | [] => []
    | c :: cs => if class_ c then [{ place with pos := place.pos + c.utf8Size, rest := cs }] else []
  | .times class_ least most greedy, place =>
    let ends := (advances class_ most place.pos place.rest).drop least
    let ordered := if greedy then ends.reverse else ends
    ordered.map fun (pos, rest) => { place with pos, rest }
  | .seq first second, place => (run first place).flatMap (run second)
  | .alt first second, place => run first place ++ run second place
  | .group inner, place =>
    (run inner place).map fun last => { last with group := some (place.pos, last.pos) }

def capturesFrom (r : Regex) : Nat → Nat → List Char → List Captures
  | next, pos, [] =>
    if pos < next then []
    else ((run r ⟨pos, [], none⟩).head?.map fun last => ⟨(pos, last.pos), last.group⟩).toList
  | next, pos, c :: cs =>
    let found := if pos < next then none else (run r ⟨pos, c :: cs, none⟩).head?
    match found with
    | none => capturesFrom r next (pos + c.utf8Size) cs
    | some last =>
      ⟨(pos, last.pos), last.group⟩ ::
        capturesFrom r (max last.pos (pos + c.utf8Size)) (pos + c.utf8Size) cs

def capturesIter (r : Regex) (text : String) : List Captures := capturesFrom r 0 0 text.toList

end Regex

end Lib
