import TemplateCheck.StringFamily

/-!
# Which texts are patterns

A binary pattern is written in the digits of its family and the wildcards `?` and `*`; in an octet
pattern digits come in pairs that no wildcard splits. A character pattern is legal when escapes are
complete, character sets are closed, and braces and parentheses outside sets match. Each check
names the first fault it meets.
-/

namespace TemplateCheck

inductive PatternFault where
  | illegalCharacter (character : Char) (family : BinaryFamily)
  | splitOctet (wildcard : Char)
  | oddDigits
  | incompleteEscape
  | nestedBrace
  | unmatchedBrace
  | unmatchedParenthesis
  | openSet
  | openBrace
  | openParenthesis
deriving DecidableEq, Repr, Inhabited

def PatternFault.message : PatternFault → String
  | .illegalCharacter character family =>
    "Invalid character `" ++ character.toString ++ "' in " ++ family.typeName ++ " pattern"
  | .splitOctet wildcard =>
    "Wildcard `" ++ wildcard.toString ++ "' in the middle of an octet in octetstring pattern"
  | .oddDigits => "Odd number of hexadecimal digits in octetstring pattern"
  | .incompleteEscape => "Invalid escape sequence at the end of the pattern"
  | .nestedBrace => "Nested `\x7b' in pattern"
  | .unmatchedBrace => "Unmatched `\x7d' in pattern"
  | .unmatchedParenthesis => "Unmatched `)' in pattern"
  | .openSet => "Missing `]' at the end of the pattern"
  | .openBrace => "Missing `\x7d' at the end of the pattern"
  | .openParenthesis => "Missing `)' at the end of the pattern"

namespace BinaryFamily

def isWildcard (c : Char) : Bool := c = '?' || c = '*'

def isHexDigit (c : Char) : Bool :=
  ('0' ≤ c && c ≤ '9') || ('a' ≤ c && c ≤ 'f') || ('A' ≤ c && c ≤ 'F')

def isDigit : BinaryFamily → Char → Bool
  | .bit, c => c = '0' || c = '1'
  | _, c => isHexDigit c

def digitsFault? (family : BinaryFamily) : List Char → Option PatternFault
  | [] => none
  | c :: rest =>
    if family.isDigit c || isWildcard c then family.digitsFault? rest
    else some (.illegalCharacter c family)

/-- First fault of an octet pattern. `pending` holds after the first digit of a pair. -/
def octetsFault? (pending : Bool) : List Char → Option PatternFault
  | [] => if pending then some .oddDigits else none
  | c :: rest =>
    if isHexDigit c then octetsFault? (!pending) rest
    else if !isWildcard c then some (.illegalCharacter c .octet)
    else if pending then some (.splitOctet c)
    else octetsFault? false rest

def patternFault? (family : BinaryFamily) (text : String) : Option PatternFault :=
  match family with
  | .octet => octetsFault? false text.toList
  | family => family.digitsFault? text.toList

/-- Elements that every match of a pattern has at least. An octet is written as two digits. -/
def minLength (family : BinaryFamily) : List Char → Nat
  | [] => 0
  | '*' :: rest => family.minLength rest
  | '?' :: rest => family.minLength rest + 1
  | _ :: rest =>
    match family, rest with
    | .octet, _ :: rest => BinaryFamily.octet.minLength rest + 1
    | family, rest => family.minLength rest + 1

end BinaryFamily

namespace CharPattern

structure Brackets where
  groups : Nat := 0
  inSet : Bool := false
  inBrace : Bool := false
deriving DecidableEq, Repr, Inhabited

def Brackets.fault? (b : Brackets) : Option PatternFault :=
  if b.inSet then some .openSet
  else if b.inBrace then some .openBrace
  else if 0 < b.groups then some .openParenthesis
  else none

def Brackets.read (b : Brackets) (c : Char) : Except PatternFault Brackets :=
  if b.inSet then .ok { b with inSet := c ≠ ']' }
  else if c = '[' then .ok { b with inSet := true }
  else if c = '\x7b' then
    if b.inBrace then .error .nestedBrace else .ok { b with inBrace := true }
  else if c = '\x7d' then
    if b.inBrace then .ok { b with inBrace := false } else .error .unmatchedBrace
  else if c = '(' then .ok { b with groups := b.groups + 1 }
  else if c = ')' then
    if b.groups = 0 then .error .unmatchedParenthesis else .ok { b with groups := b.groups - 1 }
  else .ok b

def faultFrom? (b : Brackets) : List Char → Option PatternFault
  | [] => b.fault?
  | ['\\'] => some .incompleteEscape
  | '\\' :: _ :: rest => faultFrom? b rest
  | c :: rest =>
    match b.read c with
    | .ok next => faultFrom? next rest
    | .error fault => some fault

def textFault? (text : String) : Option PatternFault := faultFrom? {} text.toList

/-- Characters with a meaning of their own in patterns. -/
def metaCharacters : List Char :=
  ['?', '*', '\\', '[', ']', '\x7b', '\x7d', '#', '+', '|', '(', ')', '^']

/-- Text that matches exactly `text`, character by character. -/
def escape (text : String) : String :=
  String.ofList (text.toList.flatMap fun c => if c ∈ metaCharacters then ['\\', c] else [c])

end CharPattern

end TemplateCheck
