import TemplateCheck.Value

/-!
# Values in source notation

Binary strings are quoted with their family's letter, both character families with double quotes.
Lists and assignment notation stand in braces with a blank inside each brace.
-/

namespace TemplateCheck

def BinaryFamily.letter : BinaryFamily → String
  | .bit => "B"
  | .hex => "H"
  | .octet => "O"

def StringFamily.quote : StringFamily → String → String
  | .binary family, text => "'" ++ text ++ "'" ++ family.letter
  | .character _, text => "\"" ++ text ++ "\""

def braced (items : List String) : String := "\x7b " ++ ", ".intercalate items ++ " \x7d"

mutual

def Value.text : Value → String
  | .erroneous => "<erroneous>"
  | .omitted => "omit"
  | .notUsed => "-"
  | .null => "null"
  | .boolean flag => toString flag
  | .integer number => toString number
  | .real number => number.text
  | .enumerated item => item
  | .string family text => family.quote text
  | .list items => braced (Value.texts items)
  | .fields entries => braced (Value.entryTexts entries)
  | .ref reference => reference.text
  | .expr text => text

def Value.texts : List Value → List String
  | [] => []
  | item :: items => item.text :: Value.texts items

def Value.entryTexts : List (String × Value) → List String
  | [] => []
  | (name, value) :: entries => (name ++ " := " ++ value.text) :: Value.entryTexts entries

def Reference.text : Reference → String
  | ⟨name, _, path, args, _⟩ => name ++ Reference.argsText args ++ Reference.pathText path

def Reference.argsText : Option (List Value) → String
  | none => ""
  | some args => "(" ++ ", ".intercalate (Value.texts args) ++ ")"

def Reference.pathText : List PathStep → String
  | [] => ""
  | .field name :: path => "." ++ name ++ Reference.pathText path
  | .index value :: path => "[" ++ value.text ++ "]" ++ Reference.pathText path

end

end TemplateCheck
