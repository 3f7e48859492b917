/-!
# Identifiers and property keys of TypeScript

Every name can be turned into an identifier, though not in a reversible way; and
every name can be a property key, in quotes where it is no identifier.
-/

namespace SpecForm.Naming

def reservedWords : List String :=
  ["break", "case", "catch", "class", "const", "continue", "debugger", "default", "delete",
   "do", "else", "enum", "export", "extends", "false", "finally", "for", "function", "if",
   "import", "in", "instanceof", "new", "null", "return", "super", "switch", "this", "throw",
   "true", "try", "typeof", "var", "void", "while", "with", "yield", "let", "static",
   "implements", "interface", "package", "private", "protected", "public", "await", "async"]

def isReserved (name : String) : Bool := reservedWords.contains name

def isIdentifierChar (c : Char) : Bool := c.isAlphanum || c = '_' || c = '$'

def isIdentifierStart (c : Char) : Bool := c.isAlpha || c = '_' || c = '$'

def needsQuoting (name : String) : Bool :=
  match name.toList with
  | [] => true
  | first :: rest => !isIdentifierStart first || !rest.all isIdentifierChar

def escapeQuoted : List Char → List Char
  | [] => []
  | c :: rest =>
      if c = '\\' then '\\' :: '\\' :: escapeQuoted rest
      else if c = '\x22' then '\\' :: '\x22' :: escapeQuoted rest
      else c :: escapeQuoted rest

def quoted (text : String) : String := "\"" ++ String.ofList (escapeQuoted text.toList) ++ "\""

def propertyKey (name : String) : String := if needsQuoting name then quoted name else name

/-- Keeps identifier characters.  A `-`, `.` or blank is dropped and makes the
next kept character a capital, except at the start. -/
def identifierChars (started raiseNext : Bool) : List Char → List Char
  | [] => []
  | c :: rest =>
      if c = '-' || c = '.' || c = ' ' then identifierChars started started rest
      else if isIdentifierChar c then
        (if raiseNext then c.toUpper else c) :: identifierChars true false rest
      else identifierChars started raiseNext rest

/-- A name that would start with a digit or be a reserved word gets a `_` in
front; one that keeps no character is `_empty`. -/
def identifier (name : String) : String :=
  match identifierChars false false name.toList with
  | [] => "_empty"
  | first :: rest =>
      let kept := String.ofList (first :: rest)
      if first.isDigit || isReserved kept then "_" ++ kept else kept

/-! ## Singular forms -/

def endsWithText (ending text : List Char) : Bool := ending.reverse.isPrefixOf text.reverse

def sibilantEndings : List String := ["sses", "xes", "ches", "shes", "zes"]

/-- A guess at the singular of an English plural, by its ending. -/
def singular (word : String) : String :=
  let text := word.toList
  let lowered := text.map Char.toLower
  let dropEnd (count : Nat) : List Char := text.take (text.length - count)
  if endsWithText ['i', 'e', 's'] lowered && 3 < text.length then
    String.ofList (dropEnd 3 ++ ['y'])
  else if sibilantEndings.any fun ending => endsWithText ending.toList lowered then
    String.ofList (dropEnd 2)
  else if endsWithText ['s'] lowered && !endsWithText ['s', 's'] lowered && 1 < text.length then
    String.ofList (dropEnd 1)
  else word

end SpecForm.Naming
