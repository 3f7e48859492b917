import SpecForm.Json.Pointer
import SpecForm.Proofs.TypeScript.Token

/-!
# The grammar of type texts

A type is made of parts between `|`, a part of operands between `&`, and an operand is a word, a
text in quotes, a type in parentheses, a `Record`, an object type, or an operand before `[]`.
The parser goes down these levels and is bounded by the number of tokens.
-/

namespace SpecForm.TypeScript

/-! ## Words -/

def isNameChar (c : Char) : Bool := Naming.isIdentifierChar c || 128 ≤ c.toNat

/-- An identifier; characters beyond the basic ones are taken as they are. -/
def isTypeName (text : String) : Bool :=
  text.toList.head?.any (!·.isDigit) && text.toList.all isNameChar

def Primitive.all : List Primitive := [.string, .number, .boolean, .null, .unknown, .file]

def integer? (word : String) : Option Int :=
  match word.toList with
  | '-' :: digits =>
      (Json.Pointer.strictIndex? (String.ofList digits)).map fun (n : Nat) => -(n : Int)
  | _ => (Json.Pointer.strictIndex? word).map Int.ofNat

def ofWord? (word : String) : Option TypeExpr :=
  if word = "true" then some (.literal (.bool true))
  else if word = "false" then some (.literal (.bool false))
  else if word = "Record" then none
  else match Primitive.all.find? (·.text = word) with
    | some name => some (.primitive name)
    | none =>
        if isTypeName word then some (.named word)
        else (integer? word).map fun value => .literal (.int value)

def Token.memberName? : Token → Option String
  | .word text => if Naming.needsQuoting text then none else some text
  | .quoted text => some text
  | .mark _ => none

/-! ## The grammar -/

inductive Phrase where
  | operand (type : TypeExpr)
  | part (type : TypeExpr)
  | type (type : TypeExpr)
  | member (name : String) (optional : Bool) (type : TypeExpr)

def gathered (join : List TypeExpr → TypeExpr) : List TypeExpr → TypeExpr
  | [type] => type
  | types => join types

def between (mark : Char) (chunks : List (List Token)) : List Token :=
  List.intercalate [.mark mark] chunks

def optionalMark (optional : Bool) : List Token := if optional then [.mark '?'] else []

def Phrase.ofMember (member : String × Bool × TypeExpr) : Phrase :=
  .member member.1 member.2.1 member.2.2

inductive Reads : List Token → Phrase → Prop where
  | word {word : String} {type : TypeExpr} : ofWord? word = some type →
      Reads [.word word] (.operand type)
  | quoted (text : String) : Reads [.quoted text] (.operand (.literal (.string text)))
  | group {tokens : List Token} {type : TypeExpr} : Reads tokens (.type type) →
      Reads (.mark '(' :: (tokens ++ [.mark ')'])) (.operand type)
  | array {tokens : List Token} {item : TypeExpr} : Reads tokens (.operand item) →
      Reads (tokens ++ [.mark '[', .mark ']']) (.operand (.array item))
  | record {keyTokens valueTokens : List Token} {key value : TypeExpr} :
      Reads keyTokens (.type key) → Reads valueTokens (.type value) →
      Reads (.word "Record" :: .mark '<' ::
        (keyTokens ++ .mark ',' :: (valueTokens ++ [.mark '>']))) (.operand (.record key value))
  | object {chunks : List (List Token × String × Bool × TypeExpr)} :
      (∀ chunk ∈ chunks, Reads chunk.1 (.ofMember chunk.2)) →
      Reads (.mark '\x7b' :: (between ';' (chunks.map Prod.fst) ++ [.mark '\x7d']))
        (.operand (.object (chunks.map Prod.snd)))
  | member {key : Token} {name : String} {tokens : List Token} {type : TypeExpr}
      (optional : Bool) : key.memberName? = some name → Reads tokens (.type type) →
      Reads (key :: (optionalMark optional ++ .mark ':' :: tokens)) (.member name optional type)
  | part {chunks : List (List Token × TypeExpr)} : chunks ≠ [] →
      (∀ chunk ∈ chunks, Reads chunk.1 (.operand chunk.2)) →
      Reads (between '&' (chunks.map Prod.fst))
        (.part (gathered .intersection (chunks.map Prod.snd)))
  | type {chunks : List (List Token × TypeExpr)} : chunks ≠ [] →
      (∀ chunk ∈ chunks, Reads chunk.1 (.part chunk.2)) →
      Reads (between '|' (chunks.map Prod.fst)) (.type (gathered .union (chunks.map Prod.snd)))

/-! ## The parser -/

abbrev Parser (α : Type) := List Token → Option (α × List Token)

def expect (mark : Char) : List Token → Option (List Token)
  | .mark found :: rest => if found = mark then some rest else none
  | _ => none

def separatedWithin {α : Type} (mark : Char) (item : Parser α) : Nat → Parser (List α)
  | 0, _ => none
  | limit + 1, tokens => do
      let (value, rest) ← item tokens
      match expect mark rest with
      | some rest => do
          let (values, rest) ← separatedWithin mark item limit rest
          some (value :: values, rest)
      | none => some ([value], rest)

def separated {α : Type} (mark : Char) (item : Parser α) : Parser (List α) := fun tokens =>
  separatedWithin mark item (tokens.length + 1) tokens

def suffixed (type : TypeExpr) : List Token → TypeExpr × List Token
  | .mark '[' :: .mark ']' :: rest => suffixed (.array type) rest
  | rest => (type, rest)

def optionalFirst (tokens : List Token) : Bool × List Token :=
  match expect '?' tokens with
  | some rest => (true, rest)
  | none => (false, tokens)

section

variable (inner : Parser TypeExpr)

def parseMember : Parser (String × Bool × TypeExpr)
  | [] => none
  | key :: rest => do
      let name ← key.memberName?
      let (optional, rest) := optionalFirst rest
      let rest ← expect ':' rest
      let (type, rest) ← inner rest
      some ((name, optional, type), rest)

def parseMembers : Parser (List (String × Bool × TypeExpr)) := fun tokens =>
  match expect '\x7d' tokens with
  | some rest => some ([], rest)
  | none => do
      let (members, rest) ← separated ';' (parseMember inner) tokens
      let rest ← expect '\x7d' rest
      some (members, rest)

def parseRecord : Parser TypeExpr := fun tokens => do
  let rest ← expect '<' tokens
  let (key, rest) ← inner rest
  let rest ← expect ',' rest
  let (value, rest) ← inner rest
  let rest ← expect '>' rest
  some (.record key value, rest)

def parseGroup : Parser TypeExpr := fun tokens => do
  let (type, rest) ← inner tokens
  let rest ← expect ')' rest
  some (type, rest)

def parseAtom : Parser TypeExpr
  | .quoted text :: rest => some (.literal (.string text), rest)
  | .word word :: rest =>
      if word = "Record" then parseRecord inner rest else (ofWord? word).map (·, rest)
  | .mark mark :: rest =>
      if mark = '(' then parseGroup inner rest
      else if mark = '\x7b' then
        (parseMembers inner rest).map fun (members, rest) => (.object members, rest)
      else none
  | [] => none

def parseOperand : Parser TypeExpr := fun tokens =>
  (parseAtom inner tokens).map fun (type, rest) => suffixed type rest

def parsePart : Parser TypeExpr := fun tokens =>
  (separated '&' (parseOperand inner) tokens).map fun (types, rest) =>
    (gathered .intersection types, rest)

def parseType : Parser TypeExpr := fun tokens =>
  (separated '|' (parsePart inner) tokens).map fun (types, rest) =>
    (gathered .union types, rest)

end

/-- Types that are nested in one another at most so often. -/
def typeWithin : Nat → Parser TypeExpr
  | 0 => fun _ => none
  | depth + 1 => parseType (typeWithin depth)

def parseTokens (tokens : List Token) : Option TypeExpr :=
  match typeWithin (tokens.length + 1) tokens with
  | some (type, []) => some type
  | _ => none

def parse (text : String) : Option TypeExpr := (lex text).bind parseTokens

end SpecForm.TypeScript
