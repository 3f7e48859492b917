import SpecForm.Text.CaseTable

/-!
# Letter case

Full case mapping: a character may become several (`ß` is `SS` in upper case),
and a capital sigma at the end of a word becomes the final form.
-/

namespace SpecForm.Text

def upperChar (c : Char) : List Char :=
  if c.toNat < 128 then [c.toUpper]
  else match CaseTable.expansions.lookup c.toNat with
    | some codes => codes.map Char.ofNat
    | none => [(CaseTable.upperRuns.findSome? (·.move? c)).getD c]

def lowerChar (c : Char) : List Char :=
  if c.toNat < 128 then [c.toLower]
  else if c = 'İ' then ['i', '\u0307']
  else [(CaseTable.lowerRuns.findSome? (·.move? c)).getD c]

def startsCased (text : List Char) : Bool :=
  match text.dropWhile CaseTable.caseIgnorable.contains with
  | c :: _ => CaseTable.cased.contains c
  | [] => false

def upper (text : List Char) : List Char := text.flatMap upperChar

/-- `passed` holds the characters before the rest, last one first. -/
def lowerFrom (passed : List Char) : List Char → List Char
  | [] => []
  | c :: rest =>
      (if c = 'Σ' then [if startsCased passed && !startsCased rest then 'ς' else 'σ']
        else lowerChar c) ++ lowerFrom (c :: passed) rest

def lower (text : List Char) : List Char := lowerFrom [] text

def isUpper (text : List Char) : Bool :=
  upper text != lower text && text == upper text

def isLower (text : List Char) : Bool :=
  upper text != lower text && text == lower text

end SpecForm.Text
