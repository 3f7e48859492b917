import SpecForm.Uri.Parse

/-!
# Files and URIs

A document is named by an absolute URI.  A name that is no URI is a path in the
file system, made absolute against the current directory; its `..` segments
stay, since the file system may give them another meaning.
-/

namespace SpecForm.Uri

inductive AbsoluteError where
  | invalid (cause : ParseError)
  | emptyPath
  deriving DecidableEq, Repr

/-- Whether a name is a URI rather than a path.  A scheme of one letter would be
a drive. -/
def looksLikeUri (name : String) : Bool :=
  match Text.cutAt? [':', '/', '/'] name.toList with
  | some (scheme, _) =>
      1 < scheme.length && scheme.all fun c => c.isAlphanum || ['+', '-', '.'].contains c
  | none => ['u', 'r', 'n', ':'].isPrefixOf name.toList

def pathSegments (path : List Char) : List (List Char) :=
  (path.splitOn '/').filter fun segment => segment ≠ [] && segment ≠ ['.']

def ofPath (path : List Char) : String :=
  match pathSegments path with
  | [] => "file:///"
  | segments =>
      "file://" ++ String.ofList (segments.flatMap fun segment =>
        '/' :: Text.Percent.encode escapedInSegment segment)

def absolute (directory name : String) : Except AbsoluteError String :=
  if looksLikeUri name then
    match parse name with
    | .ok uri => .ok uri.render
    | .error cause => .error (.invalid cause)
  else match name.toList with
    | [] => .error .emptyPath
    | '/' :: rest => .ok (ofPath ('/' :: rest))
    | path => .ok (ofPath (directory.toList ++ '/' :: path))

/-- What a reference means at a base.  A base that is no URI is left out of
account. -/
def resolve? (base reference : String) : Option String :=
  match parse base with
  | .ok uri => (uri.join reference).toOption.map render
  | .error _ => (parse reference).toOption.map render

def extension? (uri : String) : Option String :=
  let path := Text.before '?' (Text.before '#' uri.toList)
  (Text.cutLast? '.' (Text.afterLast '/' path)).map fun (_, extension) =>
    String.ofList (extension.map Char.toLower)

/-- The path of a file on this machine as bytes; `none` if the URI names another
host.  A drive letter at the end gets a slash. -/
def filePath? (uri : Uri) : Option (List UInt8) :=
  if uri.authority.any fun host => host ≠ "" && host ≠ "localhost" then none
  else
    let bytes := Text.Percent.decode uri.path.toList
    let isLetter (byte : UInt8) : Bool := (Char.ofNat byte.toNat).isAlpha
    match bytes.reverse with
    | mark :: letter :: _ =>
        if isLetter letter && (mark = 58 || mark = 124) then some (bytes ++ [47])
        else some bytes
    | _ => some bytes

end SpecForm.Uri
