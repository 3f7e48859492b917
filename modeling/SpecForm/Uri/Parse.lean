import SpecForm.Uri.Host
import SpecForm.Uri.Path

/-!
# Reading URIs

A reference is read against a base, or on its own when there is none.  What it
leaves out in front, it takes from the base: the scheme, then the authority, the
path and the query.  Control characters and blanks at either end are dropped, as
are tabs and line breaks anywhere.
-/

namespace SpecForm.Uri

def isBlank (c : Char) : Bool := c.toNat ≤ 32

def isDropped (c : Char) : Bool := c = '\t' || c = '\n' || c = '\r'

def clean (text : List Char) : List Char :=
  ((text.dropWhile isBlank).reverse.dropWhile isBlank).reverse.filter (!isDropped ·)

def readScheme? (text : List Char) : Option (String × List Char) :=
  match Text.cut? ':' text with
  | some (first :: rest, back) =>
      if first.isAlpha && rest.all fun c => c.isAlphanum || ['+', '-', '.'].contains c then
        some (String.ofList ((first :: rest).map Char.toLower), back)
      else none
  | _ => none

def isSlash (c : Char) : Bool := c = '/' || c = '\\'

/-! ## The end of a URI -/

def readTail (kind : SchemeKind) (text : List Char) : Option String × Option String :=
  let encodeFragment (fragment : List Char) : String :=
    String.ofList (Text.Percent.encode escapedInFragment fragment)
  let encodeQuery (query : List Char) : String :=
    String.ofList (Text.Percent.encode (escapedInQuery kind) query)
  match text with
  | '#' :: fragment => (none, some (encodeFragment fragment))
  | '?' :: rest =>
      match Text.cut? '#' rest with
      | some (query, fragment) => (some (encodeQuery query), some (encodeFragment fragment))
      | none => (some (encodeQuery rest), none)
  | _ => (none, none)

def close (kind : SchemeKind) (scheme : String) (authority : Option String)
    (path : PathState × List Char) : Uri :=
  let (query, fragment) := readTail kind path.2
  ⟨scheme, authority, String.ofList path.1.path, query, fragment⟩

/-! ## Authorities -/

def endsAuthority (kind : SchemeKind) (c : Char) : Bool :=
  c = '/' || c = '?' || c = '#' || (kind.isSpecial && c = '\\')

def renderUserinfo (userinfo : List Char) : List Char :=
  let encoded := Text.Percent.encode escapedInUserinfo
  match Text.cut? ':' userinfo with
  | some ([], []) => []
  | some (user, []) => encoded user ++ ['@']
  | some (user, password) => encoded user ++ ':' :: encoded password ++ ['@']
  | none => encoded userinfo ++ ['@']

def readUserinfo (kind : SchemeKind) (text : List Char) :
    Except ParseError (List Char × List Char) :=
  let authority := text.takeWhile (!endsAuthority kind ·)
  let rest := text.dropWhile (!endsAuthority kind ·)
  match Text.cutLast? '@' authority with
  | none => .ok ([], text)
  | some ([], []) => if rest.isEmpty then .ok ([], []) else .error .emptyHost
  | some ([], host) => .ok ([], host ++ rest)
  | some (userinfo, host) => .ok (renderUserinfo userinfo, host ++ rest)

/-- The text of a host and what follows it; a colon in brackets does not end it. -/
def splitHost (kind : SchemeKind) (bracketed : Bool) : List Char → List Char × List Char
  | [] => ([], [])
  | c :: rest =>
      if endsAuthority kind c || (c = ':' && !bracketed) then ([], c :: rest)
      else
        let (host, later) := splitHost kind (c = '[' || (bracketed && c ≠ ']')) rest
        (c :: host, later)

def readHost (kind : SchemeKind) (text : List Char) : Except ParseError String :=
  if kind = .other then Host.parseOther text
  else if text.isEmpty then .error .emptyHost
  else Host.parseSpecial text

def readPort (scheme : String) (text : List Char) :
    Except ParseError (List Char × List Char) :=
  match text with
  | ':' :: rest =>
      let digits := rest.takeWhile (·.isDigit)
      let later := rest.dropWhile (·.isDigit)
      let port := digits.foldl (fun n c => 10 * n + (c.toNat - '0'.toNat)) 0
      let ended := match later with
        | [] => true
        | c :: _ => isSlash c || c = '?' || c = '#'
      if 65535 < port || !ended then .error .invalidPort
      else if digits.isEmpty || defaultPort scheme = some port then .ok ([], later)
      else .ok (':' :: Nat.toDigits 10 port, later)
  | _ => .ok ([], text)

def readAuthority (scheme : String) (text : List Char) : Except ParseError Uri := do
  let kind := schemeKind scheme
  let (userinfo, text) ← readUserinfo kind text
  let (hostText, text) := splitHost kind false text
  let host ← readHost kind hostText
  if host.isEmpty && (text.head? = some ':' || !userinfo.isEmpty) then
    throw .emptyHost
  let (port, text) ← readPort scheme text
  let authority := String.ofList userinfo ++ host ++ String.ofList port
  return close kind scheme (some authority) (readPathStart kind text)

/-! ## References to files -/

/-- Reads a host after `file://`.  A drive letter is no host but starts the path,
and the host `localhost` is the same as none. -/
def readFileHost (text : List Char) : Except ParseError Uri := do
  let isHostChar (c : Char) : Bool := !(isSlash c || endsPath c)
  let hostText := text.takeWhile isHostChar
  let hostless (start rest : List Char) : Uri :=
    close .file "file" (some "") (readPath .file start rest)
  let rest := text.dropWhile isHostChar
  if isDriveLetter hostText then return hostless ['/'] text
  if hostText.isEmpty then return hostless [] rest
  let host ← Host.parseSpecial hostText
  if host = "localhost" then return hostless [] rest
  let read := readPathStart .file rest
  return close .file "file" (some (if read.1.dropsHost then "" else host)) read

def leadingDrive? (path : String) : Option (List Char) :=
  let segment := (path.toList.drop 1).takeWhile (· ≠ '/')
  if isNormalDriveLetter segment then some ('/' :: segment) else none

/-- Reads a path that starts with one slash: it keeps the drive of the base, or
its host. -/
def readFileRoot (base : Option Uri) (text : List Char) : Uri :=
  let (host, start) :=
    match base with
    | some uri =>
        if startsWithDrive (text.drop 1) then ("", [])
        else match leadingDrive? uri.path with
          | some drive => ("", drive)
          | none => (uri.authority.getD "", [])
    | none => ("", [])
  close .file "file" (some host) (readPath .file start text)

def readFile (base : Option Uri) (text : List Char) : Except ParseError Uri :=
  let fresh := close .file "file" (some "") (readPath .file ['/'] text)
  match text with
  | a :: b :: rest =>
      if isSlash a && isSlash b then readFileHost rest
      else if isSlash a then .ok (readFileRoot base text)
      else .ok (relative fresh)
  | [a] => .ok (if isSlash a then readFileRoot base text else relative fresh)
  | [] => .ok (base.elim fresh ({ · with fragment := none }))
where
  relative (fresh : Uri) : Uri :=
    match base with
    | none => fresh
    | some uri =>
        match text with
        | '#' :: _ => { uri with fragment := (readTail .file text).2 }
        | '?' :: _ =>
            { uri with query := (readTail .file text).1, fragment := (readTail .file text).2 }
        | _ =>
            if startsWithDrive text then fresh
            else
              close .file "file" uri.authority
                (readPath .file (popSegment .file uri.path.toList) text)

/-! ## Other references -/

def readRelative (base : Uri) (text : List Char) : Except ParseError Uri :=
  let kind := schemeKind base.scheme
  match text with
  | [] => .ok { base with fragment := none }
  | '#' :: _ => .ok { base with fragment := (readTail kind text).2 }
  | '?' :: _ =>
      .ok { base with query := (readTail kind text).1, fragment := (readTail kind text).2 }
  | c :: rest =>
      if isSlash c then
        match rest with
        | d :: after =>
            if c = '/' && d = '/' then readAuthority base.scheme after
            else if isSlash d then readAuthority base.scheme (after.dropWhile isSlash)
            else .ok (close kind base.scheme base.authority (readPath kind ['/'] rest))
        | [] => .ok (close kind base.scheme base.authority (readPath kind ['/'] rest))
      else
        let start := popSegment kind base.path.toList
        let start := if start.isEmpty then ['/'] else start
        .ok (close kind base.scheme base.authority (readPath kind start text))

def readOther (scheme : String) (text : List Char) : Except ParseError Uri :=
  match text with
  | '/' :: '/' :: rest => readAuthority scheme rest
  | '/' :: rest => .ok (close .other scheme none (readPath .other ['/'] rest))
  | _ =>
      let path := Text.Percent.encode isControl (text.takeWhile (!endsPath ·))
      .ok (close .other scheme none (⟨path, false⟩, text.dropWhile (!endsPath ·)))

def readAfterScheme (base : Option Uri) (scheme : String) (text : List Char) :
    Except ParseError Uri :=
  let alike := base.filter (·.scheme = scheme)
  match schemeKind scheme with
  | .file => readFile alike text
  | .special =>
      match alike with
      | some uri =>
          if (text.takeWhile isSlash).length < 2 then readRelative uri text
          else readAuthority scheme (text.dropWhile isSlash)
      | none => readAuthority scheme (text.dropWhile isSlash)
  | .other => readOther scheme text

def readReference (base : Option Uri) (reference : String) : Except ParseError Uri :=
  let text := clean reference.toList
  match readScheme? text, base with
  | some (scheme, rest), _ => readAfterScheme base scheme rest
  | none, none => .error .relativeWithoutBase
  | none, some uri =>
      if text.head? = some '#' then
        .ok { uri with fragment := (readTail (schemeKind uri.scheme) text).2 }
      else if uri.isRootless then .error .relativeToRootless
      else if schemeKind uri.scheme = .file then readFile (some uri) text
      else readRelative uri text

def parse (text : String) : Except ParseError Uri := readReference none text

def join (base : Uri) (reference : String) : Except ParseError Uri :=
  readReference (some base) reference

end SpecForm.Uri
