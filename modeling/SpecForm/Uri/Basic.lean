/-!
# URIs

A URI is kept in parts.  The authority is the text between `//` and the path,
and `none` where there is no `//`.  A path that does not start with `/` belongs
to a URI such as `urn:isbn:1`, which nothing can be resolved against except a
fragment.
-/

namespace SpecForm

structure Uri where
  scheme : String
  authority : Option String
  path : String
  query : Option String
  fragment : Option String
  deriving DecidableEq, Repr

namespace Uri

inductive ParseError where
  | emptyHost
  | invalidDomain
  | invalidPort
  | invalidIpv4
  | invalidIpv6
  | invalidHostCharacter
  | relativeWithoutBase
  | relativeToRootless
  deriving DecidableEq, Repr

def ParseError.message : ParseError → String
  | .emptyHost => "empty host"
  | .invalidDomain => "invalid international domain name"
  | .invalidPort => "invalid port number"
  | .invalidIpv4 => "invalid IPv4 address"
  | .invalidIpv6 => "invalid IPv6 address"
  | .invalidHostCharacter => "invalid domain character"
  | .relativeWithoutBase => "relative URL without a base"
  | .relativeToRootless => "relative URL with a cannot-be-a-base base"

/-- The schemes whose URIs always have a host (`file` apart) and a path. -/
inductive SchemeKind where
  | file | special | other
  deriving DecidableEq, Repr

def schemeKind (scheme : String) : SchemeKind :=
  if scheme = "file" then .file
  else if ["http", "https", "ws", "wss", "ftp"].contains scheme then .special
  else .other

def SchemeKind.isSpecial (kind : SchemeKind) : Bool := kind ≠ .other

def defaultPort (scheme : String) : Option Nat :=
  [("http", 80), ("ws", 80), ("https", 443), ("wss", 443), ("ftp", 21)].lookup scheme

def isRootless (uri : Uri) : Bool :=
  uri.authority.isNone && uri.path.toList.head? != some '/'

/-- Everything before the query.  Without an authority a path that starts with
`//` is kept from being read as one by a leading `/.`. -/
def renderBase (uri : Uri) : String :=
  match uri.authority with
  | some authority => uri.scheme ++ "://" ++ authority ++ uri.path
  | none =>
      if ['/', '/'].isPrefixOf uri.path.toList then uri.scheme ++ ":/." ++ uri.path
      else uri.scheme ++ ":" ++ uri.path

def render (uri : Uri) : String :=
  uri.renderBase ++ (uri.query.elim "" ("?" ++ ·)) ++ (uri.fragment.elim "" ("#" ++ ·))

end Uri

end SpecForm
