import BlockLang.Editor.HostAddress
import BlockLang.Text.Utf8

/-!
# URIs

The path of a URI is what is left when scheme, authority, query and fragment are taken off, with
its percent escapes decoded. For some schemes the parameters of the last segment are taken off too.

## Main definitions

* `UriError`: why a URI is refused
* `splitScheme cs`, `splitAuthority cs`: takes off the scheme and the authority
* `unescape cs`: decodes percent escapes
* `uriPath uri`: the path of a URI
-/

namespace BlockLang.Editor

/-- Why a URI is refused. -/
inductive UriError
  | misplacedBrackets
  | invalidFutureAddress
  | octetsInBrackets
  | noAddress (host : String)
  | hiddenDelimiter (authority : String)
  deriving DecidableEq, Repr

namespace UriError

/-- The message about a URI that is refused. -/
def message : UriError → String
  | misplacedBrackets => "Invalid IPv6 URL"
  | invalidFutureAddress => "IPvFuture address is invalid"
  | octetsInBrackets => "An IPv4 address cannot be in brackets"
  | noAddress host => Text.quoted host ++ " does not appear to be an IPv4 or IPv6 address"
  | hiddenDelimiter authority =>
    "netloc '" ++ authority ++ "' contains invalid characters under NFKC normalization"

end UriError

/-- The character can stand in a scheme. -/
def isSchemeChar (c : Char) : Bool := c.isAlphanum || c == '+' || c == '-' || c == '.'

/-- The scheme in lower case, empty if there is none, and what follows it. -/
def splitScheme (cs : List Char) : List Char × List Char :=
  let scheme := cs.takeWhile (· != ':')
  match scheme, cs.drop scheme.length with
  | c :: _, ':' :: rest =>
    if c.isAlpha && scheme.all isSchemeChar then (scheme.map Char.toLower, rest) else ([], cs)
  | _, _ => ([], cs)

/-- The authority, empty if there is none, and what follows it. -/
def splitAuthority (cs : List Char) : List Char × List Char :=
  match cs with
  | '/' :: '/' :: rest =>
    let authority := rest.takeWhile fun c => c != '/' && c != '?' && c != '#'
    (authority, rest.drop authority.length)
  | _ => ([], cs)

/-- The characters whose compatibility form holds a delimiter of URIs. -/
def hiddenDelimiters : List Nat :=
  [8263, 8264, 8265, 8448, 8449, 8453, 8454, 10868, 65043, 65046, 65109, 65110, 65119, 65131, 65283,
   65295, 65306, 65311, 65312]

/-- The host of an authority that holds brackets. It follows the last at sign; if it stands in
brackets, nothing may stand before them, and nothing but a port after them. -/
def hostOf (authority : List Char) : Except UriError (List Char) :=
  let place := (authority.reverse.takeWhile (· != '@')).reverse
  match place with
  | '[' :: inside =>
    let host := inside.takeWhile (· != ']')
    match inside.drop (host.length + 1) with
    | [] => .ok host
    | ':' :: _ => .ok host
    | _ => .error .misplacedBrackets
  | _ =>
    if place.contains '[' then .error .misplacedBrackets
    else .ok (place.takeWhile (· != ':'))

/-- The host of an authority that holds brackets has to be a numeric address of another kind than four
octets. -/
def checkBracketed (host : List Char) : Except UriError Unit :=
  if host.head? = some 'v' then
    if isFutureAddress host then .ok () else .error .invalidFutureAddress
  else if isOctets host then .error .octetsInBrackets
  else if isGroups host then .ok ()
  else .error (.noAddress (String.ofList host))

/-- Checks an authority: its brackets, and that it hides no delimiter. -/
def checkAuthority (authority : List Char) : Except UriError Unit := do
  if authority.contains '[' != authority.contains ']' then throw .misplacedBrackets
  if authority.contains '[' then checkBracketed (← hostOf authority)
  if authority.any fun c => hiddenDelimiters.contains c.toNat then
    throw (.hiddenDelimiter (String.ofList authority))

/-- The schemes whose segments have parameters. -/
def schemesWithParameters : List String :=
  ["", "ftp", "hdl", "prospero", "http", "imap", "https", "shttp", "rtsp", "rtspu", "sip", "sips",
   "mms", "sftp", "tel"]

/-- The path without the parameters of its last segment. -/
def dropParameters (path : List Char) : List Char :=
  let last := (path.reverse.takeWhile (· != '/')).reverse
  path.take (path.length - last.length) ++ last.takeWhile (· != ';')

/-- The number that a hexadecimal digit stands for. -/
def hexValue (c : Char) : Nat :=
  if c.isDigit then c.toNat - 48 else if 'a' ≤ c then c.toNat - 87 else c.toNat - 55

/-- The bytes of an ASCII text, an escape standing for one byte. A percent sign without two
hexadecimal digits stands for itself. -/
def unescapedBytes : List Char → List UInt8
  | '%' :: a :: b :: cs =>
    if isHexDigit a && isHexDigit b then
      UInt8.ofNat (hexValue a * 16 + hexValue b) :: unescapedBytes cs
    else 37 :: unescapedBytes (a :: b :: cs)
  | c :: cs => UInt8.ofNat c.toNat :: unescapedBytes cs
  | [] => []

/-- Decodes the escapes of a text, each run of ASCII characters by itself; `run` holds the
characters of the current run in reverse. -/
def unescapeRuns (run : List Char) : List Char → List Char
  | [] => Text.decodeLossy (unescapedBytes run.reverse)
  | c :: cs =>
    if c.toNat < 0x80 then unescapeRuns (c :: run) cs
    else Text.decodeLossy (unescapedBytes run.reverse) ++ c :: unescapeRuns [] cs

/-- Decodes percent escapes; what they stand for is read as UTF-8. -/
def unescape (cs : List Char) : List Char := if '%' ∈ cs then unescapeRuns [] cs else cs

/-- The characters of a URI that count: control characters and blanks at its front do not, nor do
tabs and line ends anywhere. -/
def significant (cs : List Char) : List Char :=
  (cs.dropWhile fun c => c.toNat ≤ 0x20).filter fun c => c != '\t' && c != '\r' && c != '\n'

/-- The path of a URI, with its escapes decoded. -/
def uriPath (uri : String) : Except UriError String := do
  let (scheme, rest) := splitScheme (significant uri.toList)
  let (authority, rest) := splitAuthority rest
  checkAuthority authority
  let path := rest.takeWhile fun c => c != '#' && c != '?'
  let path :=
    if schemesWithParameters.contains (String.ofList scheme) then dropParameters path else path
  pure (String.ofList (unescape path))

end BlockLang.Editor
