import RouteAtlas.Json.Reader
import RouteAtlas.Number.Integer
import RouteAtlas.Text.Case
import RouteAtlas.Text.Quoted

/-!
# URLs

A URL has a scheme, an authority with a host in it, and a path, each perhaps empty; what follows a
question mark or a number sign asks for nothing. Without a scheme and a host it is a path at the
host that is asked. Not every text is a URL that can be asked for.
-/

namespace RouteAtlas

structure Url where
  scheme : Text
  authority : Text
  path : Text
  deriving DecidableEq

namespace Url

def isSchemeChar (c : CodePoint) : Bool :=
  match c with
  | .char c => c.isAlphanum || c == '+' || c == '.' || c == '-'
  | .lone _ => false

def startsScheme (c : CodePoint) : Bool :=
  match c with
  | .char c => c.isAlpha
  | .lone _ => false

/-- The scheme before a colon, and what is left. A colon may come without a scheme. -/
def takeScheme (t : Text) : Text × Text :=
  let name := t.takeWhile isSchemeChar
  match t.drop name.length with
  | c :: r => if c = ':' ∧ name.head?.all startsScheme then (name, r) else ([], t)
  | [] => ([], t)

/-- The authority behind two slashes, and what is left. -/
def takeAuthority (t : Text) : Text × Text :=
  match Text.after "//" t with
  | some r => r.span fun c : CodePoint => !(c == '/' || c == '?' || c == '#')
  | none => ([], t)

def split (t : Text) : Url :=
  let (scheme, t) := takeScheme t
  let (authority, t) := takeAuthority t
  ⟨scheme, authority, (t.upTo '?').upTo '#'⟩

/-- What stands behind the user of the authority: the host and the port. -/
def location (u : Url) : Text := u.authority.afterLast '@'

def user (u : Url) : Text := u.authority.take (u.authority.length - u.location.length - 1)

def host (u : Url) : Text := u.location.upTo ':'

/-- What stands behind the colon of the host. -/
def portText (u : Url) : Text := u.location.drop (u.host.length + 1)

def isAbsolute (u : Url) : Bool := !u.scheme.isEmpty && !u.host.isEmpty

/-- Whether there is neither a scheme nor anything in the authority. -/
def isBare (u : Url) : Bool :=
  u.scheme.isEmpty && u.user.isEmpty && u.host.isEmpty && u.portText.isEmpty

end Url

inductive UrlError where
  | tooLong
  | unprintable (c : CodePoint) (index : Nat)
  | address (host : Text)
  | port (given : Text)
  | slashes
  | colon
  | scheme (name : Text)
  deriving DecidableEq

def UrlError.message : UrlError → Text
  | .tooLong => "URL too long"
  | .unprintable c index =>
    "Invalid non-printable ASCII character in URL, " ++ Text.quoted [c] ++ " at position " ++
      Text.ofNat index ++ "."
  | .address host => "Invalid IPv4 address: " ++ host.quoted
  | .port given => "Invalid port: " ++ given.quoted
  | .slashes => "Relative URLs cannot have a path starting with '//'"
  | .colon => "Relative URLs cannot have a path starting with ':'"
  | .scheme name => name.quoted

namespace Url

def maxLength : Nat := 65536

def isUnprintable (c : CodePoint) : Bool := c.toNat < 0x20 || c.toNat = 0x7F

/-- Four runs of digits with one character between them, as addresses have it. -/
def looksNumeric (host : Text) : Bool :=
  let run := fun (k : Text → Option Unit) => Text.afterSomeRun CodePoint.isAsciiDigit k
  let next := fun (k : Text → Option Unit) => run fun t => k (t.drop 1)
  let last := run fun t => if t.isEmpty then some () else none
  (next (next (next last)) host).isSome

/-- A number up to 255 without a needless zero. -/
def isOctet (t : Text) : Bool :=
  !t.isEmpty && t.all CodePoint.isAsciiDigit && t.length ≤ 3 &&
    (t.length = 1 || t.head? != some (.char '0')) &&
    t.foldl (fun n d => 10 * n + (d.toNat - 48)) 0 ≤ 255

def isAddress (host : Text) : Bool :=
  let parts := host.cut '.'
  parts.length = 4 && parts.all isOctet

def schemes : List Text := ["http", "https", "ws", "wss"]

def error? (u : Url) : Option UrlError :=
  let port := Integer.ofText 10 u.portText
  if looksNumeric u.host && !isAddress u.host then some (.address u.host)
  else if !u.portText.isEmpty && port.toOption.isNone then some (.port u.portText)
  else if u.isBare && u.path.startsWith "//" then some .slashes
  else if u.isBare && u.path.startsWith ":" then some .colon
  else if u.isAbsolute && !schemes.contains u.scheme.lower then some (.scheme u.scheme.lower)
  else none

def ofText (t : Text) : Except UrlError Url :=
  if maxLength < t.length then .error .tooLong
  else
    match t.find? isUnprintable with
    | some c => .error (.unprintable c (t.takeWhile (!isUnprintable ·)).length)
    | none =>
      match (split t).error? with
      | some e => .error e
      | none => .ok (split t)

/-- Single points are dropped, double points cancel the name before them. -/
def withoutPoints (path : Text) : Text :=
  let keep := fun (names : List Text) (n : Text) =>
    if n = "." then names
    else if n = ".." then (if names = [[]] then names else names.dropLast)
    else names ++ [n]
  Text.join "/" ((path.cut '/').foldl keep [])

def rawPath (u : Url) : Text :=
  let path := if u.isBare then u.path else withoutPoints u.path
  if u.isAbsolute then path
  else withoutPoints (.char '/' :: path.dropWhile fun c : CodePoint => c == '/')

/-- The byte of an escape: a percent sign and two hexadecimal digits. -/
def escape? (c : CodePoint) (r : Text) : Option UInt8 :=
  match c, r with
  | .char '%', a :: b :: _ => do
    return UInt8.ofNat (16 * (← Json.hexValue? a) + (← Json.hexValue? b))
  | _, _ => none

/-- The bytes of a text whose first `skip` characters have been read, with escapes resolved. -/
def bytesFrom (skip : Nat) : Text → Bytes
  | [] => []
  | c :: r =>
    match skip with
    | n + 1 => bytesFrom n r
    | 0 =>
      match escape? c r, c with
      | some b, _ => b :: bytesFrom 2 r
      | none, .char c => Utf8.encodeChar c ++ bytesFrom 0 r
      | none, .lone _ => bytesFrom 0 r

/-- A text without its escapes; bytes that are no UTF-8 leave it as it is. -/
def unescaped (t : Text) : Text := (Utf8.decode (bytesFrom 0 t)).toOption.getD t

/-- The path that is asked for. Escapes are resolved by both sides of a connection. -/
def place (u : Url) : Text := unescaped (unescaped u.rawPath)

end Url

end RouteAtlas
