import DataQ.Foundations.Percent
import DataQ.Foundations.Urls

/-! # Passwords in URIs

`core/uri_credentials.py`: the password of a connection's URI taken out and put in; and what the
client of such a URI reads of it. -/

namespace DataQ.Connections
open DataQ.Percent DataQ.Urls
set_option autoImplicit false

variable (library : Library)

/-- `parts.password or None`. -/
def passwordOf (parts : SplitResult) : Option Text := parts.password.filter (· ≠ [])

/-- `parts.username`, where it is not empty. -/
def usernameOf (parts : SplitResult) : Option Text := parts.username.filter (· ≠ [])

def uriPassword (uri : Text) : Option Text := (urlsplit library uri).bind passwordOf

/-- The host with its port; `none` where the port cannot be read. A port of 0 is left out. -/
def hostAndPort (parts : SplitResult) : Option Text :=
  parts.port.map fun port =>
    let host := (parts.hostname library).getD []
    match port with
    | none | some 0 => host
    | some port => host ++ ':' :: Nat.toDigits 10 port

/-- `strip_uri_credentials`; `none` where it raises. -/
def stripUriCredentials (uri : Text) : Option Text :=
  match urlsplit library uri with
  | none => some uri
  | some parts =>
    if passwordOf parts = none then some uri
    else
      (hostAndPort library parts).map fun host =>
        let netloc :=
          match usernameOf parts with
          | some username => username ++ '@' :: host
          | none => host
        urlunsplit { parts with netloc := netloc }

/-- `inject_uri_password`; `none` where it raises. -/
def injectUriPassword (uri password : Text) : Option Text :=
  match urlsplit library uri with
  | none => some uri
  | some parts =>
    match usernameOf parts, passwordOf parts with
    | some username, none =>
      (hostAndPort library parts).map fun host =>
        urlunsplit
          { parts with netloc := quote username ++ ':' :: (quote password ++ '@' :: host) }
    | _, _ => some uri

/-- What a client reads of a URI: its escapes are decoded in the user's name and the password. -/
structure Decoded where
  scheme : Text
  user : Option Bytes
  password : Option Bytes
  host : Option Text
  port : Option ℕ
  path : Text
  query : Text
  deriving DecidableEq

def decodeParts (parts : SplitResult) : Option Decoded :=
  parts.port.map fun port => {
    scheme := parts.scheme
    user := (usernameOf parts).map unquoteToBytes
    password := (passwordOf parts).map unquoteToBytes
    host := parts.hostname library
    port := port
    path := parts.path
    query := parts.query }

def decode (uri : Text) : Option Decoded := (urlsplit library uri).bind (decodeParts library)

/-! ## Well-formed URIs -/

def unreserved (c : Char) : Bool := c.isAlphanum || c ∈ ['-', '.', '_', '~']

def subDelim (c : Char) : Bool := c ∈ "!$&'()*+,;=".toList

/-- The characters of a user's name and of a host's. -/
def nameChar (c : Char) : Bool := unreserved c || subDelim c || c = '%'

def pathChar (c : Char) : Bool := nameChar c || c ∈ [':', '@', '/']

def queryChar (c : Char) : Bool := pathChar c || c = '?'

/-- A host is a name, or an address in brackets. -/
inductive Host
  | name (text : Text)
  | literal (text : Text)
  deriving DecidableEq

/-- A URI with a user's name and no password. -/
structure Uri where
  scheme : Text
  user : Text
  host : Host
  port : Option Text
  path : Text
  query : Option Text
  fragment : Option Text

def Host.inner : Host → Text
  | .name text => text
  | .literal text => text

def Host.text : Host → Text
  | .name text => text
  | .literal text => '[' :: (text ++ [']'])

/-- The host and the port as they are written. -/
def Uri.location (uri : Uri) : Text := uri.host.text ++ (uri.port.map (':' :: ·)).getD []

def Uri.netloc (uri : Uri) : Text := uri.user ++ '@' :: uri.location

def Uri.text (uri : Uri) : Text := render uri.scheme uri.netloc uri.path uri.query uri.fragment

def Uri.portNumber (uri : Uri) : Option ℕ :=
  (uri.port.filter (· ≠ [])).map fun port => Nat.ofDigitChars 10 port 0

structure WellFormed (uri : Uri) : Prop where
  scheme : ∃ c rest, uri.scheme = c :: rest ∧ c.isAlpha = true ∧ rest.all schemeChar = true
  user : uri.user ≠ [] ∧ uri.user.all nameChar = true ∧ wellEscaped uri.user = true
  host : match uri.host with
    | .name text => text.all nameChar = true ∧ wellEscaped text = true
    | .literal text => text.all (fun c => nameChar c || c = ':') = true ∧
        checkBracketedHost library text = true
  port : ∀ port, uri.port = some port → port.all Char.isDigit = true ∧
    Nat.ofDigitChars 10 port 0 ≤ 65535
  path : (uri.path = [] ∨ ∃ rest, uri.path = '/' :: rest) ∧ uri.path.all pathChar = true
  query : ∀ query, uri.query = some query → query.all queryChar = true
  fragment : ∀ fragment, uri.fragment = some fragment → fragment.all queryChar = true

end DataQ.Connections
