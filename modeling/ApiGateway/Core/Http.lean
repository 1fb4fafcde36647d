import ApiGateway.Library.Text

/-!
# HTTP messages

The vocabulary the gateway takes from the `http` crate: header names and values,
header maps, methods, status codes and request targets.  Names and values carry
their well-formedness, so a value that the crate refuses to build cannot be built
here either.

A header map is a multimap.  Its iteration order across different names is
unspecified, so it is kept as the list of its name/value pairs; the order of the
values of one name is significant and every operation preserves it.
-/

namespace ApiGateway
namespace Core

open Library

abbrev Bytes := List UInt8

/-- The characters of a normalised header name: token characters, no capitals. -/
def isHeaderNameChar (char : Char) : Bool :=
  char.isLower || char.isDigit || "!#$%&'*+-.^_`|~".toList.contains char

/-- A header name in its normal, lower-case form. -/
structure HeaderName where
  text : String
  normal : text.toList ≠ [] ∧ text.toList.all isHeaderNameChar = true
  deriving DecidableEq

namespace HeaderName

/-- Parse a name, converting it to lower case. -/
def fromBytes (name : String) : Option HeaderName :=
  let lower := Text.toAsciiLowercase name
  if h : lower.toList ≠ [] ∧ lower.toList.all isHeaderNameChar = true then
    some ⟨lower, h⟩
  else
    none

def host : HeaderName := ⟨"host", by decide⟩
def authorization : HeaderName := ⟨"authorization", by decide⟩
def cacheControl : HeaderName := ⟨"cache-control", by decide⟩
def xApiKey : HeaderName := ⟨"x-api-key", by decide⟩
def xForwardedFor : HeaderName := ⟨"x-forwarded-for", by decide⟩
def xForwardedHost : HeaderName := ⟨"x-forwarded-host", by decide⟩
def xForwardedProto : HeaderName := ⟨"x-forwarded-proto", by decide⟩
def xRealIp : HeaderName := ⟨"x-real-ip", by decide⟩
def xRequestId : HeaderName := ⟨"x-request-id", by decide⟩
def xCache : HeaderName := ⟨"x-cache", by decide⟩

end HeaderName

/-- The bytes a header value may hold: everything but control characters, with the
tab allowed. -/
def isHeaderValueByte (byte : UInt8) : Bool := (32 ≤ byte && byte != 127) || byte == 9

/-- The bytes that may be read back as text. -/
def isVisibleAscii (byte : UInt8) : Bool := (32 ≤ byte && byte < 127) || byte == 9

structure HeaderValue where
  bytes : Bytes
  valid : bytes.all isHeaderValueByte = true
  deriving DecidableEq

namespace HeaderValue

def fromStr (text : String) : Option HeaderValue :=
  if h : (Text.asBytes text).all isHeaderValueByte = true then
    some ⟨Text.asBytes text, h⟩
  else
    none

/-- The value as text, when every byte is visible ASCII or a tab. -/
def toStr (value : HeaderValue) : Option String :=
  if value.bytes.all isVisibleAscii then
    some (String.ofList (value.bytes.map fun byte => Char.ofNat byte.toNat))
  else
    none

end HeaderValue

abbrev HeaderMap := List (HeaderName × HeaderValue)

namespace HeaderMap

/-- All values of a name, in order. -/
def getAll (headers : HeaderMap) (name : HeaderName) : List HeaderValue :=
  headers.filterMap fun field => if field.1 = name then some field.2 else none

/-- The first value of a name. -/
def get (headers : HeaderMap) (name : HeaderName) : Option HeaderValue :=
  (headers.getAll name).head?

/-- The first value of a name, when it can be read as text. -/
def getStr (headers : HeaderMap) (name : HeaderName) : Option String :=
  (headers.get name).bind HeaderValue.toStr

/-- Add a value after the other values of the name. -/
def append (headers : HeaderMap) (name : HeaderName) (value : HeaderValue) : HeaderMap :=
  headers ++ [(name, value)]

/-- Drop all values of a name. -/
def remove (headers : HeaderMap) (name : HeaderName) : HeaderMap :=
  headers.filter fun field => field.1 ≠ name

/-- Replace all values of a name by one. -/
def insert (headers : HeaderMap) (name : HeaderName) (value : HeaderValue) : HeaderMap :=
  headers.remove name ++ [(name, value)]

end HeaderMap

inductive Method where
  | options
  | get
  | post
  | put
  | delete
  | head
  | trace
  | connect
  | patch
  /-- Any other token. -/
  | extension (name : String)
  deriving DecidableEq, Repr

def Method.asStr : Method → String
  | .options => "OPTIONS"
  | .get => "GET"
  | .post => "POST"
  | .put => "PUT"
  | .delete => "DELETE"
  | .head => "HEAD"
  | .trace => "TRACE"
  | .connect => "CONNECT"
  | .patch => "PATCH"
  | .extension name => name

/-- A status code, always of three digits. -/
structure StatusCode where
  code : Nat
  threeDigits : 100 ≤ code ∧ code < 1000
  deriving DecidableEq

namespace StatusCode

def fromU16 (code : Nat) : Option StatusCode :=
  if h : 100 ≤ code ∧ code < 1000 then some ⟨code, h⟩ else none

def isServerError (status : StatusCode) : Bool := 500 ≤ status.code && status.code < 600

def ok : StatusCode := ⟨200, by decide⟩
def unauthorized : StatusCode := ⟨401, by decide⟩
def notFound : StatusCode := ⟨404, by decide⟩
def payloadTooLarge : StatusCode := ⟨413, by decide⟩
def tooManyRequests : StatusCode := ⟨429, by decide⟩
def internalServerError : StatusCode := ⟨500, by decide⟩
def badGateway : StatusCode := ⟨502, by decide⟩
def serviceUnavailable : StatusCode := ⟨503, by decide⟩

def asStr (status : StatusCode) : String := Text.ofNat status.code

end StatusCode

/-- The characters of a query: no space, and nothing that starts a fragment. -/
def isQueryChar (char : Char) : Bool := char != ' ' && char != '#'

/-- The characters of a path, which ends where the query begins. -/
def isPathChar (char : Char) : Bool := isQueryChar char && char != '?'

/-- Path and query of a request target. -/
structure PathAndQuery where
  path : String
  query : Option String
  pathChars : path.toList.all isPathChar = true
  queryChars : query.all (fun text => text.toList.all isQueryChar) = true

def PathAndQuery.asStr (target : PathAndQuery) : String :=
  match target.query with
  | some query => target.path ++ "?" ++ query
  | none => target.path

/-- A request target.  The authority form has no path and query. -/
structure Uri where
  pathAndQuery : Option PathAndQuery

namespace Uri

def path (uri : Uri) : String :=
  match uri.pathAndQuery with
  | some target => target.path
  | none => ""

def query (uri : Uri) : Option String := uri.pathAndQuery.bind PathAndQuery.query

/-- A target without a query. -/
def ofPath (path : String) (hpath : path.toList.all isPathChar = true) : Uri :=
  ⟨some { path := path, query := none, pathChars := hpath, queryChars := rfl }⟩

end Uri

/-- What a body yields when it is read to its end: the bytes, and whether the end
is a proper one or an error. -/
structure ByteStream where
  bytes : Bytes
  complete : Bool
  deriving DecidableEq, Repr

/-- The body of a response: held in memory, or relayed as it arrives. -/
inductive Body where
  | buffered (bytes : Bytes)
  | streamed (stream : ByteStream)
  deriving DecidableEq, Repr

structure Response where
  status : StatusCode
  headers : HeaderMap
  body : Body
  deriving DecidableEq

structure Request where
  method : Method
  uri : Uri
  headers : HeaderMap
  body : ByteStream

end Core
end ApiGateway
