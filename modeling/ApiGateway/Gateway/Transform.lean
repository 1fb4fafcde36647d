import ApiGateway.Core.Config

/-!
# Header handling

Hop-by-hop stripping, forwarding headers, and the configured add/remove transforms.
-/

namespace ApiGateway
namespace Gateway

open Library Core

/-- Headers that are not forwarded, and `host`, which the client sets per upstream. -/
def hopByHop : List String :=
  ["connection", "keep-alive", "proxy-authenticate", "proxy-authorization", "te", "trailer",
    "transfer-encoding", "upgrade", "host", "content-length"]

def isHopByHop (name : String) : Bool := hopByHop.any fun h => Text.eqIgnoreAsciiCase name h

/-- Set a header of a known name when its value is well formed. -/
def set (headers : HeaderMap) (name : HeaderName) (value : String) : HeaderMap :=
  match HeaderValue.fromStr value with
  | some v => headers.insert name v
  | none => headers

/-- Set a header when both its name and its value are well formed. -/
def setHeader (headers : HeaderMap) (name value : String) : HeaderMap :=
  match HeaderName.fromBytes name, HeaderValue.fromStr value with
  | some n, some v => headers.insert n v
  | _, _ => headers

/-- The end-to-end headers of a map, in order. -/
def endToEnd (incoming : HeaderMap) : HeaderMap :=
  incoming.foldl
    (fun out field => if ¬ isHopByHop field.1.text then out.append field.1 field.2 else out) []

/-- The header set to forward upstream. -/
def forwardedRequestHeaders (incoming : HeaderMap) (clientIp host scheme : String) : HeaderMap :=
  let out := endToEnd incoming
  -- Only the first value of the header is extended; `set` replaces the others.
  let xff := match incoming.getStr .xForwardedFor with
    | some existing => existing ++ ", " ++ clientIp
    | none => clientIp
  let out := set out .xForwardedFor xff
  let out := set out .xRealIp clientIp
  let out := set out .xForwardedHost host
  set out .xForwardedProto scheme

/-- The header set of an upstream response without its hop-by-hop headers. -/
def filteredResponseHeaders (incoming : HeaderMap) : HeaderMap := endToEnd incoming

def removeHeader (headers : HeaderMap) (name : String) : HeaderMap :=
  match HeaderName.fromBytes name with
  | some h => headers.remove h
  | none => headers

/-- Apply the configured transforms: removals first, then additions. -/
def applyTransforms (headers : HeaderMap) (transforms : HeaderTransforms) : HeaderMap :=
  -- So a header that is both removed and added ends up added.
  let removed := transforms.remove.foldl removeHeader headers
  transforms.add.entries.foldl (fun out entry => setHeader out entry.1 entry.2) removed

end Gateway
end ApiGateway
