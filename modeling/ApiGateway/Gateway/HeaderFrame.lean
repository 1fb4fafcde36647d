import ApiGateway.Gateway.ForwardedChain

/-!
# What the header operations keep

The headers of a forwarded request and of a returned response, name by name.  The hop-by-hop
names are gone; four names have the gateway's own value and no other; every other name has
the values that came in, in their order.  The gateway sets a header only when its text is a
header value, so this rests on the texts: the address, the host and the chain are read from
headers, and what can be read from a header can be written to one.

The configured transforms are described in the same way, and applying them again changes
nothing.
-/

namespace ApiGateway
namespace Gateway

open Library Core

/-! ## Forwarding -/

/-- The map has one value of the name, and it is the given text. -/
def HasOnly (headers : HeaderMap) (name : HeaderName) (text : String) : Prop :=
  ∃ value, headers.getAll name = [value] ∧ value.bytes = Text.asBytes text

/-- A header that the gateway sets has its text, when the text is a header value. -/
theorem hasOnly_of_ownText {incoming : HeaderMap} {clientIp host scheme : String}
    {name : HeaderName} {text : String}
    (hown : ownText incoming clientIp host scheme name = some text)
    (hvalid : (HeaderValue.fromStr text).isSome = true) :
    HasOnly (forwardedRequestHeaders incoming clientIp host scheme) name text := by
  obtain ⟨value, hvalue⟩ := Option.isSome_iff_exists.mp hvalid
  exact ⟨value, getAll_forwarded_of_ownText hown hvalue,
    HeaderValue.fromStr_eq_some_iff.mp hvalue⟩

theorem isSome_fromStr_of_readable {text : String}
    (h : ∀ char ∈ text.toList, HeaderValue.IsReadable char) :
    (HeaderValue.fromStr text).isSome = true := by
  obtain ⟨value, hvalue, -⟩ := HeaderValue.fromStr_readable h
  rw [hvalue]
  rfl

/-- The host is empty or was read from a header. -/
theorem isReadable_requestHost (request : Request) :
    ∀ char ∈ (requestHost request).toList, HeaderValue.IsReadable char := by
  unfold requestHost
  cases hhost : request.headers.getStr .host with
  | none => exact nofun
  | some host => exact HeaderMap.isReadable_of_getStr hhost

/-- However a hop-by-hop name is spelled, the name it denotes is hop-by-hop. -/
theorem isHopByHop_of_spelling {hop spelling : String} {name : HeaderName}
    (hhop : hop ∈ hopByHop) (hsame : Text.eqIgnoreAsciiCase spelling hop = true)
    (hname : HeaderName.fromBytes spelling = some name) : isHopByHop name.text = true := by
  refine List.any_eq_true.mpr ⟨hop, hhop, ?_⟩
  unfold Text.eqIgnoreAsciiCase at hsame ⊢
  rw [HeaderName.toAsciiLowercase_text, HeaderName.text_of_fromBytes hname]
  exact hsame

/-- The names that the gateway sets in a forwarded request. -/
def ownNames : List HeaderName := [.xForwardedFor, .xRealIp, .xForwardedHost, .xForwardedProto]

theorem ownText_of_notMem {name : HeaderName} (h : name ∉ ownNames) (incoming : HeaderMap)
    (clientIp host scheme : String) : ownText incoming clientIp host scheme name = none := by
  simp only [ownNames, List.mem_cons, List.not_mem_nil, or_false, not_or] at h
  obtain ⟨hchain, hreal, hhost, hproto⟩ := h
  rw [ownText, if_neg hchain, if_neg hreal, if_neg hhost, if_neg hproto]

/-- What came in under a name that the gateway does not set goes through end to end. -/
theorem getAll_forwarded_of_notMem {name : HeaderName} (h : name ∉ ownNames)
    (incoming : HeaderMap) (clientIp host scheme : String) :
    (forwardedRequestHeaders incoming clientIp host scheme).getAll name =
      if isHopByHop name.text then [] else incoming.getAll name := by
  rw [getAll_forwardedRequestHeaders, ownText_of_notMem h, getAll_endToEnd]
  rfl

theorem notMem_ownNames_of_isHopByHop {name : HeaderName} (h : isHopByHop name.text = true) :
    name ∉ ownNames := by
  intro hmem
  have hnone : ownNames.all (fun own => !isHopByHop own.text) = true := by decide
  have hname := List.all_eq_true.mp hnone name hmem
  rw [h] at hname
  cases hname

/-- **Header forwarding loses and leaks nothing else.**  For every request from an address,
with the client address and the host as they are computed from it, and a scheme that is a
header value, as `http` is; and for every response. -/
theorem header_forwarding_frame (incoming : Incoming) (hpeer : IsAddressText incoming.peer)
    {scheme : String} (hscheme : (HeaderValue.fromStr scheme).isSome = true)
    (response : HeaderMap) :
    let headers := incoming.request.headers
    let address := clientIp headers incoming.peer
    let host := requestHost incoming.request
    let forwarded := forwardedRequestHeaders headers address host scheme
    let returned := filteredResponseHeaders response
    (∀ hop ∈ hopByHop, ∀ spelling name, Text.eqIgnoreAsciiCase spelling hop = true →
        HeaderName.fromBytes spelling = some name →
        forwarded.getAll name = [] ∧ returned.getAll name = []) ∧
      (HasOnly forwarded .xForwardedFor (chainText headers address) ∧
        HasOnly forwarded .xRealIp address ∧ HasOnly forwarded .xForwardedHost host ∧
        HasOnly forwarded .xForwardedProto scheme) ∧
      (∀ name, isHopByHop name.text = false → name ∉ ownNames →
        forwarded.getAll name = headers.getAll name) ∧
      ∀ name, isHopByHop name.text = false → returned.getAll name = response.getAll name := by
  intro headers address host forwarded returned
  have haddress : ∀ char ∈ address.toList, HeaderValue.IsReadable char :=
    isReadable_clientIp headers hpeer
  refine ⟨?_, ⟨?_, ?_, ?_, ?_⟩, ?_, ?_⟩
  · intro hop hhop spelling name hsame hname
    have hstripped := isHopByHop_of_spelling hhop hsame hname
    constructor
    · show (forwardedRequestHeaders headers address host scheme).getAll name = []
      rw [getAll_forwarded_of_notMem (notMem_ownNames_of_isHopByHop hstripped), if_pos hstripped]
    · show (endToEnd response).getAll name = []
      rw [getAll_endToEnd, if_pos hstripped]
  · exact hasOnly_of_ownText rfl
      (isSome_fromStr_of_readable (isReadable_chainText headers haddress))
  · exact hasOnly_of_ownText rfl (isSome_fromStr_of_readable haddress)
  · exact hasOnly_of_ownText rfl
      (isSome_fromStr_of_readable (isReadable_requestHost incoming.request))
  · exact hasOnly_of_ownText rfl hscheme
  · intro name hkept hother
    show (forwardedRequestHeaders headers address host scheme).getAll name = _
    rw [getAll_forwarded_of_notMem hother, hkept]
    rfl
  · intro name hkept
    show (endToEnd response).getAll name = _
    rw [getAll_endToEnd, hkept]
    rfl

/-- A request that names its own address, with a hop-by-hop header and a field sent twice. -/
def framedIncoming : Incoming where
  request :=
    { method := .get
      uri := .ofPath "/frame" (by decide)
      headers :=
        [(⟨"te", by decide⟩, ⟨Text.asBytes "trailers", by decide⟩),
          (⟨"accept", by decide⟩, ⟨Text.asBytes "text/html", by decide⟩),
          (.xRealIp, ⟨Text.asBytes "10.0.0.66", by decide⟩),
          (⟨"accept", by decide⟩, ⟨Text.asBytes "text/plain", by decide⟩)]
      body := ⟨[], true⟩ }
  peer := "10.0.0.9"

/-- Of the request above, `TE` is gone, the address is the one of the peer and both
fields `accept` are forwarded. -/
theorem header_forwarding_frame_twice :
    let forwarded := forwardedRequestHeaders framedIncoming.request.headers
      (clientIp framedIncoming.request.headers framedIncoming.peer)
      (requestHost framedIncoming.request) "http"
    forwarded.getAll ⟨"te", by decide⟩ = [] ∧
      HasOnly forwarded .xRealIp "10.0.0.9" ∧
      forwarded.getAll ⟨"accept", by decide⟩ =
        [⟨Text.asBytes "text/html", by decide⟩, ⟨Text.asBytes "text/plain", by decide⟩] := by
  obtain ⟨hstripped, ⟨-, haddress, -, -⟩, hkept, -⟩ :=
    header_forwarding_frame framedIncoming (.of_all (by decide) (by decide))
      (by decide : (HeaderValue.fromStr "http").isSome = true) []
  refine ⟨?_, haddress, ?_⟩
  · exact (hstripped "te" (by decide) "TE" _ (by decide) (by decide)).1
  · rw [hkept ⟨"accept", by decide⟩ (by decide) (by decide)]
    decide

/-! ## The configured transforms -/

/-- A valid `add` entry that denotes the name, whatever the case of its letters. -/
def Adds (field : String × String) (name : HeaderName) : Prop :=
  HeaderName.fromBytes field.1 = some name ∧ (HeaderValue.fromStr field.2).isSome = true

/-- A valid `remove` entry that denotes the name. -/
def Removes (text : String) (name : HeaderName) : Prop := HeaderName.fromBytes text = some name

/-- What is left of each name by transforms with these `add` and `remove` entries. -/
structure FollowsTransforms (add : List (String × String)) (remove : List String)
    (headers result : HeaderMap) : Prop where
  /-- The last entry that adds the name has the only value. -/
  added : ∀ name, (∃ field ∈ add, Adds field name) →
    ∃ before field after value, add = before ++ field :: after ∧
      HeaderName.fromBytes field.1 = some name ∧ HeaderValue.fromStr field.2 = some value ∧
      (∀ later ∈ after, ¬ Adds later name) ∧ result.getAll name = [value]
  removed : ∀ name, (∀ field ∈ add, ¬ Adds field name) → (∃ text ∈ remove, Removes text name) →
    result.getAll name = []
  kept : ∀ name, (∀ field ∈ add, ¬ Adds field name) → (∀ text ∈ remove, ¬ Removes text name) →
    result.getAll name = headers.getAll name

theorem setsValue_eq_none_iff {field : String × String} {header : HeaderName} :
    setsValue field.1 field.2 header = none ↔ ¬ Adds field header := by
  rw [← not_iff_not, not_not, ← ne_eq, Option.ne_none_iff_exists']
  simp only [setsValue_eq_some_iff, Adds, Option.isSome_iff_exists, exists_and_left]

theorem lastSet_eq_none_iff {fields : List (String × String)} {header : HeaderName} :
    lastSet fields header = none ↔ ∀ field ∈ fields, ¬ Adds field header := by
  induction fields with
  | nil => simp [lastSet]
  | cons field fields ih =>
      rw [lastSet, Option.or_eq_none_iff, ih, setsValue_eq_none_iff, List.forall_mem_cons,
        and_comm]

/-- What is set last is set by an entry that no later one replaces. -/
theorem exists_last_of_lastSet {fields : List (String × String)} {header : HeaderName}
    {value : HeaderValue} (h : lastSet fields header = some value) :
    ∃ before field after, fields = before ++ field :: after ∧
      HeaderName.fromBytes field.1 = some header ∧ HeaderValue.fromStr field.2 = some value ∧
      ∀ later ∈ after, ¬ Adds later header := by
  induction fields with
  | nil => cases h
  | cons field fields ih =>
      rw [lastSet] at h
      cases hlater : lastSet fields header with
      | some found =>
          rw [hlater, Option.some_or] at h
          obtain rfl := Option.some.inj h
          obtain ⟨before, last, after, rfl, hrest⟩ := ih hlater
          exact ⟨field :: before, last, after, rfl, hrest⟩
      | none =>
          rw [hlater, Option.none_or] at h
          obtain ⟨hname, hvalue⟩ := setsValue_eq_some_iff.mp h
          exact ⟨[], field, fields, rfl, hname, hvalue, lastSet_eq_none_iff.mp hlater⟩

theorem removes_eq_true_iff {remove : List String} {header : HeaderName} :
    removes remove header = true ↔ ∃ text ∈ remove, Removes text header := by
  simp [removes, Removes]

theorem followsTransforms_applyTransforms (headers : HeaderMap) (transforms : HeaderTransforms) :
    FollowsTransforms (additions transforms) transforms.remove headers
      (applyTransforms headers transforms) where
  added := by
    intro name hadded
    have hsome : lastSet (additions transforms) name ≠ none := by
      rw [ne_eq, lastSet_eq_none_iff]
      intro hnone
      obtain ⟨field, hfield, hadds⟩ := hadded
      exact hnone field hfield hadds
    obtain ⟨value, hvalue⟩ := Option.ne_none_iff_exists'.mp hsome
    obtain ⟨before, field, after, hsplit, hname, hparsed, hlast⟩ := exists_last_of_lastSet hvalue
    refine ⟨before, field, after, value, hsplit, hname, hparsed, hlast, ?_⟩
    rw [getAll_applyTransforms, hvalue]
  removed := by
    intro name hnone hremoved
    rw [getAll_applyTransforms, lastSet_eq_none_iff.mpr hnone]
    exact if_pos (removes_eq_true_iff.mpr hremoved)
  kept := by
    intro name hnone hkept
    rw [getAll_applyTransforms, lastSet_eq_none_iff.mpr hnone]
    refine if_neg fun hremoved => ?_
    obtain ⟨text, htext, hdenotes⟩ := removes_eq_true_iff.mp hremoved
    exact hkept text htext hdenotes

/-- What the transforms leave of a name is left by them again. -/
theorem getAll_applyTransforms_twice (headers : HeaderMap) (transforms : HeaderTransforms)
    (name : HeaderName) :
    (applyTransforms (applyTransforms headers transforms) transforms).getAll name =
      (applyTransforms headers transforms).getAll name := by
  rw [getAll_applyTransforms, getAll_applyTransforms]
  cases lastSet (additions transforms) name with
  | some value => rfl
  | none =>
      cases removes transforms.remove name with
      | true => rfl
      | false => rfl

/-- **Transforms are idempotent and have an exact frame.**  For every header map, and all
transforms with their `add` entries in any order of iteration.  Header maps are the same when
they have the same values of every name, in order; the order of different names is left open. -/
theorem transforms_frame_idempotent (headers : HeaderMap) (transforms : HeaderTransforms) :
    let once := applyTransforms headers transforms
    let twice := applyTransforms once transforms
    FollowsTransforms (additions transforms) transforms.remove headers once ∧
      (∀ name, twice.getAll name = once.getAll name) ∧ twice.Perm once := by
  intro once twice
  have hsame : ∀ name, twice.getAll name = once.getAll name :=
    getAll_applyTransforms_twice headers transforms
  exact ⟨followsTransforms_applyTransforms headers transforms, hsame,
    HeaderMap.perm_of_getAll_eq hsame⟩

end Gateway
end ApiGateway
