import ApiGateway.Core.HeaderLaws
import ApiGateway.Gateway.Transform

/-!
# What the header operations do to each name

For every name the configured transforms leave one of three things: the value that the
last valid `add` entry for the name sets, nothing when a valid `remove` entry denotes it,
or else all the values that were there.  Names are compared in normal form, so two
entries may denote one name.
-/

namespace ApiGateway
namespace Gateway

open Library Core

/-- The value that a name/value pair sets for a header, when both are well formed and the
name is that of the header. -/
def setsValue (name value : String) (header : HeaderName) : Option HeaderValue :=
  match HeaderName.fromBytes name, HeaderValue.fromStr value with
  | some n, some v => if n = header then some v else none
  | _, _ => none

theorem setsValue_eq_some_iff {name value : String} {header : HeaderName} {carried : HeaderValue} :
    setsValue name value header = some carried ↔
      HeaderName.fromBytes name = some header ∧ HeaderValue.fromStr value = some carried := by
  unfold setsValue
  cases HeaderName.fromBytes name with
  | none => simp
  | some denoted =>
      cases HeaderValue.fromStr value with
      | none => simp
      | some parsed => simp

theorem getAll_setHeader (headers : HeaderMap) (name value : String) (header : HeaderName) :
    (setHeader headers name value).getAll header =
      match setsValue name value header with
      | some v => [v]
      | none => headers.getAll header := by
  unfold setHeader setsValue
  cases HeaderName.fromBytes name with
  | none => rfl
  | some n =>
      cases HeaderValue.fromStr value with
      | none => rfl
      | some v =>
          simp only [HeaderMap.getAll_insert]
          by_cases hname : n = header
          · simp [hname]
          · simp [hname]

/-- Setting a header of another name leaves the values. -/
theorem getAll_setHeader_of_ne {headers : HeaderMap} {name value : String}
    {header set : HeaderName} (hset : HeaderName.fromBytes name = some set) (h : header ≠ set) :
    (setHeader headers name value).getAll header = headers.getAll header := by
  rw [getAll_setHeader]
  have hnone : setsValue name value header = none := by
    rw [Option.eq_none_iff_forall_ne_some]
    intro carried hcarried
    exact h (Option.some.inj ((setsValue_eq_some_iff.mp hcarried).1.symm.trans hset))
  rw [hnone]

/-- A header that is set to a header value has it as its one value. -/
theorem getAll_setHeader_of_fromStr {headers : HeaderMap} {name value : String}
    {set : HeaderName} {carried : HeaderValue} (hset : HeaderName.fromBytes name = some set)
    (hcarried : HeaderValue.fromStr value = some carried) :
    (setHeader headers name value).getAll set = [carried] := by
  rw [getAll_setHeader, setsValue_eq_some_iff.mpr ⟨hset, hcarried⟩]

/-- A header that is set to a readable text has that text as its one value. -/
theorem getAll_setHeader_self {headers : HeaderMap} {name value : String} {set : HeaderName}
    (hset : HeaderName.fromBytes name = some set)
    (hvalue : ∀ char ∈ value.toList, HeaderValue.IsReadable char) :
    ∃ carried, (setHeader headers name value).getAll set = [carried] ∧
      carried.toStr = some value := by
  obtain ⟨carried, hcarried, htext⟩ := HeaderValue.fromStr_readable hvalue
  exact ⟨carried, getAll_setHeader_of_fromStr hset hcarried, htext⟩

/-- The value that the last of the pairs for a header sets. -/
def lastSet : List (String × String) → HeaderName → Option HeaderValue
  | [], _ => none
  | field :: fields, header => (lastSet fields header).or (setsValue field.1 field.2 header)

/-- Setting headers one after the other: the last one for a name wins. -/
theorem getAll_foldl_setHeader (fields : List (String × String)) (headers : HeaderMap)
    (header : HeaderName) :
    (fields.foldl (fun out field => setHeader out field.1 field.2) headers).getAll header =
      match lastSet fields header with
      | some v => [v]
      | none => headers.getAll header := by
  -- The headers set so far change from pair to pair.
  induction fields generalizing headers with
  | nil => rfl
  | cons field fields ih =>
      rw [List.foldl_cons, ih, getAll_setHeader, lastSet]
      cases lastSet fields header with
      | none => rfl
      | some v => rfl

/-- A configured `remove` entry denotes the header. -/
def removes (remove : List String) (header : HeaderName) : Bool :=
  remove.any fun name => HeaderName.fromBytes name == some header

theorem getAll_foldl_removeHeader (remove : List String) (headers : HeaderMap)
    (header : HeaderName) :
    (remove.foldl removeHeader headers).getAll header =
      if removes remove header then [] else headers.getAll header := by
  induction remove generalizing headers with
  | nil => rfl
  | cons name remove ih =>
      rw [List.foldl_cons, ih]
      unfold removes removeHeader
      rw [List.any_cons]
      cases hname : HeaderName.fromBytes name with
      | none => simp
      | some removed =>
          simp only [HeaderMap.getAll_remove]
          by_cases hsame : removed = header
          · simp [hsame]
          · simp [hsame]

/-- The configured `add` entries, in iteration order. -/
def additions (transforms : HeaderTransforms) : List (String × String) :=
  transforms.add.entries.map fun entry => (entry.1, entry.2)

/-- **What the transforms leave of a name.** -/
theorem getAll_applyTransforms (headers : HeaderMap) (transforms : HeaderTransforms)
    (header : HeaderName) :
    (applyTransforms headers transforms).getAll header =
      match lastSet (additions transforms) header with
      | some v => [v]
      | none => if removes transforms.remove header then [] else headers.getAll header := by
  have hfold : applyTransforms headers transforms =
      (additions transforms).foldl
        (fun out field => setHeader out field.1 field.2)
        (transforms.remove.foldl removeHeader headers) := by
    unfold applyTransforms additions
    rw [List.foldl_map]
  rw [hfold, getAll_foldl_setHeader, getAll_foldl_removeHeader]

/-- The values of a name after some fields have been copied, the hop-by-hop ones left out. -/
theorem getAll_foldl_endToEnd (incoming out : HeaderMap) (header : HeaderName) :
    (incoming.foldl (fun out field =>
      if ¬ isHopByHop field.1.text then out.append field.1 field.2 else out) out).getAll header =
      out.getAll header ++ if isHopByHop header.text then [] else incoming.getAll header := by
  -- The headers copied so far change from field to field.
  induction incoming generalizing out with
  | nil => simp
  | cons field incoming ih =>
      rw [List.foldl_cons, ih, HeaderMap.getAll_cons]
      by_cases hname : field.1 = header
      · rw [hname]
        cases isHopByHop header.text with
        | true => simp
        | false => simp
      · cases isHopByHop field.1.text with
        | true => simp [hname]
        | false => simp [hname]

/-- Stripping keeps the values of the names that are not hop-by-hop. -/
theorem getAll_endToEnd (headers : HeaderMap) (header : HeaderName) :
    (endToEnd headers).getAll header =
      if isHopByHop header.text then [] else headers.getAll header := by
  rw [endToEnd, getAll_foldl_endToEnd, HeaderMap.getAll_nil, List.nil_append]

theorem getAll_set_of_ne {name other : HeaderName} (h : other ≠ name) (headers : HeaderMap)
    (value : String) : (set headers name value).getAll other = headers.getAll other := by
  unfold set
  cases HeaderValue.fromStr value with
  | none => rfl
  | some v => simp [Ne.symm h]

/-- The forwarded chain: the address behind the first line that came in. -/
def chainText (incoming : HeaderMap) (clientIp : String) : String :=
  ((incoming.getStr .xForwardedFor).map fun existing => existing ++ ", " ++ clientIp).getD clientIp

/-- The text that the gateway itself sets for a header of a forwarded request. -/
def ownText (incoming : HeaderMap) (clientIp host scheme : String) (name : HeaderName) :
    Option String :=
  if name = .xForwardedFor then some (chainText incoming clientIp)
  else if name = .xRealIp then some clientIp
  else if name = .xForwardedHost then some host
  else if name = .xForwardedProto then some scheme
  else none

theorem forwardedRequestHeaders_eq (incoming : HeaderMap) (clientIp host scheme : String) :
    forwardedRequestHeaders incoming clientIp host scheme =
      set (set (set (set (endToEnd incoming) .xForwardedFor (chainText incoming clientIp))
        .xRealIp clientIp) .xForwardedHost host) .xForwardedProto scheme := by
  unfold forwardedRequestHeaders chainText
  cases incoming.getStr .xForwardedFor with
  | none => rfl
  | some existing => rfl

theorem getAll_set (headers : HeaderMap) (name : HeaderName) (value : String) :
    (set headers name value).getAll name =
      (HeaderValue.fromStr value).elim (headers.getAll name) fun v => [v] := by
  unfold set
  cases HeaderValue.fromStr value with
  | none => rfl
  | some v => simp

/-- **What is forwarded under a name.**  The gateway's own value, when it has one that is
well formed, and otherwise the end-to-end values that came in. -/
theorem getAll_forwardedRequestHeaders (incoming : HeaderMap) (clientIp host scheme : String)
    (name : HeaderName) :
    (forwardedRequestHeaders incoming clientIp host scheme).getAll name =
      ((ownText incoming clientIp host scheme name).bind HeaderValue.fromStr).elim
        ((endToEnd incoming).getAll name) fun v => [v] := by
  rw [forwardedRequestHeaders_eq]
  by_cases hproto : name = .xForwardedProto
  · subst hproto
    rw [getAll_set, getAll_set_of_ne (by decide), getAll_set_of_ne (by decide),
      getAll_set_of_ne (by decide)]
    rfl
  rw [getAll_set_of_ne hproto]
  by_cases hhost : name = .xForwardedHost
  · subst hhost
    rw [getAll_set, getAll_set_of_ne (by decide), getAll_set_of_ne (by decide)]
    rfl
  rw [getAll_set_of_ne hhost]
  by_cases hreal : name = .xRealIp
  · subst hreal
    rw [getAll_set, getAll_set_of_ne (by decide)]
    rfl
  rw [getAll_set_of_ne hreal]
  by_cases hchain : name = .xForwardedFor
  · subst hchain
    rw [getAll_set]
    rfl
  rw [getAll_set_of_ne hchain, ownText, if_neg hchain, if_neg hreal, if_neg hhost, if_neg hproto]
  rfl

/-- A header that the gateway sets to a header value has it as its one value. -/
theorem getAll_forwarded_of_ownText {incoming : HeaderMap} {clientIp host scheme text : String}
    {name : HeaderName} {value : HeaderValue}
    (hown : ownText incoming clientIp host scheme name = some text)
    (hvalue : HeaderValue.fromStr text = some value) :
    (forwardedRequestHeaders incoming clientIp host scheme).getAll name = [value] := by
  rw [getAll_forwardedRequestHeaders, hown, Option.bind_some, hvalue]
  rfl

end Gateway
end ApiGateway
