import ApiGateway.Core.Router

/-!
# The host constraint

`stripPort` cuts a host value at its first colon.  For a registered name and an IPv4
address this removes the port.  A bracketed IPv6 literal has colons of its own, and what
is left of it is the bracket and its first group.
-/

namespace ApiGateway
namespace Core

open Library

/-- The characters of a registered name, percent signs included.  An IPv4 address in
dotted decimals is made of them too. -/
def isRegNameChar (char : Char) : Bool :=
  char.isAlphanum || "-._~!$&'()*+,;=%".toList.contains char

/-- The characters of an IPv6 address. -/
def isIpv6Char (char : Char) : Bool :=
  char.isDigit || ('a' ≤ char.toLower && char.toLower ≤ 'f') || char == ':' || char == '.'

/-- The host of a host value. -/
inductive HostPart where
  /-- A registered name or an IPv4 address. -/
  | name (text : String) (chars : text.toList.all isRegNameChar = true)
  /-- An IPv6 address, without its brackets. -/
  | ipv6 (address : String) (chars : address.toList.all isIpv6Char = true)
      (colon : ':' ∈ address.toList)

def HostPart.text : HostPart → String
  | .name text _ => text
  | .ipv6 address _ _ => "[" ++ address ++ "]"

/-- A host with an optional port. -/
structure HostValue where
  host : HostPart
  port : Option String
  digits : port.all (fun text => text.toList.all Char.isDigit) = true

def HostValue.text (value : HostValue) : String :=
  match value.port with
  | some port => value.host.text ++ ":" ++ port
  | none => value.host.text

/-! ## What is left of a host value -/

theorem stripPort_toList (host : String) :
    (stripPort host).toList = host.toList.takeWhile (· != ':') := by
  simp [stripPort, Text.splitFirst]

/-- A name is left as it is, with its port gone. -/
theorem stripPort_name (text : String) (chars : text.toList.all isRegNameChar = true)
    (value : HostValue) (hhost : value.host = .name text chars) : stripPort value.text = text := by
  have hnone : ∀ char ∈ text.toList, (char != ':') = true := by
    intro char hchar
    have hclass := List.all_eq_true.mp chars char hchar
    by_contra hcolon
    obtain rfl : char = ':' := by simpa using hcolon
    exact absurd hclass (by decide)
  apply String.toList_inj.mp
  rw [stripPort_toList, HostValue.text, hhost]
  cases value.port with
  | none => exact List.takeWhile_eq_self_iff.mpr hnone
  | some port =>
      simp only [HostPart.text, String.toList_append, List.append_assoc]
      rw [List.takeWhile_append_of_pos hnone]
      simp

/-- Of an IPv6 literal the bracket and the first group are left, with or without a port. -/
theorem stripPort_ipv6 (address : String) (chars : address.toList.all isIpv6Char = true)
    (colon : ':' ∈ address.toList) (value : HostValue)
    (hhost : value.host = .ipv6 address chars colon) :
    (stripPort value.text).toList = '[' :: (Text.splitFirst address ':').toList := by
  have htext : ∃ rest, value.text.toList = '[' :: (address.toList ++ rest) := by
    rw [HostValue.text, hhost]
    cases value.port with
    | none => exact ⟨[']'], by simp [HostPart.text]⟩
    | some port => exact ⟨']' :: ':' :: port.toList, by simp [HostPart.text]⟩
  obtain ⟨rest, hrest⟩ := htext
  rw [stripPort_toList, hrest, List.takeWhile_cons_of_pos (by decide), List.takeWhile_append]
  -- The cut is inside the address.
  have hshort : (address.toList.takeWhile (· != ':')).length ≠ address.toList.length := by
    intro hlength
    have hall := List.takeWhile_eq_self_iff.mp
      ((List.takeWhile_prefix _).eq_of_length hlength) ':' colon
    simp at hall
  rw [if_neg hshort]
  simp [Text.splitFirst]

/-! ## When the constraint is exact -/

/-- The host parts are told apart by what is left of them: two IPv6 literals with the same
text before their first colon are the same. -/
def ToldApart : HostPart → HostPart → Prop
  | .ipv6 address _ _, .ipv6 address' _ _ =>
      Text.eqIgnoreAsciiCase (Text.splitFirst address ':') (Text.splitFirst address' ':') = true →
        Text.eqIgnoreAsciiCase address address' = true
  | _, _ => True

/-- A name and an IPv6 literal differ in their first character. -/
theorem name_ne_bracketed {text : String} (chars : text.toList.all isRegNameChar = true)
    (rest : List Char) : text.toList.map Char.toLower ≠ ('[' :: rest).map Char.toLower := by
  intro heq
  cases htext : text.toList with
  | nil =>
      rw [htext] at heq
      cases heq
  | cons char tail =>
      rw [htext] at heq chars
      have hlower : char.toLower = '[' := (List.cons.inj heq).1
      obtain rfl := (Text.toLower_eq_iff (by decide)).mp hlower
      have hclass := (Bool.and_eq_true_iff.mp chars).1
      exact absurd hclass (by decide)

theorem bracketed_eq_iff (address address' : String) :
    Text.eqIgnoreAsciiCase ("[" ++ address ++ "]") ("[" ++ address' ++ "]") = true ↔
      Text.eqIgnoreAsciiCase address address' = true := by
  simp [Text.eqIgnoreAsciiCase_iff]

/-- Addresses that are equal up to case are equal up to their first colon. -/
theorem splitFirst_eq_of_eq {address address' : String}
    (h : Text.eqIgnoreAsciiCase address address' = true) :
    Text.eqIgnoreAsciiCase (Text.splitFirst address ':') (Text.splitFirst address' ':') = true := by
  rw [Text.eqIgnoreAsciiCase_iff] at h ⊢
  simp only [Text.splitFirst, String.toList_ofList]
  rw [Text.map_toLower_takeWhile (by decide), Text.map_toLower_takeWhile (by decide), h]

/-- **When the host constraint is exact.**  For host values with or without a port on both
sides: the constraint is satisfied exactly when the host parts are equal up to case, if
and only if the host parts are told apart by what comes before their first colon. -/
theorem hostMatches_exact_iff (route : RouteConfig) (want got : HostValue)
    (hwant : route.matches.host = some want.text) :
    (hostMatches (some got.text) route = true ↔
        Text.eqIgnoreAsciiCase got.host.text want.host.text = true) ↔
      ToldApart got.host want.host := by
  have hmatches : hostMatches (some got.text) route =
      Text.eqIgnoreAsciiCase (stripPort got.text) (stripPort want.text) := by
    simp [hostMatches, hwant]
  rw [hmatches]
  cases hgot : got.host with
  | name text chars =>
      rw [stripPort_name text chars got hgot]
      cases hhost : want.host with
      | name text' chars' =>
          rw [stripPort_name text' chars' want hhost]
          simp [ToldApart, HostPart.text]
      | ipv6 address' chars' colon' =>
          have hleft : ¬ Text.eqIgnoreAsciiCase text (stripPort want.text) = true := by
            rw [Text.eqIgnoreAsciiCase_iff, stripPort_ipv6 address' chars' colon' want hhost]
            exact name_ne_bracketed chars _
          have hright : ¬ Text.eqIgnoreAsciiCase text ("[" ++ address' ++ "]") = true := by
            rw [Text.eqIgnoreAsciiCase_iff]
            simpa using name_ne_bracketed chars (address'.toList ++ [']'])
          simp [ToldApart, HostPart.text, hleft, hright]
  | ipv6 address chars colon =>
      cases hhost : want.host with
      | name text' chars' =>
          rw [stripPort_name text' chars' want hhost]
          have hleft : ¬ Text.eqIgnoreAsciiCase (stripPort got.text) text' = true := by
            rw [Text.eqIgnoreAsciiCase_iff, stripPort_ipv6 address chars colon got hgot]
            exact (name_ne_bracketed chars' _).symm
          have hright : ¬ Text.eqIgnoreAsciiCase ("[" ++ address ++ "]") text' = true := by
            rw [Text.eqIgnoreAsciiCase_iff]
            simpa using (name_ne_bracketed chars' (address.toList ++ [']'])).symm
          simp [ToldApart, HostPart.text, hleft, hright]
      | ipv6 address' chars' colon' =>
          have hfronts : Text.eqIgnoreAsciiCase (stripPort got.text) (stripPort want.text) = true ↔
              Text.eqIgnoreAsciiCase (Text.splitFirst address ':')
                (Text.splitFirst address' ':') = true := by
            rw [Text.eqIgnoreAsciiCase_iff, Text.eqIgnoreAsciiCase_iff,
              stripPort_ipv6 address chars colon got hgot,
              stripPort_ipv6 address' chars' colon' want hhost, List.map_cons, List.map_cons,
              List.cons.injEq]
            exact and_iff_right rfl
          simp only [HostPart.text, ToldApart, hfronts, bracketed_eq_iff]
          exact ⟨fun hiff => hiff.mp, fun hfront => ⟨hfront, splitFirst_eq_of_eq⟩⟩

/-- A route for one host. -/
def hostedRoute (host : String) : RouteConfig :=
  { name := "admin", «matches» := { host := some host }
    upstreams := [{ url := "http://app:8081" }] }

/-- Names are compared as the constraint promises, with different ports and cases. -/
theorem hostMatches_exact_names :
    hostMatches (some "Admin.Example.com:8080") (hostedRoute "admin.example.com") = true ↔
      Text.eqIgnoreAsciiCase "Admin.Example.com" "admin.example.com" = true :=
  (hostMatches_exact_iff (hostedRoute "admin.example.com")
    ⟨.name "admin.example.com" (by decide), none, rfl⟩
    ⟨.name "Admin.Example.com" (by decide), some "8080", by decide⟩ rfl).mpr trivial

/-- A request for one IPv6 host satisfies the constraint for another one. -/
theorem ipv6_hosts_confused :
    ¬ (hostMatches (some "[2001:db8::2]:8080") (hostedRoute "[2001:db8::1]") = true ↔
        Text.eqIgnoreAsciiCase "[2001:db8::2]" "[2001:db8::1]" = true) ∧
      HostValue.text ⟨.ipv6 "2001:db8::2" (by decide) (by decide), some "8080", by decide⟩ =
        "[2001:db8::2]:8080" ∧
      HostValue.text ⟨.ipv6 "2001:db8::1" (by decide) (by decide), none, rfl⟩ =
        "[2001:db8::1]" := by
  refine ⟨fun h => ?_, by decide +kernel, by decide +kernel⟩
  have hmatches : hostMatches (some "[2001:db8::2]:8080") (hostedRoute "[2001:db8::1]") = true := by
    decide +kernel
  exact absurd (h.mp hmatches) (by decide +kernel)

end Core
end ApiGateway
