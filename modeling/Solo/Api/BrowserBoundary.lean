import Solo.Lib.IpAddr

/-!
# The requests that pass the browser boundary (`is_trusted_request`)

A request names where it goes to in its `Host` header, in its URI, or in both, and where it comes
from in its `Origin` header. Without authentication each of these that is there must name this
machine, so a page that was rebound to it by DNS is not answered.
-/

namespace Solo

namespace Api

/-- An authority, as the parser of the `http` crate splits it. -/
structure Authority where
  asStr : List Char
  host : List Char
  portU16 : Option Nat
  deriving DecidableEq

/-- A URL, as the parser of the `url` crate splits it. -/
structure Url where
  scheme : String
  username : List Char
  password : Option (List Char)
  path : List Char
  query : Option (List Char)
  fragment : Option (List Char)
  hostStr : Option (List Char)
  portOrKnownDefault : Option Nat
  deriving DecidableEq

structure Parsers where
  parseAuthority : List Char → Option Authority
  parseUrl : List Char → Option Url

/-- A request URI. Its authority, if there is one, was made by the parser. -/
structure Uri (P : Parsers) where
  scheme : Option String
  authority : Option Authority
  parsed : ∀ a, authority = some a → P.parseAuthority a.asStr = some a

abbrev HeaderValue := List Nat

structure Request (P : Parsers) where
  uri : Uri P
  headers : List (String × HeaderValue)

def Request.getAll {P : Parsers} (request : Request P) (name : String) : List HeaderValue :=
  (request.headers.filter (·.1 = name)).map (·.2)

/-- `HeaderValue::to_str`. -/
def HeaderValue.toStr (value : HeaderValue) : Option (List Char) :=
  if value.all fun b => (32 ≤ b && b < 127) || b = 9 then some (value.map Char.ofNat) else none

def eqIgnoreAsciiCase (a b : List Char) : Bool := Text.toAsciiLowercase a = Text.toAsciiLowercase b

def isBracket (c : Char) : Bool := c = '[' || c = ']'

def isLoopbackHost (host : List Char) : Bool :=
  eqIgnoreAsciiCase host "localhost".toList ||
    (IpAddr.parse (Text.trimMatches isBracket host)).any IpAddr.isLoopback

section

variable (P : Parsers)

def parseAuthority (value : List Char) : Option Authority := do
  let authority ← P.parseAuthority value
  if '@' ∈ value || authority.host.isEmpty then none
  else if value.length ≠ authority.host.length && authority.portU16.isNone then none
  else some authority

/-- What `is_localhost_origin` and the origins of authenticated requests have in common. -/
def isPlainOrigin (url : Url) : Bool :=
  (url.scheme = "http" || url.scheme = "https") && url.username.isEmpty && url.password.isNone &&
    url.path = ['/'] && url.query.isNone && url.fragment.isNone

def isLocalhostOrigin (origin : List Char) : Bool :=
  match P.parseUrl origin with
  | none => false
  | some url => isPlainOrigin url && url.hostStr.any isLoopbackHost

/-- The last part of `is_trusted_request`: an origin that is not local, of an authenticated
request. -/
def isOwnOrigin (uriScheme : Option String) (authority : Option Authority) (origin : List Char) :
    Bool :=
  match P.parseUrl origin, authority with
  | some url, some authority =>
    if !isPlainOrigin url || uriScheme.any (· ≠ url.scheme) then false
    else
      let defaultPort := if url.scheme = "https" then 443 else 80
      (url.hostStr.any fun host => eqIgnoreAsciiCase host authority.host) &&
        url.portOrKnownDefault = some (authority.portU16.getD defaultPort)
  | _, _ => false

/-- The `Host` header, if there is one: an error where it is none or there are two. -/
def hostOf (values : List HeaderValue) : Except Unit (Option Authority) :=
  match values with
  | [] => .ok none
  | value :: rest =>
    match value.toStr.bind (parseAuthority P) with
    | none => .error ()
    | some host => if rest.isEmpty then .ok (some host) else .error ()

/-- The authority of the URI is one, and that of the `Host` header. -/
def uriAgrees (host uriAuthority : Option Authority) : Bool :=
  uriAuthority.all fun authority =>
    (parseAuthority P authority.asStr).isSome &&
      host.all fun host => eqIgnoreAsciiCase host.asStr authority.asStr

def isTrustedRequest (request : Request P) (authenticated : Bool) : Bool :=
  match hostOf P (request.getAll "host") with
  | .error _ => false
  | .ok host =>
    if !uriAgrees P host request.uri.authority then false
    else
      let authority := host.or request.uri.authority
      if !authenticated && authority.any fun value => !isLoopbackHost value.host then false
      else
        match request.getAll "origin" with
        | [] => true
        | [value] =>
          match value.toStr with
          | none => false
          | some origin =>
            if isLocalhostOrigin P origin then true
            else authenticated && isOwnOrigin P request.uri.scheme authority origin
        | _ => false

end

/-! ### What the parser is taken to do -/

/-- The host of an authority: something in brackets, or a name without any of the delimiters. -/
def IsHost (host : List Char) : Prop :=
  (∃ inner, host = '[' :: (inner ++ [']']) ∧ ']' ∉ inner) ∨ ∀ c ∈ host, c ≠ ':' ∧ c ≠ '[' ∧
    c ≠ ']' ∧ c ≠ '@'

/-- The number a port is written for: decimal digits, below `2 ^ 16`. -/
def portNumber (port : List Char) : Option Nat :=
  if port ≠ [] && port.all Char.isDigit then
    let n := port.foldl (fun n c => 10 * n + (c.toNat - '0'.toNat)) 0
    if n < 65536 then some n else none
  else none

/-- The parser of authorities: user information before an `@`, a host, a port after a `:`. Ports are
those of RFC 3986, digits only; the parser of the `http` crate also takes a `+` before them. -/
structure AuthoritySpec (parse : List Char → Option Authority) : Prop where
  asStr : ∀ v a, parse v = some a → a.asStr = v
  split : ∀ v a, parse v = some a → ∃ userinfo port, v = userinfo ++ a.host ++ port ∧
    (userinfo = [] ∨ ∃ u, userinfo = u ++ ['@']) ∧ IsHost a.host ∧
    (port = [] ∧ a.portU16 = none ∨ ∃ p, port = ':' :: p ∧ a.portU16 = portNumber p)

/-! ### Staying on this machine -/

/-- `localhost`, or a literal loopback address, possibly in brackets. -/
def IsLoopbackName (host : List Char) : Prop :=
  host.map Char.toLower = "localhost".toList ∨
    ∃ addr, IpAddr.parse (Text.trimMatches isBracket host) = some addr ∧ addr.isLoopback = true

/-- A loopback host, alone or with a port, and no user information. -/
def LoopbackAuthority (text : List Char) : Prop :=
  '@' ∉ text ∧ ∃ host, IsHost host ∧ IsLoopbackName host ∧
    (text = host ∨ ∃ p n, text = host ++ ':' :: p ∧ portNumber p = some n)

/-- An origin of this machine. -/
structure LoopbackOrigin (url : Url) : Prop where
  scheme : url.scheme = "http" ∨ url.scheme = "https"
  noUser : url.username = [] ∧ url.password = none
  bare : url.path = ['/'] ∧ url.query = none ∧ url.fragment = none
  host : ∃ host, url.hostStr = some host ∧ IsLoopbackName host

structure StaysOnLoopback (P : Parsers) (request : Request P) : Prop where
  oneHost : (request.getAll "host").length ≤ 1
  oneOrigin : (request.getAll "origin").length ≤ 1
  host : ∀ v ∈ request.getAll "host", ∃ text, HeaderValue.toStr v = some text ∧
    LoopbackAuthority text ∧
    ∀ a, request.uri.authority = some a → text.map Char.toLower = a.asStr.map Char.toLower
  uri : ∀ a, request.uri.authority = some a → LoopbackAuthority a.asStr
  origin : ∀ v ∈ request.getAll "origin", ∃ text url, HeaderValue.toStr v = some text ∧
    P.parseUrl text = some url ∧ LoopbackOrigin url

/-! ### Hosts -/

theorem isLoopbackHost_iff {host : List Char} : isLoopbackHost host = true ↔
    IsLoopbackName host := by
  unfold isLoopbackHost IsLoopbackName eqIgnoreAsciiCase
  rw [Bool.or_eq_true, decide_eq_true_eq, Option.any_eq_true]
  exact or_congr_left
    (by rw [show Text.toAsciiLowercase "localhost".toList = "localhost".toList by decide]; rfl)

theorem trimBrackets_lower (host : List Char) :
    Text.trimMatches isBracket (host.map Char.toLower) =
    (Text.trimMatches isBracket host).map Char.toLower := by
  have hsame : isBracket ∘ Char.toLower = isBracket := by
    funext c
    have hopen := IpAddr.toLower_eq_iff (c := c) (d := '[') rfl
    have hclose := IpAddr.toLower_eq_iff (c := c) (d := ']') rfl
    simp only [Function.comp_apply, isBracket, hopen, hclose]
  unfold Text.trimMatches
  rw [List.dropWhile_map, hsame, ← List.map_reverse, List.dropWhile_map, hsame, ← List.map_reverse]

theorem IsLoopbackName.of_lower {host other : List Char} (h : IsLoopbackName host)
    (heq : host.map Char.toLower = other.map Char.toLower) : IsLoopbackName other := by
  rcases h with hname | ⟨addr, haddr, hloopback⟩
  · exact .inl (heq ▸ hname)
  · refine .inr ⟨addr, ?_, hloopback⟩
    rw [← IpAddr.parse_lower, ← trimBrackets_lower, ← heq, trimBrackets_lower, IpAddr.parse_lower,
      haddr]

theorem IsHost.lower {host : List Char} (h : IsHost host) : IsHost (host.map Char.toLower) := by
  rcases h with ⟨inner, rfl, hinner⟩ | hplain
  · refine .inl
      ⟨inner.map Char.toLower, by rw [List.map_cons, List.map_append]; rfl, fun hmem => ?_⟩
    obtain ⟨c, hc, heq⟩ := List.mem_map.1 hmem
    exact hinner ((IpAddr.toLower_eq_iff rfl).1 heq ▸ hc)
  · refine .inr fun d hd => ?_
    obtain ⟨c, hc, rfl⟩ := List.mem_map.1 hd
    obtain ⟨h₁, h₂, h₃, h₄⟩ := hplain c hc
    exact ⟨mt (IpAddr.toLower_eq_iff rfl).1 h₁, mt (IpAddr.toLower_eq_iff rfl).1 h₂,
      mt (IpAddr.toLower_eq_iff rfl).1 h₃, mt (IpAddr.toLower_eq_iff rfl).1 h₄⟩

/-- Nothing, or a port with its colon. -/
def IsTail (tail : List Char) : Prop := tail = [] ∨ ∃ p, tail = ':' :: p

/-- A name without delimiters, followed by nothing or a colon, is what stands before the first
colon. -/
theorem takeWhile_host {host tail : List Char} (hhost : ∀ c ∈ host, c ≠ ':') (htail : IsTail tail) :
    (host ++ tail).takeWhile (· ≠ ':') = host := by
  have hall : ∀ c ∈ host, decide (c ≠ ':') = true := fun c hc => decide_eq_true (hhost c hc)
  rw [List.takeWhile_append_of_pos hall]
  rcases htail with rfl | ⟨p, rfl⟩
  · rw [List.takeWhile_nil, List.append_nil]
  · rw [List.takeWhile_cons_of_neg (by decide), List.append_nil]

theorem host_unique {host other x y : List Char} (hhost : IsHost host) (hother : IsHost other)
    (hx : IsTail x) (hy : IsTail y) (h : host ++ x = other ++ y) : host = other := by
  -- a name does not begin with a bracket
  have hopen {name z w : List Char} (hname : ∀ c ∈ name, c ≠ ':' ∧ c ≠ '[' ∧ c ≠ ']' ∧ c ≠ '@')
      (hz : IsTail z) (heq : '[' :: w = name ++ z) : False := by
    cases name with
    | nil => rcases hz with rfl | ⟨p, rfl⟩ <;> cases heq
    | cons c name => exact (hname c List.mem_cons_self).2.1 (List.cons.inj heq).1.symm
  rcases hhost with ⟨inner, rfl, hinner⟩ | hplain <;>
    rcases hother with ⟨inner', rfl, hinner'⟩ | hplain'
  · rw [List.cons_append, List.cons_append, List.append_assoc, List.append_assoc] at h
    rw [Text.eq_of_append_cons hinner hinner' (List.cons.inj h).2]
  · exact (hopen hplain' hy h).elim
  · exact (hopen hplain hx h.symm).elim
  · rw [← takeWhile_host (fun c hc => (hplain c hc).1) hx, h,
      takeWhile_host (fun c hc => (hplain' c hc).1) hy]

/-! ### Authorities and origins -/

/-- An authority text with its host. -/
def Splits (text host : List Char) : Prop :=
  '@' ∉ text ∧ IsHost host ∧ (text = host ∨ ∃ p n, text = host ++ ':' :: p ∧ portNumber p = some n)

theorem Splits.tail {text host : List Char} (h : Splits text host) : ∃ tail, text = host ++ tail ∧
    IsTail tail := by
  rcases h.2.2 with rfl | ⟨p, -, rfl, -⟩
  · exact ⟨[], (List.append_nil _).symm, .inl rfl⟩
  · exact ⟨_, rfl, .inr ⟨p, rfl⟩⟩

/-- Authorities that agree up to case have hosts that do. -/
theorem Splits.host_lower {text other host host' : List Char} (h : Splits text host)
    (h' : Splits other host')
    (heq : text.map Char.toLower = other.map Char.toLower) :
    host.map Char.toLower = host'.map Char.toLower := by
  have htail {tail : List Char} (ht : IsTail tail) : IsTail (tail.map Char.toLower) := by
    rcases ht with rfl | ⟨p, rfl⟩
    · exact .inl rfl
    · exact .inr ⟨p.map Char.toLower, rfl⟩
  obtain ⟨x, rfl, hx⟩ := h.tail
  obtain ⟨y, rfl, hy⟩ := h'.tail
  rw [List.map_append, List.map_append] at heq
  exact host_unique h.2.1.lower h'.2.1.lower (htail hx) (htail hy) heq

theorem Splits.loopback {text host : List Char} (h : Splits text host)
    (hname : IsLoopbackName host) : LoopbackAuthority text := ⟨h.1, host, h.2.1, hname, h.2.2⟩

variable {P : Parsers}

theorem parseAuthority_splits (hspec : AuthoritySpec P.parseAuthority) {value : List Char}
    {a : Authority}
    (h : parseAuthority P value = some a) : P.parseAuthority value = some a ∧
    Splits value a.host := by
  obtain ⟨a', ha', hchecked⟩ := Option.bind_eq_some_iff.1 h
  split_ifs at hchecked with huser hport
  obtain rfl := Option.some.inj hchecked
  rw [Bool.or_eq_true, decide_eq_true_eq, not_or] at huser
  obtain ⟨userinfo, port, hvalue, huserinfo, hhost, hparts⟩ := hspec.split value a' ha'
  have hnone : userinfo = [] := by
    rcases huserinfo with hnil | ⟨u, rfl⟩
    · exact hnil
    · exact absurd (by rw [hvalue]; simp) huser.1
  subst hnone
  rw [List.nil_append] at hvalue
  refine ⟨ha', huser.1, hhost, ?_⟩
  rcases hparts with ⟨rfl, -⟩ | ⟨p, rfl, hnumber⟩
  · exact .inl (hvalue.trans (List.append_nil _))
  · right
    cases hsome : portNumber p with
    | some n => exact ⟨p, n, hvalue, hsome⟩
    | none =>
      refine absurd ?_ hport
      rw [hnumber, hsome, hvalue]
      simp

theorem isPlainOrigin_iff {url : Url} : isPlainOrigin url = true ↔
    (url.scheme = "http" ∨ url.scheme = "https") ∧ (url.username = [] ∧ url.password = none) ∧
      url.path = ['/'] ∧ url.query = none ∧ url.fragment = none := by
  unfold isPlainOrigin
  simp only [Bool.and_eq_true, Bool.or_eq_true, decide_eq_true_eq, List.isEmpty_iff,
    Option.isNone_iff_eq_none]
  tauto

theorem isLocalhostOrigin_eq {origin : List Char} (h : isLocalhostOrigin P origin = true) :
    ∃ url, P.parseUrl origin = some url ∧ LoopbackOrigin url := by
  unfold isLocalhostOrigin at h
  cases hurl : P.parseUrl origin with
  | none =>
    rw [hurl] at h
    cases h
  | some url =>
    rw [hurl] at h
    dsimp only at h
    rw [Bool.and_eq_true, isPlainOrigin_iff, Option.any_eq_true] at h
    obtain ⟨⟨hscheme, huser, hbare⟩, host, hhost, hloopback⟩ := h
    exact ⟨url, rfl, hscheme, huser, hbare, host, hhost, isLoopbackHost_iff.1 hloopback⟩

/-- No `Host` header, or one that is an authority. -/
theorem hostOf_eq_ok {values : List HeaderValue} {host : Option Authority}
    (h : hostOf P values = .ok host) : (values = [] ∧ host = none) ∨
      ∃ value text a, values = [value] ∧ HeaderValue.toStr value = some text ∧
      parseAuthority P text = some a ∧ host = some a := by
  unfold hostOf at h
  cases values with
  | nil => exact .inl ⟨rfl, (Except.ok.inj h).symm⟩
  | cons value rest =>
    dsimp only at h
    cases hparsed : (HeaderValue.toStr value).bind (parseAuthority P) with
    | none =>
      rw [hparsed] at h
      cases h
    | some a =>
      rw [hparsed] at h
      dsimp only at h
      obtain ⟨text, htext, ha⟩ := Option.bind_eq_some_iff.1 hparsed
      split_ifs at h with hrest
      rw [List.isEmpty_iff.1 hrest]
      exact .inr ⟨value, text, a, rfl, htext, ha, (Except.ok.inj h).symm⟩

/-- The checks that an accepted request has passed. -/
theorem isTrustedRequest_eq_true {request : Request P} {authenticated : Bool}
    (h : isTrustedRequest P request authenticated = true) : ∃ host,
      hostOf P (request.getAll "host") = .ok host ∧ uriAgrees P host request.uri.authority = true ∧
      (authenticated = false → ∀ a, host.or request.uri.authority = some a →
        isLoopbackHost a.host = true) ∧
      (request.getAll "origin" = [] ∨ ∃ value origin, request.getAll "origin" = [value] ∧
        HeaderValue.toStr value = some origin ∧
          (authenticated = false → isLocalhostOrigin P origin = true)) := by
  unfold isTrustedRequest at h
  cases hhost : hostOf P (request.getAll "host") with
  | error e =>
    rw [hhost] at h
    cases h
  | ok host =>
    rw [hhost] at h
    dsimp only at h
    split_ifs at h with huri hname
    refine ⟨host, rfl, by simpa using huri, ?_, ?_⟩
    · rintro rfl a ha
      rw [ha] at hname
      simpa using hname
    · cases horigins : request.getAll "origin" with
      | nil => exact .inl rfl
      | cons value rest =>
        cases rest with
        | cons second rest =>
          rw [horigins] at h
          cases h
        | nil =>
          right
          rw [horigins] at h
          dsimp only at h
          cases htext : HeaderValue.toStr value with
          | none =>
            rw [htext] at h
            cases h
          | some origin =>
            rw [htext] at h
            dsimp only at h
            refine ⟨value, origin, rfl, htext, ?_⟩
            rintro rfl
            by_contra hnot
            rw [if_neg hnot] at h
            cases h

theorem uriAgrees_iff {host uriAuthority : Option Authority} :
    uriAgrees P host uriAuthority = true ↔
    ∀ a, uriAuthority = some a → (parseAuthority P a.asStr).isSome = true ∧
      ∀ b, host = some b → b.asStr.map Char.toLower = a.asStr.map Char.toLower := by
  unfold uriAgrees
  rw [Option.all_eq_true]
  refine forall₂_congr fun a _ => ?_
  rw [Bool.and_eq_true, Option.all_eq_true]
  exact and_congr_right fun _ => forall₂_congr fun b _ => decide_eq_true_iff

end Api

/-- What is accepted without authentication stays on this machine, and without an origin it is
accepted with authentication too. -/
theorem isTrustedRequest_loopback (P : Api.Parsers) (hspec : Api.AuthoritySpec P.parseAuthority)
    (request : Api.Request P) (h : Api.isTrustedRequest P request false = true) :
    Api.StaysOnLoopback P request ∧
      (request.getAll "origin" = [] → Api.isTrustedRequest P request true = true) := by
  obtain ⟨host, hhost, huri, hname, horigin⟩ := Api.isTrustedRequest_eq_true h
  have huriSplits : ∀ a, request.uri.authority = some a → Api.Splits a.asStr a.host := by
    intro a ha
    obtain ⟨b, hb⟩ := Option.isSome_iff_exists.1 (Api.uriAgrees_iff.1 huri a ha).1
    obtain ⟨hparsed, hsplits⟩ := Api.parseAuthority_splits hspec hb
    obtain rfl := Option.some.inj (hparsed.symm.trans (request.uri.parsed a ha))
    exact hsplits
  refine ⟨?_, fun hnone => ?_⟩
  · have horigins : (request.getAll "origin").length ≤ 1 ∧
        ∀ v ∈ request.getAll "origin", ∃ text url,
        Api.HeaderValue.toStr v = some text ∧ P.parseUrl text = some url ∧
        Api.LoopbackOrigin url := by
      rcases horigin with hnil | ⟨value, origin, hvalue, htext, hlocal⟩
      · rw [hnil]
        exact ⟨Nat.zero_le 1, fun v hv => absurd hv List.not_mem_nil⟩
      · obtain ⟨url, hurl, hloopback⟩ := Api.isLocalhostOrigin_eq (hlocal rfl)
        rw [hvalue]
        refine ⟨Nat.le_refl 1, fun v hv => ?_⟩
        obtain rfl := List.mem_singleton.1 hv
        exact ⟨origin, url, htext, hurl, hloopback⟩
    rcases Api.hostOf_eq_ok hhost with ⟨hnil, rfl⟩ | ⟨value, text, a, hvalue, htext, ha, rfl⟩
    · refine ⟨by rw [hnil]; exact Nat.zero_le 1, horigins.1, fun v hv => ?_, fun u hu => ?_, horigins.2⟩
      · rw [hnil] at hv
        cases hv
      · exact (huriSplits u hu).loopback (Api.isLoopbackHost_iff.1 (hname rfl u hu))
    · obtain ⟨hparsed, hsplits⟩ := Api.parseAuthority_splits hspec ha
      have hloopback : Api.IsLoopbackName a.host := Api.isLoopbackHost_iff.1 (hname rfl a rfl)
      have hagrees : ∀ u, request.uri.authority = some u →
          text.map Char.toLower = u.asStr.map Char.toLower := by
        intro u hu
        have hsame := (Api.uriAgrees_iff.1 huri u hu).2 a rfl
        rwa [hspec.asStr text a hparsed] at hsame
      refine ⟨by rw [hvalue]; exact Nat.le_refl 1, horigins.1, fun v hv => ?_, fun u hu => ?_, horigins.2⟩
      · rw [hvalue] at hv
        obtain rfl := List.mem_singleton.1 hv
        exact ⟨text, htext, hsplits.loopback hloopback, hagrees⟩
      · have hhosts := hsplits.host_lower (huriSplits u hu) (hagrees u hu)
        exact (huriSplits u hu).loopback (hloopback.of_lower hhosts)
  · unfold Api.isTrustedRequest
    rw [hhost, hnone]
    dsimp only
    rw [huri]
    rfl

/-! ### A request to a local port -/

namespace Api

namespace LocalRequest

def authorityText : List Char := "localhost:17821".toList

def authority : Authority := ⟨authorityText, "localhost".toList, some 17821⟩

def url : Url := ⟨"http", [], none, ['/'], none, none, some "localhost".toList, some 5173⟩

def parsers : Parsers :=
  { parseAuthority := fun v => if v = authorityText then some authority else none
    parseUrl := fun v => if v = "http://localhost:5173".toList then some url else none }

def request : Request parsers :=
  { uri := ⟨none, none, fun a h => by cases h⟩
    headers := [("host", authorityText.map Char.toNat), ("origin", "http://localhost:5173".toList.map Char.toNat)] }

theorem authoritySpec : AuthoritySpec parsers.parseAuthority := by
  have honly : ∀ v a, parsers.parseAuthority v = some a → v = authorityText ∧ a = authority := by
    intro v a h
    by_cases hv : v = authorityText
    · rw [show parsers.parseAuthority v = some authority from if_pos hv] at h
      exact ⟨hv, (Option.some.inj h).symm⟩
    · rw [show parsers.parseAuthority v = none from if_neg hv] at h
      cases h
  constructor
  case asStr =>
    intro v a h
    obtain ⟨rfl, rfl⟩ := honly v a h
    rfl
  case split =>
    intro v a h
    obtain ⟨rfl, rfl⟩ := honly v a h
    have hplain : ("localhost".toList.all fun c => c ≠ ':' && c ≠ '[' && c ≠ ']' && c ≠ '@') =
        true := by decide
    have hhost : IsHost authority.host := by
      refine .inr fun c hc => ?_
      simpa [and_assoc] using List.all_eq_true.1 hplain c hc
    have hport : authority.portU16 = portNumber "17821".toList := by decide +kernel
    exact ⟨[],
      ":17821".toList, by decide +kernel, .inl rfl, hhost, .inr ⟨"17821".toList, by decide +kernel, hport⟩⟩

end LocalRequest

end Api

open Api.LocalRequest in
theorem isTrustedRequest_loopback_local :
    Api.StaysOnLoopback parsers request ∧
      (request.getAll "origin" = [] → Api.isTrustedRequest parsers request true = true) :=
  isTrustedRequest_loopback parsers authoritySpec request (by decide +kernel)

end Solo
