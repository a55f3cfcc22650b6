import Mathlib.Data.List.Infix
import Mathlib.Tactic.SplitIfs

/-!
# Link targets and rules

Which names and targets a link may have (`server/links/targets.py`), and the rules its checked page
must pass (`server/links/rules.py`).

What Python's library and the HTML parser answer is a parameter (`Library`): how a URL is taken
apart, what an address is, where a page's links lead. Nothing proved here rests on it.

- `validateTarget`: the checks of a target, in their order.
- `firstFailure`: the first rule a page fails.
-/

namespace TigerDuck.Links

/-- What `urlsplit` tells of a URL. -/
structure UrlParts where
  scheme : String
  netloc : String
  hostname : Option String
  /-- `none` where `port` raises. -/
  port : Option (Option Nat)
  deriving DecidableEq, Repr

/-- An address of `ipaddress`. -/
inductive IpAddress
  | v4 (bits : Nat)
  | v6 (bits : Nat)
  deriving DecidableEq, Repr

/-- The functions the checks call that are not the repository's. -/
structure Library where
  /-- `none` where it raises. -/
  urlsplit : String → Option UrlParts
  urljoin : String → String → Option String
  lower : String → String
  repr : String → String
  ascii : String → String
  ipAddress : String → Option IpAddress
  isGlobal : IpAddress → Bool
  isMulticast : IpAddress → Bool
  /-- The `href` attributes of a page's `a[href]`. -/
  hrefs : String → List (Option String)

/-! ### Targets -/

/-- A character a name or a label may hold. -/
def isAlnum (c : Char) : Bool := c.isLower || c.isDigit

/-- `NAME_PATTERN`. -/
def isValidName (name : String) : Bool :=
  let cs := name.toList
  1 ≤ cs.length && cs.length ≤ 64 && cs.all fun c => isAlnum c || c = '-'

/-- `_LABEL`. -/
def isLabel (cs : List Char) : Bool :=
  cs.length ≤ 63 && (cs.head?.any isAlnum && cs.getLast?.any isAlnum) &&
    cs.all fun c => isAlnum c || c = '-'

def MAX_HOSTNAME : Nat := 253

/-- `_HOSTNAME`. -/
def isHostname (host : String) : Bool := (host.toList.splitOn '.').all isLabel

/-- `str.isspace`, or of the category `Cc`. -/
def isBlankOrControl (c : Char) : Bool :=
  c.toNat < 0x20 || (0x7f ≤ c.toNat && c.toNat ≤ 0xa0) || (0x2000 ≤ c.toNat && c.toNat ≤ 0x200a) ||
    [0x20, 0x1680, 0x2028, 0x2029, 0x202f, 0x205f, 0x3000].contains c.toNat

/-- Whether `host` is one of `allowedHosts` or a subdomain of one. -/
def hostAllowed (lib : Library) (host : String) (allowedHosts : List String) : Bool :=
  let host := lib.lower host
  allowedHosts.any fun allowed =>
    host = lib.lower allowed || ("." ++ lib.lower allowed).toList.isSuffixOf host.toList

/-- The URL, or the text of the `InvalidTarget`. -/
def validateTarget (lib : Library) (url : String) (allowedHosts : List String) :
    Except String String :=
  -- Before `urlsplit`, which drops tabs and newlines.
  if url.toList.any isBlankOrControl then
    .error "the URL holds whitespace or a control character"
  else
    match lib.urlsplit url with
    | none => .error "the URL cannot be parsed"
    | some parts =>
      if parts.scheme ≠ "https" then .error "the URL must use https"
      else if parts.netloc.toList.contains '@' then
        .error "the URL must not hold a user name or password"
      else
        match parts.hostname with
        | none => .error "the URL has no host"
        | some host =>
          if host = "" then .error "the URL has no host"
          else if MAX_HOSTNAME < host.length ∨ isHostname host = false then
            .error ("the host " ++ lib.repr host ++ " is not a plain host name")
          else if parts.port ≠ some none ∧ parts.port ≠ some (some 443) then
            .error "the URL must not name a port other than 443"
          else if hostAllowed lib host allowedHosts = false then
            .error ("the host " ++ host ++ " is not an allowed host")
          else .ok url

/-- What a URL that passes the checks has been found to be. -/
structure IsTarget (lib : Library) (allowedHosts : List String) (url : String) (parts : UrlParts)
    (host : String) : Prop where
  plain : ∀ c ∈ url.toList, isBlankOrControl c = false
  split : lib.urlsplit url = some parts
  scheme : parts.scheme = "https"
  netloc : '@' ∉ parts.netloc.toList
  hostname : parts.hostname = some host
  isHostname : isHostname host = true
  length : host.length ≤ MAX_HOSTNAME
  port : parts.port = some none ∨ parts.port = some (some 443)
  allowed : hostAllowed lib host allowedHosts = true

/-- A target that passes is returned as it is. -/
theorem validateTarget_ok {lib : Library} {allowedHosts : List String} {url url' : String}
    (h : validateTarget lib url allowedHosts = .ok url') :
    url' = url ∧ ∃ parts host, IsTarget lib allowedHosts url parts host := by
  unfold validateTarget at h
  split at h
  · cases h
  next hplain =>
  split at h
  · cases h
  next parts hsplit =>
  split at h
  · cases h
  next hscheme =>
  split at h
  · cases h
  next hnetloc =>
  split at h
  · cases h
  next host hhost =>
  split at h
  · cases h
  split at h
  · cases h
  next hname =>
  split at h
  · cases h
  next hport =>
  split at h <;> cases h
  next hallowed =>
  rw [not_or, not_lt, Bool.not_eq_false] at hname
  refine ⟨rfl, parts, host, fun c hc => ?_, hsplit, of_not_not hscheme, by simpa using hnetloc, hhost,
    hname.2, hname.1, ?_, (Bool.not_eq_false _).mp hallowed⟩
  · by_contra hblank
    exact hplain (List.any_eq_true.mpr ⟨c, hc, (Bool.not_eq_false _).mp hblank⟩)
  · by_contra hneither
    exact hport (not_or.mp hneither)

/-! ### Rules -/

/-- The rules of `server/links/rules.py`. -/
inductive Rule
  | status (equals : Nat)
  | finalHost (hosts : List String)
  | contains (text : String)
  | hrefSuffixCount (suffix : String) (min : Nat)
  deriving DecidableEq, Repr

/-- The bounds of a rule's fields. -/
def Rule.isValid : Rule → Bool
  | .status equals => 100 ≤ equals && equals ≤ 599
  | .finalHost hosts => 1 ≤ hosts.length && hosts.length ≤ 20 &&
      hosts.all fun host => 1 ≤ host.length && host.length ≤ 253
  | .contains text => 1 ≤ text.length && text.length ≤ 200
  | .hrefSuffixCount suffix min => 1 ≤ suffix.length && suffix.length ≤ 50 && (1 ≤ min && min ≤ 1000)

structure Page where
  status : Nat
  finalUrl : String
  body : String
  deriving DecidableEq, Repr

/-- The host a page came from. -/
def Page.host (lib : Library) (page : Page) : String :=
  ((lib.urlsplit page.finalUrl).bind (·.hostname)).getD ""

/-- Links whose `href` ends with `suffix`, in either case. -/
def hrefSuffixCount (lib : Library) (html suffix : String) : Nat :=
  (lib.hrefs html).countP fun href =>
    (lib.lower suffix).toList.isSuffixOf (lib.lower (href.getD "")).toList

/-- `_check`: what was found instead, where the page fails the rule. -/
def Rule.check (lib : Library) (page : Page) : Rule → Option String
  | .status equals =>
    if page.status = equals then none
    else some ("expected " ++ toString equals ++ ", found " ++ toString page.status)
  | .finalHost hosts =>
    if page.host lib ∈ hosts.map lib.lower then none
    else some ("expected " ++ ", ".intercalate hosts ++ ", found " ++ page.host lib)
  | .contains text =>
    if text.toList <:+: page.body.toList then none else some (lib.repr text ++ " not found")
  | .hrefSuffixCount suffix min =>
    let count := Links.hrefSuffixCount lib page.body suffix
    if min ≤ count then none
    else some ("expected at least " ++ toString min ++ " links ending " ++ suffix ++ ", found " ++
      toString count)

def Rule.type : Rule → String
  | .status _ => "status"
  | .finalHost _ => "final_host"
  | .contains _ => "contains"
  | .hrefSuffixCount .. => "href_suffix_count"

/-- The first rule `page` fails and what was found instead. -/
def firstFailure (lib : Library) (page : Page) (expectations : List Rule) : Option String :=
  if expectations.all Rule.isValid then
    expectations.findSome? fun rule => (rule.check lib page).map fun failure =>
      rule.type ++ ": " ++ failure
  else some "expectations: the stored rules are not valid"

/-- A page fails nothing exactly where the rules are valid ones and it passes each. -/
theorem firstFailure_eq_none_iff (lib : Library) (page : Page) (expectations : List Rule) :
    firstFailure lib page expectations = none ↔
      ∀ rule ∈ expectations, rule.isValid = true ∧ rule.check lib page = none := by
  unfold firstFailure
  split
  next hvalid =>
    rw [List.findSome?_eq_none_iff]
    refine forall₂_congr fun rule hrule => ?_
    rw [Option.map_eq_none_iff]
    exact (and_iff_right (List.all_eq_true.mp hvalid rule hrule)).symm
  next hvalid =>
    constructor
    · intro h
      cases h
    · intro h
      exact absurd (List.all_eq_true.mpr fun rule hrule => (h rule hrule).1) hvalid

end TigerDuck.Links
