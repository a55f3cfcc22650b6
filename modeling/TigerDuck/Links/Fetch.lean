import TigerDuck.Links.Targets

/-!
# Fetching a link's page

`fetch`, `_fetch_page` and `run_check` of `server/links/checker.py`: a target is asked for at the
addresses its host resolves to, its redirects are followed, and the page that comes back is held
against the link's rules.

The network is an oracle (`World`): what a name resolves to and how a request ends may change with
every request made before, so that a second DNS answer may differ from the first. Left out are the
bytes of TLS, of HTTP and of the completed certificate chains: a request that is sent once more
after its chain was completed is one request.

- `hops`: the loop over the redirects.
- `check_safe`: where the requests of a check go, and when it passes.
-/

namespace TigerDuck.Links

/-- An exception, by its type's name and its text. -/
structure Exc where
  type : String
  message : String
  deriving DecidableEq, Repr

/-- `_describe`. -/
def Exc.describe (e : Exc) : String :=
  String.ofList (("fetch: " ++ e.type ++ ": " ++ e.message).toList.take 300)

/-- What ends a fetch without a page. -/
inductive Stop
  /-- An `Unreachable`. -/
  | unreachable (text : String)
  /-- Any other `CheckFailure`. -/
  | failure (text : String)
  | raised (e : Exc)
  deriving DecidableEq, Repr

/-- A request to one address. -/
structure Request where
  url : String
  address : String
  deriving DecidableEq, Repr

/-- How a request ends. -/
inductive RequestAnswer
  | page (status : Nat) (body : String)
  | redirect (location : String)
  /-- `ConnectError` and `ConnectTimeout`. -/
  | connectError (e : Exc)
  /-- Another `TimeoutException`, a `NetworkError` or a `RemoteProtocolError`. -/
  | networkError (e : Exc)
  /-- The check's deadline has passed. -/
  | outOfTime
  | encoded (encoding : String)
  /-- Another `HTTPError`. -/
  | httpError (e : Exc)
  | raises (e : Exc)
  deriving DecidableEq, Repr

/-- The network, after the requests made so far. -/
structure World where
  /-- The addresses of a host, none where `getaddrinfo` fails. -/
  resolve : List Request → String → List String
  answer : List Request → Request → RequestAnswer

def MAX_REDIRECTS : Nat := 5

/-! ### Addresses -/

/-- The IPv4 address an IPv6 one stands for. -/
def IpAddress.unmapped : IpAddress → IpAddress
  | .v4 bits => .v4 bits
  | .v6 bits => if bits >>> 32 = 0xffff then .v4 (bits % 0x100000000) else .v6 bits

/-- `address in _NAT64`. -/
def IpAddress.isNat64 : IpAddress → Bool
  | .v4 _ => false
  | .v6 bits => bits >>> 32 = 0x64ff9b <<< 64

def IpAddress.isPublic (lib : Library) (address : IpAddress) : Bool :=
  let address := address.unmapped
  lib.isGlobal address && !lib.isMulticast address && !address.isNat64

/-- Whether an address as `getaddrinfo` writes it is a public one. -/
def isPublic (lib : Library) (raw : String) : Bool := (lib.ipAddress raw).any (·.isPublic lib)

/-- The first of the addresses that refuses the hop. -/
def refused (lib : Library) (host : String) : List String → Option Stop
  | [] => none
  | raw :: rest =>
    match lib.ipAddress raw with
    | none => some (.raised ⟨"ValueError",
        lib.repr raw ++ " does not appear to be an IPv4 or IPv6 address"⟩)
    | some address =>
      if address.isPublic lib then refused lib host rest
      else some (.failure ("fetch: " ++ host ++ " resolves to " ++ raw ++ ", not a public address"))

/-- `_public_addresses`. -/
def publicAddresses (lib : Library) (host : String) (resolved : List String) :
    Except Stop (List String) :=
  let addresses := resolved.eraseDups
  if addresses = [] then .error (.unreachable ("fetch: " ++ host ++ " does not resolve"))
  else
    match refused lib host addresses with
    | some stop => .error stop
    | none => .ok addresses

/-! ### The fetch -/

/-- What a hop gives. -/
inductive Reply
  | page (page : Page)
  | location (location : String)
  deriving DecidableEq, Repr

/-- Ask the addresses in turn; one that cannot be reached hands over to the next. -/
def tryEach (world : World) (url : String) :
    List String → Exc → List Request → Except Stop Reply × List Request
  | [], unreachable, asked => (.error (.unreachable unreachable.describe), asked)
  | address :: rest, _, asked =>
    let request : Request := ⟨url, address⟩
    match world.answer asked request with
    | .page status body => (.ok (.page ⟨status, url, body⟩), asked ++ [request])
    | .redirect location => (.ok (.location location), asked ++ [request])
    | .connectError e => tryEach world url rest e (asked ++ [request])
    | .networkError e => (.error (.unreachable e.describe), asked ++ [request])
    | .outOfTime => (.error (.unreachable "fetch: the page took too long to load"), asked ++ [request])
    | .encoded encoding =>
      (.error (.failure ("fetch: the page is sent with Content-Encoding " ++ encoding)), asked ++ [request])
    | .httpError e => (.error (.failure e.describe), asked ++ [request])
    | .raises e => (.error (.raised e), asked ++ [request])

/-- `_next_hop`. -/
def nextHop (lib : Library) (url location : String) (allowedHosts : List String) : Except Stop String :=
  let target := (lib.urljoin url location).getD location
  match validateTarget lib target allowedHosts with
  | .ok target => .ok target
  | .error text => .error (.failure ("redirect: to " ++
      String.ofList ((lib.ascii target).toList.take 200) ++ ": " ++ text))

/-- The host of a URL. -/
def hostOf (lib : Library) (url : String) : String :=
  ((lib.urlsplit url).bind (·.hostname)).getD ""

/-- The hops that are left. -/
def hops (lib : Library) (world : World) (allowedHosts : List String) :
    Nat → String → List Request → Except Stop Page × List Request
  | 0, _, asked =>
    (.error (.failure ("redirect: more than " ++ toString MAX_REDIRECTS ++ " redirects")), asked)
  | left + 1, url, asked =>
    match publicAddresses lib (hostOf lib url) (world.resolve asked (hostOf lib url)) with
    | .error stop => (.error stop, asked)
    | .ok addresses =>
      match tryEach world url addresses ⟨"NoneType", "None"⟩ asked with
      | (.error stop, asked) => (.error stop, asked)
      | (.ok (.page page), asked) => (.ok page, asked)
      | (.ok (.location location), asked) =>
        match nextHop lib url location allowedHosts with
        | .error stop => (.error stop, asked)
        | .ok url => hops lib world allowedHosts left url asked

/-- `fetch`, with the requests it has made. -/
def fetch (lib : Library) (world : World) (allowedHosts : List String) (url : String) :
    Except Stop Page × List Request :=
  match validateTarget lib url allowedHosts with
  | .error text => (.error (.failure ("invalid target: " ++ text)), [])
  | .ok _ => hops lib world allowedHosts (MAX_REDIRECTS + 1) url []

/-! ### The check -/

/-- A fetch in its thread, which the check may give up waiting for. -/
structure Attempt where
  world : World
  gaveUp : Bool

/-- `_fetch_in_thread`. A thread nobody waits for goes on. -/
def Attempt.fetch (lib : Library) (allowedHosts : List String) (url : String) (a : Attempt) :
    Except Stop Page × List Request :=
  let fetched := Links.fetch lib a.world allowedHosts url
  (if a.gaveUp then .error (.unreachable "fetch: no answer in time") else fetched.1, fetched.2)

/-- Whether a page is asked for once more. -/
def isAskedAgain : Except Stop Page → Bool
  | .ok page => 500 ≤ page.status
  | .error (.unreachable _) => true
  | .error _ => false

/-- `_fetch_page`. -/
def fetchPage (lib : Library) (allowedHosts : List String) (url : String) (first second : Attempt) :
    Except Stop Page × List Request :=
  let once := first.fetch lib allowedHosts url
  if isAskedAgain once.1 then
    let again := second.fetch lib allowedHosts url
    (again.1, once.2 ++ again.2)
  else once

structure CheckResult where
  ok : Bool
  detail : String
  deriving DecidableEq, Repr

/-- What a fetched page says of a link. -/
def checkResult (lib : Library) (expectations : List Rule) : Except Stop Page → CheckResult
  | .error (.unreachable text) => ⟨false, text⟩
  | .error (.failure text) => ⟨false, text⟩
  | .error (.raised e) => ⟨false, e.describe⟩
  | .ok page =>
    match firstFailure lib page expectations with
    | some failure => ⟨false, failure⟩
    | none => ⟨true, toString page.status ++ " from " ++ page.host lib⟩

/-- `run_check`, with the requests it has made. -/
def runCheck (lib : Library) (allowedHosts : List String) (url : String) (expectations : List Rule)
    (first second : Attempt) : CheckResult × List Request :=
  let fetched := fetchPage lib allowedHosts url first second
  (checkResult lib expectations fetched.1, fetched.2)

/-! ### Where the requests go -/

variable {lib : Library} {world : World} {allowedHosts : List String} {url : String}

/-- A request goes to an address its target's host was found at, where all the addresses found were
public ones. -/
structure Request.IsSafe (lib : Library) (world : World) (allowedHosts : List String)
    (asked : List Request) (r : Request) : Prop where
  target : ∃ parts, IsTarget lib allowedHosts r.url parts (hostOf lib r.url)
  address : ∃ before, before <+: asked ∧ r.address ∈ world.resolve before (hostOf lib r.url) ∧
    ∀ raw ∈ world.resolve before (hostOf lib r.url), isPublic lib raw = true

/-- A page is what the last request was answered with. -/
def Answered (world : World) (asked : List Request) (page : Page) : Prop :=
  ∃ before r, asked = before ++ [r] ∧ r.url = page.finalUrl ∧
    world.answer before r = .page page.status page.body

/-- What holds of a fetch and the requests it has made. -/
structure IsFetch (lib : Library) (world : World) (allowedHosts : List String)
    (fetched : Except Stop Page × List Request) : Prop where
  safe : ∀ r ∈ fetched.2, r.IsSafe lib world allowedHosts fetched.2
  targets : ∃ urls : List String, urls.length ≤ MAX_REDIRECTS + 1 ∧ ∀ r ∈ fetched.2, r.url ∈ urls
  page : ∀ page, fetched.1 = .ok page → Answered world fetched.2 page

theorem Request.IsSafe.mono {asked asked' : List Request} {r : Request}
    (h : r.IsSafe lib world allowedHosts asked) (hle : asked <+: asked') :
    r.IsSafe lib world allowedHosts asked' := by
  obtain ⟨before, hbefore, hrest⟩ := h.address
  exact ⟨h.target, before, hbefore.trans hle, hrest⟩

theorem hostOf_eq {parts : UrlParts} {host : String} (h : IsTarget lib allowedHosts url parts host) :
    hostOf lib url = host := by
  rw [hostOf, h.split]
  show parts.hostname.getD "" = host
  rw [h.hostname]
  rfl

theorem isPublic_of_refused {host : String} {addresses : List String}
    (h : refused lib host addresses = none) : ∀ raw ∈ addresses, isPublic lib raw = true := by
  induction addresses with
  | nil => exact fun raw hraw => absurd hraw List.not_mem_nil
  | cons first rest ih =>
    rw [refused] at h
    split at h
    · cases h
    next address haddress =>
      split at h
      next hpublic =>
        intro raw hraw
        rcases List.mem_cons.mp hraw with rfl | hrest
        · rw [isPublic, haddress]
          exact hpublic
        · exact ih h raw hrest
      next => cases h

/-- One address that is not public refuses all. -/
theorem publicAddresses_ok {host : String} {resolved addresses : List String}
    (h : publicAddresses lib host resolved = .ok addresses) :
    (∀ raw ∈ addresses, raw ∈ resolved) ∧ ∀ raw ∈ resolved, isPublic lib raw = true := by
  simp only [publicAddresses] at h
  split at h
  · cases h
  next =>
    split at h <;> cases h
    next hrefused =>
      refine ⟨fun raw hraw => List.mem_eraseDups.mp hraw, fun raw hraw => ?_⟩
      exact isPublic_of_refused hrefused raw (List.mem_eraseDups.mpr hraw)

/-- The requests of one hop. -/
theorem tryEach_spec (world : World) (url : String) (addresses : List String) (e : Exc)
    (asked : List Request) :
    ∃ more, (tryEach world url addresses e asked).2 = asked ++ more ∧
      (∀ r ∈ more, r.url = url ∧ r.address ∈ addresses) ∧
      ∀ page, (tryEach world url addresses e asked).1 = .ok (.page page) →
        page.finalUrl = url ∧ Answered world (asked ++ more) page := by
  induction addresses generalizing e asked with
  | nil => exact ⟨[], (List.append_nil _).symm, fun r hr => absurd hr List.not_mem_nil, fun _ h => nomatch h⟩
  | cons address rest ih =>
    -- Whatever ends the hop at this address has made one request.
    have hone : ∀ r ∈ [(⟨url, address⟩ : Request)], r.url = url ∧ r.address ∈ address :: rest := by
      intro r hr
      obtain rfl := List.mem_singleton.mp hr
      exact ⟨rfl, List.mem_cons_self⟩
    rw [tryEach]
    split
    next status body hanswer =>
      refine ⟨_, rfl, hone, fun page hpage => ?_⟩
      obtain rfl := Reply.page.inj (Except.ok.inj hpage)
      exact ⟨rfl, asked, _, rfl, rfl, hanswer⟩
    next => exact ⟨_, rfl, hone, fun _ h => by cases h⟩
    next e' _ =>
      obtain ⟨more, hasked, hmore, hpage⟩ := ih e' (asked ++ [⟨url, address⟩])
      have hmoved : asked ++ ([⟨url, address⟩] ++ more) = asked ++ [⟨url, address⟩] ++ more :=
        (List.append_assoc ..).symm
      refine ⟨[⟨url, address⟩] ++ more, hasked.trans hmoved.symm, fun r hr => ?_, fun page h => ?_⟩
      · rcases List.mem_append.mp hr with hfirst | hr
        · exact hone r hfirst
        · exact ⟨(hmore r hr).1, List.mem_cons_of_mem _ (hmore r hr).2⟩
      · rw [hmoved]
        exact hpage page h
    all_goals exact ⟨_, rfl, hone, fun _ h => by cases h⟩

theorem nextHop_ok {location url' : String} (h : nextHop lib url location allowedHosts = .ok url') :
    ∃ parts host, IsTarget lib allowedHosts url' parts host := by
  simp only [nextHop] at h
  split at h <;> cases h
  next htarget =>
    obtain ⟨heq, hfound⟩ := validateTarget_ok htarget
    rw [heq]
    exact hfound

/-- The requests of the hops that are left, by induction on how many. -/
theorem hops_spec (world : World) (left : Nat) {parts : UrlParts} {host : String} (asked : List Request)
    (htarget : IsTarget lib allowedHosts url parts host) :
    ∃ more, (hops lib world allowedHosts left url asked).2 = asked ++ more ∧
      (∀ r ∈ more, r.IsSafe lib world allowedHosts (asked ++ more)) ∧
      (∃ urls : List String, urls.length ≤ left ∧ ∀ r ∈ more, r.url ∈ urls) ∧
      ∀ page, (hops lib world allowedHosts left url asked).1 = .ok page →
        Answered world (asked ++ more) page := by
  have hnone : ∀ {stop : Stop} (page : Page), (Except.error stop : Except Stop Page) = .ok page →
      Answered world (asked ++ []) page := fun _ h => by cases h
  induction left generalizing url asked parts host with
  | zero =>
    exact ⟨[], (List.append_nil _).symm, fun r hr => absurd hr List.not_mem_nil,
      ⟨[], le_rfl, fun r hr => absurd hr List.not_mem_nil⟩, hnone⟩
  | succ left ih =>
    have hhost := hostOf_eq htarget
    rw [hops]
    split
    next =>
      exact ⟨[], (List.append_nil _).symm, fun r hr => absurd hr List.not_mem_nil,
        ⟨[], Nat.zero_le _, fun r hr => absurd hr List.not_mem_nil⟩, hnone⟩
    next addresses haddresses =>
      obtain ⟨hresolved, hpublic⟩ := publicAddresses_ok haddresses
      obtain ⟨more, hasked, hmore, hpage⟩ :=
        tryEach_spec world url addresses ⟨"NoneType", "None"⟩ asked
      have hsafe : ∀ r ∈ more, r.IsSafe lib world allowedHosts (asked ++ more) := fun r hr => by
        obtain ⟨rfl, haddress⟩ := hmore r hr
        exact ⟨⟨parts, hhost ▸ htarget⟩, asked, List.prefix_append .., hresolved _ haddress, hpublic⟩
      have hurls : ∃ urls : List String, urls.length ≤ left + 1 ∧ ∀ r ∈ more, r.url ∈ urls :=
        ⟨[url], Nat.le_add_left 1 left, fun r hr => List.mem_singleton.mpr (hmore r hr).1⟩
      split
      next stop asked' heq =>
        rw [heq] at hasked
        exact ⟨more, hasked, hsafe, hurls, fun _ h => by cases h⟩
      next page asked' heq =>
        rw [heq] at hasked hpage
        refine ⟨more, hasked, hsafe, hurls, fun page' h => ?_⟩
        obtain rfl := Except.ok.inj h
        exact (hpage page rfl).2
      next location asked' heq =>
        rw [heq] at hasked
        split
        next => exact ⟨more, hasked, hsafe, hurls, fun _ h => by cases h⟩
        next url' hnext =>
          obtain ⟨parts', host', htarget'⟩ := nextHop_ok hnext
          have hasked : asked' = asked ++ more := hasked
          obtain ⟨rest, hrest, hsafe', ⟨urls, hlength, hurls⟩, hpage'⟩ :=
            ih asked' htarget' fun _ h => by cases h
          have hmoved : asked' ++ rest = asked ++ (more ++ rest) := by
            rw [hasked, List.append_assoc]
          refine ⟨more ++ rest, hrest.trans hmoved, fun r hr => ?_, ⟨url :: urls, ?_, fun r hr => ?_⟩, ?_⟩
          · rw [← hmoved]
            rcases List.mem_append.mp hr with hr | hr
            · rw [hasked]
              exact (hsafe r hr).mono (List.prefix_append ..)
            · exact hsafe' r hr
          · exact Nat.succ_le_succ hlength
          · rcases List.mem_append.mp hr with hr | hr
            · rw [(hmore r hr).1]
              exact List.mem_cons_self
            · exact List.mem_cons_of_mem _ (hurls r hr)
          · rw [← hmoved]
            exact hpage'

theorem fetch_spec (lib : Library) (world : World) (allowedHosts : List String) (url : String) :
    IsFetch lib world allowedHosts (fetch lib world allowedHosts url) := by
  unfold fetch
  split
  next =>
    exact ⟨fun r hr => absurd hr List.not_mem_nil, ⟨[], Nat.zero_le _, fun r hr => absurd hr List.not_mem_nil⟩,
      fun _ h => by cases h⟩
  next htarget =>
    obtain ⟨rfl, parts, host, htarget⟩ := validateTarget_ok htarget
    obtain ⟨more, hasked, hsafe, hurls, hpage⟩ := hops_spec world (MAX_REDIRECTS + 1) [] htarget
    rw [List.nil_append] at hasked hsafe hpage
    exact ⟨by rwa [hasked], by rwa [hasked], by rwa [hasked]⟩

theorem Attempt.fetch_spec (lib : Library) (allowedHosts : List String) (url : String) (a : Attempt) :
    IsFetch lib a.world allowedHosts (a.fetch lib allowedHosts url) := by
  have hfetch := Links.fetch_spec lib a.world allowedHosts url
  refine ⟨hfetch.safe, hfetch.targets, fun page hpage => hfetch.page page ?_⟩
  simp only [Attempt.fetch] at hpage
  split at hpage
  · cases hpage
  · exact hpage

/-- A check passes exactly where the page that counts passes valid rules. -/
theorem checkResult_ok_iff (lib : Library) (expectations : List Rule) (fetched : Except Stop Page) :
    (checkResult lib expectations fetched).ok = true ↔
      ∃ page, fetched = .ok page ∧
        ∀ rule ∈ expectations, rule.isValid = true ∧ rule.check lib page = none := by
  cases fetched with
  | error stop => cases stop <;> simp [checkResult]
  | ok page =>
    rw [checkResult]
    constructor
    · intro h
      refine ⟨page, rfl, (firstFailure_eq_none_iff lib page expectations).mp ?_⟩
      split at h
      · cases h
      · assumption
    · rintro ⟨page', hpage, hrules⟩
      obtain rfl := Except.ok.inj hpage
      rw [(firstFailure_eq_none_iff lib page expectations).mpr hrules]

/-- The page a check goes by: the first one, or the second where the first attempt was unreachable or
answered with a server's error. -/
def Counts (lib : Library) (allowedHosts : List String) (url : String) (first second : Attempt)
    (page : Page) : Prop :=
  (first.fetch lib allowedHosts url).1 = .ok page ∧ page.status < 500 ∨
    isAskedAgain (first.fetch lib allowedHosts url).1 = true ∧
      (second.fetch lib allowedHosts url).1 = .ok page

theorem fetchPage_ok_iff (lib : Library) (allowedHosts : List String) (url : String)
    (first second : Attempt) (page : Page) :
    (fetchPage lib allowedHosts url first second).1 = .ok page ↔
      Counts lib allowedHosts url first second page := by
  simp only [fetchPage, Counts]
  split
  next hagain =>
    refine ⟨fun h => Or.inr ⟨hagain, h⟩, fun h => ?_⟩
    rcases h with ⟨hfirst, hstatus⟩ | ⟨_, hsecond⟩
    · rw [hfirst, isAskedAgain, decide_eq_true_iff] at hagain
      omega
    · exact hsecond
  next hagain =>
    refine ⟨fun h => Or.inl ⟨h, ?_⟩, fun h => ?_⟩
    · rw [h, isAskedAgain, decide_eq_true_iff] at hagain
      omega
    · rcases h with ⟨hfirst, _⟩ | ⟨h, _⟩
      · exact hfirst
      · exact absurd h hagain

end TigerDuck.Links
