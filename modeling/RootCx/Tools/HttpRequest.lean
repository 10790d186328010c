import RootCx.Lib.JsonValue
import RootCx.Lib.Except

/-! # Requests to foreign hosts

The `http_request` tool of `tools/http_request.rs` up to its response.  The address of every
hop is checked before a client is built for it, and that client has the checked addresses for
the host of the hop.  The resolver, the URL library, the servers and the proxies of the system
are parameters, by the number of the hop.
-/

namespace RootCx.HttpRequest

open RootCx.Text List

/-! ## Addresses -/

structure Ipv4Addr where
  a : UInt8
  b : UInt8
  c : UInt8
  d : UInt8
  deriving DecidableEq, Repr

namespace Ipv4Addr

variable (ip : Ipv4Addr)

def isPrivate : Bool :=
  ip.a == 10 || (ip.a == 172 && 16 ≤ ip.b && ip.b ≤ 31) || (ip.a == 192 && ip.b == 168)

def isLoopback : Bool := ip.a == 127

def isLinkLocal : Bool := ip.a == 169 && ip.b == 254

def isBroadcast : Bool := ip = ⟨255, 255, 255, 255⟩

def isDocumentation : Bool :=
  (ip.a == 192 && ip.b == 0 && ip.c == 2) || (ip.a == 198 && ip.b == 51 && ip.c == 100) ||
    (ip.a == 203 && ip.b == 0 && ip.c == 113)

def isUnspecified : Bool := ip = ⟨0, 0, 0, 0⟩

def isMulticast : Bool := 224 ≤ ip.a && ip.a ≤ 239

end Ipv4Addr

/-- By its segments. -/
structure Ipv6Addr where
  s0 : UInt16
  s1 : UInt16
  s2 : UInt16
  s3 : UInt16
  s4 : UInt16
  s5 : UInt16
  s6 : UInt16
  s7 : UInt16
  deriving DecidableEq, Repr

namespace Ipv6Addr

variable (ip : Ipv6Addr)

def isLoopback : Bool := ip = ⟨0, 0, 0, 0, 0, 0, 0, 1⟩

def isUnspecified : Bool := ip = ⟨0, 0, 0, 0, 0, 0, 0, 0⟩

def isMulticast : Bool := ip.s0 &&& 0xff00 == 0xff00

end Ipv6Addr

inductive IpAddr where
  | v4 (ip : Ipv4Addr)
  | v6 (ip : Ipv6Addr)
  deriving DecidableEq, Repr

structure SocketAddr where
  ip : IpAddr
  port : UInt16
  deriving DecidableEq, Repr

def isBlockedIpv4 (ip : Ipv4Addr) : Bool :=
  ip.isPrivate || ip.isLoopback || ip.isLinkLocal || ip.isBroadcast || ip.isDocumentation || ip.isUnspecified ||
    ip.isMulticast || ip.a == 0 || (ip.a == 100 && 64 ≤ ip.b && ip.b ≤ 127)

def isBlockedIpv6 (ip : Ipv6Addr) : Bool :=
  ip.isLoopback || ip.isUnspecified || ip.isMulticast || ip.s0 &&& 0xfe00 == 0xfc00 || ip.s0 &&& 0xffc0 == 0xfe80 ||
    (ip.s0 == 0x2001 && ip.s1 == 0x0db8)

def isBlockedIp : IpAddr → Bool
  | .v4 ip => isBlockedIpv4 ip
  | .v6 ip => isBlockedIpv6 ip

/-! ## Requests -/

/-- What the URL library makes of a host.  A name that ends in a number is an IPv4 address or
    no host at all, so that no domain is the text of an address. -/
inductive Host where
  | domain (name : Text)
  | ipv4 (ip : Ipv4Addr)
  | ipv6 (ip : Ipv6Addr)
  deriving DecidableEq, Repr

/-- `host_str().parse::<IpAddr>()`: the text of an IPv6 host has brackets, with which it is no
    address. -/
def Host.parsed : Host → Option IpAddr
  | .ipv4 ip => some (.v4 ip)
  | .domain _ | .ipv6 _ => none

structure Url where
  scheme : Text
  username : Text
  password : Option Text
  host : Option Host
  port : Option UInt16

def Url.portOrKnownDefault (url : Url) : Option UInt16 :=
  url.port <|> (if url.scheme = "http" then some 80 else if url.scheme = "https" then some 443 else none)

inductive Method where
  | get
  | post
  | put
  | patch
  | delete
  | head
  deriving DecidableEq, Repr

inductive RequestBody where
  | json (value : Json)
  | text (value : Text)

structure Outgoing where
  method : Method
  url : Url
  headers : List (Text × Text)
  body : Option RequestBody

structure Response where
  status : Nat
  /-- The `Location` header; a value that is not visible ASCII has no text. -/
  location : Option (Option Text)

def Response.isRedirection (response : Response) : Bool := 300 ≤ response.status && response.status < 400

structure Network where
  showIp : IpAddr → Text
  lookupHost : Nat → Text → UInt16 → Except Text (List SocketAddr)
  /-- An IPv6 address in brackets is no name. -/
  lookup_brackets : ∀ hop ip port, ∃ failure, lookupHost hop ('[' :: showIp (.v6 ip) ++ [']']) port = .error failure
  build : Nat → Except Text Unit
  join : Url → Text → Except Text Url
  /-- The addresses of the proxy that the settings of the system name for a URL. -/
  proxy : Nat → Url → Option (List SocketAddr)
  /-- How many addresses a client tries before one answers. -/
  tries : Nat → Nat
  send : Nat → Outgoing → Except Text Response

def okOrElse {α : Type} (value : Option α) (failure : Text) : Except Text α := value.elim (.error failure) .ok

section Send

variable (net : Network)

/-- `host_str`. -/
def hostStr : Host → Text
  | .domain name => name
  | .ipv4 ip => net.showIp (.v4 ip)
  | .ipv6 ip => '[' :: net.showIp (.v6 ip) ++ [']']

def rejectBlockedIp (ip : IpAddr) : Except Text Unit :=
  if isBlockedIp ip then .error ("URL resolves to a blocked network address: " ++ net.showIp ip) else .ok ()

/-- The addresses of a host, each of them checked. -/
def resolveHost (hop : Nat) (url : Url) (host : Host) : Except Text (List SocketAddr) :=
  match host.parsed with
  | some ip => do
    rejectBlockedIp net ip
    let port ← okOrElse url.portOrKnownDefault "URL port is required"
    return [⟨ip, port⟩]
  | none => do
    let port ← okOrElse url.portOrKnownDefault "URL port is required"
    let resolved ← (net.lookupHost hop (hostStr net host) port).mapError ("failed to resolve URL host: " ++ ·)
    resolved.forM fun addr => rejectBlockedIp net addr.ip
    -- The loop of the source collects what it checks, so what it allows is what was resolved.
    if resolved.isEmpty then throw "URL host did not resolve to any address".toList else return resolved

def resolveAllowedUrl (hop : Nat) (url : Url) : Except Text (List SocketAddr) :=
  if ¬(url.scheme = "http" ∨ url.scheme = "https") then .error "only http and https URLs are allowed"
  else if url.username ≠ [] ∨ url.password.isSome then .error "URL credentials are not allowed"
  else
    match url.host with
    | none => .error "URL host is required"
    | some host =>
      if (hostStr net host).map Char.toLower = "localhost" ∨ ".localhost".toList.isSuffixOf (hostStr net host) then
        .error "localhost URLs are not allowed"
      else resolveHost net hop url host

def shouldSwitchRedirectToGet (status : Nat) (method : Method) : Bool :=
  status == 303 || ((status == 301 || status == 302) && method == .post)

/-- The request that a redirection asks for. -/
def redirected (request : Outgoing) (response : Response) : Except Text Outgoing := do
  let header ← okOrElse response.location
    ("redirect " ++ (Nat.repr response.status).toList ++ " missing Location header")
  let location ← okOrElse header "redirect Location header is not valid UTF-8"
  let url ← (net.join request.url location).mapError ("invalid redirect Location: " ++ ·)
  if shouldSwitchRedirectToGet response.status request.method then
    return { request with method := .get, url := url, body := none }
  else return { request with url := url }

/-- A request that was sent: the addresses of its check, and those that were dialed. -/
structure Sent where
  request : Outgoing
  checked : List SocketAddr
  connected : List SocketAddr

/-- A client with the addresses that are put in the place of a host's. -/
structure Client where
  host : Text
  addrs : List SocketAddr

def buildClient (hop : Nat) (url : Url) (resolvedAddrs : List SocketAddr) : Except Text Client := do
  let host ← okOrElse (url.host.map (hostStr net)) "URL host is required"
  (net.build hop).mapError ("failed to build HTTP client: " ++ ·)
  return ⟨host, resolvedAddrs⟩

/-- The addresses that a client has for a URL.  A proxy of the system comes first, since the
    builder is not told `no_proxy`; a literal address is not looked up. -/
def Client.addresses (client : Client) (hop : Nat) (url : Url) : List SocketAddr :=
  let port := url.portOrKnownDefault.getD 0
  match net.proxy hop url with
  | some addrs => addrs
  | none =>
    match url.host with
    | none => []
    | some (.ipv4 ip) => [⟨.v4 ip, port⟩]
    | some (.ipv6 ip) => [⟨.v6 ip, port⟩]
    | some (.domain name) =>
      if name = client.host then client.addrs else (net.lookupHost hop name port).toOption.getD []

/-- The check of a hop, and the client that is built for what it allows. -/
def prepare (hop : Nat) (request : Outgoing) : Except Text Sent := do
  let addrs ← resolveAllowedUrl net hop request.url
  let client ← buildClient net hop request.url addrs
  return ⟨request, addrs, (client.addresses net hop request.url).take (net.tries hop)⟩

/-- The loop from a hop on, with the number of redirections that are left. -/
def sendFrom (followRedirects : Bool) (maxRedirects : Nat) : Nat → Nat → Outgoing → List Sent × Except Text Response
  | left, hop, request =>
    match prepare net hop request with
    | .error failure => ([], .error failure)
    | .ok sent =>
      match net.send hop request with
      | .error failure => ([sent], .error ("HTTP request failed: " ++ failure))
      | .ok response =>
        if !followRedirects || !response.isRedirection then ([sent], .ok response)
        else
          match left with
          | 0 => ([sent], .error ("too many redirects: maximum is " ++ (Nat.repr maxRedirects).toList))
          | left + 1 =>
            match redirected net request response with
            | .error failure => ([sent], .error failure)
            | .ok next =>
              let (later, outcome) := sendFrom followRedirects maxRedirects left (hop + 1) next
              (sent :: later, outcome)

def sendWithRedirects (request : Outgoing) (followRedirects : Bool) (maxRedirects : Nat) : List Sent × Except Text Response :=
  sendFrom net followRedirects maxRedirects maxRedirects 0 request

end Send

/-! ## What is promised -/

/-- The IPv4 address that an IPv6 address stands for: mapped, compatible or NAT64. -/
def Ipv6Addr.embedded (ip : Ipv6Addr) : Option Ipv4Addr :=
  let mapped := ip.s0 = 0 ∧ ip.s1 = 0 ∧ ip.s2 = 0 ∧ ip.s3 = 0 ∧ ip.s4 = 0 ∧ ip.s5 = 0xffff
  let compatible := ip.s0 = 0 ∧ ip.s1 = 0 ∧ ip.s2 = 0 ∧ ip.s3 = 0 ∧ ip.s4 = 0 ∧ ip.s5 = 0
  let nat64 := ip.s0 = 0x64 ∧ ip.s1 = 0xff9b ∧ ip.s2 = 0 ∧ ip.s3 = 0 ∧ ip.s4 = 0 ∧ ip.s5 = 0
  if mapped ∨ compatible ∨ nat64 then
    some ⟨(ip.s6 >>> 8).toUInt8, ip.s6.toUInt8, (ip.s7 >>> 8).toUInt8, ip.s7.toUInt8⟩
  else none

def standsFor : IpAddr → IpAddr
  | .v4 ip => .v4 ip
  | .v6 ip => (ip.embedded.map IpAddr.v4).getD (.v6 ip)

/-- In a blocked network, where an address counts as the one that it stands for. -/
def Blocked (ip : IpAddr) : Prop := isBlockedIp (standsFor ip) = true

/-- What a run of the loop keeps: `sends` are the requests that reached a network. -/
structure Upheld (net : Network) (request : Outgoing) (followRedirects : Bool) (maxRedirects : Nat) (sends : List Sent) : Prop where
  outside : ∀ sent ∈ sends, ∀ addr ∈ sent.connected, ¬Blocked addr.ip
  checked : ∀ hop sent, sends[hop]? = some sent →
    resolveAllowedUrl net hop sent.request.url = .ok sent.checked ∧ ∀ addr ∈ sent.connected, addr ∈ sent.checked
  few : sends.length ≤ maxRedirects + 1
  refusedFirst : ∀ failure, resolveAllowedUrl net 0 request.url = .error failure → sends = []
  refusedLater : ∀ hop sent response next failure, sends[hop]? = some sent → net.send hop sent.request = .ok response →
    redirected net sent.request response = .ok next → resolveAllowedUrl net (hop + 1) next.url = .error failure →
    sends.length = hop + 1

def Guarded (net : Network) : Prop :=
  ∀ request followRedirects maxRedirects,
    Upheld net request followRedirects maxRedirects (sendWithRedirects net request followRedirects maxRedirects).1

/-- An address that the resolver gives. -/
def Network.Answers (net : Network) (ip : IpAddr) : Prop :=
  ∃ hop host port addrs, net.lookupHost hop host port = .ok addrs ∧ ∃ addr ∈ addrs, addr.ip = ip

/-- An address of a proxy of the system. -/
def Network.Proxies (net : Network) (addr : SocketAddr) : Prop :=
  ∃ hop url addrs, net.proxy hop url = some addrs ∧ addr ∈ addrs

variable {ip : IpAddr} {failure : Text}

/-! ## One hop -/

section Hop

variable {net : Network} {hop : Nat} {url : Url} {host : Host} {request : Outgoing} {addrs : List SocketAddr} {sent : Sent}

theorem rejectBlockedIp_ok : rejectBlockedIp net ip = .ok () ↔ isBlockedIp ip = false := by
  unfold rejectBlockedIp
  cases isBlockedIp ip <;> simp

theorem forM_ok {α : Type} {check : α → Except Text PUnit} {items : List α} :
    items.forM check = .ok PUnit.unit ↔ ∀ item ∈ items, check item = .ok PUnit.unit := by
  induction items with
  | nil => simp [pure_eq_ok]
  | cons item items ih =>
    show (check item >>= fun _ => items.forM check) = .ok PUnit.unit ↔ _
    rw [bind_eq_ok, forall_mem_cons, ← ih]
    constructor
    · rintro ⟨_, first, rest⟩
      exact ⟨first, rest⟩
    · rintro ⟨first, rest⟩
      exact ⟨_, first, rest⟩

/-- Each address of a host is an IPv4 address or answered for it, and in no network of the list. -/
theorem resolveHost_ok (resolved : resolveHost net hop url host = .ok addrs) :
    ∀ addr ∈ addrs, (∀ ip, addr.ip = .v6 ip → net.Answers addr.ip) ∧ isBlockedIp addr.ip = false := by
  unfold resolveHost at resolved
  intro addr mem
  split at resolved
  -- A literal address.
  · rename_i ip parsed
    obtain ⟨done, free, resolved⟩ := bind_eq_ok.mp resolved
    obtain ⟨port, found, resolved⟩ := bind_eq_ok.mp resolved
    obtain rfl := pure_eq_ok.mp resolved
    obtain rfl := mem_singleton.mp mem
    refine ⟨?_, rejectBlockedIp_ok.mp free⟩
    cases host with
    | ipv4 ip =>
      cases parsed
      intro other same
      cases same
    | domain | ipv6 => cases parsed
  -- A name: the answer is taken as a whole, once all of it passed.
  · obtain ⟨port, found, resolved⟩ := bind_eq_ok.mp resolved
    obtain ⟨answered, looked, resolved⟩ := bind_eq_ok.mp resolved
    obtain ⟨done, free, resolved⟩ := bind_eq_ok.mp resolved
    split at resolved
    · exact nomatch throw_eq_ok.mp resolved
    · obtain rfl := pure_eq_ok.mp resolved
      exact ⟨fun _ _ => ⟨hop, _, port, _, mapError_eq_ok.mp looked, addr, mem, rfl⟩,
        rejectBlockedIp_ok.mp (forM_ok.mp free addr mem)⟩

theorem resolveAllowedUrl_ok (resolved : resolveAllowedUrl net hop url = .ok addrs) :
    ∃ host, url.host = some host ∧ resolveHost net hop url host = .ok addrs := by
  unfold resolveAllowedUrl at resolved
  split at resolved
  · cases resolved
  split at resolved
  · cases resolved
  split at resolved
  · cases resolved
  next host named =>
    split at resolved
    · cases resolved
    · exact ⟨host, named, resolved⟩

/-- Without a proxy a client has checked addresses alone: what it is given for the host, or the
    literal address that the check was about. -/
theorem addresses_checked (direct : ∀ addr, ¬net.Proxies addr) (resolved : resolveAllowedUrl net hop url = .ok addrs)
    {client : Client} (built : buildClient net hop url addrs = .ok client) :
    ∀ addr ∈ client.addresses net hop url, addr ∈ addrs := by
  obtain ⟨host, named, resolved⟩ := resolveAllowedUrl_ok resolved
  obtain ⟨text, spelled, built⟩ := bind_eq_ok.mp built
  obtain ⟨-, -, built⟩ := bind_eq_ok.mp built
  obtain rfl := pure_eq_ok.mp built
  rw [named] at spelled
  cases spelled
  intro addr mem
  unfold Client.addresses at mem
  split at mem
  next proxied => exact absurd ⟨hop, url, _, proxied, mem⟩ (direct addr)
  rw [named] at mem
  cases host with
  | domain name => simpa [hostStr] using mem
  | ipv4 ip =>
    obtain ⟨-, -, resolved⟩ := bind_eq_ok.mp resolved
    obtain ⟨port, found, resolved⟩ := bind_eq_ok.mp resolved
    obtain rfl := pure_eq_ok.mp resolved
    cases known : url.portOrKnownDefault with
    | none =>
      rw [known] at found
      cases found
    | some port' =>
      rw [known] at found mem
      cases found
      exact mem
  -- The text with the brackets is not resolved, so that no client is built.
  | ipv6 ip =>
    obtain ⟨port, -, resolved⟩ := bind_eq_ok.mp resolved
    obtain ⟨answered, looked, -⟩ := bind_eq_ok.mp resolved
    obtain ⟨failure, unknown⟩ := net.lookup_brackets hop ip port
    cases unknown.symm.trans (mapError_eq_ok.mp looked)

theorem prepare_ok (prepared : prepare net hop request = .ok sent) :
    sent.request = request ∧ resolveAllowedUrl net hop request.url = .ok sent.checked ∧
      ((∀ addr, ¬net.Proxies addr) → ∀ addr ∈ sent.connected, addr ∈ sent.checked) := by
  obtain ⟨addrs, resolved, prepared⟩ := bind_eq_ok.mp prepared
  obtain ⟨client, built, prepared⟩ := bind_eq_ok.mp prepared
  obtain rfl := pure_eq_ok.mp prepared
  exact ⟨rfl, resolved, fun direct addr mem => addresses_checked direct resolved built addr (mem_of_mem_take mem)⟩

theorem prepare_refused (refused : resolveAllowedUrl net hop request.url = .error failure) :
    prepare net hop request = .error failure := by
  simp [prepare, refused, bind, Except.bind]

end Hop

/-! ## The loop -/

section Loop

variable {net : Network} {hop left maxRedirects : Nat} {request : Outgoing} {followRedirects : Bool}

/-- What a loop sends: nothing where its first hop is refused, else the request of that hop, and
    what a shorter loop sends for the redirection that it follows, if it follows one. -/
inductive Loop (net : Network) (followRedirects : Bool) (maxRedirects : Nat) : Nat → Nat → Outgoing → List Sent → Prop where
  | refused {left hop : Nat} {request : Outgoing} {failure : Text} (refused : prepare net hop request = .error failure) :
      Loop net followRedirects maxRedirects left hop request []
  | last {left hop : Nat} {request : Outgoing} {sent : Sent} (prepared : prepare net hop request = .ok sent) :
      Loop net followRedirects maxRedirects left hop request [sent]
  | follows {left hop : Nat} {request next : Outgoing} {sent : Sent} {response : Response} {later : List Sent}
      (prepared : prepare net hop request = .ok sent) (answered : net.send hop request = .ok response)
      (asked : redirected net request response = .ok next)
      (rest : Loop net followRedirects maxRedirects left (hop + 1) next later) :
      Loop net followRedirects maxRedirects (left + 1) hop request (sent :: later)

theorem sendFrom_loop :
    Loop net followRedirects maxRedirects left hop request (sendFrom net followRedirects maxRedirects left hop request).1 := by
  induction left generalizing hop request with
  | zero =>
    unfold sendFrom
    split
    · exact .refused ‹_›
    · repeat (split <;> try exact .last ‹_›)
  | succ left ih =>
    unfold sendFrom
    split
    · exact .refused ‹_›
    · rename_i sent prepared
      split
      · exact .last prepared
      · rename_i response answered
        split
        · exact .last prepared
        · dsimp only
          split
          · exact .last prepared
          · rename_i next asked
            exact .follows prepared answered asked ih

namespace Loop

variable {sends : List Sent}

theorem few (loop : Loop net followRedirects maxRedirects left hop request sends) : sends.length ≤ left + 1 := by
  induction loop with
  | refused | last => simp
  | follows _ _ _ _ ih => simpa using ih

theorem nil_of_refused (loop : Loop net followRedirects maxRedirects left hop request sends)
    (refused : resolveAllowedUrl net hop request.url = .error failure) : sends = [] := by
  have unprepared := prepare_refused refused
  cases loop with
  | refused => rfl
  | last prepared => exact nomatch unprepared.symm.trans prepared
  | follows prepared => exact nomatch unprepared.symm.trans prepared

/-- The requests stand at the numbers of their hops. -/
theorem checked (direct : ∀ addr, ¬net.Proxies addr)
    (loop : Loop net followRedirects maxRedirects left hop request sends) {later : Nat} {sent : Sent}
    (found : sends[later]? = some sent) :
    resolveAllowedUrl net (hop + later) sent.request.url = .ok sent.checked ∧ ∀ addr ∈ sent.connected, addr ∈ sent.checked := by
  have first {hop : Nat} {request : Outgoing} {sent : Sent} (prepared : prepare net hop request = .ok sent) :
      resolveAllowedUrl net hop sent.request.url = .ok sent.checked ∧ ∀ addr ∈ sent.connected, addr ∈ sent.checked := by
    obtain ⟨rfl, resolved, connected⟩ := prepare_ok prepared
    exact ⟨resolved, connected direct⟩
  induction loop generalizing later with
  | refused => simp at found
  | last prepared =>
    cases later with
    | zero =>
      cases found
      exact first prepared
    | succ later => simp at found
  | follows prepared answered asked rest ih =>
    cases later with
    | zero =>
      cases found
      exact first prepared
    | succ later =>
      simpa [Nat.add_assoc, Nat.add_comm 1] using ih found

/-- A redirection that is refused ends the loop before anything is sent for it. -/
theorem refusedLater (loop : Loop net followRedirects maxRedirects left hop request sends) {later : Nat}
    {sent : Sent} {response : Response} {next : Outgoing} (found : sends[later]? = some sent)
    (answered : net.send (hop + later) sent.request = .ok response)
    (asked : redirected net sent.request response = .ok next)
    (refused : resolveAllowedUrl net (hop + later + 1) next.url = .error failure) :
    sends.length = later + 1 := by
  induction loop generalizing later with
  | refused => simp at found
  | last prepared =>
    cases later with
    | zero => rfl
    | succ later => simp at found
  | follows prepared answered' asked' rest ih =>
    cases later with
    | zero =>
      cases found
      obtain ⟨rfl, -, -⟩ := prepare_ok prepared
      cases answered'.symm.trans answered
      cases asked'.symm.trans asked
      simp [rest.nil_of_refused refused]
    | succ later =>
      have same (n : Nat) : n + 1 + later = n + (later + 1) := by omega
      simpa using ih found (by simpa [same] using answered) (by simpa [same] using refused)

end Loop

end Loop

/-! ## Addresses that stand for others -/

theorem isBlockedIpv6_of_embedded {ip : Ipv6Addr} {standing : Ipv4Addr} (stands : ip.embedded = some standing) :
    isBlockedIpv6 ip = true ↔ ip.isUnspecified = true ∨ ip.isLoopback = true := by
  obtain ⟨s0, s1, s2, s3, s4, s5, s6, s7⟩ := ip
  unfold Ipv6Addr.embedded at stands
  dsimp only at stands
  split at stands
  · rename_i form
    -- The first segment is fixed in each form, and lies in none of the networks.
    obtain ⟨rfl, rfl, rfl, rfl, rfl, rfl⟩ | ⟨rfl, rfl, rfl, rfl, rfl, rfl⟩ | ⟨rfl, rfl, rfl, rfl, rfl, rfl⟩ := form
    all_goals
      unfold isBlockedIpv6 Ipv6Addr.isMulticast
      rw [Bool.or_assoc, Bool.or_assoc, Bool.or_assoc]
      simp +decide [or_comm]
  · cases stands

theorem blocked_v4 {ip : Ipv4Addr} : Blocked (.v4 ip) ↔ isBlockedIp (.v4 ip) = true := Iff.rfl

theorem blocked_v6 {ip : Ipv6Addr} :
    Blocked (.v6 ip) ↔ (ip.embedded = none ∧ isBlockedIp (.v6 ip) = true) ∨
      ∃ standing, ip.embedded = some standing ∧ isBlockedIpv4 standing = true := by
  unfold Blocked standsFor
  cases embedded : ip.embedded with
  | none => simp [embedded]
  | some standing => simp [embedded, isBlockedIp]

/-- No address of a set stands for one of a blocked IPv4 network, other than the unspecified and
    the loopback address. -/
def Plain (answers : IpAddr → Prop) : Prop :=
  ∀ ip standing, answers (.v6 ip) → ip.embedded = some standing → isBlockedIpv4 standing = true →
    ip.isUnspecified = true ∨ ip.isLoopback = true

theorem Plain.not_blocked {answers : IpAddr → Prop} (plain : Plain answers)
    (answered : ∀ standing, ip = .v6 standing → answers ip) (free : isBlockedIp ip = false) : ¬Blocked ip := by
  intro blocked
  cases ip with
  | v4 ip => exact Bool.eq_false_iff.mp free (blocked_v4.mp blocked)
  | v6 ip =>
    obtain ⟨-, listed⟩ | ⟨standing, stands, listed⟩ := blocked_v6.mp blocked
    · exact Bool.eq_false_iff.mp free listed
    · exact Bool.eq_false_iff.mp free ((isBlockedIpv6_of_embedded stands).mpr (plain ip standing (answered ip rfl) stands listed))

theorem guarded_of_plain {net : Network} (plain : Plain net.Answers) (direct : ∀ addr, ¬net.Proxies addr) :
    Guarded net := by
  intro request followRedirects maxRedirects
  have loop : Loop net followRedirects maxRedirects maxRedirects 0 request
    (sendWithRedirects net request followRedirects maxRedirects).1 := sendFrom_loop
  have checked (hop : Nat) (sent : Sent) (found : (sendWithRedirects net request followRedirects maxRedirects).1[hop]? = some sent) :
      resolveAllowedUrl net hop sent.request.url = .ok sent.checked ∧ ∀ addr ∈ sent.connected, addr ∈ sent.checked := by
    simpa using loop.checked direct found
  refine ⟨?_, checked, loop.few, fun failure refused => loop.nil_of_refused refused, ?_⟩
  · intro sent mem addr connected
    obtain ⟨hop, found⟩ := mem_iff_getElem?.mp mem
    obtain ⟨resolved, dialed⟩ := checked hop sent found
    obtain ⟨host, -, resolved⟩ := resolveAllowedUrl_ok resolved
    obtain ⟨answered, free⟩ := resolveHost_ok resolved addr (dialed addr connected)
    exact plain.not_blocked answered free
  · intro hop sent response next failure found answered asked refused
    exact loop.refusedLater found (by simpa using answered) asked (by simpa using refused)

/-! ## Networks on which it fails -/

/-- An address as it is written, without the abbreviations of IPv6. -/
def written : IpAddr → Text
  | .v4 ip => join "." ([ip.a, ip.b, ip.c, ip.d].map fun octet => Nat.toDigits 10 octet.toNat)
  | .v6 ip => join ":" ([ip.s0, ip.s1, ip.s2, ip.s3, ip.s4, ip.s5, ip.s6, ip.s7].map fun segment =>
      Nat.toDigits 16 segment.toNat)

/-- Every name has one address or none, the system names one proxy or none, and every request is
    answered without a redirection. -/
def answering (ip : Option IpAddr) (proxy : Option SocketAddr) : Network where
  showIp := written
  lookupHost _ host port :=
    match ip with
    | some ip => if host.head? = some '[' then .error [] else .ok [⟨ip, port⟩]
    | none => .error []
  lookup_brackets _ _ _ := by cases ip <;> exact ⟨_, rfl⟩
  build _ := .ok ()
  join url _ := .ok url
  proxy _ _ := proxy.map ([·])
  tries _ := 1
  send _ _ := .ok ⟨200, none⟩

def visit (host : Host) : Outgoing := ⟨.get, ⟨"http", [], none, some host, none⟩, [], none⟩

def exampleHost : Host := .domain "host.example"

variable {found : Option IpAddr} {proxy : Option SocketAddr}

theorem answering_answers (answers : (answering found proxy).Answers ip) : found = some ip := by
  obtain ⟨hop, host, port, addrs, looked, addr, mem, rfl⟩ := answers
  cases found with
  | none => cases looked
  | some ip =>
    simp only [answering] at looked
    split at looked
    · cases looked
    · cases looked
      rw [mem_singleton.mp mem]

theorem answering_proxies {addr : SocketAddr} (proxies : (answering found proxy).Proxies addr) : proxy = some addr := by
  obtain ⟨hop, url, addrs, named, mem⟩ := proxies
  obtain ⟨other, rfl, rfl⟩ := Option.map_eq_some_iff.mp named
  exact congrArg some (mem_singleton.mp mem).symm

/-- A host that is let through is asked for, at the proxy where there is one. -/
theorem answering_sent {host : Host} {addr : SocketAddr}
    (resolved : resolveAllowedUrl (answering found proxy) 0 (visit host).url = .ok [addr])
    (given : ({ host := hostStr (answering found proxy) host, addrs := [addr] } : Client).addresses (answering found proxy) 0
      (visit host).url = [proxy.getD addr]) :
    (sendWithRedirects (answering found proxy) (visit host) false 0).1 = [⟨visit host, [addr], [proxy.getD addr]⟩] := by
  have prepared : prepare (answering found proxy) 0 (visit host) = .ok ⟨visit host, [addr], [proxy.getD addr]⟩ := by
    unfold prepare
    rw [resolved]
    exact congrArg (fun given => Except.ok (Sent.mk (visit host) [addr] (given.take 1))) given
  unfold sendWithRedirects sendFrom
  rw [prepared]
  rfl

theorem named_sent (free : isBlockedIp ip = false) :
    (sendWithRedirects (answering (some ip) none) (visit exampleHost) false 0).1 =
      [⟨visit exampleHost, [⟨ip, 80⟩], [⟨ip, 80⟩]⟩] := by
  have passed : ([⟨ip, 80⟩] : List SocketAddr).forM (fun addr => rejectBlockedIp (answering (some ip) none) addr.ip) = .ok PUnit.unit :=
    forM_ok.mpr fun addr mem => mem_singleton.mp mem ▸ rejectBlockedIp_ok.mpr free
  refine @answering_sent _ none _ _ ?_ rfl
  exact congrArg (· >>= fun _ => (.ok [⟨ip, 80⟩] : Except Text (List SocketAddr))) passed

/-- A public address other than a given one. -/
def elsewhere (ip : IpAddr) : Ipv4Addr := if ip = .v4 ⟨1, 1, 1, 1⟩ then ⟨8, 8, 8, 8⟩ else ⟨1, 1, 1, 1⟩

theorem proxied_sent (addr : SocketAddr) :
    (sendWithRedirects (answering none (some addr)) (visit (.ipv4 (elsewhere addr.ip))) false 0).1 =
      [⟨visit (.ipv4 (elsewhere addr.ip)), [⟨.v4 (elsewhere addr.ip), 80⟩], [addr]⟩] := by
  refine @answering_sent _ (some addr) _ _ ?_ rfl
  unfold elsewhere
  split <;> rfl

theorem elsewhere_ne (ip : IpAddr) : ip ≠ .v4 (elsewhere ip) := by
  unfold elsewhere
  split
  next same =>
    rw [same]
    decide
  next other => exact other

/-- **What the tool is open to.**  The loop keeps to its promise on every network that answers
    addresses of a set and has its proxies in another, if and only if no IPv6 address of the first
    stands for an IPv4 address of a blocked network, `::` and `::1` apart, and the other is empty. -/
theorem guarded_iff (answers : IpAddr → Prop) (proxies : SocketAddr → Prop) :
    (∀ net : Network, (∀ ip, net.Answers ip → answers ip) → (∀ addr, net.Proxies addr → proxies addr) → Guarded net) ↔
      Plain answers ∧ ∀ addr, ¬proxies addr := by
  constructor
  · intro guarded
    constructor
    · intro ip standing answered stands listed
      by_contra neither
      have free : isBlockedIp (.v6 ip) = false :=
        Bool.eq_false_iff.mpr fun blocked => neither ((isBlockedIpv6_of_embedded stands).mp blocked)
      have kept := guarded (answering (some (.v6 ip)) none) (fun other given => Option.some.inj (answering_answers given) ▸ answered)
        (fun addr given => absurd (answering_proxies given) (Option.some_ne_none addr).symm) (visit exampleHost) false 0
      rw [named_sent free] at kept
      have outside := kept.outside _ List.mem_cons_self ⟨.v6 ip, 80⟩ List.mem_cons_self
      exact outside (blocked_v6.mpr (.inr ⟨standing, stands, listed⟩))
    · intro addr proxied
      have kept := guarded (answering none (some addr)) (fun ip given => absurd (answering_answers given) (Option.some_ne_none ip).symm)
        (fun other given => Option.some.inj (answering_proxies given) ▸ proxied) (visit (.ipv4 (elsewhere addr.ip))) false 0
      rw [proxied_sent addr] at kept
      obtain ⟨-, dialed⟩ := kept.checked 0 _ rfl
      have checked := List.mem_singleton.mp (dialed addr List.mem_cons_self)
      exact elsewhere_ne addr.ip (congrArg SocketAddr.ip checked)
  · rintro ⟨plain, direct⟩ net within proxied
    exact guarded_of_plain (fun ip standing answered => plain ip standing (within _ answered))
      fun addr given => direct addr (proxied addr given)

/-- Without a proxy, a network of public IPv4 addresses. -/
theorem answering_guarded : Guarded (answering (some (.v4 ⟨93, 184, 216, 34⟩)) none) := by
  have plain : Plain (· = .v4 ⟨93, 184, 216, 34⟩) := fun ip standing same => by cases same
  exact (guarded_iff (· = .v4 ⟨93, 184, 216, 34⟩) fun _ => False).mpr ⟨plain, fun _ => id⟩ _
    (fun ip given => (Option.some.inj (answering_answers given)).symm)
    (fun addr given => absurd (answering_proxies given) (Option.some_ne_none addr).symm)

/-- `::ffff:127.0.0.1`. -/
def mappedLoopback : Ipv6Addr := ⟨0, 0, 0, 0, 0, 0xffff, 0x7f00, 1⟩

theorem mappedLoopback_reached : ¬Guarded (answering (some (.v6 mappedLoopback)) none) := by
  intro guarded
  have kept := guarded (visit exampleHost) false 0
  rw [named_sent (by decide)] at kept
  have outside := kept.outside _ List.mem_cons_self ⟨.v6 mappedLoopback, 80⟩ List.mem_cons_self
  exact outside (by unfold Blocked; decide)

end RootCx.HttpRequest
