import JwtService.Codec.IpAddr
import JwtService.Model.Edge

/-!
# The address a request is limited by (`rate_limit.rs`)

The peer of a connection, or, where the peer is a trusted proxy, the address
that `X-Forwarded-For` names: the entries are read from the right, and the
first that is not a trusted proxy is the client. `resolveKeyIp` is the key of
the limiter of verification, and `arrival` the request with this key.
-/

namespace JwtService

open Net

/-- An IPv4-mapped IPv6 address as the IPv4 address. -/
def canonical : IpAddr → IpAddr
  | .v6 a =>
    match a.toIpv4Mapped with
    | some b => .v4 b
    | none => .v6 a
  | .v4 a => .v4 a

/-- The `/56` of an IPv6 address. -/
def groupV6 : IpAddr → IpAddr
  | .v6 a => .v6 (Vector.ofFn fun i => if i.val < 7 then a[i] else 0)
  | .v4 a => .v4 a

/-- Whether the first `n` bits of two addresses of the same length match. The
indices stay within an address as long as the prefix does. -/
def prefixMatch (a b : List UInt8) (n : Nat) : Bool :=
  let whole := n / 8
  let rem := n % 8
  if a.take whole ≠ b.take whole then false
  else if rem = 0 then true
  else
    let mask := (0xff : UInt8) <<< UInt8.ofNat (8 - rem)
    (a.getD whole 0 &&& mask) == (b.getD whole 0 &&& mask)

/-- `prefixMatch` with the slices and the indices of the source, which panics
where this has no result. -/
def prefixMatchChecked (a b : List UInt8) (n : Nat) : Option Bool :=
  let whole := n / 8
  let rem := n % 8
  if a.length < whole ∨ b.length < whole then none
  else if a.take whole ≠ b.take whole then some false
  else if rem = 0 then some true
  else
    let mask := (0xff : UInt8) <<< UInt8.ofNat (8 - rem)
    match a[whole]?, b[whole]? with
    | some x, some y => some ((x &&& mask) == (y &&& mask))
    | _, _ => none

/-- The address range of a trusted proxy; its prefix is no longer than its
address. -/
structure Cidr where
  addr : IpAddr
  bits : Nat
  bits_le : bits ≤ 8 * addr.octets.length

namespace Cidr

/-- The range of an address and the text of its prefix, if it has one. -/
def ofParts (addr : IpAddr) : Option String → Option Cidr
  | some p =>
    match (Text.parseU64 p).filter (· < 256) with
    | some n => if h : n ≤ 8 * addr.octets.length then some ⟨addr, n, h⟩ else none
    | none => none
  | none => some ⟨addr, 8 * addr.octets.length, Nat.le_refl _⟩

/-- Parses `IP` or `IP/prefix`. -/
def parse (input : String) : Option Cidr :=
  let input := Text.trim input
  let parts := match Text.splitOnce '/' input with
    | some (a, p) => (Text.trim a, some (Text.trim p))
    | none => (input, none)
  (IpAddr.parse parts.1).bind fun addr => ofParts (canonical addr) parts.2

/-- Whether an address, already canonical, falls into the range. -/
def contains (c : Cidr) (ip : IpAddr) : Bool :=
  match c.addr, ip with
  | .v4 a, .v4 b => prefixMatch a.toList b.toList c.bits
  | .v6 a, .v6 b => prefixMatch a.toList b.toList c.bits
  | _, _ => false

end Cidr

def ipIsTrusted (ip : IpAddr) (trusted : List Cidr) : Bool := trusted.any fun c => c.contains ip

/-- `RATE_LIMIT_TRUSTED_PROXIES`, without the entries that do not parse. -/
def trustedProxies (env : Env) : List Cidr :=
  (((Text.split ',' ((env "RATE_LIMIT_TRUSTED_PROXIES").getD "")).map Text.trim).filter
    (· ≠ "")).filterMap Cidr.parse

/-- `RATE_LIMIT_FORWARDED_HEADER`. -/
def forwardedHeader (env : Env) : String :=
  (env "RATE_LIMIT_FORWARDED_HEADER").getD "X-Forwarded-For"

/-- All values of a header, in order. -/
def HeaderMap.getAll (h : HeaderMap) (name : String) : List (List UInt8) :=
  (h.filter fun x => x.1 = Text.toAsciiLowercase name).map Prod.snd

/-- One entry of the header: an address, or an IPv4 address with a port. -/
def parseForwardedIp (entry : String) : Option IpAddr :=
  let entry := Text.trim entry
  ((IpAddr.parse entry).map canonical).or
    (((Text.rsplitOnce ':' entry).bind fun x => IpAddr.parse x.1).map canonical)

/-- The addresses of the header; a value that is not visible ASCII has none. -/
def forwardedIps (headers : HeaderMap) (header : String) : List IpAddr :=
  (headers.getAll header).flatMap fun value =>
    match headerText value with
    | some text => (Text.split ',' (String.ofList text)).filterMap parseForwardedIp
    | none => []

/-- The client behind a trusted peer: from the right, the first address that is
not a trusted proxy, or the leftmost one. -/
def clientFromForwarded (headers : HeaderMap) (header : String) (trusted : List Cidr) :
    Option IpAddr :=
  let ips := forwardedIps headers header
  (ips.reverse.find? fun ip => !ipIsTrusted ip trusted).or ips.head?

/-- The key of a request. -/
def resolveKeyIp (peer : Option IpAddr) (headers : HeaderMap) (header : String)
    (trusted : List Cidr) : Option IpAddr :=
  peer.map fun peer =>
    let peer := canonical peer
    groupV6 (if ipIsTrusted peer trusted then
      (clientFromForwarded headers header trusted).getD peer
    else peer)

/-- A request from a peer, with its headers. -/
def arrival (peer : Option IpAddr) (headers : HeaderMap) (header : String) (trusted : List Cidr) :
    Incoming where
  headers := headers
  clientIp := (resolveKeyIp peer headers header trusted).map IpAddr.octets

end JwtService
