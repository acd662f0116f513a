import JwtService.Model.ClientIp

/-!
# Whom the limiter counts a forwarded request for

What a client puts into `X-Forwarded-For` stands to the left of its own
address, which the first trusted proxy appends. As long as the whole value is
visible ASCII the client's part does not matter (`key_not_steered`); one other
byte in it makes the value unreadable, and the request is counted for the
peer.
-/

namespace JwtService

open Net

/-- The text of an address in the header: bare, or as `IPv4:port`. -/
inductive Writes : String → IpAddr → Prop
  | bare {s : String} {ip : IpAddr} (h : IpAddr.parse s = some ip) : Writes s ip
  | withPort {host port : String} {a : Ipv4Addr} (h : IpAddr.parse host = some (.v4 a))
      (hp : ∀ c ∈ port.toList, isDigit 10 c = true) : Writes (host ++ ":" ++ port) (.v4 a)

/-- The value of the header after proxies have appended the texts of their
peers to what the client sent. -/
def appended (client : List UInt8) (hops : List String) : List UInt8 :=
  client ++ hops.flatMap fun hop => Text.utf8 (", " ++ hop)

/-! ## One entry -/

namespace Writes

variable {s : String} {ip : IpAddr}

theorem chars (h : Writes s ip) : ∀ c ∈ s.toList, IsAddrChar c := by
  cases h with
  | bare h => exact parse_chars h
  | @withPort host port a h hp =>
    intro c hc
    simp only [String.toList_append, List.mem_append] at hc
    rcases hc with (hc | hc) | hc
    · exact parse_chars h c hc
    · rw [List.mem_singleton.mp hc]
      exact .inr (.inr rfl)
    · exact IsOctetChar.isAddrChar (.inl (hp c hc))

/-- Behind a comma and a blank, the entry is read as the address. -/
theorem parse (h : Writes s ip) :
    parseForwardedIp (String.ofList (' ' :: s.toList)) = some (canonical ip) := by
  have hwhite : ∀ c ∈ s.toList, Text.isWhite c = false := by
    intro c hc
    have hr := (h.chars c hc).range
    simp only [Text.isWhite]
    grind
  rw [parseForwardedIp, Text.trim_blank hwhite, String.ofList_toList]
  cases h with
  | bare h => simp only [h, Option.map_some, Option.some_or]
  | @withPort host port a h hp =>
    have hcolon : ':' ∉ port.toList := fun hc => by
      have := hp ':' hc
      revert this
      decide
    have hs : host ++ ":" ++ port = String.ofList (host.toList ++ ':' :: port.toList) := by
      apply String.toList_injective
      simp
    have hsplit : Text.rsplitOnce ':' (host ++ ":" ++ port) = some (host, port) := by
      rw [hs, Text.rsplitOnce_append_cons hcolon, String.ofList_toList, String.ofList_toList]
    simp only [parse_with_port h, hsplit, Option.bind_some, h, Option.map_some, Option.map_none,
      Option.none_or]

end Writes

/-! ## The whole value -/

/-- Whether `HeaderValue::to_str` takes the byte. -/
def visible (b : UInt8) : Bool := b == 9 || (32 ≤ b && b < 127)

theorem headerText_eq (value : List UInt8) : headerText value =
    if value.all visible then some (value.map fun b => Char.ofNat b.toNat) else none := rfl

/-- The characters that the proxies append. -/
def hopChars (hops : List String) : List Char := hops.flatMap fun hop => ',' :: ' ' :: hop.toList

section Hops

variable {client : List UInt8} {hops : List String}

theorem hopChars_range (h : ∀ hop ∈ hops, ∃ ip, Writes hop ip) :
    ∀ c ∈ hopChars hops, 32 ≤ c.toNat ∧ c.toNat < 127 := by
  intro c hc
  obtain ⟨hop, hh, hc⟩ := List.mem_flatMap.mp hc
  obtain ⟨ip, hw⟩ := h hop hh
  simp only [List.mem_cons] at hc
  rcases hc with rfl | rfl | hc
  · decide
  · decide
  · have hr := (hw.chars c hc).range
    omega

theorem appended_eq (h : ∀ hop ∈ hops, ∃ ip, Writes hop ip) :
    appended client hops = client ++ (hopChars hops).map fun c => UInt8.ofNat c.toNat := by
  rw [appended, hopChars, List.map_flatMap]
  refine congrArg _ (List.flatMap_congr fun hop hh => ?_)
  have hs : ", " ++ hop = String.ofList (',' :: ' ' :: hop.toList) := by
    apply String.toList_injective
    simp
  rw [hs, Text.utf8_ascii]
  intro c hc
  have := hopChars_range h c (List.mem_flatMap.mpr ⟨hop, hh, hc⟩)
  omega

theorem visible_ofNat {n : Nat} (h : 32 ≤ n ∧ n < 127) : visible (UInt8.ofNat n) = true := by
  have : ∀ i : Fin 127, 32 ≤ i.val → visible (UInt8.ofNat i.val) = true := by decide
  exact this ⟨n, h.2⟩ h.1

/-- The value can be read if and only if the client's part can. -/
theorem headerText_appended (h : ∀ hop ∈ hops, ∃ ip, Writes hop ip) :
    headerText (appended client hops) = if client.all visible then
      some ((client.map fun b => Char.ofNat b.toNat) ++ hopChars hops) else none := by
  have hrange := hopChars_range h
  have hall : ((hopChars hops).map fun c => UInt8.ofNat c.toNat).all visible = true := by
    rw [List.all_eq_true]
    intro b hb
    obtain ⟨c, hc, rfl⟩ := List.mem_map.mp hb
    exact visible_ofNat (hrange c hc)
  have hback : ((hopChars hops).map fun c => UInt8.ofNat c.toNat).map
      (fun b => Char.ofNat b.toNat) = hopChars hops := by
    rw [List.map_map]
    refine (List.map_congr_left fun c hc => ?_).trans (List.map_id _)
    have hr := hrange c hc
    show Char.ofNat (UInt8.ofNat c.toNat).toNat = c
    rw [UInt8.toNat_ofNat_of_lt' (show c.toNat < 256 by omega), Char.ofNat_toNat]
  rw [headerText_eq, appended_eq h, List.all_append, hall, Bool.and_true, List.map_append, hback]

/-- The entries of the value: those of the client, and one for each hop. -/
theorem split_hops (cs : List Char) (h : ∀ hop ∈ hops, ∃ ip, Writes hop ip) :
    Text.split ',' (String.ofList (cs ++ hopChars hops)) =
      Text.split ',' (String.ofList cs) ++ hops.map fun hop => String.ofList (' ' :: hop.toList) := by
  induction hops generalizing cs with
  | nil => simp [hopChars]
  | cons hop hops ih =>
    have hcomma : ',' ∉ ' ' :: hop.toList := by
      obtain ⟨ip, hw⟩ := h hop List.mem_cons_self
      intro hc
      rcases List.mem_cons.mp hc with hc | hc
      · revert hc
        decide
      · have hr := (hw.chars _ hc).range
        revert hr
        decide
    have hcs : cs ++ hopChars (hop :: hops) = cs ++ ',' :: (' ' :: hop.toList ++ hopChars hops) := by
      simp [hopChars]
    rw [hcs, Text.split_append_cons, ih _ fun x hx => h x (List.mem_cons_of_mem _ hx),
      Text.split_of_not_mem hcomma, List.map_cons, List.singleton_append]

end Hops

/-! ## The key -/

section Key

variable {trusted : List Cidr} {peer ip : IpAddr} {header c : String} {headers : HeaderMap}
  {client : List UInt8} {proxies : List String}

/-- The addresses of the proxies behind the client are trusted. -/
def Trusts (trusted : List Cidr) (proxies : List String) : Prop :=
  ∀ p ∈ proxies, ∃ a, Writes p a ∧ ipIsTrusted (canonical a) trusted = true

theorem forwardedIps_appended (hc : Writes c ip) (hp : Trusts trusted proxies)
    (hh : headers.getAll header = [appended client (c :: proxies)]) :
    if client.all visible then
      ∃ own others, forwardedIps headers header = own ++ canonical ip :: others ∧
        ∀ a ∈ others, ipIsTrusted a trusted = true
    else forwardedIps headers header = [] := by
  have hw : ∀ hop ∈ c :: proxies, ∃ a, Writes hop a := by
    intro hop hh
    rcases List.mem_cons.mp hh with rfl | hh
    · exact ⟨ip, hc⟩
    · obtain ⟨a, ha, -⟩ := hp hop hh
      exact ⟨a, ha⟩
  rw [forwardedIps, hh, List.flatMap_singleton, headerText_appended hw]
  split
  · simp only [split_hops _ hw, List.filterMap_append, List.map_cons]
    rw [List.filterMap_cons_some hc.parse]
    refine ⟨_, _, rfl, fun a ha => ?_⟩
    obtain ⟨entry, he, ha⟩ := List.mem_filterMap.mp ha
    obtain ⟨p, hmem, rfl⟩ := List.mem_map.mp he
    obtain ⟨b, hb, ht⟩ := hp p hmem
    rw [hb.parse] at ha
    cases ha
    exact ht
  · rfl

/-- From the right, the first address that is not trusted. -/
theorem find_client {own others : List IpAddr} (hip : ipIsTrusted ip trusted = false)
    (h : ∀ a ∈ others, ipIsTrusted a trusted = true) :
    ((own ++ ip :: others).reverse.find? fun a => !ipIsTrusted a trusted) = some ip := by
  have hrev : (own ++ ip :: others).reverse = others.reverse ++ ip :: own.reverse := by simp
  have hnone : (others.reverse.find? fun a => !ipIsTrusted a trusted) = none := by
    rw [List.find?_eq_none]
    intro a ha
    simp [h a (List.mem_reverse.mp ha)]
  rw [hrev, List.find?_append, hnone, Option.none_or, List.find?_cons_of_pos (by simp [hip])]

theorem resolve_trusted (hpeer : ipIsTrusted (canonical peer) trusted = true) :
    resolveKeyIp (some peer) headers header trusted =
      some (groupV6 ((clientFromForwarded headers header trusted).getD (canonical peer))) := by
  simp only [resolveKeyIp, Option.map_some, hpeer, if_true]

/-- The client's part can be read. -/
theorem resolve_visible (hpeer : ipIsTrusted (canonical peer) trusted = true) (hc : Writes c ip)
    (hip : ipIsTrusted (canonical ip) trusted = false) (hp : Trusts trusted proxies)
    (hh : headers.getAll header = [appended client (c :: proxies)])
    (hv : client.all visible = true) :
    resolveKeyIp (some peer) headers header trusted = some (groupV6 (canonical ip)) := by
  have hips := forwardedIps_appended hc hp hh
  rw [if_pos hv] at hips
  obtain ⟨own, others, he, ho⟩ := hips
  rw [resolve_trusted hpeer, clientFromForwarded, he, find_client hip ho]
  rfl

/-- One of its bytes cannot. -/
theorem resolve_not_visible (hpeer : ipIsTrusted (canonical peer) trusted = true) (hc : Writes c ip)
    (hp : Trusts trusted proxies) (hh : headers.getAll header = [appended client (c :: proxies)])
    (hv : ¬ client.all visible = true) :
    resolveKeyIp (some peer) headers header trusted = some (groupV6 (canonical peer)) := by
  have hips := forwardedIps_appended hc hp hh
  rw [if_neg hv] at hips
  rw [resolve_trusted hpeer, clientFromForwarded, hips]
  rfl

/-- Behind a trusted peer, the key is the client's address, exactly when every
byte the client put into the header is visible ASCII, a blank or a tab; else it
is the peer's, which may be in the same group. -/
theorem key_not_steered (hpeer : ipIsTrusted (canonical peer) trusted = true) (hc : Writes c ip)
    (hip : ipIsTrusted (canonical ip) trusted = false) (hp : Trusts trusted proxies)
    (hh : headers.getAll header = [appended client (c :: proxies)]) :
    resolveKeyIp (some peer) headers header trusted = some (groupV6 (canonical ip)) ↔
      (∀ b ∈ client, visible b = true) ∨ groupV6 (canonical peer) = groupV6 (canonical ip) := by
  rw [← List.all_eq_true]
  by_cases hv : client.all visible = true
  · exact iff_of_true (resolve_visible hpeer hc hip hp hh hv) (.inl hv)
  · rw [resolve_not_visible hpeer hc hp hh hv, Option.some.injEq]
    simp only [hv, Bool.false_eq_true, false_or]

/-- What the limiter of verification is asked about. -/
theorem check_visible {l : LimiterRef} (hpeer : ipIsTrusted (canonical peer) trusted = true)
    (hc : Writes c ip) (hip : ipIsTrusted (canonical ip) trusted = false)
    (hp : Trusts trusted proxies) (hh : headers.getAll header = [appended client (c :: proxies)])
    (hv : client.all visible = true) :
    (Strategy.perIp l).check (arrival (some peer) headers header trusted) =
      callEdge (.check l (some (groupV6 (canonical ip)).octets)) := by
  rw [Strategy.check, arrival, resolve_visible hpeer hc hip hp hh hv]
  rfl

/-- A request whose own address is not trusted is counted for it, whatever its
headers say. -/
theorem key_of_untrusted_peer (hpeer : ipIsTrusted (canonical peer) trusted = false) :
    resolveKeyIp (some peer) headers header trusted = some (groupV6 (canonical peer)) := by
  simp only [resolveKeyIp, Option.map_some, hpeer, Bool.false_eq_true, if_false]

/-- The proxies `10.0.0.0/8`. -/
def tenNet : Cidr := ⟨.v4 #v[10, 0, 0, 0], 8, by decide⟩

/-- A proxy at `10.0.0.5`, behind it a client at `198.51.100.7` and another
proxy. -/
def throughProxies (client : List UInt8) : HeaderMap :=
  [("x-forwarded-for", appended client ["198.51.100.7", "10.0.0.9"])]

theorem key_not_steered_ascii : resolveKeyIp (some (.v4 #v[10, 0, 0, 5]))
    (throughProxies (Text.utf8 "1.2.3.4")) "X-Forwarded-For" [tenNet] =
      some (.v4 #v[198, 51, 100, 7]) := by
  refine (@key_not_steered [tenNet] _ (.v4 #v[198, 51, 100, 7]) _ "198.51.100.7" _ (Text.utf8 "1.2.3.4")
    ["10.0.0.9"] (by decide) (.bare rfl) (by decide) ?_ rfl).mpr (.inl (List.all_eq_true.mp (by decide)))
  intro p hp
  cases List.mem_singleton.mp hp
  exact ⟨_, .bare rfl, by decide⟩

/-- One byte above ASCII, and the client is counted for the proxy. -/
theorem key_steered_to_proxy : Writes "198.51.100.7" (.v4 #v[198, 51, 100, 7]) ∧
    ipIsTrusted (canonical (.v4 #v[198, 51, 100, 7])) [tenNet] = false ∧
    ipIsTrusted (canonical (.v4 #v[10, 0, 0, 5])) [tenNet] = true ∧ Trusts [tenNet] ["10.0.0.9"] ∧
    resolveKeyIp (some (.v4 #v[10, 0, 0, 5])) (throughProxies [0xe9]) "X-Forwarded-For" [tenNet] =
      some (.v4 #v[10, 0, 0, 5]) ∧
    some (groupV6 (canonical (.v4 #v[198, 51, 100, 7]))) ≠ some (.v4 #v[10, 0, 0, 5]) := by
  refine ⟨.bare rfl, by decide, by decide, fun p hp => ?_, rfl, by decide⟩
  cases List.mem_singleton.mp hp
  exact ⟨.v4 #v[10, 0, 0, 9], .bare rfl, by decide⟩

end Key

end JwtService
