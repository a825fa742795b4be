import OpenPLC.Apps.Lease

/-! Which offer a DHCP request is for.  `parse_msg` stores what a datagram carries before its type
is known, so a request keeps to one offer as long as no other datagram carries anything new. -/

namespace OpenPLC

open Lib

namespace Dhcpc

/-- The fields that `parse_msg` stores. -/
structure Held where
  serverid : Quad
  ipaddr : IpAddr
  netmask : IpAddr
  defaultRouter : IpAddr
  dnsaddr : IpAddr
  leaseTime : IpAddr

/-- What the client holds of the datagrams so far. -/
def Client.held (s : Client) : Held :=
  ⟨s.serverid, s.ipaddr, s.netmask, s.defaultRouter, s.dnsaddr, s.leaseTime⟩

/-- `handle_dhcp` accepts the datagram where it waits. -/
def Datagram.Accepted (d : Datagram) (s : Client) : Prop :=
  d.Matches s.mac ∧ ((s.pt = .offer ∧ d.type = msgOffer) ∨ (s.pt = .ack ∧ d.type = msgAck))

instance (d : Datagram) (s : Client) : Decidable (d.Accepted s) :=
  inferInstanceAs (Decidable (_ ∧ _))

/-- The address and the options of the datagram are those that the client holds. -/
def Datagram.Repeats (d : Datagram) (s : Client) : Prop :=
  d.yiaddr = s.ipaddr ∧ d.serverId.getD s.serverid = s.serverid ∧
    (d.addr 1).getD s.netmask = s.netmask ∧ (d.addr 3).getD s.defaultRouter = s.defaultRouter ∧
    (d.addr 6).getD s.dnsaddr = s.dnsaddr ∧ (d.addr 51).getD s.leaseTime = s.leaseTime

instance (d : Datagram) (s : Client) : Decidable (d.Repeats s) :=
  inferInstanceAs (Decidable (_ ∧ _))

/-- A datagram for the client, where it waits, is an offer that names its server, an acknowledgment
that is accepted, or carries nothing new. -/
def Datagram.Fits (d : Datagram) (s : Client) : Prop :=
  d.Matches s.mac ∧ s.pt ≠ .start →
    if d.Accepted s then s.pt = .offer → d.serverId ≠ none else d.Repeats s

instance (d : Datagram) (s : Client) : Decidable (d.Fits s) :=
  inferInstanceAs (Decidable (_ → _))

theorem parseMsg_of_repeats {d : Datagram} {s : Client} (hmatches : d.Matches s.mac)
    (h : d.Repeats s) : (parseMsg d s).1 = s := by
  obtain ⟨hipaddr, hserverid, hnetmask, hrouter, hdns, hlease⟩ := h
  rw [parseMsg_of_matches hmatches, hipaddr, hserverid, hnetmask, hrouter, hdns, hlease]

theorem Datagram.Fits.unchanged {d : Datagram} {s : Client} (h : d.Fits s) (hpt : s.pt ≠ .start)
    (hnot : ¬d.Accepted s) : (parseMsg d s).1 = s := by
  by_cases hmatches : d.Matches s.mac
  · have hrepeats := h ⟨hmatches, hpt⟩
    rw [if_neg hnot] at hrepeats
    exact parseMsg_of_repeats hmatches hrepeats
  · rw [parseMsg_of_not_matches hmatches]

/-- The client asks with the server identifier and the address that it holds. -/
theorem requestMsg_options (s : Client) (host : IpAddr) :
    [54, 4] ++ s.serverid.bytes ++ [50, 4] ++ s.ipaddr.bytes ++ [255] <:+ requestMsg s host :=
  ⟨createMsg s host ++ addMsgType msgRequest, by
    simp [requestMsg, addServerId, addReqIpaddr, addEnd]⟩

/-- An offer for the client, accepted since the thread began, with this server and address. -/
def OfferedWith (mac : List UInt8) (log : List Event) (server : Quad) (addr : IpAddr) : Prop :=
  ∃ d, .parsed .offer d msgOffer ∈ since Event.begins log ∧ d.Matches mac ∧
    d.serverId = some server ∧ d.yiaddr = addr

/-- A request message is for the server and the address of one offer. -/
def Requested (mac : List UInt8) (log : List Event) : Event → Prop
  | .request _ msg => ∃ server addr, OfferedWith mac log server addr ∧
      [54, 4] ++ server.bytes ++ [50, 4] ++ addr.bytes ++ [255] <:+ msg
  | _ => True

/-- The client and its log: where the thread waits for an acknowledgment, the client holds the
server and the address of an offer. -/
structure Bound (mac : List UInt8) (s : Client) (log : List Event) : Prop where
  threaded : Threaded s
  hmac : s.mac = mac
  justified : JustifiedLog (Requested mac) log
  offered : s.pt = .ack → OfferedWith mac log s.serverid s.ipaddr

variable {mac : List UInt8} {s s' : Client} {log es : List Event}

theorem OfferedWith.append {server : Quad} {addr : IpAddr} (h : OfferedWith mac log server addr)
    (hes : es.any Event.begins = false) : OfferedWith mac (log ++ es) server addr := by
  obtain ⟨d, hd, h⟩ := h
  cases es with
  | nil => exact ⟨d, by rwa [List.append_nil], h⟩
  | cons e es => exact ⟨d, by rw [since_append_cons, hes]; simp [hd], h⟩

/-- A request that follows the event by which the client holds its server and its address. -/
theorem OfferedWith.request {e : Event} {x : Client}
    (hoffered : OfferedWith mac (log ++ [e]) x.serverid x.ipaddr)
    (h : JustifiedLog (Requested mac) log) (he : Requested mac log e) (a : Nat) (host : IpAddr) :
    JustifiedLog (Requested mac) (log ++ [e, .request a (requestMsg x host)]) ∧
      OfferedWith mac (log ++ [e, .request a (requestMsg x host)]) x.serverid x.ipaddr := by
  refine ⟨justifiedLog_append.mpr ⟨h, he, ⟨_, _, hoffered, requestMsg_options x host⟩, trivial⟩, ?_⟩
  rw [List.append_cons]
  exact hoffered.append rfl

theorem Bound.acts {a : Nat} {host : IpAddr} {d : Option Datagram} (h : Bound mac s log)
    (hfits : ∀ dg ∈ d, dg.Fits s) (ha : Acts a host d s es s') : Bound mac s' (log ++ es) := by
  have threaded := ha.threaded h.threaded
  have hmac := ha.mac.trans h.hmac
  cases ha with
  | begin | rediscover | noOffer =>
    refine ⟨threaded, hmac, ?_, (by simp)⟩
    simp [justifiedLog_append, h.justified, JustifiedFrom, Requested]
  | offer dg ticks timer hd hpt htype =>
    have hmatches : dg.Matches s.mac := matches_of_type (by rw [htype]; decide)
    rw [parseMsg_type hmatches] at htype
    have hserver := hfits dg hd ⟨hmatches, by simp [hpt]⟩
    rw [if_pos ⟨hmatches, .inl ⟨hpt, htype⟩⟩] at hserver
    obtain ⟨server, hserver⟩ := Option.ne_none_iff_exists'.mp (hserver hpt)
    have hparsed := parseMsg_of_matches hmatches
    have hoffered : OfferedWith mac (log ++ [.parsed .offer dg msgOffer])
        (parseMsg dg s).1.serverid (parseMsg dg s).1.ipaddr := by
      rw [hparsed, hserver]
      exact ⟨dg, by simp [Event.begins], h.hmac ▸ hmatches, hserver, rfl⟩
    obtain ⟨justified, hrequest⟩ := hoffered.request h.justified trivial a host
    exact ⟨threaded, hmac, justified, fun _ => hrequest⟩
  | noAck dg timer hd hpt htype =>
    have hnot : ¬dg.Accepted s := by
      rintro ⟨hmatches, ⟨hpt', -⟩ | ⟨-, htype'⟩⟩
      · cases hpt.symm.trans hpt'
      · exact htype ((parseMsg_type hmatches).trans htype')
    have hoffered : OfferedWith mac (log ++ [.parsed .ack dg (parseMsg dg s).2])
        (parseMsg dg s).1.serverid (parseMsg dg s).1.ipaddr := by
      rw [(hfits dg hd).unchanged (by simp [hpt]) hnot]
      exact (h.offered hpt).append rfl
    obtain ⟨justified, hrequest⟩ := hoffered.request h.justified trivial a host
    exact ⟨threaded, hmac, justified, fun _ => hrequest⟩
  | ack =>
    refine ⟨threaded, hmac, ?_, (by simp)⟩
    simp [justifiedLog_append, h.justified, JustifiedFrom, Requested]
  | rerequest ticks timer hd hpt =>
    refine ⟨threaded, hmac, ?_, fun _ => (h.offered hpt).append rfl⟩
    exact justifiedLog_append.mpr ⟨h.justified,
      ⟨_, _, h.offered hpt, requestMsg_options s host⟩, trivial⟩
  | restart =>
    rw [List.append_nil]
    exact ⟨threaded, hmac, h.justified, (by simp)⟩
  | wait =>
    rw [List.append_nil]
    exact h

theorem Bound.step {d : Option Datagram} (h : Bound mac s log) (hfits : ∀ dg ∈ d, dg.Fits s)
    (hs : ClientStep s d es s') : Bound mac s' (log ++ es) := by
  cases hs with
  | quiet =>
    rw [List.append_nil]
    exact h
  | appcall _ ha => exact h.acts hfits ha
  | renew ha =>
    rename_i es
    have hrenewed : Bound mac s (log ++ [.renewed]) :=
      { h with
        justified := justifiedLog_append.mpr ⟨h.justified, trivial, trivial⟩
        offered hpt := (h.offered hpt).append rfl }
    rw [← List.singleton_append, ← List.append_assoc]
    exact hrenewed.acts hfits ha

theorem Acts.held {a : Nat} {host : IpAddr} {d : Option Datagram} (ha : Acts a host d s es s')
    (hfits : ∀ dg ∈ d, dg.Fits s) (hnot : ∀ dg ∈ d, ¬dg.Accepted s) : s'.held = s.held := by
  have unchanged {dg : Datagram} (hd : d = some dg) (hpt : s.pt ≠ .start) :
      (parseMsg dg s).1.held = s.held := by
    rw [(hfits dg hd).unchanged hpt (hnot dg hd)]
  cases ha with
  | begin | rediscover | rerequest | restart | wait => rfl
  | noOffer dg _ hd hpt | offer dg _ _ hd hpt | noAck dg _ hd hpt | ack dg hd hpt =>
    exact unchanged hd (by rw [hpt]; nofun)

theorem ClientStep.held {d : Option Datagram} (hs : ClientStep s d es s')
    (hfits : ∀ dg ∈ d, dg.Fits s) (hnot : ∀ dg ∈ d, ¬dg.Accepted s) : s'.held = s.held := by
  cases hs with
  | quiet => rfl
  | appcall _ ha => exact ha.held hfits hnot
  | renew ha => exact ha.held hfits hnot

/-! ### Runs -/

variable {K : Conf} {σ : Type*}

/-- The datagram that the client finds in a step fits. -/
def StepFits (w : Stack (Firmware K σ)) (e : NetEvent) : Prop :=
  ∀ d ∈ w.heard e, d.Fits w.app.dhcpc

instance (w : Stack (Firmware K σ)) (e : NetEvent) : Decidable (StepFits w e) :=
  inferInstanceAs (Decidable (∀ d ∈ w.heard e, d.Fits w.app.dhcpc))

/-- The stack is passive, and the requests of its client are for one offer each. -/
structure BoundStack (mac : List UInt8) (w : Stack (Firmware K σ)) : Prop where
  passive : w.Passive
  bound : Bound mac w.app.dhcpc w.app.events

theorem BoundStack.step {w : Stack (Firmware K σ)} {e : NetEvent} (h : BoundStack mac w)
    (sh : Shell σ) (hfits : StepFits w e) : BoundStack mac (w.netStep sh e) := by
  obtain ⟨es, hs⟩ := Stack.netStep_stepped sh h.passive h.bound.threaded e
  exact ⟨Stack.netStep_passive sh h.passive e, hs.events ▸ h.bound.step hfits hs.step⟩

theorem init_boundStack (null : Nat) (hmac : mac.length = 6) (clock : Nat → UInt16) (shell : σ) :
    BoundStack mac (Board.init (K := K) null mac hmac clock shell).net where
  passive _ := ⟨rfl, nofun⟩
  bound := ⟨⟨nofun, nofun⟩, rfl, trivial, nofun⟩

/-- In every run from `dhcpc_init` in which every datagram fits, each request is for the server and
the address of one offer accepted since the thread began, and in each step a datagram that is not
accepted changes nothing that the client holds. -/
theorem request_offered (sh : Shell σ) (null : Nat) (mac : List UInt8) (hmac : mac.length = 6)
    (clock : Nat → UInt16) (shell : σ) (es : List NetEvent)
    (hfits : Along (Stack.netStep sh) StepFits
      (Board.init (K := K) null mac hmac clock shell).net es) :
    let w := run (Stack.netStep sh) (Board.init (K := K) null mac hmac clock shell).net es
    (∀ pre a msg post, w.app.events = pre ++ .request a msg :: post →
      ∃ server addr, OfferedWith mac pre server addr ∧
        [54, 4] ++ server.bytes ++ [50, 4] ++ addr.bytes ++ [255] <:+ msg) ∧
    ∀ e, StepFits w e → (∀ d ∈ w.heard e, ¬d.Accepted w.app.dhcpc) →
      (w.netStep sh e).app.dhcpc.held = w.app.dhcpc.held := by
  intro w
  have h : BoundStack mac w :=
    hfits.invariant (fun _ _ h hf => h.step sh hf) (init_boundStack null hmac clock shell)
  refine ⟨fun pre a msg post hlog => h.bound.justified.justified hlog, fun e hf hnot => ?_⟩
  obtain ⟨new, hs⟩ := Stack.netStep_stepped sh h.passive h.bound.threaded e
  exact hs.step.held hf hnot

theorem request_offered_once :
    let w := run (Stack.netStep Telnetd.shell)
      (Board.init (K := Telnetd.conf) 0 (List.replicate 6 0) rfl (fun _ => 0) ()).net
      [.process (.udpTimer 0), .frame (offerFrame 2)]
    (∀ pre a msg post, w.app.events = pre ++ .request a msg :: post →
      ∃ server addr, OfferedWith (List.replicate 6 0) pre server addr ∧
        [54, 4] ++ server.bytes ++ [50, 4] ++ addr.bytes ++ [255] <:+ msg) ∧
    ∀ e, StepFits w e → (∀ d ∈ w.heard e, ¬d.Accepted w.app.dhcpc) →
      (w.netStep Telnetd.shell e).app.dhcpc.held = w.app.dhcpc.held :=
  request_offered Telnetd.shell 0 (List.replicate 6 0) rfl (fun _ => 0) ()
    [.process (.udpTimer 0), .frame (offerFrame 2)]
    (by decide +kernel)

/-- The server of an offer that is accepted. -/
def Event.offer? : Event → Option Quad
  | .parsed .offer d type => if type = msgOffer then d.serverId else none
  | _ => none

/-- The last 13 bytes of a request: the server identifier, the requested address, and the end. -/
def Event.asked? : Event → Option (List UInt8)
  | .request _ msg => some (msg.drop (msg.length - 13))
  | _ => none

/-- A second offer changes the server and the address of the request for the first one. -/
theorem not_request_offered :
    let w := run (Stack.netStep Telnetd.shell)
      (Board.init (K := Telnetd.conf) 0 (List.replicate 6 0) rfl (fun _ => 0) ()).net
      [.process (.udpTimer 0), .frame (offerFrame 2), .frame (offerFrame 3)]
    ∃ pre a msg, w.app.events = pre ++ [.request a msg] ∧
      ¬∃ server addr, OfferedWith (List.replicate 6 0) pre server addr ∧
        [54, 4] ++ server.bytes ++ [50, 4] ++ addr.bytes ++ [255] <:+ msg := by
  intro w
  have hasked : w.app.events.getLast?.bind Event.asked? =
      some [54, 4, 10, 0, 0, 3, 50, 4, 10, 0, 1, 3, 255] := by decide +kernel
  have hoffers : w.app.events.filterMap Event.offer? = [⟨10, 0, 0, 2⟩] := by decide +kernel
  generalize w.app.events = log at *
  obtain ⟨last, hlast, hlastAsked⟩ := Option.bind_eq_some_iff.mp hasked
  obtain ⟨pre, rfl⟩ := List.getLast?_eq_some_iff.mp hlast
  cases last with
  | request a msg =>
    refine ⟨pre, a, msg, rfl, ?_⟩
    rintro ⟨server, addr, ⟨d, hd, -, hserver, -⟩, hsuffix⟩
    have hmem : server ∈ (pre ++ [Event.request a msg]).filterMap Event.offer? := by
      have hpre : Event.parsed .offer d msgOffer ∈ pre := (List.rtakeWhile_suffix ..).subset hd
      exact List.mem_filterMap.mpr ⟨_, List.mem_append_left _ hpre, hserver⟩
    rw [hoffers, List.mem_singleton] at hmem
    subst hmem
    have hdrop := List.suffix_iff_eq_drop.mp hsuffix
    have hlength : ([54, 4] ++ Quad.bytes ⟨10, 0, 0, 2⟩ ++ [50, 4] ++ addr.bytes ++ [255]).length =
        13 := rfl
    rw [hlength, Option.some.inj hlastAsked] at hdrop
    cases hdrop
  | _ => cases hlastAsked

end Dhcpc

end OpenPLC
