import OpenPLC.Apps.Events

/-! What the DHCP client does in one step.  `Acts` has one case for each way through the protothread
`handle_dhcp`, and `ClientStep` one for each of its callers; the options of a datagram are read once
and for all, as the last one of each kind. -/

namespace OpenPLC

open Lib

namespace Dhcpc

/-! ### The options of a datagram -/

/-- The pointers to the options that the loop of `parse_options` visits. -/
def optionPtrs (m : Mem) (end_ : Nat) : Nat → Nat → List Nat
  | 0, _ => []
  | fuel + 1, optptr =>
    if optptr < end_ then
      if m optptr = 255 then []
      else optptr :: optionPtrs m end_ fuel (optptr + (m (optptr + 1)).toNat + 2)
    else []

/-- The pointer to the value of the last option of a kind. -/
def Datagram.option (d : Datagram) (kind : UInt8) : Option Nat :=
  (((optionPtrs d.mem d.end_ d.len.toNat 240).filter fun p => d.mem p = kind).getLast?).map (· + 2)

/-- The address in the last option of a kind. -/
def Datagram.addr (d : Datagram) (kind : UInt8) : Option IpAddr :=
  (d.option kind).map (IpAddr.load d.mem)

/-- The server identifier. -/
def Datagram.serverId (d : Datagram) : Option Quad := (d.option 54).map (Quad.load d.mem)

/-- The message type. -/
def Datagram.type (d : Datagram) : UInt8 := ((d.option 53).map d.mem).getD 0

theorem parseOptions_eq (m : Mem) (end_ fuel optptr : Nat) (s : Client) (type : UInt8) :
    parseOptions m end_ fuel optptr s type =
      (optionPtrs m end_ fuel optptr).foldl (fun x p => parseOption m p x.1 x.2) (s, type) := by
  induction fuel generalizing optptr s type with
  | zero => rfl
  | succ fuel ih =>
    simp only [parseOptions, optionPtrs]
    split
    · split
      · rfl
      · rw [List.foldl_cons, ← ih]
    · rfl

/-- A field that the options of one kind set has the value of the last of them. -/
theorem foldl_parseOption {β : Type*} {m : Mem} {kind : UInt8} {read : Nat → β}
    (field : Client × UInt8 → β)
    (hfield : ∀ x p, field (parseOption m p x.1 x.2) =
      if m p = kind then read (p + 2) else field x)
    (ps : List Nat) (x : Client × UInt8) :
    field (ps.foldl (fun x p => parseOption m p x.1 x.2) x) =
      (((ps.filter fun p => m p = kind).getLast?.map (· + 2)).map read).getD (field x) := by
  induction ps generalizing x with
  | nil => rfl
  | cons p ps ih =>
    rw [List.foldl_cons, ih, hfield]
    by_cases hp : m p = kind
    · simp only [hp, decide_true, List.filter_cons_of_pos, List.getLast?_cons, ↓reduceIte,
        Option.map_some, Option.getD_some]
      cases (ps.filter fun p => decide (m p = kind)).getLast? <;> rfl
    · simp [hp]

/-- The client without the fields that options set. -/
def Client.rest (s : Client) : Client :=
  { s with
    serverid := ⟨0, 0, 0, 0⟩, netmask := .zeroes, defaultRouter := .zeroes, dnsaddr := .zeroes
    leaseTime := .zeroes }

theorem foldl_parseOption_rest (m : Mem) (ps : List Nat) (x : Client × UInt8) :
    (ps.foldl (fun x p => parseOption m p x.1 x.2) x).1.rest = x.1.rest := by
  induction ps generalizing x with
  | nil => rfl
  | cons p ps ih =>
    rw [List.foldl_cons, ih]
    simp only [parseOption]
    split_ifs <;> rfl

/-- The pointer to the value of the last option of a kind, of those at `ps`. -/
def lastOption (m : Mem) (ps : List Nat) (kind : UInt8) : Option Nat :=
  ((ps.filter fun p => m p = kind).getLast?).map (· + 2)

/-- What the options at `ps` leave in the client: the value of the last one of each kind. -/
theorem foldl_parseOption_client (m : Mem) (ps : List Nat) (x : Client × UInt8) :
    (ps.foldl (fun x p => parseOption m p x.1 x.2) x).1 =
      { x.1 with
        serverid := ((lastOption m ps 54).map (Quad.load m)).getD x.1.serverid
        netmask := ((lastOption m ps 1).map (IpAddr.load m)).getD x.1.netmask
        defaultRouter := ((lastOption m ps 3).map (IpAddr.load m)).getD x.1.defaultRouter
        dnsaddr := ((lastOption m ps 6).map (IpAddr.load m)).getD x.1.dnsaddr
        leaseTime := ((lastOption m ps 51).map (IpAddr.load m)).getD x.1.leaseTime } := by
  have hrest := foldl_parseOption_rest m ps x
  have field {β : Type} (f : Client → β) (kind : UInt8) (read : Nat → β)
      (h : ∀ (x : Client × UInt8) p, f (parseOption m p x.1 x.2).1 =
        if m p = kind then read (p + 2) else f x.1) :
      f (ps.foldl (fun x p => parseOption m p x.1 x.2) x).1 =
        ((lastOption m ps kind).map read).getD (f x.1) :=
    foldl_parseOption (fun x => f x.1) h ps x
  have hserverid := field Client.serverid 54 (Quad.load m) fun x p => by
    by_cases hp : m p = 54
    · simp [parseOption, hp]
    · simp only [parseOption, hp, ↓reduceIte]
      split_ifs <;> rfl
  have hnetmask := field Client.netmask 1 (IpAddr.load m) fun x p => by
    by_cases hp : m p = 1
    · simp [parseOption, hp]
    · simp only [parseOption, hp, ↓reduceIte]
      split_ifs <;> rfl
  have hrouter := field Client.defaultRouter 3 (IpAddr.load m) fun x p => by
    by_cases hp : m p = 3
    · simp [parseOption, hp]
    · simp only [parseOption, hp, ↓reduceIte]
      split_ifs <;> rfl
  have hdns := field Client.dnsaddr 6 (IpAddr.load m) fun x p => by
    by_cases hp : m p = 6
    · simp [parseOption, hp]
    · simp only [parseOption, hp, ↓reduceIte]
      split_ifs <;> rfl
  have hlease := field Client.leaseTime 51 (IpAddr.load m) fun x p => by
    by_cases hp : m p = 51
    · simp [parseOption, hp]
    · simp only [parseOption, hp, ↓reduceIte]
      split_ifs <;> rfl
  generalize (ps.foldl (fun x p => parseOption m p x.1 x.2) x).1 = t at *
  calc t = { t.rest with
          serverid := t.serverid
          netmask := t.netmask
          defaultRouter := t.defaultRouter
          dnsaddr := t.dnsaddr
          leaseTime := t.leaseTime } := rfl
    _ = _ := by
      rw [hrest, hserverid, hnetmask, hrouter, hdns, hlease]
      rfl

theorem foldl_parseOption_type (m : Mem) (ps : List Nat) (x : Client × UInt8) :
    (ps.foldl (fun x p => parseOption m p x.1 x.2) x).2 =
      ((lastOption m ps 53).map m).getD x.2 := by
  refine foldl_parseOption (fun x => x.2) (fun x p => ?_) ps x
  by_cases hp : m p = 53
  · simp [parseOption, hp]
  · simp only [parseOption, hp, ↓reduceIte]
    split_ifs <;> rfl

theorem parseMsg_of_matches {d : Datagram} {s : Client} (h : d.Matches s.mac) :
    (parseMsg d s).1 =
      { s with
        ipaddr := d.yiaddr
        serverid := d.serverId.getD s.serverid
        netmask := (d.addr 1).getD s.netmask
        defaultRouter := (d.addr 3).getD s.defaultRouter
        dnsaddr := (d.addr 6).getD s.dnsaddr
        leaseTime := (d.addr 51).getD s.leaseTime } := by
  rw [parseMsg, if_pos h, parseOptions_eq, foldl_parseOption_client]
  rfl

theorem parseMsg_type {d : Datagram} {s : Client} (h : d.Matches s.mac) :
    (parseMsg d s).2 = d.type := by
  rw [parseMsg, if_pos h, parseOptions_eq, foldl_parseOption_type]
  rfl

theorem parseMsg_of_not_matches {d : Datagram} {s : Client} (h : ¬d.Matches s.mac) :
    parseMsg d s = (s, 0) := if_neg h

theorem matches_of_type {d : Datagram} {s : Client} (h : (parseMsg d s).2 ≠ 0) :
    d.Matches s.mac := by
  by_contra hnot
  exact h (by rw [parseMsg_of_not_matches hnot])

/-- No datagram changes where the thread is. -/
theorem parseMsg_thread (d : Datagram) (s : Client) :
    (parseMsg d s).1.pt = s.pt ∧ (parseMsg d s).1.state = s.state ∧
      (parseMsg d s).1.conn = s.conn ∧ (parseMsg d s).1.mac = s.mac := by
  by_cases h : d.Matches s.mac
  · rw [parseMsg_of_matches h]
    exact ⟨rfl, rfl, rfl, rfl⟩
  · rw [parseMsg_of_not_matches h]
    exact ⟨rfl, rfl, rfl, rfl⟩

/-! ### The messages -/

/-- A message of 256 bytes at `a` lies in `uip_buf`. -/
def HasRoom (a : Nat) : Prop := a + 256 ≤ bufBytes

instance (a : Nat) : Decidable (HasRoom a) := inferInstanceAs (Decidable (_ ≤ _))

theorem length_createMsg (s : Client) (host : IpAddr) : (createMsg s host).length = 240 := by
  simp only [createMsg, List.length_append, List.length_replicate, s.length_mac]
  rfl

theorem length_discoverMsg (s : Client) (host : IpAddr) : (discoverMsg s host).length ≤ 256 := by
  simp only [discoverMsg, List.length_append, length_createMsg]
  decide

theorem length_requestMsg (s : Client) (host : IpAddr) : (requestMsg s host).length ≤ 256 := by
  simp only [requestMsg, List.length_append, length_createMsg]
  exact le_refl 256

/-! ### One call of the thread -/

/-- The state goes with the place of the thread. -/
structure Threaded (s : Client) : Prop where
  offer : s.pt = .offer → s.state = .sending
  ack : s.pt = .ack → s.state = .offerReceived

/-- A call of `handle_dhcp` from the state `s`, with `uip_appdata` at `a`, the address `host`, and
the datagram `d` if there is one: the events and the state after it. -/
inductive Acts (a : Nat) (host : IpAddr) (d : Option Datagram) (s : Client) :
    List Event → Client → Prop
  | begin (ticks : UInt16) (timer : Timer) (hpt : s.pt = .start) :
    Acts a host d s [.started, .discover a (discoverMsg s host)]
      { s with state := .sending, ticks, timer, pt := .offer }
  /-- A datagram that is no offer. -/
  | noOffer (dg : Datagram) (timer : Timer) (hd : d = some dg) (hpt : s.pt = .offer)
      (htype : (parseMsg dg s).2 ≠ msgOffer) :
    Acts a host d s
      [.parsed .offer dg (parseMsg dg s).2, .discover a (discoverMsg (parseMsg dg s).1 host)]
      { (parseMsg dg s).1 with timer, pt := .offer }
  | offer (dg : Datagram) (ticks : UInt16) (timer : Timer) (hd : d = some dg) (hpt : s.pt = .offer)
      (htype : (parseMsg dg s).2 = msgOffer) :
    Acts a host d s
      [.parsed .offer dg msgOffer, .request a (requestMsg (parseMsg dg s).1 host)]
      { (parseMsg dg s).1 with state := .offerReceived, ticks, timer, pt := .ack }
  /-- No offer came in time. -/
  | rediscover (ticks : UInt16) (timer : Timer) (hd : d = none) (hpt : s.pt = .offer) :
    Acts a host d s [.discover a (discoverMsg s host)] { s with ticks, timer, pt := .offer }
  /-- A datagram that is no acknowledgment. -/
  | noAck (dg : Datagram) (timer : Timer) (hd : d = some dg) (hpt : s.pt = .ack)
      (htype : (parseMsg dg s).2 ≠ msgAck) :
    Acts a host d s
      [.parsed .ack dg (parseMsg dg s).2, .request a (requestMsg (parseMsg dg s).1 host)]
      { (parseMsg dg s).1 with timer, pt := .ack }
  | ack (dg : Datagram) (hd : d = some dg) (hpt : s.pt = .ack)
      (htype : (parseMsg dg s).2 = msgAck) :
    Acts a host d s [.parsed .ack dg msgAck, .configured]
      { (parseMsg dg s).1 with state := .configReceived, pt := .start }
  /-- No acknowledgment came in time. -/
  | rerequest (ticks : UInt16) (timer : Timer) (hd : d = none) (hpt : s.pt = .ack) :
    Acts a host d s [.request a (requestMsg s host)] { s with ticks, timer, pt := .ack }
  /-- No acknowledgment came at all: `PT_RESTART`. -/
  | restart (hd : d = none) (hpt : s.pt = .ack) : Acts a host d s [] { s with pt := .start }
  | wait (hd : d = none) (hpt : s.pt ≠ .start) : Acts a host d s [] s

theorem Acts.threaded {a : Nat} {host : IpAddr} {d : Option Datagram} {s s' : Client}
    {es : List Event} (h : Acts a host d s es s') (ht : Threaded s) : Threaded s' := by
  cases h with
  | begin => exact ⟨fun _ => rfl, nofun⟩
  | offer => exact ⟨nofun, fun _ => rfl⟩
  | noOffer dg _ _ hpt => exact ⟨fun _ => (parseMsg_thread dg s).2.1.trans (ht.offer hpt), nofun⟩
  | rediscover _ _ _ hpt => exact ⟨fun _ => ht.offer hpt, nofun⟩
  | noAck dg _ _ hpt => exact ⟨nofun, fun _ => (parseMsg_thread dg s).2.1.trans (ht.ack hpt)⟩
  | rerequest _ _ _ hpt => exact ⟨nofun, fun _ => ht.ack hpt⟩
  | ack | restart => exact ⟨nofun, nofun⟩
  | wait => exact ht

theorem Acts.mac {a : Nat} {host : IpAddr} {d : Option Datagram} {s s' : Client}
    {es : List Event} (h : Acts a host d s es s') : s'.mac = s.mac := by
  cases h with
  | noOffer dg | offer dg | noAck dg | ack dg => exact (parseMsg_thread dg s).2.2.2
  | begin | rediscover | rerequest | restart | wait => rfl

/-- A step of the client, with the datagram that it finds: nothing, a call of `dhcpc_appcall` that
passes its guard, or a renewal. -/
inductive ClientStep (s : Client) : Option Datagram → List Event → Client → Prop
  | quiet : ClientStep s none [] s
  | appcall {a : Nat} {host : IpAddr} {d : Option Datagram} {es : List Event} {s' : Client}
    (hstate : s.state ≠ .configReceived) (h : Acts a host d s es s') : ClientStep s d es s'
  | renew {a : Nat} {host : IpAddr} {d : Option Datagram} {es : List Event} {s' : Client}
    (h : Acts a host d s es s') : ClientStep s d (.renewed :: es) s'

end Dhcpc

namespace Stack

variable {K : Conf} {σ : Type*} {w : Stack (Firmware K σ)}

open Dhcpc

/-- The datagram that `uip_newdata()` reports. -/
def received (w : Stack (Firmware K σ)) : Option Datagram :=
  if w.flags.newdata then some w.datagram else none

/-- The part of the stack that a call of `handle_dhcp` leaves alone, with the events of the call. -/
structure Kept (w w' : Stack (Firmware K σ)) (es : List Event) : Prop where
  events : w'.app.events = w.app.events ++ es
  buf : w'.buf = w.buf
  appdata : w'.appdata = w.appdata
  sappdata : w'.sappdata = w.sappdata
  len : w'.len = w.len
  flags : w'.flags = w.flags
  hostaddr : w'.hostaddr = w.hostaddr
  lost : w'.lost = w.lost

/-- A call of `handle_dhcp` from `w` to `w'`, with its events. -/
structure Handled (w w' : Stack (Firmware K σ)) (es : List Event) : Prop where
  acts : Acts w.appdata w.hostaddr w.received w.app.dhcpc es w'.app.dhcpc
  events : w'.app.events = w.app.events ++ es
  appdata : w'.appdata = w.appdata
  sappdata : w'.sappdata = w.sappdata
  flags : w'.flags = w.flags
  configured : .configured ∈ es → w'.hostaddr = w'.app.dhcpc.ipaddr ∧
    w'.netmask = w'.app.dhcpc.netmask ∧ w'.draddr = w'.app.dhcpc.defaultRouter
  lost : HasRoom w.appdata → w'.lost = w.lost

/-- A message that has room is sent without a write outside. -/
theorem uipSend_lost {α : Type*} {w : Stack α} (hroom : HasRoom w.appdata) {msg : List UInt8}
    (hmsg : msg.length ≤ 256) : ((w.put w.appdata msg).uipSend msg.length).lost = w.lost := by
  have hfits : w.appdata + msg.length ≤ bufBytes := (Nat.add_le_add_left hmsg _).trans hroom
  exact uipSend_inside (w := w.put w.appdata msg) hfits

namespace Kept

variable {w' : Stack (Firmware K σ)} {es : List Event}

theorem refl (w : Stack (Firmware K σ)) : Kept w w [] :=
  ⟨by simp, rfl, rfl, rfl, rfl, rfl, rfl, rfl⟩

theorem modClient (h : Kept w w' es) (f : Client → Client) : Kept w (w'.modClient f) es :=
  ⟨h.events, h.buf, h.appdata, h.sappdata, h.len, h.flags, h.hostaddr, h.lost⟩

theorem logClient (h : Kept w w' es) (e : Event) : Kept w (w'.logClient e) (es ++ [e]) :=
  ⟨by simp [Stack.logClient, h.events], h.buf, h.appdata, h.sappdata, h.len, h.flags, h.hostaddr,
    h.lost⟩

theorem ready (h : Kept w w' es) : Kept w w'.ready.2 es := by
  simp only [Stack.ready]
  split
  · exact h
  · exact ⟨h.events, h.buf, h.appdata, h.sappdata, h.len, h.flags, h.hostaddr, h.lost⟩

theorem parse (h : Kept w w' es) (at_ : Point) :
    Kept w (w'.parse at_).1
      (es ++ [.parsed at_ w'.datagram (parseMsg w'.datagram w'.app.dhcpc).2]) :=
  (h.modClient _).logClient _

theorem datagram (h : Kept w w' es) : w'.datagram = w.datagram := by
  simp only [Stack.datagram, h.buf, h.appdata, h.len]

theorem uipSend_lost (h : Kept w w' es) (hroom : HasRoom w.appdata) {msg : List UInt8}
    (hmsg : msg.length ≤ 256) : ((w'.put w'.appdata msg).uipSend msg.length).lost = w.lost := by
  rw [← h.appdata] at hroom
  rw [← h.lost]
  exact Stack.uipSend_lost hroom hmsg

theorem offerLoop (h : Kept w w' es) (hes : .configured ∉ es)
    (hacts : ∀ timer, Acts w.appdata w.hostaddr w.received w.app.dhcpc
      (es ++ [.discover w.appdata (discoverMsg w'.app.dhcpc w.hostaddr)])
      { w'.app.dhcpc with timer, pt := .offer }) :
    ∃ es, Handled w w'.offerLoop es :=
  ⟨_, hacts (.set w'.app.dhcpc.ticks (w'.app.clock 0)),
    by simp [Stack.offerLoop, setTimer, sendDiscover, clockTime, Stack.modClient, Stack.logClient,
      uipSend, put, h.events, h.appdata, h.hostaddr],
    h.appdata, h.sappdata, h.flags, by simp [hes],
    fun hroom => h.uipSend_lost hroom (length_discoverMsg _ _)⟩

theorem ackLoop (h : Kept w w' es) (hes : .configured ∉ es)
    (hacts : ∀ timer, Acts w.appdata w.hostaddr w.received w.app.dhcpc
      (es ++ [.request w.appdata (requestMsg w'.app.dhcpc w.hostaddr)])
      { w'.app.dhcpc with timer, pt := .ack }) :
    ∃ es, Handled w w'.ackLoop es :=
  ⟨_, hacts (.set w'.app.dhcpc.ticks (w'.app.clock 0)),
    by simp [Stack.ackLoop, setTimer, sendRequest, clockTime, Stack.modClient, Stack.logClient,
      uipSend, put, h.events, h.appdata, h.hostaddr],
    h.appdata, h.sappdata, h.flags, by simp [hes],
    fun hroom => h.uipSend_lost hroom (length_requestMsg _ _)⟩

theorem handled (h : Kept w w' [])
    (hacts : Acts w.appdata w.hostaddr w.received w.app.dhcpc [] w'.app.dhcpc) :
    ∃ es, Handled w w' es :=
  ⟨[], hacts, h.events, h.appdata, h.sappdata, h.flags, nofun, fun _ => h.lost⟩

end Kept

theorem ready_client (w : Stack (Firmware K σ)) : w.ready.2.app.dhcpc = w.app.dhcpc := by
  simp only [ready]
  split <;> rfl

theorem received_none (h : w.ready.1 = false) : w.received = none := by
  cases hn : w.flags.newdata
  · simp [received, hn]
  · simp [ready, hn] at h

theorem ofBytes_bytes (a : IpAddr) :
    IpAddr.ofBytes a.w0.toUInt8 (a.w0 >>> 8).toUInt8 a.w1.toUInt8 (a.w1 >>> 8).toUInt8 = a := by
  have word (v : UInt16) :
      htons ((v.toUInt8.toUInt16 <<< 8) ||| (v >>> 8).toUInt8.toUInt16) = v := by
    apply UInt16.eq_of_toBitVec_eq
    simp only [htons, UInt16.toBitVec_or, UInt16.toBitVec_shiftLeft, UInt16.toBitVec_shiftRight,
      UInt8.toBitVec_toUInt16, UInt16.toBitVec_toUInt8]
    ext i hi
    rcases Nat.lt_or_ge i 8 with h | h
    · simp [h, hi, show 8 + i < 16 by omega]
    · simp [hi, show ¬i < 8 by omega, show i - 8 < 8 by omega, show 8 + (i - 8) = i by omega]
  rw [IpAddr.ofBytes, word, word]

@[simp] theorem modClient_client (w : Stack (Firmware K σ)) (f : Client → Client) :
    (w.modClient f).app.dhcpc = f w.app.dhcpc := rfl

theorem parse_client (w : Stack (Firmware K σ)) (at_ : Point) :
    (w.parse at_).1.app.dhcpc = (parseMsg w.datagram w.app.dhcpc).1 := rfl

theorem parseOffer_of_offer (h : (parseMsg w.datagram w.app.dhcpc).2 = msgOffer) :
    w.parseOffer = (w.parse .offer).1.modClient fun s => { s with state := .offerReceived } :=
  if_pos h

theorem parseOffer_of_ne (h : (parseMsg w.datagram w.app.dhcpc).2 ≠ msgOffer) :
    w.parseOffer = (w.parse .offer).1 := if_neg h

theorem parseAck_of_ack (h : (parseMsg w.datagram w.app.dhcpc).2 = msgAck) :
    w.parseAck = (w.parse .ack).1.modClient fun s => { s with state := .configReceived } := if_pos h

theorem parseAck_of_ne (h : (parseMsg w.datagram w.app.dhcpc).2 ≠ msgAck) :
    w.parseAck = (w.parse .ack).1 := if_neg h

/-- A call at the first wait. -/
theorem handleDhcp_offer (ht : Threaded w.app.dhcpc) (h : w.app.dhcpc.pt = .offer) :
    ∃ es, Handled w w.handleDhcp es := by
  have hkept := (Kept.refl w).ready
  have hclient := w.ready_client
  simp only [handleDhcp, h]
  rw [← hclient] at h ht
  split
  · generalize w.ready.2 = w₁ at *
    simp only [afterOfferWait, hkept.flags]
    split
    · have hd : w.received = some w₁.datagram := by simp [received, *, hkept.datagram]
      have hparsed := hkept.parse .offer
      by_cases htype : (parseMsg w₁.datagram w₁.app.dhcpc).2 = msgOffer
      · rw [parseOffer_of_offer htype, if_neg (by simp)]
        refine ((hparsed.modClient _).modClient _).ackLoop (by simp) fun timer => ?_
        rw [htype, ← hclient]
        exact .offer _ _ timer hd h htype
      · have hstate : (w₁.parse .offer).1.app.dhcpc.state ≠ .offerReceived := by
          rw [parse_client, (parseMsg_thread _ _).2.1, ht.offer h]
          simp
        rw [parseOffer_of_ne htype, if_pos hstate]
        refine hparsed.offerLoop (by simp) fun timer => ?_
        rw [← hclient]
        exact .noOffer _ timer hd h htype
    · have hd : w.received = none := by simp [received, *]
      have hstate : w₁.app.dhcpc.state ≠ .offerReceived := by
        rw [ht.offer h]
        simp
      rw [if_pos (by rw [modClient_client]; split <;> exact hstate)]
      refine (hkept.modClient _).offerLoop (by simp) fun timer => ?_
      rw [modClient_client, ← hclient]
      split
      · exact .rediscover _ timer hd h
      · exact .rediscover w₁.app.dhcpc.ticks timer hd h
  · rename_i hgo
    refine hkept.handled ?_
    rw [← hclient]
    exact .wait (received_none (by simpa using hgo)) (by simp [h])

/-- A call at the second wait. -/
theorem handleDhcp_ack (ht : Threaded w.app.dhcpc) (h : w.app.dhcpc.pt = .ack) :
    ∃ es, Handled w w.handleDhcp es := by
  have hkept := (Kept.refl w).ready
  have hclient := w.ready_client
  simp only [handleDhcp, h]
  rw [← hclient] at h ht
  split
  · generalize w.ready.2 = w₁ at *
    simp only [afterAckWait, hkept.flags]
    split
    · have hd : w.received = some w₁.datagram := by simp [received, *, hkept.datagram]
      have hparsed := hkept.parse .ack
      by_cases htype : (parseMsg w₁.datagram w₁.app.dhcpc).2 = msgAck
      · rw [parseAck_of_ack htype, if_neg (by simp)]
        rw [htype] at hparsed
        refine ⟨[.parsed .ack w₁.datagram msgAck, .configured], ?_, ?_, hparsed.appdata,
          hparsed.sappdata, hparsed.flags, fun _ => ?_, fun _ => hparsed.lost⟩
        · rw [← hclient]
          exact .ack _ hd h htype
        · exact (hparsed.logClient .configured).events
        · exact ⟨ofBytes_bytes _, ofBytes_bytes _, ofBytes_bytes _⟩
      · have hstate : (w₁.parse .ack).1.app.dhcpc.state ≠ .configReceived := by
          rw [parse_client, (parseMsg_thread _ _).2.1, ht.ack h]
          simp
        rw [parseAck_of_ne htype, if_pos hstate]
        refine hparsed.ackLoop (by simp) fun timer => ?_
        rw [← hclient]
        exact .noAck _ timer hd h htype
    · have hd : w.received = none := by simp [received, *]
      split
      · refine (hkept.modClient _).ackLoop (by simp) fun timer => ?_
        rw [modClient_client, ← hclient]
        exact .rerequest _ timer hd h
      · refine (hkept.modClient _).handled ?_
        rw [modClient_client, ← hclient]
        exact .restart hd h
  · rename_i hgo
    refine hkept.handled ?_
    rw [← hclient]
    exact .wait (received_none (by simpa using hgo)) (by simp [h])

theorem handleDhcp_handled (ht : Threaded w.app.dhcpc) : ∃ es, Handled w w.handleDhcp es := by
  cases h : w.app.dhcpc.pt with
  | start =>
    simp only [handleDhcp, h]
    refine (((Kept.refl w).logClient .started).modClient _).offerLoop (by simp) fun timer => ?_
    exact .begin _ timer h
  | offer => exact handleDhcp_offer ht h
  | ack => exact handleDhcp_ack ht h

/-- The addresses of the stack are those that the client holds. -/
def Configured (w : Stack (Firmware K σ)) : Prop :=
  w.hostaddr = w.app.dhcpc.ipaddr ∧ w.netmask = w.app.dhcpc.netmask ∧
    w.draddr = w.app.dhcpc.defaultRouter

theorem serverAppcall_client (sh : Shell σ) (w : Stack (Firmware K σ)) :
    (serverAppcall sh w).app.dhcpc = w.app.dhcpc ∧
      (serverAppcall sh w).app.events = w.app.events := by
  simp only [serverAppcall]
  split <;> split <;> exact ⟨rfl, rfl⟩

theorem udpSend_app (u : UdpId) (w : Stack (Firmware K σ)) : (udpSend u w).app = w.app := by
  simp only [udpSend]
  split <;> rfl

theorem udpSend_configured (u : UdpId) (h : w.Configured) : (udpSend u w).Configured := by
  simp only [udpSend]
  split <;> exact h

/-- `dhcpc_appcall` calls `handle_dhcp`. -/
def Calls (w : Stack (Firmware K σ)) : Prop :=
  w.app.dhcpc.conn ≠ none ∧ w.app.dhcpc.state ≠ .configReceived

instance (w : Stack (Firmware K σ)) : Decidable w.Calls := inferInstanceAs (Decidable (_ ∧ _))

/-- The datagram that `handle_dhcp` finds in a step. -/
def heard (w : Stack (Firmware K σ)) (e : NetEvent) : Option Datagram :=
  match w.outcome e with
  | none => if w.lost then none else w.received
  | some (.udpCall _ w) => if w.Calls then w.received else none
  | some _ => none

/-- A step of the client from `w` to `w'`, with the datagram that it finds and its events. -/
structure Stepped (w w' : Stack (Firmware K σ)) (d : Option Datagram) (es : List Event) : Prop where
  step : ClientStep w.app.dhcpc d es w'.app.dhcpc
  events : w'.app.events = w.app.events ++ es
  configured : .configured ∈ es → w'.Configured

theorem Stepped.quiet {w' : Stack (Firmware K σ)} (hclient : w'.app.dhcpc = w.app.dhcpc)
    (hevents : w'.app.events = w.app.events) : Stepped w w' none [] :=
  ⟨hclient ▸ .quiet, by simp [hevents], nofun⟩

theorem dhcpcRenew_stepped (ht : Threaded w.app.dhcpc) :
    ∃ es, Stepped w w.dhcpcRenew (if w.lost then none else w.received) es := by
  rw [dhcpcRenew]
  split
  · exact ⟨[], .quiet rfl rfl⟩
  set w₁ := { w with hostaddr := .ofBytes 0 0 0 0 }.logClient .renewed with hw₁
  have hevents : w₁.app.events = w.app.events ++ [.renewed] := rfl
  obtain ⟨es, h⟩ := handleDhcp_handled (w := w₁) ht
  refine ⟨.renewed :: es, .renew h.acts, ?_, fun hes => h.configured (by simpa using hes)⟩
  rw [h.events, hevents, List.append_assoc, List.singleton_append]

theorem dhcpcAppcall_stepped (ht : Threaded w.app.dhcpc) :
    ∃ es, Stepped w w.dhcpcAppcall (if w.Calls then w.received else none) es := by
  by_cases hcall : w.Calls
  · have hw : w.dhcpcAppcall = w.handleDhcp := if_pos hcall
    rw [hw, if_pos hcall]
    obtain ⟨es, h⟩ := handleDhcp_handled ht
    exact ⟨es, .appcall hcall.2 h.acts, h.events, h.configured⟩
  · have hw : w.dhcpcAppcall = w := if_neg hcall
    rw [hw, if_neg hcall]
    exact ⟨[], .quiet rfl rfl⟩

theorem netStep_stepped (sh : Shell σ) (hp : w.Passive) (ht : Threaded w.app.dhcpc) (e : NetEvent) :
    ∃ es, Stepped w (w.netStep sh e) (w.heard e) es := by
  simp only [netStep, heard]
  cases ho : w.outcome e with
  | none => exact dhcpcRenew_stepped ht
  | some o =>
    have hm := outcome_moves hp ho
    cases o with
    | done w₁ =>
      obtain ⟨c, hc⟩ := hm
      exact ⟨[], .quiet (congrArg Firmware.dhcpc hc.app) (congrArg Firmware.events hc.app)⟩
    | call c w₀ after =>
      obtain ⟨happ, -⟩ := After.run_conn c (serverAppcall sh w₀) after (by simpa using hm.1.stopped)
      obtain ⟨hclient, hevents⟩ := serverAppcall_client sh w₀
      rw [hm.1.app] at hclient hevents
      exact ⟨[], .quiet ((congrArg Firmware.dhcpc happ).trans hclient)
        ((congrArg Firmware.events happ).trans hevents)⟩
    | udpCall u w₀ =>
      obtain ⟨es, hstep, hevents, hconfigured⟩ := dhcpcAppcall_stepped (w := w₀) (hm.app ▸ ht)
      have happ := udpSend_app u w₀.dhcpcAppcall
      rw [hm.app] at hstep hevents
      exact ⟨es, (congrArg Firmware.dhcpc happ) ▸ hstep,
        (congrArg Firmware.events happ).trans hevents,
        fun hes => udpSend_configured u (hconfigured hes)⟩

end Stack

end OpenPLC
