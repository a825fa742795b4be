import OpenPLC.Apps.Exchange
import OpenPLC.Lib.Log
import OpenPLC.Lib.Run
import OpenPLC.Main

/-! When the DHCP client configures the device: the log of every run is justified, event by
event. -/

namespace OpenPLC

open Lib

namespace Dhcpc

/-- The thread begins. -/
def Event.begins : Event → Bool
  | .started => true
  | _ => false

/-- A renewal begins. -/
def Event.renews : Event → Bool
  | .renewed => true
  | _ => false

/-- A datagram for the client is accepted as an offer. -/
def Offered (mac : List UInt8) (log : List Event) : Prop :=
  ∃ d, .parsed .offer d msgOffer ∈ log ∧ d.Matches mac

/-- The last event of the log is that a datagram for the client is accepted as an acknowledgment. -/
def Acknowledged (mac : List UInt8) (log : List Event) : Prop :=
  ∃ pre d, log = pre ++ [.parsed .ack d msgAck] ∧ d.Matches mac

/-- What must be true of the log before an event: the device is configured once after an offer and
an acknowledgment, and then no datagram is processed before the next renewal. -/
def Justified (mac : List UInt8) (log : List Event) : Event → Prop
  | .configured => Acknowledged mac log ∧ Offered mac (since Event.begins log) ∧
      .configured ∉ since Event.begins log
  | .parsed _ _ _ => .configured ∉ since Event.renews log
  | _ => True

/-- The client and its log: where the thread waits for an acknowledgment, there is an offer. -/
structure Leased (mac : List UInt8) (s : Client) (log : List Event) : Prop where
  threaded : Threaded s
  hmac : s.mac = mac
  justified : JustifiedLog (Justified mac) log
  offered : s.pt = .ack → Offered mac (since Event.begins log)
  once : s.pt ≠ .start → .configured ∉ since Event.begins log
  lease : s.state ≠ .configReceived → .configured ∉ since Event.renews log

variable {mac : List UInt8} {s s' : Client} {log es : List Event}

theorem Offered.append (h : Offered mac log) (log' : List Event) : Offered mac (log ++ log') := by
  obtain ⟨d, hd, hmac⟩ := h
  exact ⟨d, by simp [hd], hmac⟩

/-- A call of `handle_dhcp` keeps the log justified, unless the device is configured since the last
renewal. -/
theorem Leased.acts {a : Nat} {host : IpAddr} {d : Option Datagram} (h : Leased mac s log)
    (hlease : .configured ∉ since Event.renews log) (ha : Acts a host d s es s') :
    Leased mac s' (log ++ es) := by
  have threaded := ha.threaded h.threaded
  have hmac := ha.mac.trans h.hmac
  have matched {dg : Datagram} (htype : (parseMsg dg s).2 ≠ 0) : dg.Matches mac :=
    h.hmac ▸ matches_of_type htype
  cases ha with
  | begin ticks timer hpt =>
    refine ⟨threaded, hmac, ?_, (by simp), ?_, ?_⟩
    · simp [justifiedLog_append, h.justified, JustifiedFrom, Justified]
    · simp [Event.begins]
    · simp [Event.renews, hlease]
  | noOffer dg timer hd hpt htype =>
    refine ⟨threaded, hmac, ?_, (by simp), ?_, ?_⟩
    · simp [justifiedLog_append, h.justified, JustifiedFrom, Justified, hlease]
    · simp [Event.begins, h.once, hpt]
    · simp [Event.renews, hlease]
  | offer dg ticks timer hd hpt htype =>
    refine ⟨threaded, hmac, ?_, fun _ => ⟨dg, ?_, matched (by rw [htype]; decide)⟩, ?_, ?_⟩
    · simp [justifiedLog_append, h.justified, JustifiedFrom, Justified, hlease]
    · simp [Event.begins]
    · simp [Event.begins, h.once, hpt]
    · simp [Event.renews, hlease]
  | rediscover ticks timer hd hpt =>
    refine ⟨threaded, hmac, ?_, (by simp), ?_, ?_⟩
    · simp [justifiedLog_append, h.justified, JustifiedFrom, Justified]
    · simp [Event.begins, h.once, hpt]
    · simp [Event.renews, hlease]
  | noAck dg timer hd hpt htype =>
    refine ⟨threaded, hmac, ?_, fun _ => ?_, ?_, ?_⟩
    · simp [justifiedLog_append, h.justified, JustifiedFrom, Justified, hlease]
    · simpa [Event.begins] using (h.offered hpt).append _
    · simp [Event.begins, h.once, hpt]
    · simp [Event.renews, hlease]
  | ack dg hd hpt htype =>
    have hack : Acknowledged mac (log ++ [.parsed .ack dg msgAck]) :=
      ⟨log, dg, rfl, matched (by rw [htype]; decide)⟩
    have hoffered : Offered mac (since Event.begins (log ++ [.parsed .ack dg msgAck])) := by
      simpa [Event.begins] using (h.offered hpt).append [.parsed .ack dg msgAck]
    have honce : .configured ∉ since Event.begins (log ++ [.parsed .ack dg msgAck]) := by
      simp [Event.begins, h.once, hpt]
    refine ⟨threaded, hmac, ?_, (by simp), (absurd rfl ·), (absurd rfl ·)⟩
    exact justifiedLog_append.mpr ⟨h.justified, hlease, ⟨hack, hoffered, honce⟩, trivial⟩
  | rerequest ticks timer hd hpt =>
    refine ⟨threaded, hmac, ?_, fun _ => ?_, ?_, ?_⟩
    · simp [justifiedLog_append, h.justified, JustifiedFrom, Justified]
    · simpa [Event.begins] using (h.offered hpt).append _
    · simp [Event.begins, h.once, hpt]
    · simp [Event.renews, hlease]
  | restart hd hpt =>
    rw [List.append_nil]
    exact ⟨threaded, hmac, h.justified, (by simp), (absurd rfl ·), fun _ => hlease⟩
  | wait hd hpt =>
    rw [List.append_nil]
    exact h

theorem Leased.step {d : Option Datagram} (h : Leased mac s log) (hs : ClientStep s d es s') :
    Leased mac s' (log ++ es) := by
  cases hs with
  | quiet =>
    rw [List.append_nil]
    exact h
  | appcall hstate ha => exact h.acts (h.lease hstate) ha
  | renew ha =>
    rename_i es
    have hrenewed : Leased mac s (log ++ [.renewed]) :=
      { h with
        justified := justifiedLog_append.mpr ⟨h.justified, trivial, trivial⟩
        offered hpt := by simpa [Event.begins] using (h.offered hpt).append _
        once hpt := by simp [Event.begins, h.once hpt]
        lease _ := by simp [Event.renews] }
    rw [← List.singleton_append, ← List.append_assoc]
    exact hrenewed.acts (by simp [Event.renews]) ha

/-- The device is configured by an acknowledgment, with its address. -/
theorem ClientStep.configured {d : Option Datagram} (hs : ClientStep s d es s')
    (hes : .configured ∈ es) :
    ∃ d, [.parsed .ack d msgAck, .configured] <:+ es ∧ d.Matches s.mac ∧ s'.ipaddr = d.yiaddr := by
  have acts {a : Nat} {host : IpAddr} {d : Option Datagram} {es : List Event}
      (ha : Acts a host d s es s') (hes : .configured ∈ es) :
      ∃ d, [.parsed .ack d msgAck, .configured] <:+ es ∧ d.Matches s.mac ∧
        s'.ipaddr = d.yiaddr := by
    cases ha with
    | ack dg hd hpt htype =>
      have hmatches : dg.Matches s.mac := matches_of_type (by rw [htype]; decide)
      exact ⟨dg, List.suffix_refl _, hmatches, by rw [parseMsg_of_matches hmatches]⟩
    | _ => simp at hes
  cases hs with
  | quiet => cases hes
  | appcall hstate ha => exact acts ha hes
  | renew ha =>
    obtain ⟨d, hd, h⟩ := acts ha (by simpa using hes)
    exact ⟨d, hd.trans (List.suffix_cons ..), h⟩

/-! ### Runs -/

variable {K : Conf} {σ : Type*}

/-- The stack is passive, and the log of its client is justified. -/
structure LeasedStack (mac : List UInt8) (w : Stack (Firmware K σ)) : Prop where
  passive : w.Passive
  leased : Leased mac w.app.dhcpc w.app.events

theorem LeasedStack.step {w : Stack (Firmware K σ)} (h : LeasedStack mac w) (sh : Shell σ)
    (e : NetEvent) : LeasedStack mac (w.netStep sh e) := by
  obtain ⟨es, hs⟩ := Stack.netStep_stepped sh h.passive h.leased.threaded e
  exact ⟨Stack.netStep_passive sh h.passive e, hs.events ▸ h.leased.step hs.step⟩

theorem init_leasedStack (null : Nat) (hmac : mac.length = 6) (clock : Nat → UInt16) (shell : σ) :
    LeasedStack mac (Board.init (K := K) null mac hmac clock shell).net where
  passive _ := ⟨rfl, nofun⟩
  leased :=
    { threaded := ⟨nofun, nofun⟩
      hmac := rfl
      justified := trivial
      offered := nofun
      once := fun h => absurd rfl h
      lease := fun _ => List.not_mem_nil }

theorem run_leasedStack (sh : Shell σ) (null : Nat) (hmac : mac.length = 6) (clock : Nat → UInt16)
    (shell : σ) (es : List NetEvent) :
    LeasedStack mac
      (run (Stack.netStep sh) (Board.init (K := K) null mac hmac clock shell).net es) :=
  run_invariant (fun _ e h => h.step sh e) (init_leasedStack null hmac clock shell) es

/-- In every run from `dhcpc_init`, the device is configured only after an acknowledgment, which
follows an offer since the thread began, and once since then; no datagram is processed after that
before the next renewal; and the addresses are those of the acknowledgment. -/
theorem configured_acknowledged (sh : Shell σ) (null : Nat) (mac : List UInt8)
    (hmac : mac.length = 6) (clock : Nat → UInt16) (shell : σ) (es : List NetEvent) :
    let w := run (Stack.netStep sh) (Board.init (K := K) null mac hmac clock shell).net es
    (∀ pre post, w.app.events = pre ++ .configured :: post →
      Acknowledged mac pre ∧ Offered mac (since Event.begins pre) ∧
        .configured ∉ since Event.begins pre) ∧
    (∀ pre at_ d type post, w.app.events = pre ++ .parsed at_ d type :: post →
      .configured ∉ since Event.renews pre) ∧
    ∀ e, let w' := w.netStep sh e
      ∃ new, w'.app.events = w.app.events ++ new ∧
        (.configured ∈ new → ∃ d, [.parsed .ack d msgAck, .configured] <:+ new ∧ d.Matches mac ∧
          w'.hostaddr.bytes = d.mem.read 16 4 ∧
          w'.netmask.bytes = w'.app.dhcpc.netmask.bytes ∧
          w'.draddr.bytes = w'.app.dhcpc.defaultRouter.bytes) := by
  intro w
  have h : LeasedStack mac w := run_leasedStack sh null hmac clock shell es
  refine ⟨fun pre post hlog => h.leased.justified.justified hlog,
    fun pre at_ d type post hlog => h.leased.justified.justified hlog, fun e => ?_⟩
  obtain ⟨new, hs⟩ := Stack.netStep_stepped sh h.passive h.leased.threaded e
  refine ⟨new, hs.events, fun hnew => ?_⟩
  obtain ⟨d, hsuffix, hmatches, hipaddr⟩ := hs.step.configured hnew
  obtain ⟨hhost, hmask, hrouter⟩ := hs.configured hnew
  rw [h.leased.hmac] at hmatches
  refine ⟨d, hsuffix, hmatches, ?_, by rw [hmask], by rw [hrouter]⟩
  rw [hhost, hipaddr, Datagram.yiaddr, IpAddr.bytes_load]

/-- The frame of an offer of the server 10.0.0.`n`, with the address 10.0.1.`n`. -/
def offerFrame (n : UInt8) : List UInt8 :=
  List.replicate 12 0 ++ [8, 0, 69, 0, 1, 22, 0, 0, 0, 0, 64, 17, 111, 214, 10, 0, 0, 2, 255, 255,
    255, 255, 0, 67, 0, 68, 1, 2, 0, 0, 2, 1, 6, 0] ++ xid ++ List.replicate 8 0 ++ [10, 0, 1, n] ++
    List.replicate 220 0 ++ [53, 1, 2, 54, 4, 10, 0, 0, n, 255]

/-- The frame with which the server 10.0.0.2 acknowledges the address 10.0.1.2 and sets the
mask 255.255.0.0. -/
def leaseFrame : List UInt8 :=
  List.replicate 12 0 ++ [8, 0, 69, 0, 1, 28, 0, 0, 0, 0, 64, 17, 111, 208, 10, 0, 0, 2, 255, 255,
    255, 255, 0, 67, 0, 68, 1, 8, 0, 0, 2, 1, 6, 0] ++ xid ++ List.replicate 8 0 ++
    [10, 0, 1, 2] ++ List.replicate 220 0 ++
    [53, 1, 5, 54, 4, 10, 0, 0, 2, 1, 4, 255, 255, 0, 0, 255]

/-- A run with an offer and an acknowledgment. -/
theorem configured_acknowledged_start :
    let w := run (Stack.netStep Telnetd.shell)
      (Board.init (K := Telnetd.conf) 0 (List.replicate 6 0) rfl (fun _ => 0) ()).net
      [.process (.udpTimer 0), .frame (offerFrame 2), .frame leaseFrame]
    w.app.dhcpc.state = .configReceived ∧
    (∀ pre post, w.app.events = pre ++ .configured :: post →
      Acknowledged (List.replicate 6 0) pre ∧
        Offered (List.replicate 6 0) (since Event.begins pre) ∧
        .configured ∉ since Event.begins pre) ∧
    (∀ pre at_ d type post, w.app.events = pre ++ .parsed at_ d type :: post →
      .configured ∉ since Event.renews pre) ∧
    ∀ e, let w' := w.netStep Telnetd.shell e
      ∃ new, w'.app.events = w.app.events ++ new ∧
        (.configured ∈ new → ∃ d, [.parsed .ack d msgAck, .configured] <:+ new ∧
          d.Matches (List.replicate 6 0) ∧ w'.hostaddr.bytes = d.mem.read 16 4 ∧
          w'.netmask.bytes = w'.app.dhcpc.netmask.bytes ∧
          w'.draddr.bytes = w'.app.dhcpc.defaultRouter.bytes) :=
  ⟨by decide +kernel,
    configured_acknowledged Telnetd.shell 0 (List.replicate 6 0) rfl (fun _ => 0) ()
    [.process (.udpTimer 0), .frame (offerFrame 2), .frame leaseFrame]⟩

end Dhcpc

end OpenPLC
