import OpenPLC.Apps.Lease
import OpenPLC.Uip.Safety

/-! Where the DHCP client builds its messages.  A call from the stack builds them at offset 42, a
renewal where `uip_process` left `uip_appdata`; the urgent pointer of a segment can leave it outside
`uip_buf`.  A run whose packets do not get the code lost is a run of the code to its end. -/

namespace OpenPLC

open Lib

namespace Dhcpc

/-- The message of an event lies in `uip_buf`. -/
def Event.Inside : Event → Prop
  | .discover a msg | .request a msg => a + msg.length ≤ bufBytes
  | _ => True

instance : ∀ e : Event, Decidable e.Inside
  | .discover a msg | .request a msg => inferInstanceAs (Decidable (a + msg.length ≤ bufBytes))
  | .started | .parsed _ _ _ | .configured | .renewed => instDecidableTrue

theorem Acts.inside {a : Nat} {host : IpAddr} {d : Option Datagram} {s s' : Client}
    {es : List Event} (h : Acts a host d s es s') (ha : HasRoom a) : ∀ e ∈ es, e.Inside := by
  have hdiscover (s : Client) : (Event.discover a (discoverMsg s host)).Inside :=
    (Nat.add_le_add_left (length_discoverMsg s host) a).trans ha
  have hrequest (s : Client) : (Event.request a (requestMsg s host)).Inside :=
    (Nat.add_le_add_left (length_requestMsg s host) a).trans ha
  cases h with
  | begin | noOffer | rediscover =>
    simp [Event.Inside, show ∀ s, a + (discoverMsg s host).length ≤ bufBytes from hdiscover]
  | offer | noAck | rerequest =>
    simp [Event.Inside, show ∀ s, a + (requestMsg s host).length ≤ bufBytes from hrequest]
  | ack => simp [Event.Inside]
  | restart | wait => exact nofun

end Dhcpc

open Dhcpc

namespace Stack

variable {K : Conf} {σ : Type*} {w w' : Stack (Firmware K σ)} {c : ConnId}

/-- The thread is in order, and all messages so far lie in `uip_buf`. -/
structure Placed (w : Stack (Firmware K σ)) : Prop where
  threaded : Threaded w.app.dhcpc
  inside : ∀ e ∈ w.app.events, e.Inside

theorem Placed.handled {es : List Event} (h : Placed w) (hw : w.Handled w' es)
    (hroom : HasRoom w.appdata) : Placed w' where
  threaded := hw.acts.threaded h.threaded
  inside e he := by
    rw [hw.events] at he
    exact (List.mem_append.mp he).elim (h.inside e) (hw.acts.inside hroom e)

theorem Placed.of_client (h : Placed w) (hclient : w'.app.dhcpc = w.app.dhcpc)
    (hevents : w'.app.events = w.app.events) : Placed w' :=
  ⟨hclient ▸ h.threaded, hevents ▸ h.inside⟩

theorem Placed.of_app (h : Placed w) (happ : w'.app = w.app) : Placed w' :=
  h.of_client (congrArg Firmware.dhcpc happ) (congrArg Firmware.events happ)

theorem Placed.dhcpcAppcall (h : Placed w) (hroom : HasRoom w.appdata) :
    Placed w.dhcpcAppcall ∧ w.dhcpcAppcall.appdata = w.appdata := by
  by_cases hcall : w.Calls
  · have hw : w.dhcpcAppcall = w.handleDhcp := if_pos hcall
    obtain ⟨es, hes⟩ := handleDhcp_handled h.threaded
    rw [hw]
    exact ⟨h.handled hes hroom, hes.appdata⟩
  · have hw : w.dhcpcAppcall = w := if_neg hcall
    rw [hw]
    exact ⟨h, rfl⟩

theorem Placed.dhcpcRenew (h : Placed w) (hroom : HasRoom w.appdata) :
    Placed w.dhcpcRenew ∧ w.dhcpcRenew.appdata = w.appdata := by
  unfold Stack.dhcpcRenew
  split
  · exact ⟨h, rfl⟩
  have hrenewed : Placed ({ w with hostaddr := .ofBytes 0 0 0 0 }.logClient .renewed) :=
    ⟨h.threaded, fun e he => (List.mem_append.mp he).elim (h.inside e) fun he => by
      obtain rfl := List.mem_singleton.mp he
      trivial⟩
  obtain ⟨es, hes⟩ := handleDhcp_handled hrenewed.threaded
  exact ⟨hrenewed.handled hes hroom, hes.appdata⟩

theorem Placed.renew_lost (h : Placed w) (hroom : HasRoom w.appdata) :
    w.dhcpcRenew.lost = w.lost := by
  unfold Stack.dhcpcRenew
  split
  · rfl
  obtain ⟨es, hes⟩ := handleDhcp_handled
    (w := { w with hostaddr := .ofBytes 0 0 0 0 }.logClient .renewed) h.threaded
  exact hes.lost hroom

theorem udpSend_room (u : UdpId) (h : HasRoom w.appdata) : HasRoom (udpSend u w).appdata := by
  simp only [udpSend]
  split
  · rwa [goto_appdata]
  · exact (goto_appdata ..).symm ▸ show HasRoom 54 by decide

theorem serverAppcall_appdata (sh : Shell σ) (w : Stack (Firmware K σ)) :
    (serverAppcall sh w).appdata = w.appdata := by
  simp only [serverAppcall]
  split <;> split <;> rfl

/-- The messages of a call of `uip_process` lie in `uip_buf` when there is room where it calls the
client. -/
theorem Outcome.Moves.placed {due : ConnId → Prop} {o : Outcome (Firmware K σ)}
    (hm : o.Moves due w) (h : Placed w) (sh : Shell σ)
    (hroom : ∀ u w₀, o = .udpCall u w₀ → HasRoom w₀.appdata) :
    Placed (o.run (firmwareApps sh)) := by
  cases o with
  | done w₁ =>
    obtain ⟨c, hc⟩ := hm
    exact h.of_app hc.app
  | call c w₀ after =>
    obtain ⟨happ, -⟩ := After.run_conn c (serverAppcall sh w₀) after (by simpa using hm.1.stopped)
    obtain ⟨hclient, hevents⟩ := serverAppcall_client sh w₀
    exact ((h.of_app hm.1.app).of_client hclient hevents).of_app happ
  | udpCall u w₀ =>
    exact ((h.of_app hm.app).dhcpcAppcall (hroom u w₀ rfl)).1.of_app (udpSend_app u _)

/-- After a call up to which `uip_appdata` is in its place, there is room at it. -/
theorem Outcome.Laid.room {o : Outcome (Firmware K σ)} (hl : o.Laid) (sh : Shell σ)
    (ht : ∀ u w₀, o = .udpCall u w₀ → Placed w₀) : HasRoom (o.run (firmwareApps sh)).appdata := by
  have h54 : HasRoom 54 := by decide
  cases o with
  | done w₁ => exact (show w₁.appdata = 54 from hl).symm ▸ h54
  | call c w₀ after =>
    have hsapp : (serverAppcall sh w₀).sappdata = 54 :=
      (serverAppcall_sappdata sh w₀).trans hl.1.sappdata
    have happdata : (after.run c (serverAppcall sh w₀)).appdata = 54 :=
      (After.run_appdata hsapp hl.2 c).elim id fun hrun =>
        hrun.1.trans ((serverAppcall_appdata sh w₀).trans hl.1.appdata)
    exact happdata.symm ▸ h54
  | udpCall u w₀ =>
    have hroom : HasRoom w₀.appdata := (show w₀.appdata = 42 from hl).symm ▸ by decide
    obtain ⟨-, happdata⟩ := (ht u w₀ rfl).dhcpcAppcall hroom
    exact udpSend_room u (happdata ▸ hroom)

/-- The client is called where there is room for its messages. -/
theorem Outcome.Laid.ready {due : ConnId → Prop} {o : Outcome (Firmware K σ)} (hl : o.Laid)
    (hm : o.Moves due w) (h : Placed w) (u : UdpId) (w₀ : Stack (Firmware K σ))
    (ho : o = .udpCall u w₀) : Placed w₀ ∧ HasRoom w₀.appdata := by
  subst ho
  exact ⟨h.of_app hm.app, (show w₀.appdata = 42 from hl).symm ▸ by decide⟩

/-- A call of `uip_process` with `uip_appdata` in its place. -/
theorem Outcome.Laid.placed {due : ConnId → Prop} {o : Outcome (Firmware K σ)} (hl : o.Laid)
    (hm : o.Moves due w) (h : Placed w) {sh : Shell σ} (hstrays : ¬o.Strays sh) :
    Placed (o.run (firmwareApps sh)) ∧ HasRoom (o.run (firmwareApps sh)).appdata ∧
      (o.run (firmwareApps sh)).lost = false := by
  have hready := hl.ready hm h
  refine ⟨hm.placed h sh fun u w₀ ho => (hready u w₀ ho).2,
    hl.room sh fun u w₀ ho => (hready u w₀ ho).1, Outcome.run_lost hstrays fun u w₀ ho => ?_⟩
  exact ⟨(hready u w₀ ho).1.threaded, (hready u w₀ ho).2⟩

/-! ### Urgent data -/

/-- `uip_appdata` stays near the start of the buffer when it is moved over the urgent data. -/
def UrgentNear {α : Type*} (w : Stack α) : Prop := HasRoom ((54 + w.urgp.toNat) % 65536)

/-- After the move there is data left or an acknowledgment for the line server, which has no close
pending: the answer takes `uip_appdata` back. -/
def UrgentAnswered (c : ConnId) (w : Stack (Firmware K σ)) : Prop :=
  ((w.urgp < w.len ∧ (w.conns c).tcpstateflags.stopped = false) ∨ w.flags.ackdata = true) ∧
    w.app.server.state ≠ .close

/-- A packet that may leave `uip_appdata` outside: its urgent pointer leads too far, and nothing
takes `uip_appdata` back. -/
def LosesAppdata (w : Stack (Firmware K σ)) : Prop :=
  ∃ s ∈ w.urgentSegment, ¬s.2.UrgentNear ∧ ¬UrgentAnswered s.1 s.2

instance {α : Type*} (w : Stack α) : Decidable w.UrgentNear :=
  inferInstanceAs (Decidable (HasRoom _))

instance (c : ConnId) (w : Stack (Firmware K σ)) : Decidable (UrgentAnswered c w) :=
  inferInstanceAs (Decidable (_ ∧ _))

instance (w : Stack (Firmware K σ)) : Decidable w.LosesAppdata :=
  inferInstanceAs (Decidable (∃ s ∈ w.urgentSegment, _ ∧ _))

/-- No flag is set before the application is called for a segment, but for the acknowledgment. -/
theorem urgentSegment_flags {α : Type*} {w w₁ : Stack α} {c : ConnId}
    (h : w.urgentSegment = some (c, w₁)) : w₁.flags = {} ∨ w₁.flags = { ackdata := true } := by
  have ackInput_flags (w : Stack α) (hflags : w.flags = {}) :
      (ackInput c w).flags = {} ∨ (ackInput c w).flags = { ackdata := true } := by
    simp only [ackInput]
    split
    · exact .inr rfl
    · exact .inl hflags
  simp only [urgentSegment] at h
  split at h
  · split at h
    · cases h
    split at h
    · split at h
      · cases h
      split at h
      · cases h
      split at h
      · obtain ⟨rfl, rfl⟩ := Prod.mk.inj (Option.some.inj h)
        exact ackInput_flags _ rfl
      · cases h
    · cases h
  · cases h

theorem establishedData_flags {α : Type*} (c : ConnId) (w : Stack α) (hurg : w.HasFlag 0x20) :
    (establishedData c w).flags =
      if 0 < w.len - w.urgp ∧ (w.conns c).tcpstateflags.stopped = false then
        { w.flags with newdata := true }
      else w.flags := by
  have hskip : skipUrgent w =
      { w with appdata := (w.appdata + w.urgp.toNat) % 65536, len := w.len - w.urgp } :=
    if_pos hurg
  simp only [establishedData, hskip, acceptData]
  split <;> rfl

/-- The line server asks for no close unless one is pending. -/
theorem serverAppcall_no_close (sh : Shell σ) (hconnected : w.flags.connected = false)
    (hstate : w.app.server.state ≠ .close) : (serverAppcall sh w).flags = w.flags := by
  have hreply : (w.app.server.appcall sh w.call).2.close = false := by
    simp only [Server.appcall, call, hconnected, Bool.false_eq_true, ↓reduceIte, hstate,
      Server.handle]
    split <;> rfl
  simp only [serverAppcall_flags, hreply, Bool.false_eq_true, ↓reduceIte]

/-- A segment with urgent data that is near or answered leaves room at `uip_appdata`. -/
theorem established_room (sh : Shell σ) {w₁ : Stack (Firmware K σ)}
    (hseg : w.urgentSegment = some (c, w₁)) (hentered : w₁.Entered) (hurg : w₁.Urgent c)
    (hnear : w₁.UrgentNear ∨ UrgentAnswered c w₁) :
    HasRoom ((established c w₁).run (firmwareApps sh)).appdata := by
  have h54 : HasRoom 54 := by decide
  obtain ⟨happdata, hsappdata, happ⟩ := establishedData_appdata c w₁ hurg.1
  rw [hentered.appdata] at happdata
  rw [hentered.sappdata] at hsappdata
  have hflags := establishedData_flags c w₁ hurg.1
  rw [established_urgent hurg]
  split
  · set w₂ := { establishedData c w₁ with slen := 0 } with hw₂
    have hsapp : (serverAppcall sh w₂).sappdata = 54 :=
      (serverAppcall_sappdata sh w₂).trans hsappdata
    change HasRoom (appsend c (serverAppcall sh w₂)).appdata
    rcases hnear with hnear | ⟨-, hstate⟩
    · rcases After.run_appdata hsapp (show After.Short .appsend from trivial) c with h | ⟨h, -⟩
      · exact h.symm ▸ h54
      · have hmoved := h.trans ((serverAppcall_appdata sh w₂).trans happdata)
        exact hmoved.symm ▸ hnear
    · have hquiet :
          w₂.flags.connected = false ∧ w₂.flags.abort = false ∧ w₂.flags.close = false := by
        rw [show w₂.flags = _ from hflags]
        rcases urgentSegment_flags hseg with h | h <;> rw [h] <;> split <;> exact ⟨rfl, rfl, rfl⟩
      have hsame : (serverAppcall sh w₂).flags = w₂.flags :=
        serverAppcall_no_close sh hquiet.1 (by rw [show w₂.app = _ from happ]; exact hstate)
      have hback : (appsend c (serverAppcall sh w₂)).appdata = 54 :=
        appsend_appdata hsapp (hsame ▸ hquiet.2.1) (hsame ▸ hquiet.2.2) c
      exact hback.symm ▸ h54
  · next hnone =>
    have hmoved : (Outcome.done ((establishedData c w₁).goto .drop)).run (firmwareApps sh) =
        (establishedData c w₁).goto .drop := rfl
    rw [hmoved, goto_appdata, happdata]
    refine hnear.elim id fun hanswered => absurd ?_ hnone
    rw [hflags]
    rcases hanswered.1 with ⟨hlt, hstopped⟩ | h
    · have hpos : 0 < w₁.len - w₁.urgp := by
        rw [UInt16.lt_iff_toNat_lt] at hlt ⊢
        rw [UInt16.toNat_sub_of_le _ _ (UInt16.le_iff_toNat_le.mpr hlt.le)]
        exact Nat.sub_pos_of_lt hlt
      rw [if_pos ⟨hpos, hstopped⟩]
      exact .inl rfl
    · right
      split <;> exact h

/-- A packet that loses `uip_appdata` or gets the code lost. -/
def Unsafe (sh : Shell σ) (w : Stack (Firmware K σ)) : Prop :=
  w.LosesAppdata ∨ (w.process .data).Strays sh

instance (sh : Shell σ) (w : Stack (Firmware K σ)) : Decidable (w.Unsafe sh) :=
  inferInstanceAs (Decidable (_ ∨ _))

theorem input_placed (hp : w.Passive) (h : Placed w) {sh : Shell σ} (hsafe : ¬w.Unsafe sh) :
    Placed (w.uipProcess (firmwareApps sh) .data) ∧
      HasRoom (w.uipProcess (firmwareApps sh) .data).appdata ∧
        (w.uipProcess (firmwareApps sh) .data).lost = false := by
  obtain ⟨hurg, hstrays⟩ := not_or.mp hsafe
  have hm := process_moves hp .data
  unfold uipProcess
  rcases w.process_cases .data with ⟨-, hprocess⟩ | ⟨-, hprocess⟩
  · rw [hprocess] at hm hstrays ⊢
    have hlaid : (Outcome.done (w.enter.goto .drop)).Laid := goto_appdata ..
    exact hlaid.placed hm h hstrays
  rw [hprocess] at hm hstrays ⊢
  rcases w.dataInput_laid with hl | ⟨c, w₁, hseg, hentered, hurgent, ho⟩
  · exact Outcome.Laid.placed (o := w.enter.dataInput) hl hm h hstrays
  · have hnear : w₁.UrgentNear ∨ UrgentAnswered c w₁ := by
      by_contra hnot
      exact hurg ⟨(c, w₁), hseg, not_or.mp hnot⟩
    have hest : w.dispatch .data = established c w₁ := ho
    rw [hest] at hm hstrays ⊢
    have hnone (u : UdpId) (w₀ : Stack (Firmware K σ)) : established c w₁ ≠ .udpCall u w₀ := by
      rw [established_urgent hurgent]
      split <;> simp
    exact ⟨hm.placed h sh fun u w₀ hudp => absurd hudp (hnone u w₀),
      established_room sh hseg hentered hurgent hnear,
      Outcome.run_lost hstrays fun u w₀ hudp => absurd hudp (hnone u w₀)⟩

/-- A call for a timer keeps everything in its place, and does not get the code lost. -/
theorem periodic_placed (hp : w.Passive) (hsmall : w.Small) (h : Placed w) (hlost : w.lost = false)
    (sh : Shell σ) {flag : ProcessFlag} (hflag : flag ≠ .data) (hlaid : (w.process flag).Laid) :
    Placed (w.uipProcess (firmwareApps sh) flag) ∧
      HasRoom (w.uipProcess (firmwareApps sh) flag).appdata ∧
        (w.uipProcess (firmwareApps sh) flag).lost = false := by
  exact hlaid.placed (process_moves hp flag) h (process_not_strays hp hsmall hlost hflag hlaid)

theorem Passive.of_conns {α : Type*} {w w' : Stack α} (hp : w.Passive) (h : w'.conns = w.conns) :
    w'.Passive := fun c => by simpa only [ts, h] using hp c

theorem arpOut_appdata {α : Type*} (w : Stack α) (a : Arp) (h : HasRoom w.appdata) :
    HasRoom (w.arpOut a).appdata := by
  simp only [arpOut]
  split
  · exact h
  · split
    · exact h
    · exact show HasRoom 54 by decide

theorem uipProcess_passive (hp : w.Passive) (sh : Shell σ) (flag : ProcessFlag) :
    (w.uipProcess (firmwareApps sh) flag).Passive :=
  netStep_passive sh hp (.process flag)

end Stack

namespace Board

variable {K : Conf} {σ : Type*} {P : Project K σ} {b b' : Board K σ} {null : Nat}

/-- The messages so far lie in `uip_buf`, there is room at `uip_appdata` once it is set, and the
code is not lost. -/
structure Placed (null : Nat) (b : Board K σ) : Prop where
  passive : b.net.Passive
  small : b.net.Small
  placed : b.net.Placed
  room : b.net.appdata = Stack.nullPtr null ∨ HasRoom b.net.appdata
  lost : b.net.lost = false

/-- The parts that `Placed` is about are the same. -/
structure SamePlace (b b' : Board K σ) : Prop where
  conns : b'.net.conns = b.net.conns
  dhcpc : b'.net.app.dhcpc = b.net.app.dhcpc
  events : b'.net.app.events = b.net.app.events
  appdata : b'.net.appdata = b.net.appdata
  lost : b'.net.lost = b.net.lost

theorem SamePlace.placed (hs : SamePlace b b') (h : Placed null b) : Placed null b' where
  passive := h.passive.of_conns hs.conns
  small := h.small.of_conns hs.conns
  placed := h.placed.of_client hs.dhcpc hs.events
  room := hs.appdata ▸ h.room
  lost := hs.lost.trans h.lost

theorem samePlace_of_same (h : b'.net.conns = b.net.conns ∧ b'.net.app = b.net.app ∧
    b'.net.appdata = b.net.appdata) (hlost : b'.net.lost = b.net.lost) : SamePlace b b' :=
  ⟨h.1, congrArg (·.dhcpc) h.2.1, congrArg (·.events) h.2.1, h.2.2, hlost⟩

theorem process_placed {flag : ProcessFlag} (h : Placed null b)
    (hplaced : (b.net.uipProcess (firmwareApps P.shell) flag).Placed ∧
      HasRoom (b.net.uipProcess (firmwareApps P.shell) flag).appdata ∧
        (b.net.uipProcess (firmwareApps P.shell) flag).lost = false) :
    Placed null (b.process P flag) := by
  have hp := Stack.uipProcess_passive h.passive P.shell flag
  have hsmall : (b.net.uipProcess (firmwareApps P.shell) flag).Small :=
    Stack.uipProcess_small h.small flag
  obtain ⟨hplaced, hroom, hlost⟩ := hplaced
  unfold process
  generalize b.net.uipProcess (firmwareApps P.shell) flag = w at *
  unfold output
  split
  · obtain ⟨hconns, happ⟩ := w.arpOut_same b.arp
    exact ⟨hp.of_conns hconns, hsmall.of_conns hconns, hplaced.of_app happ,
      .inr (w.arpOut_appdata b.arp hroom), (w.arpOut_lost b.arp).trans hlost⟩
  · exact ⟨hp, hsmall, hplaced, .inr hroom, hlost⟩

theorem poll_placed (h : Placed null b) : Placed null (b.poll P) := by
  refine poll_induct (fun b c h => ?_) (fun b u h => ?_) h
  · exact process_placed h (Stack.periodic_placed h.passive h.small h.placed h.lost P.shell
      (by simp) (b.net.timer_laid c))
  · exact process_placed h (Stack.periodic_placed h.passive h.small h.placed h.lost P.shell
      (by simp) (b.net.udpTimer_laid u))

theorem Aside.samePlace (h : Aside b b') : SamePlace b b' := by
  obtain ⟨clock, shell, hnet⟩ := h.net
  constructor <;> rw [hnet]

theorem periodic_placed (h : Placed null b) : Placed null (b.periodic P) := by
  obtain ⟨b₁, h₁, h₂⟩ := b.periodic_aside P
  exact h₂.samePlace.placed (poll_placed (h₁.samePlace.placed h))

theorem renew_placed (h : Placed null b) (hset : b.net.appdata ≠ Stack.nullPtr null) :
    Placed null (b.renew P) := by
  have hroom : HasRoom b.net.appdata := h.room.resolve_left hset
  set w := (b.ledOn P 3).net with hw
  have hplaced : w.Placed := ⟨h.placed.threaded, h.placed.inside⟩
  obtain ⟨hrenewed, happdata⟩ := hplaced.dhcpcRenew (w := w) hroom
  have hconns := w.dhcpcRenew_sameServer.conns
  refine ⟨?_, ?_, hrenewed.of_client rfl rfl, .inr ?_, ?_⟩
  · exact h.passive.of_conns (w := b.net) hconns
  · exact h.small.of_conns (w := b.net) hconns
  · exact (show HasRoom w.dhcpcRenew.appdata from happdata.symm ▸ hroom)
  · exact (hplaced.renew_lost hroom).trans h.lost

theorem input_placed (h : Placed null b)
    (hpacket : b.net.buf.get16 12 = htons ethtypeIp →
      ¬((b.ledOn P 5).net.arpIpin (b.ledOn P 5).arp).1.Unsafe P.shell) :
    Placed null (b.input P) := by
  have hled (x : UInt8) : Placed null (b.ledOn P x) := (ledOn_aside x b).samePlace.placed h
  simp only [input]
  split
  · next htype =>
    have hs : SamePlace (b.ledOn P 5) { b.ledOn P 5 with
        net := ((b.ledOn P 5).net.arpIpin (b.ledOn P 5).arp).1
        arp := ((b.ledOn P 5).net.arpIpin (b.ledOn P 5).arp).2 } :=
      samePlace_of_same (Stack.arpIpin_same ..) (Stack.arpIpin_lost ..)
    have hin := hs.placed (hled 5)
    exact process_placed hin (Stack.input_placed hin.passive hin.placed (hpacket htype))
  split
  · have hs : SamePlace (b.ledOn P 4) { b.ledOn P 4 with
        net := ((b.ledOn P 4).net.arpArpin (b.ledOn P 4).arp).1
        arp := ((b.ledOn P 4).net.arpArpin (b.ledOn P 4).arp).2 } :=
      samePlace_of_same (Stack.arpArpin_same ..) (Stack.arpArpin_lost ..)
    have hin := hs.placed (hled 4)
    split
    · exact ⟨hin.passive, hin.small, hin.placed, hin.room, hin.lost⟩
    · exact hin
  · exact h

/-- The packet with which a turn of the main loop calls `uip_process`. -/
def ipPacket (P : Project K σ) (b : Board K σ) (packet : Packet) : Option (Stack (Firmware K σ)) :=
  let b := b.networkRead packet
  if b.net.lost = false ∧ 0 < b.net.len ∧ b.net.buf.get16 12 = htons ethtypeIp then
    let b := b.ledOn P 5
    some (b.net.arpIpin b.arp).1
  else none

/-- The turn is a renewal. -/
def Renews (b : Board K σ) (packet : Packet) : Prop :=
  let b := b.networkRead packet
  b.net.lost = false ∧ ¬0 < b.net.len ∧ (b.expired b.periodicTimer).1 = false ∧
    let b := (b.expired b.periodicTimer).2
    (b.expired b.net.app.dhcpTimer).1 = true

/-- The packet of the turn is safe, and a renewal comes after `uip_appdata` is set. -/
def Keeps (null : Nat) (P : Project K σ) (b : Board K σ) (packet : Packet) : Prop :=
  (∀ w ∈ b.ipPacket P packet, ¬w.Unsafe P.shell) ∧
    (b.Renews packet → b.net.appdata ≠ Stack.nullPtr null)

instance (b : Board K σ) (packet : Packet) : Decidable (b.Renews packet) :=
  inferInstanceAs (Decidable (_ ∧ _ ∧ _ ∧ _))

instance (b : Board K σ) (packet : Packet) : Decidable (Keeps null P b packet) :=
  inferInstanceAs (Decidable ((∀ w ∈ b.ipPacket P packet, ¬w.Unsafe P.shell) ∧ _))

theorem Placed.step (h : Placed null b) {packet : Packet} (hkeeps : Keeps null P b packet) :
    Placed null (b.loop P packet) := by
  have hlost := h.lost
  obtain ⟨hpacket, hrenew⟩ := hkeeps
  have hread : Placed null (b.networkRead packet) :=
    ⟨h.passive, h.small, ⟨h.placed.1, h.placed.2⟩, h.room, hlost⟩
  have happdata : (b.networkRead packet).net.appdata = b.net.appdata := rfl
  have hlost₀ : (b.networkRead packet).net.lost = false := hlost
  simp only [ipPacket, Renews] at hpacket hrenew
  have hcases := loop_cases P hlost packet
  generalize b.networkRead packet = b₀ at *
  have hs₁ := (expired_aside b₀.periodicTimer b₀).samePlace
  have hs₂ := (expired_aside (b₀.expired b₀.periodicTimer).2.net.app.dhcpTimer
    (b₀.expired b₀.periodicTimer).2).samePlace
  have h₂ := hs₂.placed (hs₁.placed hread)
  rcases hcases with ⟨hlen, hloop⟩ | ⟨-, -, hloop⟩ | ⟨hlen, hnot, hdue, hloop⟩ | ⟨-, -, -, hloop⟩
  · rw [hloop]
    exact input_placed hread fun htype => hpacket _ (if_pos ⟨hlost₀, hlen, htype⟩)
  · rw [hloop]
    exact periodic_placed (hs₁.placed hread)
  · rw [hloop]
    refine renew_placed h₂ ?_
    rw [hs₂.appdata, hs₁.appdata, happdata]
    exact hrenew ⟨hlost₀, hlen, hnot, hdue⟩
  · rw [hloop]
    exact h₂

/-- In every run of the main loop whose turns keep `uip_appdata`, the code does not get lost, and
every message of the client lies in `uip_buf`. -/
theorem messages_inside (P : Project K σ) (null : Nat) (mac : List UInt8) (hmac : mac.length = 6)
    (clock : Nat → UInt16) (shell : σ) (packets : List Packet)
    (hkeeps : Along (loop P) (Keeps null P) (.init null mac hmac clock shell) packets) :
    let b := run (loop P) (.init null mac hmac clock shell) packets
    b.net.lost = false ∧ ∀ e ∈ b.net.app.events, e.Inside := by
  have hzero : (0 : UInt16) ≤ 970 := by decide
  have hinit : Placed null (init (K := K) null mac hmac clock shell) :=
    ⟨fun _ => ⟨rfl, nofun⟩, fun _ => ⟨hzero, hzero, hzero⟩, ⟨⟨nofun, nofun⟩, nofun⟩, .inl rfl, rfl⟩
  have hrun := hkeeps.invariant (fun _ _ h hk => h.step hk) hinit
  exact ⟨hrun.lost, hrun.placed.inside⟩

/-- The frame of the ACK of the SYN in answer to `synFrame`. -/
def ackFrame : List UInt8 :=
  [0, 0, 0, 0, 0, 0, 0, 0, 0, 0, 0, 0, 8, 0, 69, 0, 0, 40, 0, 0, 0, 0, 64, 6, 102, 206, 10, 0, 0,
    2, 10, 0, 0, 1, 4, 0, 0, 23, 0, 0, 0, 1, 0, 0, 0, 1, 80, 16, 2, 0, 149, 185, 0, 0]

/-- The frame of a segment with 724 bytes, all of them urgent. -/
def urgentFrame : List UInt8 :=
  [0, 0, 0, 0, 0, 0, 0, 0, 0, 0, 0, 0, 8, 0, 69, 0, 2, 252, 0, 0, 0, 0, 64, 6, 99, 250, 10, 0, 0,
    2, 10, 0, 0, 1, 4, 0, 0, 23, 0, 0, 0, 1, 0, 0, 0, 1, 80, 48, 2, 0, 143, 241, 2, 212] ++
    List.replicate 724 0

/-- The buffer with the data of `urgentFrame`, all of it zero, and before it the headers. -/
def urgentBuf (m : Mem) : Mem :=
  Mem.write (fun x => if 54 ≤ x ∧ x < 778 then 0 else m x) 0 (urgentFrame.take 54)

theorem loop_urgentFrame {b : Board Telnetd.conf Unit} (hlost : b.net.lost = false)
    (h : urgentFrame.length ≤ bufsize) :
    let packet := Packet.ofBytes urgentFrame h
    b.loop openplc packet =
      { b with net := { b.net with
        len := 778, buf := urgentBuf (packet.around b.net.buf) } }.input openplc := by
  intro packet
  have hlen : urgentFrame.length = 778 := by decide +kernel
  have hsplit : urgentFrame = urgentFrame.take 54 ++ List.replicate 724 0 := by decide +kernel
  have hbuf (m : Mem) : m.write 0 urgentFrame = urgentBuf m := by
    rw [hsplit, Mem.write_append, Mem.write_replicate]
    rfl
  have hread : b.networkRead packet = { b with net := { b.net with
      len := 778, buf := urgentBuf (packet.around b.net.buf) } } := by
    simp only [networkRead, Stack.networkRead, Stack.put, packet, Packet.ofBytes, hlen, hbuf]
    rfl
  have hpos : 0 < (b.networkRead packet).net.len := by
    rw [hread]
    exact show (0 : UInt16) < 778 by decide
  rw [loop_of_packet openplc hlost hpos, hread]

/-- The readings of `clock_time()` when it comes round to 10 after the first three of them: then the
periodic timer has not expired, and the one of the lease has. -/
def comeRound (n : Nat) : UInt16 := if n < 2 then 0 else if n = 2 then 20 else 10

/-- A renewal after a segment. -/
theorem messages_inside_renewal :
    let b := run (loop openplc) (.init 0 (List.replicate 6 0) rfl comeRound ())
      [.ofBytes synFrame (by decide), .ofBytes [] (by decide)]
    b.net.app.events ≠ [] ∧ b.net.lost = false ∧ ∀ e ∈ b.net.app.events, e.Inside :=
  ⟨by decide +kernel, messages_inside openplc 0 (List.replicate 6 0) rfl comeRound ()
    [.ofBytes synFrame (by decide), .ofBytes [] (by decide)] (by decide +kernel)⟩

/-- The renewal after urgent data builds its message past the end of `uip_buf`. -/
theorem not_messages_inside :
    ¬∀ e ∈ (run (loop openplc) (.init 0 (List.replicate 6 0) rfl comeRound ())
      [.ofBytes synFrame (by decide), .ofBytes ackFrame (by decide),
        .ofBytes urgentFrame (by decide +kernel), .ofBytes [] (by decide)]).net.app.events,
      e.Inside := by
  rw [run_cons, run_cons, run_cons, loop_urgentFrame (by decide +kernel)]
  decide +kernel

end Board

end OpenPLC
