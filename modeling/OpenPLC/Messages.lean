import OpenPLC.Placement
import OpenPLC.Transmit
import OpenPLC.Uip.Protocol

/-! What becomes of the messages of the DHCP client.  A message is built in `uip_buf`, with its
length in `uip_slen`; the call of `uip_process` that called the client sends it.  A renewal comes
from the main loop, and the next call of `uip_process` forgets the length. -/

namespace OpenPLC

open Lib

namespace Dhcpc

/-- The message that `send_discover` and `send_request` build. -/
def Event.message? : Event → Option (List UInt8)
  | .discover _ msg | .request _ msg => some msg
  | _ => none

/-- A call of `handle_dhcp` without a datagram builds no message: it waits for `s.timer`, or gives
up the request. -/
def Client.Quiet (s : Client) (now : UInt16) : Prop :=
  s.pt ≠ .start ∧ (¬s.timer.Expired now ∨ s.pt = .ack ∧ clockSecond * 10 < s.ticks)

instance (s : Client) (now : UInt16) : Decidable (s.Quiet now) :=
  inferInstanceAs (Decidable (_ ∧ (_ ∨ _)))

end Dhcpc

open Dhcpc

namespace Stack

variable {K : Conf} {σ : Type*} {w w₁ w' : Stack (Firmware K σ)} {u : UdpId}

/-! ### The client -/

/-- From `w` to `w'` the client builds no message. -/
structure Silent (w w' : Stack (Firmware K σ)) : Prop where
  udpConns : w'.udpConns = w.udpConns
  ethaddr : w.ethaddr.length = 6 → w'.ethaddr.length = 6
  appdata : w'.appdata = w.appdata
  sappdata : w'.sappdata = w.sappdata
  slen : w'.slen = w.slen
  flags : w'.flags = w.flags
  lost : w'.lost = w.lost
  events : ∃ es, w'.app.events = w.app.events ++ es ∧ es.filterMap Event.message? = []

/-- From `w` to `w'` the client builds a message. -/
structure Builds (w w' : Stack (Firmware K σ)) (msg : List UInt8) : Prop where
  udpConns : w'.udpConns = w.udpConns
  ethaddr : w.ethaddr.length = 6 → w'.ethaddr.length = 6
  flags : w'.flags = w.flags
  events : ∃ es, w'.app.events = w.app.events ++ es ∧ es.filterMap Event.message? = [msg]
  slen : w'.slen = msg.length.toUInt16
  read : w.sappdata ≤ w.appdata → w'.buf.read w.sappdata msg.length = msg
  lost : HasRoom w.appdata → w'.lost = w.lost
  pos : 0 < msg.length
  le : msg.length ≤ 256

theorem Silent.refl (w : Stack (Firmware K σ)) : Silent w w :=
  ⟨rfl, id, rfl, rfl, rfl, rfl, rfl, [], by simp, rfl⟩

theorem Silent.modClient (h : Silent w w') (f : Client → Client) : Silent w (w'.modClient f) :=
  ⟨h.udpConns, h.ethaddr, h.appdata, h.sappdata, h.slen, h.flags, h.lost, h.events⟩

theorem Silent.logClient (h : Silent w w') {e : Event} (he : e.message? = none) :
    Silent w (w'.logClient e) := by
  obtain ⟨es, hes, hnone⟩ := h.events
  refine ⟨h.udpConns, h.ethaddr, h.appdata, h.sappdata, h.slen, h.flags, h.lost, es ++ [e], ?_, ?_⟩
  · simp [Stack.logClient, hes]
  · simp [hnone, he]

theorem Silent.ready (h : Silent w w') : Silent w w'.ready.2 := by
  simp only [Stack.ready]
  split
  · exact h
  · exact ⟨h.udpConns, h.ethaddr, h.appdata, h.sappdata, h.slen, h.flags, h.lost, h.events⟩

theorem Silent.parse (h : Silent w w') (at_ : Point) : Silent w (w'.parse at_).1 :=
  (h.modClient _).logClient rfl

theorem Silent.parseOffer (h : Silent w w') : Silent w w'.parseOffer := by
  simp only [Stack.parseOffer]
  split
  · exact (h.parse .offer).modClient _
  · exact h.parse .offer

theorem Silent.parseAck (h : Silent w w') : Silent w w'.parseAck := by
  simp only [Stack.parseAck]
  split
  · exact (h.parse .ack).modClient _
  · exact h.parse .ack

theorem Silent.dhcpcConfigured (h : Silent w w') : Silent w w'.dhcpcConfigured := by
  obtain ⟨es, hes, hnone⟩ := h.events
  refine ⟨h.udpConns, fun _ => w'.app.dhcpc.length_mac, h.appdata, h.sappdata, h.slen, h.flags,
    h.lost, es ++ [.configured], ?_, ?_⟩
  · simp [Stack.dhcpcConfigured, Stack.logClient, clockTime, hes]
  · simp [hnone, Event.message?]

/-- What `uip_send` leaves of a message that was stored at `uip_appdata`. -/
theorem Silent.uipSend (h : Silent w w₁) {msg : List UInt8} (hmsg : msg.length ≤ 256) :
    let w' := (w₁.put w₁.appdata msg).uipSend msg.length
    (w.sappdata ≤ w.appdata → w'.buf.read w.sappdata msg.length = msg) ∧
      (HasRoom w.appdata → w'.lost = w.lost) := by
  refine ⟨fun hle => ?_, fun hroom => ?_⟩
  · have hle' : (w₁.put w₁.appdata msg).sappdata ≤ (w₁.put w₁.appdata msg).appdata := by
      change w₁.sappdata ≤ w₁.appdata
      rwa [h.sappdata, h.appdata]
    rw [← h.sappdata]
    exact (uipSend_read hle' msg.length).trans (Mem.read_write_of_length _ _ rfl)
  · rw [← h.appdata] at hroom
    rw [← h.lost]
    exact uipSend_lost hroom hmsg

/-- A loop of `handle_dhcp` builds a message at its top. -/
theorem Silent.builds (h : Silent w w₁) (hw' : w' = w₁.offerLoop ∨ w' = w₁.ackLoop) :
    ∃ msg, Builds w w' msg := by
  obtain ⟨es, hes, hnone⟩ := h.events
  rcases hw' with rfl | rfl
  · have hle := length_discoverMsg w₁.app.dhcpc w₁.hostaddr
    obtain ⟨hread, hlost⟩ := h.uipSend hle
    have hevents : w₁.offerLoop.app.events =
        w₁.app.events ++ [.discover w₁.appdata (discoverMsg w₁.app.dhcpc w₁.hostaddr)] := rfl
    refine ⟨discoverMsg w₁.app.dhcpc w₁.hostaddr, h.udpConns, h.ethaddr, h.flags,
      ⟨es ++ [.discover w₁.appdata (discoverMsg w₁.app.dhcpc w₁.hostaddr)], ?_, ?_⟩, rfl, hread,
      hlost, ?_, hle⟩
    · rw [hevents, hes, List.append_assoc]
    · simp [hnone, Event.message?]
    · rw [discoverMsg, addEnd, List.length_append]
      exact Nat.succ_pos _
  · have hle := length_requestMsg w₁.app.dhcpc w₁.hostaddr
    obtain ⟨hread, hlost⟩ := h.uipSend hle
    have hevents : w₁.ackLoop.app.events =
        w₁.app.events ++ [.request w₁.appdata (requestMsg w₁.app.dhcpc w₁.hostaddr)] := rfl
    refine ⟨requestMsg w₁.app.dhcpc w₁.hostaddr, h.udpConns, h.ethaddr, h.flags,
      ⟨es ++ [.request w₁.appdata (requestMsg w₁.app.dhcpc w₁.hostaddr)], ?_, ?_⟩, rfl, hread,
      hlost, ?_, hle⟩
    · rw [hevents, hes, List.append_assoc]
    · simp [hnone, Event.message?]
    · rw [requestMsg, addEnd, List.length_append]
      exact Nat.succ_pos _

theorem Silent.afterOfferWait (h : Silent w w₁) : ∃ msg, Builds w w₁.afterOfferWait msg := by
  have hnext (w₂ : Stack (Firmware K σ)) (h₂ : Silent w w₂) :
      ∃ msg, Builds w (if w₂.app.dhcpc.state ≠ .offerReceived then w₂.offerLoop
        else (w₂.modClient fun s => { s with ticks := clockSecond * 3 }).ackLoop) msg := by
    split
    · exact h₂.builds (.inl rfl)
    · exact (h₂.modClient _).builds (.inr rfl)
  simp only [Stack.afterOfferWait]
  split
  · exact hnext _ h.parseOffer
  · exact hnext _ (h.modClient _)

theorem Silent.afterAckWait (h : Silent w w₁) :
    Silent w w₁.afterAckWait ∨ ∃ msg, Builds w w₁.afterAckWait msg := by
  simp only [Stack.afterAckWait]
  split
  · split
    · exact .inr (h.parseAck.builds (.inr rfl))
    · exact .inl (h.parseAck.dhcpcConfigured.modClient _)
  split
  · exact .inr ((h.modClient _).builds (.inr rfl))
  · exact .inl (h.modClient _)

/-- A call of `handle_dhcp` builds one message, or none. -/
theorem handleDhcp_builds (w : Stack (Firmware K σ)) :
    Silent w w.handleDhcp ∨ ∃ msg, Builds w w.handleDhcp msg := by
  have hready := (Silent.refl w).ready
  simp only [handleDhcp]
  split
  · exact .inr ((((Silent.refl w).logClient rfl).modClient _).builds (.inl rfl))
  · split
    · exact .inr hready.afterOfferWait
    · exact .inl hready
  · split
    · exact hready.afterAckWait
    · exact .inl hready

/-- A renewal is a call of `handle_dhcp` without an address. -/
theorem dhcpcRenew_eq (hlost : w.lost = false) :
    w.dhcpcRenew = ({ w with hostaddr := .ofBytes 0 0 0 0 }.logClient .renewed).handleDhcp := by
  unfold dhcpcRenew
  rw [if_neg (by simp [hlost])]

theorem ready_iff (hn : w.flags.newdata = false) :
    w.ready.1 = true ↔ w.app.dhcpc.timer.Expired (w.app.clock 0) := by
  simp only [Stack.ready, hn, Bool.false_eq_true, ↓reduceIte]
  exact decide_eq_true_iff

/-- Without a datagram, the timer of the client decides. -/
theorem handleDhcp_quiet (hn : w.flags.newdata = false)
    (hq : w.app.dhcpc.Quiet (w.app.clock 0)) : Silent w w.handleDhcp := by
  have hready := (Silent.refl w).ready
  obtain ⟨hpt, hquiet⟩ := hq
  simp only [handleDhcp]
  split
  · next h => exact absurd h hpt
  · next h =>
    have hwait := hquiet.resolve_right (by simp [h])
    rw [if_neg (by rwa [ready_iff hn])]
    exact hready
  · split
    · next hexpired =>
      have hticks := (hquiet.resolve_left (not_not_intro ((ready_iff hn).mp hexpired))).2
      have hn' : w.ready.2.flags.newdata = false := by rw [hready.flags, hn]
      rw [← ready_client w] at hticks
      simp only [Stack.afterAckWait, hn', Bool.false_eq_true, ↓reduceIte]
      rw [if_neg (by rwa [UInt16.not_le])]
      exact hready.modClient _
    · exact hready

theorem handleDhcp_not_quiet (hn : w.flags.newdata = false)
    (hq : ¬w.app.dhcpc.Quiet (w.app.clock 0)) : ∃ msg, Builds w w.handleDhcp msg := by
  have hready := (Silent.refl w).ready
  simp only [Client.Quiet, not_and_or, not_or, not_not] at hq
  simp only [handleDhcp]
  split
  · exact (((Silent.refl w).logClient rfl).modClient _).builds (.inl rfl)
  · next h =>
    have hexpired := (hq.resolve_left (by simp [h])).1
    rw [if_pos ((ready_iff hn).mpr hexpired)]
    exact hready.afterOfferWait
  · next h =>
    obtain ⟨hexpired, hticks⟩ := hq.resolve_left (by simp [h])
    have hn' : w.ready.2.flags.newdata = false := by rw [hready.flags, hn]
    have hle : w.ready.2.app.dhcpc.ticks ≤ clockSecond * 10 := by
      rw [ready_client w]
      exact UInt16.not_lt.mp (hticks.resolve_left (not_not_intro h))
    rw [if_pos ((ready_iff hn).mpr hexpired)]
    simp only [Stack.afterAckWait, hn', Bool.false_eq_true, ↓reduceIte, if_pos hle]
    exact (hready.modClient _).builds (.inr rfl)

/-! ### A call of `uip_process` -/

/-- The connection of `dhcpc_init`. -/
def dhcpConn : UdpConn := ⟨.ones, htons 68, htons 67, 64⟩

/-- The only UDP connection in use is the one of `dhcpc_init`, and the hardware address has its
length. -/
structure OwnUdp (w : Stack (Firmware K σ)) : Prop where
  conns : ∀ u, (w.udpConns u).lport ≠ 0 → u = 0 ∧ w.udpConns u = dhcpConn
  ethaddr : w.ethaddr.length = 6

/-- The packet in the buffer is the datagram of a message. -/
structure Carries {α : Type*} (w : Stack α) (msg : List UInt8) : Prop where
  lost : w.lost = false
  len : w.len.toNat = msg.length + 28
  le : msg.length ≤ 256
  appdata : w.appdata = 54
  proto : w.buf 23 = 17
  addrs : w.buf.read 30 8 = [255, 255, 255, 255, 0, 68, 0, 67]
  read : w.buf.read 42 msg.length = msg

/-- A call of `uip_process` from `w` to `w'`, in which the client builds a message or none: the
packet in the buffer is the datagram of the message, or no UDP datagram. -/
structure Processed (w w' : Stack (Firmware K σ)) (msg : Option (List UInt8)) : Prop where
  own : w'.OwnUdp
  flags : w'.flags = {}
  events : ∃ es, w'.app.events = w.app.events ++ es ∧ es.filterMap Event.message? = msg.toList
  packet : msg.elim w'.NotUdp w'.Carries

theorem OwnUdp.of_sameUdp (h : OwnUdp w) (hs : SameUdp w w') : OwnUdp w' :=
  ⟨fun u => by rw [hs.udpConns]; exact h.conns u, by rw [hs.ethaddr]; exact h.ethaddr⟩

theorem serverAppcall_sameUdp (sh : Shell σ) (w : Stack (Firmware K σ)) :
    SameUdp w (serverAppcall sh w) := by
  simp only [serverAppcall]
  split <;> split <;> exact ⟨rfl, rfl⟩

theorem processed_none (h : OwnUdp w) (hapart : Outcome.Apart w (.done w'))
    (hevents : w'.app.events = w.app.events) : Processed w w' none :=
  ⟨h.of_sameUdp hapart.1, hapart.2.2, ⟨[], by simp [hevents], rfl⟩, hapart.2.1⟩

/-- The client is called, and `udp_send` sends its message. -/
theorem udpCall_processed (h : OwnUdp w) (hready : w.UdpReady u) (hlost : w.lost = false) :
    ∃ msg, Processed w (udpSend u w.dhcpcAppcall) msg := by
  have hcall : Silent w w.dhcpcAppcall ∨ ∃ msg, Builds w w.dhcpcAppcall msg := by
    simp only [dhcpcAppcall]
    split
    · exact w.handleDhcp_builds
    · exact .inl (.refl w)
  generalize w.dhcpcAppcall = w₁ at hcall
  have happ := udpSend_app u w₁
  rcases hcall with hsilent | ⟨msg, hbuilds⟩
  · obtain ⟨es, hes, hnone⟩ := hsilent.events
    have hdrop : udpSend u w₁ = w₁.goto .drop := by
      rw [udpSend, if_pos (hsilent.slen.trans hready.slen)]
    refine ⟨none, ⟨fun v => ?_, ?_⟩, ?_, ⟨es, by rw [happ, hes], hnone⟩, ?_⟩
    · rw [hdrop, (goto_sameUdp ..).udpConns, hsilent.udpConns]
      exact h.conns v
    · rw [hdrop, (goto_sameUdp ..).ethaddr]
      exact hsilent.ethaddr h.ethaddr
    · rw [hdrop, goto_flags]
    · rw [hdrop]
      exact goto_drop w₁
  · obtain ⟨es, hes, hmsg⟩ := hbuilds.events
    have hpos := hbuilds.pos
    have hle := hbuilds.le
    have hlen : w₁.slen.toNat = msg.length := by
      rw [hbuilds.slen]
      exact Nat.mod_eq_of_lt (by omega)
    have hne : w₁.slen ≠ 0 := by
      intro hzero
      rw [hzero] at hlen
      exact absurd hlen.symm (Nat.pos_iff_ne_zero.mp hpos)
    have hroom : HasRoom w.appdata := hready.appdata ▸ by decide
    have hahead : w.sappdata ≤ w.appdata := hready.sappdata.trans_le hready.appdata.ge
    obtain ⟨hsame, hflags, hlost', hlen', happdata, hproto, haddrs, hread⟩ := udpSend_datagram u hne
    have hconn := (h.conns u hready.lport).2
    rw [← hbuilds.udpConns] at hconn
    refine ⟨some msg, ⟨fun v => ?_, ?_⟩, hflags, ⟨es, by rw [happ, hes], hmsg⟩, ?_⟩
    · rw [hsame.udpConns, hbuilds.udpConns]
      exact h.conns v
    · rw [hsame.ethaddr]
      exact hbuilds.ethaddr h.ethaddr
    · refine ⟨?_, ?_, hle, happdata, hproto, ?_, ?_⟩
      · rw [hlost', hbuilds.lost hroom, hlost]
      · rw [hlen', UInt16.toNat_add, hlen]
        exact Nat.mod_eq_of_lt (show msg.length + 28 < 65536 by omega)
      · rw [haddrs, hconn]
        decide
      · rw [hread, ← hready.sappdata]
        exact hbuilds.read hahead

/-- A call of `uip_process` sends the message that the client builds in it. -/
theorem uipProcess_processed (h : OwnUdp w) (hp : w.Passive) (sh : Shell σ) {flag : ProcessFlag}
    (hflag : ∀ u, flag ≠ .udpSendConn u) :
    ∃ msg, Processed w (w.uipProcess (firmwareApps sh) flag) msg ∧
      (msg.isSome → (∀ c, flag ≠ .timer c) ∧ ∀ u, flag = .udpTimer u → u = 0) := by
  have hapart := w.process_apart hflag
  have hmoves := process_moves hp flag
  simp only [uipProcess]
  cases ho : w.process flag with
  | done w₁ =>
    rw [ho] at hapart hmoves
    obtain ⟨c, hc⟩ := hmoves
    exact ⟨none, processed_none h hapart (congrArg Firmware.events hc.app), (by simp)⟩
  | call c w₀ after =>
    rw [ho] at hapart hmoves
    obtain ⟨a, htransition, -⟩ := hmoves.1.acked
    obtain ⟨happ, -⟩ :=
      After.run_conn c (serverAppcall sh w₀) after (by simpa using hmoves.1.stopped)
    have hsame : SameUdp w (serverAppcall sh w₀) :=
      SameUdp.trans hapart (serverAppcall_sameUdp sh w₀)
    have hevents := (serverAppcall_client sh w₀).2
    rw [hmoves.1.app] at hevents
    have hrun : Outcome.Apart w (.done (after.run c (serverAppcall sh w₀))) := by
      obtain ⟨hafter, hpacket⟩ := After.run_apart c (serverAppcall sh w₀) htransition.noUdp
      exact ⟨hsame.trans hafter, hpacket⟩
    exact ⟨none, processed_none h hrun ((congrArg Firmware.events happ).trans hevents), (by simp)⟩
  | udpCall u w₀ =>
    rw [ho] at hapart hmoves
    obtain ⟨hsame, hready, hlost⟩ := hapart
    have hrun : w.lost = false ∧ w.dispatch flag = .udpCall u w₀ := by
      rcases process_cases w flag with ⟨-, hprocess⟩ | ⟨hlost, hprocess⟩
      · rw [hprocess] at ho
        cases ho
      · exact ⟨hlost, hprocess ▸ ho⟩
    obtain ⟨msg, hmsg⟩ := udpCall_processed (h.of_sameUdp hsame) hready (hlost.trans hrun.1)
    refine ⟨msg, ⟨hmsg.own, hmsg.flags, ?_, hmsg.packet⟩, fun _ => ⟨fun c hc => ?_, fun v hv => ?_⟩⟩
    · rw [← show w₀.app = w.app from hmoves.app]
      exact hmsg.events
    · subst hc
      exact timer_ne_udpCall w c u w₀ ho
    · subst hv
      have hu : u = v := by
        have hdispatch := hrun.2
        simp only [dispatch] at hdispatch
        split at hdispatch
        · exact (Outcome.udpCall.inj hdispatch).1.symm
        · cases hdispatch
      rw [← hu]
      exact ((h.of_sameUdp hsame).conns u hready.lport).1

end Stack

/-- The payload of a frame with a UDP datagram from port 68 to port 67 of 255.255.255.255. -/
def Frame.dhcpPayload? (f : Frame) : Option (List UInt8) :=
  if f.handed[12]? = some 8 ∧ f.handed[13]? = some 0 ∧ f.handed[23]? = some 17 ∧
      (f.handed.drop 30).take 8 = [255, 255, 255, 255, 0, 68, 0, 67] then
    some (f.handed.drop 42)
  else none

theorem Frame.dhcpPayload?_eq_none {m : Mem} (h : m 13 ≠ 0 ∨ m 23 ≠ 17) (n : Nat)
    (image : List UInt8) : Frame.dhcpPayload? ⟨m.read 0 n, image⟩ = none := by
  refine if_neg ?_
  rintro ⟨-, h13, h23, -⟩
  have hzero : m (0 + 13) = 0 := Mem.of_getElem?_read h13
  have hproto : m (0 + 23) = 17 := Mem.of_getElem?_read h23
  exact h.elim (absurd hzero) (absurd hproto)

theorem Frame.dhcpPayload?_eq_some {m : Mem} (htype : m 12 = 8 ∧ m 13 = 0) (hproto : m 23 = 17)
    (haddrs : m.read 30 8 = [255, 255, 255, 255, 0, 68, 0, 67]) (n : Nat) (image : List UInt8) :
    Frame.dhcpPayload? ⟨m.read 0 (42 + n), image⟩ = some (m.read 42 n) := by
  have hbyte {i : Nat} (hi : i < 42) : (m.read 0 (42 + n))[i]? = some (m i) := by
    rw [Mem.getElem?_read (by omega), Nat.zero_add]
  have h12 : (m.read 0 (42 + n))[12]? = some 8 := by rw [hbyte (by decide), htype.1]
  have h13 : (m.read 0 (42 + n))[13]? = some 0 := by rw [hbyte (by decide), htype.2]
  have h23 : (m.read 0 (42 + n))[23]? = some 17 := by rw [hbyte (by decide), hproto]
  have h30 : ((m.read 0 (42 + n)).drop 30).take 8 = [255, 255, 255, 255, 0, 68, 0, 67] := by
    have hdrop : (m.read 0 (42 + n)).drop 30 = m.read (0 + 30) (12 + n) := by
      rw [← Mem.drop_read, ← Nat.add_assoc]
    rw [hdrop, Mem.take_read _ _ (by omega)]
    exact haddrs
  refine (if_pos ⟨h12, h13, h23, h30⟩).trans (congrArg some ?_)
  change (m.read 0 (42 + n)).drop 42 = m.read 42 n
  rw [Mem.drop_read, Nat.zero_add]

/-- The hardware addresses of the table have their length. -/
def Arp.Sound (a : Arp) : Prop := ∀ i, (a.table i).ethaddr.length = 6

namespace Arp

variable {a : Arp}

theorem Sound.timer (h : a.Sound) : a.timer.Sound := by
  intro i
  simp only [Arp.timer]
  split <;> exact h i

theorem Sound.update (h : a.Sound) (ipaddr : IpAddr) {ethaddr : List UInt8}
    (he : ethaddr.length = 6) : (a.update ipaddr ethaddr).Sound := by
  intro i
  simp only [Arp.update, Function.update_apply]
  split
  · exact he
  · exact h i

theorem Sound.lookup (h : a.Sound) {ipaddr : IpAddr} {ethaddr : List UInt8}
    (he : a.lookup ipaddr = some ethaddr) : ethaddr.length = 6 := by
  obtain ⟨i, -, rfl⟩ := Option.map_eq_some_iff.mp he
  exact h i

end Arp

namespace Stack

variable {α : Type*} {w : Stack α} {a : Arp}

theorem arp_type (m : Mem) : m.write 12 (le16 (htons ethtypeArp)) 13 ≠ 0 := by
  have htype : le16 (htons ethtypeArp) = [8, 6] := by decide
  simp [Mem.write, htype]

theorem arpIpin_own (w : Stack α) (ha : a.Sound) : SameUdp w (w.arpIpin a).1 ∧
    (w.arpIpin a).1.flags = w.flags ∧ (w.arpIpin a).2.Sound := by
  simp only [arpIpin]
  split
  · exact ⟨⟨rfl, rfl⟩, rfl, ha⟩
  · exact ⟨⟨rfl, rfl⟩, rfl, ha.update _ (Mem.length_read ..)⟩

/-- What `uip_arp_arpin` leaves is an ARP packet, if anything. -/
theorem arpArpin_own (w : Stack α) (ha : a.Sound) : SameUdp w (w.arpArpin a).1 ∧
    (w.arpArpin a).1.flags = w.flags ∧ (w.arpArpin a).2.Sound ∧
    (0 < (w.arpArpin a).1.len → (w.arpArpin a).1.buf 13 ≠ 0) := by
  have hlearned := ha.update (.load w.buf 28) (Mem.length_read w.buf 22 6)
  simp only [arpArpin]
  split
  · exact ⟨⟨rfl, rfl⟩, rfl, ha, by simp⟩
  split
  · split
    · refine ⟨⟨rfl, rfl⟩, rfl, hlearned, fun _ => ?_⟩
      simp only [arpReply, put]
      exact arp_type _
    · exact ⟨⟨rfl, rfl⟩, rfl, ha, by simp⟩
  split
  · split
    · exact ⟨⟨rfl, rfl⟩, rfl, hlearned, by simp⟩
    · exact ⟨⟨rfl, rfl⟩, rfl, ha, by simp⟩
  · exact ⟨⟨rfl, rfl⟩, rfl, ha, by simp⟩

theorem arpOut_own (w : Stack α) (a : Arp) :
    SameUdp w (w.arpOut a) ∧ (w.arpOut a).flags = w.flags := by
  simp only [arpOut]
  split
  · exact ⟨⟨rfl, rfl⟩, rfl⟩
  · split <;> exact ⟨⟨rfl, rfl⟩, rfl⟩

theorem ethHeader_buf {dest : List UInt8} (hdest : dest.length = 6) (hmac : w.ethaddr.length = 6) :
    ((w.ethHeader dest).buf 12 = 8 ∧ (w.ethHeader dest).buf 13 = 0) ∧
      ∀ x, 14 ≤ x → (w.ethHeader dest).buf x = w.buf x := by
  have htype : le16 (htons ethtypeIp) = [8, 0] := by decide
  refine ⟨?_, fun x hx => ?_⟩
  · simp [ethHeader, put, Mem.write, htype]
  · simp only [ethHeader, put, htype]
    rw [Mem.write_apply_of_ge (by simpa using hx), Mem.write_apply_of_ge (by simp [hmac]; omega),
      Mem.write_apply_of_ge (by simp [hdest]; omega)]

/-- Of a packet that is no UDP datagram `uip_arp_out` makes a frame that is none. -/
theorem arpOut_notUdp (ha : a.Sound) (hmac : w.ethaddr.length = 6) (h : w.buf 23 ≠ 17) :
    (w.arpOut a).buf 13 ≠ 0 ∨ (w.arpOut a).buf 23 ≠ 17 := by
  have hheader {dest : List UInt8} (hdest : dest.length = 6) :
      (w.ethHeader dest).buf 23 ≠ 17 := by
    rwa [(ethHeader_buf hdest hmac).2 23 (by decide)]
  simp only [arpOut]
  split
  · exact .inr (hheader (List.length_replicate ..))
  · split
    · next hdest => exact .inr (hheader (ha.lookup hdest))
    · left
      simp only [arpRequest, put]
      exact arp_type _

/-- Of the datagram of a message it makes the frame of the message. -/
theorem Carries.arpOut {msg : List UInt8} (h : w.Carries msg) (a : Arp)
    (hmac : w.ethaddr.length = 6) (image : List UInt8) :
    Frame.dhcpPayload? ⟨(w.arpOut a).buf.read 0 (w.arpOut a).len.toNat, image⟩ = some msg := by
  have hones : IpAddr.load w.buf 30 = .ones := by
    have haddrs : w.buf.read 30 8 = [255, 255, 255, 255] ++ [0, 68, 0, 67] := h.addrs
    have hread : w.buf.read 30 4 = [255, 255, 255, 255] := (Mem.read_eq_append haddrs).1
    obtain ⟨h0, h1, h2, h3⟩ :
        w.buf 30 = 255 ∧ w.buf 31 = 255 ∧ w.buf 32 = 255 ∧ w.buf 33 = 255 := by
      simpa [Mem.read, List.range_succ] using hread
    simp only [IpAddr.load, Mem.get16, h0, h1, h2, h3]
    decide
  have hout : w.arpOut a = w.ethHeader (List.replicate 6 0xff) := if_pos hones
  obtain ⟨htype, hrest⟩ := ethHeader_buf (w := w) (List.length_replicate (n := 6) (a := 0xff)) hmac
  have hread (b n : Nat) (hb : 14 ≤ b) :
      (w.ethHeader (List.replicate 6 0xff)).buf.read b n = w.buf.read b n :=
    Mem.read_congr fun i _ => hrest (b + i) (by omega)
  have hlen : (w.ethHeader (List.replicate 6 0xff)).len.toNat = 42 + msg.length := by
    have hle := h.le
    change (w.len + 14).toNat = 42 + msg.length
    rw [UInt16.toNat_add, h.len]
    change (msg.length + 28 + 14) % 65536 = 42 + msg.length
    omega
  rw [hout, hlen, Frame.dhcpPayload?_eq_some htype, hread 42 _ (by decide), h.read]
  · rw [hrest 23 (by decide), h.proto]
  · rw [hread 30 8 (by decide), h.addrs]

end Stack

namespace Board

variable {K : Conf} {σ : Type*} {P : Project K σ} {b b₁ b' : Board K σ}

/-- The client has its connection alone, no flag is set, and the hardware addresses have their
length. -/
structure Ready (b : Board K σ) : Prop where
  passive : b.net.Passive
  own : b.net.OwnUdp
  flags : b.net.flags = {}
  arp : b.arp.Sound

/-- From `b` to `b'` the client builds the messages `ms`, and they are the payloads of the datagrams
that are sent for its connection. -/
structure Sends (b b' : Board K σ) (ms : List (List UInt8)) : Prop where
  events : ∃ es, b'.net.app.events = b.net.app.events ++ es ∧ es.filterMap Event.message? = ms
  sent : ∃ fs, b'.sent = b.sent ++ fs ∧ fs.filterMap Frame.dhcpPayload? = ms

theorem sends_of_same (hevents : b'.net.app.events = b.net.app.events) (hsent : b'.sent = b.sent) :
    Sends b b' [] :=
  ⟨⟨[], by simp [hevents], rfl⟩, ⟨[], by simp [hsent], rfl⟩⟩

theorem Sends.trans {ms ms' : List (List UInt8)} (h : Sends b b₁ ms) (h' : Sends b₁ b' ms') :
    Sends b b' (ms ++ ms') := by
  obtain ⟨⟨es, hes, hms⟩, fs, hfs, hsent⟩ := h
  obtain ⟨⟨es', hes', hms'⟩, fs', hfs', hsent'⟩ := h'
  refine ⟨⟨es ++ es', ?_, ?_⟩, ⟨fs ++ fs', ?_, ?_⟩⟩
  · rw [hes', hes, List.append_assoc]
  · rw [List.filterMap_append, hms, hms']
  · rw [hfs', hfs, List.append_assoc]
  · rw [List.filterMap_append, hsent, hsent']

theorem output_sends {msg : Option (List UInt8)} (h : b.Ready) (hframed : b.net.Framed)
    (hpacket : msg.elim b.net.NotUdp b.net.Carries) :
    b.output.Ready ∧ b.output.net.app = b.net.app ∧
      ∃ fs, b.output.sent = b.sent ++ fs ∧ fs.filterMap Frame.dhcpPayload? = msg.toList := by
  have hmac := h.own.ethaddr
  simp only [output]
  split
  · next hlen =>
    replace hlen := hlen.1
    obtain ⟨hsame, hflags⟩ := b.net.arpOut_own b.arp
    obtain ⟨hconns, happ⟩ := b.net.arpOut_same b.arp
    have hready : Ready { b with net := b.net.arpOut b.arp } :=
      ⟨h.passive.of_conns hconns, h.own.of_sameUdp hsame, hflags.trans h.flags, h.arp⟩
    refine ⟨⟨hready.passive, hready.own, hready.flags, hready.arp⟩, happ, _,
      networkSend_sent (hframed.arpOut b.arp), ?_⟩
    cases msg with
    | none =>
      have hproto := hpacket.resolve_left (UInt16.pos_iff_ne_zero.mp hlen)
      exact List.filterMap_cons_none
        (Frame.dhcpPayload?_eq_none (Stack.arpOut_notUdp h.arp hmac hproto) _ _)
    | some msg => exact List.filterMap_cons_some (hpacket.arpOut b.arp hmac _)
  · next hlen =>
    cases msg with
    | none => exact ⟨h, rfl, [], by simp, rfl⟩
    | some msg =>
      refine absurd ⟨?_, hpacket.lost⟩ hlen
      have hlen' := hpacket.len
      rw [UInt16.pos_iff_ne_zero]
      intro hzero
      rw [hzero] at hlen'
      exact absurd hlen' (by simp)

/-- A call of `uip_process` and its output send the message that the client builds in them. -/
theorem process_sends (h : b.Ready) (flag : ProcessFlag) (hflag : ∀ u, flag ≠ .udpSendConn u) :
    ∃ msg : Option (List UInt8), (b.process P flag).Ready ∧
      Sends b (b.process P flag) msg.toList ∧
      (msg.isSome → (∀ c, flag ≠ .timer c) ∧ ∀ u, flag = .udpTimer u → u = 0) := by
  obtain ⟨msg, hmsg, hsome⟩ := Stack.uipProcess_processed h.own h.passive P.shell hflag
  have hready : Ready { b with net := b.net.uipProcess (firmwareApps P.shell) flag } :=
    ⟨Stack.uipProcess_passive h.passive P.shell flag, hmsg.own, hmsg.flags, h.arp⟩
  have hframed := Stack.uipProcess_framed (Stack.serverAppcall_sappdata_eq P.shell) flag b.net
  obtain ⟨hready', happ, hsent⟩ := output_sends hready hframed hmsg.packet
  refine ⟨msg, hready', ⟨?_, hsent⟩, hsome⟩
  obtain ⟨es, hes, hms⟩ := hmsg.events
  exact ⟨es, (congrArg Firmware.events happ).trans hes, hms⟩

theorem Ready.of_same (h : b.Ready) (hconns : b'.net.conns = b.net.conns)
    (hsame : Stack.SameUdp b.net b'.net) (hflags : b'.net.flags = b.net.flags)
    (harp : b'.arp.Sound) : b'.Ready :=
  ⟨h.passive.of_conns hconns, h.own.of_sameUdp hsame, hflags.trans h.flags, harp⟩

theorem Aside.sends (ha : Aside b b') (h : b.Ready) : b'.Ready ∧ Sends b b' [] := by
  obtain ⟨clock, shell, hnet⟩ := ha.net
  have harp : b'.arp.Sound := by
    rcases ha.arp with h' | h'
    · rw [h']
      exact h.arp
    · rw [h']
      exact h.arp.timer
  refine ⟨⟨?_, ?_, ?_, harp⟩, sends_of_same ?_ ha.sent⟩
  · rw [hnet]
    exact h.passive
  · rw [hnet]
    exact ⟨h.own.conns, h.own.ethaddr⟩
  · rw [hnet]
    exact h.flags
  · rw [hnet]

theorem input_sends (h : b.Ready) : ∃ msg : Option (List UInt8), (b.input P).Ready ∧
    Sends b (b.input P) msg.toList := by
  simp only [input]
  split
  · obtain ⟨hready₁, hled₁⟩ := (ledOn_aside (P := P) 5 b).sends h
    generalize b.ledOn P 5 = b₁ at hready₁ hled₁
    obtain ⟨hsame, hflags, harp⟩ := b₁.net.arpIpin_own hready₁.arp
    obtain ⟨hconns, happ, -⟩ := b₁.net.arpIpin_same b₁.arp
    set b₂ := { b₁ with net := (b₁.net.arpIpin b₁.arp).1, arp := (b₁.net.arpIpin b₁.arp).2 }
      with hb₂
    have hready₂ : b₂.Ready := hready₁.of_same hconns hsame hflags harp
    have hsame₂ : Sends b₁ b₂ [] := sends_of_same (congrArg Firmware.events happ) rfl
    obtain ⟨msg, hready, hsends, -⟩ := process_sends (P := P) hready₂ .data (by simp)
    exact ⟨msg, hready, (hled₁.trans hsame₂).trans hsends⟩
  split
  · obtain ⟨hready₁, hled₁⟩ := (ledOn_aside (P := P) 4 b).sends h
    generalize b.ledOn P 4 = b₁ at hready₁ hled₁
    obtain ⟨hsame, hflags, harp, htype⟩ := b₁.net.arpArpin_own hready₁.arp
    obtain ⟨hconns, happ, -⟩ := b₁.net.arpArpin_same b₁.arp
    have hframe := b₁.net.arpArpin_frameReady b₁.arp
    set b₂ := { b₁ with net := (b₁.net.arpArpin b₁.arp).1, arp := (b₁.net.arpArpin b₁.arp).2 }
      with hb₂
    have hready₂ : b₂.Ready := hready₁.of_same hconns hsame hflags harp
    have hsame₂ : Sends b₁ b₂ [] := sends_of_same (congrArg Firmware.events happ) rfl
    refine ⟨none, ?_⟩
    split
    · next hlen =>
      have hpayload : Frame.dhcpPayload? _ = none :=
        Frame.dhcpPayload?_eq_none (.inl (htype hlen)) b₂.net.len.toNat
          (b₂.net.buf.read 0 b₂.net.len.toNat)
      have hsends : Sends b₂ b₂.networkSend [] :=
        ⟨⟨[], by simp [networkSend], rfl⟩, _, networkSend_sent hframe,
          List.filterMap_cons_none hpayload⟩
      exact ⟨⟨hready₂.passive, hready₂.own, hready₂.flags, hready₂.arp⟩,
        (hled₁.trans hsame₂).trans hsends⟩
    · exact ⟨hready₂, hled₁.trans hsame₂⟩
  · exact ⟨none, h, sends_of_same rfl rfl⟩

/-- Of the connections that the periodic work polls, the first UDP connection alone is the
client's. -/
theorem poll_sends (h : b.Ready) : ∃ msg : Option (List UInt8), (b.poll P).Ready ∧
    Sends b (b.poll P) msg.toList := by
  set b₁ := (List.finRange 10).foldl (fun b c => b.process P (.timer c)) b with hb₁
  have hconns : b₁.Ready ∧ Sends b b₁ [] := by
    refine List.foldlRecOn (motive := fun b' => b'.Ready ∧ Sends b b' []) _ _
      ⟨h, sends_of_same rfl rfl⟩ ?_
    intro b' hb' c _
    obtain ⟨msg, hready, hsends, hsome⟩ := process_sends (P := P) hb'.1 (.timer c) (by simp)
    cases msg with
    | none => exact ⟨hready, hb'.2.trans hsends⟩
    | some msg => exact absurd rfl ((hsome rfl).1 c)
  obtain ⟨msg, hready, hsends, -⟩ := process_sends (P := P) hconns.1 (.udpTimer 0) (by simp)
  refine ⟨msg, ?_⟩
  have hpoll : b.poll P = ((List.finRange 9).map Fin.succ).foldl
      (fun b u => b.process P (.udpTimer u)) (b₁.process P (.udpTimer 0)) := by
    simp only [poll, ← hb₁]
    rw [List.finRange_succ, List.foldl_cons]
  rw [hpoll]
  refine List.foldlRecOn (motive := fun b' => b'.Ready ∧ Sends b b' msg.toList) _ _
    ⟨hready, hconns.2.trans hsends⟩ ?_
  intro b' hb' u hu
  obtain ⟨v, -, rfl⟩ := List.mem_map.mp hu
  obtain ⟨msg', hready', hsends', hsome⟩ :=
    process_sends (P := P) hb'.1 (.udpTimer v.succ) (by simp)
  cases msg' with
  | none => exact ⟨hready', by simpa using hb'.2.trans hsends'⟩
  | some msg' => exact absurd ((hsome rfl).2 _ rfl) (Fin.succ_ne_zero v)

theorem periodic_sends (h : b.Ready) : ∃ msg : Option (List UInt8), (b.periodic P).Ready ∧
    Sends b (b.periodic P) msg.toList := by
  obtain ⟨b₁, haside, htick⟩ := b.periodic_aside P
  obtain ⟨hready₁, hsends₁⟩ := haside.sends h
  obtain ⟨msg, hready₂, hsends₂⟩ := poll_sends (P := P) hready₁
  obtain ⟨hready₃, hsends₃⟩ := htick.sends hready₂
  exact ⟨msg, hready₃, by simpa using (hsends₁.trans hsends₂).trans hsends₃⟩

/-- From `b` to `b'` the client builds one message or none, and the message is sent. -/
def Transmits (b b' : Board K σ) : Prop := ∃ ms, ms.length ≤ 1 ∧ Sends b b' ms

theorem transmits_of_toList {msg : Option (List UInt8)} (h : Sends b b' msg.toList) :
    Transmits b b' := ⟨_, Option.length_toList_le, h⟩

theorem Transmits.of_same (h : Transmits b₁ b') (hevents : b₁.net.app.events = b.net.app.events)
    (hsent : b₁.sent = b.sent) : Transmits b b' := by
  obtain ⟨ms, hle, hsends⟩ := h
  exact ⟨ms, hle, (sends_of_same hevents hsent).trans hsends⟩

theorem renew_ready (h : b.Ready) (hlost : b.net.lost = false) : (b.renew P).Ready := by
  set w := { (b.ledOn P 3).net with hostaddr := .ofBytes 0 0 0 0 }.logClient .renewed with hw
  have hconns : (b.renew P).net.conns = b.net.conns :=
    (b.ledOn P 3).net.dhcpcRenew_sameServer.conns
  have hown : (b.renew P).net.udpConns = b.net.udpConns ∧
      (b.renew P).net.ethaddr.length = 6 ∧ (b.renew P).net.flags = b.net.flags := by
    have hrenew : (b.ledOn P 3).net.dhcpcRenew = w.handleDhcp := Stack.dhcpcRenew_eq hlost
    change (b.ledOn P 3).net.dhcpcRenew.udpConns = w.udpConns ∧
      (b.ledOn P 3).net.dhcpcRenew.ethaddr.length = 6 ∧
      (b.ledOn P 3).net.dhcpcRenew.flags = w.flags
    rw [hrenew]
    rcases w.handleDhcp_builds with hsilent | ⟨msg, hbuilds⟩
    · exact ⟨hsilent.udpConns, hsilent.ethaddr h.own.ethaddr, hsilent.flags⟩
    · exact ⟨hbuilds.udpConns, hbuilds.ethaddr h.own.ethaddr, hbuilds.flags⟩
  refine ⟨h.passive.of_conns hconns, ⟨fun u => ?_, hown.2.1⟩, hown.2.2.trans h.flags, h.arp⟩
  rw [hown.1]
  exact h.own.conns u

/-- A renewal sends nothing: the message that the client builds in it is lost. -/
theorem renew_transmits_iff (h : b.Ready) (hlost : b.net.lost = false) :
    Transmits b (b.renew P) ↔ b.net.app.dhcpc.Quiet (b.net.app.clock 0) := by
  set w := { (b.ledOn P 3).net with hostaddr := .ofBytes 0 0 0 0 }.logClient .renewed with hw
  have hnewdata : w.flags.newdata = false := congrArg Flags.newdata h.flags
  have hsent : (b.renew P).sent = b.sent := rfl
  have hrenewed : w.app.events = b.net.app.events ++ [.renewed] := rfl
  have hevents : (b.renew P).net.app.events = w.handleDhcp.app.events := by
    rw [hw, ← Stack.dhcpcRenew_eq (w := (b.ledOn P 3).net) hlost]
    rfl
  constructor
  · rintro ⟨ms, -, ⟨es, hes, hms⟩, fs, hfs, hpayloads⟩
    by_contra hquiet
    obtain ⟨msg, hbuilds⟩ := Stack.handleDhcp_not_quiet (w := w) hnewdata hquiet
    obtain ⟨es', hes', hmsg⟩ := hbuilds.events
    rw [hsent, List.self_eq_append_right] at hfs
    rw [hevents, hes', hrenewed, List.append_assoc, List.append_cancel_left_eq] at hes
    rw [← hes, List.filterMap_append, hmsg] at hms
    rw [hfs, ← hms] at hpayloads
    cases hpayloads
  · intro hquiet
    obtain ⟨es, hes, hnone⟩ := (Stack.handleDhcp_quiet (w := w) hnewdata hquiet).events
    refine ⟨[], by simp, ⟨[.renewed] ++ es, ?_, ?_⟩, [], by simp [hsent], rfl⟩
    · rw [hevents, hes, hrenewed, List.append_assoc]
    · rw [List.filterMap_append, hnone]
      rfl

/-- The turn is a renewal in which the client builds a message.  The loop has read the clock twice
when the client reads it. -/
def Discards (b : Board K σ) (packet : Packet) : Prop :=
  b.Renews packet ∧ ¬b.net.app.dhcpc.Quiet (b.net.app.clock 2)

instance (b : Board K σ) (packet : Packet) : Decidable (b.Discards packet) :=
  inferInstanceAs (Decidable (_ ∧ ¬_))

/-- What a turn of the loop keeps, and when it sends the message of the client. -/
theorem loop_transmits_iff (P : Project K σ) (h : b.Ready) (packet : Packet) :
    (b.loop P packet).Ready ∧ (Transmits b (b.loop P packet) ↔ ¬b.Discards packet) := by
  cases hlost : b.net.lost with
  | true =>
    rw [loop_of_lost P hlost]
    refine ⟨h, iff_of_true ⟨[], Nat.zero_le 1, sends_of_same rfl rfl⟩ ?_⟩
    intro hdiscards
    exact absurd (hdiscards.1.1.symm.trans hlost) (by decide)
  | false =>
  set b₀ := b.networkRead packet with hb₀
  have hready₀ : b₀.Ready := ⟨h.passive, ⟨h.own.conns, h.own.ethaddr⟩, h.flags, h.arp⟩
  have hread : Sends b b₀ [] := sends_of_same rfl rfl
  obtain ⟨hready₁, hsends₁⟩ := (expired_aside b₀.periodicTimer b₀).sends hready₀
  obtain ⟨hready₂, hsends₂⟩ := (expired_aside
    (b₀.expired b₀.periodicTimer).2.net.app.dhcpTimer _).sends hready₁
  rcases loop_cases P hlost packet with ⟨hlen, hloop⟩ | ⟨-, hdue, hloop⟩ |
    ⟨hlen, hnot, hdue, hloop⟩ | ⟨-, -, hnot, hloop⟩
  · obtain ⟨msg, hready, hsends⟩ := input_sends (P := P) hready₀
    rw [hloop]
    refine ⟨hready, iff_of_true (transmits_of_toList (hread.trans hsends)) ?_⟩
    exact fun hdiscards => hdiscards.1.2.1 hlen
  · obtain ⟨msg, hready, hsends⟩ := periodic_sends (P := P) hready₁
    rw [hloop]
    refine ⟨hready, iff_of_true
      (transmits_of_toList ((hread.trans hsends₁).trans hsends)) ?_⟩
    intro hdiscards
    exact absurd (hdiscards.1.2.2.1.symm.trans hdue) (by decide)
  · rw [hloop]
    refine ⟨renew_ready hready₂ hlost, ?_⟩
    have hrenews : b.Renews packet := ⟨hlost, hlen, hnot, hdue⟩
    have hquiet := renew_transmits_iff (P := P) hready₂ hlost
    rw [Discards, and_iff_right hrenews, not_not]
    exact ⟨fun h' => hquiet.mp (h'.of_same rfl rfl), fun h' => (hquiet.mpr h').of_same rfl rfl⟩
  · rw [hloop]
    refine ⟨hready₂, iff_of_true
      ⟨[], Nat.zero_le 1, (hread.trans hsends₁).trans hsends₂⟩ ?_⟩
    intro hdiscards
    exact absurd (hdiscards.1.2.2.2.symm.trans hnot) (by decide)

theorem init_ready (null : Nat) {mac : List UInt8} (hmac : mac.length = 6)
    (clock : Nat → UInt16) (shell : σ) : (init (K := K) null mac hmac clock shell).Ready := by
  have hconns : (init (K := K) null mac hmac clock shell).net.udpConns =
      Function.update (fun _ => ⟨.zeroes, 0, 0, 0⟩) 0 Stack.dhcpConn := rfl
  have hclosed (c : ConnId) : (init (K := K) null mac hmac clock shell).net.ts c = .closed := rfl
  refine ⟨fun c => ⟨rfl, by simp [hclosed]⟩, ⟨fun u => ?_, hmac⟩, rfl,
    fun _ => List.length_replicate ..⟩
  rw [hconns]
  intro hlport
  by_cases hu : u = 0
  · rw [hu, Function.update_self]
    exact ⟨rfl, rfl⟩
  · rw [Function.update_of_ne hu] at hlport
    exact absurd rfl hlport

/-- After every run of the main loop, a turn sends the message that the client builds in it as the
payload of a datagram of its connection, but for the renewals that build one. -/
theorem messages_transmitted_iff (P : Project K σ) (null : Nat) (mac : List UInt8)
    (hmac : mac.length = 6) (clock : Nat → UInt16) (shell : σ) (packets : List Packet)
    (packet : Packet) :
    let b := run (loop P) (.init null mac hmac clock shell) packets
    Transmits b (b.loop P packet) ↔ ¬b.Discards packet := by
  have hready : (run (loop P) (.init null mac hmac clock shell) packets).Ready :=
    run_invariant (P := Ready) (fun b packet h => (loop_transmits_iff P h packet).1)
      (init_ready null hmac clock shell) packets
  exact (loop_transmits_iff P hready packet).2

/-- The first poll of the client. -/
theorem messages_transmitted_poll :
    let b : Board Telnetd.conf Unit :=
      .init 0 (List.replicate 6 0) rfl (fun n => if n < 3 then 0 else clockSecond) ()
    let packet := Packet.ofBytes [] (by decide)
    Transmits b (b.loop openplc packet) ∧
      (b.loop openplc packet).net.app.events.filterMap Event.message? ≠ [] :=
  ⟨(messages_transmitted_iff openplc 0 (List.replicate 6 0) rfl
    (fun n => if n < 3 then 0 else clockSecond) () [] (.ofBytes [] (by decide))).mpr
      (by decide +kernel), by decide +kernel⟩

/-- A renewal in the first turn builds a message that is not sent. -/
theorem not_messages_transmitted :
    let b : Board Telnetd.conf Unit := .init 0 (List.replicate 6 0) rfl comeRound ()
    ¬Transmits b (b.loop openplc (.ofBytes [] (by decide))) := by
  intro b
  have hsent : (b.loop openplc (.ofBytes [] (by decide))).sent = b.sent := by decide +kernel
  have hbuilt : (b.loop openplc (.ofBytes [] (by decide))).net.app.events.filterMap
      Event.message? ≠ [] := by decide +kernel
  have hnone : b.net.app.events = [] := by decide +kernel
  rintro ⟨ms, -, ⟨es, hes, hms⟩, fs, hfs, hpayloads⟩
  rw [hsent, List.self_eq_append_right] at hfs
  rw [hes, hnone, List.nil_append, hms, ← hpayloads, hfs] at hbuilt
  exact hbuilt rfl

end Board

end OpenPLC
