import OpenPLC.Messages
import OpenPLC.Uip.Integrity

/-! What the other hosts see of the board: every frame that it sends is an ARP packet that names its
sender, or an IP packet whose length and checksums are right. -/

namespace OpenPLC

open Lib

/-- The frame in `b` is an ARP request or the answer to one, and names its sender. -/
structure ArpPacket (b : Mem) : Prop where
  opcode : b.get16 20 = htons 1 ∨ b.get16 20 = htons 2
  sender : b.read 22 6 = b.read 6 6

/-- A frame that fits the buffer, with an ARP packet or with an IP packet. -/
def Frame.Valid (f : Frame) : Prop :=
  f.handed.length ≤ bufsize ∧
    ((Mem.ofList f.handed).get16 12 = htons ethtypeArp ∧ f.handed.length = 42 ∧
        ArpPacket (Mem.ofList f.handed) ∨
      (Mem.ofList f.handed).get16 12 = htons ethtypeIp ∧ 14 ≤ f.handed.length ∧
        Fit (Mem.ofList f.handed) (f.handed.length - 14).toUInt16)

/-- There is no packet, or one with an Ethernet header. -/
def Packet.Framed (packet : Packet) : Prop := packet.bytes = [] ∨ 14 ≤ packet.bytes.length

theorem get16_ofList (m : Mem) {a n : Nat} (h : a + 2 ≤ n) :
    (Mem.ofList (m.read 0 n)).get16 a = m.get16 a := by
  unfold Mem.get16
  rw [Mem.ofList_read m (by omega), Mem.ofList_read m (by omega)]

theorem valid_of_ip {m : Mem} {len : UInt16} (htype : m.get16 12 = htons ethtypeIp)
    (hfit : Fit m len) (image : List UInt8) : Frame.Valid ⟨m.read 0 (len.toNat + 14), image⟩ := by
  have hle := hfit.le
  have h1010 : (1010 : UInt16).toNat = 1010 := rfl
  rw [UInt16.le_iff_toNat_le, h1010] at hle
  have hlen : (len.toNat + 14 - 14).toUInt16 = len := by
    rw [Nat.add_sub_cancel]
    exact UInt16.ofNat_toNat
  unfold Frame.Valid
  dsimp only
  rw [Mem.length_read, hlen, get16_ofList m (by omega)]
  have hbuf : len.toNat + 14 ≤ 1024 := by omega
  refine ⟨hbuf, .inr ⟨htype, Nat.le_add_left .., hfit.congr fun x _ hx => ?_⟩⟩
  exact Mem.ofList_read m (by omega)

theorem valid_of_arp {m : Mem} (htype : m.get16 12 = htons ethtypeArp) (harp : ArpPacket m)
    (image : List UInt8) : Frame.Valid ⟨m.read 0 42, image⟩ := by
  have hread {a n : Nat} (h : a + n ≤ 42) : (Mem.ofList (m.read 0 42)).read a n = m.read a n :=
    Mem.read_congr fun i _ => Mem.ofList_read m (by omega)
  unfold Frame.Valid
  dsimp only
  rw [Mem.length_read, get16_ofList m (by decide)]
  refine ⟨by decide, .inl ⟨htype, rfl, ?_, ?_⟩⟩
  · rw [get16_ofList m (by decide)]
    exact harp.opcode
  · rw [hread (by decide), hread (by decide)]
    exact harp.sender

namespace Stack

section Arp

variable {α : Type*} {w : Stack α} {a : Arp}

theorem get16_of_read {m : Mem} {a : Nat} {v : UInt16} (h : m.read a 2 = le16 v) :
    m.get16 a = v := by
  apply le16_injective
  rw [le16_get16, h]

theorem read_write_le16 (m : Mem) (a : Nat) (v : UInt16) : (m.write a (le16 v)).read a 2 = le16 v :=
  Mem.read_write_self m a (le16 v)

theorem get16_write (m : Mem) (a : Nat) (v : UInt16) : (m.write a (le16 v)).get16 a = v :=
  get16_of_read (read_write_le16 m a v)

theorem arpRequest_packet (hmac : w.ethaddr.length = 6) (ipaddr : IpAddr) :
    (w.arpRequest ipaddr).buf.get16 12 = htons ethtypeArp ∧
      ArpPacket (w.arpRequest ipaddr).buf := by
  have h2 (v : UInt16) : (le16 v).length = 2 := rfl
  unfold arpRequest
  dsimp only [put]
  refine ⟨get16_write .., .inl (get16_of_read ?_), ?_⟩
  · simp [Mem.read_write_of_ge, h2, read_write_le16]
  · simp [Mem.read_write_of_ge, Mem.read_write_of_le, Mem.read_write_of_length, h2, hmac]

theorem arpReply_packet (hmac : w.ethaddr.length = 6) :
    w.arpReply.buf.get16 12 = htons ethtypeArp ∧ ArpPacket w.arpReply.buf := by
  have h2 (v : UInt16) : (le16 v).length = 2 := rfl
  unfold arpReply
  dsimp only [put]
  refine ⟨get16_write .., .inr (get16_of_read ?_), ?_⟩
  · simp [Mem.read_write_of_le, Mem.read_write_of_ge, h2, hmac, read_write_le16]
  · simp [Mem.read_write_of_ge, Mem.read_write_of_le, Mem.read_write_of_length, h2, hmac]

/-- What `uip_arp_out` makes of a packet is a frame for the network. -/
theorem arpOut_valid (ha : a.Sound) (hmac : w.ethaddr.length = 6) (h : w.Leaves)
    (image : List UInt8) :
    Frame.Valid ⟨(w.arpOut a).buf.read 0 (w.arpOut a).len.toNat, image⟩ := by
  have hheader {dest : List UInt8} (hdest : dest.length = 6) :
      Frame.Valid ⟨(w.ethHeader dest).buf.read 0 (w.ethHeader dest).len.toNat, image⟩ := by
    have hle := h.le
    have h1010 : (1010 : UInt16).toNat = 1010 := rfl
    rw [UInt16.le_iff_toNat_le, h1010] at hle
    have hlen : (w.ethHeader dest).len.toNat = w.len.toNat + 14 := by
      change (w.len + 14).toNat = _
      rw [UInt16.toNat_add]
      exact Nat.mod_eq_of_lt (show w.len.toNat + 14 < 65536 by omega)
    rw [hlen]
    exact valid_of_ip (get16_write ..) (h.congr fun x hx _ => (ethHeader_buf hdest hmac).2 x hx)
      image
  have hrequest (ipaddr : IpAddr) : Frame.Valid
      ⟨(w.arpRequest ipaddr).buf.read 0 (w.arpRequest ipaddr).len.toNat, image⟩ := by
    obtain ⟨htype, hpacket⟩ := arpRequest_packet hmac ipaddr
    exact valid_of_arp htype hpacket image
  unfold arpOut
  dsimp only
  split
  · exact hheader (List.length_replicate ..)
  · split
    · next hdest => exact hheader (ha.lookup hdest)
    · exact hrequest _

/-- The answer to an ARP request, if there is one. -/
theorem arpArpin_valid (hmac : w.ethaddr.length = 6) (h : 0 < (w.arpArpin a).1.len)
    (image : List UInt8) :
    Frame.Valid ⟨(w.arpArpin a).1.buf.read 0 (w.arpArpin a).1.len.toNat, image⟩ := by
  unfold arpArpin at h ⊢
  dsimp only at h ⊢
  split_ifs at h ⊢
  · exact absurd h (by simp)
  · have hmac' : { w with len := 0 }.ethaddr.length = 6 := hmac
    obtain ⟨htype, hpacket⟩ := arpReply_packet hmac'
    exact valid_of_arp htype hpacket image
  all_goals exact absurd h (by simp)

end Arp

variable {K : Conf} {σ : Type*} {sh : Shell σ} {w w₁ : Stack (Firmware K σ)} {c : ConnId}

/-- A call of `uip_process` leaves a packet that is fit to be sent. -/
theorem uipProcess_leaves (hp : w.Passive) (hsmall : w.Small) {flag : ProcessFlag}
    (hflag : ∀ u, flag ≠ .udpSendConn u) (hdata : flag = .data → w.len ≤ 1010) :
    (w.uipProcess (firmwareApps sh) flag).Leaves := by
  have hleaves := process_leaves hflag hdata
  have hmoves := process_moves hp flag
  have hapart := w.process_apart hflag
  have ho := process_small hsmall flag
  unfold uipProcess
  cases hprocess : w.process flag with
  | done w₁ =>
    rw [hprocess] at hleaves
    exact hleaves
  | call c w₁ after =>
    rw [hprocess] at hmoves ho
    obtain ⟨a, htransition, -⟩ := hmoves.1.acked
    have hcall : (serverAppcall sh w₁).Small := Small.of_conns ho (serverAppcall_conns sh w₁)
    exact After.run_leaves htransition.answers (hcall c)
  | udpCall u w₁ =>
    rw [hprocess] at hapart
    have hslen : w₁.slen = 0 := hapart.2.1.slen
    refine udpSend_leaves u ?_
    change w₁.dhcpcAppcall.slen.toNat ≤ 256
    unfold dhcpcAppcall
    split
    · rcases w₁.handleDhcp_builds with hsilent | ⟨msg, hbuilds⟩
      · rw [hsilent.slen, hslen]
        decide
      · rw [hbuilds.slen]
        exact (Nat.mod_le _ _).trans hbuilds.le
    · rw [hslen]
      decide

end Stack

namespace Board

variable {K : Conf} {σ : Type*} {P : Project K σ} {b b' : Board K σ}

/-- The board is ready, the lengths of its connections are within their bounds, and it has sent
valid frames. -/
structure Orderly (b : Board K σ) : Prop where
  ready : b.Ready
  small : b.net.Small
  sent : ∀ f ∈ b.sent, f.Valid

theorem networkSend_orderly (h : b.Orderly) (hready : b.net.FrameReady)
    (hvalid : ∀ image, Frame.Valid ⟨b.net.buf.read 0 b.net.len.toNat, image⟩) :
    b.networkSend.Orderly := by
  refine ⟨⟨h.ready.passive, h.ready.own, h.ready.flags, h.ready.arp⟩, h.small, fun f hf => ?_⟩
  rw [networkSend_sent hready] at hf
  rcases List.mem_append.mp hf with hf | hf
  · exact h.sent f hf
  · obtain rfl := List.mem_singleton.mp hf
    exact hvalid _

theorem output_orderly (h : b.Orderly) (hframed : b.net.Framed) (hleaves : b.net.Leaves) :
    b.output.Orderly := by
  have hmac := h.ready.own.ethaddr
  unfold output
  split
  · obtain ⟨hsame, hflags⟩ := b.net.arpOut_own b.arp
    obtain ⟨hconns, -⟩ := b.net.arpOut_same b.arp
    have hready : Ready { b with net := b.net.arpOut b.arp } :=
      h.ready.of_same hconns hsame hflags h.ready.arp
    exact networkSend_orderly ⟨hready, h.small.of_conns hconns, h.sent⟩ (hframed.arpOut b.arp)
      (Stack.arpOut_valid h.ready.arp hmac hleaves)
  · exact h

theorem process_orderly (flag : ProcessFlag) (h : b.Orderly) (hflag : ∀ u, flag ≠ .udpSendConn u)
    (hdata : flag = .data → b.net.len ≤ 1010) : (b.process P flag).Orderly := by
  obtain ⟨msg, hmsg, -⟩ := Stack.uipProcess_processed h.ready.own h.ready.passive P.shell hflag
  have hready : Ready { b with net := b.net.uipProcess (firmwareApps P.shell) flag } :=
    ⟨Stack.uipProcess_passive h.ready.passive P.shell flag, hmsg.own, hmsg.flags, h.ready.arp⟩
  exact output_orderly ⟨hready, Stack.uipProcess_small h.small flag, h.sent⟩
    (Stack.uipProcess_framed (Stack.serverAppcall_sappdata_eq P.shell) flag b.net)
    (Stack.uipProcess_leaves h.ready.passive h.small hflag hdata)

theorem Aside.orderly (ha : Aside b b') (h : b.Orderly) : b'.Orderly := by
  obtain ⟨clock, shell, hnet⟩ := ha.net
  refine ⟨(ha.sends h.ready).1, ?_, ?_⟩
  · rw [hnet]
    exact h.small
  · rw [ha.sent]
    exact h.sent

theorem poll_orderly (h : b.Orderly) : (b.poll P).Orderly := by
  refine poll_induct (M := Orderly) (fun b' c hb => ?_) (fun b' u hb => ?_) h
  · exact process_orderly _ hb (by simp) (by simp)
  · exact process_orderly _ hb (by simp) (by simp)

theorem periodic_orderly (h : b.Orderly) : (b.periodic P).Orderly := by
  obtain ⟨b₁, haside, htick⟩ := b.periodic_aside P
  exact htick.orderly (poll_orderly (haside.orderly h))

theorem renew_orderly (h : b.Orderly) (hlost : b.net.lost = false) : (b.renew P).Orderly :=
  ⟨renew_ready h.ready hlost, h.small.of_conns (b.ledOn P 3).net.dhcpcRenew_sameServer.conns,
    h.sent⟩

theorem input_orderly (h : b.Orderly) (hge : 14 ≤ b.net.len) (hle : b.net.len ≤ 1024) :
    (b.input P).Orderly := by
  have hmac := h.ready.own.ethaddr
  unfold input
  split
  · have hled : (b.ledOn P 5).Orderly := (ledOn_aside 5 b).orderly h
    have hlen : (b.ledOn P 5).net.len = b.net.len := rfl
    generalize b.ledOn P 5 = b₁ at hled hlen
    obtain ⟨hsame, hflags, harp⟩ := b₁.net.arpIpin_own hled.ready.arp
    obtain ⟨hconns, -, -⟩ := b₁.net.arpIpin_same b₁.arp
    have hlen₁ : (b₁.net.arpIpin b₁.arp).1.len = b₁.net.len - 14 := by
      unfold Stack.arpIpin
      dsimp only
      split <;> rfl
    have hb₂ : Orderly { b₁ with net := (b₁.net.arpIpin b₁.arp).1,
                                 arp := (b₁.net.arpIpin b₁.arp).2 } :=
      ⟨hled.ready.of_same hconns hsame hflags harp, hled.small.of_conns hconns, hled.sent⟩
    refine process_orderly .data hb₂ (by simp) fun _ => ?_
    change (b₁.net.arpIpin b₁.arp).1.len ≤ 1010
    have h14 : (14 : UInt16).toNat = 14 := rfl
    have h1024 : (1024 : UInt16).toNat = 1024 := rfl
    have h1010 : (1010 : UInt16).toNat = 1010 := rfl
    rw [UInt16.le_iff_toNat_le, h1024] at hle
    rw [hlen₁, hlen, UInt16.le_iff_toNat_le, UInt16.toNat_sub_of_le _ _ hge, h14, h1010]
    omega
  split
  · have hled : (b.ledOn P 4).Orderly := (ledOn_aside 4 b).orderly h
    generalize b.ledOn P 4 = b₁ at hled
    obtain ⟨hsame, hflags, harp, -⟩ := b₁.net.arpArpin_own hled.ready.arp
    obtain ⟨hconns, -, -⟩ := b₁.net.arpArpin_same b₁.arp
    have hb₂ : Orderly { b₁ with net := (b₁.net.arpArpin b₁.arp).1,
                                 arp := (b₁.net.arpArpin b₁.arp).2 } :=
      ⟨hled.ready.of_same hconns hsame hflags harp, hled.small.of_conns hconns, hled.sent⟩
    dsimp only
    split
    · next hpos =>
      exact networkSend_orderly hb₂ (b₁.net.arpArpin_frameReady b₁.arp)
        (Stack.arpArpin_valid hled.ready.own.ethaddr hpos)
    · exact hb₂
  · exact h

theorem loop_orderly (h : b.Orderly) {packet : Packet} (hpacket : packet.Framed) :
    (b.loop P packet).Orderly := by
  cases hlost : b.net.lost with
  | true => rwa [loop_of_lost P hlost]
  | false =>
  have hread : (b.networkRead packet).Orderly :=
    ⟨⟨h.ready.passive, ⟨h.ready.own.conns, h.ready.own.ethaddr⟩, h.ready.flags, h.ready.arp⟩,
      h.small, h.sent⟩
  have hperiodic := (expired_aside (b.networkRead packet).periodicTimer _).orderly hread
  have hdhcp := (expired_aside
    ((b.networkRead packet).expired (b.networkRead packet).periodicTimer).2.net.app.dhcpTimer
      _).orderly hperiodic
  rcases loop_cases P hlost packet with ⟨hlen, h⟩ | ⟨-, -, h⟩ | ⟨-, -, -, h⟩ | ⟨-, -, -, h⟩
  · rw [h]
    have hlength : packet.bytes.length ≤ 1024 := packet.length_le
    have hmod : (b.networkRead packet).net.len.toNat = packet.bytes.length :=
      Nat.mod_eq_of_lt (show packet.bytes.length < 65536 by omega)
    have h14 : (14 : UInt16).toNat = 14 := rfl
    have h1024 : (1024 : UInt16).toNat = 1024 := rfl
    have hge : 14 ≤ packet.bytes.length := by
      refine hpacket.resolve_left fun hnil => ?_
      rw [UInt16.lt_iff_toNat_lt, hmod, hnil] at hlen
      exact absurd hlen (Nat.lt_irrefl 0)
    refine input_orderly hread ?_ ?_
    · rwa [UInt16.le_iff_toNat_le, hmod, h14]
    · rwa [UInt16.le_iff_toNat_le, hmod, h1024]
  · rw [h]
    exact periodic_orderly hperiodic
  · rw [h]
    exact renew_orderly hdhcp hlost
  · rw [h]
    exact hdhcp

theorem init_orderly (null : Nat) {mac : List UInt8} (hmac : mac.length = 6)
    (clock : Nat → UInt16) (shell : σ) : (init (K := K) null mac hmac clock shell).Orderly := by
  refine ⟨init_ready null hmac clock shell, fun c => ?_, fun f hf => by cases hf⟩
  have hzero : (0 : UInt16) ≤ 970 := by decide
  exact ⟨hzero, hzero, hzero⟩

/-- In every run of the main loop in which the packets have an Ethernet header, the frames that the
board sends are valid. -/
theorem frames_valid (P : Project K σ) (null : Nat) (mac : List UInt8) (hmac : mac.length = 6)
    (clock : Nat → UInt16) (shell : σ) (packets : List Packet)
    (hpackets : ∀ packet ∈ packets, packet.Framed) :
    ∀ f ∈ (run (loop P) (.init null mac hmac clock shell) packets).sent, f.Valid := by
  have halong : Along (loop P) (fun _ packet => packet.Framed) (.init null mac hmac clock shell)
      packets := along_of_forall (fun packet hp _ => hpackets packet hp) _
  have hrun := halong.invariant (P := Orderly) (fun _ _ h hs => loop_orderly h hs)
    (init_orderly null hmac clock shell)
  exact hrun.sent

/-- The answer to a SYN. -/
theorem frames_valid_syn :
    let b : Board Telnetd.conf Unit :=
      run (loop openplc) (.init 0 (List.replicate 6 0) rfl (fun _ => 0) ())
        [.ofBytes synFrame (by decide)]
    b.sent ≠ [] ∧ ∀ f ∈ b.sent, f.Valid :=
  ⟨by decide +kernel, frames_valid openplc 0 (List.replicate 6 0) rfl (fun _ => 0) ()
    [.ofBytes synFrame (by decide)] (by simp [Packet.Framed, Packet.ofBytes, synFrame])⟩

end Board

end OpenPLC
