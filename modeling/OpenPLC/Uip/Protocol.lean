import OpenPLC.Uip.Layout
import OpenPLC.Uip.Transitions

/-! The protocol of the packets that `uip_process` leaves.  Byte 23 of the buffer is the protocol of
the IP header; only a call of a UDP application leaves a UDP datagram. -/

namespace OpenPLC

open Lib

/-- A TCP segment from label `tcp_send_ack` or a later one. -/
def Label.Tcp : Label → Prop
  | .tcpSendAck _ | .tcpSendNodata _ | .tcpSendNoopts _ | .tcpSend _ => True
  | _ => False

/-- The label of a segment, or of the end without a packet. -/
def Label.NoUdp (l : Label) : Prop := l.Tcp ∨ l = .drop

namespace Stack

variable {α : Type*} {w w₁ w' : Stack α} {c : ConnId}

/-- The packet in the buffer is no UDP datagram. -/
def NotUdp (w : Stack α) : Prop := w.len = 0 ∨ w.buf 23 ≠ 17

/-- The UDP connections and the hardware address are the same. -/
structure SameUdp (w w' : Stack α) : Prop where
  udpConns : w'.udpConns = w.udpConns
  ethaddr : w'.ethaddr = w.ethaddr

theorem SameUdp.refl (w : Stack α) : SameUdp w w := ⟨rfl, rfl⟩

theorem SameUdp.trans (h : SameUdp w w₁) (h' : SameUdp w₁ w') : SameUdp w w' :=
  ⟨h'.udpConns.trans h.udpConns, h'.ethaddr.trans h.ethaddr⟩

/-- Before a call of a UDP application the connection is in use, and nothing is to be sent. -/
structure UdpReady (u : UdpId) (w : Stack α) : Prop where
  lport : (w.udpConns u).lport ≠ 0
  appdata : w.appdata = 42
  sappdata : w.sappdata = 42
  slen : w.slen = 0

/-- From `w`, `uip_process` ends without a UDP datagram and without a flag, or calls an
application. -/
def Outcome.Apart (w : Stack α) : Outcome α → Prop
  | .done w' => SameUdp w w' ∧ w'.NotUdp ∧ w'.flags = {}
  | .call _ w' _ => SameUdp w w'
  | .udpCall u w' => SameUdp w w' ∧ w'.UdpReady u ∧ w'.lost = w.lost

theorem Outcome.Apart.of_sameUdp (hs : SameUdp w w₁) (hlost : w₁.lost = w.lost) {o : Outcome α}
    (h : o.Apart w₁) : o.Apart w := by
  cases o with
  | done w' => exact ⟨hs.trans h.1, h.2⟩
  | call c w' after => exact hs.trans h
  | udpCall u w' => exact ⟨hs.trans h.1, h.2.1, h.2.2.trans hlost⟩

/-! ### The end of `uip_process` -/

theorem goto_sameUdp (w : Stack α) (l : Label) : SameUdp w (w.goto l) := by
  cases l <;> exact ⟨rfl, rfl⟩

theorem ipSendNolen_proto (w : Stack α) : w.ipSendNolen.buf 23 = w.buf 23 := by
  simp [ipSendNolen, send, Mem.write, le16]

theorem tcpSendNoconn_proto (w : Stack α) : w.tcpSendNoconn.buf 23 = w.buf 23 := by
  rw [tcpSendNoconn, ipSendNolen_proto]
  simp [put, putLen, Mem.write, le16]

theorem tcpSend_proto (c : ConnId) (w : Stack α) : (tcpSend c w).buf 23 = 6 := by
  simp only [tcpSend, tcpSendNoconn_proto]
  split <;> simp [put, Mem.write, le16, IpAddr.bytes, Quad.bytes]

theorem goto_tcp {l : Label} (h : Label.Tcp l) (w : Stack α) : (w.goto l).NotUdp := by
  refine .inr ?_
  have hproto : (w.goto l).buf 23 = 6 := by
    cases l with
    | tcpSendAck c | tcpSendNodata c | tcpSendNoopts c | tcpSend c => exact tcpSend_proto c _
    | _ => exact h.elim
  rw [hproto]
  decide

theorem goto_drop (w : Stack α) : (w.goto .drop).NotUdp := .inl rfl

theorem apart_drop (h : SameUdp w w') : Outcome.Apart w (.done (w'.goto .drop)) :=
  ⟨h.trans (goto_sameUdp ..), goto_drop w', goto_flags ..⟩

theorem apart_tcp (l : Label) (h : SameUdp w w') (hl : l.Tcp := by trivial) :
    Outcome.Apart w (.done (w'.goto l)) :=
  ⟨h.trans (goto_sameUdp ..), goto_tcp hl w', goto_flags ..⟩

theorem tcpSendSyn_apart (c : ConnId) (h : SameUdp w w') :
    Outcome.Apart w (.done (tcpSendSyn c w')) := by
  simp only [tcpSendSyn]
  refine apart_tcp (.tcpSend c) (h.trans ?_)
  exact ⟨rfl, rfl⟩

/-- The reset keeps the protocol of the packet that it answers. -/
theorem reset_apart (h : w.buf 23 ≠ 17) : Outcome.Apart w (.done (reset w)) := by
  simp only [reset]
  split
  · exact apart_drop (.refl w)
  · refine ⟨⟨rfl, rfl⟩, .inr ?_, goto_flags ..⟩
    simpa [goto, tcpSendNoconn_proto, put, putFlags, Mem.write, le16, IpAddr.bytes, Quad.bytes]
      using h

/-! ### TCP -/

theorem synRcvd_apart (c : ConnId) (w : Stack α) : (synRcvd c w).Apart w := by
  simp only [synRcvd]
  split
  · split <;> exact ⟨rfl, rfl⟩
  · exact apart_drop (.refl w)

theorem parseMss_sameUdp (c : ConnId) (w : Stack α) : SameUdp w (parseMss c w) := by
  simp only [parseMss]
  split
  · split <;> exact ⟨rfl, rfl⟩
  · exact .refl w

theorem synSent_apart (c : ConnId) (w : Stack α) : (synSent c w).Apart w := by
  have h := parseMss_sameUdp c w
  simp only [synSent]
  split
  · split
    · exact apart_drop h
    · exact h.trans ⟨rfl, rfl⟩
  · exact ⟨rfl, rfl⟩

theorem established_apart (c : ConnId) (w : Stack α) : (established c w).Apart w := by
  have hdata : SameUdp w (establishedData c w) := by
    simp only [establishedData, updateMss, acceptData, skipUrgent]
    split <;> split <;> exact ⟨rfl, rfl⟩
  simp only [established, establishedFin]
  split
  · split
    · exact apart_drop (.refl w)
    · exact ⟨rfl, rfl⟩
  · split
    · exact hdata.trans ⟨rfl, rfl⟩
    · exact apart_drop hdata

theorem lastAck_apart (c : ConnId) (w : Stack α) : (lastAck c w).Apart w := by
  simp only [lastAck]
  split
  · exact ⟨rfl, rfl⟩
  · exact apart_drop (.refl w)

theorem skipData_sameUdp (c : ConnId) (w : Stack α) : SameUdp w (skipData c w) := by
  simp only [skipData]
  split <;> exact ⟨rfl, rfl⟩

theorem finWait1_apart (c : ConnId) (w : Stack α) : (finWait1 c w).Apart w := by
  have h := skipData_sameUdp c w
  simp only [finWait1]
  split
  · split <;> exact h.trans ⟨rfl, rfl⟩
  split
  · exact apart_drop (h.trans ⟨rfl, rfl⟩)
  split
  · exact apart_tcp (.tcpSendAck c) h
  · exact apart_drop h

theorem finWait2_apart (c : ConnId) (w : Stack α) : (finWait2 c w).Apart w := by
  have h := skipData_sameUdp c w
  simp only [finWait2]
  split
  · exact h.trans ⟨rfl, rfl⟩
  split
  · exact apart_tcp (.tcpSendAck c) h
  · exact apart_drop h

theorem closing_apart (c : ConnId) (w : Stack α) : Outcome.Apart w (.done (closing c w)) := by
  simp only [closing]
  split
  · exact apart_drop ⟨rfl, rfl⟩
  · exact apart_drop (.refl w)

theorem tcpState_apart (c : ConnId) (w : Stack α) : (tcpState c w).Apart w := by
  simp only [tcpState]
  split
  · exact synRcvd_apart c w
  · exact synSent_apart c w
  · exact established_apart c w
  · exact lastAck_apart c w
  · exact finWait1_apart c w
  · exact finWait2_apart c w
  · exact apart_tcp (.tcpSendAck c) (.refl w)
  · exact closing_apart c w
  · exact apart_drop (.refl w)

theorem foundListen_apart (w : Stack α) : Outcome.Apart w (.done (foundListen w)) := by
  simp only [foundListen]
  split
  · exact apart_drop (.refl w)
  · next c _ =>
    have hopen : SameUdp w ({ w with conn := some c }.modConn c (openConn w.buf w.iss)) :=
      ⟨rfl, rfl⟩
    have hmss := hopen.trans (parseMss_sameUdp c _)
    split
    · exact apart_drop hmss
    · exact tcpSendSyn_apart c (hmss.trans ⟨rfl, rfl⟩)

theorem tcpInput_apart (h : w.buf 23 ≠ 17) : (tcpInput w).Apart w := by
  simp only [tcpInput]
  split
  · exact apart_drop (.refl w)
  split
  · next c _ =>
    simp only [found, foundSegment]
    split
    · exact ⟨rfl, rfl⟩
    split
    · exact apart_tcp (.tcpSendAck c) ⟨rfl, rfl⟩
    · have hack (w : Stack α) : SameUdp w (ackInput c w) ∧ (ackInput c w).lost = w.lost := by
        simp only [ackInput]
        split <;> exact ⟨⟨rfl, rfl⟩, rfl⟩
      have hlen := hack { w with conn := some c, flags := {}, len := w.tcpDataLen }
      have hsame : SameUdp w { w with conn := some c, flags := {}, len := w.tcpDataLen } :=
        ⟨rfl, rfl⟩
      exact .of_sameUdp (hsame.trans hlen.1) hlen.2 (tcpState_apart c _)
  · split
    · exact reset_apart h
    split
    · exact foundListen_apart w
    · exact reset_apart h

/-! ### The other packets -/

theorem icmpInput_apart (h : w.buf 23 ≠ 17) : Outcome.Apart w (.done (icmpInput w)) := by
  simp only [icmpInput]
  split
  · exact apart_drop (.refl w)
  · refine ⟨⟨rfl, rfl⟩, .inr ?_, goto_flags ..⟩
    simpa [goto, send, put, Mem.write, le16, IpAddr.bytes] using h

theorem udpInput_apart (w : Stack α) : (udpInput w).Apart w := by
  simp only [udpInput]
  split
  · next u hu =>
    have hmatch : MatchesUdp { w with len := w.len - 28 } u := by simpa using List.find?_some hu
    exact ⟨⟨rfl, rfl⟩, ⟨hmatch.1, rfl, rfl, rfl⟩, rfl⟩
  · exact apart_drop ⟨rfl, rfl⟩

theorem ipVerdict_proto (w : Stack α) (h : w.ipVerdict = .tcp ∨ w.ipVerdict = .icmp) :
    w.buf 23 ≠ 17 := by
  intro hproto
  simp only [ipVerdict, hproto, show ¬(17 : UInt8) = 6 by decide, ↓reduceIte] at h
  split_ifs at h <;> simp at h

theorem ipInput_sameUdp (w : Stack α) : SameUdp w w.ipInput.1 ∧
    (w.ipInput.2 = .tcp ∨ w.ipInput.2 = .icmp → w.ipInput.1.buf 23 ≠ 17) := by
  have hlength : ∀ w' ∈ w.ipLength, SameUdp w w' := by
    intro w' hw'
    rw [ipLength_eq hw']
    exact ⟨rfl, rfl⟩
  simp only [ipInput]
  split
  · exact ⟨.refl w, by simp⟩
  · next w₁ hw₁ =>
    have hfragment : SameUdp w₁ w₁.ipFragment := by
      obtain ⟨len, buf, reass, lost, h⟩ := w₁.ipFragment_eq
      rw [h]
      exact ⟨rfl, rfl⟩
    have h := (hlength w₁ hw₁).trans hfragment
    split
    · exact ⟨h, by simp⟩
    · exact ⟨h, ipVerdict_proto _⟩

theorem dataInput_apart (w : Stack α) : (dataInput w).Apart w := by
  obtain ⟨hsame, hproto⟩ := w.ipInput_sameUdp
  have hlost := w.ipInput_lost
  simp only [dataInput]
  split
  · next w₁ heq =>
    rw [heq] at hsame hproto hlost
    exact .of_sameUdp hsame (hlost (by simp)) (tcpInput_apart (hproto (.inl rfl)))
  · next w₁ heq =>
    rw [heq] at hsame hlost
    exact .of_sameUdp hsame (hlost (by simp)) (udpInput_apart w₁)
  · next w₁ heq =>
    rw [heq] at hsame hproto hlost
    exact .of_sameUdp hsame (hlost (by simp)) (icmpInput_apart (hproto (.inr rfl)))
  · next w₁ heq =>
    rw [heq] at hsame
    exact apart_drop hsame

theorem rexmit_apart (c : ConnId) (w : Stack α) : (rexmit c w).Apart w := by
  simp only [rexmit]
  split
  · exact tcpSendSyn_apart c ⟨rfl, rfl⟩
  · exact tcpSendSyn_apart c ⟨rfl, rfl⟩
  · exact ⟨rfl, rfl⟩
  · exact apart_tcp (.tcpSendNodata c) ⟨rfl, rfl⟩
  · exact apart_tcp (.tcpSendNodata c) ⟨rfl, rfl⟩
  · exact apart_tcp (.tcpSendNodata c) ⟨rfl, rfl⟩
  · exact apart_drop ⟨rfl, rfl⟩

theorem connTimer_apart (c : ConnId) (w : Stack α) : (connTimer c w).Apart w := by
  simp only [connTimer]
  split
  · split <;> exact apart_drop ⟨rfl, rfl⟩
  split
  · exact apart_drop (.refl w)
  split
  · split
    · exact apart_drop ⟨rfl, rfl⟩
    split
    · exact ⟨rfl, rfl⟩
    · refine .of_sameUdp ?_ ?_ (rexmit_apart c _)
      · exact ⟨rfl, rfl⟩
      · rfl
  · split
    · exact ⟨rfl, rfl⟩
    · exact apart_drop (.refl w)

theorem dispatch_apart (w : Stack α) {flag : ProcessFlag} (h : ∀ u, flag ≠ .udpSendConn u) :
    (w.dispatch flag).Apart w := by
  have henter : SameUdp w w.enter := ⟨rfl, rfl⟩
  cases flag with
  | data => exact .of_sameUdp henter rfl (dataInput_apart w.enter)
  | timer c =>
    refine .of_sameUdp ?_ ?_ (connTimer_apart c { w.enter with conn := some c }.tick)
    · exact ⟨rfl, rfl⟩
    · rfl
  | pollRequest c =>
    simp only [dispatch]
    split
    · exact ⟨rfl, rfl⟩
    · exact apart_drop ⟨rfl, rfl⟩
  | udpSendConn u => exact absurd rfl (h u)
  | udpTimer u =>
    simp only [dispatch]
    split
    · next hlport => exact ⟨⟨rfl, rfl⟩, ⟨hlport, rfl, rfl, rfl⟩, rfl⟩
    · exact apart_drop ⟨rfl, rfl⟩

/-- No call of `uip_process` but for `UIP_UDP_SEND_CONN` builds a UDP datagram before it calls the
application. -/
theorem process_apart (w : Stack α) {flag : ProcessFlag} (h : ∀ u, flag ≠ .udpSendConn u) :
    (w.process flag).Apart w := by
  rcases process_cases w flag with ⟨-, hprocess⟩ | ⟨-, hprocess⟩
  · rw [hprocess]
    exact apart_drop ⟨rfl, rfl⟩
  · rw [hprocess]
    exact dispatch_apart w h

/-! ### After the call -/

/-- The answer after a call of the application is a segment, or none. -/
def After.NoUdp : After → Prop
  | .refused => False
  | .goto l => l.NoUdp
  | _ => True

theorem Transition.noUdp {due : Prop} {ts ts' : TcpState} {n n' : UInt16} {acked : Bool}
    {flags : Flags} {after : After} (h : Transition due ts n acked (some (flags, after)) ts' n') :
    after.NoUdp := by
  cases h with
  | peerFin c => exact .inl trivial
  | lastAck | reset => exact .inr rfl
  | _ => trivial

theorem emit_apart (h : Outcome.Apart w (.done w')) (e : WireEvent) :
    Outcome.Apart w (.done (w'.emit e)) := ⟨⟨h.1.udpConns, h.1.ethaddr⟩, h.2⟩

theorem apprexmit_apart (c : ConnId) (again : Bool) (h : SameUdp w w') :
    Outcome.Apart w (.done (apprexmit c again w')) := by
  simp only [apprexmit]
  split
  · refine emit_apart ?_ _
    refine apart_tcp (.tcpSendNoopts c) ?_
    exact h.trans ⟨rfl, rfl⟩
  split
  · exact apart_tcp (.tcpSendNoopts c) (h.trans ⟨rfl, rfl⟩)
  · exact apart_drop (h.trans ⟨rfl, rfl⟩)

theorem appsend_apart (c : ConnId) (w : Stack α) : Outcome.Apart w (.done (appsend c w)) := by
  simp only [appsend]
  split
  · exact apart_tcp (.tcpSendNodata c) ⟨rfl, rfl⟩
  split
  · exact apart_tcp (.tcpSendNodata c) ⟨rfl, rfl⟩
  · have hlen : SameUdp w (appsendLen c w) := by
      simp only [appsendLen]
      split
      · split <;> split <;> (try split) <;> exact ⟨rfl, rfl⟩
      · exact .refl w
    exact apprexmit_apart c _ (hlen.trans ⟨rfl, rfl⟩)

theorem After.run_apart (c : ConnId) (w : Stack α) {after : After} (h : after.NoUdp) :
    Outcome.Apart w (.done (after.run c w)) := by
  cases after with
  | appsend => exact appsend_apart c w
  | apprexmit => exact apprexmit_apart c true (.refl w)
  | lastAck => exact apart_tcp (.tcpSendNodata c) ⟨rfl, rfl⟩
  | refused => exact h.elim
  | timedout => exact apart_tcp (.tcpSendNodata c) ⟨rfl, rfl⟩
  | goto l =>
    rcases h with h | rfl
    · exact apart_tcp l (.refl w) h
    · exact apart_drop (.refl w)

theorem timer_ne_udpCall (w : Stack α) (c : ConnId) (u : UdpId) (w' : Stack α) :
    w.process (.timer c) ≠ .udpCall u w' := by
  have hrexmit (w : Stack α) : rexmit c w ≠ .udpCall u w' := by
    simp only [rexmit]
    split <;> simp
  rcases process_cases w (.timer c) with ⟨-, hprocess⟩ | ⟨-, hprocess⟩
  · simp [hprocess]
  simp only [hprocess, dispatch, connTimer]
  split
  · split <;> simp
  split
  · simp
  split
  · split
    · simp
    split
    · simp [timedout]
    · exact hrexmit _
  · split <;> simp

/-! ### The datagram -/

theorem ipSendNolen_read (w : Stack α) {a : Nat} (h : 26 ≤ a) (n : Nat) :
    w.ipSendNolen.buf.read a n = w.buf.read a n := by
  have hread (m : Mem) (b : Nat) (bs : List UInt8) (hb : b + bs.length ≤ 26) :
      (m.write b bs).read a n = m.read a n := Mem.read_write_of_ge (by omega)
  simp [ipSendNolen, send, hread, le16]

/-- The datagram that the stack sends for a UDP connection. -/
theorem udpSend_datagram (u : UdpId) (h : w.slen ≠ 0) :
    let w' := udpSend u w
    SameUdp w w' ∧ w'.flags = {} ∧ w'.lost = w.lost ∧ w'.len = w.slen + 28 ∧ w'.appdata = 54 ∧
      w'.buf 23 = 17 ∧
      w'.buf.read 30 8 = (w.udpConns u).ripaddr.bytes ++ le16 (w.udpConns u).lport ++
        le16 (w.udpConns u).rport ∧
      ∀ n, w'.buf.read 42 n = w.buf.read 42 n := by
  have hread (m : Mem) (a n : Nat) (bs : List UInt8) (h : a + bs.length ≤ 42) :
      (m.write a bs).read 42 n = m.read 42 n := Mem.read_write_of_ge h
  simp only [udpSend, if_neg h, goto]
  refine ⟨⟨rfl, rfl⟩, rfl, rfl, rfl, rfl, ?_, ?_, fun n => ?_⟩
  · rw [ipSendNolen_proto]
    simp [put, Mem.write, le16, IpAddr.bytes]
  · rw [ipSendNolen_read _ (by decide)]
    simp [put, putLen, Mem.read, Mem.write, List.range_succ, le16, IpAddr.bytes]
  · rw [ipSendNolen_read _ (by decide)]
    simp [put, putLen, hread, le16, IpAddr.bytes]

end Stack

end OpenPLC
