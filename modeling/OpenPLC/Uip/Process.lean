import OpenPLC.Uip.Reass
import OpenPLC.Uip.Tcp

/-! `uip_process`: IP input, ICMP, UDP, and the timer of a connection. -/

namespace OpenPLC

open Lib

/-- The `flag` argument of `uip_process`, with the connection that the calling macro selects. -/
inductive ProcessFlag
  | data
  | timer (c : ConnId)
  | pollRequest (c : ConnId)
  | udpSendConn (u : UdpId)
  | udpTimer (u : UdpId)
deriving DecidableEq

/-- Where the checks of the IP header send a packet. -/
inductive IpVerdict
  | tcp | udp | icmp | drop
deriving DecidableEq

namespace Stack

variable {α : Type*}

/-! ### ICMP and UDP -/

/-- The answer to an ICMP echo request. -/
def icmpInput (w : Stack α) : Stack α :=
  if w.buf 34 ≠ 8 then w.goto .drop
  else
    let w := w.put 34 [0]
    let chk := w.buf.get16 36
    let chk :=
      if chk ≥ htons (0xffff - 0x800) then chk + (htons 0x800 + 1) else chk + htons 0x800
    let w := w.put 36 (le16 chk)
    let src := IpAddr.load w.buf 26
    ((w.put 30 src.bytes).put 26 w.hostaddr.bytes).goto .send

/-- Label `udp_send`. -/
def udpSend (u : UdpId) (w : Stack α) : Stack α :=
  if w.slen = 0 then w.goto .drop
  else
    let k := w.udpConns u
    let w := { w with len := w.slen + 28 }.putLen
    let w := (w.put 22 [k.ttl]).put 23 [17]
    let w := (w.put 38 (le16 (htons (w.slen + 8)))).put 40 [0, 0]
    let w := (w.put 34 (le16 k.lport)).put 36 (le16 k.rport)
    let w := (w.put 26 w.hostaddr.bytes).put 30 k.ripaddr.bytes
    { w with appdata := 54 }.goto .ipSendNolen

/-- The datagram is for UDP connection `u`. -/
def MatchesUdp (w : Stack α) (u : UdpId) : Prop :=
  let k := w.udpConns u
  k.lport ≠ 0 ∧ w.buf.get16 36 = k.lport ∧ (k.rport = 0 ∨ w.buf.get16 34 = k.rport) ∧
    (k.ripaddr = .zeroes ∨ k.ripaddr = .ones ∨ IpAddr.load w.buf 26 = k.ripaddr)

instance (w : Stack α) (u : UdpId) : Decidable (w.MatchesUdp u) :=
  inferInstanceAs (Decidable (_ ∧ _ ∧ _ ∧ _))

/-- Label `udp_found`. -/
def udpFound (u : UdpId) (w : Stack α) : Outcome α :=
  .udpCall u { w with
    conn := none, flags := { newdata := true }, sappdata := 42, appdata := 42, slen := 0 }

/-- Label `udp_input`. -/
def udpInput (w : Stack α) : Outcome α :=
  let w := { w with len := w.len - 28 }
  match (List.finRange 10).find? fun u => w.MatchesUdp u with
  | some u => udpFound u w
  | none => .done (w.goto .drop)

/-! ### IP input -/

/-- The checks of the version and the length.  Padding after the packet is cut off. -/
def ipLength (w : Stack α) : Option (Stack α) :=
  if w.buf 14 ≠ 0x45 then none
  else if ipLen w.buf ≤ w.len then some { w with len := ipLen w.buf }
  else none

/-- Reassembly of fragments.  Where `uip_reass` writes behind its arrays the code is lost, and
nothing is handed on. -/
def ipFragment (w : Stack α) : Stack α :=
  if w.buf 20 &&& 0x3f ≠ 0 ∨ w.buf 21 ≠ 0 then
    if ReassOverruns w.buf w.reass then { w with len := 0, lost := true }
    else
      let (len, buf, reass) := uipReass w.buf w.reass
      { w with len := len.toUInt16, buf, reass }
  else w

theorem ipFragment_eq (w : Stack α) :
    ∃ len buf reass lost, w.ipFragment = { w with len, buf, reass, lost } := by
  unfold ipFragment
  split
  · split <;> exact ⟨_, _, _, _, rfl⟩
  · exact ⟨_, _, _, _, rfl⟩

/-- Of a fragment with which the code gets lost, nothing is handed on. -/
theorem ipFragment_lost (w : Stack α) : w.ipFragment.lost = w.lost ∨
    w.ipFragment.len = 0 ∧ (w.buf 20 &&& 0x3f ≠ 0 ∨ w.buf 21 ≠ 0) := by
  unfold ipFragment
  split
  · next hfragment =>
    split
    · exact .inr ⟨rfl, hfragment⟩
    · exact .inl rfl
  · exact .inl rfl

/-- The destination, the header checksum, and the protocol of a packet. -/
def ipVerdict (w : Stack α) : IpVerdict :=
  if w.hostaddr ≠ .zeroes ∧ w.buf 23 = 17 ∧ IpAddr.load w.buf 30 = .ones then .udp
  else if w.hostaddr ≠ .zeroes ∧ IpAddr.load w.buf 30 ≠ w.hostaddr then .drop
  else if ipchksum w.buf ≠ 0xffff then .drop
  else if w.buf 23 = 6 then .tcp
  else if w.buf 23 = 17 then .udp
  else if w.buf 23 = 1 then .icmp
  else .drop

/-- The packet as IP input leaves it for the protocols above, with its verdict. -/
def ipInput (w : Stack α) : Stack α × IpVerdict :=
  match w.ipLength with
  | none => (w, .drop)
  | some w' =>
    let w := w'.ipFragment
    if w.len = 0 ∧ (w'.buf 20 &&& 0x3f ≠ 0 ∨ w'.buf 21 ≠ 0) then (w, .drop)
    else (w, w.ipVerdict)

theorem ipLength_eq {w w' : Stack α} (h : w.ipLength = some w') :
    w' = { w with len := ipLen w.buf } := by
  unfold ipLength at h
  split at h
  · cases h
  split at h
  · exact (Option.some.inj h).symm
  · cases h

/-- A packet that is handed on has not got the code lost. -/
theorem ipInput_lost {w : Stack α} (h : w.ipInput.2 ≠ .drop) : w.ipInput.1.lost = w.lost := by
  unfold ipInput at h ⊢
  split at h
  · exact absurd rfl h
  next w' hw' =>
  rw [ipLength_eq hw'] at h ⊢
  dsimp only at h ⊢
  split at h
  · exact absurd rfl h
  next hnot =>
  rw [if_neg hnot]
  exact ({ w with len := ipLen w.buf } : Stack α).ipFragment_lost.resolve_right hnot

/-- `uip_process(UIP_DATA)`. -/
def dataInput (w : Stack α) : Outcome α :=
  match w.ipInput with
  | (w, .tcp) => tcpInput w
  | (w, .udp) => udpInput w
  | (w, .icmp) => .done (icmpInput w)
  | (w, .drop) => .done (w.goto .drop)

/-! ### The timer -/

/-- A connection gives up after `UIP_MAXRTX` retransmissions, or `UIP_MAXSYNRTX` of its SYN. -/
def GivesUp (k : Conn) : Prop :=
  k.nrtx = 8 ∨
    (k.tcpstateflags = ⟨.synSent, false⟩ ∨ k.tcpstateflags = ⟨.synRcvd, false⟩) ∧ k.nrtx = 5

instance (k : Conn) : Decidable (GivesUp k) := inferInstanceAs (Decidable (_ ∨ _ ∧ _))

/-- The retransmission of what connection `c` has outstanding. -/
def rexmit (c : ConnId) (w : Stack α) : Outcome α :=
  let w := w.modConn c fun k =>
    { k with timer := 3 <<< (if k.nrtx > 4 then 4 else k.nrtx), nrtx := k.nrtx + 1 }
  match (w.conns c).tcpstateflags.ts with
  | .synRcvd => .done (tcpSendSynack c w)
  | .synSent => .done (tcpSendSyn c (w.putFlags 0))
  | .established => .call c { w with flags := { rexmit := true } } .apprexmit
  | .finWait1 | .closing | .lastAck => .done ((w.putFlags 0x11).goto (.tcpSendNodata c))
  | _ => .done (w.goto .drop)

/-- Connection `c` is closed after a timeout. -/
def timedout (c : ConnId) (w : Stack α) : Outcome α :=
  .call c { w.setState c .closed with flags := { timedout := true } } .timedout

/-- `uip_process(UIP_TIMER)` after the counters of the stack. -/
def connTimer (c : ConnId) (w : Stack α) : Outcome α :=
  let k := w.conns c
  if k.tcpstateflags = ⟨.timeWait, false⟩ ∨ k.tcpstateflags = ⟨.finWait2, false⟩ then
    let w := w.modConn c fun k => { k with timer := k.timer + 1 }
    if (w.conns c).timer = 120 then .done ((w.setState c .closed).goto .drop)
    else .done (w.goto .drop)
  else if k.tcpstateflags = ⟨.closed, false⟩ then .done (w.goto .drop)
  else if k.Outstanding then
    let w := w.modConn c fun k => { k with timer := k.timer - 1 }
    if k.timer ≠ 0 then .done (w.goto .drop)
    else if GivesUp k then timedout c w
    else rexmit c w
  else if k.tcpstateflags.ts = .established then
    .call c { w with flags := { poll := true } } .appsend
  else .done (w.goto .drop)

/-- The counters of the stack at each call for the timer. -/
def tick (w : Stack α) : Stack α :=
  { w with
    reass := if w.reass.tmr ≠ 0 then { w.reass with tmr := w.reass.tmr - 1 } else w.reass
    iss := w.iss.succ, len := 0, slen := 0 }

/-- The pointers to the data as every call but `UIP_UDP_SEND_CONN` sets them first. -/
def enter (w : Stack α) : Stack α := { w with sappdata := 54, appdata := 54 }

/-- `uip_process` up to its call of an application. -/
def dispatch (w : Stack α) : ProcessFlag → Outcome α
  | .udpSendConn u => .done (udpSend u w)
  | .pollRequest c =>
    let w : Stack α := { w.enter with conn := some c }
    if (w.conns c).tcpstateflags.ts = .established ∧ ¬(w.conns c).Outstanding then
      .call c { w with flags := { poll := true } } .appsend
    else .done (w.goto .drop)
  | .timer c => connTimer c { w.enter with conn := some c }.tick
  | .udpTimer u =>
    let w := w.enter
    if (w.udpConns u).lport ≠ 0 then
      .udpCall u { w with
        conn := none, sappdata := 42, appdata := 42, len := 0, slen := 0,
        flags := { poll := true } }
    else .done (w.goto .drop)
  | .data => dataInput w.enter

/-- `uip_process` up to its call of an application, or nothing once the code is lost. -/
def process (flag : ProcessFlag) (w : Stack α) : Outcome α :=
  if w.lost then .done (w.enter.goto .drop) else w.dispatch flag

theorem process_cases (w : Stack α) (flag : ProcessFlag) :
    w.lost = true ∧ w.process flag = .done (w.enter.goto .drop) ∨
      w.lost = false ∧ w.process flag = w.dispatch flag := by
  unfold process
  cases w.lost <;> simp

/-- `uip_process` from its call of an application on. -/
def Outcome.run (A : Apps α) : Outcome α → Stack α
  | .done w => w
  | .call c w after => after.run c (A.appcall w)
  | .udpCall u w => udpSend u (A.udpAppcall w)

/-- `uip_process` -/
def uipProcess (A : Apps α) (flag : ProcessFlag) (w : Stack α) : Stack α :=
  (w.process flag).run A

end Stack

end OpenPLC
