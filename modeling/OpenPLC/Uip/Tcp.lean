import OpenPLC.Uip.Output

/-! TCP input in `uip_process`: the segment for a connection from label `found` on, a new connection
from label `found_listen` on, and the reset.  `UIP_APPCALL` and `UIP_UDP_APPCALL` divide
`uip_process` in two parts: an `Outcome` is the end of the first one, and `Outcome.run` is the
second one. -/

namespace OpenPLC

open Lib

/-- `uip_outstanding`. -/
abbrev Conn.Outstanding (k : Conn) : Prop := k.len ≠ 0

namespace Stack

variable {α : Type*}

/-- `BUF->flags`. -/
def tcpFlags (w : Stack α) : UInt8 := w.buf 47

/-- A bit of `BUF->flags` is set. -/
abbrev HasFlag (w : Stack α) (bit : UInt8) : Prop := w.tcpFlags &&& bit ≠ 0

/-- `BUF->flags = v`. -/
def putFlags (w : Stack α) (v : UInt8) : Stack α := w.put 47 [v]

/-- `uip_add_rcv_nxt`. -/
def addRcvNxt (w : Stack α) (c : ConnId) (n : UInt16) : Stack α :=
  w.modConn c fun k => { k with rcvNxt := k.rcvNxt.add n }

/-- `BUF->urgp`. -/
def urgp (w : Stack α) : UInt16 := ((w.buf 52).toUInt16 <<< 8) ||| (w.buf 53).toUInt16

/-- `BUF->wnd`. -/
def wnd (w : Stack α) : UInt16 := ((w.buf 48).toUInt16 <<< 8) + (w.buf 49).toUInt16

/-- The SYN and its acknowledgment in one segment. -/
def IsSynAck (w : Stack α) : Prop := w.tcpFlags &&& 0x3f = 0x12

instance (w : Stack α) : Decidable w.IsSynAck := inferInstanceAs (Decidable (_ = _))

/-! ### Output -/

/-- Label `apprexmit`.  `again` tells the recorded event whether the bytes were in flight before. -/
def apprexmit (c : ConnId) (again : Bool) (w : Stack α) : Stack α :=
  let w := { w with appdata := w.sappdata }
  let len := (w.conns c).len
  if 0 < w.slen ∧ 0 < len then
    let w := ({ w with len := len + 40 }.putFlags 0x18).goto (.tcpSendNoopts c)
    w.emit (.sent c again (w.buf.read w.appdata len.toNat))
  else if w.flags.newdata then
    ({ w with len := 40 }.putFlags 0x10).goto (.tcpSendNoopts c)
  else w.goto .drop

/-- The length of the data that label `appsend` takes from the application: what is in flight is
sent again, and new data is cut at the MSS. -/
def appsendLen (c : ConnId) (w : Stack α) : Stack α :=
  if 0 < w.slen then
    let w := if w.flags.ackdata then w.modConn c fun k => { k with len := 0 } else w
    if (w.conns c).len = 0 then
      let w := if w.slen > (w.conns c).mss then { w with slen := (w.conns c).mss } else w
      w.modConn c fun k => { k with len := w.slen }
    else { w with slen := (w.conns c).len }
  else w

/-- Label `appsend`. -/
def appsend (c : ConnId) (w : Stack α) : Stack α :=
  if w.flags.abort then
    let w := { w with slen := 0 }.setState c .closed
    (w.putFlags 0x14).goto (.tcpSendNodata c)
  else if w.flags.close then
    let w := { w with slen := 0 }.modConn c fun k =>
      { k with len := 1, tcpstateflags := ⟨.finWait1, false⟩, nrtx := 0 }
    (w.putFlags 0x11).goto (.tcpSendNodata c)
  else
    let again := decide ((w.conns c).len ≠ 0) && !w.flags.ackdata
    let w := appsendLen c w
    apprexmit c again (w.modConn c fun k => { k with nrtx := 0 })

/-- Label `tcp_send_syn`. -/
def tcpSendSyn (c : ConnId) (w : Stack α) : Stack α :=
  let w := (w.putFlags (w.tcpFlags ||| 0x02)).put 54 (2 :: 4 :: tcpMssBytes)
  ({ w with len := 44 }.put 46 [0x60]).goto (.tcpSend c)

/-- Label `tcp_send_synack`. -/
def tcpSendSynack (c : ConnId) (w : Stack α) : Stack α := tcpSendSyn c (w.putFlags 0x10)

/-- Label `reset`. -/
def reset (w : Stack α) : Stack α :=
  if w.HasFlag 0x04 then w.goto .drop
  else
    let w := ({ w with len := 40 }.putFlags 0x14).put 46 [0x50]
    let seqno := Quad.load w.buf 38
    let ackno := Quad.load w.buf 42
    let w := (w.put 38 ackno.bytes).put 42 seqno.succ.bytes
    let ports := w.buf.read 34 4
    let w := w.put 34 (ports.drop 2 ++ ports.take 2)
    let src := IpAddr.load w.buf 26
    ((w.put 30 src.bytes).put 26 w.hostaddr.bytes).goto .tcpSendNoconn

/-! ### A segment for a connection -/

/-- Round-trip time estimation.  The bytes `sa`, `sv`, and `m` are signed or unsigned as in C. -/
def rttUpdate (k : Conn) : Conn :=
  let m := k.rto - k.timer
  let m := m - (k.sa >>> 3)
  let sa := k.sa + m
  let m := if m ≥ 128 then 0 - m else m
  let m := m - (k.sv >>> 2)
  let sv := k.sv + m
  { k with sa, sv, rto := (sa >>> 3) + sv }

/-- The segment acknowledges the outstanding data of connection `c`. -/
def AcksOutstanding (w : Stack α) (c : ConnId) : Prop :=
  w.HasFlag 0x10 ∧ (w.conns c).Outstanding ∧
    Quad.load w.buf 42 = (w.conns c).sndNxt.add (w.conns c).len

instance (w : Stack α) (c : ConnId) : Decidable (w.AcksOutstanding c) :=
  inferInstanceAs (Decidable (_ ∧ _ ∧ _))

/-- Take the acknowledgment of outstanding data. -/
def ackInput (c : ConnId) (w : Stack α) : Stack α :=
  if w.AcksOutstanding c then
    let w := w.emit (.ackd c (w.conns c).len)
    let w := w.modConn c fun k =>
      let k := { k with sndNxt := k.sndNxt.add k.len }
      let k := if k.nrtx = 0 then rttUpdate k else k
      { k with timer := k.rto, len := 0 }
    { w with flags := { ackdata := true } }
  else w

/-- The segment has data or a SYN or FIN, and is not the next one that connection `c` expects. -/
def OutOfOrder (w : Stack α) (c : ConnId) : Prop :=
  ¬((w.conns c).tcpstateflags.ts = .synSent ∧ w.IsSynAck) ∧
    (0 < w.len ∨ w.HasFlag 0x03) ∧ Quad.load w.buf 38 ≠ (w.conns c).rcvNxt

instance (w : Stack α) (c : ConnId) : Decidable (w.OutOfOrder c) :=
  inferInstanceAs (Decidable (_ ∧ _ ∧ _))

/-- The options of a SYN, up to `limit` bytes of them: the MSS option if there is one.  The loop
ends within 256 steps or never, for its counter is a byte. -/
def mssOption (b : Mem) (limit : Nat) : Nat → UInt8 → Option (Option UInt16)
  | 0, _ => none
  | fuel + 1, c =>
    let at' i := b (54 + i + c.toNat)
    if c.toNat < limit then
      if at' 0 = 0 then some none
      else if at' 0 = 1 then mssOption b limit fuel (c + 1)
      else if at' 0 = 2 ∧ at' 1 = 4 then
        some (some (((at' 2).toUInt16 <<< 8) ||| (at' 3).toUInt16))
      else if at' 1 = 0 then some none
      else mssOption b limit fuel (c + at' 1)
    else some none

/-- Parse the MSS option, if present. -/
def parseMss (c : ConnId) (w : Stack α) : Stack α :=
  if w.buf 46 &&& 0xf0 > 0x50 then
    match mssOption w.buf (((w.buf 46 >>> 4).toNat - 5) * 4) 256 0 with
    | none => { w with lost := true }
    | some none => w
    | some (some v) =>
      let mss := if v > tcpMss then tcpMss else v
      w.modConn c fun k => { k with initialmss := mss, mss }
  else w

/-- Where `uip_process` goes on after a call of the application: at label `appsend` or `apprexmit`,
with the answer to a FIN, to a refused SYN, or to a timeout, or with a jump. -/
inductive After
  | appsend | apprexmit | lastAck | refused | timedout
  | goto (l : Label)
deriving DecidableEq

/-- `uip_process` up to its call of an application: it ends without one, or calls the application of
TCP connection `c` or of UDP connection `u`. -/
inductive Outcome (α : Type*)
  | done (w : Stack α)
  | call (c : ConnId) (w : Stack α) (after : After)
  | udpCall (u : UdpId) (w : Stack α)

section Input

variable (c : ConnId)

/-- `uip_process` from the return of the application of connection `c` on. -/
def After.run (w : Stack α) : After → Stack α
  | .appsend => Stack.appsend c w
  | .apprexmit => Stack.apprexmit c true w
  | .lastAck =>
    let w := w.modConn c fun k => { k with len := 1, tcpstateflags := ⟨.lastAck, false⟩, nrtx := 0 }
    (w.putFlags 0x11).goto (.tcpSendNodata c)
  | .refused => reset (w.setState c .closed)
  | .timedout => (w.putFlags 0x14).goto (.tcpSendNodata c)
  | .goto l => w.goto l

/-- Case `UIP_SYN_RCVD`. -/
def synRcvd (w : Stack α) : Outcome α :=
  if w.flags.ackdata then
    let w := w.modConn c fun k => { k with tcpstateflags := ⟨.established, false⟩, len := 0 }
    let w := { w with flags := { connected := true } }
    let w :=
      if 0 < w.len then { w with flags.newdata := true }.addRcvNxt c w.len
      else w
    .call c { w with slen := 0 } .appsend
  else .done (w.goto .drop)

/-- Case `UIP_SYN_SENT`. -/
def synSent (w : Stack α) : Outcome α :=
  if w.flags.ackdata ∧ w.IsSynAck then
    let w := parseMss c w
    if w.lost then .done (w.goto .drop)
    else
      let w := w.modConn c fun k =>
        { k with
          tcpstateflags := ⟨.established, false⟩, rcvNxt := (Quad.load w.buf 38).add 1, len := 0 }
      .call c { w with flags := { connected := true, newdata := true }, len := 0, slen := 0 }
        .appsend
  else .call c { w with flags := { abort := true } } .refused

/-- A FIN in state `UIP_ESTABLISHED`. -/
def establishedFin (w : Stack α) : Outcome α :=
  if (w.conns c).Outstanding then .done (w.goto .drop)
  else
    let w := w.addRcvNxt c (1 + w.len)
    let w := { w with flags.close := true, flags.newdata := w.flags.newdata || decide (0 < w.len) }
    .call c w .lastAck

/-- The URG flag moves `uip_appdata`, a 16-bit pointer, over the urgent data. -/
def skipUrgent (w : Stack α) : Stack α :=
  if w.HasFlag 0x20 then
    { w with appdata := (w.appdata + w.urgp.toNat) % 65536, len := w.len - w.urgp }
  else w

/-- The new data of a segment is accepted unless the flow is stopped. -/
def acceptData (w : Stack α) : Stack α :=
  if 0 < w.len ∧ (w.conns c).tcpstateflags.stopped = false then
    { w with flags.newdata := true }.addRcvNxt c w.len
  else w

/-- The current MSS is at most the window of the segment. -/
def updateMss (w : Stack α) : Stack α :=
  w.modConn c fun k =>
    { k with mss := if w.wnd > k.initialmss ∨ w.wnd = 0 then k.initialmss else w.wnd }

/-- The part of case `UIP_ESTABLISHED` before the call of the application. -/
def establishedData (w : Stack α) : Stack α := updateMss c (acceptData c (skipUrgent w))

/-- Case `UIP_ESTABLISHED`. -/
def established (w : Stack α) : Outcome α :=
  if w.HasFlag 0x01 ∧ (w.conns c).tcpstateflags.stopped = false then establishedFin c w
  else
    let w := establishedData c w
    if w.flags.newdata ∨ w.flags.ackdata then .call c { w with slen := 0 } .appsend
    else .done (w.goto .drop)

/-- Case `UIP_LAST_ACK`. -/
def lastAck (w : Stack α) : Outcome α :=
  if w.flags.ackdata then
    .call c { w.setState c .closed with flags := { close := true } } (.goto .drop)
  else .done (w.goto .drop)

/-- Data that arrives after the close is skipped. -/
def skipData (w : Stack α) : Stack α := if 0 < w.len then w.addRcvNxt c w.len else w

/-- Case `UIP_FIN_WAIT_1`. -/
def finWait1 (w : Stack α) : Outcome α :=
  let w := skipData c w
  if w.HasFlag 0x01 then
    let w :=
      if w.flags.ackdata then
        (w.setState c .timeWait).modConn c fun k => { k with timer := 0, len := 0 }
      else w.setState c .closing
    let w := w.addRcvNxt c 1
    .call c { w with flags := { close := true } } (.goto (.tcpSendAck c))
  else if w.flags.ackdata then
    .done (((w.setState c .finWait2).modConn c fun k => { k with len := 0 }).goto .drop)
  else if 0 < w.len then .done (w.goto (.tcpSendAck c))
  else .done (w.goto .drop)

/-- Case `UIP_FIN_WAIT_2`. -/
def finWait2 (w : Stack α) : Outcome α :=
  let w := skipData c w
  if w.HasFlag 0x01 then
    let w := (w.setState c .timeWait).modConn c fun k => { k with timer := 0 }
    let w := w.addRcvNxt c 1
    .call c { w with flags := { close := true } } (.goto (.tcpSendAck c))
  else if 0 < w.len then .done (w.goto (.tcpSendAck c))
  else .done (w.goto .drop)

/-- Case `UIP_CLOSING`. -/
def closing (w : Stack α) : Stack α :=
  if w.flags.ackdata then
    ((w.setState c .timeWait).modConn c fun k => { k with timer := 0 }).goto .drop
  else w.goto .drop

/-- The switch over the state of the connection. -/
def tcpState (w : Stack α) : Outcome α :=
  match (w.conns c).tcpstateflags.ts with
  | .synRcvd => synRcvd c w
  | .synSent => synSent c w
  | .established => established c w
  | .lastAck => lastAck c w
  | .finWait1 => finWait1 c w
  | .finWait2 => finWait2 c w
  | .timeWait => .done (w.goto (.tcpSendAck c))
  | .closing => .done (closing c w)
  | .closed => .done (w.goto .drop)

/-- `uip_len` without the TCP header and the IP header. -/
def tcpDataLen (w : Stack α) : UInt16 := w.len - ((w.buf 46 >>> 4) <<< 2).toUInt16 - 20

/-- A segment that is not a reset, with `uip_len` the length of its data. -/
def foundSegment (w : Stack α) : Outcome α :=
  if w.OutOfOrder c then .done (w.goto (.tcpSendAck c)) else tcpState c (ackInput c w)

/-- Label `found`. -/
def found (w : Stack α) : Outcome α :=
  let w := { w with conn := some c, flags := {} }
  if w.HasFlag 0x04 then
    .call c { w.setState c .closed with flags := { abort := true } } (.goto .drop)
  else foundSegment c { w with len := w.tcpDataLen }

end Input

/-! ### A new connection -/

/-- The connection for a new peer: the first closed one, or else the oldest in state
`UIP_TIME_WAIT`. -/
def freeConn (conns : ConnId → Conn) : Option ConnId :=
  let closed c := decide ((conns c).tcpstateflags = ⟨.closed, false⟩)
  match (List.finRange 10).find? closed with
  | some c => some c
  | none =>
    (List.finRange 10).foldl
      (fun best c =>
        if (conns c).tcpstateflags = ⟨.timeWait, false⟩ then
          match best with
          | none => some c
          | some b => if (conns c).timer > (conns b).timer then some c else some b
        else best)
      none

/-- The fields of a new connection, from the SYN in `b`. -/
def openConn (b : Mem) (iss : Quad) (k : Conn) : Conn :=
  { k with
    rto := 3, timer := 3, sa := 0, sv := 4, nrtx := 0, lport := b.get16 36, rport := b.get16 34
    ripaddr := IpAddr.load b 26, tcpstateflags := ⟨.synRcvd, false⟩, sndNxt := iss, len := 1
    rcvNxt := (Quad.load b 38).add 1 }

/-- Label `found_listen`. -/
def foundListen (w : Stack α) : Stack α :=
  match freeConn w.conns with
  | none => w.goto .drop
  | some c =>
    let w := { w with conn := some c }.modConn c (openConn w.buf w.iss)
    let w := parseMss c w
    if w.lost then w.goto .drop else tcpSendSynack c w

/-- The segment belongs to connection `c`. -/
def MatchesConn (w : Stack α) (c : ConnId) : Prop :=
  ¬w.Closed c ∧ w.buf.get16 36 = (w.conns c).lport ∧ w.buf.get16 34 = (w.conns c).rport ∧
    IpAddr.load w.buf 26 = (w.conns c).ripaddr

instance (w : Stack α) (c : ConnId) : Decidable (w.MatchesConn c) :=
  inferInstanceAs (Decidable (_ ∧ _ ∧ _ ∧ _))

/-- The connection of the segment. -/
def findConn (w : Stack α) : Option ConnId := (List.finRange 10).find? fun c => w.MatchesConn c

/-- Label `tcp_input`. -/
def tcpInput (w : Stack α) : Outcome α :=
  if tcpchksum w.buf ≠ 0xffff then .done (w.goto .drop)
  else
    match w.findConn with
    | some c => found c w
    | none =>
      .done <|
        if w.tcpFlags &&& 0x3f ≠ 0x02 then reset w
        else if w.buf.get16 36 ∈ w.listenports then foundListen w
        else reset w

end Stack

end OpenPLC
