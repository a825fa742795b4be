import OpenPLC.Uip.Checksum

/-! The end of `uip_process`, from label `tcp_send_ack` on: it fills in the headers of the packet in
`uip_buf`, or drops the packet. -/

namespace OpenPLC

open Lib

/-- The labels at the end of `uip_process`.  The TCP labels carry `uip_connr`. -/
inductive Label
  | tcpSendAck (c : ConnId)
  | tcpSendNodata (c : ConnId)
  | tcpSendNoopts (c : ConnId)
  | tcpSend (c : ConnId)
  | tcpSendNoconn
  | ipSendNolen
  | send
  | drop
deriving DecidableEq

/-- The length of the packet after a jump to the label with `uip_len`. -/
def Label.length : Label → UInt16 → UInt16
  | .tcpSendAck _, _ | .tcpSendNodata _, _ => 40
  | .drop, _ => 0
  | _, len => len

namespace Stack

variable {α : Type*}

def send (w : Stack α) : Stack α := { w with flags := {} }

def drop (w : Stack α) : Stack α := { w with len := 0, flags := {} }

def ipSendNolen (w : Stack α) : Stack α :=
  let b := w.buf.write 14 [0x45, 0]
  let b := b.write 20 [0, 0]
  let ipid := w.ipid + 1
  let b := b.write 18 [(ipid >>> 8).toUInt8, ipid.toUInt8]
  let b := b.write 24 [0, 0]
  { w with buf := b.write 24 (le16 (~~~ipchksum b)), ipid }.send

/-- The length field of the IP header is `uip_len`. -/
def putLen (w : Stack α) : Stack α := w.put 16 [(w.len >>> 8).toUInt8, w.len.toUInt8]

def tcpSendNoconn (w : Stack α) : Stack α :=
  let w := (w.put 22 [64]).putLen
  let w := w.put 52 [0, 0]
  let w := w.put 50 [0, 0]
  (w.put 50 (le16 (~~~tcpchksum w.buf))).ipSendNolen

/-- `UIP_TCP_MSS / 256` and `UIP_TCP_MSS & 255`. -/
def tcpMssBytes : List UInt8 := [(tcpMss >>> 8).toUInt8, tcpMss.toUInt8]

example : tcpMssBytes = [3, 202] := by decide

def tcpSend (c : ConnId) (w : Stack α) : Stack α :=
  let k := w.conns c
  let w := (w.put 42 k.rcvNxt.bytes).put 38 k.sndNxt.bytes
  let w := w.put 23 [6]
  let w := (w.put 34 (le16 k.lport)).put 36 (le16 k.rport)
  let w := (w.put 26 w.hostaddr.bytes).put 30 k.ripaddr.bytes
  (w.put 48 (if k.tcpstateflags.stopped then [0, 0] else tcpMssBytes)).tcpSendNoconn

def tcpSendNoopts (c : ConnId) (w : Stack α) : Stack α := tcpSend c (w.put 46 [0x50])

def tcpSendNodata (c : ConnId) (w : Stack α) : Stack α := tcpSendNoopts c { w with len := 40 }

def tcpSendAck (c : ConnId) (w : Stack α) : Stack α := tcpSendNodata c (w.put 47 [0x10])

/-- Jump to a label. -/
def goto (w : Stack α) : Label → Stack α
  | .tcpSendAck c => tcpSendAck c w
  | .tcpSendNodata c => tcpSendNodata c w
  | .tcpSendNoopts c => tcpSendNoopts c w
  | .tcpSend c => tcpSend c w
  | .tcpSendNoconn => tcpSendNoconn w
  | .ipSendNolen => ipSendNolen w
  | .send => send w
  | .drop => drop w

variable (w : Stack α) (l : Label)

@[simp] theorem goto_conns : (w.goto l).conns = w.conns := by cases l <;> rfl

@[simp] theorem goto_conn : (w.goto l).conn = w.conn := by cases l <;> rfl

@[simp] theorem goto_app : (w.goto l).app = w.app := by cases l <;> rfl

@[simp] theorem goto_wire : (w.goto l).wire = w.wire := by cases l <;> rfl

@[simp] theorem goto_appdata : (w.goto l).appdata = w.appdata := by cases l <;> rfl

@[simp] theorem goto_flags : (w.goto l).flags = {} := by cases l <;> rfl

@[simp] theorem goto_hostaddr : (w.goto l).hostaddr = w.hostaddr := by cases l <;> rfl

@[simp] theorem goto_lost : (w.goto l).lost = w.lost := by cases l <;> rfl

@[simp] theorem goto_len : (w.goto l).len = l.length w.len := by cases l <;> rfl

/-- The headers lie before the data. -/
theorem goto_buf_of_ge {x : Nat} (h : 54 ≤ x) : (w.goto l).buf x = w.buf x := by
  have put (m : Mem) (a : Nat) (bs : List UInt8) (hb : a + bs.length ≤ 54) :
      m.write a bs x = m x := Mem.write_apply_of_ge (by omega)
  have ip (w : Stack α) : w.ipSendNolen.buf x = w.buf x := by
    simp [ipSendNolen, send, put, le16]
  have noconn (w : Stack α) : w.tcpSendNoconn.buf x = w.buf x := by
    simp [tcpSendNoconn, ip, Stack.put, putLen, put, le16]
  have tcp (c : ConnId) (w : Stack α) : (tcpSend c w).buf x = w.buf x := by
    simp only [tcpSend, noconn, Stack.put]
    split <;> simp [put, le16, IpAddr.bytes, Quad.bytes, tcpMssBytes]
  cases l <;>
    simp [goto, tcpSendAck, tcpSendNodata, tcpSendNoopts, tcp, noconn, ip, send, drop, Stack.put,
      put]

end Stack

end OpenPLC
