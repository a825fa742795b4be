import Mathlib.Algebra.Group.Nat.Defs
import OpenPLC.Apps.Telnetd
import OpenPLC.Uip.Demux

/-! What a connection receives.  The peer cuts its stream of bytes in segments, which arrive in any
order, more than once, and cut in different ways; the stack takes the segment that begins where its
sequence number stands, and acknowledges what it took.  So the application gets the stream from its
start, each byte once and in order. -/

namespace OpenPLC

open Lib

/-! ### Sequence numbers -/

namespace Quad

/-- The number that the bytes stand for. -/
def toNat (q : Quad) : Nat :=
  q.b0.toNat * 2 ^ 24 + q.b1.toNat * 2 ^ 16 + q.b2.toNat * 2 ^ 8 + q.b3.toNat

theorem toNat_add (q : Quad) (n : UInt16) : (q.add n).toNat = (q.toNat + n.toNat) % 2 ^ 32 := by
  obtain ⟨b0, b1, b2, b3⟩ := q
  have hlo : n.toUInt8.toNat = n.toNat % 256 := UInt16.toNat_toUInt8 n
  have hhi : (n >>> 8).toUInt8.toNat = n.toNat / 256 := by
    have hn := n.toNat_lt
    rw [UInt16.toNat_toUInt8, UInt16.toNat_shiftRight]
    simp [Nat.shiftRight_eq_div_pow]
    omega
  unfold add
  generalize n.toUInt8 = lo at *
  generalize (n >>> 8).toUInt8 = hi at *
  have hb := And.intro b0.toNat_lt (And.intro b1.toNat_lt (And.intro b2.toNat_lt b3.toNat_lt))
  have hn := n.toNat_lt
  have h1 : (1 : UInt8).toNat = 1 := rfl
  have h0 : (0 : UInt8).toNat = 0 := rfl
  dsimp only
  split_ifs
  all_goals
    simp only [UInt8.lt_iff_toNat_lt, ← UInt8.toNat_inj, UInt8.toNat_add, h0, h1, toNat] at *
    omega

end Quad

namespace Stack

variable {α : Type*} {w w₁ : Stack α} {c : ConnId}

/-- The bytes that a segment carries. -/
def segmentData (w : Stack α) : List UInt8 := w.buf.read 54 w.tcpDataLen.toNat

/-- Neither side has closed connection `c`. -/
def Receiving (w : Stack α) (c : ConnId) : Prop := w.ts c = .synRcvd ∨ w.ts c = .established

instance (w : Stack α) (c : ConnId) : Decidable (w.Receiving c) :=
  inferInstanceAs (Decidable (_ ∨ _))

/-- A segment of the peer that sends `stream`, whose initial sequence number is `isn`, when the
first `n` bytes have been received.  It has no urgent data.  If it has data then it has no options,
and the data is a part of the stream at a place less than `2 ^ 32` bytes from the end of what was
received. -/
structure FromPeer (isn : Quad) (stream : List UInt8) (n : Nat) (w : Stack α) : Prop where
  urgent : ¬w.HasFlag 0x20
  header : 0 < w.tcpDataLen → w.buf 46 >>> 4 = 5
  place : 0 < w.tcpDataLen → ∃ k, k < n + 2 ^ 32 ∧ n < k + 2 ^ 32 ∧
    (Quad.load w.buf 38).toNat = (isn.toNat + 1 + k) % 2 ^ 32 ∧ w.segmentData <+: stream.drop k

/-- The place of data is inside the stream. -/
theorem fromPeer_iff {isn : Quad} {stream : List UInt8} {n : Nat} :
    (¬w.HasFlag 0x20 ∧ (0 < w.tcpDataLen → w.buf 46 >>> 4 = 5) ∧
      (0 < w.tcpDataLen → ∃ k ∈ List.range stream.length, k < n + 2 ^ 32 ∧ n < k + 2 ^ 32 ∧
        (Quad.load w.buf 38).toNat = (isn.toNat + 1 + k) % 2 ^ 32 ∧
        w.segmentData <+: stream.drop k)) ↔ FromPeer isn stream n w := by
  constructor
  · rintro ⟨hurgent, hheader, hplace⟩
    exact ⟨hurgent, hheader, fun hpos => (hplace hpos).imp fun k hk => hk.2⟩
  · rintro ⟨hurgent, hheader, hplace⟩
    refine ⟨hurgent, hheader, fun hpos => ?_⟩
    obtain ⟨k, hk⟩ := hplace hpos
    refine ⟨k, ?_, hk⟩
    have hdata := hk.2.2.2.length_le
    rw [segmentData, Mem.length_read, List.length_drop] at hdata
    rw [UInt16.lt_iff_toNat_lt] at hpos
    have h0 : (0 : UInt16).toNat = 0 := rfl
    rw [List.mem_range]
    omega

instance (isn : Quad) (stream : List UInt8) (n : Nat) (w : Stack α) :
    Decidable (FromPeer isn stream n w) := decidable_of_iff _ fromPeer_iff

/-- What the stack took of the segment in `w` for connection `c` when it calls the application in
state `w'`: nothing, or all of it. -/
def Takes (c : ConnId) (w w' : Stack α) (after : After) : Prop :=
  w'.flags.newdata = false ∧
      (after = .lastAck ∨ (w'.conns c).rcvNxt = (w.conns c).rcvNxt) ∨
    w'.flags.newdata = true ∧ 0 < w.tcpDataLen ∧ Quad.load w.buf 38 = (w.conns c).rcvNxt ∧
      w'.buf = w.buf ∧ w'.appdata = w.appdata ∧ w'.len = w.tcpDataLen ∧
      (after = .lastAck ∨ (w'.conns c).rcvNxt = (w.conns c).rcvNxt.add w.tcpDataLen)

/-- The outcome of a segment for connection `c`. -/
def Outcome.Takes (c : ConnId) (w : Stack α) : Outcome α → Prop
  | .done w' => (w'.conns c).rcvNxt = (w.conns c).rcvNxt
  | .call d w' after => d = c ∧ Stack.Takes c w w' after
  | .udpCall _ _ => False

/-- The segment in `w` after its acknowledgment was taken, in `w₁`. -/
structure InOrder (c : ConnId) (w w₁ : Stack α) : Prop where
  buf : w₁.buf = w.buf
  appdata : w₁.appdata = w.appdata
  len : w₁.len = w.tcpDataLen
  newdata : w₁.flags.newdata = false
  rcvNxt : (w₁.conns c).rcvNxt = (w.conns c).rcvNxt
  stopped : (w₁.conns c).tcpstateflags.stopped = false
  seq : 0 < w.tcpDataLen → Quad.load w.buf 38 = (w.conns c).rcvNxt

theorem synRcvd_takes (h : InOrder c w w₁) : (synRcvd c w₁).Takes c w := by
  unfold synRcvd
  split
  · refine ⟨rfl, ?_⟩
    dsimp only
    split
    · next hlen =>
      have hpos : 0 < w.tcpDataLen := h.len ▸ hlen
      refine .inr ⟨rfl, hpos, h.seq hpos, h.buf, h.appdata, h.len, .inr ?_⟩
      simp [addRcvNxt, h.rcvNxt, modConn, h.len]
    · refine .inl ⟨rfl, .inr ?_⟩
      simp [h.rcvNxt]
  · simp only [Outcome.Takes, goto_conns, h.rcvNxt]

theorem establishedFin_takes (h : InOrder c w w₁) : (establishedFin c w₁).Takes c w := by
  unfold establishedFin
  split
  · simp only [Outcome.Takes, goto_conns, h.rcvNxt]
  · refine ⟨rfl, ?_⟩
    by_cases hlen : 0 < w₁.len
    · have hpos : 0 < w.tcpDataLen := h.len ▸ hlen
      refine .inr ⟨?_, hpos, h.seq hpos, h.buf, h.appdata, h.len, .inl rfl⟩
      simp [addRcvNxt, modConn, hlen]
    · refine .inl ⟨?_, .inl rfl⟩
      simp [addRcvNxt, modConn, hlen, h.newdata]

theorem establishedData_takes (h : InOrder c w w₁) (hurgent : ¬w.HasFlag 0x20) :
    Takes c w { establishedData c w₁ with slen := 0 } .appsend ∧
      (((establishedData c w₁).flags.newdata = false) →
        ((establishedData c w₁).conns c).rcvNxt = (w.conns c).rcvNxt) := by
  have hskip : skipUrgent w₁ = w₁ := by
    unfold skipUrgent
    rw [if_neg]
    unfold HasFlag tcpFlags at hurgent ⊢
    rwa [h.buf]
  unfold establishedData updateMss acceptData
  rw [hskip]
  by_cases hlen : 0 < w₁.len
  · have hpos : 0 < w.tcpDataLen := h.len ▸ hlen
    simp only [hlen, h.stopped, and_self, ↓reduceIte]
    refine ⟨.inr ⟨rfl, hpos, h.seq hpos, h.buf, h.appdata, h.len, .inr ?_⟩, fun hnew => ?_⟩
    · simp [addRcvNxt, h.rcvNxt, h.len]
    · cases hnew
  · simp only [hlen, false_and, ↓reduceIte]
    refine ⟨.inl ⟨h.newdata, .inr ?_⟩, fun _ => ?_⟩
    · simp [h.rcvNxt]
    · simp [h.rcvNxt]

theorem established_takes (h : InOrder c w w₁) (hurgent : ¬w.HasFlag 0x20) :
    (established c w₁).Takes c w := by
  obtain ⟨htakes, hsame⟩ := establishedData_takes h hurgent
  unfold established
  split
  · exact establishedFin_takes h
  dsimp only
  split
  · exact ⟨rfl, htakes⟩
  · next hcall =>
    have hnew : (establishedData c w₁).flags.newdata = false := by
      simpa using fun hnew => hcall (.inl hnew)
    simp only [Outcome.Takes, goto_conns, hsame hnew]

theorem ackInput_inOrder (hstopped : (w.conns c).tcpstateflags.stopped = false)
    (hseq : 0 < w.tcpDataLen → Quad.load w.buf 38 = (w.conns c).rcvNxt) :
    let w₀ : Stack α := { w with conn := some c, flags := {}, len := w.tcpDataLen }
    InOrder c w (ackInput c w₀) ∧ (ackInput c w₀).ts c = w.ts c := by
  intro w₀
  unfold ackInput ts
  split
  · refine ⟨⟨rfl, rfl, rfl, rfl, ?_, ?_, hseq⟩, ?_⟩ <;> dsimp only <;> rw [modConn_self] <;>
      dsimp only <;> split
    · rfl
    · rfl
    · exact hstopped
    · exact hstopped
    · rfl
    · rfl
  · exact ⟨⟨rfl, rfl, rfl, rfl, rfl, hstopped, hseq⟩, rfl⟩

/-- A segment for a connection that neither side has closed. -/
theorem found_takes (hp : w.Passive) (hreceiving : w.Receiving c) (hurgent : ¬w.HasFlag 0x20) :
    (found c w).Takes c w := by
  unfold found
  dsimp only
  split
  · refine ⟨rfl, .inl ⟨rfl, .inr ?_⟩⟩
    simp [setState]
  unfold foundSegment
  split
  · rfl
  · next horder =>
    have hstate : (w.conns c).tcpstateflags.ts ≠ .synSent := (hp c).2
    have hseq : 0 < w.tcpDataLen → Quad.load w.buf 38 = (w.conns c).rcvNxt := by
      intro hpos
      by_contra hne
      exact horder ⟨fun h => hstate h.1, .inl hpos, hne⟩
    obtain ⟨hinOrder, hts⟩ := ackInput_inOrder (hp c).1 hseq
    unfold tcpState
    rcases hreceiving with hts₀ | hts₀
    · rw [hts₀, ts] at hts
      split <;> rename_i heq
      all_goals first
        | exact synRcvd_takes hinOrder
        | exact absurd (hts.symm.trans heq) (by simp)
    · rw [hts₀, ts] at hts
      split <;> rename_i heq
      all_goals first
        | exact established_takes hinOrder hurgent
        | exact absurd (hts.symm.trans heq) (by simp)

theorem ipInput_appdata (w : Stack α) : w.ipInput.1.appdata = w.appdata := by
  unfold ipInput
  split
  · rfl
  · next w' hlength =>
    have happdata : w'.ipFragment.appdata = w.appdata := by
      obtain ⟨len, buf, reass, lost, hfragment⟩ := w'.ipFragment_eq
      rw [hfragment, ipLength_eq hlength]
    dsimp only
    split <;> exact happdata

theorem eventSegment_eq_some {e : NetEvent} (h : w.eventSegment e = some w₁) :
    SameConns w w₁ ∧ w₁.appdata = 54 ∧ tcpchksum w₁.buf = 0xffff ∧
      w.outcome e = some w₁.tcpInput := by
  obtain ⟨w₂, harrival, hsegment⟩ := Option.bind_eq_some_iff.mp h
  obtain ⟨hsame, -, happ, houtcome⟩ := arrival_eq_some harrival
  obtain ⟨hsame', -, hinput, hsum⟩ := segment?_sameConns hsegment
  have hbuf : w₁.appdata = w₂.appdata := by
    unfold segment? at hsegment
    have happdata := ipInput_appdata w₂
    split at hsegment
    · next heq =>
      rw [heq] at happdata
      split at hsegment
      · cases hsegment
      · obtain rfl := Option.some.inj hsegment
        exact happdata
    · cases hsegment
  refine ⟨⟨hsame'.app.trans hsame.app, hsame'.conns.trans hsame.conns,
    hsame'.wire.trans hsame.wire⟩, hbuf.trans happ, hsum, ?_⟩
  rw [houtcome, hinput]

/-- Without a packet, a call of the server has no new data. -/
theorem newdata_of_arrival {w₀ : Stack α} {e : NetEvent} (h : w.arrival e = none)
    (hcall : w.serverCall e = some w₀) : w₀.flags.newdata = false := by
  unfold arrival at h
  unfold serverCall at hcall
  split at hcall
  · next d w₁ after houtcome =>
    obtain rfl := Option.some.inj hcall
    split at h
    · next hlost => exact absurd houtcome (outcome_of_lost hlost)
    · cases e with
      | renew => cases houtcome
      | input buf len => cases h
      | process flag =>
        have hflag : flag ≠ .data := by
          rintro rfl
          cases h
        have hquiet := process_quiet hflag w
        rw [Option.some.inj houtcome] at hquiet
        exact hquiet.2
  · cases hcall

/-- The bytes that an event brings to the application of connection `c`. -/
def delivered (w : Stack α) (c : ConnId) (e : NetEvent) : List UInt8 :=
  match w.serverCall e with
  | some w₀ => if w₀.conn = some c ∧ w₀.call.newdata then w₀.call.data else []
  | none => []

/-! ### Runs -/

section Run

variable {K : Conf} {σ : Type*} {sh : Shell σ} {w w₁ : Stack (Firmware K σ)} {e : NetEvent}

/-- What an event does to connection `c` while neither side has closed it: it brings nothing and
moves nothing, or it brings a segment that begins at the sequence number, and moves the number over
the segment. -/
def ReceiveStep (sh : Shell σ) (c : ConnId) (w : Stack (Firmware K σ)) (e : NetEvent) : Prop :=
  (w.delivered c e = [] ∧ ((w.netStep sh e).Receiving c →
    ((w.netStep sh e).conns c).rcvNxt = (w.conns c).rcvNxt)) ∨
  ∃ w₁, w.eventSegment e = some w₁ ∧ w₁.findConn = some c ∧ 0 < w₁.tcpDataLen ∧
    Quad.load w₁.buf 38 = (w.conns c).rcvNxt ∧ w.delivered c e = w₁.segmentData ∧
    ((w.netStep sh e).Receiving c →
      ((w.netStep sh e).conns c).rcvNxt = (w.conns c).rcvNxt.add w₁.tcpDataLen)

theorem delivered_of_newdata (hcall : ∀ w₀ ∈ w.serverCall e, w₀.flags.newdata = false) :
    w.delivered c e = [] := by
  unfold delivered
  split
  · next w₀ hw₀ => simp [call, hcall w₀ hw₀]
  · rfl

/-- An event that brings no segment for connection `c`. -/
theorem receiveStep_of_keeps {d : ConnId} (hkeeps : Keeps d w (w.netStep sh e))
    (hcall : ∀ w₀ ∈ w.serverCall e, w₀.flags.newdata = false) : ReceiveStep sh c w e :=
  .inl ⟨delivered_of_newdata hcall, fun _ => (hkeeps.apply c).rcvNxt⟩

theorem netStep_of_outcome {o : Outcome (Firmware K σ)} (h : w.outcome e = some o) :
    w.netStep sh e = o.run (firmwareApps sh) := by
  unfold netStep
  rw [h]

theorem serverCall_of_done (h : w.outcome e = some (.done w₁)) : w.serverCall e = none := by
  unfold serverCall
  rw [h]

theorem serverCall_of_call {d : ConnId} {after : After}
    (h : w.outcome e = some (.call d w₁ after)) : w.serverCall e = some w₁ := by
  unfold serverCall
  rw [h]

/-- A segment for connection `c`. -/
theorem receiveStep_of_takes (hp : w.Passive) (hseg : w.eventSegment e = some w₁)
    (hfind : w₁.findConn = some c) (houtcome : w.outcome e = some (found c w₁))
    (htakes : (found c w₁).Takes c w₁) : ReceiveStep sh c w e := by
  obtain ⟨hsame, happ, -, -⟩ := eventSegment_eq_some hseg
  have hconns : w₁.conns = w.conns := hsame.conns
  have hstep : w.netStep sh e = (found c w₁).run (firmwareApps sh) := netStep_of_outcome houtcome
  cases hfound : found c w₁ with
  | udpCall u w' => rw [hfound] at htakes; exact htakes.elim
  | done w' =>
    rw [hfound] at hstep htakes houtcome
    refine .inl ⟨delivered_of_newdata ?_, fun _ => ?_⟩
    · rw [serverCall_of_done houtcome]
      exact fun _ h => nomatch h
    · rw [hstep]
      exact htakes.trans (congrArg Conn.rcvNxt (congrFun hconns c))
  | call d w' after =>
    rw [hfound] at hstep htakes houtcome
    obtain ⟨rfl, htakes⟩ := htakes
    have hserver := serverCall_of_call houtcome
    have hconn' : w'.conn = some d := (outcome_moves hp houtcome).2.1
    have hafter : after = .lastAck → ¬(w.netStep sh e).Receiving d := by
      rintro rfl hreceiving
      rw [hstep] at hreceiving
      have hts : ((Outcome.call d w' .lastAck).run (firmwareApps sh)).ts d = .lastAck := by
        simp [Outcome.run, After.run, ts, putFlags, put]
      rw [Receiving, hts] at hreceiving
      rcases hreceiving with h | h <;> cases h
    have hrcvNxt : ((w.netStep sh e).conns d).rcvNxt = (w'.conns d).rcvNxt := by
      rw [hstep]
      refine (After.run_keeps d _ after).1.rcvNxt.trans ?_
      exact congrArg Conn.rcvNxt (congrFun (serverAppcall_conns sh w') d)
    rcases htakes with ⟨hnew, hsame⟩ | ⟨hnew, hpos, hseq, hbuf, happ', hlen, hmoved⟩
    · refine .inl ⟨delivered_of_newdata ?_, fun hreceiving => ?_⟩
      · rw [hserver]
        rintro w₀ ⟨⟩
        exact hnew
      · rw [hrcvNxt, ← hconns]
        exact hsame.resolve_left fun h => hafter h hreceiving
    · refine .inr ⟨w₁, hseg, hfind, hpos, hconns ▸ hseq, ?_, fun hreceiving => ?_⟩
      · unfold delivered
        rw [hserver]
        simp [call, hconn', hnew, segmentData, hbuf, happ', happ, hlen]
      · rw [hrcvNxt, ← hconns]
        exact hmoved.resolve_left fun h => hafter h hreceiving

/-- A segment for another connection. -/
theorem receiveStep_of_other {d : ConnId} (hp : w.Passive) (hd : d ≠ c)
    (houtcome : w.outcome e = some (found d w₁)) (hconns : w₁.conns = w.conns) :
    ReceiveStep sh c w e := by
  have hfound : (found d w₁).Changes Conn.Amends d w :=
    .trans (Changes.of_conns hconns) (found_amends d w₁)
  refine .inl ⟨?_, fun _ => ?_⟩
  · unfold delivered
    split
    · next w₀ hw₀ =>
      rw [if_neg]
      rintro ⟨hconn, -⟩
      cases hcall : found d w₁ with
      | done w' =>
        rw [hcall] at houtcome
        rw [serverCall_of_done houtcome] at hw₀
        cases hw₀
      | udpCall u w' =>
        rw [hcall] at houtcome
        simp [serverCall, houtcome] at hw₀
      | call d' w' after =>
        rw [hcall] at houtcome hfound
        rw [serverCall_of_call houtcome] at hw₀
        obtain rfl := Option.some.inj hw₀
        have hconn' := (outcome_moves hp houtcome).2.1
        rw [hfound.1, hconn] at hconn'
        exact hd (Option.some.inj hconn').symm
    · rfl
  · rw [netStep_of_outcome houtcome, (run_amends hfound).2 c (Ne.symm hd)]

/-- A packet that is for no connection. -/
theorem receiveStep_of_none {o : Outcome (Firmware K σ)} (houtcome : w.outcome e = some o)
    (ho : ∀ d, o.Changes Conn.Keeps d w) : ReceiveStep sh c w e := by
  have hkeeps : Keeps c w (w.netStep sh e) := by
    rw [netStep_of_outcome houtcome]
    exact run_keeps (ho c)
  refine receiveStep_of_keeps hkeeps fun w₀ hw₀ => ?_
  cases o with
  | done w' => simp [serverCall, houtcome] at hw₀
  | udpCall u w' => simp [serverCall, houtcome] at hw₀
  | call d w' after => exact absurd ((ho 0).1.symm.trans (ho 1).1) (by decide)

/-- A segment for a new connection does not touch one that neither side has closed. -/
theorem Accepts.ne_of_receiving {d : ConnId} (h : w₁.Accepts d) (hreceiving : w₁.Receiving c) :
    c ≠ d := by
  rintro rfl
  rcases freeConn_eq_some h.free with hts | hts <;> rcases hreceiving with h' | h' <;>
    exact absurd (hts.symm.trans h') (by simp)

theorem receive_step (sh : Shell σ) (hp : w.Passive) (hreceiving : w.Receiving c)
    (hurgent : ∀ w₁ ∈ w.eventSegment e, w₁.findConn = some c → ¬w₁.HasFlag 0x20) :
    ReceiveStep sh c w e := by
  cases harrival : w.arrival e with
  | none =>
    obtain ⟨d, hd⟩ := exists_eventConn e
    exact receiveStep_of_keeps (netStep_keeps_of_arrival harrival hd) fun w₀ hw₀ =>
      newdata_of_arrival harrival hw₀
  | some w₁ =>
    obtain ⟨hsame, -, -, houtcome⟩ := arrival_eq_some harrival
    cases hsegment : w₁.segment? with
    | none =>
      exact receiveStep_of_none houtcome fun d =>
        .trans (Changes.of_conns hsame.conns) (dataInput_keeps hsegment)
    | some w₂ =>
      have hevent : w.eventSegment e = some w₂ := by simp [eventSegment, harrival, hsegment]
      obtain ⟨hsame₂, -, hsum, houtcome₂⟩ := eventSegment_eq_some hevent
      have hreceiving₂ : w₂.Receiving c := by rwa [Receiving, ts, hsame₂.conns]
      rcases tcpInput_cases hsum with ⟨d, hfind, h⟩ | ⟨d, haccepts, h⟩ | ⟨hfind, h⟩
      · rw [h] at houtcome₂
        by_cases hd : d = c
        · subst hd
          exact receiveStep_of_takes hp hevent hfind houtcome₂
            (found_takes (hsame₂.passive hp) hreceiving₂ (hurgent w₂ hevent hfind))
        · exact receiveStep_of_other hp hd houtcome₂ hsame₂.conns
      · rw [h] at houtcome₂
        refine .inl ⟨delivered_of_newdata ?_, fun _ => ?_⟩
        · rw [serverCall_of_done houtcome₂]
          intro w₀ hw₀
          cases hw₀
        · rw [netStep_of_outcome houtcome₂]
          have hothers := haccepts.opened.others c (haccepts.ne_of_receiving hreceiving₂)
          exact congrArg Conn.rcvNxt (hothers.trans (congrFun hsame₂.conns c))
      · exact receiveStep_of_none houtcome₂ fun d =>
          .trans (Changes.of_conns hsame₂.conns) (h d)

/-- A step, with the bytes that connection `c` received. -/
def receive (sh : Shell σ) (c : ConnId) (p : Stack (Firmware K σ) × List UInt8) (e : NetEvent) :
    Stack (Firmware K σ) × List UInt8 :=
  (p.1.netStep sh e, p.2 ++ p.1.delivered c e)

/-- Neither side has closed connection `c`, and the event is no segment for it but one of its
peer. -/
def PeerSends (isn : Quad) (stream : List UInt8) (c : ConnId)
    (p : Stack (Firmware K σ) × List UInt8) (e : NetEvent) : Prop :=
  p.1.Receiving c ∧
    ∀ w₁ ∈ p.1.eventSegment e, w₁.findConn = some c → FromPeer isn stream p.2.length w₁

/-- The bytes received are the first ones of the stream, and the sequence number is theirs. -/
structure InStream (isn : Quad) (stream : List UInt8) (c : ConnId)
    (p : Stack (Firmware K σ) × List UInt8) : Prop where
  passive : p.1.Passive
  received : p.2 <+: stream
  rcvNxt : p.1.Receiving c →
    (p.1.conns c).rcvNxt.toNat = (isn.toNat + 1 + p.2.length) % 2 ^ 32

instance (isn : Quad) (stream : List UInt8) (c : ConnId)
    (p : Stack (Firmware K σ) × List UInt8) (e : NetEvent) :
    Decidable (PeerSends isn stream c p e) := inferInstanceAs (Decidable (_ ∧ _))

theorem InStream.step {isn : Quad} {stream : List UInt8}
    {p : Stack (Firmware K σ) × List UInt8} (h : InStream isn stream c p)
    (hsends : PeerSends isn stream c p e) : InStream isn stream c (receive sh c p e) := by
  obtain ⟨w, r⟩ := p
  obtain ⟨hreceiving, hpeer⟩ := hsends
  obtain ⟨hpassive, ⟨rest, hstream⟩, hrcvNxt⟩ := h
  have hnext := netStep_passive sh hpassive e
  dsimp only at hreceiving hpeer hpassive hstream hrcvNxt hnext
  rcases receive_step sh hpassive hreceiving fun w₁ hw₁ hfind => (hpeer w₁ hw₁ hfind).urgent with
    ⟨hdelivered, hsame⟩ | ⟨w₁, hevent, hfind, hpos, hseq, hdelivered, hmoved⟩
  · refine ⟨hnext, ?_, fun hr => ?_⟩
    · simp [receive, hdelivered, ← hstream]
    · simp only [receive, hdelivered, List.append_nil]
      rw [hsame hr]
      exact hrcvNxt hreceiving
  · obtain ⟨k, hk, hk', hplace, hdata⟩ := (hpeer w₁ hevent hfind).place hpos
    have hnow := hrcvNxt hreceiving
    have hkr : k = r.length := by
      rw [← hseq, hplace] at hnow
      omega
    have hlength : (w.delivered c e).length = w₁.tcpDataLen.toNat := by
      rw [hdelivered, segmentData, Mem.length_read]
    have hrest : stream.drop k = rest := by rw [← hstream, hkr, List.drop_left]
    rw [hrest, ← hdelivered] at hdata
    refine ⟨hnext, ?_, fun hr => ?_⟩
    · rw [← hstream]
      exact (List.prefix_append_right_inj r).mpr hdata
    · simp only [receive, List.length_append, hlength]
      rw [hmoved hr, Quad.toNat_add, hnow]
      omega

end Run

/-- From the SYN that opens a connection on, as long as neither side closes it: if every segment
that comes in for it is one of a peer that sends `stream`, in whatever order and as often as it
may, then what the application gets are the first bytes of the stream, and what is acknowledged is
what the application got. -/
theorem received_in_order {K : Conf} {σ : Type*} (sh : Shell σ) (null : Nat) (app : Firmware K σ)
    (before : List NetEvent) (syn : NetEvent) (es : List NetEvent) (c : ConnId) (isn : Quad)
    (stream : List UInt8)
    (hsyn : ∃ w₁ ∈ (run (netStep sh) (init null app) before).eventSegment syn,
      w₁.Accepts c ∧ Quad.load w₁.buf 38 = isn)
    (hsends : Along (receive sh c) (PeerSends isn stream c)
      ((run (netStep sh) (init null app) before).netStep sh syn, []) es) :
    let p := run (receive sh c) ((run (netStep sh) (init null app) before).netStep sh syn, []) es
    p.2 <+: stream ∧
      (p.1.Receiving c →
        (p.1.conns c).rcvNxt.toNat = (isn.toNat + 1 + p.2.length) % 2 ^ 32) := by
  intro p
  set w := run (netStep sh) (init null app) before
  have hp : w.Passive := run_passive sh null app before
  obtain ⟨w₁, hevent, haccepts, hseq⟩ := hsyn
  obtain ⟨-, -, hsum, houtcome⟩ := eventSegment_eq_some hevent
  have hopened : Opened c w₁ (w.netStep sh syn) := by
    have hinput : w₁.tcpInput = .done (foundListen w₁) := by
      rcases tcpInput_cases hsum with ⟨d, hfind, -⟩ | ⟨-, -, h⟩ | ⟨-, -⟩
      · rw [haccepts.unknown] at hfind
        cases hfind
      · exact h
      · simp [tcpInput, hsum, haccepts.unknown, haccepts.syn, haccepts.port]
    rw [netStep_of_outcome houtcome, hinput]
    exact haccepts.opened
  have hstart : InStream isn stream c (w.netStep sh syn, []) := by
    refine ⟨netStep_passive sh hp syn, List.nil_prefix, fun _ => ?_⟩
    rw [hopened.rcvNxt, hseq, Quad.toNat_add]
    simp
  have hend : InStream isn stream c p := hsends.invariant (fun _ _ h hs => h.step hs) hstart
  exact ⟨hend.received, hend.rcvNxt⟩

/-- The first byte of the stream `ab`, with the ACK of the SYN in answer to `synFrame`. -/
def firstByteFrame : List UInt8 :=
  [0, 0, 0, 0, 0, 0, 0, 0, 0, 0, 0, 0, 8, 0, 69, 0, 0, 41, 0, 0, 0, 0, 64, 6, 102, 205, 10, 0, 0,
    2, 10, 0, 0, 1, 4, 0, 0, 23, 0, 0, 0, 1, 0, 0, 0, 1, 80, 16, 2, 0, 52, 184, 0, 0, 97]

/-- The second byte of the stream. -/
def secondByteFrame : List UInt8 :=
  [0, 0, 0, 0, 0, 0, 0, 0, 0, 0, 0, 0, 8, 0, 69, 0, 0, 41, 0, 0, 0, 0, 64, 6, 102, 205, 10, 0, 0,
    2, 10, 0, 0, 1, 4, 0, 0, 23, 0, 0, 0, 2, 0, 0, 0, 1, 80, 16, 2, 0, 51, 183, 0, 0, 98]

theorem received_in_order_ab :
    let p := run (receive Telnetd.shell 0)
      ((run (netStep Telnetd.shell) (init 0 (.atStart ())) [] :
        Stack (Firmware Telnetd.conf Unit)).netStep Telnetd.shell (.frame synFrame), [])
      [.frame secondByteFrame, .frame firstByteFrame, .frame firstByteFrame,
        .frame secondByteFrame]
    p.2 <+: [97, 98] ∧
      (p.1.Receiving 0 → (p.1.conns 0).rcvNxt.toNat =
        ((⟨0, 0, 0, 0⟩ : Quad).toNat + 1 + p.2.length) % 2 ^ 32) :=
  received_in_order Telnetd.shell 0 (.atStart ()) [] (.frame synFrame) _ 0 ⟨0, 0, 0, 0⟩ [97, 98]
    (by decide +kernel) (by decide +kernel)

end Stack

end OpenPLC
