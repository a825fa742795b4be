import OpenPLC.Apps.Events
import OpenPLC.Apps.Jsoncmd
import OpenPLC.Apps.Ownership
import OpenPLC.Lib.Run

/-! Delivery of the lines of `jsoncmd` over one connection.  The server counts the lines of the last
segment that it filled, and the stack counts the bytes of the last segment that it sent; a segment
that is filled anew while one is in flight must be the same for the two to agree. -/

namespace OpenPLC

open Lib

/-- The lines that the data of a call queues. -/
def Server.newLines {K : Conf} {σ : Type*} (sh : Shell σ) (call : Call) (s : Server K σ) :
    List (List UInt8) :=
  if call.newdata then (s.newdata sh call.data).1.queuedTexts.drop s.queuedTexts.length else []

namespace Server

variable {K : Conf} {σ : Type*} {sh : Shell σ} {s : Server K σ} {call : Call}

/-- Without an acknowledgment, a call on an open connection queues these lines. -/
theorem handle_newLines {new : List (List UInt8)} (hopen : ¬call.Closing) (hsends : call.Sends)
    (hacked : call.acked = false)
    (h : (s.handle sh call).1.queuedTexts = s.queuedTexts ++ new) : s.newLines sh call = new := by
  rw [handle_eq] at h
  simp only [hopen, hacked, hsends, ↓reduceIte, Bool.false_eq_true] at h
  cases hnew : call.newdata with
  | true =>
    simp only [hnew, ↓reduceIte] at h
    have hsend (t : Server K σ) : (t.senddata call.mss).1.queuedTexts = t.queuedTexts := rfl
    rw [hsend] at h
    simp [newLines, hnew, h]
  | false =>
    simp only [hnew, ↓reduceIte, Bool.false_eq_true] at h
    have hsend : (s.senddata call.mss).1.queuedTexts = s.queuedTexts := rfl
    simpa [newLines, hnew, hsend] using h

end Server

/-- The step ends, without a read or a write outside the arrays; and no urgent pointer, which is
added on 16 bits, leads back before the data. -/
structure Stack.InPlace {K : Conf} {σ : Type*} (sh : Shell σ) (w : Stack (Firmware K σ))
    (e : NetEvent) : Prop where
  stays : (w.netStep sh e).lost = false
  ahead : ∀ w₀ ∈ w.serverCall e, w₀.sappdata ≤ w₀.appdata

instance {K : Conf} {σ : Type*} (sh : Shell σ) (w : Stack (Firmware K σ)) (e : NetEvent) :
    Decidable (w.InPlace sh e) :=
  decidable_of_iff
    ((w.netStep sh e).lost = false ∧ ∀ w₀ ∈ w.serverCall e, w₀.sappdata ≤ w₀.appdata)
    ⟨fun h => ⟨h.1, h.2⟩, fun h => ⟨h.stays, h.ahead⟩⟩

namespace Jsoncmd

variable {σ : Type*}

/-- What an event says of the link of connection `c`. -/
def linkEvent (c : ConnId) : WireEvent → Option (LinkEvent UInt8)
  | .sent d again data => if d = c then some (.sent again data) else none
  | .ackd d len => if d = c then some (.ackd len.toNat) else none

/-- The server as the sender on connection `c`: its queue, what the link did since the recording
began, the lines that `acked` removed, and the lines that were queued. -/
def sender (c : ConnId) (w : Stack (Firmware conf σ)) : Sender UInt8 where
  outbox := w.app.server.outbox
  link := .ofEvents (w.wire.filterMap (linkEvent c))
  removed := w.app.server.trace.filterMap Obs.acked?
  pushed := w.app.server.queuedTexts

/-- The recording begins: connection `c` is accepted, and no line is in use. -/
structure Accepted (c : ConnId) (w : Stack (Firmware conf σ)) : Prop where
  state : (w.conns c).tcpstateflags = ⟨.synRcvd, false⟩
  others : ∀ d ≠ c, w.Closed d
  free : w.app.server.linemem.AllFree
  close : w.app.server.state ≠ .close
  trace : w.app.server.trace = []
  wire : w.wire = []

instance (c : ConnId) (w : Stack (Firmware conf σ)) : Decidable (Accepted c w) :=
  decidable_of_iff
    ((w.conns c).tcpstateflags = ⟨.synRcvd, false⟩ ∧ (∀ d ≠ c, w.Closed d) ∧
      w.app.server.linemem.AllFree ∧ w.app.server.state ≠ .close ∧ w.app.server.trace = [] ∧
      w.wire = [])
    ⟨fun ⟨h1, h2, h3, h4, h5, h6⟩ => ⟨h1, h2, h3, h4, h5, h6⟩,
      fun h => ⟨h.state, h.others, h.free, h.close, h.trace, h.wire⟩⟩

/-- Connection `c` is the only one, and neither side has closed it. -/
structure Serves {α : Type*} (c : ConnId) (w : Stack α) : Prop where
  state : w.ts c = .synRcvd ∨ w.ts c = .established
  others : ∀ d ≠ c, w.Closed d

instance {α : Type*} (c : ConnId) (w : Stack α) : Decidable (Serves c w) :=
  decidable_of_iff ((w.ts c = .synRcvd ∨ w.ts c = .established) ∧ ∀ d ≠ c, w.Closed d)
    ⟨fun h => ⟨h.1, h.2⟩, fun h => ⟨h.state, h.others⟩⟩

/-- While data is in flight, the lines in flight fit in a segment, and the next line, one that waits
or else one that the call queues, does not fit with them. -/
def KeepsFlight (sh : Shell σ) (w : Stack (Firmware conf σ)) (e : NetEvent) : Prop :=
  ∀ w₀ ∈ w.serverCall e, ∀ c ∈ w₀.conn, (w₀.conns c).Outstanding →
    w.app.server.outbox.Keeps (w₀.conns c).mss.toNat (w.app.server.newLines sh w₀.call)

instance (sh : Shell σ) (w : Stack (Firmware conf σ)) (e : NetEvent) :
    Decidable (KeepsFlight sh w e) := inferInstanceAs (Decidable (∀ _ ∈ _, ∀ _ ∈ _, _ → _))

/-- A sender that did nothing yet. -/
def idle : Sender UInt8 := ⟨⟨[], 0⟩, ⟨[], [], true⟩, [], []⟩

theorem idle_exactlyOnce : idle.ExactlyOnce := ⟨Nat.le_refl 0, .inl rfl, rfl, rfl, rfl⟩

/-- Between calls of an established connection. -/
structure Established (c : ConnId) (w : Stack (Firmware conf σ)) : Prop where
  sound : w.app.server.Sound
  flight : (sender c w).link.flight.length = (w.conns c).len.toNat
  once : (sender c w).ExactlyOnce

structure Delivers (c : ConnId) (w : Stack (Firmware conf σ)) : Prop where
  passive : w.Passive
  others : ∀ d ≠ c, w.Closed d
  close : w.app.server.state ≠ .close
  session :
    w.ts c = .synRcvd ∧ w.app.server.linemem.AllFree ∧ w.app.server.trace = [] ∧ w.wire = [] ∨
    w.ts c = .established ∧ Established c w

variable {c : ConnId} {w w₀ : Stack (Firmware conf σ)} {sh : QuietShell σ}

theorem foldl_sentEvents (l : Link UInt8) (again : Bool) (bs : List UInt8) :
    ((Stack.sentEvents c again bs).filterMap (linkEvent c)).foldl Link.step l =
      if bs = [] then l else l.step (.sent again bs) := by
  simp only [Stack.sentEvents]
  split <;> simp [linkEvent]

/-- A call in which the server sends `bs`: the stack sends as much, again if some is in flight. -/
theorem call_wire (sh : QuietShell σ) (after : Stack.After) {bs : List UInt8}
    (hreply : (w₀.app.server.appcall sh.toShell w₀.call).2 = { send := some bs })
    (hsapp : w₀.sappdata = 54) (hahead : 54 ≤ w₀.appdata)
    (hfits : bs.length ≤ (w₀.conns c).mss.toNat)
    (hsame : (w₀.conns c).Outstanding →
      (w₀.conns c).len.toNat = bs.length ∧ w₀.flags.ackdata = false)
    (hafter : after = .appsend ∧ w₀.flags.abort = false ∧ w₀.flags.close = false ∨
      after = .apprexmit ∧ (w₀.conns c).Outstanding) :
    let w' := after.run c (Stack.serverAppcall sh.toShell w₀)
    w'.wire = w₀.wire ++ Stack.sentEvents c (decide (w₀.conns c).Outstanding) bs ∧
      (w'.conns c).len.toNat = bs.length := by
  obtain ⟨hsending, hflags⟩ := Stack.serverAppcall_sending hreply hsapp hahead
    (hfits.trans_lt (w₀.conns c).mss.toNat_lt)
  have hconns : (Stack.serverAppcall sh.toShell w₀).conns = w₀.conns := by simp
  have hwire : (Stack.serverAppcall sh.toShell w₀).wire = w₀.wire := by simp
  generalize Stack.serverAppcall sh.toShell w₀ = w₁ at hsending hflags hconns hwire
  rcases hafter with ⟨rfl, habort, hclose⟩ | ⟨rfl, h⟩
  · rw [← hflags] at habort hclose hsame
    have hsend := Stack.appsend_wire (c := c) hsending habort hclose (by
      rw [hconns]
      by_cases h : (w₀.conns c).len = 0
      · exact .inl ⟨h, hfits⟩
      · exact .inr (hsame h))
    rwa [hwire, hconns] at hsend
  · have hlen : (w₁.conns c).len.toNat = bs.length := by rw [hconns, (hsame h).1]
    have hsend := Stack.apprexmit_wire hsending hlen true
    rw [hwire] at hsend
    refine ⟨by rwa [decide_eq_true h], ?_⟩
    exact (congrArg (fun f => (f c).len.toNat) (Stack.apprexmit_conn c true w₁).2).trans hlen

/-- From the sender `x` to the server after a call: it queues the lines `new` and fills a segment,
and the stack sends it. -/
structure Refills (x : Sender UInt8) (new : List (List UInt8)) (mss : Nat) (s : Server conf σ)
    (reply : Reply) : Prop where
  outbox : s.outbox = x.outbox.refill mss new
  removed : s.trace.filterMap Obs.acked? = x.removed
  pushed : s.queuedTexts = x.pushed ++ new
  reply : reply = { send := some s.outbox.segment }

theorem Refills.sender (after : Stack.After) {x : Sender UInt8} {new : List (List UInt8)}
    (h : Refills x new (w₀.conns c).mss.toNat (w₀.app.server.appcall sh.toShell w₀.call).1
      (w₀.app.server.appcall sh.toShell w₀.call).2)
    (hx : x.ExactlyOnce) (hlink : Link.ofEvents (w₀.wire.filterMap (linkEvent c)) = x.link)
    (hflight : x.link.flight.length = (w₀.conns c).len.toNat)
    (hkeep : (w₀.conns c).Outstanding →
      w₀.flags.ackdata = false ∧ x.outbox.Keeps (w₀.conns c).mss.toNat new)
    (hsapp : w₀.sappdata = 54) (hahead : 54 ≤ w₀.appdata)
    (hstopped : (w₀.conns c).tcpstateflags.stopped = false)
    (hafter : after = .appsend ∧ w₀.flags.abort = false ∧ w₀.flags.close = false ∨
      after = .apprexmit ∧ (w₀.conns c).Outstanding) :
    let w' := after.run c (Stack.serverAppcall sh.toShell w₀)
    (sender c w').ExactlyOnce ∧ (sender c w').link.flight.length = (w'.conns c).len.toNat := by
  intro w'
  have hout : (w₀.conns c).Outstanding ↔ x.link.flight ≠ [] := by
    rw [← List.length_pos_iff, hflight, Nat.pos_iff_ne_zero, ne_eq, Conn.Outstanding, ne_eq,
      ← UInt16.toNat_inj]
    rfl
  generalize hm : (w₀.conns c).mss.toNat = m at *
  have hkeep' : x.link.flight ≠ [] → x.outbox.Keeps m new := fun h => (hkeep (hout.mpr h)).2
  have hfits := x.outbox.length_segment_refill_le m new
  obtain ⟨hwire, hlen⟩ := call_wire (c := c) sh after (h.outbox ▸ h.reply) hsapp hahead
    (hm ▸ hfits)
    (fun ho => ⟨by rw [← hflight, hx.refill_segment hkeep' (hout.mp ho)], (hkeep ho).1⟩) hafter
  have hserver : w'.app.server = (w₀.app.server.appcall sh.toShell w₀.call).1 := by
    rw [(Stack.After.run_conn c _ after (by rwa [Stack.serverAppcall_conns])).1,
      Stack.serverAppcall_server]
  have hsender : Jsoncmd.sender c w' = x.refill new m := by
    rw [show x.refill new m =
      ⟨x.outbox.refill m new, (x.refill new m).link, x.removed, x.pushed ++ new⟩ from rfl,
      hx.refill_link hkeep']
    simp only [Jsoncmd.sender, hserver, h.outbox, h.removed, h.pushed, w', hwire,
      List.filterMap_append, Link.ofEvents_append, hlink, foldl_sentEvents, hout]
  rw [hsender, hx.refill_flight hkeep', hlen]
  exact ⟨hx.refill hkeep', rfl⟩

/-- The calls on an established connection that leave it so. -/
structure OpenCall (n : UInt16) (acked : Bool) (flags : Flags) (after : Stack.After) (n' : UInt16) :
    Prop where
  connected : flags.connected = false
  opened : flags.close = false ∧ flags.abort = false ∧ flags.timedout = false
  sends : flags.rexmit ∨ flags.newdata ∨ flags.ackdata ∨ flags.poll
  ackdata : flags.ackdata = acked
  outstanding : acked = true → n ≠ 0
  len : n' = if acked then 0 else n
  after : after = .appsend ∨ after = .apprexmit ∧ n' ≠ 0

theorem openCall_of_transition {due : Prop} {n n' : UInt16} {acked : Bool} {flags flags' : Flags}
    {after : Stack.After} {ts : TcpState}
    (h : Stack.Transition due .established n acked (some (flags, after)) ts n')
    (hts : after.state flags' ts = .synRcvd ∨ after.state flags' ts = .established) :
    OpenCall n acked flags after n' := by
  cases h with
  | segment hflags hout =>
    exact ⟨rfl, ⟨rfl, rfl, rfl⟩, by simpa [or_comm] using hflags, rfl, hout, rfl, .inl rfl⟩
  | rexmit hout => exact ⟨rfl, ⟨rfl, rfl, rfl⟩, .inl rfl, rfl, nofun, rfl, .inr ⟨rfl, hout⟩⟩
  | poll => exact ⟨rfl, ⟨rfl, rfl, rfl⟩, by simp, rfl, nofun, rfl, .inl rfl⟩
  | fin => rcases hts with h | h <;> cases h
  | reset | timedout => rcases hts with h | h <;> cases h
  | peerFin _ h => rcases h with ⟨⟨h, -⟩ | h, -⟩ | ⟨h, -, -⟩ <;> cases h

/-- Event `e` calls the server in state `w₀`, on the open connection `c`. -/
structure Called (c : ConnId) (w : Stack (Firmware conf σ)) (e : NetEvent) (acked : Bool)
    (after : Stack.After) (w₀ : Stack (Firmware conf σ)) : Prop where
  call : w.serverCall e = some w₀
  moves : Stack.Moves (w.EndsWait e) c (some (w₀.flags, after)) w w₀
  opened : OpenCall (w.conns c).len acked w₀.flags after (w₀.conns c).len
  wire : w₀.wire = w.wire ++ if acked then [.ackd c (w.conns c).len] else []
  conn : w₀.conn = some c
  sappdata : w₀.sappdata = 54
  ahead : 54 ≤ w₀.appdata

variable {e : NetEvent} {acked : Bool} {after : Stack.After}

theorem Called.handles (sh : QuietShell σ) (h : Called c w e acked after w₀)
    (hsound : w.app.server.Sound) (hclose : w.app.server.state ≠ .close) :
    ∃ new, w.app.server.Handles (w₀.app.server.appcall sh.toShell w₀.call).1 acked
        (w₀.conns c).mss.toNat new ∧
      (w₀.app.server.appcall sh.toShell w₀.call).2 =
        { send := some (w₀.app.server.appcall sh.toShell w₀.call).1.outbox.segment } ∧
      (acked = false → w.app.server.newLines sh.toShell w₀.call = new) ∧
      (w₀.flags.newdata = false → new = []) := by
  have hopen : ¬w₀.call.Closing := by
    obtain ⟨h1, h2, h3⟩ := h.opened.opened
    simp [Stack.call, Call.Closing, h1, h2, h3]
  have hsends : w₀.call.Sends := by
    have := h.opened.sends
    simp only [Call.Sends, Stack.call]
    tauto
  have hack : w₀.call.acked = acked := h.opened.ackdata
  have hmss : w₀.call.mss = (w₀.conns c).mss.toNat := by simp [Stack.call, Stack.uipMss, h.conn]
  obtain ⟨new, hh, hreply, hnone⟩ := hsound.handle sh.toShell w₀.call hopen hsends
  have hnew (ha : acked = false) : w.app.server.newLines sh.toShell w₀.call = new :=
    Server.handle_newLines hopen hsends (hack.trans ha) hh.emits.queuedTexts
  rw [h.moves.app, Server.appcall_of_state h.opened.connected hclose]
  rw [hack, hmss] at hh
  exact ⟨new, hh, hreply, hnew, hnone⟩

theorem Called.link (h : Called c w e acked after w₀)
    (hflight : (sender c w).link.flight.length = (w.conns c).len.toNat) :
    Link.ofEvents (w₀.wire.filterMap (linkEvent c)) =
      (if acked then (sender c w).ack else sender c w).link := by
  rw [h.wire, List.filterMap_append, Link.ofEvents_append]
  cases acked
  · rfl
  · simp [Sender.ack, linkEvent, hflight]
    rfl

theorem Called.flight_ne (h : Called c w e true after w₀)
    (hflight : (sender c w).link.flight.length = (w.conns c).len.toNat) :
    (sender c w).link.flight ≠ [] := by
  intro hnil
  rw [hnil] at hflight
  exact h.opened.outstanding rfl (UInt16.toNat_inj.mp hflight.symm)

/-- What is in flight when the server is called is as long as the stack says. -/
theorem Called.flight (h : Called c w e acked after w₀)
    (hflight : (sender c w).link.flight.length = (w.conns c).len.toNat) :
    (if acked then (sender c w).ack else sender c w).link.flight.length =
      (w₀.conns c).len.toNat := by
  rw [h.opened.len]
  cases acked
  · exact hflight
  · simp [Sender.ack, Link.step, h.flight_ne hflight]

theorem Established.call (h : Established c w) (hclose : w.app.server.state ≠ .close)
    (hcalled : Called c w e acked after w₀) (hkeep : KeepsFlight sh.toShell w e) :
    Established c (after.run c (Stack.serverAppcall sh.toShell w₀)) := by
  have hm := hcalled.moves
  obtain ⟨new, hh, hreply, hnew, -⟩ := hcalled.handles sh h.sound hclose
  have hlink := hcalled.link h.flight
  have hlen := hcalled.flight h.flight
  set x := if acked then (sender c w).ack else sender c w with hx
  have hrefills : Refills x new (w₀.conns c).mss.toNat
      (w₀.app.server.appcall sh.toShell w₀.call).1
      (w₀.app.server.appcall sh.toShell w₀.call).2 := by
    refine ⟨?_, ?_, ?_, hreply⟩
    · rw [hh.outbox, hx]
      cases acked <;> rfl
    · obtain ⟨es, htrace, -, hremoved, -⟩ := hh.emits
      rw [htrace, List.filterMap_append, hremoved, hx]
      cases acked
      · exact List.append_nil _
      · rfl
    · rw [hh.emits.queuedTexts, hx]
      cases acked <;> rfl
  have honce : x.ExactlyOnce := by
    cases acked
    · exact h.once
    · exact h.once.ack (hcalled.flight_ne h.flight)
  obtain ⟨honce', hlen'⟩ := hrefills.sender after honce hlink hlen (fun ho => by
    cases acked
    · exact ⟨hcalled.opened.ackdata, hnew rfl ▸ hkeep w₀ hcalled.call c hcalled.conn ho⟩
    · exact absurd hcalled.opened.len ho) hcalled.sappdata hcalled.ahead hm.stopped (by
    obtain ⟨hclose, habort, -⟩ := hcalled.opened.opened
    exact hcalled.opened.after.imp (⟨·, habort, hclose⟩) id)
  refine ⟨?_, hlen', honce'⟩
  rw [(hm.appcall sh.toShell after).1, ← hm.app]
  exact hh.sound

theorem established_connected {due : ConnId → Prop} {n : UInt16}
    (hfree : w.app.server.linemem.AllFree) (htrace : w.app.server.trace = [])
    (hm : Stack.Moves due c (some (w₀.flags, .appsend)) w w₀)
    (hflags : ∃ newdata, w₀.flags = { connected := true, newdata })
    (hlen : (w₀.conns c).len = 0) (hwire : w₀.wire = [.ackd c n]) (hconn : w₀.conn = some c)
    (hsapp : w₀.sappdata = 54) (hahead : 54 ≤ w₀.appdata) :
    Established c (Stack.After.appsend.run c (Stack.serverAppcall sh.toShell w₀)) := by
  obtain ⟨newdata, hflags⟩ := hflags
  have hmss : w₀.call.mss = (w₀.conns c).mss.toNat := by simp [Stack.call, Stack.uipMss, hconn]
  obtain ⟨new, hsound, hout, hemits, hreply⟩ := Server.appcall_connected (s := w₀.app.server)
    sh.toShell w₀.call (by rwa [hm.app]) sh.start_quiet
    (by simp [Stack.call, hflags]) (by simp [Stack.call, hflags]) (by simp [Stack.call, hflags])
  rw [hmss] at hout
  have hrefills : Refills idle new (w₀.conns c).mss.toNat
      (w₀.app.server.appcall sh.toShell w₀.call).1
      (w₀.app.server.appcall sh.toShell w₀.call).2 := by
    have htrace : w₀.app.server.trace = [] := by rw [hm.app, htrace]
    obtain ⟨es, hes, hqueued, hremoved, -⟩ := hemits
    rw [htrace, List.nil_append] at hes
    exact ⟨hout, hes ▸ hremoved, by rw [Server.queuedTexts, hes, hqueued]; rfl, hreply⟩
  have hlink : Link.ofEvents (w₀.wire.filterMap (linkEvent c)) = idle.link := by
    simp [hwire, linkEvent, Link.ofEvents, Link.step, idle]
  obtain ⟨honce, hlen'⟩ := hrefills.sender .appsend idle_exactlyOnce hlink
    (by rw [hlen]; rfl) (fun ho => absurd hlen ho) hsapp hahead hm.stopped
    (.inl ⟨rfl, by simp [hflags], by simp [hflags]⟩)
  refine ⟨?_, hlen', honce⟩
  rw [(hm.appcall sh.toShell _).1, ← hm.app]
  exact hsound

/-- A session on connection `c`, with `I` for the time when it is open. -/
structure Session (I : Stack (Firmware conf σ) → Prop) (c : ConnId) (w : Stack (Firmware conf σ)) :
    Prop where
  passive : w.Passive
  others : ∀ d ≠ c, w.Closed d
  close : w.app.server.state ≠ .close
  session : w.ts c = .synRcvd ∧ w.app.server.linemem.AllFree ∧ w.app.server.trace = [] ∧
      w.wire = [] ∨
    w.ts c = .established ∧ I w

theorem delivers_iff : Delivers c w ↔ Session (Established c) c w :=
  ⟨fun h => ⟨h.passive, h.others, h.close, h.session⟩,
    fun h => ⟨h.passive, h.others, h.close, h.session⟩⟩

variable {I : Stack (Firmware conf σ) → Prop}

theorem Session.call (h : Session I c w) (hconnect : ∀ w', Established c w' → I w')
    (hcall : ∀ acked, Called c w e acked after w₀ → I w →
      I (after.run c (Stack.serverAppcall sh.toShell w₀)))
    (hm : Stack.Moves (w.EndsWait e) c (some (w₀.flags, after)) w w₀)
    (hserver : w.serverCall e = some w₀) (hconn : w₀.conn = some c) (hsapp : w₀.sappdata = 54)
    (hahead : 54 ≤ w₀.appdata)
    (hserves : Serves c (after.run c (Stack.serverAppcall sh.toShell w₀))) :
    (after.run c (Stack.serverAppcall sh.toShell w₀)).ts c = .established ∧
      I (after.run c (Stack.serverAppcall sh.toShell w₀)) := by
  obtain ⟨acked, htrans, hwire⟩ := hm.acked
  have hts := hserves.state
  rw [Stack.ts, (hm.appcall sh.toShell after).2.2] at hts ⊢
  refine ⟨hts.resolve_left (after.state_ne ⟨(by simp), (by simp), (by simp)⟩ htrans.ne_synRcvd), ?_⟩
  rcases h.session with ⟨hsyn, hfree, htrace, hnone⟩ | ⟨hest, hopen⟩
  · rw [hsyn] at htrans
    rw [hnone] at hwire
    generalize hf : w₀.flags = flags, hl : (w₀.conns c).len = n', ht : w₀.ts c = ts' at htrans hts
    cases htrans with
    | connect n newdata =>
      exact hconnect _
        (established_connected hfree htrace hm ⟨newdata, hf⟩ hl hwire hconn hsapp hahead)
    | reset | timedout => rcases hts with h | h <;> cases h
    | peerFin _ h => rcases h with ⟨⟨h, -⟩ | h, -⟩ | ⟨h, -, -⟩ <;> cases h
  · rw [hest] at htrans
    exact hcall acked
      ⟨hserver, hm, openCall_of_transition htrans hts, hwire, hconn, hsapp, hahead⟩ hopen

theorem quiet_of_transition {due : Prop} {n n' : UInt16} {acked : Bool} {ts ts' : TcpState}
    (h : Stack.Transition due ts n acked none ts' n') (hts : ts = .synRcvd ∨ ts = .established) :
    ts' = ts ∧ n' = n ∧ acked = false := by
  cases h with
  | stay => exact ⟨rfl, rfl, rfl⟩
  | ackOnly h | accept h | expire _ h =>
    rcases h with rfl | rfl <;> rcases hts with h | h <;> cases h
  | finAcked | closingAcked => rcases hts with h | h <;> cases h

theorem Session.quiet {due : ConnId → Prop} {d : ConnId} {w₁ w' : Stack (Firmware conf σ)}
    (h : Session I c w) (hm : Stack.Moves due d none w w₁) (hs : w₁.SameServer w') :
    w'.ts c = w.ts c ∧ (w'.conns c).len = (w.conns c).len ∧ w'.wire = w.wire ∧
      w'.app.server = w.app.server := by
  obtain ⟨acked, htrans, hwire⟩ := hm.acked
  rw [Stack.ts, hs.conns, hs.wire, hs.server, hm.app]
  by_cases hd : d = c
  · subst hd
    obtain ⟨hts, hlen, rfl⟩ := quiet_of_transition htrans (h.session.imp And.left And.left)
    exact ⟨hts, hlen, by simpa using hwire, rfl⟩
  · rw [(h.passive.closed_iff d).mp (h.others d hd)] at htrans
    obtain ⟨-, rfl, -⟩ := htrans.of_closed
    rw [hm.others c (Ne.symm hd)]
    exact ⟨rfl, rfl, by simpa using hwire, rfl⟩

/-- What the new connection starts with, what depends on the link, the length in flight and the
server alone, and what every call keeps, holds during the session. -/
theorem Session.step (h : Session I c w) (hconnect : ∀ w', Established c w' → I w')
    (hquiet : ∀ w', sender c w' = sender c w → (w'.conns c).len = (w.conns c).len →
      w'.app.server = w.app.server → I w → I w')
    (hcall : ∀ acked after w₀, Called c w e acked after w₀ → I w →
      I (after.run c (Stack.serverAppcall sh.toShell w₀)))
    (hplace : w.InPlace sh.toShell e) (hserves : Serves c (w.netStep sh.toShell e)) :
    Session I c (w.netStep sh.toShell e) := by
  have hpassive := Stack.netStep_passive sh.toShell h.passive e
  rcases Stack.netStep_cases sh.toShell h.passive e with
    ⟨-, d, w₁, hm, hs⟩ | ⟨d, w₀, after, hserver, hm, hconn, hsapp, hw⟩
  · obtain ⟨hts, hlen, hwire, hserver⟩ := h.quiet hm hs
    have hsender : sender c (w.netStep sh.toShell e) = sender c w := by
      simp only [sender, hwire, hserver]
    refine ⟨hpassive, hserves.others, hserver ▸ h.close, ?_⟩
    rw [hts, hwire, hserver]
    exact h.session.imp id (And.imp id (hquiet _ hsender hlen hserver))
  · have hd : d = c := by
      by_contra hd
      obtain ⟨acked, htrans, -⟩ := hm.acked
      rw [(h.passive.closed_iff d).mp (h.others d hd)] at htrans
      cases htrans.of_closed.1
    subst hd
    rw [hw] at hserves ⊢
    have hahead : 54 ≤ w₀.appdata := hsapp ▸ hplace.ahead w₀ hserver
    refine ⟨hw ▸ hpassive, hserves.others, ?_, .inr (h.call hconnect
      (fun acked => hcall acked after w₀) hm hserver hconn hsapp hahead hserves)⟩
    rw [(hm.appcall sh.toShell after).1]
    exact Server.appcall_state_ne_close h.close

theorem Delivers.step (h : Delivers c w) (hkeep : KeepsFlight sh.toShell w e)
    (hplace : w.InPlace sh.toShell e)
    (hserves : Serves c (w.netStep sh.toShell e)) : Delivers c (w.netStep sh.toShell e) := by
  refine delivers_iff.mpr ((delivers_iff.mp h).step (fun _ => id)
    (fun w' hsender hlen hserver hopen => ?_)
    (fun acked after w₀ hcalled hopen => hopen.call h.close hcalled hkeep) hplace hserves)
  exact ⟨hserver ▸ hopen.sound, by rw [hsender, hlen]; exact hopen.flight, hsender ▸ hopen.once⟩

theorem Accepted.session (h : Accepted c w) : Session I c w where
  passive d := by
    by_cases hd : d = c
    · subst hd
      rw [Stack.ts, h.state]
      exact ⟨rfl, (by simp)⟩
    · rw [Stack.ts, h.others d hd]
      exact ⟨rfl, (by simp)⟩
  others := h.others
  close := h.close
  session := .inl ⟨by rw [Stack.ts, h.state], h.free, h.trace, h.wire⟩

/-- The stack of the HILSim firmware, once connection 0 is accepted. -/
def start : Stack (Firmware conf ShellState) :=
  (Stack.init 0 (.atStart shellState)).netStep
    (shell physCallbacks).toShell (.frame synFrame)

/-- The ACK of the SYN in answer to `synFrame`, with the line `""`. -/
def commandFrame : List UInt8 :=
  [0, 0, 0, 0, 0, 0, 0, 0, 0, 0, 0, 0, 8, 0, 69, 0, 0, 43, 0, 0, 0, 0, 64, 6, 102, 203, 10, 0, 0,
    2, 10, 0, 0, 1, 4, 0, 0, 23, 0, 0, 0, 1, 0, 0, 0, 1, 80, 16, 2, 0, 105, 148, 0, 0, 34, 34, 10]

/-- The ACK of the reply of 22 bytes to `commandFrame`. -/
def ackFrame : List UInt8 :=
  [0, 0, 0, 0, 0, 0, 0, 0, 0, 0, 0, 0, 8, 0, 69, 0, 0, 40, 0, 0, 0, 0, 64, 6, 102, 206, 10, 0, 0,
    2, 10, 0, 0, 1, 4, 0, 0, 23, 0, 0, 0, 4, 0, 0, 0, 23, 80, 16, 2, 0, 149, 160, 0, 0]

end Jsoncmd

end OpenPLC
