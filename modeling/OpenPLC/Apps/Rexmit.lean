import OpenPLC.Apps.Delivery
import OpenPLC.Uip.Layout

/-! Retransmissions of `jsoncmd`.  The server does not keep the segment that it sent: asked for it
again, it fills one anew under the MSS of the moment, and the stack sends as many bytes as
before. -/

namespace OpenPLC

open Lib

namespace Stack

variable {α : Type*} {c : ConnId} {w : Stack α}

/-- From `w` to `w'` connection `c` sends nothing but what is in flight, and no other length is. -/
structure SendsAgain (c : ConnId) (w w' : Stack α) : Prop where
  wire : ∃ es, w'.wire = w.wire ++ es ∧ ∀ e ∈ es, ∃ data, e = .sent c true data
  len : (w'.conns c).len = (w.conns c).len

theorem apprexmit_sendsAgain (c : ConnId) (w : Stack α) : SendsAgain c w (apprexmit c true w) where
  wire := by
    simp only [apprexmit]
    split
    · simp only [emit, goto_wire, putFlags, put]
      exact ⟨_, rfl, fun e he => ⟨_, List.mem_singleton.mp he⟩⟩
    · refine ⟨[], ?_, (by simp)⟩
      split <;> simp [putFlags, put]
  len := by rw [(apprexmit_conn c true w).2]

/-- While data is in flight, the call of the application sends no other data. -/
theorem appsend_sendsAgain (hout : (w.conns c).Outstanding) (hack : w.flags.ackdata = false)
    (habort : w.flags.abort = false) (hclose : w.flags.close = false) :
    SendsAgain c w (appsend c w) := by
  have hlen : (appsendLen c w).conns = w.conns ∧ (appsendLen c w).wire = w.wire := by
    simp only [appsendLen, hack, Bool.false_eq_true, ↓reduceIte]
    split
    · exact ⟨rfl, rfl⟩
    · exact ⟨rfl, rfl⟩
  have hagain : (decide ((w.conns c).len ≠ 0) && !w.flags.ackdata) = true := by simp [hack, hout]
  simp only [appsend, habort, hclose, Bool.false_eq_true, ↓reduceIte, hagain]
  have h := apprexmit_sendsAgain c ((appsendLen c w).modConn c fun k => { k with nrtx := 0 })
  refine ⟨?_, h.len.trans (by rw [modConn_self, hlen.1])⟩
  rw [← hlen.2]
  exact h.wire

end Stack

namespace Jsoncmd

variable {σ : Type*} {c : ConnId} {w w₀ : Stack (Firmware conf σ)} {sh : QuietShell σ}

/-- What is sent again leaves in flight what is in flight. -/
theorem sendsAgain_flight {w' : Stack (Firmware conf σ)} (h : Stack.SendsAgain c w w') :
    (sender c w').link.flight = (sender c w).link.flight := by
  obtain ⟨es, hwire, hes⟩ := h.wire
  simp only [sender, hwire, List.filterMap_append, Link.ofEvents_append]
  generalize Link.ofEvents (w.wire.filterMap (linkEvent c)) = l
  clear hwire
  induction es generalizing l with
  | nil => rfl
  | cons e es ih =>
    obtain ⟨data, rfl⟩ := hes e (by simp)
    simp only [List.filterMap_cons, linkEvent, ↓reduceIte, List.foldl_cons]
    rw [ih (fun e he => hes e (by simp [he]))]
    rfl

/-- Between calls of an established connection: what is in flight are the first lines of the
queue. -/
structure Afloat (c : ConnId) (w : Stack (Firmware conf σ)) : Prop where
  sound : w.app.server.Sound
  length : (sender c w).link.flight.length = (w.conns c).len.toNat
  flight : ∃ k ≤ w.app.server.outbox.queue.length,
    (sender c w).link.flight = (w.app.server.outbox.queue.take k).flatten

theorem Established.afloat (h : Established c w) : Afloat c w where
  sound := h.sound
  length := h.flight
  flight := by
    rcases h.once.flight with hnil | hseg
    · exact ⟨0, Nat.zero_le _, hnil⟩
    · exact ⟨_, h.once.sent_le, hseg⟩

variable {e : NetEvent} {acked : Bool} {after : Stack.After}

/-- A call with data in flight sends at most that again. -/
theorem Called.sendsAgain (sh : QuietShell σ) (h : Called c w e acked after w₀)
    (hacked : acked = false) (hout : (w₀.conns c).Outstanding)
    (hclose : w.app.server.state ≠ .close) :
    Stack.SendsAgain c w (after.run c (Stack.serverAppcall sh.toShell w₀)) := by
  subst hacked
  have hreply : (w₀.app.server.appcall sh.toShell w₀.call).2.close = false := by
    rw [h.moves.app, Server.appcall_of_state h.opened.connected hclose]
    exact Server.handle_close ..
  have hflags : (Stack.serverAppcall sh.toShell w₀).flags = w₀.flags := by
    rw [Stack.serverAppcall_flags, hreply]
    rfl
  have hconns : (Stack.serverAppcall sh.toShell w₀).conns = w₀.conns := by simp
  have hwire : (Stack.serverAppcall sh.toShell w₀).wire = w.wire := by
    rw [Stack.serverAppcall_wire, h.wire]
    simp
  have hlen : (w₀.conns c).len = (w.conns c).len := h.opened.len
  have hagain : Stack.SendsAgain c (Stack.serverAppcall sh.toShell w₀)
      (after.run c (Stack.serverAppcall sh.toShell w₀)) := by
    rcases h.opened.after with rfl | ⟨rfl, -⟩
    · refine Stack.appsend_sendsAgain (by rwa [hconns]) ?_ ?_ ?_
      · rw [hflags]
        exact h.opened.ackdata
      · rw [hflags]
        exact h.opened.opened.2.1
      · rw [hflags]
        exact h.opened.opened.1
    · exact Stack.apprexmit_sendsAgain c _
  exact ⟨hwire ▸ hagain.wire, hagain.len.trans (by rw [hconns, hlen])⟩

theorem Called.server (sh : QuietShell σ) (h : Called c w e acked after w₀) :
    (after.run c (Stack.serverAppcall sh.toShell w₀)).app.server =
      (w₀.app.server.appcall sh.toShell w₀.call).1 := by
  rw [(h.moves.appcall sh.toShell after).1, h.moves.app]

/-- A call while data is in flight leaves it there. -/
theorem Afloat.call_outstanding (h : Afloat c w) (hclose : w.app.server.state ≠ .close)
    (hcalled : Called c w e acked after w₀) (hout : (w₀.conns c).Outstanding) :
    Afloat c (after.run c (Stack.serverAppcall sh.toShell w₀)) := by
  obtain ⟨new, hh, -, -, -⟩ := hcalled.handles sh h.sound hclose
  have hserver := hcalled.server sh
  have hacked : acked = false := by
    by_contra ha
    rw [Bool.not_eq_false] at ha
    exact hout (by rw [hcalled.opened.len, ha]; rfl)
  have hagain := hcalled.sendsAgain sh hacked hout hclose
  refine ⟨hserver ▸ hh.sound, ?_, ?_⟩
  · rw [sendsAgain_flight hagain, hagain.len, h.length]
  · obtain ⟨k, hk, hflight⟩ := h.flight
    rw [sendsAgain_flight hagain, hserver, hh.outbox, hacked]
    refine ⟨k, ?_, ?_⟩
    · simp only [Outbox.refill, Bool.false_eq_true, ↓reduceIte, List.length_append]
      omega
    · simp only [Outbox.refill, Bool.false_eq_true, ↓reduceIte]
      rw [hflight, List.take_append_of_le_length hk]

theorem Afloat.call_idle (h : Afloat c w) (hclose : w.app.server.state ≠ .close)
    (hcalled : Called c w e acked after w₀) (hzero : (w₀.conns c).len = 0) :
    Afloat c (after.run c (Stack.serverAppcall sh.toShell w₀)) := by
  obtain ⟨new, hh, hreply, -, -⟩ := hcalled.handles sh h.sound hclose
  have hserver := hcalled.server sh
  have hlink := hcalled.link h.length
  have hlen := hcalled.flight h.length
  generalize (if acked then (sender c w).ack else sender c w) = x at hlink hlen
  set s := (w₀.app.server.appcall sh.toShell w₀.call).1 with hs
  have hafter : after = .appsend ∧ w₀.flags.abort = false ∧ w₀.flags.close = false ∨
      after = .apprexmit ∧ (w₀.conns c).Outstanding := by
    obtain ⟨hclose, habort, -⟩ := hcalled.opened.opened
    exact hcalled.opened.after.imp (⟨·, habort, hclose⟩) id
  obtain ⟨hwire, hlen'⟩ := call_wire (c := c) sh after hreply hcalled.sappdata hcalled.ahead
    (by rw [hh.outbox]; exact Outbox.length_segment_refill_le ..) (fun ho => absurd hzero ho) hafter
  have hflight : (sender c (after.run c (Stack.serverAppcall sh.toShell w₀))).link.flight =
      s.outbox.segment := by
    simp only [sender, hwire, List.filterMap_append, Link.ofEvents_append, hlink,
      foldl_sentEvents]
    split
    · next hnil =>
      rw [hnil]
      exact List.length_eq_zero_iff.mp (by rw [hlen, hzero]; rfl)
    · simp [hzero, Link.step]
  refine ⟨hserver ▸ hh.sound, by rw [hflight, hlen'], s.outbox.sent, ?_, ?_⟩
  · rw [hserver]
    exact hh.sound.sent_le
  · rw [hflight, hserver]
    rfl

theorem Afloat.call (h : Afloat c w) (hclose : w.app.server.state ≠ .close)
    (hcalled : Called c w e acked after w₀) :
    Afloat c (after.run c (Stack.serverAppcall sh.toShell w₀)) := by
  by_cases hout : (w₀.conns c).Outstanding
  · exact h.call_outstanding hclose hcalled hout
  · exact h.call_idle hclose hcalled (not_not.mp hout)

theorem Session.afloat_step (h : Session (Afloat c) c w) (hplace : w.InPlace sh.toShell e)
    (hserves : Serves c (w.netStep sh.toShell e)) :
    Session (Afloat c) c (w.netStep sh.toShell e) := by
  refine h.step (fun _ => Established.afloat) (fun w' hsender hlen hserver hafloat => ?_)
    (fun acked after w₀ hcalled hafloat => hafloat.call h.close hcalled) hplace hserves
  exact ⟨hserver ▸ hafloat.sound, by rw [hsender, hlen]; exact hafloat.length,
    by rw [hsender, hserver]; exact hafloat.flight⟩

/-- From `w` to `w'` the stack sends again what is in flight, and the server counts its lines. -/
structure Repeats (c : ConnId) (w w' : Stack (Firmware conf σ)) : Prop where
  emits : w'.wire = w.wire ++ [.sent c true (sender c w).link.flight]
  counts : w'.app.server.outbox.segment = (sender c w).link.flight

theorem rexmit_of_transition {due : Prop} {n n' : UInt16} {flags : Flags} {ts ts' : TcpState}
    (h : Stack.Transition due ts n acked (some (flags, after)) ts' n')
    (hrexmit : flags.rexmit = true) :
    ts = .established ∧ acked = false ∧ flags = { rexmit := true } ∧
      OpenCall n acked flags after n' ∧ after = .apprexmit := by
  cases h with
  | rexmit hout =>
    exact ⟨rfl, rfl, rfl, ⟨rfl, ⟨rfl, rfl, rfl⟩, .inl rfl, rfl, nofun, rfl, .inr ⟨rfl, hout⟩⟩, rfl⟩
  | _ => cases hrexmit

/-- A call of the server that is not for data or its acknowledgment. -/
theorem serverCall_entered (hcall : w.serverCall e = some w₀) (hnew : w₀.flags.newdata = false)
    (hack : w₀.flags.ackdata = false) : w₀.Entered := by
  have ofProcess {v : Stack (Firmware conf σ)} {flag : ProcessFlag}
      (ho : w.outcome e = some (v.process flag)) : w₀.Entered := by
    unfold Stack.serverCall at hcall
    rw [ho] at hcall
    cases hprocess : v.process flag with
    | call c w₁ after =>
      rw [hprocess] at hcall
      obtain rfl : w₁ = w₀ := Option.some.inj hcall
      exact Stack.process_call_entered hprocess hnew hack
    | done w₁ | udpCall u w₁ =>
      rw [hprocess] at hcall
      cases hcall
  cases e with
  | input buf len => exact ofProcess rfl
  | process flag => exact ofProcess rfl
  | renew => cases hcall

/-- The call for a retransmission finds data in flight on connection `c`. -/
theorem Session.rexmit_called (sh : QuietShell σ) (h : Session (Afloat c) c w)
    (hcall : w.serverCall e = some w₀) (hrexmit : w₀.flags.rexmit = true) :
    Afloat c w ∧ Called c w e false .apprexmit w₀ ∧ w₀.flags = { rexmit := true } ∧
      w.netStep sh.toShell e =
        Stack.After.apprexmit.run c (Stack.serverAppcall sh.toShell w₀) := by
  rcases Stack.netStep_cases sh.toShell h.passive e with
    ⟨hnone, -⟩ | ⟨d, w₁, after, hserver, hm, hconn, hsapp, hw⟩
  · rw [hnone] at hcall
    cases hcall
  obtain rfl : w₁ = w₀ := Option.some.inj (hserver.symm.trans hcall)
  have hm' := hm
  obtain ⟨acked, htrans, hwire⟩ := hm'.acked
  obtain ⟨hts, rfl, hflags, hopened, rfl⟩ := rexmit_of_transition htrans hrexmit
  obtain rfl : d = c := by
    by_contra hd
    rw [Stack.ts, h.others d hd] at hts
    cases hts
  have hafloat : Afloat d w := by
    rcases h.session with ⟨hsyn, -⟩ | ⟨-, hafloat⟩
    · rw [hsyn] at hts
      cases hts
    · exact hafloat
  have hahead : 54 ≤ w₁.appdata := by
    refine (serverCall_entered hserver ?_ ?_).appdata.ge
    · rw [hflags]
    · rw [hflags]
  exact ⟨hafloat, ⟨hserver, hm, hopened, hwire, hconn, hsapp, hahead⟩, hflags, hw⟩

/-- The retransmission repeats the segment if and only if the segment is filled with the same
lines. -/
theorem Session.repeats_iff (h : Session (Afloat c) c w) (hcall : w.serverCall e = some w₀)
    (hrexmit : w₀.flags.rexmit = true) :
    Repeats c w (w.netStep sh.toShell e) ↔
      Outbox.Refits (sender c w).link.flight w.app.server.outbox.queue (w₀.conns c).mss.toNat := by
  obtain ⟨hafloat, hcalled, hflags, hw⟩ := h.rexmit_called sh hcall hrexmit
  obtain ⟨new, hh, hreply, -, hnew⟩ := hcalled.handles sh hafloat.sound h.close
  obtain rfl := hnew (by rw [hflags])
  have hout : (w₀.conns c).Outstanding := (hcalled.opened.after.resolve_left nofun).2
  have hlen : (w₀.conns c).len = (w.conns c).len := hcalled.opened.len
  have hne : (sender c w).link.flight ≠ [] := by
    rw [← List.length_pos_iff, hafloat.length, ← hlen, Nat.pos_iff_ne_zero]
    exact fun h0 => hout (UInt16.toNat_inj.mp h0)
  obtain ⟨k, -, hflight⟩ := hafloat.flight
  have hsegment := Outbox.segment_refill_eq_iff (m := (w₀.conns c).mss.toNat) hflight hne
  have hout' : (w.netStep sh.toShell e).app.server.outbox =
      w.app.server.outbox.refill (w₀.conns c).mss.toNat [] := by
    rw [hw, hcalled.server, hh.outbox]
    rfl
  constructor
  · intro hrep
    rw [← hsegment, ← hout']
    exact hrep.counts
  · intro hrefits
    have hcounts := hsegment.mpr hrefits
    rw [hh.outbox] at hreply
    simp only [Bool.false_eq_true, ↓reduceIte] at hreply
    rw [hcounts] at hreply
    have hfits : (sender c w).link.flight.length ≤ (w₀.conns c).mss.toNat := hrefits.1.le
    obtain ⟨hsent, -⟩ := call_wire (c := c) sh .apprexmit hreply hcalled.sappdata
      hcalled.ahead hfits (fun _ => ⟨by rw [hafloat.length, hlen], hcalled.opened.ackdata⟩)
        (.inr ⟨rfl, hout⟩)
    refine ⟨?_, by rw [hout', hcounts]⟩
    rw [hw, hsent, hcalled.wire]
    simp [Stack.sentEvents, hne, hout]

/-- At every retransmission of a run of one connection, the segment is sent again and its lines are
counted if and only if it fits under the MSS of the moment, and no line more. -/
theorem rexmit_repeats_iff (sh : QuietShell σ) (c : ConnId) (w : Stack (Firmware conf σ))
    (es : List NetEvent) (e : NetEvent) (w₀ : Stack (Firmware conf σ)) (hstart : Accepted c w)
    (hserves : Along (Stack.netStep sh.toShell) (fun w e => Serves c (w.netStep sh.toShell e)) w es)
    (hplace : Along (Stack.netStep sh.toShell) (Stack.InPlace sh.toShell) w es)
    (hcall : (run (Stack.netStep sh.toShell) w es).serverCall e = some w₀)
    (hrexmit : w₀.flags.rexmit = true) :
    let w' := run (Stack.netStep sh.toShell) w es
    Repeats c w' (w'.netStep sh.toShell e) ↔
      Outbox.Refits (sender c w').link.flight w'.app.server.outbox.queue
        (w₀.conns c).mss.toNat := by
  intro w'
  have h : Session (Afloat c) c w' :=
    (hserves.and hplace).invariant (fun _ _ h hg => h.afloat_step hg.2 hg.1) hstart.session
  exact h.repeats_iff hcall hrexmit

/-- The command, and the ticks of the timer before the retransmission of its reply. -/
def unacked : List NetEvent :=
  [.frame commandFrame, .firstTimer, .firstTimer, .firstTimer]

theorem unacked_isSome :
    ((run (Stack.netStep (shell physCallbacks).toShell) start unacked).serverCall
      (.process (.timer 0))).isSome := by decide +kernel

theorem rexmit_repeats_reply :
    let w := run (Stack.netStep (shell physCallbacks).toShell) start unacked
    ((w.serverCall (.process (.timer 0))).get unacked_isSome).flags.rexmit = true ∧
      Repeats 0 w (w.netStep (shell physCallbacks).toShell (.process (.timer 0))) := by
  have hrexmit : (((run (Stack.netStep (shell physCallbacks).toShell) start unacked).serverCall
      (.process (.timer 0))).get unacked_isSome).flags.rexmit = true := by decide +kernel
  exact ⟨hrexmit, (rexmit_repeats_iff (shell physCallbacks) 0 start unacked (.process (.timer 0)) _
    (by decide +kernel) (by decide +kernel) (by decide +kernel)
    (Option.some_get unacked_isSome).symm hrexmit).mpr
    (by decide +kernel)⟩

/-- The ACK of the SYN once more, with a window of 20 bytes. -/
def windowFrame : List UInt8 :=
  [0, 0, 0, 0, 0, 0, 0, 0, 0, 0, 0, 0, 8, 0, 69, 0, 0, 40, 0, 0, 0, 0, 64, 6, 102, 206, 10, 0, 0,
    2, 10, 0, 0, 1, 4, 0, 0, 23, 0, 0, 0, 4, 0, 0, 0, 1, 80, 16, 0, 20, 151, 162, 0, 0]

/-- The peer narrows its window below the 22 bytes in flight. -/
def narrowed : List NetEvent :=
  [.frame commandFrame, .frame windowFrame, .firstTimer, .firstTimer, .firstTimer]

/-- The server is asked for the segment again, and no line is new, but nothing is sent. -/
theorem not_rexmit_repeats :
    let w := run (Stack.netStep (shell physCallbacks).toShell) start narrowed
    let w' := w.netStep (shell physCallbacks).toShell (.process (.timer 0))
    (windowFrame.length = 54 ∧ windowFrame[47]? = some 16) ∧
      Accepted 0 start ∧
      Along (Stack.netStep (shell physCallbacks).toShell)
        (fun w e => Serves 0 (w.netStep (shell physCallbacks).toShell e)) start narrowed ∧
      (∃ w₀ ∈ w.serverCall (.process (.timer 0)), w₀.flags.rexmit = true) ∧
      w'.app.server.queuedTexts =
        (start.netStep (shell physCallbacks).toShell (.frame commandFrame)).app.server.queuedTexts ∧
      w'.wire = w.wire ∧
      ¬Repeats 0 w w' := by
  refine ⟨by decide, by decide +kernel, by decide +kernel, by decide +kernel, by decide +kernel,
    by decide +kernel, fun h => ?_⟩
  have hwire := congrArg List.length h.emits
  revert hwire
  decide +kernel

end Jsoncmd

end OpenPLC
