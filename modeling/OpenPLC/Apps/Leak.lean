import OpenPLC.Apps.Events
import OpenPLC.Apps.Ownership
import OpenPLC.Apps.Telnetd
import OpenPLC.Lib.Run

/-! The pool of lines of the server over the states of one TCP connection at a time.  Two ways to
end a connection skip `closed`: the server reports a pending close instead of looking at the flags
of the call, and `uip_process` ends the wait in `UIP_FIN_WAIT_2` without a call. -/

namespace OpenPLC

open Lib

namespace Server

variable {K : Conf} {σ : Type*} {sh : Shell σ} {s : Server K σ} {call : Call}

theorem Weak.appcall (h : Weak s) (hc : call.connected = false) :
    Weak (s.appcall sh call).1 ∧
      ((s.appcall sh call).2.close = true → (s.appcall sh call).1.state ≠ .close) := by
  by_cases hs : s.state = .close
  · rw [appcall_of_close hc hs]
    exact ⟨⟨h.le_one, h.queued⟩, nofun⟩
  · rw [appcall_of_state hc hs]
    exact ⟨h.handle call, by simp [handle_close]⟩

/-- The call for a new connection, which may ask for the close at once. -/
theorem weak_appcall_connected (h : s.linemem.AllFree) (hc : call.connected = true) :
    Weak (s.appcall sh call).1 ∧
      ((s.appcall sh call).2.close = true → (s.appcall sh call).1.state ≠ .close) := by
  have hstart : Weak { s with lines := .empty, bufptr := 0, state := .normal } := weak_of_allFree h
  have hweak : Weak (s.connected sh) :=
    hstart.steps (s.connected_steps (Q := True) fun _ => trivial).steps
  simp only [Server.appcall, hc, ↓reduceIte]
  split
  · exact ⟨⟨hweak.le_one, hweak.queued⟩, (by simp)⟩
  · exact ⟨hweak.handle call, by simp [handle_close]⟩

/-- A call for the end of the connection frees the pool, if no close is pending. -/
theorem Weak.appcall_closing (sh : Shell σ) (h : Weak s) (hc : call.connected = false)
    (hclosing : call.Closing)
    (hacked : call.acked = false) (hnew : call.newdata = false)
    (hs : s.state = .close → s.linemem.AllFree) : (s.appcall sh call).1.linemem.AllFree := by
  by_cases hclose : s.state = .close
  · rw [appcall_of_close hc hclose]
    exact hs hclose
  · rw [appcall_of_state hc hclose]
    exact h.handle_closing hclosing hacked hnew

end Server

namespace Telnetd

variable {K : Conf} {σ : Type*} {sh : Shell σ} {s : Server K σ} {ts ts' : TcpState} {due : Prop}
  {n n' : UInt16} {acked : Bool}

/-- The pool while the connection is in a state: lines are in use only while it is established or
its end is still to be reported, and no close is pending once the server has closed it. -/
def PoolOk : TcpState → Server K σ → Prop
  | .established, s | .lastAck, s => s.Weak
  | .finWait1, s | .finWait2, s => s.Weak ∧ s.state ≠ .close
  | _, s => s.linemem.AllFree

theorem PoolOk.weak (h : PoolOk ts s) : s.Weak := by
  cases ts with
  | established | lastAck => exact h
  | finWait1 | finWait2 => exact h.1
  | _ => exact Server.weak_of_allFree h

theorem PoolOk.quiet (h : PoolOk ts s) (ht : Stack.Transition due ts n acked none ts' n')
    (hwait : due → ts = .finWait2 → s.linemem.AllFree) : PoolOk ts' s := by
  cases ht with
  | stay | ackOnly => exact h
  | accept hts => rcases hts with rfl | rfl <;> exact h
  | finAcked => exact h
  | closingAcked => exact h
  | expire _ hts hdue =>
    rcases hts with rfl | rfl
    · exact h
    · exact hwait hdue rfl

/-- What the call of a transition does to the pool, and where the connection goes after it. -/
theorem PoolOk.call {w : Stack (Firmware K σ)} {after : Stack.After} (h : PoolOk ts s)
    (ht : Stack.Transition due ts n acked (some (w.flags, after)) ts' n')
    (hend : ts' = .closed → s.state = .close → s.linemem.AllFree) :
    PoolOk (after.state (if (s.appcall sh w.call).2.close then { close := true } else w.flags) ts')
      (s.appcall sh w.call).1 := by
  have hconn : w.call.connected = w.flags.connected := rfl
  have hacked : w.call.acked = w.flags.ackdata := rfl
  have hnew : w.call.newdata = w.flags.newdata := rfl
  have hclosing : w.call.Closing ↔ w.flags.close ∨ w.flags.abort ∨ w.flags.timedout := Iff.rfl
  generalize w.call = call, w.flags = flags at *
  -- the state after label `appsend`, where only a close that the server asks for ends the
  -- connection
  have appsend (hpool : (s.appcall sh call).1.Weak ∧
        ((s.appcall sh call).2.close = true → (s.appcall sh call).1.state ≠ .close))
      (habort : flags.abort = false) (hclose : flags.close = false) :
      PoolOk (Stack.After.appsend.state
        (if (s.appcall sh call).2.close then { close := true } else flags) .established)
        (s.appcall sh call).1 := by
    cases hreply : (s.appcall sh call).2.close with
    | true => exact ⟨hpool.1, hpool.2 hreply⟩
    | false =>
      simp only [Bool.false_eq_true, ↓reduceIte, Stack.After.state, habort, hclose]
      exact hpool.1
  cases ht with
  | connect => exact appsend (Server.weak_appcall_connected h hconn) rfl rfl
  | segment => exact appsend (h.weak.appcall hconn) rfl rfl
  | poll => exact appsend (h.weak.appcall hconn) rfl rfl
  | fin => exact (h.weak.appcall hconn).1
  | rexmit => exact (h.weak.appcall hconn).1
  | lastAck | reset | timedout =>
    exact h.weak.appcall_closing _ hconn (by simp [hclosing]) hacked hnew (hend rfl)
  | peerFin _ hts =>
    have hpool : s.Weak ∧ s.state ≠ .close := by
      rcases hts with ⟨⟨rfl, -⟩ | rfl, -⟩ | ⟨rfl, -, -⟩ <;> exact h
    have hfree := hpool.1.appcall_closing sh hconn (by simp [hclosing]) hacked hnew
      fun hs => absurd hs hpool.2
    rcases hts with ⟨-, rfl⟩ | ⟨-, -, rfl⟩ <;> exact hfree

/-- No connection but one is alive. -/
def AtMostOne {α : Type*} (w : Stack α) : Prop := ∀ c d, ¬w.Closed c → ¬w.Closed d → c = d

/-- Neither of the two ways to skip `closed` is taken while lines are in use: a call for a
connection that is already `UIP_CLOSED` while a close is pending, and the end of the wait in
`UIP_FIN_WAIT_2`. -/
structure Releases (w : Stack (Firmware K σ)) (e : NetEvent) : Prop where
  call : w.app.server.state = .close → (∃ w₀ ∈ w.serverCall e, ∃ c ∈ w₀.conn, w₀.Closed c) →
    w.app.server.linemem.AllFree
  wait : (∃ c, w.EndsWait e c ∧ w.ts c = .finWait2) → w.app.server.linemem.AllFree

instance {α : Type*} (w : Stack α) : Decidable (AtMostOne w) :=
  inferInstanceAs (Decidable (∀ _ _, _))

instance (w : Stack (Firmware K σ)) (e : NetEvent) : Decidable (Releases w e) :=
  decidable_of_iff
    ((w.app.server.state = .close → (∃ w₀ ∈ w.serverCall e, ∃ c ∈ w₀.conn, w₀.Closed c) →
        w.app.server.linemem.AllFree) ∧
      ((∃ c, w.EndsWait e c ∧ w.ts c = .finWait2) → w.app.server.linemem.AllFree))
    ⟨fun h => ⟨h.1, h.2⟩, fun h => ⟨h.call, h.wait⟩⟩

/-- The pool is as the state of the one connection that may be alive says. -/
structure Pooled (w : Stack (Firmware K σ)) : Prop where
  passive : w.Passive
  pool : AtMostOne w → ∃ c, (∀ d ≠ c, w.Closed d) ∧ PoolOk (w.ts c) w.app.server

variable {w : Stack (Firmware K σ)} {e : NetEvent}

theorem Pooled.quiet {w' w₁ : Stack (Firmware K σ)} {d : ConnId} (h : Pooled w)
    (hone : AtMostOne w) (hrel : Releases w e) (hm : Stack.Moves (w.EndsWait e) d none w w₁)
    (hs : w₁.SameServer w') (hone' : AtMostOne w') :
    ∃ c, (∀ d ≠ c, w'.Closed d) ∧ PoolOk (w'.ts c) w'.app.server := by
  obtain ⟨c, hothers, hpool⟩ := h.pool hone
  obtain ⟨a, htrans, -⟩ := hm.acked
  simp only [Stack.Closed, Stack.ts, hs.conns, hs.server, hm.app]
  by_cases hd : d = c
  · subst hd
    refine ⟨d, fun d' hd' => ?_, hpool.quiet htrans fun hdue hts => hrel.wait ⟨d, hdue, hts⟩⟩
    rw [hm.others d' hd']
    exact hothers d' hd'
  rw [(h.passive.closed_iff d).mp (hothers d hd)] at htrans
  rcases htrans.of_closed.2.2 with hts | hts
  · refine ⟨c, fun d' hd' => ?_, ?_⟩
    · by_cases hd'' : d' = d
      · subst hd''
        rw [← hts, ← hm.stopped]
      · rw [hm.others d' hd'']
        exact hothers d' hd'
    · rw [hm.others c (Ne.symm hd)]
      exact hpool
  · -- a peer connects, so the connection before it is `UIP_CLOSED`
    have hopen : ¬w'.Closed d := by
      rw [Stack.Closed, hs.conns]
      intro h
      rw [Stack.ts, h] at hts
      cases hts
    have hclosed (d' : ConnId) (hd' : d' ≠ d) : (w₁.conns d').tcpstateflags = ⟨.closed, false⟩ := by
      by_contra hnot
      exact hd' (hone' d' d (by rwa [Stack.Closed, hs.conns]) hopen)
    refine ⟨d, hclosed, ?_⟩
    have hc := hclosed c (Ne.symm hd)
    rw [hm.others c (Ne.symm hd)] at hc
    rw [Stack.ts, hc] at hpool
    rw [Stack.ts] at hts
    rw [hts]
    exact hpool

theorem Pooled.call {w₀ : Stack (Firmware K σ)} {d : ConnId} {after : Stack.After} (h : Pooled w)
    (hone : AtMostOne w) (hrel : Releases w e)
    (hm : Stack.Moves (w.EndsWait e) d (some (w₀.flags, after)) w w₀)
    (hcall : w.serverCall e = some w₀) (hconn : w₀.conn = some d) :
    let w' := after.run d (Stack.serverAppcall sh w₀)
    ∃ c, (∀ d ≠ c, w'.Closed d) ∧ PoolOk (w'.ts c) w'.app.server := by
  obtain ⟨c, hothers, hpool⟩ := h.pool hone
  obtain ⟨a, htrans, -⟩ := hm.acked
  have hd : d = c := by
    by_contra hd
    rw [(h.passive.closed_iff d).mp (hothers d hd)] at htrans
    cases htrans.of_closed.1
  subst hd
  obtain ⟨hserver, hothers', hstate⟩ := hm.appcall sh after
  refine ⟨d, fun d' hd' => ?_, ?_⟩
  · rw [Stack.Closed, hothers' d' hd']
    exact hothers d' hd'
  · rw [Stack.ts, hstate, hserver]
    refine hpool.call htrans fun hts hs => hrel.call hs ⟨w₀, hcall, d, hconn, ?_⟩
    rw [Stack.Closed, ← hts, ← hm.stopped]

theorem Pooled.step (h : Pooled w) (hone : AtMostOne w) (hrel : Releases w e) :
    Pooled (w.netStep sh e) := by
  refine ⟨Stack.netStep_passive sh h.passive e, fun hone' => ?_⟩
  rcases Stack.netStep_cases sh h.passive e with
    ⟨-, d, w₁, hm, hs⟩ | ⟨d, w₀, after, hcall, hm, hconn, -, hw⟩
  · exact h.quiet hone hrel hm hs hone'
  · rw [hw]
    exact h.call hone hrel hm hcall hconn

theorem pooled_of_closed (hclosed : ∀ c, w.Closed c) (hfree : w.app.server.linemem.AllFree) :
    Pooled w where
  passive c := by
    rw [Stack.ts, hclosed c]
    exact ⟨rfl, (by simp)⟩
  pool _ := ⟨0, fun d _ => hclosed d, by
    rw [Stack.ts, hclosed 0]
    exact hfree⟩

/-- With one connection alive at a time, every line is free whenever none is. -/
theorem lines_free (w : Stack (Firmware conf Unit)) (es : List NetEvent)
    (hclosed : ∀ c, w.Closed c) (hfree : w.app.server.linemem.AllFree)
    (hone : Along (Stack.netStep shell) (fun w _ => AtMostOne w) w es)
    (hrel : Along (Stack.netStep shell) Releases w es) :
    let w' := run (Stack.netStep shell) w es
    (∀ c, w'.Closed c) → w'.app.server.linemem.AllFree := by
  intro w' hclosed'
  have hpooled : Pooled w' := (hone.and hrel).invariant (fun _ _ h hg => h.step hg.1 hg.2)
    (pooled_of_closed hclosed hfree)
  obtain ⟨c, -, hpool⟩ := hpooled.pool fun d _ hd => absurd (hclosed' d) hd
  rwa [Stack.ts, hclosed' c] at hpool

/-- The stack of the firmware with no connection yet. -/
def start : Stack (Firmware conf Unit) :=
  .init 0 (.atStart ())

/-- The ACK of the SYN in answer to `synFrame`, with the line `exit`. -/
def exitFrame : List UInt8 :=
  [0, 0, 0, 0, 0, 0, 0, 0, 0, 0, 0, 0, 8, 0, 69, 0, 0, 45, 0, 0, 0, 0, 64, 6, 102, 201, 10, 0, 0,
    2, 10, 0, 0, 1, 4, 0, 0, 23, 0, 0, 0, 1, 0, 0, 0, 1, 80, 16, 2, 0, 188, 199, 0, 0, 101, 120,
    105, 116, 10]

/-- The same with the line `?`. -/
def helpFrame : List UInt8 :=
  [0, 0, 0, 0, 0, 0, 0, 0, 0, 0, 0, 0, 8, 0, 69, 0, 0, 42, 0, 0, 0, 0, 64, 6, 102, 204, 10, 0, 0,
    2, 10, 0, 0, 1, 4, 0, 0, 23, 0, 0, 0, 1, 0, 0, 0, 1, 80, 16, 2, 0, 86, 173, 0, 0, 63, 10]

/-- A RST in the connection of `synFrame`. -/
def rstFrame : List UInt8 :=
  [0, 0, 0, 0, 0, 0, 0, 0, 0, 0, 0, 0, 8, 0, 69, 0, 0, 40, 0, 0, 0, 0, 64, 6, 102, 206, 10, 0, 0,
    2, 10, 0, 0, 1, 4, 0, 0, 23, 0, 0, 0, 6, 0, 0, 0, 1, 80, 4, 2, 0, 149, 192, 0, 0]

theorem lines_free_reset :
    (run (Stack.netStep shell) start
      [.frame synFrame, .frame helpFrame, .frame rstFrame]).app.server.linemem.AllFree :=
  lines_free start _ (by decide +kernel) (by decide +kernel) (by decide +kernel)
    (by decide +kernel) (by decide +kernel)

/-- After the line `exit`, a reset leaves lines in use that no connection owns. -/
theorem not_lines_free :
    ¬∀ (w : Stack (Firmware conf Unit)) (es : List NetEvent),
      (∀ c, w.Closed c) → w.app.server.linemem.AllFree →
        Along (Stack.netStep shell) (fun w _ => AtMostOne w) w es →
          let w' := run (Stack.netStep shell) w es
          (∀ c, w'.Closed c) → w'.app.server.linemem.AllFree := by
  intro h
  have hfree := h start [.frame synFrame, .frame exitFrame, .frame rstFrame] (by decide +kernel)
    (by decide +kernel) (by decide +kernel) (by decide +kernel)
  revert hfree
  decide +kernel

end Telnetd

end OpenPLC
