import Mathlib.Algebra.GroupWithZero.Nat
import OpenPLC.Apps.Telnetd
import OpenPLC.Uip.Demux

/-! A peer that falls silent.  A connection with outstanding data, or with a SYN or a FIN of its own
that is not acknowledged, retransmits at growing intervals and then gives up; a connection in its
last wait counts to the end of it.  So no such connection stays open for more than 501 calls for its
timer. -/

namespace OpenPLC

open Lib

/-! ### The ticks that are left -/

/-- The number of calls for the timer after retransmission `n`, from the next one to the last. -/
def rexmitTicks (n : Nat) : Nat :=
  (((List.range 8).drop n).map fun i => 3 * 2 ^ min i 4 + 1).sum

theorem rexmitTicks_of_lt {n : Nat} (h : n < 8) :
    rexmitTicks n = 3 * 2 ^ min n 4 + 1 + rexmitTicks (n + 1) := by
  revert n
  decide

theorem rexmitTicks_le {n : Nat} (h : n ≤ 8) : rexmitTicks n ≤ 245 := by
  revert n
  decide

namespace Conn

/-- The connection is in its last wait. -/
def LastWait (k : Conn) : Prop :=
  k.tcpstateflags = ⟨.timeWait, false⟩ ∨ k.tcpstateflags = ⟨.finWait2, false⟩

instance (k : Conn) : Decidable k.LastWait := inferInstanceAs (Decidable (_ ∨ _))

/-- The connection waits for its peer or for the end of its last wait. -/
def Waits (k : Conn) : Prop :=
  k.LastWait ∨ k.tcpstateflags ≠ ⟨.closed, false⟩ ∧ k.Outstanding ∧ k.nrtx ≤ 8

/-- The number of calls for the timer that the wait still takes, without the last one. -/
def ticksLeft (k : Conn) : Nat :=
  if k.LastWait then (119 + 256 - k.timer.toNat) % 256
  else k.timer.toNat + rexmitTicks k.nrtx.toNat

theorem Waits.ticksLeft_le {k : Conn} (h : k.Waits) : k.ticksLeft ≤ 500 := by
  unfold ticksLeft
  split
  · omega
  · next hlast =>
    have htimer := k.timer.toNat_lt
    have hrexmit := rexmitTicks_le (UInt8.le_iff_toNat_le.mp (h.resolve_left hlast).2.2)
    omega

end Conn

namespace Stack

variable {α : Type*} {w : Stack α} {c : ConnId}

/-! ### One call for the timer -/

/-- What a call for the timer of a connection that waits does to it: it closes the connection, or
one tick less is left. -/
def Ticked (k k' : Conn) : Prop :=
  k'.tcpstateflags = ⟨.closed, false⟩ ∨ k'.Waits ∧ k'.ticksLeft + 1 ≤ k.ticksLeft

theorem ticked_lastWait {k : Conn} (hlast : k.LastWait) (htimer : k.timer + 1 ≠ 120) :
    Ticked k { k with timer := k.timer + 1 } := by
  have hlast' : Conn.LastWait { k with timer := k.timer + 1 } := hlast
  refine .inr ⟨.inl hlast', ?_⟩
  unfold Conn.ticksLeft
  rw [if_pos hlast, if_pos hlast']
  have hne : k.timer.toNat ≠ 119 := by
    intro h
    apply htimer
    apply UInt8.toNat.inj
    rw [UInt8.toNat_add, h]
    rfl
  have hlt := k.timer.toNat_lt
  have h1 : (1 : UInt8).toNat = 1 := rfl
  simp only [UInt8.toNat_add, h1]
  omega

theorem ticked_countdown {k : Conn} (hlast : ¬k.LastWait) (hwaits : k.Waits)
    (htimer : k.timer ≠ 0) :
    Ticked k { k with timer := k.timer - 1 } := by
  have hlast' : ¬Conn.LastWait { k with timer := k.timer - 1 } := hlast
  refine .inr ⟨.inr (hwaits.resolve_left hlast), ?_⟩
  unfold Conn.ticksLeft
  rw [if_neg hlast, if_neg hlast']
  have hpos : k.timer.toNat ≠ 0 := fun h => htimer (UInt8.toNat.inj h)
  have h1 : (1 : UInt8).toNat = 1 := rfl
  have hle : (1 : UInt8) ≤ k.timer := by
    rw [UInt8.le_iff_toNat_le, h1]
    omega
  simp only [UInt8.toNat_sub_of_le _ _ hle, h1]
  omega

theorem rexmit_timer {n : UInt8} (h : n.toNat < 8) :
    ((3 : UInt8) <<< (if n > 4 then 4 else n)).toNat = 3 * 2 ^ min n.toNat 4 := by
  have hsmall : ∀ i : Fin 8, ((3 : UInt8) <<<
      (if UInt8.ofNat i > 4 then 4 else UInt8.ofNat i)).toNat = 3 * 2 ^ min i.val 4 := by decide
  have hn := hsmall ⟨n.toNat, h⟩
  rwa [UInt8.ofNat_toNat] at hn

theorem ticked_rexmit {k : Conn} (hlast : ¬k.LastWait) (hwaits : k.Waits) (htimer : k.timer = 0)
    (hnrtx : k.nrtx ≠ 8) :
    Ticked k { k with
      timer := 3 <<< (if k.nrtx > 4 then 4 else k.nrtx), nrtx := k.nrtx + 1 } := by
  obtain ⟨hopen, hout, hle⟩ := hwaits.resolve_left hlast
  have hlt : k.nrtx.toNat < 8 := UInt8.lt_iff_toNat_lt.mp (UInt8.lt_of_le_of_ne hle hnrtx)
  have hnext : (k.nrtx + 1).toNat = k.nrtx.toNat + 1 := by
    rw [UInt8.toNat_add]
    exact Nat.mod_eq_of_lt (by simp; omega)
  have hlast' : ¬Conn.LastWait { k with
      timer := 3 <<< (if k.nrtx > 4 then 4 else k.nrtx), nrtx := k.nrtx + 1 } := hlast
  refine .inr ⟨.inr ⟨hopen, hout, ?_⟩, ?_⟩
  · rw [UInt8.le_iff_toNat_le, hnext]
    exact hlt
  · unfold Conn.ticksLeft
    rw [if_neg hlast, if_neg hlast']
    simp only [htimer, hnext, rexmit_timer hlt, rexmitTicks_of_lt hlt]
    omega

theorem rexmit_conn (c : ConnId) (w : Stack α) :
    ∃ w', (rexmit c w = .done w' ∨ rexmit c w = .call c w' .apprexmit) ∧
      w'.conns c = { w.conns c with
        timer := 3 <<< (if (w.conns c).nrtx > 4 then 4 else (w.conns c).nrtx)
        nrtx := (w.conns c).nrtx + 1 } := by
  unfold rexmit
  dsimp only
  split
  · exact ⟨_, .inl rfl, by simp [tcpSendSynack, tcpSendSyn, putFlags, put]⟩
  · exact ⟨_, .inl rfl, by simp [tcpSendSyn, putFlags, put]⟩
  · exact ⟨_, .inr rfl, by simp⟩
  · exact ⟨_, .inl rfl, by simp [putFlags, put]⟩
  · exact ⟨_, .inl rfl, by simp [putFlags, put]⟩
  · exact ⟨_, .inl rfl, by simp [putFlags, put]⟩
  · exact ⟨_, .inl rfl, by simp⟩

theorem connTimer_ticked (hwaits : (w.conns c).Waits) :
    ∃ w', (connTimer c w = .done w' ∨ connTimer c w = .call c w' .apprexmit ∨
      connTimer c w = .call c w' .timedout) ∧ Ticked (w.conns c) (w'.conns c) := by
  unfold connTimer
  dsimp only
  split
  · next hlast =>
    split
    · refine ⟨_, .inl rfl, .inl ?_⟩
      rw [goto_conns, setState, modConn_self]
    · next htimer =>
      refine ⟨_, .inl rfl, ?_⟩
      rw [modConn_self] at htimer
      rw [goto_conns, modConn_self]
      exact ticked_lastWait hlast htimer
  next hlast =>
  obtain ⟨hopen, hout, -⟩ := hwaits.resolve_left hlast
  rw [if_neg hopen, if_pos hout]
  split
  · next htimer =>
    refine ⟨_, .inl rfl, ?_⟩
    rw [goto_conns, modConn_self]
    exact ticked_countdown hlast hwaits htimer
  next htimer =>
  split
  · refine ⟨_, .inr (.inr rfl), .inl ?_⟩
    simp [setState]
  · next hgives =>
    obtain ⟨w', hrexmit, hconn⟩ :=
      rexmit_conn c (w.modConn c fun k => { k with timer := k.timer - 1 })
    refine ⟨w', hrexmit.imp id .inl, ?_⟩
    rw [hconn, modConn_self]
    exact ticked_rexmit hlast hwaits (not_not.mp htimer) fun h => hgives (.inl h)

/-! ### Runs -/

variable {K : Conf} {σ : Type*} {sh : Shell σ}

theorem netStep_timer_ticked {w : Stack (Firmware K σ)} (hwaits : (w.conns c).Waits)
    (hlost : w.lost = false) :
    Ticked (w.conns c) ((w.netStep sh (.process (.timer c))).conns c) := by
  have hstart : ({ w.enter with conn := some c } : Stack (Firmware K σ)).tick.conns = w.conns := rfl
  obtain ⟨w', houtcome, hticked⟩ :=
    connTimer_ticked (w := ({ w.enter with conn := some c } : Stack (Firmware K σ)).tick) hwaits
  rw [hstart] at hticked
  have hconns : (w.netStep sh (.process (.timer c))).conns = w'.conns := by
    unfold netStep
    simp only [outcome, process, hlost, Bool.false_eq_true, ↓reduceIte, dispatch]
    rcases houtcome with h | h | h
    · rw [h]
      rfl
    · rw [h]
      exact (apprexmit_conn c true _).2.trans (serverAppcall_conns sh w')
    · rw [h]
      simp only [Outcome.run, After.run, putFlags, put, goto_conns]
      exact serverAppcall_conns sh w'
  rw [hconns]
  exact hticked

/-- The event is no segment for connection `c`. -/
def Unheard (c : ConnId) (w : Stack α) (e : NetEvent) : Prop :=
  ∀ w₁ ∈ w.eventSegment e, w₁.findConn ≠ some c

instance (c : ConnId) (w : Stack α) (e : NetEvent) : Decidable (w.Unheard c e) :=
  inferInstanceAs (Decidable (∀ _ ∈ _, _))

theorem unheard_timer (c d : ConnId) (w : Stack α) : w.Unheard c (.process (.timer d)) := by
  intro w₁ hw₁
  simp only [eventSegment, arrival, ite_self, Option.bind_none] at hw₁
  cases hw₁

/-- The event closes connection `c`, or opens it anew for another peer. -/
def Releases (sh : Shell σ) (c : ConnId) (w : Stack (Firmware K σ)) (e : NetEvent) : Prop :=
  (w.netStep sh e).Closed c ∨ ∃ w₁ ∈ w.eventSegment e, w₁.Accepts c

/-- An event other than a call for the timer leaves a connection as it is that waits, unless it is a
segment for it or for a new connection. -/
theorem netStep_conn_of_unheard (sh : Shell σ) {w : Stack (Firmware K σ)} {e : NetEvent}
    (hwaits : (w.conns c).Waits) (hunheard : w.Unheard c e) (htimer : e ≠ .process (.timer c)) :
    (∃ w₁ ∈ w.eventSegment e, w₁.Accepts c) ∨ (w.netStep sh e).conns c = w.conns c := by
  obtain ⟨d, hd⟩ := exists_ne c
  cases harrival : w.arrival e with
  | none =>
    refine .inr ?_
    by_cases hconn : eventConn e = some c
    · cases e with
      | input buf len => cases hconn
      | renew => cases hconn
      | process flag =>
        cases flag with
        | timer c' =>
          obtain rfl := Option.some.inj hconn
          exact absurd rfl htimer
        | pollRequest c' =>
          obtain rfl := Option.some.inj hconn
          have hidle : ¬((w.conns c').tcpstateflags.ts = .established ∧
              ¬(w.conns c').Outstanding) := by
            rintro ⟨hts, hout⟩
            rcases hwaits with (h | h) | h
            · rw [h] at hts
              cases hts
            · rw [h] at hts
              cases hts
            · exact hout h.2.1
          unfold netStep
          simp only [outcome, process, dispatch, enter, hidle, ↓reduceIte]
          split <;> simp only [Outcome.run, goto_conns]
        | _ => cases hconn
    · obtain ⟨c', hc'⟩ : ∃ c' ≠ c, ∀ b, eventConn e = some b → b = c' := by
        cases hevent : eventConn e with
        | none =>
          refine ⟨d, hd, ?_⟩
          intro b hb
          cases hb
        | some b =>
          refine ⟨b, ?_, fun _ h => (Option.some.inj h).symm⟩
          rintro rfl
          exact hconn hevent
      exact (netStep_keeps_of_arrival harrival hc'.2).2 c hc'.1.symm
  | some w₁ =>
    obtain ⟨hsame, -, -, houtcome⟩ := arrival_eq_some harrival
    have hstep : w.netStep sh e = w₁.dataInput.run (firmwareApps sh) := by
      unfold netStep
      rw [houtcome]
    rw [hstep]
    cases hsegment : w₁.segment? with
    | none =>
      refine .inr ((run_keeps ?_).2 c hd.symm)
      exact .trans (Changes.of_conns hsame.conns) (dataInput_keeps hsegment)
    | some w₂ =>
      have hevent : w.eventSegment e = some w₂ := by simp [eventSegment, harrival, hsegment]
      obtain ⟨hsame₂, -, hinput, hsum⟩ := segment?_sameConns hsegment
      have hconns : w₂.conns = w.conns := hsame₂.conns.trans hsame.conns
      rw [hinput]
      rcases tcpInput_cases hsum with ⟨b, hfind, h⟩ | ⟨b, haccepts, h⟩ | ⟨-, h⟩
      · have hb : c ≠ b := by
          rintro rfl
          exact hunheard w₂ hevent hfind
        rw [h]
        exact .inr ((run_amends (.trans (Changes.of_conns hconns) (found_amends b w₂))).2 c hb)
      · by_cases hb : c = b
        · subst hb
          exact .inl ⟨w₂, hevent, haccepts⟩
        · rw [h]
          exact .inr ((haccepts.opened.others c hb).trans (congrFun hconns c))
      · exact .inr ((run_keeps (.trans (Changes.of_conns hconns) (h d))).2 c hd.symm)

/-- The event is a call for the timer of connection `c`. -/
def isTimer (c : ConnId) : NetEvent → Bool
  | .process (.timer d) => d == c
  | _ => false

theorem isTimer_iff {e : NetEvent} : isTimer c e = true ↔ e = .process (.timer c) := by
  unfold isTimer
  split
  · simp
  · next h =>
    constructor
    · intro h'
      cases h'
    · rintro rfl
      exact absurd rfl (h c)

theorem netStep_waits {w : Stack (Firmware K σ)} {e : NetEvent} (hwaits : (w.conns c).Waits)
    (hunheard : w.Unheard c e) (hlost : w.lost = false) :
    Releases sh c w e ∨ ((w.netStep sh e).conns c).Waits ∧
      ((w.netStep sh e).conns c).ticksLeft + (if isTimer c e then 1 else 0) ≤
        (w.conns c).ticksLeft := by
  by_cases htimer : e = .process (.timer c)
  · subst htimer
    rw [if_pos (isTimer_iff.mpr rfl)]
    exact (netStep_timer_ticked hwaits hlost).imp .inl id
  · rw [if_neg fun h => htimer (isTimer_iff.mp h)]
    refine (netStep_conn_of_unheard sh hwaits hunheard htimer).imp .inr fun hconn => ?_
    rw [hconn]
    exact ⟨hwaits, Nat.le_refl _⟩

/-! ### The connections that wait -/

/-- In these states something of the stack's own is not acknowledged. -/
def Unacked : TcpState → Prop
  | .synRcvd | .finWait1 | .closing | .lastAck => True
  | _ => False

/-- The outstanding data of a connection in a state. -/
def LenOk (ts : TcpState) (n : UInt16) : Prop := Unacked ts → n ≠ 0

theorem Transition.lenOk {due : Prop} {ts ts' : TcpState} {n n' : UInt16} {acked : Bool}
    {call : Option (Flags × After)} (h : Transition due ts n acked call ts' n')
    (hlen : LenOk ts n) : LenOk ts' n' := by
  unfold LenOk at hlen ⊢
  cases h with
  | stay => exact hlen
  | accept => simp
  | ackOnly h => rcases h with rfl | rfl <;> exact fun h => h.elim
  | peerFin d h =>
    rcases h with ⟨-, rfl⟩ | ⟨rfl, rfl, rfl⟩
    · exact fun h => h.elim
    · exact fun _ => hlen trivial
  | _ => exact fun h => h.elim

/-- After a call of the application, what the stack sends of its own is outstanding. -/
theorem Transition.call_state {due : Prop} {ts ts' : TcpState} {n n' : UInt16} {acked : Bool}
    {flags : Flags} {after : After} (h : Transition due ts n acked (some (flags, after)) ts' n') :
    after = .appsend ∧ ts' = .established ∨ after = .apprexmit ∧ ts' = .established ∨
      after = .lastAck ∨ after = .timedout ∨ ∃ l, after = .goto l := by
  cases h <;> simp

theorem After.run_lenOk {c : ConnId} {w : Stack α} {after : After}
    (hafter : after = .appsend ∧ w.ts c = .established ∨
      after = .apprexmit ∧ w.ts c = .established ∨ after = .lastAck ∨ after = .timedout ∨
      ∃ l, after = .goto l)
    (hstopped : (w.conns c).tcpstateflags.stopped = false)
    (hlen : LenOk (w.ts c) (w.conns c).len) :
    LenOk ((after.run c w).ts c) ((after.run c w).conns c).len := by
  obtain ⟨-, -, hstate⟩ := After.run_conn c w after hstopped
  rcases hafter with ⟨rfl, hts⟩ | ⟨rfl, hts⟩ | rfl | rfl | ⟨l, rfl⟩
  · by_cases hclose : w.flags.abort = false ∧ w.flags.close = true
    · have hone : ((After.appsend.run c w).conns c).len = 1 := by
        simp [After.run, Stack.appsend, hclose.1, hclose.2, putFlags, put]
      intro _
      rw [hone]
      decide
    · have hne : After.state .appsend w.flags (w.ts c) = .closed ∨
          After.state .appsend w.flags (w.ts c) = .established := by
        unfold After.state
        cases habort : w.flags.abort <;> cases hc : w.flags.close <;> simp_all
      unfold ts
      rw [hstate]
      rcases hne with h | h <;> rw [h] <;> exact fun h => h.elim
  · unfold ts
    rw [hstate]
    simp only [After.state, hts]
    exact fun h => h.elim
  · have hone : ((After.lastAck.run c w).conns c).len = 1 := by
      simp [After.run, putFlags, put]
    intro _
    rw [hone]
    decide
  · have hconns : (After.timedout.run c w).conns = w.conns := by simp [After.run, putFlags, put]
    unfold ts
    rw [hconns]
    exact hlen
  · have hconns : ((After.goto l).run c w).conns = w.conns := by simp [After.run]
    unfold ts
    rw [hconns]
    exact hlen

/-- What holds of every connection in every run. -/
structure ConnsOk (w : Stack α) : Prop where
  passive : w.Passive
  len : ∀ c, LenOk (w.ts c) (w.conns c).len
  nrtx : ∀ c, (w.conns c).nrtx ≤ 8

theorem ConnsOk.netStep {w : Stack (Firmware K σ)} (h : ConnsOk w) (sh : Shell σ) (e : NetEvent) :
    ConnsOk (w.netStep sh e) where
  passive := netStep_passive sh h.passive e
  len d := by
    rcases netStep_cases sh h.passive e with ⟨-, c, w₁, hm, hs⟩ | ⟨c, w₀, after, -, hm, -, -, hw⟩
    · rw [ts, hs.conns]
      by_cases hd : d = c
      · subst hd
        obtain ⟨acked, htrans, -⟩ := hm.acked
        exact htrans.lenOk (h.len d)
      · rw [hm.others d hd]
        exact h.len d
    · by_cases hd : d = c
      · subst hd
        obtain ⟨acked, htrans, -⟩ := hm.acked
        have hconns := congrFun (serverAppcall_conns sh w₀) d
        rw [hw]
        refine After.run_lenOk ?_ ?_ ?_
        · rw [ts, hconns]
          exact htrans.call_state
        · rw [hconns]
          exact hm.stopped
        · rw [ts, hconns]
          exact htrans.lenOk (h.len d)
      · have hsame := (hm.appcall sh after).2.1 d hd
        rw [hw, ts, hsame]
        exact h.len d
  nrtx d := by
    rcases netStep_opened_or_amends sh w e with ⟨w₁, c, -, hconns, -, hopened⟩ | ⟨c, hamends⟩
    · by_cases hd : d = c
      · rw [hd, hopened.nrtx]
        decide
      · rw [hopened.others d hd, hconns]
        exact h.nrtx d
    · exact (hamends.apply d).nrtx (h.nrtx d)

theorem init_connsOk (null : Nat) (app : α) : ConnsOk (init null app) where
  passive := init_passive null app
  len _ := fun h => h.elim
  nrtx _ := by simp [init]

/-- The peer or the end of the last wait is what a connection waits for, unless it is closed, or it
is established and has nothing outstanding. -/
theorem ConnsOk.waits (h : ConnsOk w) (hopen : ¬w.Closed c)
    (hbusy : w.ts c = .established → (w.conns c).Outstanding) : (w.conns c).Waits := by
  have hflags := h.passive.tcpstateflags c
  have hlen := h.len c
  unfold Conn.Waits Conn.LastWait
  rw [hflags]
  rw [h.passive.closed_iff] at hopen
  cases hts : w.ts c with
  | timeWait => exact .inl (.inl rfl)
  | finWait2 => exact .inl (.inr rfl)
  | closed => exact absurd hts hopen
  | synSent => exact absurd hts (h.passive c).2
  | established => exact .inr ⟨by simp, hbusy hts, h.nrtx c⟩
  | _ =>
    rw [hts] at hlen
    exact .inr ⟨by simp, hlen trivial, h.nrtx c⟩

/-- After any run, a connection that waits for its peer, or in its last wait, is closed or given to
another peer before the 502nd call for its timer in which no segment came in for it, unless the code
is lost before. -/
theorem silent_peer_given_up (sh : Shell σ) (null : Nat) (app : Firmware K σ)
    (before es : List NetEvent) (c : ConnId)
    (hlost : (run (netStep sh) (init null app) (before ++ es)).lost = false)
    (hopen : ¬(run (netStep sh) (init null app) before).Closed c)
    (hbusy : (run (netStep sh) (init null app) before).ts c = .established →
      ((run (netStep sh) (init null app) before).conns c).Outstanding)
    (hunheard : Along (netStep sh) (Unheard c) (run (netStep sh) (init null app) before) es)
    (hticks : 500 < es.countP (isTimer c)) :
    ∃ pre e post, es = pre ++ e :: post ∧
      Releases sh c (run (netStep sh) (init null app) (before ++ pre)) e := by
  have hok : ConnsOk (run (netStep sh) (init null app) before) :=
    run_invariant (P := ConnsOk) (fun _ e h => h.netStep sh e) (init_connsOk null app) before
  have hwaits := hok.waits hopen hbusy
  rw [run_append] at hlost
  have hstays := along_of_run (P := fun w : Stack (Firmware K σ) => w.lost = false)
    (fun _ _ => lost_of_netStep) hlost
  obtain ⟨pre, e, post, hes, hreleases⟩ := (hunheard.and hstays).exists_end
    (fun w => (w.conns c).Waits) (Releases sh c) (fun w => (w.conns c).ticksLeft) (isTimer c)
    (fun _ _ hw hs => netStep_waits hw hs.1 hs.2) hwaits (hwaits.ticksLeft_le.trans_lt hticks)
  exact ⟨pre, e, post, hes, by rwa [run_append]⟩

/-- A connection that was accepted and of which nothing is heard again. -/
theorem silent_peer_given_up_syn :
    ∃ pre e post, List.replicate 501 NetEvent.firstTimer = pre ++ e :: post ∧
      Releases Telnetd.shell 0
        (run (netStep Telnetd.shell) (init 0 (.atStart ()) : Stack (Firmware Telnetd.conf Unit))
          ([.frame synFrame] ++ pre)) e :=
  silent_peer_given_up Telnetd.shell 0 (.atStart ()) [.frame synFrame]
    (List.replicate 501 .firstTimer) 0 (by decide +kernel) (by decide +kernel) (by decide +kernel)
    (along_of_forall (fun e he w => by
      rw [List.eq_of_mem_replicate he]
      exact unheard_timer 0 0 w) _)
    (by rw [List.countP_replicate]; decide)

end Stack

end OpenPLC
