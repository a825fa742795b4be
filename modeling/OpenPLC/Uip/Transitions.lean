import OpenPLC.Uip.Process

/-! What `uip_process` does to the connections up to its call of an application.  `Transition` is
the state machine of a connection, with the calls of its application; the main theorem is that every
outcome of `uip_process` is one of its transitions.  No connection is stopped or opened by the stack
itself. -/

namespace OpenPLC

open Lib

namespace Stack

variable {α : Type*} {due : ConnId → Prop}

/-- The state of connection `c`. -/
abbrev ts (w : Stack α) (c : ConnId) : TcpState := (w.conns c).tcpstateflags.ts

/-- A transition of a connection from a state and a length of outstanding data to another.  `acked`
tells whether the outstanding data is acknowledged, and `due` whether the last wait ends now.  The
flags are those of the call of the application, if it is called. -/
inductive Transition (due : Prop) :
    TcpState → UInt16 → Bool → Option (Flags × After) → TcpState → UInt16 → Prop
  | stay (ts : TcpState) (n : UInt16) : Transition due ts n false none ts n
  /-- An acknowledgment changes nothing else. -/
  | ackOnly {ts : TcpState} {n : UInt16} (h : ts = .finWait2 ∨ ts = .timeWait) :
    Transition due ts n true none ts 0
  /-- A connection is accepted. -/
  | accept {ts : TcpState} {n : UInt16} (h : ts = .closed ∨ ts = .timeWait) :
    Transition due ts n false none .synRcvd 1
  /-- The peer acknowledges the SYN. -/
  | connect (n : UInt16) (newdata : Bool) :
    Transition due .synRcvd n true (some ({ connected := true, newdata }, .appsend)) .established 0
  /-- A segment with data, or with an acknowledgment, or both. -/
  | segment {n : UInt16} {acked newdata : Bool} (h : acked ∨ newdata)
      (hout : acked = true → n ≠ 0) :
    Transition due .established n acked (some ({ ackdata := acked, newdata }, .appsend))
      .established (if acked then 0 else n)
  /-- The peer closes the connection. -/
  | fin (n : UInt16) (acked newdata : Bool) :
    Transition due .established n acked
      (some ({ close := true, ackdata := acked, newdata }, .lastAck)) .established
      (if acked then 0 else n)
  | rexmit {n : UInt16} (h : n ≠ 0) :
    Transition due .established n false (some ({ rexmit := true }, .apprexmit)) .established n
  | poll : Transition due .established 0 false (some ({ poll := true }, .appsend)) .established 0
  /-- The peer acknowledges the FIN after it closed the connection. -/
  | lastAck (n : UInt16) :
    Transition due .lastAck n true (some ({ close := true }, .goto .drop)) .closed 0
  /-- The peer acknowledges the FIN of the stack. -/
  | finAcked (n : UInt16) : Transition due .finWait1 n true none .finWait2 0
  | closingAcked (n : UInt16) : Transition due .closing n true none .timeWait 0
  /-- The peer closes the connection after the stack. -/
  | peerFin {ts ts' : TcpState} {n : UInt16} {acked : Bool} (c : ConnId)
    (h : (ts = .finWait1 ∧ acked = true ∨ ts = .finWait2) ∧ ts' = .timeWait ∨
      ts = .finWait1 ∧ acked = false ∧ ts' = .closing) :
    Transition due ts n acked (some ({ close := true }, .goto (.tcpSendAck c))) ts'
      (if acked then 0 else n)
  /-- The peer resets the connection. -/
  | reset {ts : TcpState} (n : UInt16) (h : ts ≠ .closed) :
    Transition due ts n false (some ({ abort := true }, .goto .drop)) .closed n
  /-- The stack gives up on outstanding data. -/
  | timedout {ts : TcpState} {n : UInt16} (h : ts ≠ .closed ∧ ts ≠ .timeWait ∧ ts ≠ .finWait2) :
    Transition due ts n false (some ({ timedout := true }, .timedout)) .closed n
  /-- The last wait of a connection ends. -/
  | expire {ts : TcpState} (n : UInt16) (h : ts = .timeWait ∨ ts = .finWait2) (hdue : due) :
    Transition due ts n false none .closed n

theorem Transition.ne_synSent {due : Prop} {ts ts' : TcpState} {n n' : UInt16} {acked : Bool}
    {call : Option (Flags × After)} (h : Transition due ts n acked call ts' n')
    (hts : ts ≠ .synSent) : ts' ≠ .synSent := by
  cases h with
  | stay | ackOnly => exact hts
  | peerFin _ h => rcases h with ⟨-, rfl⟩ | ⟨-, -, rfl⟩ <;> nofun
  | _ => nofun

theorem Transition.ne_synRcvd {due : Prop} {ts ts' : TcpState} {n n' : UInt16} {acked : Bool}
    {call : Flags × After} (h : Transition due ts n acked (some call) ts' n') :
    ts' ≠ .synRcvd := by
  cases h with
  | peerFin _ h => rcases h with ⟨-, rfl⟩ | ⟨-, -, rfl⟩ <;> nofun
  | _ => nofun

/-- A connection without a peer gets one or stays as it is. -/
theorem Transition.of_closed {due : Prop} {ts' : TcpState} {n n' : UInt16} {acked : Bool}
    {call : Option (Flags × After)} (h : Transition due .closed n acked call ts' n') :
    call = none ∧ acked = false ∧ (ts' = .closed ∨ ts' = .synRcvd) := by
  cases h with
  | stay => exact ⟨rfl, rfl, .inl rfl⟩
  | accept => exact ⟨rfl, rfl, .inr rfl⟩
  | ackOnly h | expire _ h => rcases h with h | h <;> cases h
  | peerFin _ h => rcases h with ⟨⟨h, -⟩ | h, -⟩ | ⟨h, -, -⟩ <;> cases h
  | reset _ h => exact absurd rfl h
  | timedout h => exact absurd rfl h.1

/-- No connection is stopped, and none is opened by the stack. -/
def Passive (w : Stack α) : Prop :=
  ∀ c, (w.conns c).tcpstateflags.stopped = false ∧ w.ts c ≠ .synSent

theorem Passive.tcpstateflags {w : Stack α} (hp : w.Passive) (c : ConnId) :
    (w.conns c).tcpstateflags = ⟨w.ts c, false⟩ := by rw [← (hp c).1]

theorem Passive.closed_iff {w : Stack α} (hp : w.Passive) (c : ConnId) :
    w.Closed c ↔ w.ts c = .closed :=
  ⟨fun h => by rw [ts, h], fun h => by rw [Closed, ← h, ← (hp c).1]⟩

/-- Between `w` and `w'` connection `c` makes a transition, and nothing else changes of the
connections and of the state of the applications. -/
structure Moves (due : ConnId → Prop) (c : ConnId) (call : Option (Flags × After))
    (w w' : Stack α) : Prop where
  app : w'.app = w.app
  others : ∀ d ≠ c, w'.conns d = w.conns d
  stopped : (w'.conns c).tcpstateflags.stopped = false
  acked : ∃ acked,
    Transition (due c) (w.ts c) (w.conns c).len acked call (w'.ts c) (w'.conns c).len ∧
    w'.wire = w.wire ++ if acked then [.ackd c (w.conns c).len] else []

/-- Nothing changes of the connections and of the state of the applications. -/
structure SameConns (w w' : Stack α) : Prop where
  app : w'.app = w.app
  conns : w'.conns = w.conns
  wire : w'.wire = w.wire

/-- Nothing changes but connection `c`. -/
structure OnlyConn (c : ConnId) (w w' : Stack α) : Prop where
  app : w'.app = w.app
  others : ∀ d ≠ c, w'.conns d = w.conns d
  wire : w'.wire = w.wire

theorem SameConns.onlyConn {w w' : Stack α} (h : SameConns w w') (c : ConnId) : OnlyConn c w w' :=
  ⟨h.app, fun d _ => congrFun h.conns d, h.wire⟩

theorem OnlyConn.refl (c : ConnId) (w : Stack α) : OnlyConn c w w := ⟨rfl, fun _ _ => rfl, rfl⟩

theorem OnlyConn.trans {c : ConnId} {w w₁ w₂ : Stack α} (h : OnlyConn c w w₁)
    (h' : OnlyConn c w₁ w₂) : OnlyConn c w w₂ :=
  ⟨h'.app.trans h.app, fun d hd => (h'.others d hd).trans (h.others d hd), h'.wire.trans h.wire⟩

theorem OnlyConn.modConn {c : ConnId} {w w₁ : Stack α} (h : OnlyConn c w w₁) (f : Conn → Conn) :
    OnlyConn c w (w₁.modConn c f) :=
  ⟨h.app, fun d hd => (modConn_of_ne w₁ hd f).trans (h.others d hd), h.wire⟩

theorem OnlyConn.setState {c : ConnId} {w w₁ : Stack α} (h : OnlyConn c w w₁) (ts' : TcpState) :
    OnlyConn c w (w₁.setState c ts') := h.modConn _

/-- A transition without an acknowledgment. -/
theorem OnlyConn.moves {c : ConnId} {w w' : Stack α} {call : Option (Flags × After)}
    {ts' : TcpState} {n : UInt16} (h : OnlyConn c w w')
    (hts : (w'.conns c).tcpstateflags = ⟨ts', false⟩) (hlen : (w'.conns c).len = n)
    (htrans : Transition (due c) (w.ts c) (w.conns c).len false call ts' n) :
    Moves due c call w w' where
  app := h.app
  others := h.others
  stopped := by rw [hts]
  acked := ⟨false, by simpa only [ts, hts, hlen] using htrans, by simp [h.wire]⟩

/-- The outcome of `uip_process` from `w` is a transition of a connection. -/
def Outcome.Moves (due : ConnId → Prop) (w : Stack α) : Outcome α → Prop
  | .done w' => ∃ c, Stack.Moves due c none w w'
  | .call c w' after =>
    Stack.Moves due c (some (w'.flags, after)) w w' ∧ w'.conn = some c ∧ w'.sappdata = 54
  | .udpCall _ w' => SameConns w w'

theorem SameConns.refl (w : Stack α) : SameConns w w := ⟨rfl, rfl, rfl⟩

theorem SameConns.passive {w w' : Stack α} (h : SameConns w w') (hp : w.Passive) : w'.Passive :=
  fun c => by simpa only [ts, h.conns] using hp c

theorem SameConns.goto (w : Stack α) (l : Label) : SameConns w (w.goto l) := by
  constructor <;> simp

theorem SameConns.moves {w w' : Stack α} (h : SameConns w w') (hp : w.Passive) (c : ConnId) :
    Moves due c none w w' :=
  (h.onlyConn c).moves (by rw [h.conns, hp.tcpstateflags]) (by rw [h.conns]) (.stay _ _)

theorem Outcome.Moves.of_sameConns {w w₁ : Stack α} (hs : SameConns w w₁) {o : Outcome α}
    (h : o.Moves due w₁) : o.Moves due w := by
  have moves {c : ConnId} {call : Option (Flags × After)} {w' : Stack α}
      (h : Stack.Moves due c call w₁ w') : Stack.Moves due c call w w' := by
    obtain ⟨happ, hothers, hstopped, a, htrans, hwire⟩ := h
    refine ⟨happ.trans hs.app, fun d hd => (hothers d hd).trans (congrFun hs.conns d), hstopped,
      a, ?_, ?_⟩
    · simpa only [ts, hs.conns] using htrans
    · simpa only [hs.conns, hs.wire] using hwire
  cases o with
  | done w' =>
    obtain ⟨c, h⟩ := h
    exact ⟨c, moves h⟩
  | call c w' after => exact ⟨moves h.1, h.2⟩
  | udpCall u w' => exact ⟨h.app.trans hs.app, h.conns.trans hs.conns, h.wire.trans hs.wire⟩

/-- From `w` to `w'` the outstanding data of connection `c` is acknowledged, or not. -/
structure Acked (c : ConnId) (acked : Bool) (w w' : Stack α) : Prop where
  app : w'.app = w.app
  others : ∀ d ≠ c, w'.conns d = w.conns d
  state : (w'.conns c).tcpstateflags = (w.conns c).tcpstateflags
  len : (w'.conns c).len = if acked then 0 else (w.conns c).len
  outstanding : acked = true → (w.conns c).len ≠ 0
  wire : w'.wire = w.wire ++ if acked then [.ackd c (w.conns c).len] else []
  flags : w'.flags = { ackdata := acked }
  conn : w'.conn = some c
  sappdata : w'.sappdata = 54

theorem acked_ackInput (c : ConnId) {w : Stack α} (hflags : w.flags = {}) (hconn : w.conn = some c)
    (hsapp : w.sappdata = 54) : ∃ acked, Acked c acked w (ackInput c w) := by
  by_cases h : w.AcksOutstanding c
  · refine ⟨true, ?_, fun d hd => ?_, ?_, ?_, fun _ => h.2.1, ?_, ?_, ?_, ?_⟩
    all_goals simp only [ackInput, h, ↓reduceIte]
    · rfl
    · exact modConn_of_ne _ hd _
    · rw [modConn_self]
      dsimp only
      split <;> rfl
    · rw [modConn_self]
    · rfl
    · exact hconn
    · exact hsapp
  · refine ⟨false, ?_, fun d hd => ?_, ?_, ?_, nofun, ?_, ?_, ?_, ?_⟩
    all_goals simp [ackInput, h, hflags, hconn, hsapp]

section Connection

variable {c : ConnId} {acked : Bool} {w w₁ : Stack α}

/-- A transition after the acknowledgment. -/
theorem Acked.moves (h : Acked c acked w w₁) {call : Option (Flags × After)} {w' : Stack α}
    {ts' : TcpState} {n : UInt16} (hw : OnlyConn c w₁ w')
    (hts : (w'.conns c).tcpstateflags = ⟨ts', false⟩) (hlen : (w'.conns c).len = n)
    (htrans : Transition (due c) (w.ts c) (w.conns c).len acked call ts' n) :
    Moves due c call w w' where
  app := hw.app.trans h.app
  others d hd := (hw.others d hd).trans (h.others d hd)
  stopped := by rw [hts]
  acked := ⟨acked, by simpa only [ts, hts, hlen] using htrans, hw.wire.trans h.wire⟩

theorem Acked.tcpstateflags (h : Acked c acked w w₁) (hp : w.Passive) :
    (w₁.conns c).tcpstateflags = ⟨w.ts c, false⟩ := h.state.trans (hp.tcpstateflags c)

theorem Acked.stay (h : Acked c false w w₁) (hp : w.Passive) (l : Label) :
    Outcome.Moves due w (.done (w₁.goto l)) :=
  ⟨c, h.moves ((SameConns.goto w₁ l).onlyConn c) (by rw [goto_conns, h.tcpstateflags hp])
    (by simp [h.len]) (.stay _ _)⟩

theorem synRcvd_moves (h : Acked c acked w w₁) (hp : w.Passive) (hts : w.ts c = .synRcvd) :
    (synRcvd c w₁).Moves due w := by
  cases acked
  · simp only [synRcvd, h.flags, Bool.false_eq_true, ↓reduceIte]
    exact h.stay hp .drop
  · simp only [synRcvd, h.flags, ↓reduceIte]
    split
    · refine ⟨h.moves ⟨rfl, fun d hd => ?_, rfl⟩ ?_ ?_ (by rw [hts]; exact .connect _ true), h.conn,
        h.sappdata⟩
      · simp [addRcvNxt, modConn_of_ne _ hd]
      · simp [addRcvNxt]
      · simp [addRcvNxt]
    · refine ⟨h.moves ⟨rfl, fun d hd => ?_, rfl⟩ ?_ ?_ (by rw [hts]; exact .connect _ false),
        h.conn, h.sappdata⟩
      · simp [modConn_of_ne _ hd]
      · simp
      · simp

theorem establishedFin_moves (h : Acked c acked w w₁) (hp : w.Passive)
    (hts : w.ts c = .established) : (establishedFin c w₁).Moves due w := by
  simp only [establishedFin]
  split
  · next hout =>
    cases acked
    · exact h.stay hp .drop
    · exact absurd h.len hout
  · have hstate : ((w₁.addRcvNxt c (1 + w₁.len)).conns c).tcpstateflags = ⟨w.ts c, false⟩ := by
      simpa [addRcvNxt] using h.tcpstateflags hp
    have hlen : ((w₁.addRcvNxt c (1 + w₁.len)).conns c).len =
        if acked then 0 else (w.conns c).len := by
      simpa [addRcvNxt] using h.len
    refine ⟨h.moves ⟨rfl, fun d hd => ?_, rfl⟩ hstate hlen ?_, h.conn, h.sappdata⟩
    · simp [addRcvNxt, modConn_of_ne _ hd]
    · simp only [addRcvNxt, modConn_flags, h.flags, hts]
      exact .fin _ acked _

theorem establishedData_conn (c : ConnId) (w : Stack α) :
    ((establishedData c w).conns c).tcpstateflags = (w.conns c).tcpstateflags ∧
      ((establishedData c w).conns c).len = (w.conns c).len ∧
      (∀ d ≠ c, (establishedData c w).conns d = w.conns d) ∧
      (establishedData c w).app = w.app ∧ (establishedData c w).wire = w.wire ∧
      (establishedData c w).conn = w.conn ∧ (establishedData c w).sappdata = w.sappdata ∧
      ∃ newdata, (establishedData c w).flags = { w.flags with newdata := newdata } := by
  have hskip : (skipUrgent w).conns = w.conns ∧ (skipUrgent w).app = w.app ∧
      (skipUrgent w).wire = w.wire ∧ (skipUrgent w).conn = w.conn ∧
      (skipUrgent w).sappdata = w.sappdata ∧ (skipUrgent w).flags = w.flags := by
    simp only [skipUrgent]
    split <;> simp
  obtain ⟨hconns, happ, hwire, hconn, hsapp, hflags⟩ := hskip
  simp only [establishedData, updateMss, modConn_self, acceptData]
  split
  · simp only [addRcvNxt, modConn_self, hconns]
    refine ⟨trivial, trivial, fun d hd => ?_, happ, hwire, hconn, hsapp, true, by
      rw [← hflags]
      rfl⟩
    rw [modConn_of_ne _ hd, modConn_of_ne _ hd]
  · simp only [hconns]
    refine ⟨trivial, trivial, fun d hd => ?_, happ, hwire, hconn, hsapp, w.flags.newdata, hflags⟩
    rw [modConn_of_ne _ hd, hconns]

theorem established_moves (h : Acked c acked w w₁) (hp : w.Passive)
    (hts : w.ts c = .established) : (established c w₁).Moves due w := by
  simp only [established]
  split
  · exact establishedFin_moves h hp hts
  obtain ⟨hstate, hlen, hothers, happ, hwire, hconn, hsapp, newdata, hflags⟩ :=
    establishedData_conn c w₁
  rw [h.flags] at hflags
  split
  · next hcall =>
    refine ⟨h.moves ⟨happ, hothers, hwire⟩ (hstate.trans (h.tcpstateflags hp))
      (hlen.trans h.len) ?_, hconn.trans h.conn, hsapp.trans h.sappdata⟩
    rw [hflags] at hcall ⊢
    rw [hts]
    exact .segment hcall.symm h.outstanding
  · next hcall =>
    cases acked
    · have honly : OnlyConn c w₁ (establishedData c w₁) := ⟨happ, hothers, hwire⟩
      refine ⟨c, h.moves (honly.trans ((SameConns.goto _ .drop).onlyConn c)) ?_ ?_ (.stay _ _)⟩
      · rw [goto_conns, hstate, h.tcpstateflags hp]
      · simp [hlen, h.len]
    · simp [hflags] at hcall

theorem lastAck_moves (h : Acked c acked w w₁) (hp : w.Passive) (hts : w.ts c = .lastAck) :
    (lastAck c w₁).Moves due w := by
  cases acked
  · simp only [lastAck, h.flags, Bool.false_eq_true, ↓reduceIte]
    exact h.stay hp .drop
  · simp only [lastAck, h.flags, ↓reduceIte]
    refine ⟨h.moves ⟨rfl, fun d hd => ?_, rfl⟩ ?_ ?_ (by rw [hts]; exact .lastAck _), h.conn,
      h.sappdata⟩
    · simp [setState, modConn_of_ne _ hd]
    · simp [setState]
    · simp [setState, h.len]

/-- Data after the close changes only the sequence number. -/
theorem skipData_conn (c : ConnId) (w : Stack α) :
    ((skipData c w).conns c).tcpstateflags = (w.conns c).tcpstateflags ∧
      ((skipData c w).conns c).len = (w.conns c).len ∧
      (∀ d ≠ c, (skipData c w).conns d = w.conns d) ∧ (skipData c w).app = w.app ∧
      (skipData c w).wire = w.wire ∧ (skipData c w).conn = w.conn ∧
      (skipData c w).sappdata = w.sappdata ∧ (skipData c w).flags = w.flags := by
  simp only [skipData]
  split
  · simp only [addRcvNxt, modConn_self]
    exact ⟨trivial, trivial, fun d hd => modConn_of_ne _ hd _, rfl, rfl, rfl, rfl, rfl⟩
  · simp

theorem Acked.skipData (h : Acked c acked w w₁) : Acked c acked w (skipData c w₁) := by
  obtain ⟨hstate, hlen, hothers, happ, hwire, hconn, hsapp, hflags⟩ := skipData_conn c w₁
  exact ⟨happ.trans h.app, fun d hd => (hothers d hd).trans (h.others d hd), hstate.trans h.state,
    hlen.trans h.len, h.outstanding, hwire.trans h.wire, hflags.trans h.flags, hconn.trans h.conn,
    hsapp.trans h.sappdata⟩

/-- The peer closes the connection: the FIN is acknowledged, and the application hears of it. -/
theorem Acked.peerFin (h : Acked c acked w w₁) {w₂ : Stack α} {ts' : TcpState}
    (hw : OnlyConn c w₁ w₂) (hts : (w₂.conns c).tcpstateflags = ⟨ts', false⟩)
    (hlen : (w₂.conns c).len = if acked then 0 else (w.conns c).len) (hconn : w₂.conn = some c)
    (hsapp : w₂.sappdata = 54)
    (htrans : (w.ts c = .finWait1 ∧ acked = true ∨ w.ts c = .finWait2) ∧ ts' = .timeWait ∨
      w.ts c = .finWait1 ∧ acked = false ∧ ts' = .closing) :
    Outcome.Moves due w
      (.call c { w₂.addRcvNxt c 1 with flags := { close := true } } (.goto (.tcpSendAck c))) := by
  have honly := hw.modConn fun k => { k with rcvNxt := k.rcvNxt.add 1 }
  refine ⟨h.moves ⟨honly.app, honly.others, honly.wire⟩ ?_ ?_ (.peerFin c htrans), hconn, hsapp⟩
  · simpa [addRcvNxt] using hts
  · simpa [addRcvNxt] using hlen

theorem finWait1_moves (h : Acked c acked w w₁) (hp : w.Passive) (hts : w.ts c = .finWait1) :
    (finWait1 c w₁).Moves due w := by
  have h' := h.skipData
  simp only [finWait1, h'.flags]
  generalize Stack.skipData c w₁ = w₂ at h'
  cases acked
  · simp only [Bool.false_eq_true, ↓reduceIte]
    split
    · refine h'.peerFin ((OnlyConn.refl c w₂).setState _) ?_ ?_ h'.conn h'.sappdata
        (.inr ⟨hts, rfl, rfl⟩)
      · simp [setState]
      · simpa [setState] using h'.len
    · split
      · exact h'.stay hp _
      · exact h'.stay hp _
  · simp only [↓reduceIte]
    split
    · refine h'.peerFin (((OnlyConn.refl c w₂).setState _).modConn _) ?_ ?_ h'.conn h'.sappdata
        (.inl ⟨.inl ⟨hts, rfl⟩, rfl⟩)
      · simp [setState]
      · simp
    · have honly := ((OnlyConn.refl c w₂).setState .finWait2).modConn fun k => { k with len := 0 }
      refine ⟨c, h'.moves (honly.trans ((SameConns.goto _ .drop).onlyConn c)) ?_ ?_
        (by rw [hts]; exact .finAcked _)⟩
      · simp [setState]
      · simp

theorem Acked.idle (h : Acked c acked w w₁) (hp : w.Passive)
    (hts : w.ts c = .finWait2 ∨ w.ts c = .timeWait) (l : Label) :
    Outcome.Moves due w (.done (w₁.goto l)) := by
  cases acked
  · exact h.stay hp l
  · refine ⟨c, h.moves ((SameConns.goto w₁ l).onlyConn c) ?_ ?_ (.ackOnly hts)⟩
    · rw [goto_conns, h.tcpstateflags hp]
    · simp [h.len]

theorem finWait2_moves (h : Acked c acked w w₁) (hp : w.Passive) (hts : w.ts c = .finWait2) :
    (finWait2 c w₁).Moves due w := by
  have h' := h.skipData
  simp only [finWait2]
  generalize Stack.skipData c w₁ = w₂ at h'
  split
  · refine h'.peerFin (((OnlyConn.refl c w₂).setState _).modConn _) ?_ ?_ h'.conn h'.sappdata
      (.inl ⟨.inr hts, rfl⟩)
    · simp [setState]
    · simpa [setState] using h'.len
  · split
    · exact h'.idle hp (.inl hts) _
    · exact h'.idle hp (.inl hts) _

theorem closing_moves (h : Acked c acked w w₁) (hp : w.Passive) (hts : w.ts c = .closing) :
    Outcome.Moves due w (.done (closing c w₁)) := by
  cases acked
  · simp only [closing, h.flags, Bool.false_eq_true, ↓reduceIte]
    exact h.stay hp .drop
  · simp only [closing, h.flags, ↓reduceIte]
    have honly := ((OnlyConn.refl c w₁).setState .timeWait).modConn fun k => { k with timer := 0 }
    refine ⟨c, h.moves (honly.trans ((SameConns.goto _ .drop).onlyConn c)) ?_ ?_
      (by rw [hts]; exact .closingAcked _)⟩
    · simp [setState]
    · simp [setState, h.len]

theorem tcpState_moves (h : Acked c acked w w₁) (hp : w.Passive) (hopen : ¬w.Closed c) :
    (tcpState c w₁).Moves due w := by
  have hstate : w₁.ts c = w.ts c := by rw [ts, h.state]
  simp only [tcpState]
  split <;> rename_i hts <;> rw [← ts, hstate] at hts
  · exact synRcvd_moves h hp hts
  · exact absurd hts (hp c).2
  · exact established_moves h hp hts
  · exact lastAck_moves h hp hts
  · exact finWait1_moves h hp hts
  · exact finWait2_moves h hp hts
  · exact h.idle hp (.inr hts) _
  · exact closing_moves h hp hts
  · refine absurd ?_ hopen
    obtain ⟨hstopped, -⟩ := hp c
    rw [Closed, ← hts, ← hstopped]

end Connection

variable {w : Stack α} {c : ConnId}

theorem ts_ne_closed (hp : w.Passive) (hopen : ¬w.Closed c) : w.ts c ≠ .closed := by
  intro hts
  obtain ⟨hstopped, -⟩ := hp c
  exact hopen (by rw [Closed, ← hts, ← hstopped])

theorem foundSegment_moves {w₁ : Stack α} (hs : SameConns w w₁) (hp : w.Passive)
    (hopen : ¬w.Closed c) (hflags : w₁.flags = {}) (hconn : w₁.conn = some c)
    (hsapp : w₁.sappdata = 54) : (foundSegment c w₁).Moves due w := by
  have hp₁ := hs.passive hp
  have hopen₁ : ¬w₁.Closed c := by simpa only [Closed, hs.conns] using hopen
  refine .of_sameConns hs ?_
  simp only [foundSegment]
  split
  · exact ⟨c, (SameConns.goto _ _).moves hp₁ c⟩
  · obtain ⟨acked, h⟩ := acked_ackInput c hflags hconn hsapp
    exact tcpState_moves h hp₁ hopen₁

theorem found_moves (hp : w.Passive) (hopen : ¬w.Closed c) (hsapp : w.sappdata = 54) :
    (found c w).Moves due w := by
  simp only [found]
  split
  · have honly := (OnlyConn.refl c w).setState .closed
    refine ⟨OnlyConn.moves ⟨honly.app, honly.others, honly.wire⟩ ?_ ?_
      (.reset _ (ts_ne_closed hp hopen)), rfl, hsapp⟩
    · simp [setState]
    · simp [setState]
  · exact foundSegment_moves ⟨rfl, rfl, rfl⟩ hp hopen rfl rfl hsapp

theorem freeConn_eq_some {conns : ConnId → Conn} (h : freeConn conns = some c) :
    (conns c).tcpstateflags.ts = .closed ∨ (conns c).tcpstateflags.ts = .timeWait := by
  simp only [freeConn] at h
  split at h
  · next b hb =>
    obtain rfl := Option.some.inj h
    have hb := List.find?_some hb
    simp only [decide_eq_true_eq] at hb
    exact .inl (by rw [hb])
  · -- by induction on the connections: the oldest one so far is in its last wait
    revert h
    generalize hbest : (none : Option ConnId) = best
    have hwait : ∀ b ∈ best, (conns b).tcpstateflags.ts = .timeWait := by simp [← hbest]
    clear hbest
    induction List.finRange 10 generalizing best with
    | nil => exact fun h => .inr (hwait c h)
    | cons d ds ih =>
      rw [List.foldl_cons]
      refine ih _ fun b hb => ?_
      split at hb
      · next hd =>
        have hd : (conns d).tcpstateflags.ts = .timeWait := by rw [hd]
        split at hb
        · obtain rfl := Option.some.inj hb
          exact hd
        · split at hb
          · obtain rfl := Option.some.inj hb
            exact hd
          · exact hwait b hb
      · exact hwait b hb

theorem parseMss_conn (c : ConnId) (w : Stack α) :
    ((parseMss c w).conns c).tcpstateflags = (w.conns c).tcpstateflags ∧
      ((parseMss c w).conns c).len = (w.conns c).len ∧
      (∀ d ≠ c, (parseMss c w).conns d = w.conns d) ∧ (parseMss c w).app = w.app ∧
      (parseMss c w).wire = w.wire := by
  simp only [parseMss]
  split
  · split
    · simp
    · simp
    · simp only [modConn_self]
      exact ⟨trivial, trivial, fun d hd => modConn_of_ne _ hd _, rfl, rfl⟩
  · simp

/-- The answer to a SYN, if its options end. -/
theorem synack_sameConns (c : ConnId) (w : Stack α) :
    SameConns w (if w.lost then w.goto .drop else tcpSendSynack c w) := by
  split
  · exact .goto w .drop
  · constructor <;> simp [tcpSendSynack, tcpSendSyn, putFlags, put]

theorem foundListen_moves (hp : w.Passive) : Outcome.Moves due w (.done (foundListen w)) := by
  simp only [foundListen]
  split
  · exact ⟨0, (SameConns.goto _ _).moves hp 0⟩
  · next c hc =>
    set w₁ := { w with conn := some c }.modConn c (openConn w.buf w.iss)
    obtain ⟨hstate, hlen, hothers, happ, hwire⟩ := parseMss_conn c w₁
    have hs := synack_sameConns c (parseMss c w₁)
    have hself : w₁.conns c = openConn w.buf w.iss (w.conns c) := modConn_self ..
    have hwire : (parseMss c w₁).wire = w.wire := hwire
    refine ⟨c, hs.app.trans happ, fun d hd => ?_, ?_, false, ?_, ?_⟩
    · rw [hs.conns, hothers d hd]
      exact modConn_of_ne _ hd _
    · rw [hs.conns, hstate, hself]
      rfl
    · simp only [ts, hs.conns, hstate, hlen, hself]
      exact .accept (freeConn_eq_some hc)
    · simp [hs.wire, hwire]

theorem reset_sameConns (w : Stack α) : SameConns w (reset w) := by
  simp only [reset]
  split
  · exact .goto w .drop
  · constructor <;> simp [putFlags, put]

theorem tcpInput_moves (hp : w.Passive) (hsapp : w.sappdata = 54) : (tcpInput w).Moves due w := by
  simp only [tcpInput]
  split
  · exact ⟨0, (SameConns.goto _ _).moves hp 0⟩
  split
  · next c hc =>
    have hmatch : w.MatchesConn c := by simpa using List.find?_some hc
    exact found_moves hp hmatch.1 hsapp
  · split
    · exact ⟨0, (reset_sameConns w).moves hp 0⟩
    · split
      · exact foundListen_moves hp
      · exact ⟨0, (reset_sameConns w).moves hp 0⟩

theorem ipInput_sameConns (w : Stack α) :
    SameConns w w.ipInput.1 ∧ w.ipInput.1.sappdata = w.sappdata := by
  simp only [ipInput]
  split
  · exact ⟨.refl w, rfl⟩
  · next w' hw' =>
    have hlen : SameConns w w' ∧ w'.sappdata = w.sappdata := by
      rw [ipLength_eq hw']
      exact ⟨⟨rfl, rfl, rfl⟩, rfl⟩
    have hfrag : SameConns w' w'.ipFragment ∧ w'.ipFragment.sappdata = w'.sappdata := by
      obtain ⟨len, buf, reass, lost, h⟩ := w'.ipFragment_eq
      rw [h]
      exact ⟨⟨rfl, rfl, rfl⟩, rfl⟩
    have hall : SameConns w w'.ipFragment ∧ w'.ipFragment.sappdata = w.sappdata :=
      ⟨⟨hfrag.1.app.trans hlen.1.app, hfrag.1.conns.trans hlen.1.conns,
        hfrag.1.wire.trans hlen.1.wire⟩, hfrag.2.trans hlen.2⟩
    split
    · exact hall
    · exact hall

theorem dataInput_moves (hp : w.Passive) (hsapp : w.sappdata = 54) : (dataInput w).Moves due w := by
  obtain ⟨hsame, hsapp'⟩ := ipInput_sameConns w
  have hp' := hsame.passive hp
  rw [hsapp] at hsapp'
  refine .of_sameConns hsame ?_
  simp only [dataInput]
  split <;> rename_i w' heq <;> rw [heq] at hp' hsapp' ⊢
  · exact tcpInput_moves hp' hsapp'
  · simp only [udpInput]
    split
    · exact ⟨rfl, rfl, rfl⟩
    · exact ⟨0, (SameConns.mk (by simp) (by simp) (by simp)).moves hp' 0⟩
  · refine ⟨0, SameConns.moves ?_ hp' 0⟩
    simp only [icmpInput]
    split
    · exact .goto _ _
    · constructor <;> simp [put]
  · exact ⟨0, (SameConns.goto _ _).moves hp' 0⟩

/-- Only the timers of a connection change. -/
structure SameButTimers (c : ConnId) (w w' : Stack α) : Prop extends OnlyConn c w w' where
  state : (w'.conns c).tcpstateflags = (w.conns c).tcpstateflags
  len : (w'.conns c).len = (w.conns c).len

theorem SameButTimers.modConn (w : Stack α) (c : ConnId) {f : Conn → Conn}
    (hstate : (f (w.conns c)).tcpstateflags = (w.conns c).tcpstateflags)
    (hlen : (f (w.conns c)).len = (w.conns c).len) : SameButTimers c w (w.modConn c f) where
  toOnlyConn := (OnlyConn.refl c w).modConn f
  state := by rw [modConn_self, hstate]
  len := by rw [modConn_self, hlen]

theorem SameButTimers.trans {w₁ w₂ : Stack α} (h : SameButTimers c w w₁)
    (h' : SameButTimers c w₁ w₂) : SameButTimers c w w₂ where
  toOnlyConn := h.toOnlyConn.trans h'.toOnlyConn
  state := h'.state.trans h.state
  len := h'.len.trans h.len

theorem SameConns.sameButTimers {w' : Stack α} (h : SameConns w w') (c : ConnId) :
    SameButTimers c w w' :=
  ⟨h.onlyConn c, by rw [h.conns], by rw [h.conns]⟩

theorem SameButTimers.moves {w₁ : Stack α} (h : SameButTimers c w w₁) (hp : w.Passive) :
    Moves due c none w w₁ :=
  h.toOnlyConn.moves (h.state.trans (hp.tcpstateflags c)) h.len (.stay _ _)

theorem SameButTimers.goto {w₁ : Stack α} (h : SameButTimers c w w₁) (l : Label) :
    SameButTimers c w (w₁.goto l) := h.trans ((SameConns.goto w₁ l).sameButTimers c)

theorem rexmit_moves {w₁ : Stack α} (h : SameButTimers c w w₁) (hp : w.Passive)
    (hout : (w.conns c).len ≠ 0) (hconn : w₁.conn = some c) (hsapp : w₁.sappdata = 54) :
    (rexmit c w₁).Moves due w := by
  simp only [rexmit]
  set w₂ := w₁.modConn c fun k =>
    { k with timer := 3 <<< (if k.nrtx > 4 then 4 else k.nrtx), nrtx := k.nrtx + 1 } with hw₂
  have h₂ : SameButTimers c w w₂ := h.trans (.modConn w₁ c rfl rfl)
  split
  · refine ⟨c, SameButTimers.moves (h₂.trans (SameConns.sameButTimers ?_ c)) hp⟩
    constructor <;> simp [tcpSendSynack, tcpSendSyn, putFlags, put]
  · refine ⟨c, SameButTimers.moves (h₂.trans (SameConns.sameButTimers ?_ c)) hp⟩
    constructor <;> simp [tcpSendSyn, putFlags, put]
  · next hts =>
    have hts₀ : w.ts c = .established := by rw [ts, ← h₂.state, hts]
    refine ⟨OnlyConn.moves ⟨h₂.app, h₂.others, h₂.wire⟩
      (h₂.state.trans (hp.tcpstateflags c)) h₂.len ?_, hconn, hsapp⟩
    rw [hts₀]
    exact .rexmit hout
  all_goals
    refine ⟨c, SameButTimers.moves (h₂.trans (SameConns.sameButTimers ?_ c)) hp⟩
    constructor <;> simp [putFlags, put]

theorem connTimer_moves (hp : w.Passive) (hconn : w.conn = some c) (hsapp : w.sappdata = 54)
    (hdue : (w.conns c).timer + 1 = 120 → due c) : (connTimer c w).Moves due w := by
  have hstopped := (hp c).1
  have hts (ts : TcpState) : (w.conns c).tcpstateflags = ⟨ts, false⟩ ↔ w.ts c = ts :=
    ⟨fun h => by rw [Stack.ts, h], fun h => by rw [← h, ← hstopped]⟩
  simp only [connTimer, hts]
  split
  · next hwait =>
    set w₁ := w.modConn c fun k => { k with timer := k.timer + 1 }
    have h₁ : SameButTimers c w w₁ := .modConn w c rfl rfl
    split
    · next hend =>
      have honly := h₁.toOnlyConn.setState .closed
      refine ⟨c, (honly.trans ((SameConns.goto _ .drop).onlyConn c)).moves ?_ ?_
        (.expire _ hwait (hdue (by simpa [w₁] using hend)))⟩
      · simp [setState]
      · simp [setState, h₁.len]
    · exact ⟨c, (h₁.goto .drop).moves hp⟩
  next hwait =>
  split
  · exact ⟨c, (SameConns.goto w .drop).moves hp c⟩
  next hclosed =>
  split
  · next hout =>
    set w₁ := w.modConn c fun k => { k with timer := k.timer - 1 }
    have h₁ : SameButTimers c w w₁ := .modConn w c rfl rfl
    split
    · exact ⟨c, (h₁.goto .drop).moves hp⟩
    split
    · have honly := h₁.toOnlyConn.setState .closed
      refine ⟨OnlyConn.moves ⟨honly.app, honly.others, honly.wire⟩ ?_ ?_
        (.timedout ⟨hclosed, not_or.mp hwait⟩), hconn, hsapp⟩
      · simp [setState]
      · simp [setState, h₁.len]
    · exact rexmit_moves h₁ hp hout hconn hsapp
  · next hout =>
    split
    · next hest =>
      refine ⟨⟨rfl, fun _ _ => rfl, hstopped, false, ?_, by simp⟩, hconn, hsapp⟩
      have hzero : (w.conns c).len = 0 := by simpa using hout
      simp only [ts, hest, hzero]
      exact .poll
    · exact ⟨c, (SameConns.goto w .drop).moves hp c⟩

theorem enter_sameConns (w : Stack α) : SameConns w w.enter := ⟨rfl, rfl, rfl⟩

/-- The call for the timer ends the last wait of connection `c`. -/
def Due (w : Stack α) (flag : ProcessFlag) (c : ConnId) : Prop :=
  flag = .timer c ∧ (w.conns c).timer + 1 = 120

/-- Every outcome of `uip_process` is a transition of a connection. -/
theorem process_moves (hp : w.Passive) (flag : ProcessFlag) :
    (w.process flag).Moves (w.Due flag) w := by
  have hp₁ : w.enter.Passive := w.enter_sameConns.passive hp
  rcases w.process_cases flag with ⟨-, hprocess⟩ | ⟨-, hprocess⟩
  · rw [hprocess]
    exact .of_sameConns w.enter_sameConns ⟨0, (SameConns.goto _ .drop).moves hp₁ 0⟩
  rw [hprocess]
  cases flag with
  | data => exact .of_sameConns w.enter_sameConns (dataInput_moves hp₁ rfl)
  | timer c =>
    have hs : SameConns w { w.enter with conn := some c }.tick := ⟨rfl, rfl, rfl⟩
    exact .of_sameConns hs (connTimer_moves (hs.passive hp) rfl rfl fun h => ⟨rfl, h⟩)
  | pollRequest c =>
    refine .of_sameConns w.enter_sameConns ?_
    simp only [dispatch]
    split
    · next h =>
      refine ⟨⟨rfl, fun _ _ => rfl, (hp₁ c).1, false, ?_, by simp⟩, rfl, rfl⟩
      have hzero : (w.enter.conns c).len = 0 := by simpa using h.2
      simp only [ts, h.1, hzero]
      exact .poll
    · exact ⟨0, (SameConns.mk (by simp) (by simp) (by simp)).moves hp₁ 0⟩
  | udpSendConn u =>
    refine ⟨0, SameConns.moves ?_ hp 0⟩
    simp only [udpSend]
    split
    · exact .goto w .drop
    · constructor <;> simp [put, putLen]
  | udpTimer u =>
    refine .of_sameConns w.enter_sameConns ?_
    simp only [dispatch]
    split
    · exact ⟨rfl, rfl, rfl⟩
    · exact ⟨0, (SameConns.goto _ _).moves hp₁ 0⟩

/-! ### After the call -/

/-- The state of a connection after the rest of `uip_process`. -/
def After.state : After → Flags → TcpState → TcpState
  | .appsend, flags, ts => if flags.abort then .closed else if flags.close then .finWait1 else ts
  | .lastAck, _, _ => .lastAck
  | .refused, _, _ => .closed
  | _, _, ts => ts

theorem After.state_ne {flags : Flags} {ts t : TcpState} (after : After)
    (ht : t ≠ .closed ∧ t ≠ .finWait1 ∧ t ≠ .lastAck) (h : ts ≠ t) : after.state flags ts ≠ t := by
  cases after with
  | appsend =>
    simp only [After.state]
    split
    · exact ht.1.symm
    split
    · exact ht.2.1.symm
    · exact h
  | lastAck => exact ht.2.2.symm
  | refused => exact ht.1.symm
  | _ => exact h

theorem appsendLen_conn (c : ConnId) (w : Stack α) :
    (appsendLen c w).app = w.app ∧ (∀ d ≠ c, (appsendLen c w).conns d = w.conns d) ∧
      ((appsendLen c w).conns c).tcpstateflags = (w.conns c).tcpstateflags := by
  simp only [appsendLen]
  split
  · split
    · simp only [modConn_self, ↓reduceIte]
      split
      all_goals
        refine ⟨by simp [modConn], fun d hd => ?_, by simp⟩
        simp [modConn_of_ne _ hd]
    · split
      · split
        all_goals
          refine ⟨by simp [modConn], fun d hd => ?_, by simp⟩
          simp [modConn_of_ne _ hd]
      · exact ⟨rfl, fun _ _ => rfl, rfl⟩
  · exact ⟨rfl, fun _ _ => rfl, rfl⟩

theorem apprexmit_conn (c : ConnId) (again : Bool) (w : Stack α) :
    (apprexmit c again w).app = w.app ∧ (apprexmit c again w).conns = w.conns := by
  simp only [apprexmit]
  split
  · simp [emit, putFlags, put]
  · split <;> simp [putFlags, put]

/-- The rest of `uip_process` changes only the state of connection `c`. -/
theorem After.run_conn (c : ConnId) (w : Stack α) (after : After)
    (h : (w.conns c).tcpstateflags.stopped = false) :
    (after.run c w).app = w.app ∧ (∀ d ≠ c, (after.run c w).conns d = w.conns d) ∧
      ((after.run c w).conns c).tcpstateflags = ⟨after.state w.flags (w.ts c), false⟩ := by
  have hsame : (w.conns c).tcpstateflags = ⟨w.ts c, false⟩ := by rw [← h]
  cases after with
  | appsend =>
    simp only [After.run, Stack.appsend, After.state]
    split
    · refine ⟨by simp [setState, modConn, putFlags, put], fun d hd => ?_, ?_⟩
      · simp [setState, putFlags, put, modConn_of_ne _ hd]
      · simp [setState, putFlags, put]
    split
    · refine ⟨by simp [modConn, putFlags, put], fun d hd => ?_, ?_⟩
      · simp [putFlags, put, modConn_of_ne _ hd]
      · simp [putFlags, put]
    · obtain ⟨happ, hconns⟩ := apprexmit_conn c (decide ((w.conns c).len ≠ 0) && !w.flags.ackdata)
        ((appsendLen c w).modConn c fun k => { k with nrtx := 0 })
      obtain ⟨happ', hothers, hstate⟩ := appsendLen_conn c w
      rw [hconns, modConn_self]
      exact ⟨happ.trans happ', fun d hd => (modConn_of_ne _ hd _).trans (hothers d hd),
        hstate.trans hsame⟩
  | apprexmit =>
    obtain ⟨happ, hconns⟩ := apprexmit_conn c true w
    exact ⟨happ, fun d _ => congrFun hconns d,
      (congrArg Conn.tcpstateflags (congrFun hconns c)).trans hsame⟩
  | lastAck =>
    refine ⟨by simp [After.run, modConn, putFlags, put], fun d hd => ?_, ?_⟩
    · simp [After.run, putFlags, put, modConn_of_ne _ hd]
    · simp [After.run, After.state, putFlags, put]
  | refused =>
    obtain ⟨happ, hconns, -⟩ := reset_sameConns (w.setState c .closed)
    refine ⟨happ, fun d hd => ?_, ?_⟩
    · rw [After.run, hconns]
      exact modConn_of_ne _ hd _
    · rw [After.run, hconns, setState, modConn_self]
      rfl
  | timedout => exact ⟨by simp [After.run, putFlags, put], by simp [After.run, putFlags, put],
      by simpa [After.run, After.state, putFlags, put] using hsame⟩
  | goto l =>
    exact ⟨by simp [After.run], by simp [After.run], by simpa [After.run, After.state] using hsame⟩

/-! ### The data that is sent -/

/-- The application sends `bs`. -/
structure Sending (bs : List UInt8) (w : Stack α) : Prop where
  sappdata : w.sappdata = 54
  slen : w.slen.toNat = bs.length
  read : w.buf.read 54 bs.length = bs

/-- The event of data that goes out, if there is any. -/
def sentEvents (c : ConnId) (again : Bool) (bs : List UInt8) : List WireEvent :=
  if bs = [] then [] else [.sent c again bs]

theorem apprexmit_wire {c : ConnId} {bs : List UInt8} {w : Stack α} (h : Sending bs w)
    (hlen : (w.conns c).len.toNat = bs.length) (again : Bool) :
    (apprexmit c again w).wire = w.wire ++ sentEvents c again bs := by
  have hlen' : (w.conns c).len = w.slen := UInt16.toNat.inj (hlen.trans h.slen.symm)
  have hpos : 0 < w.slen ↔ bs ≠ [] := by
    rw [UInt16.lt_iff_toNat_lt, h.slen]
    simp [List.length_pos_iff]
  simp only [apprexmit, hlen', hpos, and_self, sentEvents, h.sappdata]
  by_cases hbs : bs = []
  · simp only [hbs, ne_eq, not_true_eq_false, ↓reduceIte]
    split <;> simp [putFlags, put]
  · simp only [hbs, ne_eq, not_false_eq_true, ↓reduceIte, emit, goto_wire, goto_appdata]
    simp only [putFlags, put, h.slen]
    congr 3
    refine (Mem.read_congr fun i _ => ?_).trans h.read
    rw [goto_buf_of_ge _ _ (by omega)]
    exact Mem.write_apply_of_ge (by simp; omega)

theorem appsendLen_sending {c : ConnId} {bs : List UInt8} {w : Stack α} (h : Sending bs w)
    (hlen : (w.conns c).len = 0 ∧ bs.length ≤ (w.conns c).mss.toNat ∨
      (w.conns c).len.toNat = bs.length ∧ w.flags.ackdata = false) :
    Sending bs (appsendLen c w) ∧ ((appsendLen c w).conns c).len.toNat = bs.length ∧
      (appsendLen c w).wire = w.wire := by
  by_cases hpos : 0 < w.slen
  · have hne : bs.length ≠ 0 := by
      rw [UInt16.lt_iff_toNat_lt, h.slen] at hpos
      exact hpos.ne'
    rcases hlen with ⟨hzero, hmss⟩ | ⟨hlen, hack⟩
    · simp only [appsendLen, hpos, ↓reduceIte]
      -- with nothing in flight, clearing the length again changes nothing that matters
      have h₀ : ∃ w₀,
          w₀ = (if w.flags.ackdata then w.modConn c fun k => { k with len := 0 } else w) ∧
          Sending bs w₀ ∧ (w₀.conns c).len = 0 ∧ (w₀.conns c).mss = (w.conns c).mss ∧
          w₀.wire = w.wire := by
        refine ⟨_, rfl, ?_⟩
        split
        · exact ⟨⟨h.sappdata, h.slen, h.read⟩, by simp, by simp, rfl⟩
        · exact ⟨h, hzero, rfl, rfl⟩
      obtain ⟨w₀, hw₀, hs, hlen₀, hmss₀, hwire₀⟩ := h₀
      have hfits : ¬w₀.slen > (w₀.conns c).mss := by
        rw [gt_iff_lt, UInt16.lt_iff_toNat_lt, hs.slen, hmss₀]
        omega
      simp only [← hw₀, hlen₀, hfits, ↓reduceIte]
      exact ⟨⟨hs.sappdata, hs.slen, hs.read⟩, by simpa using hs.slen, hwire₀⟩
    · have hout : (w.conns c).len ≠ 0 := by
        intro h0
        rw [h0] at hlen
        exact hne hlen.symm
      simp only [appsendLen, hpos, hack, hout, ↓reduceIte, Bool.false_eq_true]
      exact ⟨⟨h.sappdata, hlen, h.read⟩, hlen, trivial⟩
  · have hzero : bs.length = 0 := by
      rw [UInt16.lt_iff_toNat_lt, h.slen] at hpos
      exact Nat.eq_zero_of_not_pos hpos
    simp only [appsendLen, hpos, ↓reduceIte]
    refine ⟨h, ?_, trivial⟩
    rcases hlen with ⟨h0, -⟩ | ⟨hlen, -⟩
    · rw [h0, hzero]
      rfl
    · exact hlen

/-- After the call the data is sent, again if some is in flight. -/
theorem appsend_wire {c : ConnId} {bs : List UInt8} {w : Stack α} (h : Sending bs w)
    (habort : w.flags.abort = false) (hclose : w.flags.close = false)
    (hlen : (w.conns c).len = 0 ∧ bs.length ≤ (w.conns c).mss.toNat ∨
      (w.conns c).len.toNat = bs.length ∧ w.flags.ackdata = false) :
    (appsend c w).wire = w.wire ++ sentEvents c (decide ((w.conns c).len ≠ 0)) bs ∧
      ((appsend c w).conns c).len.toNat = bs.length := by
  obtain ⟨hsending, hlen', hwire⟩ := appsendLen_sending h hlen
  have hagain : (decide ((w.conns c).len ≠ 0) && !w.flags.ackdata) =
      decide ((w.conns c).len ≠ 0) := by
    rcases hlen with ⟨h0, -⟩ | ⟨-, hack⟩
    · simp [h0]
    · simp [hack]
  simp only [appsend, habort, hclose, Bool.false_eq_true, ↓reduceIte, hagain]
  set w₁ := (appsendLen c w).modConn c fun k => { k with nrtx := 0 }
  have hsending₁ : Sending bs w₁ := ⟨hsending.sappdata, hsending.slen, hsending.read⟩
  have hlen₁ : (w₁.conns c).len.toNat = bs.length := by simpa [w₁] using hlen'
  rw [apprexmit_wire hsending₁ hlen₁, (apprexmit_conn ..).2, ← hwire]
  exact ⟨rfl, hlen₁⟩

end Stack

end OpenPLC
