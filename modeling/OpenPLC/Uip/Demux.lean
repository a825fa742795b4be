import OpenPLC.Apps.Events
import OpenPLC.Lib.Run

/-! The connections as the peers see them.  A connection is told from the others by its ports and
its remote address, which only a SYN for a new connection changes.  The stack looks for the first
connection that a segment matches, and in every run it is the only one. -/

namespace OpenPLC

open Lib

/-- What tells a connection from the others. -/
def Conn.ends (k : Conn) : IpAddr × UInt16 × UInt16 := (k.ripaddr, k.lport, k.rport)

/-- The connection that a call of `uip_process` is for, if there is one before the call. -/
def ProcessFlag.conn? : ProcessFlag → Option ConnId
  | .timer c | .pollRequest c => some c
  | _ => none

/-- The lengths of a connection are within the size of a segment. -/
structure Conn.Small (k : Conn) : Prop where
  len : k.len ≤ 970
  mss : k.mss ≤ 970
  initialmss : k.initialmss ≤ 970

/-- The length of what is outstanding is that of nothing, or of a SYN or a FIN, or as it was. -/
theorem Conn.Small.of_len {k k' : Conn} (hmss : k'.mss = k.mss)
    (hinitialmss : k'.initialmss = k.initialmss) (hlen : k'.len = k.len ∨ k'.len = 0 ∨ k'.len = 1)
    (h : k.Small) : k'.Small := by
  refine ⟨?_, hmss ▸ h.mss, hinitialmss ▸ h.initialmss⟩
  rcases hlen with hlen | hlen | hlen
  · exact hlen ▸ h.len
  · rw [hlen]
    decide
  · rw [hlen]
    decide

/-- The changes that the stack makes to a connection once it is open. -/
structure Conn.Amends (k k' : Conn) : Prop where
  ends : k'.ends = k.ends
  synRcvd : k'.tcpstateflags.ts = .synRcvd → k.tcpstateflags.ts = .synRcvd
  nrtx : k.nrtx ≤ 8 → k'.nrtx ≤ 8
  small : k.Small → k'.Small

/-- The changes to a connection that takes no data. -/
structure Conn.Keeps (k k' : Conn) : Prop extends Conn.Amends k k' where
  rcvNxt : k'.rcvNxt = k.rcvNxt

namespace Conn

variable {k k' : Conn}

instance : Std.Refl Amends := ⟨fun _ => ⟨rfl, id, id, id⟩⟩

instance : IsTrans Conn Amends where
  trans _ _ _ h h' :=
    ⟨h'.ends.trans h.ends, fun hs => h.synRcvd (h'.synRcvd hs), fun hn => h'.nrtx (h.nrtx hn),
      fun hs => h'.small (h.small hs)⟩

instance : Std.Refl Keeps := ⟨fun k => ⟨Std.Refl.refl k, rfl⟩⟩

instance : IsTrans Conn Keeps where
  trans _ _ _ h h' := ⟨IsTrans.trans _ _ _ h.toAmends h'.toAmends, h'.rcvNxt.trans h.rcvNxt⟩

/-- Only the numbers of a connection change. -/
theorem Amends.of_same (hends : k'.ends = k.ends) (hstate : k'.tcpstateflags = k.tcpstateflags)
    (hnrtx : k'.nrtx = k.nrtx) (hsmall : k.Small → k'.Small) : Amends k k' :=
  ⟨hends, by rw [hstate]; exact id, by rw [hnrtx]; exact id, hsmall⟩

/-- The state of a connection changes. -/
theorem Amends.of_state (hends : k'.ends = k.ends) (hstate : k'.tcpstateflags.ts ≠ .synRcvd)
    (hnrtx : k'.nrtx = k.nrtx ∨ k'.nrtx = 0) (hsmall : k.Small → k'.Small) : Amends k k' := by
  refine ⟨hends, fun h => absurd h hstate, fun h => ?_, hsmall⟩
  rcases hnrtx with hnrtx | hnrtx
  · rwa [hnrtx]
  · rw [hnrtx]
    decide

end Conn

namespace Stack

variable {α : Type*} {w w₁ w₂ : Stack α} {c : ConnId}

/-- From `w` to `w'` connection `c` changes by `R`, and no other one changes. -/
def Changes (R : Conn → Conn → Prop) (c : ConnId) (w w' : Stack α) : Prop :=
  R (w.conns c) (w'.conns c) ∧ ∀ d ≠ c, w'.conns d = w.conns d

/-- No connection is opened from `w` to `w'`. -/
abbrev Amends (c : ConnId) (w w' : Stack α) : Prop := Changes Conn.Amends c w w'

/-- No connection is opened or takes data from `w` to `w'`. -/
abbrev Keeps (c : ConnId) (w w' : Stack α) : Prop := Changes Conn.Keeps c w w'

namespace Changes

variable {R : Conn → Conn → Prop}

theorem apply [Std.Refl R] (h : Changes R c w w₁) (d : ConnId) : R (w.conns d) (w₁.conns d) := by
  by_cases hd : d = c
  · rw [hd]
    exact h.1
  · rw [h.2 d hd]
    exact Std.Refl.refl _

theorem trans [IsTrans Conn R] (h : Changes R c w w₁) (h' : Changes R c w₁ w₂) :
    Changes R c w w₂ :=
  ⟨IsTrans.trans _ _ _ h.1 h'.1, fun d hd => (h'.2 d hd).trans (h.2 d hd)⟩

theorem of_conns [Std.Refl R] (h : w₁.conns = w.conns) : Changes R c w w₁ := by
  refine ⟨?_, fun d _ => congrFun h d⟩
  rw [h]
  exact Std.Refl.refl _

theorem refl [Std.Refl R] (w : Stack α) : Changes R c w w := of_conns rfl

theorem of_update {k : Conn} (h : w₁.conns = Function.update w.conns c k) (hk : R (w.conns c) k) :
    Changes R c w w₁ := by
  refine ⟨?_, fun d hd => ?_⟩
  · rw [h, Function.update_self]
    exact hk
  · rw [h, Function.update_of_ne hd]

theorem modConn (w : Stack α) (c : ConnId) {f : Conn → Conn}
    (hf : R (w.conns c) (f (w.conns c))) : Changes R c w (w.modConn c f) := of_update rfl hf

theorem goto [IsTrans Conn R] [Std.Refl R] (h : Changes R c w w₁) (l : Label) :
    Changes R c w (w₁.goto l) := h.trans (of_conns (goto_conns w₁ l))

end Changes

theorem Keeps.amends (h : Keeps c w w₁) : Amends c w w₁ := ⟨h.1.toAmends, h.2⟩

theorem setState_keeps (w : Stack α) (c : ConnId) {ts : TcpState} (hts : ts ≠ .synRcvd) :
    Keeps c w (w.setState c ts) :=
  .modConn w c ⟨.of_state rfl hts (.inl rfl) (.of_len rfl rfl (.inl rfl)), rfl⟩

theorem setState_amends (w : Stack α) (c : ConnId) {ts : TcpState} (hts : ts ≠ .synRcvd) :
    Amends c w (w.setState c ts) := (setState_keeps w c hts).amends

/-- The outcome of `uip_process` from `w` changes connection `c` by `R`, and calls the application
of no other connection. -/
def Outcome.Changes (R : Conn → Conn → Prop) (c : ConnId) (w : Stack α) : Outcome α → Prop
  | .done w' | .udpCall _ w' => Stack.Changes R c w w'
  | .call d w' _ => d = c ∧ Stack.Changes R c w w'

theorem Outcome.Changes.trans {R : Conn → Conn → Prop} [IsTrans Conn R] {o : Outcome α}
    (h : Stack.Changes R c w w₁) (h' : o.Changes R c w₁) : o.Changes R c w := by
  cases o with
  | done w₂ => exact Stack.Changes.trans h h'
  | call d w₂ after => exact ⟨h'.1, Stack.Changes.trans h h'.2⟩
  | udpCall u w₂ => exact Stack.Changes.trans h h'

/-! ### A segment for a connection -/

theorem addRcvNxt_amends (w : Stack α) (c : ConnId) (n : UInt16) : Amends c w (w.addRcvNxt c n) :=
  .modConn w c (.of_same rfl rfl rfl (.of_len rfl rfl (.inl rfl)))

theorem ackInput_amends (c : ConnId) (w : Stack α) : Amends c w (ackInput c w) := by
  unfold ackInput
  split
  · refine .of_update rfl ?_
    dsimp only
    split <;> exact .of_same rfl rfl rfl (.of_len rfl rfl (.inr (.inl rfl)))
  · exact .refl w

theorem parseMss_amends (c : ConnId) (w : Stack α) : Amends c w (parseMss c w) := by
  unfold parseMss
  split
  · split
    · exact .of_conns rfl
    · exact .refl w
    · next v _ =>
      have hle : (if v > tcpMss then tcpMss else v) ≤ tcpMss := by
        split
        · exact UInt16.le_refl _
        · next hgt => exact UInt16.not_lt.mp hgt
      exact .modConn w c (.of_same rfl rfl rfl fun h => ⟨h.len, hle, hle⟩)
  · exact .refl w

theorem reset_keeps (w : Stack α) : Keeps c w (reset w) := .of_conns (reset_sameConns w).conns

theorem synRcvd_amends (c : ConnId) (w : Stack α) : (synRcvd c w).Changes Conn.Amends c w := by
  unfold synRcvd
  split
  · have hopen : Amends c w
        (w.modConn c fun k => { k with tcpstateflags := ⟨.established, false⟩, len := 0 }) :=
      .modConn w c
        (.of_state rfl (by simp) (.inl rfl) (.of_len rfl rfl (.inr (.inl rfl))))
    dsimp only
    split
    · exact ⟨rfl, hopen.trans (addRcvNxt_amends _ c w.len)⟩
    · exact ⟨rfl, hopen⟩
  · exact (Changes.refl w).goto .drop

theorem synSent_amends (c : ConnId) (w : Stack α) : (synSent c w).Changes Conn.Amends c w := by
  unfold synSent
  dsimp only
  split
  · split
    · exact (parseMss_amends c w).goto .drop
    · refine ⟨rfl, (parseMss_amends c w).trans (.of_update rfl (.of_state rfl ?_ (.inl rfl)
        (.of_len rfl rfl (.inr (.inl rfl)))))⟩
      simp
  · exact ⟨rfl, .of_conns rfl⟩

theorem skipUrgent_conns (w : Stack α) : (skipUrgent w).conns = w.conns := by
  unfold skipUrgent
  split <;> rfl

theorem acceptData_amends (c : ConnId) (w : Stack α) : Amends c w (acceptData c w) := by
  unfold acceptData
  split
  · exact addRcvNxt_amends { w with flags.newdata := true } c w.len
  · exact .refl w

/-- The window of the peer only makes a segment smaller. -/
theorem updateMss_amends (c : ConnId) (w : Stack α) : Amends c w (updateMss c w) := by
  refine .modConn w c (.of_same rfl rfl rfl fun h => ⟨h.len, ?_, h.initialmss⟩)
  dsimp only
  split
  · exact h.initialmss
  · next hwnd => exact UInt16.le_trans (UInt16.not_lt.mp (not_or.mp hwnd).1) h.initialmss

theorem established_amends (c : ConnId) (w : Stack α) :
    (established c w).Changes Conn.Amends c w := by
  unfold established
  split
  · unfold establishedFin
    split
    · exact (Changes.refl w).goto .drop
    · exact ⟨rfl, addRcvNxt_amends w c (1 + w.len)⟩
  · have hdata : Amends c w (establishedData c w) := by
      unfold establishedData
      exact ((Changes.of_conns (skipUrgent_conns w)).trans (acceptData_amends c _)).trans
        (updateMss_amends c _)
    dsimp only
    split
    · exact ⟨rfl, hdata⟩
    · exact hdata.goto .drop

theorem lastAck_amends (c : ConnId) (w : Stack α) : (lastAck c w).Changes Conn.Amends c w := by
  unfold lastAck
  split
  · exact ⟨rfl, setState_amends w c (by simp)⟩
  · exact (Changes.refl w).goto .drop

theorem skipData_amends (c : ConnId) (w : Stack α) : Amends c w (skipData c w) := by
  unfold skipData
  split
  · exact addRcvNxt_amends w c w.len
  · exact .refl w

theorem finWait1_amends (c : ConnId) (w : Stack α) : (finWait1 c w).Changes Conn.Amends c w := by
  have hskip := skipData_amends c w
  unfold finWait1
  generalize skipData c w = w₁ at hskip
  dsimp only
  split
  · refine ⟨rfl, ?_⟩
    split
    · exact ((hskip.trans (setState_amends w₁ c (by simp))).trans
        (.modConn _ c (.of_same rfl rfl rfl (.of_len rfl rfl (.inr (.inl rfl)))))).trans
        (addRcvNxt_amends _ c 1)
    · exact (hskip.trans (setState_amends w₁ c (by simp))).trans (addRcvNxt_amends _ c 1)
  split
  · exact ((hskip.trans (setState_amends w₁ c (by simp))).trans
      (.modConn _ c (.of_same rfl rfl rfl (.of_len rfl rfl (.inr (.inl rfl)))))).goto .drop
  split
  · exact hskip.goto (.tcpSendAck c)
  · exact hskip.goto .drop

theorem finWait2_amends (c : ConnId) (w : Stack α) : (finWait2 c w).Changes Conn.Amends c w := by
  have hskip := skipData_amends c w
  unfold finWait2
  generalize skipData c w = w₁ at hskip
  dsimp only
  split
  · exact ⟨rfl, ((hskip.trans (setState_amends w₁ c (by simp))).trans
      (.modConn _ c (.of_same rfl rfl rfl (.of_len rfl rfl (.inl rfl))))).trans
      (addRcvNxt_amends _ c 1)⟩
  split
  · exact hskip.goto (.tcpSendAck c)
  · exact hskip.goto .drop

theorem closing_amends (c : ConnId) (w : Stack α) : Amends c w (closing c w) := by
  unfold closing
  split
  · exact ((setState_amends w c (by simp)).trans
      (.modConn _ c (.of_same rfl rfl rfl (.of_len rfl rfl (.inl rfl))))).goto .drop
  · exact (Changes.refl w).goto .drop

theorem tcpState_amends (c : ConnId) (w : Stack α) : (tcpState c w).Changes Conn.Amends c w := by
  unfold tcpState
  split
  · exact synRcvd_amends c w
  · exact synSent_amends c w
  · exact established_amends c w
  · exact lastAck_amends c w
  · exact finWait1_amends c w
  · exact finWait2_amends c w
  · exact (Changes.refl w).goto (.tcpSendAck c)
  · exact closing_amends c w
  · exact (Changes.refl w).goto .drop

theorem found_amends (c : ConnId) (w : Stack α) : (found c w).Changes Conn.Amends c w := by
  unfold found
  dsimp only
  split
  · refine ⟨rfl, (Changes.of_conns rfl).trans
      (setState_amends { w with conn := some c, flags := {} } c ?_)⟩
    simp
  unfold foundSegment
  set w₁ : Stack α := { w with conn := some c, flags := {}, len := tcpDataLen _ }
  have hsame : Amends c w w₁ := .of_conns rfl
  split
  · exact hsame.goto (.tcpSendAck c)
  · exact .trans (hsame.trans (ackInput_amends c w₁)) (tcpState_amends c _)

/-! ### The timer -/

theorem rexmit_keeps (c : ConnId) (w : Stack α) (h : (w.conns c).nrtx ≠ 8) :
    (rexmit c w).Changes Conn.Keeps c w := by
  have hcount : Keeps c w (w.modConn c fun k =>
      { k with timer := 3 <<< (if k.nrtx > 4 then 4 else k.nrtx), nrtx := k.nrtx + 1 }) := by
    refine .modConn w c ⟨⟨rfl, id, fun hle => ?_, .of_len rfl rfl (.inl rfl)⟩, rfl⟩
    have hlt : (w.conns c).nrtx < 8 := UInt8.lt_of_le_of_ne hle h
    have h1 : (1 : UInt8).toNat = 1 := rfl
    have h8 : (8 : UInt8).toNat = 8 := rfl
    rw [UInt8.lt_iff_toNat_lt, h8] at hlt
    rw [UInt8.le_iff_toNat_le, UInt8.toNat_add, h1, h8]
    exact (Nat.mod_le _ _).trans hlt
  unfold rexmit
  dsimp only
  split
  · exact hcount.trans (.of_conns rfl)
  · exact hcount.trans (.of_conns rfl)
  · exact ⟨rfl, hcount.trans (.of_conns rfl)⟩
  · exact hcount.trans (.of_conns rfl)
  · exact hcount.trans (.of_conns rfl)
  · exact hcount.trans (.of_conns rfl)
  · exact hcount.goto .drop

theorem connTimer_keeps (c : ConnId) (w : Stack α) :
    (connTimer c w).Changes Conn.Keeps c w := by
  unfold connTimer
  dsimp only
  split
  · have hcount : Keeps c w (w.modConn c fun k => { k with timer := k.timer + 1 }) :=
      .modConn w c ⟨.of_same rfl rfl rfl (.of_len rfl rfl (.inl rfl)), rfl⟩
    split
    · exact (hcount.trans (setState_keeps _ c (by simp))).goto .drop
    · exact hcount.goto .drop
  split
  · exact (Changes.refl w).goto .drop
  split
  · have hcount : Keeps c w (w.modConn c fun k => { k with timer := k.timer - 1 }) :=
      .modConn w c ⟨.of_same rfl rfl rfl (.of_len rfl rfl (.inl rfl)), rfl⟩
    split
    · exact hcount.goto .drop
    split
    · exact ⟨rfl, hcount.trans (setState_keeps _ c (by simp))⟩
    · next hgives =>
      refine .trans hcount (rexmit_keeps c _ ?_)
      rw [modConn_self]
      exact fun h => hgives (.inl h)
  split
  · exact ⟨rfl, .of_conns rfl⟩
  · exact (Changes.refl w).goto .drop

theorem dispatch_keeps {flag : ProcessFlag} (hflag : flag ≠ .data)
    (hc : ∀ d, flag.conn? = some d → d = c) (w : Stack α) :
    (w.dispatch flag).Changes Conn.Keeps c w := by
  cases flag with
  | data => exact absurd rfl hflag
  | timer d =>
    obtain rfl := hc d rfl
    have hticked : Keeps d w { w.enter with conn := some d }.tick := .of_conns rfl
    exact .trans hticked (connTimer_keeps d _)
  | pollRequest d =>
    obtain rfl := hc d rfl
    simp only [dispatch]
    split
    · exact ⟨rfl, .of_conns rfl⟩
    · exact (Changes.of_conns rfl).goto .drop
  | udpSendConn u =>
    simp only [dispatch, udpSend]
    split
    · exact (Changes.refl w).goto .drop
    · exact .of_conns rfl
  | udpTimer u =>
    simp only [dispatch]
    split
    · exact .of_conns rfl
    · exact (Changes.of_conns rfl).goto .drop

theorem process_keeps {flag : ProcessFlag} (hflag : flag ≠ .data)
    (hc : ∀ d, flag.conn? = some d → d = c) (w : Stack α) :
    (w.process flag).Changes Conn.Keeps c w := by
  rcases process_cases w flag with ⟨-, h⟩ | ⟨-, h⟩
  · rw [h]
    exact (Changes.of_conns rfl).goto .drop
  · rw [h]
    exact dispatch_keeps hflag hc w

/-- The code is as lost as before, and a call brings no data. -/
def Outcome.Quiet (w : Stack α) : Outcome α → Prop
  | .done w' | .udpCall _ w' => w'.lost = w.lost
  | .call _ w' _ => w'.lost = w.lost ∧ w'.flags.newdata = false

theorem rexmit_quiet (c : ConnId) (w : Stack α) : (rexmit c w).Quiet w := by
  unfold rexmit
  dsimp only
  split
  all_goals first | exact ⟨rfl, rfl⟩ | exact goto_lost ..

theorem connTimer_quiet (c : ConnId) (w : Stack α) : (connTimer c w).Quiet w := by
  unfold connTimer
  dsimp only
  split
  · split <;> exact goto_lost ..
  split
  · exact goto_lost ..
  split
  · split
    · exact goto_lost ..
    split
    · exact ⟨rfl, rfl⟩
    · exact rexmit_quiet c (w.modConn c fun k => { k with timer := k.timer - 1 })
  split
  · exact ⟨rfl, rfl⟩
  · exact goto_lost ..

/-- Only a packet brings data, or gets the code lost before a call. -/
theorem process_quiet {flag : ProcessFlag} (hflag : flag ≠ .data) (w : Stack α) :
    (w.process flag).Quiet w := by
  rcases process_cases w flag with ⟨-, h⟩ | ⟨-, h⟩
  · rw [h]
    exact goto_lost ..
  rw [h]
  cases flag with
  | data => exact absurd rfl hflag
  | timer c => exact connTimer_quiet c { w.enter with conn := some c }.tick
  | pollRequest c =>
    simp only [dispatch]
    split
    · exact ⟨rfl, rfl⟩
    · exact goto_lost ..
  | udpSendConn u =>
    simp only [dispatch, udpSend]
    split <;> exact goto_lost ..
  | udpTimer u =>
    simp only [dispatch]
    split
    · exact rfl
    · exact goto_lost ..

/-! ### After the call of an application -/

theorem appsendLen_keeps (c : ConnId) (w : Stack α) : Keeps c w (appsendLen c w) := by
  unfold appsendLen
  split
  · have hack : Keeps c w
        (if w.flags.ackdata then w.modConn c fun k => { k with len := 0 } else w) := by
      split
      · exact .modConn w c ⟨.of_same rfl rfl rfl (.of_len rfl rfl (.inr (.inl rfl))), rfl⟩
      · exact .refl w
    dsimp only
    generalize (if w.flags.ackdata then w.modConn c fun k => { k with len := 0 } else w) = w₁
      at hack
    split
    · split
      · exact hack.trans (.of_update rfl
          ⟨.of_same rfl rfl rfl fun h => ⟨h.mss, h.mss, h.initialmss⟩, rfl⟩)
      · next hfits =>
        have hle (h : (w₁.conns c).Small) : w₁.slen ≤ 970 :=
          UInt16.le_trans (UInt16.not_lt.mp hfits) h.mss
        exact hack.trans (.of_update rfl
          ⟨.of_same rfl rfl rfl fun h => ⟨hle h, h.mss, h.initialmss⟩, rfl⟩)
    · exact hack
  · exact .refl w

theorem After.run_keeps (c : ConnId) (w : Stack α) (after : After) :
    Keeps c w (after.run c w) := by
  cases after with
  | appsend =>
    simp only [After.run, Stack.appsend]
    split
    · exact (setState_keeps { w with slen := 0 } c (by simp)).trans (.of_conns rfl)
    split
    · exact .of_update rfl ⟨.of_state rfl (by simp) (.inr rfl)
      (.of_len rfl rfl (.inr (.inr rfl))), rfl⟩
    · refine ((appsendLen_keeps c w).trans (.modConn _ c ?_)).trans
        (.of_conns (apprexmit_conn c _ _).2)
      exact ⟨⟨rfl, id, fun _ => (by decide : (0 : UInt8) ≤ 8), .of_len rfl rfl (.inl rfl)⟩, rfl⟩
  | apprexmit => exact .of_conns (apprexmit_conn c true w).2
  | lastAck => exact .of_update rfl ⟨.of_state rfl (by simp) (.inr rfl)
      (.of_len rfl rfl (.inr (.inr rfl))), rfl⟩
  | refused => exact (setState_keeps w c (by simp)).trans (reset_keeps _)
  | timedout => exact .of_conns rfl
  | goto l => exact (Changes.refl w).goto l

/-! ### The connection of a segment -/

/-- The packet in `uip_buf` as label `tcp_input` gets it, if it is a segment with a good
checksum. -/
def segment? (w : Stack α) : Option (Stack α) :=
  match w.ipInput with
  | (w, .tcp) => if tcpchksum w.buf ≠ 0xffff then none else some w
  | _ => none

/-- The state with the packet of an event in `uip_buf`, unless the code is lost. -/
def arrival (w : Stack α) (e : NetEvent) : Option (Stack α) :=
  if w.lost then none
  else
    match e with
    | .input buf len => some { w with buf, len }.enter
    | .process .data => some w.enter
    | _ => none

theorem arrival_input (h : w.lost = false) {buf : Mem} {len : UInt16} :
    w.arrival (.input buf len) = some { w with buf, len }.enter :=
  if_neg (Bool.eq_false_iff.mp h)

/-- The segment of an event. -/
def eventSegment (w : Stack α) (e : NetEvent) : Option (Stack α) := (w.arrival e).bind segment?

theorem lost_of_eventSegment {e : NetEvent} (h : w.eventSegment e = some w₁) : w.lost = false := by
  cases hlost : w.lost with
  | false => rfl
  | true =>
    simp only [eventSegment, arrival, hlost, ↓reduceIte] at h
    cases h

/-- What the segment in `uip_buf` tells its connection by. -/
def segmentEnds (w : Stack α) : IpAddr × UInt16 × UInt16 :=
  (.load w.buf 26, w.buf.get16 36, w.buf.get16 34)

theorem matchesConn_iff {c : ConnId} :
    w.MatchesConn c ↔ ¬w.Closed c ∧ (w.conns c).ends = w.segmentEnds := by
  unfold MatchesConn Conn.ends segmentEnds
  simp only [Prod.mk.injEq]
  tauto

/-- The segment is a SYN for a port that is listened to, and connection `c` is free for it. -/
structure Accepts (w : Stack α) (c : ConnId) : Prop where
  unknown : w.findConn = none
  syn : w.tcpFlags &&& 0x3f = 0x02
  port : w.buf.get16 36 ∈ w.listenports
  free : freeConn w.conns = some c

instance (w : Stack α) (c : ConnId) : Decidable (w.Accepts c) :=
  decidable_of_iff (w.findConn = none ∧ w.tcpFlags &&& 0x3f = 0x02 ∧
      w.buf.get16 36 ∈ w.listenports ∧ freeConn w.conns = some c)
    ⟨fun ⟨h₁, h₂, h₃, h₄⟩ => ⟨h₁, h₂, h₃, h₄⟩, fun h => ⟨h.unknown, h.syn, h.port, h.free⟩⟩

theorem segment?_sameConns (h : w.segment? = some w₁) :
    SameConns w w₁ ∧ w₁.sappdata = w.sappdata ∧ w.dataInput = tcpInput w₁ ∧
      tcpchksum w₁.buf = 0xffff := by
  obtain ⟨hsame, hsapp⟩ := ipInput_sameConns w
  unfold segment? at h
  unfold dataInput
  split at h
  · next w' heq =>
    rw [heq] at hsame hsapp ⊢
    split at h
    · cases h
    · next hsum =>
      obtain rfl := Option.some.inj h
      exact ⟨hsame, hsapp, rfl, not_not.mp hsum⟩
  · cases h

/-- Without a segment, no connection is opened. -/
theorem dataInput_keeps (h : w.segment? = none) : w.dataInput.Changes Conn.Keeps c w := by
  have hsame : Keeps c w w.ipInput.1 := .of_conns (ipInput_sameConns w).1.conns
  unfold segment? at h
  unfold dataInput
  generalize w.ipInput = p at h hsame
  obtain ⟨w₁, verdict⟩ := p
  cases verdict with
  | tcp =>
    have hsum : tcpchksum w₁.buf ≠ 0xffff := by simpa using h
    simp only [tcpInput, hsum, ne_eq, not_false_eq_true, ↓reduceIte]
    exact hsame.goto .drop
  | udp =>
    simp only [udpInput]
    split
    · exact hsame.trans (.of_conns rfl)
    · exact (hsame.trans (.of_conns rfl)).goto .drop
  | icmp =>
    simp only [icmpInput]
    split
    · exact hsame.goto .drop
    · exact hsame.trans (.of_conns rfl)
  | drop => exact hsame.goto .drop

/-- A segment is for a connection, or opens one, or changes none. -/
theorem tcpInput_cases (hsum : tcpchksum w.buf = 0xffff) :
    (∃ c, w.findConn = some c ∧ w.tcpInput = found c w) ∨
      (∃ c, w.Accepts c ∧ w.tcpInput = .done (foundListen w)) ∨
      w.findConn = none ∧ ∀ c, w.tcpInput.Changes Conn.Keeps c w := by
  unfold tcpInput
  simp only [hsum, ne_eq, not_true_eq_false, ↓reduceIte]
  cases hfind : w.findConn with
  | some c => exact .inl ⟨c, rfl, rfl⟩
  | none =>
    refine .inr ?_
    dsimp only
    split
    · exact .inr ⟨rfl, fun c => reset_keeps w⟩
    · next hsyn =>
      split
      · next hport =>
        cases hfree : freeConn w.conns with
        | some c => exact .inl ⟨c, ⟨hfind, not_not.mp hsyn, hport, hfree⟩, rfl⟩
        | none =>
          refine .inr ⟨rfl, fun c => ?_⟩
          simp only [foundListen, hfree]
          exact (Changes.refl w).goto .drop
      · exact .inr ⟨rfl, fun c => reset_keeps w⟩

/-- What is known of a connection that was just opened. -/
structure Opened (c : ConnId) (w w' : Stack α) : Prop where
  others : ∀ d ≠ c, w'.conns d = w.conns d
  ends : (w'.conns c).ends = w.segmentEnds
  state : (w'.conns c).tcpstateflags = ⟨.synRcvd, false⟩
  rcvNxt : (w'.conns c).rcvNxt = (Quad.load w.buf 38).add 1
  len : (w'.conns c).len = 1
  nrtx : (w'.conns c).nrtx = 0
  small : (w.conns c).Small → (w'.conns c).Small

theorem parseMss_openConn (c : ConnId) (w : Stack α) (f : Conn → Conn) :
    let k := (parseMss c (w.modConn c f)).conns c
    k.ends = (f (w.conns c)).ends ∧ k.tcpstateflags = (f (w.conns c)).tcpstateflags ∧
      k.rcvNxt = (f (w.conns c)).rcvNxt ∧ k.len = (f (w.conns c)).len ∧
      k.nrtx = (f (w.conns c)).nrtx := by
  unfold parseMss
  split
  · split <;> simp [Conn.ends]
  · simp

theorem Accepts.opened (h : w.Accepts c) : Opened c w (foundListen w) := by
  have hconns : (foundListen w).conns =
      (parseMss c ({ w with conn := some c }.modConn c (openConn w.buf w.iss))).conns := by
    simp only [foundListen, h.free]
    exact (synack_sameConns c _).conns
  obtain ⟨hends, hstate, hrcvNxt, hlen, hnrtx⟩ :=
    parseMss_openConn c { w with conn := some c } (openConn w.buf w.iss)
  refine ⟨fun d hd => ?_, ?_, ?_, ?_, ?_, ?_, fun hsmall => ?_⟩ <;> rw [hconns]
  · rw [(parseMss_conn c _).2.2.1 d hd]
    exact modConn_of_ne _ hd _
  · exact hends
  · exact hstate
  · exact hrcvNxt
  · exact hlen
  · exact hnrtx
  · refine (parseMss_amends c _).1.small ?_
    rw [modConn_self]
    exact Conn.Small.of_len (k := w.conns c) rfl rfl (.inr (.inr rfl)) hsmall

/-- No two open connections have the same ports and remote address. -/
def Distinct (w : Stack α) : Prop :=
  ∀ c d, ¬w.Closed c → ¬w.Closed d → (w.conns c).ends = (w.conns d).ends → c = d

theorem Distinct.findConn_iff (h : w.Distinct) {c : ConnId} :
    w.findConn = some c ↔ w.MatchesConn c := by
  constructor
  · intro hfind
    simpa using List.find?_some hfind
  · intro hmatch
    cases hfind : w.findConn with
    | none =>
      exact absurd hmatch (by simpa using List.find?_eq_none.mp hfind c (List.mem_finRange c))
    | some d =>
      have hd : w.MatchesConn d := by simpa using List.find?_some hfind
      rw [matchesConn_iff] at hmatch hd
      rw [h d c hd.1 hmatch.1 (hd.2.trans hmatch.2.symm)]

/-! ### Runs -/

variable {K : Conf} {σ : Type*} {sh : Shell σ}

theorem arrival_eq_some {w w₁ : Stack α} {e : NetEvent} (h : w.arrival e = some w₁) :
    SameConns w w₁ ∧ w₁.sappdata = 54 ∧ w₁.appdata = 54 ∧ w.outcome e = some w₁.dataInput := by
  unfold arrival at h
  split at h
  · cases h
  next hlost =>
    split at h
    · obtain rfl := Option.some.inj h
      refine ⟨⟨rfl, rfl, rfl⟩, rfl, rfl, ?_⟩
      simp [outcome, process, hlost, dispatch]
    · obtain rfl := Option.some.inj h
      refine ⟨⟨rfl, rfl, rfl⟩, rfl, rfl, ?_⟩
      simp [outcome, process, hlost, dispatch]
    · cases h

theorem run_changes {R : Conn → Conn → Prop} [Std.Refl R] [IsTrans Conn R]
    (hR : ∀ k k', Conn.Keeps k k' → R k k') {w : Stack (Firmware K σ)}
    {o : Outcome (Firmware K σ)} (h : o.Changes R c w) :
    Changes R c w (o.run (firmwareApps sh)) := by
  cases o with
  | done w₁ => exact h
  | call d w₀ after =>
    obtain ⟨rfl, h⟩ := h
    have hcall : Changes R d w (serverAppcall sh w₀) :=
      h.trans (.of_conns (serverAppcall_conns sh w₀))
    have hafter := After.run_keeps d (serverAppcall sh w₀) after
    exact hcall.trans ⟨hR _ _ hafter.1, hafter.2⟩
  | udpCall u w₀ =>
    have hclient := (dhcpcAppcall_sameServer w₀).trans (udpSend_sameServer u w₀.dhcpcAppcall)
    exact Stack.Changes.trans h (.of_conns hclient.conns)

theorem run_amends {w : Stack (Firmware K σ)} {o : Outcome (Firmware K σ)}
    (h : o.Changes Conn.Amends c w) : Amends c w (o.run (firmwareApps sh)) :=
  run_changes (fun _ _ => Conn.Keeps.toAmends) h

theorem run_keeps {w : Stack (Firmware K σ)} {o : Outcome (Firmware K σ)}
    (h : o.Changes Conn.Keeps c w) : Keeps c w (o.run (firmwareApps sh)) :=
  run_changes (fun _ _ => id) h

/-- The connection that an event is for, if there is one before the stack looks at a packet. -/
def eventConn : NetEvent → Option ConnId
  | .process flag => flag.conn?
  | _ => none

/-- Without a packet, no connection is opened or takes data. -/
theorem netStep_keeps_of_arrival {w : Stack (Firmware K σ)} {e : NetEvent}
    (h : w.arrival e = none) (hc : ∀ d, eventConn e = some d → d = c) :
    Keeps c w (w.netStep sh e) := by
  unfold arrival at h
  split at h
  · next hlost => exact .of_conns (netStep_of_lost sh hlost e).1.conns
  cases e with
  | renew => exact .of_conns (dhcpcRenew_sameServer w).conns
  | input buf len => cases h
  | process flag =>
    have hflag : flag ≠ .data := by
      rintro rfl
      cases h
    exact run_keeps (process_keeps hflag hc w)

/-- There is a connection such that an event without a packet changes no other one. -/
theorem exists_eventConn (e : NetEvent) : ∃ c, ∀ d, eventConn e = some d → d = c := by
  cases h : eventConn e with
  | none => exact ⟨0, fun _ h => nomatch h⟩
  | some c => exact ⟨c, fun _ h => (Option.some.inj h).symm⟩

/-- An event opens a connection, or it amends one. -/
theorem netStep_opened_or_amends (sh : Shell σ) (w : Stack (Firmware K σ)) (e : NetEvent) :
    (∃ w₁ c, w.eventSegment e = some w₁ ∧ w₁.conns = w.conns ∧ w₁.Accepts c ∧
      Opened c w₁ (w.netStep sh e)) ∨
    ∃ c, Amends c w (w.netStep sh e) := by
  cases harrival : w.arrival e with
  | none =>
    obtain ⟨c, hc⟩ := exists_eventConn e
    exact .inr ⟨c, (netStep_keeps_of_arrival harrival hc).amends⟩
  | some w₁ =>
    obtain ⟨hsame, -, -, houtcome⟩ := arrival_eq_some harrival
    have hw : w.netStep sh e = w₁.dataInput.run (firmwareApps sh) := by
      simp only [netStep, houtcome]
    rw [hw]
    cases hsegment : w₁.segment? with
    | none =>
      have hinput : w₁.dataInput.Changes Conn.Keeps 0 w :=
        .trans (Changes.of_conns hsame.conns) (dataInput_keeps hsegment)
      exact .inr ⟨0, (run_keeps hinput).amends⟩
    | some w₂ =>
      obtain ⟨hsame', -, hinput, hsum⟩ := segment?_sameConns hsegment
      have hconns : w₂.conns = w.conns := hsame'.conns.trans hsame.conns
      rw [hinput]
      rcases tcpInput_cases hsum with ⟨c, -, h⟩ | ⟨c, haccepts, h⟩ | ⟨-, h⟩
      · rw [h]
        exact .inr ⟨c, run_amends (.trans (Changes.of_conns hconns) (found_amends c w₂))⟩
      · rw [h]
        refine .inl ⟨w₂, c, ?_, hconns, haccepts, haccepts.opened⟩
        simp [eventSegment, harrival, hsegment]
      · exact .inr ⟨0, (run_keeps (.trans (Changes.of_conns hconns) (h 0))).amends⟩

/-- A connection that is closed stays so while none is opened. -/
theorem Passive.closed_netStep {w : Stack (Firmware K σ)} {e : NetEvent} (hp : w.Passive)
    (hamends : Amends c w (w.netStep sh e)) {d : ConnId} (hclosed : w.Closed d) :
    (w.netStep sh e).Closed d := by
  have hts : w.ts d = .closed := (hp.closed_iff d).mp hclosed
  rcases netStep_cases sh hp e with ⟨-, c, w₁, hm, hs⟩ | ⟨c, w₀, after, -, hm, -, -, hw⟩
  · by_cases hd : d = c
    · subst hd
      obtain ⟨acked, htrans, -⟩ := hm.acked
      rw [hts] at htrans
      rw [(netStep_passive sh hp e).closed_iff]
      have hstate : (w.netStep sh e).ts d = w₁.ts d := by rw [ts, hs.conns]
      rw [hstate]
      refine htrans.of_closed.2.2.resolve_right fun h => ?_
      have hopen : w.ts d = .synRcvd := (hamends.apply d).synRcvd (hstate.trans h)
      rw [hts] at hopen
      cases hopen
    · rw [Closed, hs.conns, hm.others d hd]
      exact hclosed
  · by_cases hd : d = c
    · subst hd
      obtain ⟨acked, htrans, -⟩ := hm.acked
      rw [hts] at htrans
      cases htrans.of_closed.1
    · rw [Closed, hw, (hm.appcall sh after).2.1 d hd]
      exact hclosed

theorem Distinct.netStep {w : Stack (Firmware K σ)} (hp : w.Passive) (h : w.Distinct)
    (e : NetEvent) : (w.netStep sh e).Distinct := by
  rcases netStep_opened_or_amends sh w e with
    ⟨w₁, c, -, hconns, haccepts, hopened⟩ | ⟨c, hamends⟩
  · -- no open connection matches the segment, so the new one is unlike all others
    have hnew (d : ConnId) (hd : d ≠ c) (hopen : ¬(w.netStep sh e).Closed d) :
        ((w.netStep sh e).conns d).ends ≠ w₁.segmentEnds := by
      intro hends
      have hsame := hopened.others d hd
      have hmatch : w₁.MatchesConn d := by
        rw [matchesConn_iff, Closed, ← hsame]
        exact ⟨hopen, hends⟩
      have hnone := List.find?_eq_none.mp haccepts.unknown d (List.mem_finRange d)
      exact absurd hmatch (by simpa using hnone)
    intro d d' hd hd' hends
    by_cases hdc : d = c
    · by_cases hdc' : d' = c
      · rw [hdc, hdc']
      · rw [hdc, hopened.ends] at hends
        exact absurd hends.symm (hnew d' hdc' hd')
    · by_cases hdc' : d' = c
      · rw [hdc', hopened.ends] at hends
        exact absurd hends (hnew d hdc hd)
      · rw [hopened.others d hdc, hopened.others d' hdc', hconns] at hends
        rw [Closed, hopened.others d hdc, hconns] at hd
        rw [Closed, hopened.others d' hdc', hconns] at hd'
        exact h d d' hd hd' hends
  · intro d d' hd hd' hends
    rw [(hamends.apply d).ends, (hamends.apply d').ends] at hends
    exact h d d' (fun hc => hd (hp.closed_netStep hamends hc))
      (fun hc => hd' (hp.closed_netStep hamends hc)) hends

theorem init_closed (null : Nat) (app : α) (c : ConnId) : (init null app).Closed c := rfl

theorem init_passive (null : Nat) (app : α) : (init null app).Passive := by
  intro c
  refine ⟨rfl, ?_⟩
  simp [ts, init]

theorem run_passive (sh : Shell σ) (null : Nat) (app : Firmware K σ) (es : List NetEvent) :
    (run (netStep sh) (init null app) es).Passive :=
  run_invariant (P := Passive) (fun _ e h => netStep_passive sh h e) (init_passive null app) es

theorem run_distinct (sh : Shell σ) (null : Nat) (app : Firmware K σ) (es : List NetEvent) :
    (run (netStep sh) (init null app) es).Distinct := by
  have hstep (w : Stack (Firmware K σ)) (e : NetEvent) (h : w.Passive ∧ w.Distinct) :
      (w.netStep sh e).Passive ∧ (w.netStep sh e).Distinct :=
    ⟨netStep_passive sh h.1 e, h.2.netStep h.1 e⟩
  exact (run_invariant hstep
    ⟨init_passive null app, fun c _ hc => absurd (init_closed null app c) hc⟩ es).2

theorem eventSegment_conns {e : NetEvent} (h : w.eventSegment e = some w₁) :
    w₁.conns = w.conns := by
  obtain ⟨w₂, harrival, hsegment⟩ := Option.bind_eq_some_iff.mp h
  exact (segment?_sameConns hsegment).1.conns.trans (arrival_eq_some harrival).1.conns

/-- After any run, no two open connections have the same ports and remote address, so the
connection found for a segment is the only open one that it matches. -/
theorem connections_distinct (sh : Shell σ) (null : Nat) (app : Firmware K σ) (es : List NetEvent) :
    let w := run (netStep sh) (init null app) es
    (∀ c d, ¬w.Closed c → ¬w.Closed d → (w.conns c).ends = (w.conns d).ends → c = d) ∧
      ∀ e, ∀ w₁ ∈ w.eventSegment e, ∀ c, w₁.findConn = some c ↔ w₁.MatchesConn c := by
  intro w
  have hdistinct : w.Distinct := run_distinct sh null app es
  refine ⟨hdistinct, fun e w₁ hw₁ c => ?_⟩
  have hdistinct₁ : w₁.Distinct := by
    unfold Distinct Closed
    rw [eventSegment_conns hw₁]
    exact hdistinct
  exact hdistinct₁.findConn_iff

end Stack

end OpenPLC
