import OpenPLC.Uip.Demux

/-! The states of a connection over a run.  Each event changes at most one connection, and its state
by an edge of the diagram of TCP, with two differences: a connection may be closed at once, by a
reset or when the stack gives up, and one in its last wait may be given to another peer. -/

namespace OpenPLC

open Lib

/-- The states that a connection may be in after an event that changes its state. -/
def TcpState.next : TcpState → List TcpState
  | .closed => [.synRcvd]
  | .synRcvd => [.established, .finWait1, .closed]
  | .synSent => [.established, .closed]
  | .established => [.finWait1, .lastAck, .closed]
  | .finWait1 => [.finWait2, .closing, .timeWait, .closed]
  | .finWait2 => [.timeWait, .closed]
  | .closing => [.timeWait, .closed]
  | .timeWait => [.closed, .synRcvd]
  | .lastAck => [.closed]

/-- A connection stays in its state or goes to one of the next. -/
def TcpState.Follows (ts ts' : TcpState) : Prop := ts' = ts ∨ ts' ∈ ts.next

instance (ts ts' : TcpState) : Decidable (ts.Follows ts') := inferInstanceAs (Decidable (_ ∨ _))

namespace Stack

variable {due : Prop} {ts ts' : TcpState} {n n' : UInt16} {acked : Bool}

theorem follows_closed (ts : TcpState) : ts.Follows .closed := by
  unfold TcpState.Follows
  cases ts <;> decide

theorem Transition.follows {call : Option (Flags × After)}
    (h : Transition due ts n acked call ts' n') : ts.Follows ts' := by
  unfold TcpState.Follows
  cases h with
  | stay => exact .inl rfl
  | ackOnly => exact .inl rfl
  | accept h => rcases h with rfl | rfl <;> exact .inr (by decide)
  | connect => exact .inr (by decide)
  | segment => exact .inl rfl
  | fin => exact .inl rfl
  | rexmit => exact .inl rfl
  | poll => exact .inl rfl
  | lastAck => exact .inr (by decide)
  | finAcked => exact .inr (by decide)
  | closingAcked => exact .inr (by decide)
  | peerFin c h =>
    rcases h with ⟨⟨rfl, -⟩ | rfl, rfl⟩ | ⟨rfl, -, rfl⟩ <;> exact .inr (by decide)
  | reset _ h => exact follows_closed ts
  | timedout h => exact follows_closed ts
  | expire _ h => rcases h with rfl | rfl <;> exact .inr (by decide)

/-- After a call of the application, too. -/
theorem Transition.follows_after {flags flags' : Flags} {after : After}
    (h : Transition due ts n acked (some (flags, after)) ts' n')
    (hflags : flags'.abort = true → flags.abort = true) :
    ts.Follows (after.state flags' ts') := by
  have hsend (hts : ts = .synRcvd ∨ ts = .established) (habort : flags.abort = false) :
      ts.Follows (After.state .appsend flags' .established) := by
    have hnot : flags'.abort = false := by
      cases h' : flags'.abort
      · rfl
      · rw [hflags h'] at habort
        cases habort
    simp only [After.state, hnot]
    rcases hts with rfl | rfl <;> cases flags'.close <;> decide
  cases h with
  | connect => exact hsend (.inl rfl) rfl
  | segment => exact hsend (.inr rfl) rfl
  | poll => exact hsend (.inr rfl) rfl
  | fin n acked newdata => exact (by decide : TcpState.established.Follows .lastAck)
  | rexmit => exact .inl rfl
  | lastAck => exact follows_closed .lastAck
  | peerFin c h =>
    have htrans : Transition due ts n _ _ ts' _ := .peerFin c h
    exact htrans.follows
  | reset _ h => exact follows_closed ts
  | timedout h => exact follows_closed ts

variable {K : Conf} {σ : Type*}

theorem netStep_follows (sh : Shell σ) {w : Stack (Firmware K σ)} (hp : w.Passive) (e : NetEvent) :
    ∃ c, (∀ d ≠ c, (w.netStep sh e).conns d = w.conns d) ∧
      (w.ts c).Follows ((w.netStep sh e).ts c) := by
  rcases netStep_cases sh hp e with ⟨-, c, w₁, hm, hs⟩ | ⟨c, w₀, after, -, hm, -, -, hw⟩
  · obtain ⟨acked, htrans, -⟩ := hm.acked
    refine ⟨c, fun d hd => by rw [hs.conns, hm.others d hd], ?_⟩
    have hts : (w.netStep sh e).ts c = w₁.ts c := by rw [Stack.ts, hs.conns]
    rw [hts]
    exact htrans.follows
  · obtain ⟨acked, htrans, -⟩ := hm.acked
    obtain ⟨-, hothers, hstate⟩ := hm.appcall sh after
    refine ⟨c, fun d hd => by rw [hw, hothers d hd], ?_⟩
    rw [hw, Stack.ts, Stack.ts, hstate]
    refine htrans.follows_after ?_
    split
    · intro h
      cases h
    · exact id

/-- In every run, an event changes at most one connection, and its state follows the diagram. -/
theorem states_follow_diagram (sh : Shell σ) (null : Nat) (app : Firmware K σ) (es : List NetEvent)
    (e : NetEvent) :
    let w := run (netStep sh) (init null app) es
    ∃ c, (∀ d ≠ c, (w.netStep sh e).conns d = w.conns d) ∧
      (w.ts c).Follows ((w.netStep sh e).ts c) :=
  netStep_follows sh (run_passive sh null app es) e

end Stack

end OpenPLC
