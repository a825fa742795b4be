import OpenPLC.Apps.Jsoncmd
import OpenPLC.Apps.Ownership
import OpenPLC.Lib.Run

/-! Runs of `jsoncmd` over one session after another, in the orders of calls that `uip_process`
makes: the pool of lines is owned by the queue while a session is open, and free after it. -/

namespace OpenPLC

open Lib

/-- A call in an open session, with `uip_mss()`. -/
structure OpenEvent where
  acked : Bool
  data : Option (List UInt8)
  rexmit : Bool
  poll : Bool
  mss : Nat
  flags : (acked ∨ data.isSome) ∧ rexmit = false ∧ poll = false ∨
    acked = false ∧ data = none ∧ rexmit ≠ poll

/-- The last call of a session. -/
inductive LastEvent
  | close | abort | timedout
deriving DecidableEq

/-- The end of a session: one call, or, after a close by the peer, another one. -/
inductive Closing
  | abort
  | timedout
  | close (acked : Bool) (data : Option (List UInt8)) (mss : Nat) (last : LastEvent)
deriving DecidableEq

/-- A session: whether the first call has data, the calls while it is open, and its end. -/
structure Session where
  data : Option (List UInt8)
  mss : Nat
  events : List OpenEvent
  closing : Closing

def OpenEvent.call (e : OpenEvent) : Call :=
  { acked := e.acked, newdata := e.data.isSome, data := e.data.getD [], rexmit := e.rexmit,
    poll := e.poll, mss := e.mss }

theorem OpenEvent.sends (e : OpenEvent) : e.call.Sends := by
  obtain ⟨acked, data, rexmit, poll, mss, flags⟩ := e
  simp only [Call.Sends, OpenEvent.call]
  rcases flags with ⟨h, -, -⟩ | ⟨-, -, h⟩
  · tauto
  · cases rexmit <;> cases poll <;> simp_all

def LastEvent.call : LastEvent → Call
  | .close => { closed := true, mss := 0 }
  | .abort => { aborted := true, mss := 0 }
  | .timedout => { timedout := true, mss := 0 }

/-- The call for a close by the peer. -/
def closeCall (acked : Bool) (data : Option (List UInt8)) (mss : Nat) : Call :=
  { closed := true, acked, newdata := data.isSome, data := data.getD [], mss }

/-- The call for a new connection. -/
def connectCall (data : Option (List UInt8)) (mss : Nat) : Call :=
  { connected := true, newdata := data.isSome, data := data.getD [], mss }

def Closing.calls : Closing → List Call
  | .abort => [LastEvent.abort.call]
  | .timedout => [LastEvent.timedout.call]
  | .close acked data mss last => [closeCall acked data mss, last.call]

theorem LastEvent.call_eq (e : LastEvent) :
    e.call.connected = false ∧ e.call.newdata = false ∧ e.call.data = [] := by
  cases e <;> exact ⟨rfl, rfl, rfl⟩

/-- Only the first closing call can have data. -/
theorem Closing.take_calls (c : Closing) (k : Nat) : c.calls.take k = [] ∨
    ∃ call e j, c.calls.take k = call :: [LastEvent.call e].take j ∧ call.connected = false ∧
      (call.newdata = false → call.data = []) := by
  cases k with
  | zero => exact .inl rfl
  | succ k =>
    cases c with
    | abort =>
      exact .inr ⟨LastEvent.abort.call, .abort, 0, by simp [calls], rfl, fun _ => rfl⟩
    | timedout =>
      exact .inr ⟨LastEvent.timedout.call, .timedout, 0, by simp [calls], rfl, fun _ => rfl⟩
    | close acked data mss e =>
      refine .inr ⟨closeCall acked data mss, e, k, rfl, rfl, fun hn => ?_⟩
      cases data with
      | none => rfl
      | some bs => cases hn

namespace Session

/-- The calls before the first closing one. -/
def openCalls (x : Session) : List Call :=
  connectCall x.data x.mss :: x.events.map OpenEvent.call

def calls (x : Session) : List Call := x.openCalls ++ x.closing.calls

/-- The calls up to a point of the session: those while it is open, and the first `k` closing
ones. -/
def callsTo (x : Session) (k : Nat) : List Call := x.openCalls ++ x.closing.calls.take k

end Session

namespace Jsoncmd

variable {σ : Type*}

/-- The state of the server after the calls. -/
def runCalls (sh : Shell σ) : Server conf σ → List Call → Server conf σ :=
  run fun s call => (jsoncmdAppcall sh call s).1

/-- The state of the server after the sessions. -/
def runSessions (sh : Shell σ) : Server conf σ → List Session → Server conf σ :=
  run fun s x => runCalls sh s x.calls

variable {sh : QuietShell σ} {s t : Server conf σ}

/-- The last call of a session queues nothing. -/
theorem last_queuedTexts (sh : Shell σ) (hs : t.state ≠ .close) (e : LastEvent) (k : Nat) :
    (runCalls sh t ([e.call].take k)).queuedTexts = t.queuedTexts ∧
      ([e.call].take k).flatMap Call.data = [] := by
  cases k with
  | zero => exact ⟨rfl, rfl⟩
  | succ k =>
    obtain ⟨hconn, hnew, hdata⟩ := e.call_eq
    rw [List.take_of_length_le (by simp)]
    exact ⟨Server.appcall_queuedTexts sh hconn hnew hs, by simpa using hdata⟩

/-- Between sessions every line is free. -/
structure Idle (s : Server conf σ) : Prop where
  free : s.linemem.AllFree
  state : s.state ≠ .close

/-- In an open session that began in `s`, the lines in use are those in the slots. -/
structure Open (s t : Server conf σ) : Prop where
  sound : t.Sound
  state : t.state ≠ .close
  emits : ∃ qs as, s.Emits t qs as

theorem idle_init (shell : σ) : Idle (Server.init shell : Server conf σ) := ⟨fun _ => rfl, nofun⟩

theorem Idle.connect (h : Idle s) (data : Option (List UInt8)) (mss : Nat) :
    Open s (jsoncmdAppcall sh.toShell (connectCall data mss) s).1 := by
  obtain ⟨new, hsound, -, hemits, -⟩ := Server.appcall_connected sh.toShell
    (connectCall data mss) h.free sh.start_quiet rfl (by simp [connectCall]) rfl
  exact ⟨hsound, Server.appcall_state_ne_close h.state, new, [], hemits⟩

theorem Open.event (h : Open s t) (e : OpenEvent) :
    Open s (jsoncmdAppcall sh.toShell e.call t).1 := by
  obtain ⟨qs, as, hemits⟩ := h.emits
  obtain ⟨new, hh, -, -⟩ :=
    h.sound.handle sh.toShell e.call (by simp [OpenEvent.call]) e.sends
  rw [jsoncmdAppcall, Server.appcall_of_state rfl h.state]
  exact ⟨hh.sound, Server.handle_state_ne_close sh.input_quiet h.state, _, _,
    hemits.trans hh.emits⟩

theorem Idle.openCalls (sh : QuietShell σ) (h : Idle s) (x : Session) (n : Nat) :
    Open s (runCalls sh.toShell s (x.openCalls.take (n + 1))) := by
  rw [Session.openCalls, List.take_succ_cons, runCalls, run_cons, ← List.map_take, run,
    List.foldl_map]
  exact run_invariant (fun _ e ht => ht.event e) (h.connect x.data x.mss) (x.events.take n)

/-- The end of a session frees the pool. -/
theorem Open.closing (h : Open s t) (c : Closing) : Idle (runCalls sh.toShell t c.calls) := by
  have hweak (t : Server conf σ) (ht : t.Sound) : t.Weak := by
    obtain ⟨⟨q, hq⟩, -⟩ := ht
    exact hq.weak
  have last (t : Server conf σ) (ht : t.Weak) (hs : t.state ≠ .close) (e : LastEvent) :
      Idle (jsoncmdAppcall sh.toShell e.call t).1 := by
    rw [jsoncmdAppcall, Server.appcall_of_state (by cases e <;> rfl) hs]
    exact ⟨ht.handle_closing (by cases e <;> simp [LastEvent.call, Call.Closing])
      (by cases e <;> rfl) (by cases e <;> rfl), Server.handle_state_ne_close sh.input_quiet hs⟩
  cases c with
  | abort => exact last t (hweak t h.sound) h.state .abort
  | timedout => exact last t (hweak t h.sound) h.state .timedout
  | close acked data mss e =>
    refine last (jsoncmdAppcall sh.toShell (closeCall acked data mss) t).1 ?_
      (Server.appcall_state_ne_close h.state) e
    rw [jsoncmdAppcall, Server.appcall_of_state rfl h.state]
    exact (hweak t h.sound).handle _

theorem Idle.session (h : Idle s) (x : Session) : Idle (runCalls sh.toShell s x.calls) := by
  have hopen := h.openCalls sh x x.events.length
  rw [List.take_of_length_le (by simp [Session.openCalls])] at hopen
  rw [Session.calls, runCalls, run_append]
  exact hopen.closing x.closing

theorem Idle.sessions (sh : QuietShell σ) (h : Idle s) (xs : List Session) :
    Idle (runSessions sh.toShell s xs) :=
  run_invariant (fun _ x ht => ht.session x) h xs

/-- After any sessions every line is free.  In every state of the next one, until its first closing
call, the lines in use are exactly those in the slots, no slot was missing for a line, and `acked`
finds the lines that it removes. -/
theorem pool_owned (sh : QuietShell σ) (shell : σ) (xs : List Session) :
    let s := runSessions sh.toShell (Server.init shell) xs
    s.linemem.AllFree ∧
      ∀ (x : Session) (n : Nat),
        let t := runCalls sh.toShell s (x.openCalls.take (n + 1))
        (∃ q, t.Owned q ∧ t.numsent ≤ q.length) ∧
          ∃ es, t.trace = s.trace ++ es ∧ Obs.overflow ∉ es := by
  have hidle := (idle_init shell).sessions sh xs
  refine ⟨hidle.free, fun x n => ?_⟩
  obtain ⟨⟨⟨q, hq⟩, hsent⟩, -, qs, as, es, htrace, -, -, hover⟩ :=
    hidle.openCalls sh x n
  rw [hq.outbox_queue, List.length_map] at hsent
  exact ⟨⟨q, hq, hsent⟩, es, htrace, hover⟩

end Jsoncmd

end OpenPLC
