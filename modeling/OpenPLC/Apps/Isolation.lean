import OpenPLC.Apps.Agreement
import OpenPLC.Apps.Jsoncmd
import OpenPLC.Lib.Run

/-! Several connections at one server.  `jsoncmd` has one state for all of them, so the calls of a
connection act as they would alone only if the state is handed over clean. -/

namespace OpenPLC

open Lib

/-- Where a connection is: without a call yet or after its last one, open, or closed by the peer
with one call to come. -/
inductive Phase
  | idle | opened | closing
deriving DecidableEq

/-- The phase after a call. -/
def Phase.next (p : Phase) (call : Call) : Phase :=
  if call.connected then .opened
  else if call.aborted ∨ call.timedout then .idle
  else if call.closed then if p = .opened then .closing else .idle
  else p

/-- The calls that `uip_process` makes in a phase.  A connection without a call yet may be aborted
or time out before its start. -/
def Phase.Legal : Phase → Call → Prop
  | .idle, call => call.connected ∧ ¬call.Closing ∧ ¬call.acked ∨
      (call.aborted ∨ call.timedout) ∧ ¬call.Sends
  | .opened, call => ¬call.connected
  | .closing, call => call.Closing ∧ ¬call.Sends

instance : ∀ (p : Phase) (call : Call), Decidable (p.Legal call)
  | .idle, _ => inferInstanceAs (Decidable (_ ∧ _ ∨ _))
  | .opened, _ => inferInstanceAs (Decidable (¬_))
  | .closing, _ => inferInstanceAs (Decidable (_ ∧ _))

namespace Jsoncmd

variable {ι : Type*} [DecidableEq ι]

/-- The server and its connections.  `caller` had the last call, and `writer` the last one that
starts a connection or has data. -/
structure Shared (ι : Type*) where
  server : Server conf Unit
  phase : ι → Phase
  caller : Option ι
  writer : Option ι

/-- What a connection sees of a call: the strings passed to `shell_input`, the reply, and the blocks
freed. -/
structure Seen where
  commands : List (List UInt8)
  reply : Reply
  freed : List (Fin conf.numlines)
deriving DecidableEq

namespace Shared

/-- No connection yet. -/
def init : Shared ι := ⟨.init (), fun _ => .idle, none, none⟩

/-- The call of an event, without the trace of the calls before it. -/
def appcall (sh : Shell Unit) (x : Shared ι) (e : ι × Call) : Server conf Unit × Reply :=
  jsoncmdAppcall sh e.2 x.server.clearTrace

def step (sh : Shell Unit) (x : Shared ι) (e : ι × Call) : Shared ι where
  server := (x.appcall sh e).1
  phase := Function.update x.phase e.1 ((x.phase e.1).next e.2)
  caller := some e.1
  writer := if e.2.connected ∨ e.2.newdata then some e.1 else x.writer

def seen (sh : Shell Unit) (x : Shared ι) (e : ι × Call) : Seen :=
  let (s, reply) := x.appcall sh e
  ⟨s.commands, reply, s.freedLines⟩

/-- `uip_process` makes the call. -/
def Legal (x : Shared ι) (e : ι × Call) : Prop := (x.phase e.1).Legal e.2

/-- The lines are handed over clean: when a call is not of the connection of the call before it,
every block is free, and no slot holds a line, unless the call resets the slots of a connection that
is no longer open. -/
def HandsOverLines (x : Shared ι) (e : ι × Call) : Prop :=
  x.caller ≠ some e.1 →
    x.server.linemem.AllFree ∧
      (x.server.NoLines ∨ e.2.connected ∧ ∀ a ∈ x.caller, x.phase a ≠ .opened)

/-- The parser is handed over clean: when a call has data, and the last data was that of another
connection, the parser is at the start of a line, and a new connection resets no line of one that is
open. -/
def HandsOverInput (x : Shared ι) (e : ι × Call) : Prop :=
  x.writer ≠ some e.1 →
    (e.2.connected → ∀ a ∈ x.writer, x.phase a = .opened → x.server.AtStart) ∧
      (e.2.newdata → e.2.connected ∨ x.server.AtStart)

instance (x : Shared ι) (e : ι × Call) : Decidable (x.Legal e) :=
  inferInstanceAs (Decidable ((x.phase e.1).Legal e.2))

instance (x : Shared ι) (e : ι × Call) : Decidable (x.HandsOverLines e) :=
  inferInstanceAs (Decidable (_ → _))

instance (x : Shared ι) (e : ι × Call) : Decidable (x.HandsOverInput e) :=
  inferInstanceAs (Decidable (_ → _))

/-- The server as `a` finds it in all calls, `x`, and in its own calls alone, `y`.  Either `a` had
the last call, and the servers agree; or nothing of `a` is in the lines. -/
structure Follows (a : ι) (x y : Shared ι) : Prop where
  phase : x.phase a = y.phase a
  state : x.server.state ≠ .close ∧ y.server.state ≠ .close
  lines : x.caller = some a ∧
      Server.SameSent x.server.clearTrace y.server.clearTrace ∨
    y.server.linemem.AllFree ∧ (x.caller = some a → x.server.linemem.AllFree ∧ x.phase a = .idle) ∧
      (x.phase a = .opened → y.server.NoLines)
  parser : x.phase a = .opened →
    x.writer = some a ∧ Server.SamePending x.server y.server ∨
      x.writer ≠ some a ∧ y.server.AtStart

omit [DecidableEq ι] in
theorem follows_init (a : ι) : Follows a (init : Shared ι) init where
  phase := rfl
  state := ⟨nofun, nofun⟩
  lines := .inr ⟨fun _ => rfl, nofun, nofun⟩
  parser := nofun

variable {a : ι} {x y : Shared ι} {sh : QuietShell Unit} {e : ι × Call}

theorem Follows.other (h : Follows a x y) (hne : e.1 ≠ a) (hlines : x.HandsOverLines e)
    (hinput : x.HandsOverInput e) : Follows a (x.step sh.toShell e) y where
  phase := (Function.update_of_ne hne.symm ..).trans h.phase
  state := ⟨Server.appcall_state_ne_close h.state.1, h.state.2⟩
  lines := by
    have hphase : (x.step sh.toShell e).phase a = x.phase a := Function.update_of_ne hne.symm ..
    right
    rw [hphase]
    rcases h.lines with ⟨hcaller, hsame⟩ | ⟨hfree, -, hno⟩
    · obtain ⟨hfree, hno⟩ := hlines (by simpa [hcaller] using hne.symm)
      refine ⟨hsame.lines.allFree hfree, fun hc => absurd (Option.some.inj hc) hne, fun hopen => ?_⟩
      rcases hno with hno | ⟨-, hno⟩
      · exact hsame.lines.noLines hno
      · exact absurd hopen (hno a hcaller)
    · exact ⟨hfree, fun hc => absurd (Option.some.inj hc) hne, hno⟩
  parser := by
    have hphase : (x.step sh.toShell e).phase a = x.phase a := Function.update_of_ne hne.symm ..
    rw [hphase]
    intro hopen
    by_cases hw : e.2.connected ∨ e.2.newdata
    · have hwriter : (x.step sh.toShell e).writer = some e.1 := if_pos hw
      rw [hwriter]
      refine .inr ⟨by simpa using hne, ?_⟩
      rcases h.parser hopen with ⟨hwr, hp⟩ | ⟨-, hp⟩
      · obtain ⟨hconn, hnew⟩ := hinput (by simpa [hwr] using hne.symm)
        refine hp.atStart ?_
        by_cases hc : e.2.connected
        · exact hconn hc a hwr hopen
        · exact (hnew (hw.resolve_left hc)).resolve_left hc
      · exact hp
    · have hwriter : (x.step sh.toShell e).writer = x.writer := if_neg hw
      rw [hwriter]
      obtain ⟨hconn, hnew⟩ : e.2.connected = false ∧ e.2.newdata = false := by simpa using hw
      refine (h.parser hopen).imp (.imp_right fun hp => ?_) id
      have hstep : (x.step sh.toShell e).server =
          (x.server.clearTrace.handle sh.toShell e.2).1 :=
        congrArg (·.1) (Server.appcall_of_state (s := x.server.clearTrace) hconn h.state.1)
      rw [hstep]
      exact Server.SamePending.of_sameParser (s := x.server.clearTrace)
        ⟨hp.bufptr, hp.state, hp.buf⟩ (Server.handle_sameParser _ hnew _) (.refl ..)

theorem Follows.of_sameSent (hphase : x.phase e.1 = y.phase e.1)
    (hstate : x.server.state ≠ .close ∧ y.server.state ≠ .close)
    (h : Server.SameSent (x.appcall sh.toShell e).1 (y.appcall sh.toShell e).1)
    (hreply : (x.appcall sh.toShell e).2 = (y.appcall sh.toShell e).2)
    (hparser : (x.step sh.toShell e).phase e.1 = .opened →
      (x.step sh.toShell e).writer = some e.1 ∧
          Server.SamePending (x.appcall sh.toShell e).1 (y.appcall sh.toShell e).1 ∨
        (x.step sh.toShell e).writer ≠ some e.1 ∧ (y.appcall sh.toShell e).1.AtStart) :
    Follows e.1 (x.step sh.toShell e) (y.step sh.toShell e) ∧
      x.seen sh.toShell e = y.seen sh.toShell e := by
  refine ⟨⟨?_, ?_, .inl ⟨rfl, h.clearTrace⟩, hparser⟩, ?_⟩
  · simp only [step, Function.update_self, hphase]
  · exact ⟨Server.appcall_state_ne_close hstate.1, Server.appcall_state_ne_close hstate.2⟩
  · simp only [seen, h.lines.commands, h.lines.freed, hreply]

/-- The call for a new connection, which resets the slots and the parser. -/
theorem Follows.connect (h : Follows e.1 x y)
    (hcall : e.2.connected ∧ ¬e.2.Closing ∧ ¬e.2.acked) (hlines : x.HandsOverLines e) :
    Follows e.1 (x.step sh.toShell e) (y.step sh.toShell e) ∧
      x.seen sh.toShell e = y.seen sh.toShell e := by
  obtain ⟨hconn, hopen, hacked⟩ := hcall
  have hcount : x.server.linemem.count = y.server.linemem.count := by
    rcases h.lines with ⟨-, hsame⟩ | ⟨hfree, hown, -⟩
    · exact hsame.lines.count
    · have hx : x.server.linemem.AllFree := by
        by_cases hc : x.caller = some e.1
        · exact (hown hc).1
        · exact (hlines hc).1
      exact funext fun b => (hx b).trans (hfree b).symm
  have hagree := Server.connected_agree (s := x.server.clearTrace)
    (t := y.server.clearTrace) sh hcount rfl
  have happ (z : Shared ι) : z.appcall sh.toShell e =
      (z.server.clearTrace.connected sh.toShell).handle sh.toShell e.2 := by
    have hstate : (z.server.clearTrace.connected sh.toShell).state ≠ .close :=
      (Server.connected_steps (Q := False) _ sh.start_quiet).steps.state_ne_close nofun
    simp [appcall, jsoncmdAppcall, Server.appcall, hconn, hstate]
  have hsends : e.2.Sends := .inr (.inr (.inr (.inl hconn)))
  obtain ⟨hsame, hreply, hpending⟩ := hagree.toSameLines.handle sh e.2
    (fun _ => hagree.toSamePending) (fun hn => absurd hsends (hn.resolve_left hacked))
  refine of_sameSent h.phase h.state (by rwa [happ x, happ y]) (by rwa [happ x, happ y])
    fun _ => .inl ⟨if_pos (.inl hconn), ?_⟩
  rw [happ x, happ y]
  exact hpending hagree.toSamePending

theorem Follows.event (h : Follows e.1 x y) (hopened : x.phase e.1 = .opened)
    (hlegal : x.Legal e) (hlines : x.HandsOverLines e) (hinput : x.HandsOverInput e) :
    Follows e.1 (x.step sh.toShell e) (y.step sh.toShell e) ∧
      x.seen sh.toShell e = y.seen sh.toShell e := by
  have hconn : e.2.connected = false := by simpa [Legal, Phase.Legal, hopened] using hlegal
  have hsame : Server.SameSent x.server.clearTrace y.server.clearTrace := by
    rcases h.lines with ⟨-, hsame⟩ | ⟨hfree, hown, hno⟩
    · exact hsame
    · have hc : x.caller ≠ some e.1 := fun hc => by simp [(hown hc).2] at hopened
      obtain ⟨hxfree, hxno⟩ := hlines hc
      have hxno : x.server.NoLines := hxno.resolve_right (by simp [hconn])
      exact ⟨hxno.sameLines (s := x.server.clearTrace) (t := y.server.clearTrace) (hno hopened)
        hxfree hfree rfl, .inr hxno⟩
  have happ (z : Shared ι) (hz : z.server.state ≠ .close) : z.appcall sh.toShell e =
      z.server.clearTrace.handle sh.toShell e.2 := Server.appcall_of_state hconn hz
  have hpending : x.writer = some e.1 ∨ e.2.newdata →
      Server.SamePending x.server.clearTrace y.server.clearTrace := by
    intro hw
    rcases h.parser hopened with ⟨-, hp⟩ | ⟨hne, hp⟩
    · exact ⟨hp.bufptr, hp.state, hp.buf⟩
    · have hstart := ((hinput hne).2 (hw.resolve_left hne)).resolve_left (by simp [hconn])
      exact Server.AtStart.samePending (s := x.server.clearTrace) (t := y.server.clearTrace)
        hstart hp
  obtain ⟨hsame', hreply, hpending'⟩ := hsame.lines.handle sh e.2
    (fun hnew => hpending (.inr hnew)) (fun _ => hsame.numsent)
  refine of_sameSent h.phase h.state ?_ ?_ fun _ => ?_
  · rwa [happ x h.state.1, happ y h.state.2]
  · rwa [happ x h.state.1, happ y h.state.2]
  · rw [happ x h.state.1, happ y h.state.2]
    by_cases hnew : e.2.newdata
    · exact .inl ⟨if_pos (.inr hnew), hpending' (hpending (.inr hnew))⟩
    · have hwriter : (x.step sh.toShell e).writer = x.writer := if_neg (by simp [hconn, hnew])
      rw [hwriter]
      refine (h.parser hopened).imp (fun hp => ⟨hp.1, hpending' (hpending (.inl hp.1))⟩)
        fun hp => ⟨hp.1, ?_⟩
      have hparser := Server.handle_sameParser sh.toShell (by simpa using hnew) y.server.clearTrace
      exact ⟨hparser.bufptr.trans hp.2.1,
        (hparser.state.resolve_right (·.1)).trans hp.2.2⟩

/-- The call for the end of a connection that is not open. -/
theorem Follows.close (h : Follows e.1 x y) (hnot : x.phase e.1 ≠ .opened)
    (hcall : e.2.Closing ∧ ¬e.2.Sends) (hlines : x.HandsOverLines e) :
    Follows e.1 (x.step sh.toShell e) (y.step sh.toShell e) ∧
      x.seen sh.toShell e = y.seen sh.toShell e := by
  obtain ⟨hcl, hsends⟩ := hcall
  obtain ⟨hconn, hacked, hnew⟩ :
      e.2.connected = false ∧ e.2.acked = false ∧ e.2.newdata = false := by
    simp only [Call.Sends, not_or, Bool.not_eq_true] at hsends
    exact ⟨hsends.2.2.2.1, hsends.2.2.1, hsends.2.1⟩
  have happ (z : Shared ι) (hz : z.server.state ≠ .close) : z.appcall sh.toShell e =
      z.server.clearTrace.handle sh.toShell e.2 := Server.appcall_of_state hconn hz
  have hphase : ((x.step sh.toShell e).phase e.1) = .idle := by
    simp only [step, Function.update_self, Phase.next, hconn]
    rcases hcl with hc | hc | hc <;> simp [hc, hnot]
  rcases h.lines with ⟨-, hsame⟩ | ⟨hfree, hown, -⟩
  · obtain ⟨hsame', hreply, -⟩ := hsame.lines.handle sh e.2
      (fun hn => absurd hn (by simp [hnew])) (fun _ => hsame.numsent)
    refine of_sameSent h.phase h.state ?_ ?_ fun hop => by simp [hphase] at hop
    · rwa [happ x h.state.1, happ y h.state.2]
    · rwa [happ x h.state.1, happ y h.state.2]
  · have hxfree : x.server.linemem.AllFree := by
      by_cases hc : x.caller = some e.1
      · exact (hown hc).1
      · exact (hlines hc).1
    have hnone (z : Shared ι) (hz : z.server.state ≠ .close) (hf : z.server.linemem.AllFree) :
        z.appcall sh.toShell e = (z.server.clearTrace, {}) := by
      rw [happ z hz]
      simp [Server.handle, hcl, hacked, hnew, hsends,
        Server.closed_eq_self (s := z.server.clearTrace) fun b _ => hf b]
    refine ⟨⟨?_, ?_, .inr ⟨?_, fun _ => ⟨?_, hphase⟩, ?_⟩, ?_⟩, ?_⟩
    · simp only [step, Function.update_self, h.phase]
    · exact ⟨Server.appcall_state_ne_close h.state.1, Server.appcall_state_ne_close h.state.2⟩
    · simp only [step, hnone y h.state.2 hfree]
      exact hfree
    · simp only [step, hnone x h.state.1 hxfree]
      exact hxfree
    · simp [hphase]
    · simp [hphase]
    · simp only [seen, hnone x h.state.1 hxfree, hnone y h.state.2 hfree]
      rfl

theorem Follows.own (h : Follows e.1 x y) (hlegal : x.Legal e) (hlines : x.HandsOverLines e)
    (hinput : x.HandsOverInput e) :
    Follows e.1 (x.step sh.toShell e) (y.step sh.toShell e) ∧
      x.seen sh.toShell e = y.seen sh.toShell e := by
  cases hp : x.phase e.1 with
  | idle =>
    simp only [Legal, hp, Phase.Legal] at hlegal
    rcases hlegal with hcall | ⟨hcl, hsends⟩
    · exact h.connect hcall hlines
    · exact h.close (by simp [hp]) ⟨.inr hcl, hsends⟩ hlines
  | opened => exact h.event hp hlegal hlines hinput
  | closing =>
    simp only [Legal, hp, Phase.Legal] at hlegal
    exact h.close (by simp [hp]) hlegal hlines

end Shared

/-- In every interleaving of the calls of connections in which the lines and the parser are handed
over clean, each connection sees what it sees in its own calls alone. -/
theorem isolated (sh : QuietShell Unit) (es : List (ι × Call))
    (h : Along (Shared.step sh.toShell)
      (fun x e => x.Legal e ∧ x.HandsOverLines e ∧ x.HandsOverInput e) Shared.init es) (a : ι) :
    ownOutputs (Shared.step sh.toShell) (Shared.seen sh.toShell) (·.1 == a) Shared.init es =
      outputs (Shared.step sh.toShell) (Shared.seen sh.toShell) Shared.init
        (es.filter (·.1 == a)) := by
  refine h.ownOutputs_eq (R := Shared.Follows a) (fun x y e he hg hf => ?_)
    (fun x y e he hg hf => ?_) (Shared.follows_init a)
  · obtain rfl : e.1 = a := by simpa using he
    exact hf.own hg.1 hg.2.1 hg.2.2
  · exact hf.other (by simpa using he) hg.2.1 hg.2.2

/-- The shell, while the values that it reads stay the same: its replies go by the command alone. -/
def fixedShell (cb : Callbacks) (st : ShellState) : QuietShell Unit where
  start := []
  input cmd _ := ((shellInput cb cmd st).1, ())
  start_quiet := List.not_mem_nil
  input_quiet cmd _ := (shell cb).input_quiet cmd st

/-- Two connections take turns. -/
def turns : List (Fin 2 × Call) :=
  [(0, { connected := true, mss := 500 }), (1, { connected := true, mss := 500 }),
    (0, { newdata := true, data := ascii "\"\"\n", mss := 500 }),
    (0, { acked := true, mss := 500 }),
    (1, { newdata := true, data := ascii "\"\"\n", mss := 500 }),
    (1, { acked := true, mss := 500 })]

theorem isolated_turns :
    let sh := (fixedShell physCallbacks shellState).toShell
    ownOutputs (Shared.step sh) (Shared.seen sh) (·.1 == 0) Shared.init turns =
      outputs (Shared.step sh) (Shared.seen sh) Shared.init (turns.filter (·.1 == 0)) :=
  isolated (fixedShell physCallbacks shellState) turns (by decide +kernel) 0

/-- A second connection starts before the reply to the first one is acknowledged. -/
def clash : List (Fin 2 × Call) :=
  [(0, { connected := true, mss := 500 }),
    (0, { newdata := true, data := ascii "\"\"\n", mss := 500 }),
    (1, { connected := true, mss := 500 }), (0, { acked := true, mss := 500 })]

/-- The line of the reply is lost from the slots, and its block is never freed. -/
theorem not_isolated :
    let sh := (fixedShell physCallbacks shellState).toShell
    Along (Shared.step sh) Shared.Legal Shared.init clash ∧
      ownOutputs (Shared.step sh) (Shared.seen sh) (·.1 == 0) Shared.init clash ≠
        outputs (Shared.step sh) (Shared.seen sh) Shared.init (clash.filter (·.1 == 0)) := by
  decide +kernel

end Jsoncmd

end OpenPLC
