import OpenPLC.Apps.Overlong
import OpenPLC.Apps.Sessions

/-! The replies to telnet options.  `sendopt` stores a reply as a string, among the lines of the
responses, and `senddata` copies a line up to its NUL.  While a connection is open there is a slot
for every line that finds a block; once the peer has closed it all blocks are free, but the slots
stay as they were. -/

namespace OpenPLC

open Lib

/-- The reply to an option byte in a state: IAC DONT for WILL and WONT, IAC WONT for DO and DONT. -/
def TelnetState.reply? : TelnetState → UInt8 → Option (List UInt8)
  | .will, x | .wont, x => some [255, 254, x]
  | .do, x | .dont, x => some [255, 252, x]
  | _, _ => none

namespace Scan

/-- The option bytes of the requests in a stream. -/
def options (x : Scan) : List UInt8 → List UInt8
  | [] => []
  | c :: cs => (if (x.state.reply? c).isSome then [c] else []) ++ (x.step c).1.options cs

end Scan

namespace Server

variable {K : Conf} {σ : Type*} {Q : Prop} {s t u : Server K σ} {x : Scan}

/-- The lines of the responses to the commands that the shell is called with from `s` to `t`. -/
def responses (sh : Shell σ) (s t : Server K σ) : List (List UInt8) :=
  (t.inputs.drop s.inputs.length).flatMap fun buf =>
    (sh.input (cstr buf) s.shell).1.filterMap (ShellCall.text K)

/-- The lines for a segment, in order: a reply for each option request, changed by `f`, and the
lines of the responses. -/
def answers (f : List UInt8 → List UInt8) (sh : Shell σ) :
    Scan → Server K σ → List UInt8 → List (List UInt8)
  | _, _, [] => []
  | x, s, c :: cs =>
    ((x.state.reply? c).map f).toList ++ responses sh s (s.newChar sh c) ++
      answers f sh (x.step c).1 (s.newChar sh c) cs

/-- From `s` to `t` exactly these lines are queued, if no line was lost for want of a free block. -/
def Queues (s t : Server K σ) (ls : List (List UInt8)) : Prop :=
  ∃ es, t.trace = s.trace ++ es ∧ (Obs.dropped ∉ es → es.filterMap Obs.queued? = ls)

theorem Emits.queues {qs : List (List UInt8)} {as : List (List (List UInt8))}
    (h : Emits s t qs as) :
    Queues s t qs := by
  obtain ⟨es, ht, hq, -, -⟩ := h
  exact ⟨es, ht, fun _ => hq⟩

/-- With a slot for every line, a line is only lost for want of a block. -/
theorem Enqueues.queues {ls qs : List (List UInt8)} {as : List (List (List UInt8))}
    (h : Enqueues s t ls) (he : Emits s t qs as) : Queues s t ls := by
  obtain ⟨es, ht, hq, hlost⟩ := h.events
  obtain ⟨es', ht', -, -, hover⟩ := he
  obtain rfl : es = es' := List.append_cancel_left (ht.symm.trans ht')
  refine ⟨es, ht, fun hdropped => ?_⟩
  have hfits : ls.length ≤ s.numEmpty := by
    by_contra hlt
    exact (hlost (by omega)).elim hdropped hover
  rw [hq, List.take_of_length_le hfits]

theorem queues_of_trace_eq (h : t.trace = s.trace) : Queues s t [] :=
  ⟨[], by simpa using h, by simp⟩

theorem Queues.trans {ls ls' : List (List UInt8)} (h : Queues s t ls) (h' : Queues t u ls') :
    Queues s u (ls ++ ls') := by
  obtain ⟨es, ht, hq⟩ := h
  obtain ⟨es', ht', hq'⟩ := h'
  refine ⟨es ++ es', by rw [ht', ht, List.append_assoc], fun hnot => ?_⟩
  rw [List.mem_append, not_or] at hnot
  rw [List.filterMap_append, hq hnot.1, hq' hnot.2]

/-- Where the shell is not called, there are no responses. -/
theorem Enqueues.quiet {ls : List (List UInt8)} (h : Enqueues s t ls) (sh : Shell σ)
    (hi : t.inputs = s.inputs) : Enqueues s t (ls ++ responses sh s t) := by
  simpa [responses, hi] using h

theorem Vacant.enqueues_parser (h : Vacant s) (hm : t.linemem = s.linemem) (hl : t.lines = s.lines)
    (ht : t.trace = s.trace) : Enqueues s t [] :=
  h.enqueues_of_eq hm hl ⟨[], by simpa using ht, rfl, rfl, by simp⟩

/-- A byte of text queues the responses to the command that it ends. -/
theorem Vacant.getChar (sh : Shell σ) (h : Vacant s) (c : UInt8) :
    Enqueues s (s.getChar sh c) (responses sh s (s.getChar sh c)) := by
  rw [getChar_eq]
  split
  · exact (h.enqueues_parser rfl rfl rfl).quiet sh rfl
  split
  · generalize hbuf : endLine K (s.buf.write s.bufptr [c]) s.bufptr = buf
    have hresponses :
        responses sh s ({ ({ s with buf } : Server K σ).shellInput sh with bufptr := 0 }) =
        ({ s with buf } : Server K σ).replies sh := by
      have hinputs : ({ ({ s with buf } : Server K σ).shellInput sh with bufptr := 0 }).inputs =
          s.inputs ++ [buf.read 0 K.linelen] := shellInput_inputs sh { s with buf }
      simp [responses, hinputs, replies]
    have hqueues := Vacant.shellInput (s := { s with buf }) sh ⟨h.slots, h.free⟩
    rw [hresponses]
    exact ⟨⟨hqueues.vacant.slots, hqueues.vacant.free⟩, hqueues.numEmpty, hqueues.events⟩
  · set t : Server K σ := { s with buf := s.buf.write s.bufptr [c], bufptr := s.bufptr + 1 }
    have hqueues : Enqueues s t [] := h.enqueues_parser rfl rfl rfl
    exact hqueues.quiet sh rfl

theorem Vacant.newChar (sh : Shell σ) (h : Vacant s) (hx : s.state = x.state) (c : UInt8) :
    Enqueues s (s.newChar sh c)
      (((x.state.reply? c).map cstr).toList ++ responses sh s (s.newChar sh c)) := by
  have keep (state : TelnetState) :
      Enqueues s { s with state } (responses sh s { s with state }) := by
    have hqueues : Enqueues s { s with state } [] := h.enqueues_parser rfl rfl rfl
    exact hqueues.quiet sh rfl
  have option (o : UInt8) : Enqueues s { s.sendopt o c with state := .normal }
      (cstr [255, o, c] :: responses sh s { s.sendopt o c with state := .normal }) := by
    have hstep := sendopt_step (Q := False) o c s
    have hqueues := h.lineStep hstep
    have hnormal : Enqueues s { s.sendopt o c with state := .normal } [cstr [255, o, c]] :=
      ⟨⟨hqueues.vacant.slots, hqueues.vacant.free⟩, hqueues.numEmpty, hqueues.events⟩
    exact hnormal.quiet sh hstep.sameParser.inputs
  have hchar := h.getChar sh c
  simp only [Server.newChar, ← hx]
  cases s.state with
  | close => exact keep s.state
  | will => exact option 254
  | wont => exact option 254
  | «do» => exact option 252
  | dont => exact option 252
  | normal =>
    simp only [TelnetState.reply?, Option.map_none, Option.toList_none, List.nil_append]
    split_ifs
    · exact keep .iac
    · exact hchar
  | iac =>
    simp only [TelnetState.reply?, Option.map_none, Option.toList_none, List.nil_append]
    split_ifs
    · exact ⟨⟨hchar.vacant.slots, hchar.vacant.free⟩, hchar.numEmpty, hchar.events⟩
    all_goals exact keep _

theorem Vacant.newdata (sh : QuietShell σ) (h : Vacant s) (hx : Wraps s x) (cs : List UInt8) :
    Enqueues s (s.newdata sh.toShell cs).1 (answers cstr sh.toShell x s cs) := by
  induction cs generalizing s x with
  | nil => exact h.enqueues_parser rfl rfl rfl
  | cons c cs ih =>
    have hlt : s.bufptr < K.linelen := by
      rw [hx.bufptr]
      exact Nat.mod_lt _ K.linelen_pos
    have hqueues := h.newChar sh.toShell hx.state c
    simp only [Server.newdata, hlt, ↓reduceIte]
    exact hqueues.trans (ih hqueues.vacant (hx.newChar sh c).1)

/-- A call that neither ends the connection nor finds a close pending queues the answers to its
data. -/
theorem Queues.appcall {sh : QuietShell σ} {call : Call} {start : List (List UInt8)}
    (hq : Queues s (s.beforeData sh.toShell call) start) (hv : Valid (s.beforeData sh.toShell call))
    (hx : Wraps (s.beforeData sh.toShell call) x) (hdata : call.newdata = false → call.data = []) :
    Queues s (s.appcall sh.toShell call).1
        (start ++ answers cstr sh.toShell x (s.beforeData sh.toShell call) call.data) ∧
      Wraps (s.appcall sh.toShell call).1 (x.run call.data).1 := by
  have hs : (s.beforeData sh.toShell call).state ≠ .close := hx.state ▸ hx.not_close
  have hnew : Queues s (if call.newdata then
          ((s.beforeData sh.toShell call).newdata sh.toShell call.data).1
        else s.beforeData sh.toShell call)
        (start ++ answers cstr sh.toShell x (s.beforeData sh.toShell call) call.data) ∧
      Wraps (if call.newdata then
          ((s.beforeData sh.toShell call).newdata sh.toShell call.data).1
        else s.beforeData sh.toShell call) (x.run call.data).1 := by
    cases hc : call.newdata
    · rw [hdata hc]
      exact ⟨by simpa [answers] using hq, hx⟩
    · obtain ⟨q, hq'⟩ := hv
      obtain ⟨-, new, -, hemits⟩ := Valid.steps ⟨q, hq'⟩
        (newdata_steps sh.toShell (fun _ _ _ => trivial) call.data (s.beforeData sh.toShell call))
      exact ⟨hq.trans ((hq'.vacant.newdata sh hx call.data).queues hemits),
        (hx.newdata sh call.data).1⟩
  rw [appcall_eq hs]
  generalize (if call.newdata then ((s.beforeData sh.toShell call).newdata sh.toShell call.data).1
    else s.beforeData sh.toShell call) = s2 at hnew ⊢
  obtain ⟨hq2, hx2⟩ := hnew
  split
  · exact ⟨hq2, hx2.state, hx2.bufptr, hx2.not_close⟩
  · exact ⟨hq2, hx2⟩

end Server

namespace Jsoncmd

variable {σ : Type*} {sh : QuietShell σ} {s t : Server conf σ} {x : Scan}

open Server

theorem wraps_beforeData (hx : Wraps t x) {call : Call} (hconn : call.connected = false) :
    Wraps (t.beforeData sh.toShell call) x := by
  have hsame := beforeData_sameParser sh.toShell call t
  simp only [hconn, Bool.false_eq_true, ↓reduceIte] at hsame
  exact ⟨(hsame.state.resolve_right (·.1)).trans hx.state, hsame.bufptr.trans hx.bufptr,
    hx.not_close⟩

theorem Open.queues (sh : QuietShell σ) (h : Open s t) (hx : Wraps t x) (e : OpenEvent) :
    Queues t (jsoncmdAppcall sh.toShell e.call t).1
        (answers cstr sh.toShell x (t.beforeData sh.toShell e.call) e.call.data) ∧
      Wraps (jsoncmdAppcall sh.toShell e.call t).1 (x.run e.call.data).1 := by
  have hbefore : t.beforeData sh.toShell e.call = if e.call.acked then t.acked else t := by
    have hconn : e.call.connected = false := rfl
    have hopen : ¬e.call.Closing := by simp [OpenEvent.call]
    simp only [beforeData, hconn, hopen, Bool.false_eq_true, ↓reduceIte]
  have hack : Valid (t.beforeData sh.toShell e.call) ∧
      Queues t (t.beforeData sh.toShell e.call) [] := by
    rw [hbefore]
    split
    · obtain ⟨hv, -, he⟩ := h.sound.acked
      exact ⟨hv, he.queues⟩
    · exact ⟨h.sound.valid, queues_of_trace_eq rfl⟩
  obtain ⟨hv, hq⟩ := hack
  exact hq.appcall hv (wraps_beforeData hx rfl) fun hn => by simp_all [OpenEvent.call]

theorem Idle.queues (sh : QuietShell σ) (h : Idle s) (data : Option (List UInt8)) (mss : Nat) :
    let call := connectCall data mss
    Queues s (jsoncmdAppcall sh.toShell call s).1
        (sh.start.filterMap (ShellCall.text conf) ++
          answers cstr sh.toShell ⟨.normal, []⟩ (s.beforeData sh.toShell call) call.data) ∧
      Wraps (jsoncmdAppcall sh.toShell call s).1 ((⟨.normal, []⟩ : Scan).run call.data).1 := by
  intro call
  have hbefore : s.beforeData sh.toShell call = s.connected sh.toShell := by
    simp [beforeData, call, connectCall]
  have hsteps := s.connected_steps (Q := False) sh.start_quiet
  have hsame := hsteps.sameParser
  obtain ⟨q, hq0⟩ := valid_of_allFree h.free
  obtain ⟨hv, new, -, hemits⟩ := Valid.steps ⟨q, hq0⟩ hsteps.steps
  have hq := (hq0.vacant.shellCalls sh.start).queues hemits
  refine Queues.appcall (hbefore ▸ hq) (hbefore ▸ hv) ?_ fun hn => by simp_all [call, connectCall]
  rw [hbefore]
  exact ⟨hsame.state.resolve_right (·.1), hsame.bufptr, (by simp)⟩

/-- Of the lines for the data of a call, those that find no empty slot are empty themselves. -/
def Fits (sh : Shell σ) (x : Scan) (s : Server conf σ) (call : Call) : Prop :=
  ∀ line ∈ (answers id sh x (s.beforeData sh call) call.data).drop (s.beforeData sh call).numEmpty,
    line = []

instance (sh : Shell σ) (x : Scan) (s : Server conf σ) (call : Call) :
    Decidable (Fits sh x s call) :=
  inferInstanceAs (Decidable (∀ line ∈ _, _))

end Jsoncmd

end OpenPLC
