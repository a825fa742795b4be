import OpenPLC.Apps.Steps
import OpenPLC.Apps.Telnetd
import OpenPLC.Lib.Run

/-! The command `exit`.  `shell_quit` keeps the close in the variable of the telnet escapes, which
`newdata` assigns again after `get_char` when the byte of text is the second one of IAC IAC. -/

namespace OpenPLC

open Lib

namespace Server

variable {K : Conf} {σ : Type*} {sh : Shell σ} {s : Server K σ} {call next : Call}

theorem shellCalls_state (s : Server K σ) (cs : List ShellCall) :
    (s.shellCalls cs).state = if .quit ∈ cs then .close else s.state := by
  induction cs generalizing s with
  | nil => rfl
  | cons c cs ih =>
    have hrest : (s.shellCalls (c :: cs)).state =
        if .quit ∈ cs then .close else (s.shellCall c).state := ih (s.shellCall c)
    rw [hrest]
    by_cases hc : c = .quit
    · simp [hc, shellCall, shellQuit]
    · have hstate := (shellCall_step (Q := False) s fun h => hc h).sameParser.state
      simp [hstate.resolve_right (·.1), Ne.symm hc]

/-- A byte of text either only goes to the buffer, or the shell is called. -/
theorem getChar_cases (sh : Shell σ) (c : UInt8) (s : Server K σ) :
    (s.getChar sh c).inputs = s.inputs ∧ (s.getChar sh c).state = s.state ∨
      ∃ buf, (s.getChar sh c).inputs = s.inputs ++ [buf] ∧
        (s.getChar sh c).state =
          if .quit ∈ (sh.input (cstr buf) s.shell).1 then .close else s.state := by
  rw [getChar_eq]
  split
  · exact .inl ⟨rfl, rfl⟩
  split
  · exact .inr ⟨_,
      shellInput_inputs sh { s with buf := endLine K (s.buf.write s.bufptr [c]) s.bufptr },
      shellCalls_state ..⟩
  · exact .inl ⟨rfl, rfl⟩

/-- Where `newdata` calls the shell, it is after IAC IAC or outside all escapes. -/
theorem newChar_input {buf : List UInt8} {c : UInt8}
    (h : (s.newChar sh c).inputs = s.inputs ++ [buf]) :
    s.state = .iac ∧ (s.newChar sh c).state = .normal ∨
      s.state = .normal ∧ (s.newChar sh c).state =
        if .quit ∈ (sh.input (cstr buf) s.shell).1 then .close else .normal := by
  have keep (h : s.inputs = s.inputs ++ [buf]) : False := by simp at h
  rcases s.newChar_cases sh c with ⟨state, -, hs⟩ | ⟨option, hs⟩ | ⟨hiac, hs⟩ | ⟨hnormal, hs⟩
  · rw [hs] at h
    exact (keep h).elim
  · rw [hs] at h
    have hinputs := (sendopt_step (Q := False) option c s).sameParser.inputs
    exact (keep (hinputs.symm.trans h)).elim
  · exact .inl ⟨hiac, by rw [hs]⟩
  · rw [hs] at h ⊢
    rcases getChar_cases sh c s with ⟨hi, -⟩ | ⟨b, hi, hstate⟩
    · exact (keep (hi.symm.trans h)).elim
    · obtain rfl : b = buf := by simpa [hi] using h
      exact .inr ⟨hnormal, by rw [hstate, hnormal]⟩

theorem newdata_of_close (h : s.state = .close) (cs : List UInt8) : (s.newdata sh cs).1 = s := by
  induction cs with
  | nil => rfl
  | cons c cs ih =>
    simp only [newdata, newChar, h]
    split
    · exact ih
    · rfl

theorem newdata_append (cs ds : List UInt8) (s : Server K σ) :
    (s.newdata sh (cs ++ ds)).1 = ((s.newdata sh cs).1.newdata sh ds).1 := by
  induction cs generalizing s with
  | nil => rfl
  | cons c cs ih =>
    simp only [List.cons_append, newdata]
    split
    · exact ih _
    · next h => cases ds <;> simp [newdata, h]

theorem getChar_bufptr (h : s.bufptr < K.linelen) (c : UInt8) :
    (s.getChar sh c).bufptr < K.linelen := by
  rw [getChar_eq]
  split_ifs with h13 hend
  · exact h
  · exact K.linelen_pos
  · simp only [not_or] at hend
    simp only
    omega

theorem newChar_bufptr (h : s.bufptr < K.linelen) (c : UInt8) :
    (s.newChar sh c).bufptr < K.linelen := by
  rcases s.newChar_cases sh c with ⟨state, -, hs⟩ | ⟨option, hs⟩ | ⟨-, hs⟩ | ⟨-, hs⟩
  · rwa [hs]
  · rw [hs]
    exact (sendopt_step (Q := False) option c s).sameParser.bufptr.trans_lt h
  · rw [hs]
    exact getChar_bufptr h c
  · rw [hs]
    exact getChar_bufptr h c

theorem newdata_bufptr (h : s.bufptr < K.linelen) (cs : List UInt8) :
    (s.newdata sh cs).1.bufptr < K.linelen := by
  induction cs generalizing s with
  | nil => exact h
  | cons c cs ih =>
    simp only [newdata, h, ↓reduceIte]
    exact ih (newChar_bufptr h c)

theorem beforeData_bufptr (sh : Shell σ) (call : Call) (h : s.bufptr < K.linelen) :
    (s.beforeData sh call).bufptr < K.linelen := by
  rw [(beforeData_sameParser sh call s).bufptr]
  split
  · rw [(s.connected_steps (Q := True) fun _ => trivial).sameParser.bufptr]
    exact K.linelen_pos
  · exact h

theorem appcall_bufptr (h : s.bufptr < K.linelen) (call : Call) :
    (s.appcall sh call).1.bufptr < K.linelen := by
  have hbefore := beforeData_bufptr sh call h
  by_cases hs : (s.beforeData sh call).state = .close
  · have hsame := beforeData_sameParser sh call s
    rw [hsame.state.resolve_right (·.1)] at hs
    rw [hsame.bufptr] at hbefore
    simpa only [appcall, hs, ↓reduceIte] using hbefore
  · have hdata : (if call.newdata then ((s.beforeData sh call).newdata sh call.data).1
        else s.beforeData sh call).bufptr < K.linelen := by
      split
      · exact newdata_bufptr hbefore call.data
      · exact hbefore
    rw [appcall_eq hs]
    dsimp only
    split
    · exact hdata
    · exact hdata

end Server

namespace Telnetd

/-- The state of the server after the calls. -/
def runCalls : Server conf Unit → List Call → Server conf Unit :=
  run fun s call => (telnetdAppcall shell call s).1

/-- Byte `c` of the data of a call, between `pre` and `post`, makes `get_char` call `shell_input`
with a buffer that `parse` dispatches to `shell_quit`. -/
structure Quits (s : Server conf Unit) (call : Call) (pre : List UInt8) (c : UInt8)
    (post : List UInt8) : Prop where
  newdata : call.newdata = true
  data : call.data = pre ++ c :: post
  started : (s.beforeData shell call).state ≠ .close
  input : ∃ buf, ShellCall.quit ∈ parse (cstr buf) ∧
    (((s.beforeData shell call).newdata shell (pre ++ [c])).1.inputs =
      ((s.beforeData shell call).newdata shell pre).1.inputs ++ [buf])

/-- The close stays pending in the rest of the call, no later byte of its data reaches the shell,
and the next call asks for the close. -/
structure Closes (s : Server conf Unit) (call next : Call) (pre : List UInt8) (c : UInt8)
    (post : List UInt8) : Prop where
  state : ∀ p, p <+: post →
    ((s.beforeData shell call).newdata shell (pre ++ [c] ++ p)).1.state = .close
  inputs : ∀ p, p <+: post →
    ((s.beforeData shell call).newdata shell (pre ++ [c] ++ p)).1.inputs =
      ((s.beforeData shell call).newdata shell (pre ++ [c])).1.inputs
  pending : (telnetdAppcall shell call s).1.state = .close
  next : (telnetdAppcall shell next (telnetdAppcall shell call s).1).2.close = true

theorem quit_mem_input {cmd : List UInt8} :
    ShellCall.quit ∈ (shell.input cmd ()).1 ↔ .quit ∈ parse cmd := by
  simp [shell]

/-- A call for a new connection asks for no close. -/
theorem connected_close (s : Server conf Unit) {next : Call} (h : next.connected = true) :
    (telnetdAppcall shell next s).2.close = false := by
  have hstate : (s.connected shell).state = .normal :=
    (Server.shellCalls_state ..).trans (if_neg (by decide))
  simp [telnetdAppcall, Server.appcall, h, hstate, Server.handle_close]

/-- In every run of calls, `exit` closes the session if and only if the byte that completes its line
is not the second one of IAC IAC, and the next call is not for a new connection. -/
theorem exit_closes_iff (calls : List Call) (call next : Call) (pre : List UInt8) (c : UInt8)
    (post : List UInt8) (h : Quits (runCalls (.init ()) calls) call pre c post) :
    let s := runCalls (.init ()) calls
    Closes s call next pre c post ↔
      ((s.beforeData shell call).newdata shell pre).1.state ≠ .iac ∧ next.connected = false := by
  intro s
  have hbufptr : s.bufptr < conf.linelen :=
    run_invariant (P := fun t : Server conf Unit => t.bufptr < conf.linelen)
      (fun _ call ht => Server.appcall_bufptr ht call) (by decide) calls
  obtain ⟨buf, hquit, hinput⟩ := h.input
  set s1 := ((s.beforeData shell call).newdata shell pre).1 with hs1
  have hbufptr1 : s1.bufptr < conf.linelen :=
    Server.newdata_bufptr (Server.beforeData_bufptr shell call hbufptr) pre
  have hs2 : ((s.beforeData shell call).newdata shell (pre ++ [c])).1 = s1.newChar shell c := by
    simp [Server.newdata_append, Server.newdata, ← hs1, hbufptr1]
  have hs3 (p : List UInt8) : ((s.beforeData shell call).newdata shell (pre ++ [c] ++ p)).1 =
      ((s1.newChar shell c).newdata shell p).1 := by
    rw [Server.newdata_append, hs2]
  have hpending : (telnetdAppcall shell call s).1.state =
      ((s1.newChar shell c).newdata shell post).1.state := by
    rw [telnetdAppcall, Server.appcall_eq h.started, if_pos h.newdata, h.data, List.append_cons,
      hs3, if_pos (.inr (.inl h.newdata))]
    rfl
  rw [hs2] at hinput
  have hcases := Server.newChar_input hinput
  rw [if_pos (quit_mem_input.mpr hquit)] at hcases
  constructor
  · intro hclose
    have hstate := hclose.state [] List.nil_prefix
    rw [hs3] at hstate
    refine ⟨fun hiac => ?_, ?_⟩
    · rcases hcases with ⟨-, hnormal⟩ | ⟨hnormal, -⟩
      · exact absurd (hnormal.symm.trans hstate) (by simp)
      · exact absurd (hiac.symm.trans hnormal) (by simp)
    · by_contra hnext
      have hnone := connected_close (telnetdAppcall shell call s).1
        (Bool.eq_true_of_not_eq_false hnext)
      rw [hclose.next] at hnone
      cases hnone
  · rintro ⟨hiac, hnext⟩
    have hstate : (s1.newChar shell c).state = .close :=
      (hcases.resolve_left fun h => hiac h.1).2
    have hrest (p : List UInt8) : ((s1.newChar shell c).newdata shell p).1 = s1.newChar shell c :=
      Server.newdata_of_close hstate p
    have hlast : (telnetdAppcall shell call s).1.state = .close := by rw [hpending, hrest, hstate]
    refine ⟨fun p _ => by rw [hs3, hrest, hstate], fun p _ => by rw [hs3, hrest, hs2], hlast, ?_⟩
    rw [telnetdAppcall, Server.appcall_of_close hnext hlast]

/-- The line `exit` in two segments, with an option request in it and a CR before its LF. -/
theorem exit_closes_iff_segments :
    Closes
      (runCalls (.init ()) [{ connected := true, newdata := true, data := [101, 120], mss := 536 }])
      { newdata := true, data := [105, 255, 253, 1, 116, 13, 10, 63, 10], mss := 536 }
      { poll := true, mss := 536 } [105, 255, 253, 1, 116, 13] 10 [63, 10] :=
  (exit_closes_iff _ _ { poll := true, mss := 536 } _ _ _
    ⟨rfl, rfl, by decide +kernel, ascii "exit" ++ List.replicate 36 0, by decide,
      by decide +kernel⟩).mpr
    ⟨by decide +kernel, rfl⟩

/-- When IAC IAC fills the buffer after `exit`, the close is forgotten, and the command after it
runs. -/
theorem not_exit_closes :
    let s := runCalls (.init ()) [{ connected := true, mss := 536 }]
    let pre := ascii "exit" ++ List.replicate 35 32 ++ [255]
    let post := ascii "help" ++ [10]
    let call : Call := { newdata := true, data := pre ++ 255 :: post, mss := 536 }
    let next : Call := { poll := true, mss := 536 }
    let t := (telnetdAppcall shell call s).1
    Quits s call pre 255 post ∧ ¬Closes s call next pre 255 post ∧ t.inputs.length = 2 ∧
      t.state = .normal ∧ (telnetdAppcall shell next t).2.close = false := by
  intro s pre post call next t
  have hstate : t.state = .normal := by decide +kernel
  refine ⟨⟨rfl, rfl, by decide +kernel, ascii "exit" ++ List.replicate 35 32 ++ [0], by decide,
    by decide +kernel⟩, fun h => ?_, by decide +kernel, hstate, by decide +kernel⟩
  exact absurd (hstate.symm.trans h.pending) nofun

end Telnetd

end OpenPLC
