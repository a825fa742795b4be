import OpenPLC.Apps.Events
import OpenPLC.Apps.Ownership
import OpenPLC.Apps.Telnetd
import OpenPLC.Lib.Run

/-! The port mapper (`port_app_mapper.c`), which stands between the stack and several applications.
It tells every application of the timeout of any connection, and `telnetd` takes the call for the
end of its own session. -/

namespace OpenPLC

open Lib

variable {α β : Type*}

namespace Stack

/-- The stack around another program. -/
def withApp (w : Stack α) (app : β) : Stack β := { w with app }

/-- A call of the first of two programs. -/
def onFst (f : Stack α → Stack α) (w : Stack (α × β)) : Stack (α × β) :=
  let w' := f (w.withApp w.app.1)
  w'.withApp (w'.app, w.app.2)

/-- A call of the second of two programs. -/
def onSnd (f : Stack β → Stack β) (w : Stack (α × β)) : Stack (α × β) :=
  let w' := f (w.withApp w.app.2)
  w'.withApp (w.app.1, w'.app)

end Stack

/-- `struct port_appcall_map` -/
structure PortAppcallMap (α : Type*) where
  anAppcall : Stack α → Stack α
  lport : UInt16
  rport : UInt16

namespace PortAppcallMap

/-- The entry of an application beside another program. -/
def beside (m : PortAppcallMap β) : PortAppcallMap (α × β) :=
  ⟨Stack.onSnd m.anAppcall, m.lport, m.rport⟩

/-- The remote port of the entry is that of the connection, and its local port is that of the
connection or zero, or the other way round. -/
def Matches (m : PortAppcallMap α) (k : Conn) : Prop :=
  k.rport = htons m.rport ∧ (m.lport = 0 ∨ k.lport = htons m.lport) ∨
    k.lport = htons m.lport ∧ (m.rport = 0 ∨ k.rport = htons m.rport)

instance (m : PortAppcallMap α) (k : Conn) : Decidable (m.Matches k) :=
  inferInstanceAs (Decidable (_ ∨ _))

end PortAppcallMap

/-- The calls of all applications for a timeout, each with the flags as they were before the
first. -/
def callAll (myflags : Flags) (curMap : List (PortAppcallMap α)) (w : Stack α) : Stack α :=
  curMap.foldl (fun w m => m.anAppcall { w with flags := myflags }) w

/-- `uip_appcall_port_app_mapper`: every application is told of a timeout, and any other call is for
the first entry that the connection matches. -/
def uipAppcallPortAppMapper (curMap : List (PortAppcallMap α)) (w : Stack α) : Stack α :=
  let myflags := w.flags
  if myflags.timedout then callAll myflags curMap w
  else
    match w.conn with
    | some c =>
      match curMap.find? fun m => m.Matches (w.conns c) with
      | some m => m.anAppcall w
      | none => w
    | none => w

/-- `uip_udp_appcall_port_app_mapper`, which calls the first entry alone. -/
def uipUdpAppcallPortAppMapper (curMap : List (PortAppcallMap α)) (w : Stack α) : Stack α :=
  match curMap with
  | m :: _ => m.anAppcall w
  | [] => w

/-- `DHCPC_APP_CALL_MAP` -/
def dhcpcAppCallMap {K : Conf} {σ : Type*} : PortAppcallMap (Firmware K σ × β) :=
  ⟨Stack.onFst Stack.dhcpcAppcall, 0, 67⟩

namespace Server

variable {K : Conf} {σ : Type*} {s : Server K σ}

/-- No slot holds a block in use, and no close is pending. -/
structure Unused (s : Server K σ) : Prop where
  lines : ∀ b, some b ∈ s.lines.val → s.linemem.count b = 0
  state : s.state ≠ .close

instance (s : Server K σ) : Decidable s.Unused :=
  decidable_of_iff ((∀ b, some b ∈ s.lines.val → s.linemem.count b = 0) ∧ s.state ≠ .close)
    ⟨fun h => ⟨h.1, h.2⟩, fun h => ⟨h.lines, h.state⟩⟩

theorem appcall_timedout (sh : Shell σ) (h : s.state ≠ .close) (data : List UInt8) (mss : Nat) :
    s.appcall sh { timedout := true, data, mss } = (s.closed, {}) := by
  simp [appcall, h, handle]

/-- A timeout leaves the server as it was if and only if there is nothing to free and no close
pending. -/
theorem appcall_timedout_eq_iff (sh : Shell σ) (data : List UInt8) (mss : Nat) :
    (s.appcall sh { timedout := true, data, mss }).1 = s ↔ s.Unused := by
  by_cases hstate : s.state = .close
  · refine iff_of_false (fun h => ?_) fun h => h.state hstate
    have hnormal := congrArg state h
    simp [appcall, hstate] at hnormal
  · rw [appcall_timedout sh hstate]
    refine ⟨fun h => ⟨fun b hb => ?_, hstate⟩, fun h => closed_eq_self h.lines⟩
    have hcount := s.closed_count b
    rw [show s.closed = s from h] at hcount
    have hslot := count_slots_pos hb
    omega

end Server

namespace Telnetd

open Stack

/-- `TELNET_APP_CALL_MAP`, with the state of other applications beside that of `telnetd`. -/
def telnetAppCallMap (β : Type*) : PortAppcallMap (Firmware conf Unit × β) :=
  ⟨onFst (serverAppcall shell), 23, 0⟩

/-- The state in which `uip_process` reports the timeout of a connection that is not one of
`telnetd`. -/
def Foreign (w : Stack (Firmware conf Unit × β)) : Prop :=
  w.flags = { timedout := true } ∧ ∃ c ∈ w.conn, ¬(telnetAppCallMap β).Matches (w.conns c)

instance (w : Stack (Firmware conf Unit × β)) : Decidable (Foreign w) :=
  inferInstanceAs (Decidable (_ ∧ _))

section Map

variable (before after : List (PortAppcallMap β))

/-- `tcp_port_app_map` with the entry of `telnetd`: those of the web server come before it, and
those of `simple_httpd` after it. -/
def tcpPortAppMap (telnet : PortAppcallMap (Firmware conf Unit × β)) :
    List (PortAppcallMap (Firmware conf Unit × β)) :=
  before.map .beside ++ telnet :: after.map .beside

/-- The applications behind the port mapper. -/
def mappedApps : Apps (Firmware conf Unit × β) where
  appcall := uipAppcallPortAppMapper (tcpPortAppMap before after (telnetAppCallMap β))
  udpAppcall := uipUdpAppcallPortAppMapper [dhcpcAppCallMap]

/-- The same, but that `telnetd` is not told of the timeouts of other connections. -/
def sparedApps : Apps (Firmware conf Unit × β) where
  appcall w :=
    if Foreign w then
      uipAppcallPortAppMapper
        (tcpPortAppMap before after { telnetAppCallMap β with anAppcall := id }) w
    else (mappedApps before after).appcall w
  udpAppcall := (mappedApps before after).udpAppcall

end Map

/-- The step of an event. -/
def mappedStep (A : Apps (Firmware conf Unit × β)) (w : Stack (Firmware conf Unit × β))
    (e : NetEvent) : Stack (Firmware conf Unit × β) :=
  match w.outcome e with
  | some o => o.run A
  | none => w.onFst dhcpcRenew

/-- When an event reports the timeout of another connection, the session holds no block, and no
close is pending. -/
def Harmless (w : Stack (Firmware conf Unit × β)) (e : NetEvent) : Prop :=
  ∀ w₀ ∈ w.serverCall e, Foreign w₀ → w₀.app.1.server.Unused

instance (w : Stack (Firmware conf Unit × β)) (e : NetEvent) : Decidable (Harmless w e) :=
  inferInstanceAs (Decidable (∀ w₀ ∈ w.serverCall e, _))

/-- The report of the timeout of another connection leaves the session as it was. -/
def Undisturbed (A : Apps (Firmware conf Unit × β)) (w : Stack (Firmware conf Unit × β))
    (e : NetEvent) : Prop :=
  ∀ w₀ ∈ w.serverCall e, Foreign w₀ → (A.appcall w₀).app.1.server = w₀.app.1.server

variable {before after : List (PortAppcallMap β)} {w : Stack (Firmware conf Unit × β)}

/-- The applications beside `telnetd` do not change its state. -/
theorem callAll_beside (flags : Flags) (entries : List (PortAppcallMap β))
    (w : Stack (Firmware conf Unit × β)) :
    (callAll flags (entries.map PortAppcallMap.beside) w).app.1 = w.app.1 := by
  induction entries generalizing w with
  | nil => rfl
  | cons m ms ih => exact ih _

/-- The call of `telnetd` for a timeout finds its state as it was before the calls. -/
theorem appcall_foreign (before after : List (PortAppcallMap β)) (h : Foreign w) :
    ∃ w₁ : Stack (Firmware conf Unit × β), w₁.flags = { timedout := true } ∧ w₁.app.1 = w.app.1 ∧
      ∀ telnet, uipAppcallPortAppMapper (tcpPortAppMap before after telnet) w =
        callAll { timedout := true } (after.map .beside) (telnet.anAppcall w₁) := by
  refine ⟨{ callAll { timedout := true } (before.map .beside) w with
      flags := { timedout := true } }, rfl, callAll_beside _ before w, fun telnet => ?_⟩
  simp [uipAppcallPortAppMapper, tcpPortAppMap, callAll, h.1, List.foldl_append]

theorem telnet_of_unused {w₁ : Stack (Firmware conf Unit × β)}
    (hflags : w₁.flags = { timedout := true }) (h : w₁.app.1.server.Unused) :
    (telnetAppCallMap β).anAppcall w₁ = w₁ := by
  have happ : w₁.app.1.server.appcall shell (w₁.withApp w₁.app.1).call =
      (w₁.app.1.server, {}) := by
    simp only [call, withApp, hflags]
    rw [Server.appcall_timedout shell h.state, Server.closed_eq_self h.lines]
  have hstay : serverAppcall shell (w₁.withApp w₁.app.1) = w₁.withApp w₁.app.1 := by
    have hreads : ¬(w₁.withApp w₁.app.1).ReadsOutside shell := by
      simp [ReadsOutside, Server.Reads, call, withApp, hflags]
    simp only [serverAppcall, loseIf_of_not _ hreads]
    rw [show (w₁.withApp w₁.app.1).app.server = w₁.app.1.server from rfl, happ]
    rfl
  simp only [telnetAppCallMap, onFst, hstay]
  rfl

theorem undisturbed_iff (w : Stack (Firmware conf Unit × β)) (e : NetEvent) :
    Undisturbed (mappedApps before after) w e ↔ Harmless w e := by
  refine forall₃_congr fun w₀ _ hforeign => ?_
  obtain ⟨w₁, hflags, happ, hcalls⟩ := appcall_foreign before after hforeign
  have hserver : ((mappedApps before after).appcall w₀).app.1.server =
      (w₀.app.1.server.appcall shell (w₁.withApp w₁.app.1).call).1 := by
    simp only [mappedApps, hcalls, callAll_beside]
    rw [← happ]
    exact serverAppcall_server ..
  rw [hserver]
  simp only [call, withApp, hflags]
  exact Server.appcall_timedout_eq_iff ..

/-- When `telnetd` is in such a state, it makes no difference to tell it of a timeout. -/
theorem appcall_eq_spared (h : Foreign w → w.app.1.server.Unused) :
    (mappedApps before after).appcall w = (sparedApps before after).appcall w := by
  by_cases hforeign : Foreign w
  · obtain ⟨w₁, hflags, happ, hcalls⟩ := appcall_foreign before after hforeign
    simp only [sparedApps, hforeign, ↓reduceIte, mappedApps, hcalls]
    rw [telnet_of_unused hflags (happ ▸ h hforeign), id]
  · simp [sparedApps, hforeign]

theorem step_eq_spared (w : Stack (Firmware conf Unit × β)) (e : NetEvent) (h : Harmless w e) :
    mappedStep (mappedApps before after) w e = mappedStep (sparedApps before after) w e := by
  simp only [mappedStep]
  simp only [Harmless, serverCall] at h
  cases ho : w.outcome e with
  | none => rfl
  | some o =>
    cases o with
    | done _ | udpCall => rfl
    | call c w₀ after =>
      simp only [ho, Option.mem_def, Option.some.injEq, forall_eq'] at h
      simp only [Outcome.run, appcall_eq_spared h]

/-- In every run of the stack, each timeout of another connection leaves the session of `telnetd` as
it was, and the stack goes on as if `telnetd` had not been told of any, if and only if each finds
the session without a block in a slot and without a pending close. -/
theorem foreign_timeout_iff (before after : List (PortAppcallMap β))
    (w : Stack (Firmware conf Unit × β)) (es : List NetEvent) :
    (Along (mappedStep (mappedApps before after)) (Undisturbed (mappedApps before after)) w es ∧
      ∀ fs, fs <+: es → run (mappedStep (mappedApps before after)) w fs =
        run (mappedStep (sparedApps before after)) w fs) ↔
      Along (mappedStep (mappedApps before after)) Harmless w es := by
  rw [along_congr undisturbed_iff]
  exact ⟨(·.1), fun h => ⟨h, fun fs hfs => (Along.of_prefix h hfs).run_eq step_eq_spared⟩⟩

/-- The stack with ports 23 and 80 in use, and no connection yet. -/
def mappedStart : Stack (Firmware conf Unit × Unit) :=
  let w := Stack.init 0 (.atStart (), ())
  { w with listenports := htons 23 :: htons 80 :: List.replicate 8 0 }

/-- An application for port 80 that ignores its calls. -/
def silentApp : PortAppcallMap Unit := ⟨id, 80, 0⟩

/-- The frame of a SYN for port 80. -/
def httpSynFrame : List UInt8 :=
  [0, 0, 0, 0, 0, 0, 0, 0, 0, 0, 0, 0, 8, 0, 69, 0, 0, 44, 0, 0, 0, 0, 64, 6, 102, 202, 10, 0, 0,
    2, 10, 0, 0, 1, 4, 1, 0, 80, 0, 0, 0, 0, 0, 0, 0, 0, 96, 2, 2, 0, 129, 135, 0, 0, 2, 4, 2, 0]

/-- The ACK of the SYN in answer to `synFrame`, when the stack has counted to 101. -/
def greetedFrame : List UInt8 :=
  [0, 0, 0, 0, 0, 0, 0, 0, 0, 0, 0, 0, 8, 0, 69, 0, 0, 40, 0, 0, 0, 0, 64, 6, 102, 206, 10, 0, 0,
    2, 10, 0, 0, 1, 4, 0, 0, 23, 0, 0, 0, 1, 0, 0, 0, 102, 80, 16, 2, 0, 149, 84, 0, 0]

/-- The line `x`, sent before the greeting is acknowledged. -/
def lineFrame : List UInt8 :=
  [0, 0, 0, 0, 0, 0, 0, 0, 0, 0, 0, 0, 8, 0, 69, 0, 0, 42, 0, 0, 0, 0, 64, 6, 102, 204, 10, 0, 0,
    2, 10, 0, 0, 1, 4, 0, 0, 23, 0, 0, 0, 1, 0, 0, 0, 102, 80, 16, 2, 0, 29, 72, 0, 0, 120, 10]

/-- A connection to port 80 times out between the greeting of a session and its first line. -/
def foreignTimeout : List NetEvent :=
  .frame httpSynFrame :: List.replicate 101 .firstTimer ++
    [.frame synFrame, .frame greetedFrame, .firstTimer, .frame lineFrame]

/-- The blocks of the greeting are freed, and the next lines overwrite them before they are sent
again. -/
theorem not_foreign_timeout :
    let A := mappedApps [] [silentApp]
    ¬Along (mappedStep A) (Undisturbed A) mappedStart foreignTimeout ∧
      (run (mappedStep A) mappedStart foreignTimeout).wire ≠
        (run (mappedStep (sparedApps [] [silentApp])) mappedStart foreignTimeout).wire := by
  refine ⟨fun h => ?_, by decide +kernel⟩
  have hharmless := (along_congr undisturbed_iff).mp h
  revert hharmless
  decide +kernel

end Telnetd

end OpenPLC
