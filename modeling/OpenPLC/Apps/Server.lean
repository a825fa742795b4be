import OpenPLC.Memb

/-! The line server that `jsoncmd.c` and `telnetd.c` share.  The two files differ only in the size
and number of their lines, which are `Conf` here, and in the shell that takes the commands, which is
`Shell` here.  The state of the server is one for all connections, as in both files. -/

namespace OpenPLC

open Lib

/-- `CONF_LINELEN` and `CONF_NUMLINES`.  A line holds the four bytes of a telnet option, and `char`
and `u8_t` fields of the state count up to both numbers. -/
structure Conf where
  linelen : Nat
  numlines : Nat
  four_le_linelen : 4 ≤ linelen
  linelen_le : linelen ≤ 255
  numlines_pos : 0 < numlines
  numlines_le : numlines ≤ 255

/-- A call that a shell makes: `shell_prompt`, `shell_output`, or `shell_quit`. -/
inductive ShellCall
  | prompt (str : List UInt8)
  | output (str1 str2 : List UInt8)
  | quit
deriving DecidableEq

/-- A shell: the calls that `shell_start` makes, and those that `shell_input` makes for a
command. -/
structure Shell (σ : Type*) where
  start : List ShellCall
  input : List UInt8 → σ → List ShellCall × σ

/-- A shell that never calls `shell_quit`. -/
structure QuietShell (σ : Type*) extends Shell σ where
  start_quiet : ShellCall.quit ∉ start
  input_quiet : ∀ cmd s, ShellCall.quit ∉ (input cmd s).1

/-- `s.state` -/
inductive TelnetState
  | normal | iac | will | wont | do | dont | close
deriving DecidableEq

/-- `s.lines` -/
@[ext] structure Slots (n : Nat) where
  val : List (Option (Fin n))
  length_eq : val.length = n

namespace Slots

variable {n : Nat}

/-- Every slot is NULL. -/
def empty : Slots n := ⟨List.replicate n none, List.length_replicate⟩

/-- Put a line in the first slot that is NULL, if there is one. -/
def push (q : Slots n) (line : Fin n) : Option (Slots n) :=
  match q.val.findIdx? Option.isNone with
  | some i => some ⟨q.val.set i (some line), by simp [q.length_eq]⟩
  | none => none

/-- Move every line one slot to the front. -/
def shift (q : Slots n) : Slots n := ⟨(q.val ++ [none]).tail, by simp [q.length_eq]⟩

end Slots

/-- What the server does to its lines, and the commands it reads.  Only statements about runs read
these events. -/
inductive Obs (n : Nat)
  /-- `shell_input` is called with this buffer while so many blocks are free. -/
  | shellInput (buf : List UInt8) (free : Nat)
  /-- A line with this text is put in a slot. -/
  | queued (text : List UInt8)
  /-- No block is free for a line. -/
  | dropped
  /-- No slot is NULL for a line. -/
  | overflow
  /-- The block of a line is freed that was in use. -/
  | freed (line : Fin n)
  /-- The slots that `acked` removes, as the texts of their lines. -/
  | acked (texts : List (List UInt8))
deriving DecidableEq

namespace Obs

variable {n : Nat}

/-- The buffer of a call of `shell_input`. -/
def input? : Obs n → Option (List UInt8)
  | .shellInput buf _ => some buf
  | _ => none

/-- The text of a line that is queued. -/
def queued? : Obs n → Option (List UInt8)
  | .queued text => some text
  | _ => none

/-- The texts of the lines that `acked` removes. -/
def acked? : Obs n → Option (List (List UInt8))
  | .acked texts => some texts
  | _ => none

/-- The block that is freed. -/
def freed? : Obs n → Option (Fin n)
  | .freed line => some line
  | _ => none

end Obs

/-- `linemem` and `s`, with the state of the shell. -/
structure Server (K : Conf) (σ : Type*) where
  linemem : Memb K.linelen K.numlines
  lines : Slots K.numlines
  buf : Mem
  bufptr : Nat
  numsent : Nat
  state : TelnetState
  shell : σ
  trace : List (Obs K.numlines)

/-- What a call of the server reads of the stack: `uip_flags` as tests, the bytes at `uip_appdata`,
and `uip_mss()`. -/
structure Call where
  connected : Bool := false
  closed : Bool := false
  aborted : Bool := false
  timedout : Bool := false
  acked : Bool := false
  newdata : Bool := false
  rexmit : Bool := false
  poll : Bool := false
  data : List UInt8 := []
  mss : Nat
deriving DecidableEq

/-- The call is for the end of a connection. -/
abbrev Call.Closing (c : Call) : Prop := c.closed ∨ c.aborted ∨ c.timedout

/-- The server sends data in the call. -/
abbrev Call.Sends (c : Call) : Prop :=
  c.rexmit ∨ c.newdata ∨ c.acked ∨ c.connected ∨ c.poll

/-- What a call of the server asks of the stack: `uip_close`, and the bytes of `uip_send`. -/
structure Reply where
  close : Bool := false
  send : Option (List UInt8) := none
deriving DecidableEq

namespace Server

variable {K : Conf} {σ : Type*}

/-- Record an event. -/
def log (s : Server K σ) (e : Obs K.numlines) : Server K σ := { s with trace := s.trace ++ [e] }

/-- The buffers of the calls of `shell_input` so far. -/
def inputs (s : Server K σ) : List (List UInt8) := s.trace.filterMap Obs.input?

/-- The texts of all lines queued so far. -/
def queuedTexts (s : Server K σ) : List (List UInt8) := s.trace.filterMap Obs.queued?

/-- `jsoncmd_init`, `telnetd_init` -/
def init (shell : σ) : Server K σ where
  linemem := .init
  lines := .empty
  buf _ := 0
  bufptr := 0
  numsent := 0
  state := .normal
  shell
  trace := []

/-- The text of a line. -/
def text (s : Server K σ) (line : Fin K.numlines) : List UInt8 := (s.linemem.mem line).text

/-- The texts of the lines in some slots. -/
def texts (s : Server K σ) (ls : List (Option (Fin K.numlines))) : List (List UInt8) :=
  ls.filterMap fun l => l.map s.text

/-- `alloc_line` -/
def allocLine (s : Server K σ) : Option (Fin K.numlines × Server K σ) :=
  match s.linemem.alloc with
  | some (line, m) => some (line, { s with linemem := m })
  | none => none

/-- `dealloc_line` -/
def deallocLine (s : Server K σ) (line : Fin K.numlines) : Server K σ :=
  { s with
    linemem := (s.linemem.free line).2
    trace := s.trace ++ if 0 < s.linemem.count line then [.freed line] else [] }

/-- Store bytes in a line. -/
def storeLine (s : Server K σ) (line : Fin K.numlines) (i : Nat) (bs : List UInt8) : Server K σ :=
  { s with linemem := s.linemem.store line i bs }

/-- `sendline` -/
def sendline (s : Server K σ) (line : Fin K.numlines) : Server K σ :=
  match s.lines.push line with
  | some lines => { s with lines }.log (.queued (s.text line))
  | none => (s.log .overflow).deallocLine line

/-- `shell_prompt` -/
def shellPrompt (str : List UInt8) (s : Server K σ) : Server K σ :=
  match s.allocLine with
  | some (line, s) => (s.storeLine line 0 (strncpy str K.linelen)).sendline line
  | none => s.log .dropped

/-- The stores of `shell_output` before it measures the line. -/
def storeOutput (str1 str2 : List UInt8) (line : Fin K.numlines) (s : Server K σ) : Server K σ :=
  let len := (cstr str1).length
  let s := s.storeLine line 0 (strncpy str1 K.linelen)
  if len < K.linelen then s.storeLine line len (strncpy str2 (K.linelen - len)) else s

/-- `shell_output` -/
def shellOutput (str1 str2 : List UInt8) (s : Server K σ) : Server K σ :=
  match s.allocLine with
  | some (line, s) =>
    let s := s.storeOutput str1 str2 line
    let len := s.linemem.strlen line
    let s := if len < K.linelen - 2 then s.storeLine line len [13, 10, 0] else s
    s.sendline line
  | none => s.log .dropped

/-- `shell_quit` -/
def shellQuit (s : Server K σ) : Server K σ := { s with state := .close }

/-- One call of the shell. -/
def shellCall (s : Server K σ) : ShellCall → Server K σ
  | .prompt str => s.shellPrompt str
  | .output str1 str2 => s.shellOutput str1 str2
  | .quit => s.shellQuit

/-- The calls of the shell. -/
def shellCalls (s : Server K σ) (cs : List ShellCall) : Server K σ := cs.foldl shellCall s

/-- One turn of the loop of `acked`. -/
def ackLine (s : Server K σ) : Server K σ :=
  let s := match s.lines.val.head? with
    | some (some line) => s.deallocLine line
    | _ => s
  { s with lines := s.lines.shift, numsent := s.numsent - 1 }

/-- The loop of `acked`. -/
def ackLines : Nat → Server K σ → Server K σ
  | 0, s => s
  | n + 1, s => ackLines n s.ackLine

/-- `acked` -/
def acked (s : Server K σ) : Server K σ :=
  ackLines s.numsent (s.log (.acked (s.texts (s.lines.val.take s.numsent))))

/-- The loop of `senddata` from `buflen` on: how many lines fit, and their bytes. -/
def fill (s : Server K σ) (mss : Nat) : List (Option (Fin K.numlines)) → Nat → Nat × List UInt8
  | some line :: ls, buflen =>
    let linelen := s.linemem.strlen line
    let linelen := if linelen > K.linelen then K.linelen else linelen
    if buflen + linelen < mss then
      let (n, bs) := s.fill mss ls (buflen + linelen)
      (n + 1, (s.linemem.tail line).take linelen ++ bs)
    else (0, [])
  | _, _ => (0, [])

/-- `senddata`, with the bytes that it sends. -/
def senddata (mss : Nat) (s : Server K σ) : Server K σ × List UInt8 :=
  let (numsent, bs) := s.fill mss s.lines.val 0
  ({ s with numsent }, bs)

/-- `closed` -/
def closed (s : Server K σ) : Server K σ :=
  (s.lines.val.filterMap id).foldl deallocLine s

section Shell

variable (sh : Shell σ)

/-- `shell_input` of the buffer. -/
def shellInput (s : Server K σ) : Server K σ :=
  let buf := s.buf.read 0 K.linelen
  let (calls, shell) := sh.input (cstr buf) s.shell
  ({ s with shell }.log (.shellInput buf s.linemem.numFree)).shellCalls calls

/-- `get_char` -/
def getChar (c : UInt8) (s : Server K σ) : Server K σ :=
  if c = 13 then s
  else
    let s := { s with buf := s.buf.write s.bufptr [c] }
    if c = 10 ∨ s.bufptr = K.linelen - 1 then
      let s := if 0 < s.bufptr then { s with buf := s.buf.write s.bufptr [0] } else s
      let s :=
        if s.bufptr + 1 < K.linelen then { s with buf := s.buf.write (s.bufptr + 1) [0] } else s
      { s.shellInput sh with bufptr := 0 }
    else { s with bufptr := s.bufptr + 1 }

/-- `sendopt` -/
def sendopt (option value : UInt8) (s : Server K σ) : Server K σ :=
  match s.allocLine with
  | some (line, s) => (s.storeLine line 0 [255, option, value, 0]).sendline line
  | none => s.log .dropped

/-- The body of the loop of `newdata`. -/
def newChar (c : UInt8) (s : Server K σ) : Server K σ :=
  match s.state with
  | .iac =>
    if c = 255 then { s.getChar sh c with state := .normal }
    else if c = 251 then { s with state := .will }
    else if c = 252 then { s with state := .wont }
    else if c = 253 then { s with state := .do }
    else if c = 254 then { s with state := .dont }
    else { s with state := .normal }
  | .will | .wont => { s.sendopt 254 c with state := .normal }
  | .do | .dont => { s.sendopt 252 c with state := .normal }
  | .normal => if c = 255 then { s with state := .iac } else s.getChar sh c
  | .close => s

/-- `newdata`, with the bytes that it leaves unread. -/
def newdata : List UInt8 → Server K σ → Server K σ × List UInt8
  | [], s => (s, [])
  | c :: cs, s => if s.bufptr < K.linelen then newdata cs (s.newChar sh c) else (s, c :: cs)

/-- The start of a connection. -/
def connected (s : Server K σ) : Server K σ :=
  { s with lines := .empty, bufptr := 0, state := .normal }.shellCalls sh.start

/-- The handling of the flags of a call, in the order of the source, when no close is pending. -/
def handle (call : Call) (s : Server K σ) : Server K σ × Reply :=
  let s := if call.Closing then s.closed else s
  let s := if call.acked then s.acked else s
  let s := if call.newdata then (s.newdata sh call.data).1 else s
  if call.Sends then
    let (s, bs) := s.senddata call.mss
    (s, { send := some bs })
  else (s, {})

/-- `jsoncmd_appcall`, `telnetd_appcall` -/
def appcall (call : Call) (s : Server K σ) : Server K σ × Reply :=
  let s := if call.connected then s.connected sh else s
  if s.state = .close then ({ s with state := .normal }, { close := true })
  else s.handle sh call

/-- The call reads its data. -/
def Reads (call : Call) (s : Server K σ) : Prop :=
  call.newdata ∧ (if call.connected then s.connected sh else s).state ≠ .close

instance (call : Call) (s : Server K σ) : Decidable (s.Reads sh call) :=
  inferInstanceAs (Decidable (_ ∧ _))

end Shell

end Server

end OpenPLC
