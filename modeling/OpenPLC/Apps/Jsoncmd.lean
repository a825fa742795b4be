import OpenPLC.Apps.Server

/-! The shell of `jsoncmd` (`shell.c`), the callbacks of HILSim (`phys.c`), and the server with
them. -/

namespace OpenPLC

open Lib

namespace Jsoncmd

/-- `JSONCMD_CONF_LINELEN` and `JSONCMD_CONF_NUMLINES` -/
def conf : Conf := ⟨80, 20, by decide, by decide, by decide, by decide⟩

/-- What the shell reads and writes: `values`, the ports, and the readings of `PINA` to come.  `low`
is the string at address 1, where `NULL + 1` points, and `strayed` holds once the shell has read
it. -/
structure ShellState where
  values : Fin 8 → UInt16
  pina : Nat → UInt8
  portc : UInt8
  portd : UInt8
  low : List UInt8
  strayed : Bool

/-- The state before the first command, when all inputs stay low. -/
def shellState : ShellState := ⟨fun _ => 0, fun _ => 0, 0, 0, [], false⟩

/-- `JSONCMD_CONF_GETCALLBACK` and `JSONCMD_CONF_SETCALLBACK` -/
structure Callbacks where
  get : ShellState → ShellState
  set : ShellState → ShellState

/-- `phys_in`.  Each bit comes from a reading of `PINA` of its own. -/
def physIn (s : ShellState) : ShellState :=
  { s with
    values := fun i => if s.pina i &&& (1 <<< UInt8.ofNat i) ≠ 0 then 1 else 0
    pina := fun n => s.pina (n + 8) }

/-- `phys_out` -/
def physOut (s : ShellState) : ShellState :=
  let portc := (List.finRange 8).foldl
    (fun p i => p ||| ((if s.values i ≠ 0 then 1 else 0) <<< UInt8.ofNat i)) 0
  { s with portc, portd := portc }

/-- The callbacks of HILSim. -/
def physCallbacks : Callbacks := ⟨physIn, physOut⟩

/-- `default_callback` in both places. -/
def defaultCallbacks : Callbacks := ⟨id, id⟩

/-- `inttostr` -/
def inttostr (i : UInt16) : List UInt8 :=
  let s0 := 48 + (i / 100).toUInt8
  let s0 := if s0 = 48 then 32 else s0
  let s1 := 48 + (i / 10 % 10).toUInt8
  let s1 := if s0 = 32 ∧ s1 = 48 then 32 else s1
  [s0, s1, 48 + (i % 10).toUInt8, 0]

/-- `isspace` -/
def isSpace (c : UInt8) : Bool := c == 32 || (9 ≤ c && c ≤ 13)

/-- `isdigit` -/
def isDigit (c : UInt8) : Bool := 48 ≤ c && c ≤ 57

/-- The value of decimal digits in 16 bits. -/
def digitsVal (ds : List UInt8) : UInt16 := ds.foldl (fun v d => v * 10 + (d - 48).toUInt16) 0

/-- `sscanf(s, "%d", &v)`: the value stored, if any. -/
def scanInt (s : List UInt8) : Option UInt16 :=
  let s := (cstr s).dropWhile isSpace
  let (neg, s) := match s with
    | 45 :: s => (true, s)
    | 43 :: s => (false, s)
    | s => (false, s)
  let ds := s.takeWhile isDigit
  if ds = [] then none else some (if neg then 0 - digitsVal ds else digitsVal ds)

/-- Read the string at a pointer that `strchr(..) + 1` gave. -/
def deref (p : Option (List UInt8)) (s : ShellState) : List UInt8 × ShellState :=
  match p with
  | some str => (str, s)
  | none => (s.low, { s with strayed := true })

/-- The loop of `sscanf` and `strchr` over the values from `i` on. -/
def scanValues : List (Fin 8) → Option (List UInt8) → ShellState → ShellState
  | [], _, s => s
  | i :: is, cmd, s =>
    let (str, s) := deref cmd s
    let s := match scanInt str with
      | some v => { s with values := Function.update s.values i v }
      | none => s
    scanValues is (afterChar str 44) s

/-- The calls for the reply to `getvalues`. -/
def valuesReply (values : Fin 8 → UInt16) : List ShellCall :=
  .prompt (ascii "\x7b\"response\":\"OK\",\"values\":[") ::
    (List.finRange 8).flatMap (fun i =>
      .prompt (inttostr (values i)) :: if i < 7 then [.prompt (ascii ",")] else []) ++
    [.output (ascii "]\x7d") []]

/-- The calls for the reply to `setvalues`. -/
def okReply : List ShellCall := [.output (ascii "\x7b\"response\":\"OK\"\x7d") []]

/-- The calls for the reply to any other command. -/
def errorReply : List ShellCall := [.output (ascii "\x7b\"response\":\"error\"\x7d") []]

/-- `shell_input` -/
def shellInput (cb : Callbacks) (js : List UInt8) (s : ShellState) : List ShellCall × ShellState :=
  let (cmd, s) := deref (afterChar js 34) s
  if strncmpEq cmd (ascii "getvalues") 4 then
    let s := cb.get s
    (valuesReply s.values, s)
  else if strncmpEq cmd (ascii "setvalues") 4 then
    (okReply, cb.set (scanValues (List.finRange 8) (afterChar cmd 91) s))
  else (errorReply, s)

/-- The shell. -/
def shell (cb : Callbacks) : QuietShell ShellState where
  start := []
  input := shellInput cb
  start_quiet := List.not_mem_nil
  input_quiet cmd s := by
    simp only [shellInput]
    split_ifs <;> simp [valuesReply, okReply, errorReply]

end Jsoncmd

/-- `jsoncmd_appcall` -/
def jsoncmdAppcall {σ : Type*} (sh : Shell σ) (call : Call) (s : Server Jsoncmd.conf σ) :
    Server Jsoncmd.conf σ × Reply := s.appcall sh call

end OpenPLC
