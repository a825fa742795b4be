import OpenPLC.Apps.Server

/-! The shell of `telnetd` (`shell.c`), and the server with it. -/

namespace OpenPLC

open Lib

namespace Telnetd

/-- `TELNETD_CONF_LINELEN` and `TELNETD_CONF_NUMLINES` -/
def conf : Conf := ⟨40, 16, by decide, by decide, by decide, by decide⟩

/-- `SHELL_PROMPT` -/
def shellPrompt : List UInt8 := ascii "HILSim> "

/-- `help` -/
def help : List ShellCall :=
  [.output (ascii "Available commands:") [],
    .output (ascii "stats   - show network statistics") [],
    .output (ascii "conn    - show TCP connections") [],
    .output (ascii "help, ? - show help") [],
    .output (ascii "exit    - exit shell") []]

/-- `unknown` -/
def unknown (str : List UInt8) : List ShellCall :=
  if 0 < (cstr str).length then [.output (ascii "Unknown command: ") str] else []

/-- `parsetab` without its default entry. -/
def parsetab : List (List UInt8 × List ShellCall) :=
  [(ascii "stats", help), (ascii "conn", help), (ascii "help", help), (ascii "exit", [.quit]),
    (ascii "?", help)]

/-- `parse` -/
def parse (str : List UInt8) : List ShellCall :=
  match parsetab.find? fun p => strncmpEq p.1 str p.1.length with
  | some p => p.2
  | none => unknown str

/-- `shell_start` and `shell_input` -/
def shell : Shell Unit where
  start :=
    [.output (ascii "HILSim command shell") [],
      .output (ascii "Type '?' and return for help") [], .prompt shellPrompt]
  input cmd s := (parse cmd ++ [.prompt shellPrompt], s)

end Telnetd

/-- `telnetd_appcall` -/
def telnetdAppcall {σ : Type*} (sh : Shell σ) (call : Call) (s : Server Telnetd.conf σ) :
    Server Telnetd.conf σ × Reply := s.appcall sh call

end OpenPLC
