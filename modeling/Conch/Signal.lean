/-!
# Signals

## Main definitions

* `Conch.Signal` — the signals that a process can get, with their numbers and names.
* `Signal.effect` — what a signal does to a process that takes no measures.
* `Conch.Ending` — how a process has ended.
-/

set_option autoImplicit false

namespace Conch

/-- The signals that a process can get. -/
inductive Signal where
  | hangup
  | interrupt
  | quit
  | illegal
  | trap
  | abort
  | bus
  | arithmetic
  | kill
  | user1
  | segmentation
  | user2
  | pipe
  | alarm
  | terminate
  | stackFault
  | child
  | resume
  | stop
  | terminalStop
  | terminalInput
  | terminalOutput
  | urgent
  | timeLimit
  | sizeLimit
  | virtualAlarm
  | profile
  | window
  | ready
  | power
  | badCall
  /-- A signal without a name of its own.  The one with number zero does nothing: it only asks
  whether the process is there. -/
  | unnamed (number : Nat)
  deriving DecidableEq, Repr, Inhabited

namespace Signal

/-- The system's number. -/
def number : Signal → Nat
  | hangup => 1
  | interrupt => 2
  | quit => 3
  | illegal => 4
  | trap => 5
  | abort => 6
  | bus => 7
  | arithmetic => 8
  | kill => 9
  | user1 => 10
  | segmentation => 11
  | user2 => 12
  | pipe => 13
  | alarm => 14
  | terminate => 15
  | stackFault => 16
  | child => 17
  | resume => 18
  | stop => 19
  | terminalStop => 20
  | terminalInput => 21
  | terminalOutput => 22
  | urgent => 23
  | timeLimit => 24
  | sizeLimit => 25
  | virtualAlarm => 26
  | profile => 27
  | window => 28
  | ready => 29
  | power => 30
  | badCall => 31
  | unnamed n => n

/-- The name without its leading `SIG`. -/
def name : Signal → String
  | hangup => "HUP"
  | interrupt => "INT"
  | quit => "QUIT"
  | illegal => "ILL"
  | trap => "TRAP"
  | abort => "ABRT"
  | bus => "BUS"
  | arithmetic => "FPE"
  | kill => "KILL"
  | user1 => "USR1"
  | segmentation => "SEGV"
  | user2 => "USR2"
  | pipe => "PIPE"
  | alarm => "ALRM"
  | terminate => "TERM"
  | stackFault => "STKFLT"
  | child => "CHLD"
  | resume => "CONT"
  | stop => "STOP"
  | terminalStop => "TSTP"
  | terminalInput => "TTIN"
  | terminalOutput => "TTOU"
  | urgent => "URG"
  | timeLimit => "XCPU"
  | sizeLimit => "XFSZ"
  | virtualAlarm => "VTALRM"
  | profile => "PROF"
  | window => "WINCH"
  | ready => "IO"
  | power => "PWR"
  | badCall => "SYS"
  | unnamed n => toString n

/-- The first of the signals that programs may use as they like. -/
def firstRealTime : Nat := 34

/-- The system's wording for what has ended a process. -/
def describe : Signal → String
  | hangup => "Hangup"
  | interrupt => "Interrupt"
  | quit => "Quit"
  | illegal => "Illegal instruction"
  | trap => "Trace/breakpoint trap"
  | abort => "Aborted"
  | bus => "Bus error"
  | arithmetic => "Floating point exception"
  | kill => "Killed"
  | user1 => "User defined signal 1"
  | segmentation => "Segmentation fault"
  | user2 => "User defined signal 2"
  | pipe => "Broken pipe"
  | alarm => "Alarm clock"
  | terminate => "Terminated"
  | stackFault => "Stack fault"
  | child => "Child exited"
  | resume => "Continued"
  | stop => "Stopped (signal)"
  | terminalStop => "Stopped"
  | terminalInput => "Stopped (tty input)"
  | terminalOutput => "Stopped (tty output)"
  | urgent => "Urgent I/O condition"
  | timeLimit => "CPU time limit exceeded"
  | sizeLimit => "File size limit exceeded"
  | virtualAlarm => "Virtual timer expired"
  | profile => "Profiling timer expired"
  | window => "Window changed"
  | ready => "I/O possible"
  | power => "Power failure"
  | badCall => "Bad system call"
  | unnamed n =>
    if n < firstRealTime then "Unknown signal " ++ toString n
    else "Real-time signal " ++ toString (n - firstRealTime)

/-- The signals with a name, by number. -/
def named : List Signal :=
  [hangup, interrupt, quit, illegal, trap, abort, bus, arithmetic, kill, user1, segmentation,
    user2, pipe, alarm, terminate, stackFault, child, resume, stop, terminalStop, terminalInput,
    terminalOutput, urgent, timeLimit, sizeLimit, virtualAlarm, profile, window, ready, power,
    badCall]

/-- The signal with a name, with or without `SIG`. -/
def ofName? (text : String) : Option Signal :=
  named.find? fun s => s.name = text || "SIG" ++ s.name = text

/-- The largest number of a signal. -/
def maxNumber : Nat := 64

/-- The signal with a number. -/
def ofNumber? (n : Nat) : Option Signal :=
  match named.find? (·.number = n) with
  | some s => some s
  | none => if 0 < n ∧ n ≤ maxNumber then some (unnamed n) else none

/-- What a signal does to a process. -/
inductive Effect where
  | terminate
  | stop
  | resume
  | ignore
  deriving DecidableEq, Repr

/-- What a signal does to a process that takes no measures. -/
def effect : Signal → Effect
  | child | urgent | window | unnamed 0 => .ignore
  | resume => .resume
  | stop | terminalStop | terminalInput | terminalOutput => .stop
  | _ => .terminate

/-- What a process does about a signal. -/
inductive Disposition where
  /-- Nothing: the signal has its effect. -/
  | default
  | ignored
  /-- It notes that the signal has arrived. -/
  | caught
  deriving DecidableEq, Repr, Inhabited

/-- The status of a process that a signal has ended. -/
def status (s : Signal) : Int := 128 + s.number

end Signal

/-- How a process has ended. -/
inductive Ending where
  | exited (code : Int)
  | killed (s : Signal)
  deriving DecidableEq, Repr, Inhabited

namespace Ending

/-- The status of a process that has ended. -/
def status : Ending → Int
  | exited code => code
  | killed s => s.status

/-- The status, unless a signal without a name has ended the process. -/
def named? : Ending → Option Int
  | exited code => some code
  | killed (.unnamed _) => none
  | killed s => some s.status

end Ending

end Conch
