/-
Running a program: what it is given, and what comes of it.

A program has words as arguments, variables, a disk to read from and bytes on its standard input.
It leaves bytes on two outputs and a status. Which programs there are, and what they do, is up to
the machine: it is a parameter of all that runs one. What a program does is a function of what it is
given, and is seen by others through what it leaves alone.
-/
import TransformCache.Environment
import TransformCache.FileSystem

namespace TransformCache.Program

-- ====================================================== runs

/-- How a program ended. A signal can leave an image of the program's memory behind. -/
inductive Status where
  | exited (code : Nat)
  | killed (signal : Nat) (dumped : Bool)
  deriving DecidableEq, Repr

/-- True for a program that did what it was asked. -/
def Status.isSuccess : Status → Bool
  | .exited 0 => true
  | _ => false

/-- The signals that a program can be ended by, with their names. -/
def signals : List (Nat × String) :=
  [(1, "HUP"), (2, "INT"), (3, "QUIT"), (4, "ILL"), (5, "TRAP"), (6, "ABRT"), (7, "BUS"),
    (8, "FPE"), (9, "KILL"), (10, "USR1"), (11, "SEGV"), (12, "USR2"), (13, "PIPE"), (14, "ALRM"),
    (15, "TERM"), (16, "STKFLT"), (17, "CHLD"), (18, "CONT"), (19, "STOP"), (20, "TSTP"),
    (21, "TTIN"), (22, "TTOU"), (23, "URG"), (24, "XCPU"), (25, "XFSZ"), (26, "VTALRM"),
    (27, "PROF"), (28, "WINCH"), (29, "IO"), (30, "PWR"), (31, "SYS")]

def Status.text : Status → String
  | .exited code => "exit status: " ++ toString code
  | .killed signal dumped =>
    let name := match signals.find? (·.1 = signal) with
      | some (_, name) => " (SIG" ++ name ++ ")"
      | none => ""
    "signal: " ++ toString signal ++ name ++ if dumped then " (core dumped)" else ""

/-- What a program is given. -/
structure Given where
  disk : FileSystem
  args : List String := []
  vars : Variables := fun _ => none
  input : Bytes := []

/-- What a program leaves. -/
structure Left where
  output : Bytes := []
  errors : Bytes := []
  status : Status := .exited 0
  /-- The input that it did not read. -/
  input : Bytes := []
  deriving DecidableEq, Repr

/-- What comes of starting a program. -/
inductive Attempt where
  /-- It could not be started, for the reason given. -/
  | refused (reason : String)
  /-- It was started, but what it left could not be taken. -/
  | lost (reason : FileError)
  | ended (left : Left)
  deriving DecidableEq, Repr

/-- A machine, as far as programs are started on it: what comes of each, by the name it is called
by and what it is given. -/
abbrev Machine := String → Given → Attempt

/-- What a program leaves that fails with a message. -/
def complain (text : String) (code : Nat) (input : Bytes) : Left :=
  { errors := Utf8.encode text, status := .exited code, input }

end TransformCache.Program
