import CodeHive.Os.Executions
import Mathlib.Logic.Function.Basic

/-! # Toolchains

What the sources of a language mean, and what the command-line tools are known to do with them. A
tool that only compiles reports nothing of the program. -/

namespace CodeHive.Os.Toolchains

set_option autoImplicit false

open CodeHive.Os.Process CodeHive.Os.Executions

/-- What a program does, if nothing ends it before. -/
structure Behavior where
  stdout : String
  exitCode : UInt8
  deriving DecidableEq

/-- **The meaning of the languages.** -/
structure Toolchain where
  Program : Type
  /-- The program that a source is, if it compiles. -/
  compile : (language source : String) → Option Program
  run : Program → (args : List String) → (stdin : String) → Behavior
  /-- Whether the system accepts a text as an argument; on Linux it is less than 128 KiB long and
  has no NUL. -/
  fits : String → Bool

/-- Whether `node -e` accepts a text, which must not look like an option. -/
def Toolchain.fitsNode (T : Toolchain) (source : String) : Bool :=
  T.fits source && source.toList.head? != some '-'

/-- What is in a file. -/
inductive Content (P : Type) where
  | source (text : String)
  | classes (p : P)

abbrev Files (P : Type) := String → Option (Content P)

/-- What a command writes to its standard output and with which code it exits, if nothing ends it
before, and which program it runs, with which arguments and on which standard input. -/
structure Report (P : Type) where
  ran : Option (P × List String × String)
  stdout : String
  exitCode : UInt8

/-- An execution of a command that reports so. Whether it comes to its exit is another question; what
is written is all there once the pipes are closed. -/
def Shown {P : Type} (report : Report P) (x : Execution) : Prop :=
  ∀ n, x.outcome = .ended (.exited n) → n.toInt = report.exitCode.toNat ∧
    (x.outputClosed ≠ .never →
      written x.output .stdout = report.stdout.toByteArray.data.toList)

/-- The tools: what a command reports, and the files it leaves. -/
def Tools (T : Toolchain) : Type :=
  Files T.Program → (cmd : String) → (args : List String) → (stdin : String) →
    Report T.Program × Files T.Program

/-- Paths from the root. -/
def Absolute (path : String) : Prop := ∃ rest, path = "/" ++ rest

/-- A path in a directory. -/
def join (dir name : String) : String := dir ++ "/" ++ name

theorem Absolute.join {dir : String} (h : Absolute dir) (name : String) :
    Absolute (join dir name) := by
  obtain ⟨rest, rfl⟩ := h
  exact ⟨rest ++ "/" ++ name, by simp [Toolchains.join, String.append_assoc]⟩

/-- The program is run. -/
def Toolchain.report (T : Toolchain) (p : T.Program) (args : List String) (stdin : String) :
    Report T.Program :=
  ⟨some (p, args, stdin), (T.run p args stdin).stdout, (T.run p args stdin).exitCode⟩

/-- The exit code of `go run`. -/
def goRun (n : UInt8) : UInt8 := if n = 0 then 0 else 1

/-! ### What the tools do -/

section
variable {T : Toolchain} (tools : Tools T)

end

/-! ### Tools that do so -/

section
variable (T : Toolchain)

/-- A command that runs nothing. -/
def Toolchain.silent (n : UInt8) : Report T.Program := ⟨none, "", n⟩

/-- The source is compiled and run. -/
def Toolchain.runSource (language source stdin : String) : Report T.Program :=
  match T.compile language source with
  | some p => T.report p [] stdin
  | none => T.silent 1

def Toolchain.runFile (language : String) (c : Option (Content T.Program)) (stdin : String) :
    Report T.Program :=
  match c with
  | some (.source source) => T.runSource language source stdin
  | _ => T.silent 1

/-- The directory of a file `Main.java`. -/
def dirOf (file : String) : String := String.ofList (file.toList.take (file.toList.length - 10))

/-- What `javac` leaves. -/
def Toolchain.javac (fs : Files T.Program) (file : String) : Files T.Program :=
  match fs file with
  | some (.source source) =>
    Function.update fs (join (dirOf file) "Main.class") ((T.compile "java" source).map .classes)
  | _ => fs

/-- `java` with its arguments. -/
def Toolchain.javaCommand (fs : Files T.Program) (args : List String) (stdin : String) :
    Report T.Program :=
  match args with
  | [file] => T.runFile "java" (fs file) stdin
  | _ :: dir :: main :: args =>
    match fs (join dir (main ++ ".class")) with
    | some (.classes p) => T.report p args stdin
    | _ => T.silent 1
  | _ => T.silent 1

/-- An interpreter with a source file, or with an option and a source. -/
def Toolchain.interpreter (language : String) (accepts : String → Bool) (fs : Files T.Program)
    (args : List String) (stdin : String) : Report T.Program :=
  match args with
  | [file] => T.runFile language (fs file) stdin
  | [_, source] => if accepts source then T.runSource language source stdin else T.silent 9
  | _ => T.silent 1

/-- `go run`. -/
def Toolchain.goCommand (fs : Files T.Program) (args : List String) (stdin : String) :
    Report T.Program :=
  match args with
  | [_, file] =>
    if file = "-" then T.silent 1
    else
      match fs file with
      | some (.source source) =>
        match T.compile "go" source with
        | some p => { T.report p [] stdin with exitCode := goRun (T.run p [] stdin).exitCode }
        | none => T.silent 1
      | _ => T.silent 1
  | _ => T.silent 1

/-- **Tools for any toolchain.** -/
def Toolchain.tools : Tools T := fun fs cmd args stdin =>
  if cmd = "javac" then (T.silent 0, args.head?.elim fs (T.javac fs))
  else
    let report :=
      if cmd = "python3" then T.interpreter "python" T.fits fs args stdin
      else if cmd = "node" then T.interpreter "javascript" T.fitsNode fs args stdin
      else if cmd = "npx" then T.interpreter "typescript" T.fits fs (args.drop 1) stdin
      else if cmd = "ruby" then T.interpreter "ruby" T.fits fs args stdin
      else if cmd = "java" then T.javaCommand fs args stdin
      else if cmd = "go" then T.goCommand fs args stdin
      else T.silent 0
    (report, fs)

variable {T}

end

end CodeHive.Os.Toolchains
