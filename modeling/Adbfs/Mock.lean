import Adbfs.Fs

/-! The test double for a device. Its answers are served from a queue; an exhausted queue answers with
silence. -/

namespace Adbfs

open Library

structure MockAdb where
  responses : List (Except AdbError ShellOutput)
  commands : List Text
  pushes : List (LocalPath × Text)
  pullContent : Bytes
  pullFails : Bool

namespace MockAdb

def out (lines : List Text) : Except AdbError ShellOutput := .ok ⟨lines, [], 0⟩

def failed (exitCode : ℤ) (stderr : List Text) : Except AdbError ShellOutput :=
  .ok ⟨[], stderr, exitCode⟩

def new (responses : List (Except AdbError ShellOutput)) : MockAdb := ⟨responses, [], [], [], false⟩

def next (command : Text) (d : MockAdb) : Except AdbError ShellOutput × MockAdb :=
  let d := { d with commands := d.commands ++ [command] }
  match d.responses with
  | [] => (out [], d)
  | r :: responses => (r, { d with responses })

def answer {α : Type} (f : ShellOutput → α) (command : Text) : Action MockAdb AdbError α := fun d =>
  (match (next command d).1 with
    | .ok output => .ok (f output)
    | .error e => .error (.error e), (next command d).2)

instance : AdbDevice MockAdb where
  shell := answer ShellOutput.stdout
  shellWithStderr := answer id
  pull _ here d :=
    if d.pullFails then
      ((.error (.commandFailed 1 "remote object does not exist".toList), here), d)
    else ((.ok (), some d.pullContent), d)
  push here _ remote := Action.update fun d => { d with pushes := d.pushes ++ [(here, remote)] }
  syncDevice := pure ()

end MockAdb

def mockFs (d : MockAdb) : AdbFs MockAdb :=
  AdbFs.new ⟨d, true, false⟩ (30 * 10 ^ 9) {}

end Adbfs
