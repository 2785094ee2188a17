import Adbfs.Library.Action
import Adbfs.Library.Text

/-! The transport to a device, and the quoting of what is sent over it. -/

namespace Adbfs

open Library

structure ShellOutput where
  stdout : List Text
  stderr : List Text
  exitCode : ℤ
  deriving DecidableEq

inductive AdbError where
  | deviceNotFound
  | permissionDenied (path : Text)
  | commandFailed (exitCode : ℤ) (stderr : Text)
  | io (code : ℕ)
  deriving DecidableEq

/-- A file under the temporary directory. The copy of an inode is named after its number. -/
inductive LocalPath where
  | copy (ino : ℕ)
  | scratch
  deriving DecidableEq

/-- `pull` is given what the local path holds before and says what it holds afterwards, a failed
transfer included; `push` is given what the local path holds. -/
class AdbDevice (τ : Type) where
  shell : Text → Action τ AdbError (List Text)
  shellWithStderr : Text → Action τ AdbError ShellOutput
  pull : Text → Option Bytes → τ → (Except AdbError Unit × Option Bytes) × τ
  push : LocalPath → Option Bytes → Text → Action τ AdbError Unit
  syncDevice : Action τ AdbError Unit

def AdbCli.shellLines (output : ShellOutput) : Except AdbError (List Text) :=
  if output.stdout = [] ∧ output.exitCode ≠ 0 then .error .deviceNotFound else .ok output.stdout

def quote : Char := Char.ofNat 39

def shellEscapePath (path : Text) : Text :=
  path.flatMap fun c => if c = quote then [quote, '\\', quote, quote] else [c]

def quoted (start path : Text) : Text := quote :: (start ++ shellEscapePath path ++ [quote])

end Adbfs
