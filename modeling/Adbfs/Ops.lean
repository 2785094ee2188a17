import Adbfs.Adb
import Adbfs.Parse

namespace Adbfs

open Library

inductive Errno where
  | eperm | enoent | eio | ebadf | eagain | eacces | ebusy | eexist | exdev | enotdir | eisdir
  | einval | enospc | erofs | enametoolong | enosys | enotempty
  | other (code : ℕ)
  deriving DecidableEq

inductive DeviceError where
  | noDevice
  | permissionDenied (path : Text)
  | notFound (path : Text)
  | notSupported
  | failed (errno : Errno) (message : Text)
  | adb (e : AdbError)
  deriving DecidableEq

def DeviceError.toErrno : DeviceError → Errno
  | .noDevice => .eagain
  | .permissionDenied _ => .eacces
  | .notFound _ => .enoent
  | .notSupported => .enosys
  | .failed errno _ => errno
  | .adb _ => .eio

structure DeviceOps (τ : Type) where
  adb : τ
  touchGnuMode : Bool
  rescan : Bool

abbrev OpsM (τ α : Type) := Action (DeviceOps τ) DeviceError α

def permissionErrSuffix : Text := ": Permission denied".toList
def touchToyboxErrPrefix : Text := "touch: bad '@".toList
def touchBusyboxErrPrefix : Text := "touch: invalid date '@".toList

def decimal (n : ℕ) : Text := Nat.toDigits 10 n

def signedDecimal (n : ℤ) : Text := if n < 0 then '-' :: decimal n.natAbs else decimal n.natAbs

def formatTouchTime (time : SystemTime) (gnuFormat : Bool) : Text :=
  let dur := time.toNat
  let stamp := '@' :: (decimal (dur / 10 ^ 9) ++ '.' :: (decimal (dur % 10 ^ 9)).leftpad 9 '0')
  if gnuFormat then stamp
  else "`date -ud ".toList ++ stamp ++ " +%Y-%m-%dT%H:%M:%S`".toList

def firstMessage (output : ShellOutput) : Option Text :=
  ((output.stderr ++ output.stdout).map Text.trim).find? (· ≠ [])

def errnoTable : List (Text × Errno) :=
  [("permission denied".toList, .eacces),
    ("operation not permitted".toList, .eperm),
    ("no such file or directory".toList, .enoent),
    ("directory not empty".toList, .enotempty),
    ("file exists".toList, .eexist),
    ("read-only file system".toList, .erofs),
    ("is a directory".toList, .eisdir),
    ("not a directory".toList, .enotdir),
    ("cross-device link".toList, .exdev),
    ("no space left on device".toList, .enospc),
    ("device or resource busy".toList, .ebusy),
    ("file name too long".toList, .enametoolong),
    ("invalid argument".toList, .einval)]

def errnoForMessage (message : Text) : Errno :=
  let lower := message.toAsciiLowercase
  match errnoTable.find? fun entry => decide (entry.1 <:+: lower) with
  | some entry => entry.2
  | none => .eio

/-- `lstat '//efs' failed: Permission denied` names `efs`. -/
def extractNameFromPermError (line : Text) : Option Text :=
  match Text.breakOn [quote, ' '] line with
  | none => none
  | some (before, _) =>
    -- the last slash of the line has to stand before the quote that closes the path
    if '/' ∈ before ∧ '/' ∉ line.drop before.length then
      some (before.rtakeWhile (· ≠ '/'))
    else none

def lsMetadataCmd (path : Text) : Text := "ls -l -a -d ".toList ++ quoted [] path
def lsDirCmd (path : Text) : Text := "ls -l -a ".toList ++ quoted [] path
def mkdirCmd (path : Text) : Text := "mkdir ".toList ++ quoted [] path
def rmCmd (path : Text) : Text := "rm ".toList ++ quoted [] path
def rmdirCmd (path : Text) : Text := "rmdir ".toList ++ quoted [] path
def mvCmd (source target : Text) : Text :=
  "mv ".toList ++ quoted [] source ++ ' ' :: quoted [] target
def rescanFileCmd (path : Text) : Text :=
  "am broadcast -a android.intent.action.MEDIA_SCANNER_SCAN_FILE -d ".toList ++
    quoted "file://".toList path
def rescanDirRemovedCmd (path : Text) : Text :=
  "am broadcast -a android.intent.action.MEDIA_UNMOUNTED -d ".toList ++
    quoted "file://".toList path

def touchPart (flag : Text) (path : Text) (gnu : Bool) (time : SystemTime) : Text :=
  "touch ".toList ++ flag ++ " -d ".toList ++ formatTouchTime time gnu ++ ' ' :: quoted [] path

def touchParts (path : Text) (atime mtime : Option SystemTime) (gnu : Bool) : List Text :=
  (atime.map (touchPart "-a".toList path gnu)).toList ++
    (mtime.map (touchPart "-m".toList path gnu)).toList

section Operations

variable {τ : Type} [AdbDevice τ]

def DeviceOps.transport {α : Type} (x : Action τ AdbError α) : OpsM τ α :=
  Action.zoom DeviceOps.adb (fun adb s => { s with adb }) (Action.mapError .adb x)

open DeviceOps

/-- A failing `ls` writes to the error stream, where the device keeps one. -/
def metadataLines (output : ShellOutput) : List Text :=
  if output.stdout = [] ∧ output.stderr ≠ [] then output.stderr else output.stdout

def decodeMetadata [Libc] (path : Text) : List Text → OpsM τ FileMeta
  | [] => Action.fail .noDevice
  | first :: _ =>
    if permissionErrSuffix <:+ first then Action.fail (.permissionDenied path)
    else do
      let parsed ← Action.orCrash (parseLsLine first)
      Action.ofOption (.notFound path) parsed

def getMetadata [Libc] (path : Text) : OpsM τ FileMeta := do
  let output ← transport (AdbDevice.shellWithStderr (lsMetadataCmd path))
  decodeMetadata path (metadataLines output)

def listLine [Libc] (line : Text) : Checked (Option (Text × Option FileMeta)) :=
  if line.byteLen < 3 then some none
  else if !isValidLsOutput line then
    some (if permissionErrSuffix <:+ line then
      (extractNameFromPermError line).map fun name => (name, none)
    else none)
  else do
    match ← extractFilename line with
    | some name => do
      let fileMeta ← parseLsLine line
      some (some (name, fileMeta))
    | none => some none

def listLines [Libc] : List Text → Checked (List (Text × Option FileMeta))
  | [] => some []
  | line :: lines => do
    let entry ← listLine line
    let entries ← listLines lines
    some (entry.toList ++ entries)

lemma listLines_cons [Libc] {line : Text} {lines : List Text}
    {entries : List (Text × Option FileMeta)} :
    listLines (line :: lines) = some entries ↔ ∃ entry rest,
      listLine line = some entry ∧ listLines lines = some rest ∧ entry.toList ++ rest = entries := by
  rw [listLines]
  cases listLine line <;> cases listLines lines <;> simp

lemma mem_listLines [Libc] {lines : List Text} {entries : List (Text × Option FileMeta)}
    (h : listLines lines = some entries) {e : Text × Option FileMeta} (he : e ∈ entries) :
    ∃ line ∈ lines, listLine line = some (some e) := by
  induction lines generalizing entries with
  | nil =>
    obtain rfl := Option.some.inj h
    simp at he
  | cons line lines ih =>
    obtain ⟨entry, rest, hentry, hrest, rfl⟩ := listLines_cons.mp h
    rcases List.mem_append.mp he with he | he
    · rw [Option.mem_toList] at he
      exact ⟨line, by simp, by rw [hentry, he]⟩
    · obtain ⟨l, hl, hle⟩ := ih hrest he
      exact ⟨l, by simp [hl], hle⟩

def listDir [Libc] (path : Text) : OpsM τ (List (Text × Option FileMeta)) := do
  let lines ← transport (AdbDevice.shell (lsDirCmd path))
  Action.orCrash (listLines lines)

def resolveSymlink (path rawLine : Text) : OpsM τ Text :=
  Action.ofOption .notSupported (parseSymlinkTarget rawLine (path.count '/'))

def runMutation (cmd : Text) : OpsM τ Unit := do
  let output ← transport (AdbDevice.shellWithStderr cmd)
  match firstMessage output with
  | some message => Action.fail (.failed (errnoForMessage message) message)
  | none =>
    if output.exitCode ≠ 0 then
      Action.fail (.failed .eio
        ("`".toList ++ cmd ++ "` exited with ".toList ++ signedDecimal output.exitCode))
    else pure ()

def rescanFile (path : Text) : OpsM τ Unit := do
  let _ ← transport (AdbDevice.shell (rescanFileCmd path))
  pure ()

def rescanDirRemoved (path : Text) : OpsM τ Unit := do
  let _ ← transport (AdbDevice.shell (rescanDirRemovedCmd path))
  pure ()

def whenRescan (x : OpsM τ Unit) : OpsM τ Unit := do
  let s ← Action.read
  if s.rescan then x else pure ()

def touchRound (gnu : Bool) (path : Text) (atime mtime : Option SystemTime)
    (retry : OpsM τ Unit) : OpsM τ Unit :=
  let parts := touchParts path atime mtime gnu
  if parts = [] then pure ()
  else do
    let output ← transport (AdbDevice.shellWithStderr (List.intercalate " && ".toList parts))
    match firstMessage output with
    | some message =>
      if touchToyboxErrPrefix <+: message ∨ touchBusyboxErrPrefix <+: message then
        if !gnu then Action.fail .notSupported
        else do
          Action.update fun s => { s with touchGnuMode := false }
          retry
      else Action.fail (.failed (errnoForMessage message) message)
    | none => whenRescan (rescanFile path)

def touch (path : Text) (atime mtime : Option SystemTime) : OpsM τ Unit := do
  let s ← Action.read
  touchRound s.touchGnuMode path atime mtime
    (touchRound false path atime mtime (Action.fail .notSupported))

def mkdir (path : Text) : OpsM τ Unit := runMutation (mkdirCmd path)

def rm (path : Text) : OpsM τ Unit := do
  runMutation (rmCmd path)
  whenRescan (rescanFile path)

def rmdir (path : Text) : OpsM τ Unit := do
  runMutation (rmdirCmd path)
  whenRescan (rescanDirRemoved path)

def mv (source target : Text) : OpsM τ Unit := do
  runMutation (mvCmd source target)
  whenRescan do
    rescanFile source
    rescanFile target

def push (here : LocalPath) (contents : Option Bytes) (remote : Text) : OpsM τ Unit :=
  transport (AdbDevice.push here contents remote)

def syncDevice : OpsM τ Unit := transport AdbDevice.syncDevice

end Operations

end Adbfs
