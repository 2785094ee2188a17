import Adbfs.Cache
import Adbfs.Inodes
import Adbfs.Library.Contents
import Adbfs.Ops
import Adbfs.Options

namespace Adbfs

open Library

structure LocalCopy where
  path : ℕ
  dirty : Bool
  refs : ℕ
  pulled : Bool
  evicted : Bool
  deriving DecidableEq

def LocalCopy.new (path : ℕ) : LocalCopy := ⟨path, false, 0, false, false⟩

inductive CopyInit where
  | pull
  | empty
  deriving DecidableEq

structure OpenFile where
  ino : ℕ
  copy : ℕ
  deriving DecidableEq

/-- The open files, the copies they share and the temporary directory. A copy is known by its place
in `heap`; a local file by the inode it is named after, and an open descriptor by the same name. -/
structure Files where
  openFiles : Table ℕ OpenFile
  openCopies : Table ℕ ℕ
  heap : ℕ → LocalCopy
  nextCopy : ℕ
  tmpDir : ℕ → Option Bytes

inductive FileType where
  | namedPipe | charDevice | blockDevice | directory | regularFile | symlink | socket
  deriving DecidableEq

structure DirEntry where
  ino : ℕ
  kind : FileType
  name : Text
  deriving DecidableEq

structure AdbFs (τ : Type) where
  ops : DeviceOps τ
  cache : MetadataCache
  files : Files
  openDirs : Table ℕ (List DirEntry)
  opts : FsOptions
  nextFh : ℕ
  inodes : Inodes

/-- What the host answers while one request is served: the clocks, the order in which a map is
iterated, and how the calls on local files end. -/
structure Host where
  now : ℕ
  clock : SystemTime
  order : IterOrder InoEntry
  create : Option Errno
  openFile : Option Errno
  setLen : Option Errno
  read : Option Errno
  write : Except Errno ℕ
  remove : Bool
  tempDir : Option Errno
  mknod : Option Errno
  room : ℕ

abbrev FsM (τ ε α : Type) := Action (AdbFs τ) ε α

def Files.new : Files := ⟨∅, ∅, fun _ => LocalCopy.new 0, 0, fun _ => none⟩

def AdbFs.new {τ : Type} (ops : DeviceOps τ) (cacheTtl : ℕ) (opts : FsOptions) : AdbFs τ where
  ops
  cache := MetadataCache.new cacheTtl
  files := Files.new
  openDirs := ∅
  opts
  nextFh := 1
  inodes := Inodes.new

section State

variable {τ : Type}

def AdbFs.setFiles (f : Files → Files) (w : AdbFs τ) : AdbFs τ := { w with files := f w.files }

def AdbFs.setCache (f : MetadataCache → MetadataCache) (w : AdbFs τ) : AdbFs τ :=
  { w with cache := f w.cache }

def AdbFs.setInodes (f : Inodes → Inodes) (w : AdbFs τ) : AdbFs τ :=
  { w with inodes := f w.inodes }

def AdbFs.setOps (ops : DeviceOps τ) (w : AdbFs τ) : AdbFs τ := { w with ops }

def Files.setCopy (id : ℕ) (f : LocalCopy → LocalCopy) (t : Files) : Files :=
  { t with heap := Function.update t.heap id (f (t.heap id)) }

def Files.setDirty (id : ℕ) (dirty : Bool) (t : Files) : Files :=
  t.setCopy id fun copy => { copy with dirty }

def Files.setLocal (name : ℕ) (contents : Option Bytes) (t : Files) : Files :=
  { t with tmpDir := Function.update t.tmpDir name contents }

/-- `open_copies.entry(ino).or_insert_with(..)` -/
def Files.entryOrInsert (ino : ℕ) (t : Files) : ℕ × Files :=
  match t.openCopies.lookup ino with
  | some id => (id, t)
  | none =>
    (t.nextCopy,
      { t with
        openCopies := t.openCopies.insert ino t.nextCopy
        heap := Function.update t.heap t.nextCopy (LocalCopy.new ino)
        nextCopy := t.nextCopy + 1 })

/-- `open_copies.remove_if(&ino, |_, v| Arc::ptr_eq(v, copy))` -/
def Files.removeCopy (ino id : ℕ) (t : Files) : Files :=
  if t.openCopies.lookup ino = some id then { t with openCopies := t.openCopies.erase ino } else t

def Files.evict (ino id : ℕ) (t : Files) : Files :=
  (t.setCopy id fun copy => { copy with evicted := true }).removeCopy ino id

def Files.contents (id : ℕ) (t : Files) : Option Bytes := t.tmpDir (t.heap id).path

end State

def childText (parent name : Text) : Text :=
  if parent = ['/'] then '/' :: name else parent ++ '/' :: name

def childPath (parent : Text) (name : Bytes) : Text := childText parent (Text.fromUtf8Lossy name)

def isDots (name : Text) : Bool := name == ['.'] || name == ['.', '.']

structure FileAttr where
  ino : ℕ
  size : ℕ
  blocks : ℕ
  atime : SystemTime
  mtime : SystemTime
  ctime : SystemTime
  crtime : SystemTime
  kind : FileType
  perm : ℕ
  nlink : ℕ
  uid : ℕ
  gid : ℕ
  rdev : ℕ
  blksize : ℕ
  flags : ℕ
  deriving DecidableEq

def modeToFiletype (mode : ℕ) : FileType :=
  let ft := mode &&& S_IFMT
  if ft = S_IFDIR then .directory
  else if ft = S_IFLNK then .symlink
  else if ft = S_IFBLK then .blockDevice
  else if ft = S_IFCHR then .charDevice
  else if ft = S_IFIFO then .namedPipe
  else if ft = S_IFSOCK then .socket
  else .regularFile

def FsOptions.metaToAttr (opts : FsOptions) (ino : ℕ) (fileMeta : FileMeta) : FileAttr :=
  let (mode, uid, gid) := opts.applyOwnership fileMeta.mode fileMeta.uid fileMeta.gid
  { ino
    size := fileMeta.size
    blocks := (fileMeta.size + 511) / 512
    atime := fileMeta.mtime
    mtime := fileMeta.mtime
    ctime := fileMeta.mtime
    crtime := 0
    kind := modeToFiletype mode
    perm := mode &&& 0o7777
    nlink := fileMeta.nlink
    uid
    gid
    rdev := fileMeta.rdev % 2 ^ 32
    blksize := 512
    flags := 0 }

def NEGATIVE_ENTRY : FileAttr where
  ino := 0
  size := 0
  blocks := 0
  atime := 0
  mtime := 0
  ctime := 0
  crtime := 0
  kind := .regularFile
  perm := 0
  nlink := 0
  uid := 0
  gid := 0
  rdev := 0
  blksize := 0
  flags := 0

structure FopenFlags where
  directIo : Bool
  keepCache : Bool
  deriving DecidableEq

def FopenFlags.none : FopenFlags := ⟨false, false⟩

def FsOptions.fileOpenFlags (opts : FsOptions) : FopenFlags := ⟨opts.directIo, opts.kernelCache⟩

section Procedures

variable {τ : Type} [AdbDevice τ]

def outcome (r : Option Errno) : FsM τ Errno Unit :=
  match r with
  | none => pure ()
  | some e => Action.fail e

def onDevice {α : Type} (x : OpsM τ α) : FsM τ DeviceError α :=
  Action.zoom AdbFs.ops AdbFs.setOps x

def device {α : Type} (x : OpsM τ α) : FsM τ Errno α :=
  Action.mapError DeviceError.toErrno (onDevice x)

def onFiles (f : Files → Files) : FsM τ Errno Unit := Action.update (AdbFs.setFiles f)

def cacheInsert (path : Text) (fileMeta : Option FileMeta) (now : ℕ) {ε : Type} : FsM τ ε Unit :=
  Action.update (AdbFs.setCache (MetadataCache.insert path fileMeta now))

def cacheInvalidate (path : Text) : FsM τ Errno Unit :=
  Action.update (AdbFs.setCache (MetadataCache.invalidate path))

def getOrAssignIno (path : Text) : FsM τ Errno ℕ :=
  Action.lift fun w =>
    ((w.inodes.getOrAssignIno path).1, w.setInodes fun t => (t.getOrAssignIno path).2)

def getPath (ino : ℕ) : FsM τ Errno Text := do
  let w ← Action.read
  Action.ofOption .enoent (w.inodes.getPath ino)

/-- A transfer that fails may leave part of the file behind. -/
def pullInto (path : Text) (id : ℕ) : FsM τ Errno Unit := fun w =>
  let name := (w.files.heap id).path
  let answer := AdbDevice.pull path (w.files.tmpDir name) w.ops.adb
  (match answer.1.1 with
    | .ok () => .ok ()
    | .error e => .error (.error (DeviceError.adb e).toErrno),
    { w with ops := { w.ops with adb := answer.2 }, files := w.files.setLocal name answer.1.2 })

def pushAndSync (here : LocalPath) (contents : Option Bytes) (path : Text) : OpsM τ Unit := do
  push here contents path
  syncDevice

def populate (h : Host) (path : Text) (id : ℕ) (init : CopyInit) : FsM τ Errno Unit := do
  let w ← Action.read
  match init with
  | .empty => do
    outcome h.create
    onFiles (Files.setLocal (w.files.heap id).path (some []))
    onFiles (Files.setDirty id true)
  | .pull => if (w.files.heap id).pulled then pure () else pullInto path id

def acquireCopy (h : Host) (ino : ℕ) (path : Text) (init : CopyInit) : FsM τ Errno ℕ := do
  let id ← Action.lift fun w =>
    ((w.files.entryOrInsert ino).1, w.setFiles fun t => (t.entryOrInsert ino).2)
  let w ← Action.read
  -- with no other thread to remove the evicted copy the loop would not end
  if (w.files.heap id).evicted then Action.crash
  else do
    match ← Action.attempt (populate h path id init) with
    | .error e => do
      onFiles fun t => if (t.heap id).refs = 0 then t.evict ino id else t
      Action.fail e
    | .ok () => do
      onFiles (Files.setCopy id fun copy => { copy with pulled := true, refs := copy.refs + 1 })
      pure id

def Files.releaseCopy (remove : Bool) (ino id : ℕ) (t : Files) : Files :=
  let t := t.setCopy id fun copy => { copy with refs := copy.refs - 1 }
  if (t.heap id).refs = 0 then
    let t := t.evict ino id
    if remove then t.setLocal (t.heap id).path none else t
  else t

def releaseCopy (h : Host) (ino id : ℕ) : FsM τ Errno Unit := do
  let w ← Action.read
  if (w.files.heap id).refs = 0 then Action.crash
  else onFiles (Files.releaseCopy h.remove ino id)

def pushIfDirty (ino id : ℕ) : FsM τ Errno Unit := do
  let w ← Action.read
  if (w.files.heap id).dirty then do
    onFiles (Files.setDirty id false)
    match w.inodes.getPath ino with
    | none => do
      onFiles (Files.setDirty id true)
      Action.fail .enoent
    | some path =>
      match ← Action.attempt
          (device (pushAndSync (.copy (w.files.heap id).path) (w.files.contents id) path)) with
      | .error e => do
        onFiles (Files.setDirty id true)
        Action.fail e
      | .ok () => cacheInvalidate path
  else pure ()

def fetchMeta [Libc] (h : Host) (path : Text) : FsM τ DeviceError FileMeta := do
  let hit ← Action.lift fun w =>
    ((w.cache.get path h.now).1, w.setCache fun c => (c.get path h.now).2)
  match hit with
  | some (some fileMeta) => pure fileMeta
  | some none => Action.fail (.notFound path)
  | none =>
    match ← Action.attempt (onDevice (getMetadata path)) with
    | .ok fileMeta => do
      cacheInsert path (some fileMeta) h.now
      pure fileMeta
    | .error (.notFound p) => do
      cacheInsert path none h.now
      Action.fail (.notFound p)
    | .error e => Action.fail e

end Procedures

end Adbfs
