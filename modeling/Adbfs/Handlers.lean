import Adbfs.Fs

namespace Adbfs

open Library

def IsKernelName (name : Bytes) : Prop :=
  name ≠ [] ∧ '/'.toUInt8 ∉ name ∧ 0 ∉ name ∧ name ≠ ['.'.toUInt8] ∧
    name ≠ ['.'.toUInt8, '.'.toUInt8]

instance (name : Bytes) : Decidable (IsKernelName name) := inferInstanceAs (Decidable (_ ∧ _))

abbrev KernelName := { name : Bytes // IsKernelName name }

lemma IsKernelName.isName {name : Bytes} (h : IsKernelName name) :
    Paths.IsName (Text.fromUtf8Lossy name) :=
  ⟨Text.fromUtf8Lossy_ne_nil h.1, Text.slash_notMem_fromUtf8Lossy name h.2.1⟩

lemma childText_render {cs : List Text} (hcs : Paths.Names cs) (n : Text) :
    childText (Paths.render cs) n = Paths.render (cs ++ [n]) := by
  rw [Paths.render_concat, childText]
  cases cs with
  | nil => rfl
  | cons c cs =>
    rw [Paths.render_eq_join (by simp), if_neg (Paths.slash_ne_join hcs).symm]

lemma childText_getLast (dir : Text) {n : Text} (hn : Paths.IsName n) :
    ¬ ['/'] <:+ childText dir n := by
  have hsuffix : n <:+ childText dir n := by
    rw [childText]
    split_ifs
    · exact ⟨['/'], rfl⟩
    · exact ⟨dir ++ ['/'], by simp⟩
  intro h
  have hlen : ['/'].length ≤ n.length := List.length_pos_iff.mpr hn.1
  exact hn.2 ((List.suffix_of_suffix_length_le h hsuffix hlen).subset (by simp))

lemma dirPrefix_childPath (dir : Text) (name : KernelName) :
    MetadataCache.dirPrefix (childPath dir name) = childPath dir name ++ ['/'] :=
  if_neg (childText_getLast dir name.2.isName)

inductive TimeOrNow where
  | specificTime (time : SystemTime)
  | now
  deriving DecidableEq

inductive Request where
  | getattr (ino : ℕ)
  | lookup (parent : ℕ) (name : KernelName)
  | opendir (ino : ℕ)
  | readdir (fh offset : ℕ)
  | releasedir (fh : ℕ)
  | open (ino : ℕ)
  | read (fh offset size : ℕ)
  | write (fh offset : ℕ) (data : Bytes)
  | flush (fh : ℕ)
  | release (fh : ℕ)
  | access (ino : ℕ)
  | mkdir (parent : ℕ) (name : KernelName)
  | unlink (parent : ℕ) (name : KernelName)
  | rmdir (parent : ℕ) (name : KernelName)
  | rename (parent : ℕ) (name : KernelName) (newparent : ℕ) (newname : KernelName) (flags : ℕ)
  | setattr (ino : ℕ) (size : Option ℕ) (atime mtime : Option TimeOrNow) (fh : Option ℕ)
  | readlink (ino : ℕ)
  | create (parent : ℕ) (name : KernelName)
  | mknod (parent : ℕ) (name : KernelName) (mode : ℕ)
  deriving DecidableEq

inductive Reply where
  | error (e : Errno)
  | ok
  | attr (ttl : ℕ) (attr : FileAttr)
  | entry (ttl : ℕ) (attr : FileAttr) (generation : ℕ)
  | opened (fh : ℕ) (flags : FopenFlags)
  | created (ttl : ℕ) (attr : FileAttr) (generation fh : ℕ) (flags : FopenFlags)
  | data (bytes : Bytes)
  | text (target : Text)
  | written (size : ℕ)
  | directory (entries : List (DirEntry × ℕ))
  deriving DecidableEq

section Handlers

variable {τ : Type} [AdbDevice τ] [Libc] (h : Host)

def AdbFs.getattr (ino : ℕ) : FsM τ Errno Reply := do
  let path ← getPath ino
  let fileMeta ← Action.mapError DeviceError.toErrno (fetchMeta h path)
  let w ← Action.read
  pure (.attr w.opts.attrTimeout (w.opts.metaToAttr ino fileMeta))

def AdbFs.lookup (parent : ℕ) (name : Bytes) : FsM τ Errno Reply := do
  let parentPath ← getPath parent
  let fullPath := childPath parentPath name
  let w ← Action.read
  match ← Action.attempt (fetchMeta h fullPath) with
  | .ok fileMeta => do
    let ino ← getOrAssignIno fullPath
    pure (.entry w.opts.entryTimeout (w.opts.metaToAttr ino fileMeta) 0)
  | .error (.notFound p) =>
    if w.opts.negativeTimeout ≠ 0 then pure (.entry w.opts.negativeTimeout NEGATIVE_ENTRY 0)
    else Action.fail (DeviceError.notFound p).toErrno
  | .error e => Action.fail e.toErrno

def cacheListed (path : Text) (fileMeta : Option FileMeta) (now : ℕ) : FsM τ Errno Unit :=
  match fileMeta with
  | some m => cacheInsert path (some m) now
  | none => pure ()

def listEntry (path : Text) (entry : Text × Option FileMeta) : FsM τ Errno (List DirEntry) :=
  if isDots entry.1 then pure []
  else do
    let child := childText path entry.1
    let childIno ← getOrAssignIno child
    cacheListed child entry.2 h.now
    pure [⟨childIno, (entry.2.map fun m => modeToFiletype m.mode).getD .regularFile, entry.1⟩]

def listEntries (path : Text) : List (Text × Option FileMeta) → FsM τ Errno (List DirEntry)
  | [] => pure []
  | entry :: entries => do
    let first ← listEntry h path entry
    let rest ← listEntries path entries
    pure (first ++ rest)

def takeFh : FsM τ Errno ℕ := Action.lift fun w => (w.nextFh, { w with nextFh := w.nextFh + 1 })

def AdbFs.opendir (ino : ℕ) : FsM τ Errno Reply := do
  let path ← getPath ino
  let entries ← device (listDir path)
  let children ← listEntries h path entries
  let fh ← takeFh
  Action.update fun w =>
    { w with
      openDirs := w.openDirs.insert fh
        (⟨ino, .directory, ['.']⟩ :: ⟨ino, .directory, ['.', '.']⟩ :: children) }
  pure (.opened fh FopenFlags.none)

def AdbFs.readdir (fh offset : ℕ) : FsM τ Errno Reply := do
  let w ← Action.read
  let dir ← Action.ofOption .ebadf (w.openDirs.lookup fh)
  pure (.directory ((dir.zipIdx 1).drop offset |>.take h.room))

def AdbFs.releasedir (fh : ℕ) : FsM τ Errno Reply := do
  Action.update fun w => { w with openDirs := w.openDirs.erase fh }
  pure .ok

def addHandle (ino id : ℕ) : FsM τ Errno ℕ := do
  let fh ← takeFh
  onFiles fun t => { t with openFiles := t.openFiles.insert fh ⟨ino, id⟩ }
  pure fh

def AdbFs.open (ino : ℕ) : FsM τ Errno Reply := do
  let path ← getPath ino
  let id ← acquireCopy h ino path .pull
  match ← Action.attempt (outcome h.openFile) with
  | .error e => do
    releaseCopy h ino id
    Action.fail e
  | .ok () => do
    let fh ← addHandle ino id
    let w ← Action.read
    pure (.opened fh w.opts.fileOpenFlags)

def handleOf (fh : ℕ) : FsM τ Errno OpenFile := do
  let w ← Action.read
  Action.ofOption .ebadf (w.files.openFiles.lookup fh)

def AdbFs.read (fh offset size : ℕ) : FsM τ Errno Reply := do
  let entry ← handleOf fh
  outcome h.read
  let w ← Action.read
  pure (.data (Contents.readAt offset size ((w.files.contents entry.copy).getD [])))

def Files.write (id offset : ℕ) (data : Bytes) (t : Files) : Files :=
  (t.setLocal (t.heap id).path
    ((t.contents id).map fun f => Contents.writeAt offset data f)).setDirty id true

def AdbFs.write (fh offset : ℕ) (data : Bytes) : FsM τ Errno Reply := do
  let entry ← handleOf fh
  let n ← Action.ofExcept h.write
  onFiles (Files.write entry.copy offset (data.take n))
  pure (.written (min n data.length))

def AdbFs.flush (fh : ℕ) : FsM τ Errno Reply := do
  let entry ← handleOf fh
  pushIfDirty entry.ino entry.copy
  pure .ok

def AdbFs.release (fh : ℕ) : FsM τ Errno Reply := do
  let w ← Action.read
  match w.files.openFiles.lookup fh with
  | some openFile => do
    onFiles fun t => { t with openFiles := t.openFiles.erase fh }
    releaseCopy h openFile.ino openFile.copy
    pure .ok
  | none => pure .ok

def AdbFs.mkdir (parent : ℕ) (name : Bytes) : FsM τ Errno Reply := do
  let parentPath ← getPath parent
  let fullPath := childPath parentPath name
  device (Adbfs.mkdir fullPath)
  cacheInvalidate fullPath
  let fileMeta ← device (getMetadata fullPath)
  let ino ← getOrAssignIno fullPath
  cacheInsert fullPath (some fileMeta) h.now
  let w ← Action.read
  pure (.entry w.opts.entryTimeout (w.opts.metaToAttr ino fileMeta) 0)

def AdbFs.unlink (parent : ℕ) (name : Bytes) : FsM τ Errno Reply := do
  let parentPath ← getPath parent
  let fullPath := childPath parentPath name
  device (rm fullPath)
  cacheInvalidate fullPath
  pure .ok

def AdbFs.rmdir (parent : ℕ) (name : Bytes) : FsM τ Errno Reply := do
  let parentPath ← getPath parent
  let fullPath := childPath parentPath name
  device (Adbfs.rmdir fullPath)
  Action.update (AdbFs.setCache (MetadataCache.invalidatePrefix fullPath))
  pure .ok

def AdbFs.rename (parent : ℕ) (name : Bytes) (newparent : ℕ) (newname : Bytes) :
    FsM τ Errno Reply := do
  let fromParent ← getPath parent
  let toParent ← getPath newparent
  let source := childPath fromParent name
  let target := childPath toParent newname
  device (mv source target)
  Action.update (AdbFs.setInodes (Inodes.rekeyPaths h.order source target))
  Action.update (AdbFs.setCache (MetadataCache.invalidatePrefix source))
  Action.update (AdbFs.setCache (MetadataCache.invalidatePrefix target))
  pure .ok

def Files.truncate (id size : ℕ) (t : Files) : Files :=
  (t.setLocal (t.heap id).path ((t.contents id).map (Contents.setLen size))).setDirty id true

def truncateCopy (ino id size : ℕ) : FsM τ Errno Unit := do
  outcome h.openFile
  outcome h.setLen
  onFiles (Files.truncate id size)
  pushIfDirty ino id

def truncate (ino : ℕ) (path : Text) (size : ℕ) : FsM τ Errno Unit := do
  let id ← acquireCopy h ino path (if size = 0 then .empty else .pull)
  let truncated ← Action.attempt (truncateCopy h ino id size)
  releaseCopy h ino id
  Action.ofExcept truncated

def resolveTime (t : TimeOrNow) : SystemTime :=
  match t with
  | .specificTime time => time
  | .now => h.clock

def touchTimes (path : Text) (atime mtime : Option TimeOrNow) : FsM τ Errno Unit :=
  let at' := atime.map (resolveTime h)
  let mt := mtime.map (resolveTime h)
  if at' = none ∧ mt = none then pure ()
  else do
    device (touch path at' mt)
    cacheInvalidate path

def resize (ino : ℕ) (path : Text) (size : Option ℕ) : FsM τ Errno Unit :=
  match size with
  | some n => truncate h ino path n
  | none => pure ()

def AdbFs.setattr (ino : ℕ) (size : Option ℕ) (atime mtime : Option TimeOrNow) :
    FsM τ Errno Reply := do
  let path ← getPath ino
  resize h ino path size
  touchTimes h path atime mtime
  let fileMeta ← device (getMetadata path)
  cacheInsert path (some fileMeta) h.now
  let w ← Action.read
  pure (.attr w.opts.attrTimeout (w.opts.metaToAttr ino fileMeta))

def AdbFs.readlink (ino : ℕ) : FsM τ Errno Reply := do
  let path ← getPath ino
  let fileMeta ← Action.mapError DeviceError.toErrno (fetchMeta h path)
  let target ← device (resolveSymlink path fileMeta.rawLine)
  pure (.text target)

def createOnDevice (ino id : ℕ) (fullPath : Text) : FsM τ Errno FileMeta := do
  outcome h.openFile
  pushIfDirty ino id
  device (getMetadata fullPath)

def AdbFs.create (parent : ℕ) (name : Bytes) : FsM τ Errno Reply := do
  let parentPath ← getPath parent
  let fullPath := childPath parentPath name
  let ino ← getOrAssignIno fullPath
  let id ← acquireCopy h ino fullPath .empty
  match ← Action.attempt (createOnDevice h ino id fullPath) with
  | .error e => do
    releaseCopy h ino id
    Action.fail e
  | .ok fileMeta => do
    cacheInsert fullPath (some fileMeta) h.now
    let fh ← addHandle ino id
    let w ← Action.read
    pure (.created w.opts.entryTimeout (w.opts.metaToAttr ino fileMeta) 0 fh w.opts.fileOpenFlags)

/-- A node that is not a regular file has no contents to send. -/
def nodeContents (mode : ℕ) : Option Bytes :=
  if mode &&& S_IFMT = S_IFREG ∨ mode &&& S_IFMT = 0 then some [] else none

def AdbFs.mknod (parent : ℕ) (name : Bytes) (mode : ℕ) : FsM τ Errno Reply := do
  let parentPath ← getPath parent
  let fullPath := childPath parentPath name
  outcome h.tempDir
  outcome h.mknod
  device (pushAndSync .scratch (nodeContents mode) fullPath)
  cacheInvalidate fullPath
  let fileMeta ← device (getMetadata fullPath)
  let ino ← getOrAssignIno fullPath
  cacheInsert fullPath (some fileMeta) h.now
  let w ← Action.read
  pure (.entry w.opts.entryTimeout (w.opts.metaToAttr ino fileMeta) 0)

/-- The flags of a rename and the handle of a setattr are not read. -/
def AdbFs.handle (request : Request) : FsM τ Errno Reply :=
  match request with
  | .getattr ino => AdbFs.getattr h ino
  | .lookup parent name => AdbFs.lookup h parent name
  | .opendir ino => AdbFs.opendir h ino
  | .readdir fh offset => AdbFs.readdir h fh offset
  | .releasedir fh => AdbFs.releasedir fh
  | .open ino => AdbFs.open h ino
  | .read fh offset size => AdbFs.read h fh offset size
  | .write fh offset data => AdbFs.write h fh offset data
  | .flush fh => AdbFs.flush fh
  | .release fh => AdbFs.release h fh
  | .access _ => pure .ok
  | .mkdir parent name => AdbFs.mkdir h parent name
  | .unlink parent name => AdbFs.unlink parent name
  | .rmdir parent name => AdbFs.rmdir parent name
  | .rename parent name newparent newname _ => AdbFs.rename h parent name newparent newname
  | .setattr ino size atime mtime _ => AdbFs.setattr h ino size atime mtime
  | .readlink ino => AdbFs.readlink h ino
  | .create parent name => AdbFs.create h parent name
  | .mknod parent name mode => AdbFs.mknod h parent name mode

/-- The handler's own reply: none where it panics, upon which the FUSE library answers with `EIO`. -/
def AdbFs.serve (request : Request) (w : AdbFs τ) : Option Reply × AdbFs τ :=
  match AdbFs.handle h request w with
  | (.ok reply, w') => (some reply, w')
  | (.error (.error e), w') => (some (.error e), w')
  | (.error .panic, w') => (none, w')

lemma handle_of_serve {h : Host} {request : Request} {w w' : AdbFs τ} {reply : Reply}
    (hreply : ∀ e, reply ≠ .error e) (hserve : AdbFs.serve h request w = (some reply, w')) :
    AdbFs.handle h request w = (.ok reply, w') := by
  rw [AdbFs.serve] at hserve
  split at hserve
  · next heq =>
    simp only [Prod.mk.injEq, Option.some.injEq] at hserve
    rw [heq, hserve.1, hserve.2]
  · next e _ heq =>
    simp only [Prod.mk.injEq, Option.some.injEq] at hserve
    exact absurd hserve.1.symm (hreply e)
  · simp at hserve

structure Call where
  request : Request
  host : Host
  reply : Option Reply

/-- Requests are served one at a time. -/
def Serves (w : AdbFs τ) (c : Call) (w' : AdbFs τ) : Prop :=
  AdbFs.serve c.host c.request w = (c.reply, w')

end Handlers

def plainHost (now written room : ℕ) : Host where
  now
  clock := 0
  order := IterOrder.stored _
  create := none
  openFile := none
  setLen := none
  read := none
  write := .ok written
  remove := true
  tempDir := none
  mknod := none
  room

end Adbfs
