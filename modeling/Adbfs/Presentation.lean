import Adbfs.Audit
import Adbfs.Library.Transfer

namespace Adbfs

open Library Library.Action

/-- Two devices that answer alike, the states of the first mapped to those of the second. -/
structure DeviceMap (τ τ' : Type) [AdbDevice τ] [AdbDevice τ'] where
  toFun : τ → τ'
  shell : ∀ command, Alike (fun _ => True) toFun (AdbDevice.shell command) (AdbDevice.shell command)
  shellWithStderr : ∀ command, Alike (fun _ => True) toFun (AdbDevice.shellWithStderr command)
    (AdbDevice.shellWithStderr command)
  pull : ∀ remote here d, AdbDevice.pull remote here (toFun d) =
    ((AdbDevice.pull remote here d).1, toFun (AdbDevice.pull remote here d).2)
  push : ∀ here contents remote, Alike (fun _ => True) toFun (AdbDevice.push here contents remote)
    (AdbDevice.push here contents remote)
  syncDevice : Alike (fun _ => True) toFun AdbDevice.syncDevice AdbDevice.syncDevice

variable {τ τ' α : Type} [AdbDevice τ] [AdbDevice τ'] {φ : DeviceMap τ τ'}

def DeviceOps.map (φ : DeviceMap τ τ') (s : DeviceOps τ) : DeviceOps τ' :=
  ⟨φ.toFun s.adb, s.touchGnuMode, s.rescan⟩

section Operations

abbrev OpsAlike (φ : DeviceMap τ τ') (x : OpsM τ α) (y : OpsM τ' α) : Prop :=
  Alike (fun _ => True) (DeviceOps.map φ) x y

lemma alike_transport {x : Action τ AdbError α} {y : Action τ' AdbError α}
    (hx : Alike (fun _ => True) φ.toFun x y) :
    OpsAlike φ (DeviceOps.transport x) (DeviceOps.transport y) := by
  have hadb : Alike (fun _ => True) φ.toFun (Action.mapError DeviceError.adb x)
      (Action.mapError DeviceError.adb y) := hx.mapError _
  exact alike_zoom hadb (fun _ _ => trivial) (fun _ _ _ => trivial) (fun _ => rfl) fun _ _ => rfl

lemma alike_getMetadata [Libc] (p : Text) : OpsAlike φ (getMetadata p) (getMetadata p) := by
  apply Transfers.bind (alike_transport (φ.shellWithStderr _))
  intro output
  cases metadataLines output with
  | nil => exact transfers_fail _
  | cons line lines =>
    rw [decodeMetadata, decodeMetadata]
    split_ifs
    · exact transfers_fail _
    · exact (alike_orCrash _).bind fun _ => alike_ofOption _ _

lemma alike_listDir [Libc] (dir : Text) : OpsAlike φ (listDir dir) (listDir dir) :=
  (alike_transport (φ.shell _)).bind fun _ => alike_orCrash _

lemma alike_runMutation (cmd : Text) : OpsAlike φ (runMutation cmd) (runMutation cmd) := by
  apply Transfers.bind (alike_transport (φ.shellWithStderr _))
  intro output
  cases firstMessage output with
  | some message => exact transfers_fail _
  | none =>
    dsimp only
    split_ifs
    · exact transfers_fail _
    · exact transfers_pure rfl

lemma alike_whenRescan {x : OpsM τ Unit} {y : OpsM τ' Unit} (hx : OpsAlike φ x y) :
    OpsAlike φ (whenRescan x) (whenRescan y) := by
  apply transfers_read
  intro s _
  change OpsAlike φ (if s.rescan then x else pure ()) (if s.rescan then y else pure ())
  split_ifs
  · exact hx
  · exact transfers_pure rfl

lemma alike_rescanFile (p : Text) : OpsAlike φ (rescanFile p) (rescanFile p) :=
  (alike_transport (φ.shell _)).bind fun _ => transfers_pure rfl

lemma alike_rescanDirRemoved (p : Text) : OpsAlike φ (rescanDirRemoved p) (rescanDirRemoved p) :=
  (alike_transport (φ.shell _)).bind fun _ => transfers_pure rfl

lemma alike_rm (p : Text) : OpsAlike φ (rm p) (rm p) :=
  (alike_runMutation _).bind fun _ => alike_whenRescan (alike_rescanFile p)

lemma alike_rmdir (p : Text) : OpsAlike φ (rmdir p) (rmdir p) :=
  (alike_runMutation _).bind fun _ => alike_whenRescan (alike_rescanDirRemoved p)

lemma alike_mv (p q : Text) : OpsAlike φ (mv p q) (mv p q) :=
  (alike_runMutation _).bind fun _ =>
    alike_whenRescan ((alike_rescanFile p).bind fun _ => alike_rescanFile q)

lemma alike_touchRound (gnu : Bool) (p : Text) (atime mtime : Option SystemTime)
    {retry : OpsM τ Unit} {retry' : OpsM τ' Unit} (hretry : OpsAlike φ retry retry') :
    OpsAlike φ (touchRound gnu p atime mtime retry) (touchRound gnu p atime mtime retry') := by
  by_cases hparts : touchParts p atime mtime gnu = []
  · rw [touchRound, touchRound, if_pos hparts, if_pos hparts]
    exact transfers_pure rfl
  · rw [touchRound, touchRound, if_neg hparts, if_neg hparts]
    apply Transfers.bind (alike_transport (φ.shellWithStderr _))
    intro output
    cases firstMessage output with
    | none => exact alike_whenRescan (alike_rescanFile p)
    | some message =>
      dsimp only
      split_ifs
      · exact transfers_fail _
      · refine Transfers.bind (alike_update (fun _ _ => trivial) ?_) fun _ => hretry
        exact fun _ => rfl
      · exact transfers_fail _

lemma alike_touch (p : Text) (atime mtime : Option SystemTime) :
    OpsAlike φ (touch p atime mtime) (touch p atime mtime) :=
  transfers_read fun s _ =>
    alike_touchRound s.touchGnuMode p atime mtime
      (alike_touchRound false p atime mtime (transfers_fail _))

lemma alike_pushAndSync (here : LocalPath) (contents : Option Bytes) (p : Text) :
    OpsAlike φ (pushAndSync here contents p) (pushAndSync here contents p) :=
  (alike_transport (φ.push here contents p)).bind fun _ => alike_transport φ.syncDevice

end Operations

def AdbFs.remount (φ : DeviceMap τ τ') (o : FsOptions) (w : AdbFs τ) : AdbFs τ' where
  ops := w.ops.map φ
  cache := w.cache
  files := w.files
  openDirs := w.openDirs
  opts := o
  nextFh := w.nextFh
  inodes := w.inodes

@[simp] lemma remount_files (o : FsOptions) (w : AdbFs τ) : (w.remount φ o).files = w.files := rfl

@[simp] lemma remount_inodes (o : FsOptions) (w : AdbFs τ) :
    (w.remount φ o).inodes = w.inodes := rfl

section Procedures

variable {ε : Type} {b o : FsOptions} {h : Host}

abbrev FsAlike (φ : DeviceMap τ τ') (b o : FsOptions) (x : FsM τ ε α) (y : FsM τ' ε α) : Prop :=
  Alike (fun w => w.opts = b) (AdbFs.remount φ o) x y

lemma alike_onDevice {x : OpsM τ α} {y : OpsM τ' α} (hx : OpsAlike φ x y) :
    FsAlike φ b o (onDevice x) (onDevice y) :=
  alike_zoom hx (fun _ _ => trivial) (fun _ _ hw => hw) (fun _ => rfl) fun _ _ => rfl

lemma alike_device {x : OpsM τ α} {y : OpsM τ' α} (hx : OpsAlike φ x y) :
    FsAlike φ b o (device x) (device y) :=
  (alike_onDevice hx).mapError _

lemma alike_outcome (r : Option Errno) : FsAlike φ b o (outcome r) (outcome r) := by
  cases r with
  | none => exact transfers_pure rfl
  | some e => exact transfers_fail e

lemma alike_onFiles (f : Files → Files) : FsAlike φ b o (onFiles f) (onFiles f) :=
  alike_update (fun _ hw => hw) fun _ => rfl

lemma alike_setCache (f : MetadataCache → MetadataCache) :
    FsAlike φ b o (Action.update (AdbFs.setCache f) : FsM τ ε Unit)
      (Action.update (AdbFs.setCache f)) :=
  alike_update (fun _ hw => hw) fun _ => rfl

lemma alike_setInodes (f : Inodes → Inodes) :
    FsAlike φ b o (Action.update (AdbFs.setInodes f) : FsM τ ε Unit)
      (Action.update (AdbFs.setInodes f)) :=
  alike_update (fun _ hw => hw) fun _ => rfl

lemma alike_setDirs (f : Table ℕ (List DirEntry) → Table ℕ (List DirEntry)) :
    FsAlike φ b o (Action.update fun w => { w with openDirs := f w.openDirs } : FsM τ ε Unit)
      (Action.update fun w => { w with openDirs := f w.openDirs }) :=
  alike_update (fun _ hw => hw) fun _ => rfl

lemma alike_getOrAssignIno (p : Text) : FsAlike φ b o (getOrAssignIno p) (getOrAssignIno p) :=
  alike_lift (fun _ hw => hw) fun _ => rfl

lemma alike_takeFh : FsAlike φ b o takeFh takeFh :=
  alike_lift (fun _ hw => hw) fun _ => rfl

lemma alike_getPath (i : ℕ) : FsAlike φ b o (getPath i) (getPath i) :=
  transfers_read fun _ _ => alike_ofOption _ _

lemma alike_handleOf (fh : ℕ) : FsAlike φ b o (handleOf fh) (handleOf fh) :=
  transfers_read fun _ _ => alike_ofOption _ _

lemma alike_pullInto (p : Text) (id : ℕ) : FsAlike φ b o (pullInto p id) (pullInto p id) := by
  apply alike_of_apply
  · exact fun _ hw => hw
  · intro w _
    have hpull := φ.pull p (w.files.tmpDir (w.files.heap id).path) w.ops.adb
    simp only [pullInto, AdbFs.remount, DeviceOps.map, hpull]

lemma alike_populate (p : Text) (id : ℕ) (init : CopyInit) :
    FsAlike φ b o (populate h p id init) (populate h p id init) := by
  apply transfers_read
  intro w _
  cases init with
  | empty =>
    exact (alike_outcome _).bind fun _ => (alike_onFiles _).bind fun _ => alike_onFiles _
  | pull =>
    change FsAlike φ b o (if (w.files.heap id).pulled then pure () else pullInto p id)
      (if (w.files.heap id).pulled then pure () else pullInto p id)
    split_ifs
    · exact transfers_pure rfl
    · exact alike_pullInto p id

lemma alike_acquireCopy (i : ℕ) (p : Text) (init : CopyInit) :
    FsAlike φ b o (acquireCopy h i p init) (acquireCopy h i p init) := by
  apply Transfers.bind (alike_lift (fun _ hw => hw) fun _ => rfl)
  intro id
  apply transfers_read
  intro w _
  change FsAlike φ b o (if (w.files.heap id).evicted then _ else _)
    (if (w.files.heap id).evicted then _ else _)
  split_ifs
  · exact transfers_crash
  · apply Transfers.bind (alike_populate p id init).attempt
    intro r
    cases r with
    | error e => exact (alike_onFiles _).bind fun _ => transfers_fail e
    | ok _ => exact (alike_onFiles _).bind fun _ => transfers_pure rfl

lemma alike_releaseCopy (i id : ℕ) : FsAlike φ b o (releaseCopy h i id) (releaseCopy h i id) := by
  apply transfers_read
  intro w _
  change FsAlike φ b o (if (w.files.heap id).refs = 0 then _ else _)
    (if (w.files.heap id).refs = 0 then _ else _)
  split_ifs
  · exact transfers_crash
  · exact alike_onFiles _

lemma alike_pushIfDirty (i id : ℕ) : FsAlike φ b o (pushIfDirty i id) (pushIfDirty i id) := by
  apply transfers_read
  intro w _
  change FsAlike φ b o (if (w.files.heap id).dirty then _ else pure ())
    (if (w.files.heap id).dirty then _ else pure ())
  split_ifs
  · apply (alike_onFiles _).bind
    intro _
    simp only [remount_inodes]
    cases w.inodes.getPath i with
    | none => exact (alike_onFiles _).bind fun _ => transfers_fail _
    | some p =>
      apply Transfers.bind (alike_device (alike_pushAndSync _ _ p)).attempt
      intro r
      cases r with
      | error e => exact (alike_onFiles _).bind fun _ => transfers_fail e
      | ok _ => exact alike_setCache _
  · exact transfers_pure rfl

lemma alike_fetchMeta [Libc] (p : Text) : FsAlike φ b o (fetchMeta h p) (fetchMeta h p) := by
  apply Transfers.bind (alike_lift (fun _ hw => hw) fun _ => rfl)
  intro hit
  rcases hit with - | - | fileMeta
  · apply Transfers.bind (alike_onDevice (alike_getMetadata p)).attempt
    intro r
    rcases r with e | fileMeta
    · cases e with
      | notFound q => exact (alike_setCache _).bind fun _ => transfers_fail _
      | _ => exact transfers_fail _
    · exact (alike_setCache _).bind fun _ => transfers_pure rfl
  · exact transfers_fail _
  · exact transfers_pure rfl

lemma alike_listEntry (p : Text) (entry : Text × Option FileMeta) :
    FsAlike φ b o (listEntry h p entry) (listEntry h p entry) := by
  rw [listEntry, listEntry]
  split_ifs
  · exact transfers_pure rfl
  · apply Transfers.bind (alike_getOrAssignIno _)
    intro _
    rcases entry with ⟨n, - | m⟩
    · exact (transfers_pure rfl).bind fun _ => transfers_pure rfl
    · exact (alike_setCache _).bind fun _ => transfers_pure rfl

lemma alike_listEntries (p : Text) (entries : List (Text × Option FileMeta)) :
    FsAlike φ b o (listEntries h p entries) (listEntries h p entries) := by
  induction entries with
  | nil => exact transfers_pure rfl
  | cons entry entries ih =>
    exact (alike_listEntry p entry).bind fun _ => ih.bind fun _ => transfers_pure rfl

lemma alike_addHandle (i id : ℕ) : FsAlike φ b o (addHandle i id) (addHandle i id) :=
  alike_takeFh.bind fun _ => (alike_onFiles _).bind fun _ => transfers_pure rfl

lemma alike_truncate (i : ℕ) (p : Text) (size : ℕ) :
    FsAlike φ b o (truncate h i p size) (truncate h i p size) := by
  apply Transfers.bind (alike_acquireCopy i p _)
  intro id
  have hcopy : FsAlike φ b o (truncateCopy h i id size) (truncateCopy h i id size) :=
    (alike_outcome _).bind fun _ => (alike_outcome _).bind fun _ =>
      (alike_onFiles _).bind fun _ => alike_pushIfDirty i id
  exact hcopy.attempt.bind fun _ => (alike_releaseCopy i id).bind fun _ => alike_ofExcept _

lemma alike_touchTimes (p : Text) (atime mtime : Option TimeOrNow) :
    FsAlike φ b o (touchTimes h p atime mtime) (touchTimes h p atime mtime) := by
  rw [touchTimes, touchTimes]
  split_ifs
  · exact transfers_pure rfl
  · exact (alike_device (alike_touch p _ _)).bind fun _ => alike_setCache _

end Procedures

def Reply.result : Reply → Result Errno Reply
  | .error e => .error (.error e)
  | reply => .ok reply

/-- A reply under the first options can be rendered as the reply under the second. -/
structure Renders (b o : FsOptions) (g : Reply → Reply) : Prop where
  error : ∀ e, g (.error e) = .error e
  attr : ∀ i m, g (.attr b.attrTimeout (b.metaToAttr i m)) = .attr o.attrTimeout (o.metaToAttr i m)
  entry : ∀ i m, g (.entry b.entryTimeout (b.metaToAttr i m) 0) =
    .entry o.entryTimeout (o.metaToAttr i m) 0
  negative : b.negativeTimeout ≠ 0 → g (.entry b.negativeTimeout NEGATIVE_ENTRY 0) =
    if o.negativeTimeout ≠ 0 then .entry o.negativeTimeout NEGATIVE_ENTRY 0 else .error .enoent
  silent : b.negativeTimeout = 0 → o.negativeTimeout = 0
  created : ∀ i m fh, g (.created b.entryTimeout (b.metaToAttr i m) 0 fh b.fileOpenFlags) =
    .created o.entryTimeout (o.metaToAttr i m) 0 fh o.fileOpenFlags
  opened : ∀ fh, g (.opened fh b.fileOpenFlags) = .opened fh o.fileOpenFlags
  openedDir : ∀ fh, g (.opened fh .none) = .opened fh .none
  ok : g .ok = .ok
  data : ∀ bytes, g (.data bytes) = .data bytes
  text : ∀ target, g (.text target) = .text target
  written : ∀ n, g (.written n) = .written n
  directory : ∀ entries, g (.directory entries) = .directory entries

section Handlers

variable [Libc] {b o : FsOptions} {g : Reply → Reply} {h : Host} {i : ℕ}

abbrev RepliesAlike (φ : DeviceMap τ τ') (b o : FsOptions) (g : Reply → Reply)
    (x : FsM τ Errno Reply) (y : FsM τ' Errno Reply) : Prop :=
  Transfers (fun w => w.opts = b) (AdbFs.remount φ o) (fun reply => (g reply).result) x y

omit [Libc] in
lemma replies_pure {r r' : Reply} (h : g r = r') (hr : r'.result = .ok r') :
    RepliesAlike φ b o g (pure r) (pure r') :=
  transfers_pure (by rw [h, hr])

lemma Renders.getattr (hg : Renders b o g) :
    RepliesAlike φ b o g (AdbFs.getattr h i) (AdbFs.getattr h i) := by
  apply (alike_getPath i).bind
  intro p
  apply ((alike_fetchMeta p).mapError _).bind
  intro m
  apply transfers_read
  rintro w rfl
  exact replies_pure (hg.attr i m) rfl

lemma Renders.lookup (hg : Renders b o g) (name : Bytes) :
    RepliesAlike φ b o g (AdbFs.lookup h i name) (AdbFs.lookup h i name) := by
  apply (alike_getPath i).bind
  intro p
  apply transfers_read
  rintro w rfl
  apply Transfers.bind (alike_fetchMeta _).attempt
  intro r
  rcases r with e | m
  · cases e with
    | notFound q =>
      by_cases hneg : w.opts.negativeTimeout = 0
      · have hneg' : (w.remount φ o).opts.negativeTimeout = 0 := hg.silent hneg
        simp only [hneg, hneg', ne_eq, not_true_eq_false, if_false]
        exact transfers_fail _
      · have hrender := hg.negative hneg
        simp only [ne_eq, hneg, not_false_eq_true, if_true]
        change Transfers _ _ _ _ (if o.negativeTimeout ≠ 0 then
          pure (Reply.entry o.negativeTimeout NEGATIVE_ENTRY 0) else Action.fail Errno.enoent)
        split_ifs at hrender ⊢
        · exact replies_pure hrender rfl
        · exact transfers_pure_fail (by rw [hrender]; rfl)
    | _ => exact transfers_fail _
  · apply (alike_getOrAssignIno _).bind
    intro j
    exact replies_pure (hg.entry j m) rfl

lemma Renders.opendir (hg : Renders b o g) :
    RepliesAlike φ b o g (AdbFs.opendir h i) (AdbFs.opendir h i) := by
  apply (alike_getPath i).bind
  intro p
  apply (alike_device (alike_listDir p)).bind
  intro entries
  apply (alike_listEntries p entries).bind
  intro children
  apply alike_takeFh.bind
  intro fh
  apply (alike_setDirs fun dirs => dirs.insert fh
    (⟨i, .directory, ['.']⟩ :: ⟨i, .directory, ['.', '.']⟩ :: children)).bind
  exact fun _ => replies_pure (hg.openedDir fh) rfl

omit [Libc] in
lemma Renders.open (hg : Renders b o g) :
    RepliesAlike φ b o g (AdbFs.open h i) (AdbFs.open h i) := by
  apply (alike_getPath i).bind
  intro p
  apply (alike_acquireCopy i p _).bind
  intro id
  apply Transfers.bind (alike_outcome _).attempt
  intro r
  rcases r with e | -
  · exact (alike_releaseCopy i id).bind fun _ => transfers_fail e
  · apply (alike_addHandle i id).bind
    intro fh
    apply transfers_read
    rintro w rfl
    exact replies_pure (hg.opened fh) rfl

lemma Renders.newEntry (hg : Renders b o g) (p : Text) :
    RepliesAlike φ b o g (do
      let fileMeta ← device (getMetadata p)
      let ino ← getOrAssignIno p
      cacheInsert p (some fileMeta) h.now
      let w ← Action.read
      pure (.entry w.opts.entryTimeout (w.opts.metaToAttr ino fileMeta) 0)) (do
      let fileMeta ← device (getMetadata p)
      let ino ← getOrAssignIno p
      cacheInsert p (some fileMeta) h.now
      let w ← Action.read
      pure (.entry w.opts.entryTimeout (w.opts.metaToAttr ino fileMeta) 0)) := by
  apply (alike_device (alike_getMetadata p)).bind
  intro m
  apply (alike_getOrAssignIno p).bind
  intro j
  apply (alike_setCache _).bind
  intro _
  apply transfers_read
  rintro w rfl
  exact replies_pure (hg.entry j m) rfl

lemma Renders.setattr (hg : Renders b o g) (size : Option ℕ) (atime mtime : Option TimeOrNow) :
    RepliesAlike φ b o g (AdbFs.setattr h i size atime mtime)
      (AdbFs.setattr h i size atime mtime) := by
  apply (alike_getPath i).bind
  intro p
  have hresize : FsAlike φ b o (resize h i p size) (resize h i p size) := by
    cases size with
    | none => exact transfers_pure rfl
    | some n => exact alike_truncate i p n
  apply hresize.bind
  intro _
  apply (alike_touchTimes p atime mtime).bind
  intro _
  apply (alike_device (alike_getMetadata p)).bind
  intro m
  apply (alike_setCache _).bind
  intro _
  apply transfers_read
  rintro w rfl
  exact replies_pure (hg.attr i m) rfl

lemma Renders.create (hg : Renders b o g) (name : Bytes) :
    RepliesAlike φ b o g (AdbFs.create h i name) (AdbFs.create h i name) := by
  apply (alike_getPath i).bind
  intro p
  apply (alike_getOrAssignIno _).bind
  intro j
  apply (alike_acquireCopy j _ _).bind
  intro id
  have hcreated : FsAlike φ b o (createOnDevice h j id (childPath p name))
      (createOnDevice h j id (childPath p name)) :=
    (alike_outcome _).bind fun _ => (alike_pushIfDirty j id).bind fun _ =>
      alike_device (alike_getMetadata _)
  apply Transfers.bind hcreated.attempt
  intro r
  rcases r with e | m
  · exact (alike_releaseCopy j id).bind fun _ => transfers_fail e
  · apply (alike_setCache _).bind
    intro _
    apply (alike_addHandle j id).bind
    intro fh
    apply transfers_read
    rintro w rfl
    exact replies_pure (hg.created j m fh) rfl

omit [Libc] in
lemma Renders.release (hg : Renders b o g) (fh : ℕ) :
    RepliesAlike φ b o g (AdbFs.release h fh) (AdbFs.release h fh) := by
  apply transfers_read
  intro w _
  simp only [remount_files]
  cases w.files.openFiles.lookup fh with
  | none => exact replies_pure hg.ok rfl
  | some f =>
    exact (alike_onFiles _).bind fun _ => (alike_releaseCopy _ _).bind fun _ => replies_pure hg.ok rfl

lemma Renders.handle (hg : Renders b o g) (request : Request) :
    RepliesAlike φ b o g (AdbFs.handle h request) (AdbFs.handle h request) := by
  cases request with
  | getattr ino => exact hg.getattr
  | lookup parent name => exact hg.lookup name
  | opendir ino => exact hg.opendir
  | readdir fh offset =>
    exact transfers_read fun w _ => (alike_ofOption _ _).bind fun _ =>
      replies_pure (hg.directory _) rfl
  | releasedir fh =>
    exact (alike_setDirs (AList.erase fh)).bind fun _ => replies_pure hg.ok rfl
  | «open» ino => exact hg.open
  | read fh offset size =>
    exact (alike_handleOf fh).bind fun entry => (alike_outcome _).bind fun _ =>
      transfers_read fun _ _ => replies_pure (hg.data _) rfl
  | write fh offset data =>
    exact (alike_handleOf fh).bind fun entry => (alike_ofExcept _).bind fun _ =>
      (alike_onFiles _).bind fun _ => replies_pure (hg.written _) rfl
  | flush fh =>
    exact (alike_handleOf fh).bind fun entry => (alike_pushIfDirty _ _).bind fun _ =>
      replies_pure hg.ok rfl
  | release fh => exact hg.release fh
  | access ino => exact replies_pure hg.ok rfl
  | mkdir parent name =>
    exact (alike_getPath parent).bind fun p => (alike_device (alike_runMutation _)).bind fun _ =>
      (alike_setCache _).bind fun _ => hg.newEntry _
  | unlink parent name =>
    exact (alike_getPath parent).bind fun p => (alike_device (alike_rm _)).bind fun _ =>
      (alike_setCache _).bind fun _ => replies_pure hg.ok rfl
  | rmdir parent name =>
    exact (alike_getPath parent).bind fun p => (alike_device (alike_rmdir _)).bind fun _ =>
      (alike_setCache _).bind fun _ => replies_pure hg.ok rfl
  | rename parent name newparent newname flags =>
    exact (alike_getPath parent).bind fun p => (alike_getPath newparent).bind fun q =>
      (alike_device (alike_mv _ _)).bind fun _ =>
        (alike_setInodes _).bind fun _ => (alike_setCache _).bind fun _ =>
          (alike_setCache _).bind fun _ => replies_pure hg.ok rfl
  | setattr ino size atime mtime fh => exact hg.setattr size atime mtime
  | readlink ino =>
    exact (alike_getPath ino).bind fun p => ((alike_fetchMeta p).mapError _).bind fun m =>
      (alike_device (alike_ofOption _ _)).bind fun _ => replies_pure (hg.text _) rfl
  | create parent name => exact hg.create name
  | mknod parent name mode =>
    exact (alike_getPath parent).bind fun p => (alike_outcome _).bind fun _ =>
      (alike_outcome _).bind fun _ => (alike_device (alike_pushAndSync _ _ _)).bind fun _ =>
        (alike_setCache _).bind fun _ => hg.newEntry _

lemma Renders.serve (hg : Renders b o g) (request : Request) {w : AdbFs τ} (hw : w.opts = b) :
    (AdbFs.serve h request w).2.opts = b ∧ AdbFs.serve h request (w.remount φ o) =
      ((AdbFs.serve h request w).1.map g, (AdbFs.serve h request w).2.remount φ o) := by
  have hrun : RepliesAlike φ b o g (AdbFs.handle h request) (AdbFs.handle h request) :=
    hg.handle request
  have hkept := hrun.keeps w hw
  have hsame := hrun.apply w hw
  rcases hresult : AdbFs.handle h request w with ⟨(e | _) | reply, w'⟩
  · rw [hresult] at hkept hsame
    have hserve : AdbFs.serve h request w = (some (.error e), w') := by
      simp only [AdbFs.serve, hresult]
    rw [hserve]
    refine ⟨hkept, ?_⟩
    simp only [AdbFs.serve, hsame, Except.bind, Option.map_some, hg.error]
  · rw [hresult] at hkept hsame
    have hserve : AdbFs.serve h request w = (none, w') := by
      simp only [AdbFs.serve, hresult]
    rw [hserve]
    refine ⟨hkept, ?_⟩
    simp only [AdbFs.serve, hsame, Except.bind, Option.map_none]
  · rw [hresult] at hkept hsame
    have hserve : AdbFs.serve h request w = (some reply, w') := by
      simp only [AdbFs.serve, hresult]
    rw [hserve]
    refine ⟨hkept, ?_⟩
    cases hg' : g reply <;>
      simp only [AdbFs.serve, hsame, Except.bind, hg', Reply.result, Option.map_some]

end Handlers

section Runs

variable [Libc] {b o : FsOptions} {g : Reply → Reply} {w : AdbFs τ} {w' : AdbFs τ'} {c : Call}

def Call.rendered (g : Reply → Reply) (c : Call) : Call := { c with reply := c.reply.map g }

lemma Renders.serves (hg : Renders b o g) {u : AdbFs τ} (hw : w.opts = b) (hs : Serves w c u) :
    u.opts = b ∧ Serves (w.remount φ o) (c.rendered g) (u.remount φ o) := by
  obtain ⟨hopts, hserve⟩ := hg.serve (φ := φ) (h := c.host) c.request hw
  rw [Serves] at hs
  rw [hs] at hopts hserve
  exact ⟨hopts, hserve⟩

lemma Renders.exists_serves (hg : Renders b o g) (hw : w.opts = b)
    (hs : Serves (w.remount φ o) c w') :
    ∃ a u, Serves w a u ∧ u.opts = b ∧ a.rendered g = c ∧ u.remount φ o = w' := by
  obtain ⟨hopts, hserve⟩ := hg.serve (φ := φ) (h := c.host) c.request hw
  rw [Serves, hserve, Prod.mk.injEq] at hs
  refine ⟨⟨c.request, c.host, (AdbFs.serve c.host c.request w).1⟩, _, rfl, hopts, ?_, hs.2⟩
  rw [Call.rendered, hs.1]

/-- The runs over the one device with the one options are the runs over the other with the other,
each state carried over and each reply rendered. -/
lemma Renders.runs (hg : Renders b o g) (φ : DeviceMap τ τ') (ops : DeviceOps τ) (cacheTtl : ℕ)
    {l : List (AdbFs τ' × Call × AdbFs τ')} :
    Trace Serves (AdbFs.new (ops.map φ) cacheTtl o) l w' ↔
      ∃ l₀ w₀, Trace Serves (AdbFs.new ops cacheTtl b) l₀ w₀ ∧
        l₀.map (Prod.map (AdbFs.remount φ o) (Prod.map (Call.rendered g) (AdbFs.remount φ o))) = l ∧
        w₀.remount φ o = w' := by
  have hnew : (AdbFs.new ops cacheTtl b).remount φ o = AdbFs.new (ops.map φ) cacheTtl o := rfl
  rw [← hnew]
  constructor
  · exact Trace.exists_of_map (I := fun w : AdbFs τ => w.opts = b) rfl fun _ _ _ hw hs =>
      hg.exists_serves hw hs
  · rintro ⟨l₀, w₀, htrace, rfl, rfl⟩
    exact htrace.map (I := fun w => w.opts = b) rfl fun _ _ _ hw hs => hg.serves hw hs

end Runs

def DeviceMap.refl (τ : Type) [AdbDevice τ] : DeviceMap τ τ where
  toFun d := d
  shell _ := alike_of_apply (fun _ _ => trivial) fun _ _ => rfl
  shellWithStderr _ := alike_of_apply (fun _ _ => trivial) fun _ _ => rfl
  pull _ _ _ := rfl
  push _ _ _ := alike_of_apply (fun _ _ => trivial) fun _ _ => rfl
  syncDevice := alike_of_apply (fun _ _ => trivial) fun _ _ => rfl

def DeviceMap.unaudited (τ : Type) [AdbDevice τ] : DeviceMap (Audited τ) τ where
  toFun := Audited.device
  shell _ := alike_of_apply (fun _ _ => trivial) fun _ _ => rfl
  shellWithStderr _ := alike_of_apply (fun _ _ => trivial) fun _ _ => rfl
  pull _ _ _ := rfl
  push _ _ _ := alike_of_apply (fun _ _ => trivial) fun _ _ => rfl
  syncDevice := alike_of_apply (fun _ _ => trivial) fun _ _ => rfl

lemma renders_refl (o : FsOptions) : Renders o o id where
  error _ := rfl
  attr _ _ := rfl
  entry _ _ := rfl
  negative h := (if_pos h).symm
  silent h := h
  created _ _ _ := rfl
  opened _ := rfl
  openedDir _ := rfl
  ok := rfl
  data _ := rfl
  text _ := rfl
  written _ := rfl
  directory _ := rfl

/-- Options under which a reply tells everything. -/
def FsOptions.telling : FsOptions := { negativeTimeout := 1, directIo := true }

def FsOptions.dress (o : FsOptions) (a : FileAttr) : FileAttr :=
  { a with
    perm := match o.umask with
      | some mask => 0o777 &&& (mask ^^^ (2 ^ 32 - 1))
      | none => a.perm
    uid := o.uid.getD a.uid
    gid := o.gid.getD a.gid }

def FsOptions.shown (o : FsOptions) : Reply → Reply
  | .attr _ a => .attr o.attrTimeout (o.dress a)
  | .entry _ a generation =>
    if a ≠ NEGATIVE_ENTRY then .entry o.entryTimeout (o.dress a) generation
    else if o.negativeTimeout ≠ 0 then .entry o.negativeTimeout a generation
    else .error .enoent
  | .created _ a generation fh _ =>
    .created o.entryTimeout (o.dress a) generation fh o.fileOpenFlags
  | .opened fh flags => .opened fh (if flags = .none then .none else o.fileOpenFlags)
  | reply => reply

lemma masked_type (mode mask : ℕ) :
    ((mode &&& S_IFMT) ||| (0o777 &&& mask)) &&& S_IFMT = mode &&& S_IFMT := by
  have hnone : 0o777 &&& S_IFMT = 0 := by decide
  rw [Nat.and_comm 0o777 mask, Nat.and_or_distrib_right, Nat.and_assoc, Nat.and_self,
    Nat.and_assoc, hnone, Nat.and_zero, Nat.or_zero]

lemma masked_perm (mode mask : ℕ) :
    ((mode &&& S_IFMT) ||| (0o777 &&& mask)) &&& 0o7777 = 0o777 &&& mask := by
  have hnone : S_IFMT &&& 0o7777 = 0 := by decide
  have hall : 0o777 &&& 0o7777 = 0o777 := by decide
  rw [Nat.and_comm 0o777 mask, Nat.and_or_distrib_right, Nat.and_assoc, hnone, Nat.and_zero,
    Nat.zero_or, Nat.and_assoc, hall]

lemma dress_metaToAttr (o : FsOptions) (i : ℕ) (m : FileMeta) :
    o.dress (FsOptions.telling.metaToAttr i m) = o.metaToAttr i m := by
  cases hmask : o.umask with
  | none => simp [FsOptions.dress, FsOptions.metaToAttr, FsOptions.applyOwnership, hmask,
      FsOptions.telling]
  | some mask =>
    have hkind : ∀ x, modeToFiletype ((m.mode &&& S_IFMT) ||| (0o777 &&& x)) =
        modeToFiletype m.mode := by
      intro x
      rw [modeToFiletype, modeToFiletype, masked_type]
    simp [FsOptions.dress, FsOptions.metaToAttr, FsOptions.applyOwnership, hmask,
      FsOptions.telling, hkind, masked_perm]

lemma metaToAttr_ne (o : FsOptions) (i : ℕ) (m : FileMeta) : o.metaToAttr i m ≠ NEGATIVE_ENTRY := by
  intro h
  have hblksize := congrArg FileAttr.blksize h
  simp [FsOptions.metaToAttr, NEGATIVE_ENTRY] at hblksize

lemma renders_shown (o : FsOptions) : Renders .telling o o.shown where
  error _ := rfl
  attr i m := by rw [FsOptions.shown, dress_metaToAttr]
  entry i m := by rw [FsOptions.shown, if_pos (metaToAttr_ne _ i m), dress_metaToAttr]
  negative _ := by simp [FsOptions.shown]
  silent h := by simp [FsOptions.telling] at h
  created i m fh := by rw [FsOptions.shown, dress_metaToAttr]
  opened fh := by simp [FsOptions.shown, FsOptions.fileOpenFlags, FsOptions.telling, FopenFlags.none]
  openedDir fh := by simp [FsOptions.shown]
  ok := rfl
  data _ := rfl
  text _ := rfl
  written _ := rfl
  directory _ := rfl

def AdbFs.mountedWith (o : FsOptions) (w : AdbFs τ) : AdbFs τ := { w with opts := o }

/-- On any device: a run under some mount options is the run under the options that tell
everything, each reply shown as the options have it. -/
theorem mount_options_only_present [Libc] (ops : DeviceOps τ) (cacheTtl : ℕ) (o : FsOptions)
    (l : List (AdbFs τ × Call × AdbFs τ)) (w : AdbFs τ) :
    Trace Serves (AdbFs.new ops cacheTtl o) l w ↔
      ∃ l₀ w₀, Trace Serves (AdbFs.new ops cacheTtl .telling) l₀ w₀ ∧
        l = l₀.map (fun x => (x.1.mountedWith o, x.2.1.rendered o.shown, x.2.2.mountedWith o)) ∧
        w = w₀.mountedWith o := by
  have hruns : Trace Serves (AdbFs.new ops cacheTtl o) l w ↔ _ :=
    (renders_shown o).runs (DeviceMap.refl τ) ops cacheTtl
  constructor
  · intro htrace
    obtain ⟨l₀, w₀, htrace₀, hl, hw⟩ := hruns.mp htrace
    exact ⟨l₀, w₀, htrace₀, hl.symm, hw.symm⟩
  · rintro ⟨l₀, w₀, htrace₀, rfl, rfl⟩
    exact hruns.mpr ⟨l₀, w₀, htrace₀, rfl, rfl⟩

def DeviceOps.audited (ops : DeviceOps τ) : DeviceOps (Audited τ) :=
  ⟨⟨ops.adb, []⟩, ops.touchGnuMode, ops.rescan⟩

/-- What is proved of the exchanges with a recorded device is about every run over the device itself:
its requests are served over the recorded device with the same replies. -/
theorem exists_audited [Libc] {ops : DeviceOps τ} {cacheTtl : ℕ} {o : FsOptions}
    {l : List (AdbFs τ × Call × AdbFs τ)} {w : AdbFs τ}
    (htrace : Trace Serves (AdbFs.new ops cacheTtl o) l w) :
    ∃ l₀ w₀, Trace Serves (AdbFs.new ops.audited cacheTtl o) l₀ w₀ ∧
      l₀.map (fun x => x.2.1) = l.map (fun x => x.2.1) ∧
      w₀.remount (DeviceMap.unaudited τ) o = w := by
  have hruns : Trace Serves (AdbFs.new ops cacheTtl o) l w ↔ _ :=
    (renders_refl o).runs (DeviceMap.unaudited τ) ops.audited cacheTtl
  obtain ⟨l₀, w₀, htrace₀, rfl, hw⟩ := hruns.mp htrace
  refine ⟨l₀, w₀, htrace₀, ?_, hw⟩
  rw [List.map_map]
  refine List.map_congr_left fun x _ => ?_
  simp [Call.rendered]

end Adbfs
