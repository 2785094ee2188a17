import Adbfs.Handlers
import Adbfs.Library.Outcome

namespace Adbfs

open Library Library.Paths Library.Action

lemma serve_snd {τ : Type} [AdbDevice τ] [Libc] (h : Host) (request : Request) (w : AdbFs τ) :
    (AdbFs.serve h request w).2 = (AdbFs.handle h request w).2 := by
  rw [AdbFs.serve]
  split
  · next heq => rw [heq]
  · next heq => rw [heq]
  · next heq => rw [heq]

section Outcomes

variable {τ α : Type} {w : AdbFs τ} {Q : α → AdbFs τ → Prop} {E : Abort Errno → AdbFs τ → Prop}

lemma ends_onDevice {x : OpsM τ α} {E : Abort DeviceError → AdbFs τ → Prop} :
    Ends (onDevice x) w Q E ↔
      Ends x w.ops (fun a s => Q a (w.setOps s)) fun e s => E e (w.setOps s) :=
  ends_zoom

lemma ends_device {x : OpsM τ α} :
    Ends (device x) w Q E ↔
      Ends x w.ops (fun a s => Q a (w.setOps s)) fun e s =>
        E (e.map DeviceError.toErrno) (w.setOps s) :=
  ends_mapError.trans ends_zoom

lemma ends_getPath {f : Text → FsM τ Errno α} {ino : ℕ} :
    Ends (getPath ino >>= f) w Q E ↔ (∀ p, w.inodes.getPath ino = some p → Ends (f p) w Q E) ∧
      (w.inodes.getPath ino = none → E (.error .enoent) w) := by
  rw [ends_bind]
  exact ends_ofOption

end Outcomes

section Frame

variable {τ : Type}

/-- The relation holds where the cache and the inodes stay and the device at most sends a file. -/
class Frame [AdbDevice τ] (R : AdbFs τ → AdbFs τ → Prop) : Prop extends
    Std.Refl R, IsTrans (AdbFs τ) R where
  same : ∀ w w', w'.ops = w.ops → w'.cache = w.cache → w'.inodes = w.inodes → R w w'
  pull : ∀ p here w w', w'.ops = { w.ops with adb := (AdbDevice.pull p here w.ops.adb).2 } →
    w'.cache = w.cache → w'.inodes = w.inodes → R w w'

variable {R : AdbFs τ → AdbFs τ → Prop} (h : Host)

section Reads

variable [Std.Refl R]

lemma keeps_getPath (ino : ℕ) : Keeps R (getPath ino : FsM τ Errno Text) := by
  constructor
  intro w
  cases hp : w.inodes.getPath ino with
  | none =>
    have hget : (getPath ino : FsM τ Errno Text) w = (.error (.error .enoent), w) := by
      simp [getPath, hp]
    rw [hget]
    exact Std.Refl.refl w
  | some p =>
    have hget : (getPath ino : FsM τ Errno Text) w = (.ok p, w) := by
      simp [getPath, hp]
    rw [hget]
    exact Std.Refl.refl w

lemma keeps_outcome (r : Option Errno) : Keeps R (outcome r : FsM τ Errno Unit) := by
  cases r
  · exact keeps_pure _
  · exact keeps_fail _

variable [IsTrans (AdbFs τ) R]

lemma keeps_handleOf (fh : ℕ) : Keeps R (handleOf fh : FsM τ Errno OpenFile) :=
  keeps_read.bind fun _ => keeps_ofOption _ _

lemma keeps_readdir (fh offset : ℕ) : Keeps R (AdbFs.readdir h fh offset : FsM τ Errno Reply) :=
  keeps_read.bind fun _ => (keeps_ofOption _ _).bind fun _ => keeps_pure _

lemma keeps_readFile (fh offset size : ℕ) :
    Keeps R (AdbFs.read h fh offset size : FsM τ Errno Reply) :=
  (keeps_handleOf fh).bind fun _ => (keeps_outcome _).bind fun _ => keeps_read.bind fun _ =>
    keeps_pure _

end Reads

variable [AdbDevice τ] [Frame R]

lemma keeps_onFiles (f : Files → Files) : Keeps R (onFiles f : FsM τ Errno Unit) :=
  keeps_update fun w => Frame.same w _ rfl rfl rfl

lemma keeps_takeFh : Keeps R (takeFh : FsM τ Errno ℕ) :=
  keeps_lift fun w => Frame.same w _ rfl rfl rfl

lemma keeps_addHandle (ino id : ℕ) : Keeps R (addHandle ino id : FsM τ Errno ℕ) :=
  keeps_takeFh.bind fun _ => (keeps_onFiles _).bind fun _ => keeps_pure _

lemma keeps_populate (p : Text) (id : ℕ) (init : CopyInit) :
    Keeps R (populate h p id init : FsM τ Errno Unit) := by
  apply keeps_read.bind
  intro w
  cases init with
  | empty =>
    exact (keeps_outcome _).bind fun _ => (keeps_onFiles _).bind fun _ => keeps_onFiles _
  | pull =>
    dsimp only
    split_ifs
    · exact keeps_pure _
    · exact ⟨fun v => Frame.pull p _ v _ rfl rfl rfl⟩

lemma keeps_acquireCopy (ino : ℕ) (p : Text) (init : CopyInit) :
    Keeps R (acquireCopy h ino p init : FsM τ Errno ℕ) := by
  have hentry : Keeps R (lift fun w : AdbFs τ =>
      ((w.files.entryOrInsert ino).1, w.setFiles fun t => (t.entryOrInsert ino).2) :
        FsM τ Errno ℕ) := keeps_lift fun w => Frame.same w _ rfl rfl rfl
  apply hentry.bind
  intro id
  apply keeps_read.bind
  intro w
  split_ifs
  · exact keeps_crash
  · apply (keeps_populate h p id init).attempt.bind
    rintro (e | _)
    · exact (keeps_onFiles _).bind fun _ => keeps_fail _
    · exact (keeps_onFiles _).bind fun _ => keeps_pure _

lemma keeps_releaseCopy (ino id : ℕ) : Keeps R (releaseCopy h ino id : FsM τ Errno Unit) := by
  apply keeps_read.bind
  intro w
  split_ifs
  · exact keeps_crash
  · exact keeps_onFiles _

lemma keeps_open (ino : ℕ) : Keeps R (AdbFs.open h ino : FsM τ Errno Reply) := by
  apply (keeps_getPath ino).bind
  intro p
  apply (keeps_acquireCopy h ino p .pull).bind
  intro id
  apply (keeps_outcome h.openFile).attempt.bind
  rintro (e | _)
  · exact (keeps_releaseCopy h ino id).bind fun _ => keeps_fail _
  · exact (keeps_addHandle ino id).bind fun _ => keeps_read.bind fun _ => keeps_pure _

lemma keeps_release (fh : ℕ) : Keeps R (AdbFs.release h fh : FsM τ Errno Reply) := by
  apply keeps_read.bind
  intro w
  split
  · exact (keeps_onFiles _).bind fun _ => (keeps_releaseCopy h _ _).bind fun _ =>
      keeps_pure _
  · exact keeps_pure _

lemma keeps_write (fh offset : ℕ) (data : Bytes) :
    Keeps R (AdbFs.write h fh offset data : FsM τ Errno Reply) :=
  (keeps_handleOf fh).bind fun _ => (keeps_ofExcept _).bind fun _ =>
    (keeps_onFiles _).bind fun _ => keeps_pure _

lemma keeps_truncateCopy {ino id : ℕ} (size : ℕ)
    (hpush : Keeps R (pushIfDirty ino id : FsM τ Errno Unit)) :
    Keeps R (truncateCopy h ino id size : FsM τ Errno Unit) :=
  (keeps_outcome _).bind fun _ => (keeps_outcome _).bind fun _ => (keeps_onFiles _).bind
    fun _ => hpush

lemma keeps_resize {ino : ℕ} (p : Text) (size : Option ℕ)
    (hpush : ∀ id, Keeps R (pushIfDirty ino id : FsM τ Errno Unit)) :
    Keeps R (resize h ino p size : FsM τ Errno Unit) := by
  cases size with
  | none => exact keeps_pure _
  | some n =>
    apply (keeps_acquireCopy h ino p _).bind
    intro id
    exact (keeps_truncateCopy h n (hpush id)).attempt.bind fun _ =>
      (keeps_releaseCopy h ino id).bind fun _ => keeps_ofExcept _

end Frame

def Kept {σ : Type} (I : σ → Prop) (s t : σ) : Prop := I s → I t

instance {σ : Type} (I : σ → Prop) : Std.Refl (Kept I) := ⟨fun _ h => h⟩

instance {σ : Type} (I : σ → Prop) : IsTrans σ (Kept I) := ⟨fun _ _ _ h h' hs => h' (h hs)⟩

section Device

variable {τ : Type} [AdbDevice τ] [Libc]

/-- What no operation of the device ends, and what then holds of the names it lists. -/
class DeviceInvariant (D : τ → Prop) : Prop where
  shell : ∀ cmd, Keeps (Kept D) (AdbDevice.shell cmd)
  shellWithStderr : ∀ cmd, Keeps (Kept D) (AdbDevice.shellWithStderr cmd)
  pull : ∀ p here d, D d → D (AdbDevice.pull p here d).2
  push : ∀ here contents p, Keeps (Kept D) (AdbDevice.push here contents p)
  syncDevice : Keeps (Kept D) AdbDevice.syncDevice
  names : ∀ p d lines d', D d → AdbDevice.shell (lsDirCmd p) d = (.ok lines, d') →
    ∀ entries, listLines lines = some entries → ∀ e ∈ entries, IsName e.1

def OnAdb (D : τ → Prop) (s : DeviceOps τ) : Prop := D s.adb

variable {D : τ → Prop}

omit [AdbDevice τ] [Libc] in
lemma keeps_transport {α : Type} {x : Action τ AdbError α} {R : τ → τ → Prop}
    {S : DeviceOps τ → DeviceOps τ → Prop} (hS : ∀ s d, R s.adb d → S s { s with adb := d })
    (hx : Keeps R x) : Keeps S (DeviceOps.transport x) :=
  keeps_zoom fun s => hS s _ (hx.mapError.holds s.adb)

omit [AdbDevice τ] [Libc] in
lemma kept_transport {α : Type} {x : Action τ AdbError α} (hx : Keeps (Kept D) x) :
    Keeps (Kept (OnAdb D)) (DeviceOps.transport x) :=
  keeps_transport (fun _ _ h => h) hx

omit [AdbDevice τ] [Libc] in
lemma kept_whenRescan {x : OpsM τ Unit} (hx : Keeps (Kept (OnAdb D)) x) :
    Keeps (Kept (OnAdb D)) (whenRescan x) := by
  apply keeps_read.bind
  intro s
  split_ifs
  · exact hx
  · exact keeps_pure _

variable [DeviceInvariant D]

lemma kept_getMetadata (p : Text) : Keeps (Kept (OnAdb D)) (getMetadata p) := by
  apply (kept_transport (DeviceInvariant.shellWithStderr _)).bind
  intro output
  cases metadataLines output with
  | nil => exact keeps_fail _
  | cons first rest =>
    rw [decodeMetadata]
    split_ifs
    · exact keeps_fail _
    · exact (keeps_orCrash _).bind fun _ => keeps_ofOption _ _

lemma kept_listDir (p : Text) : Keeps (Kept (OnAdb D)) (listDir p) :=
  (kept_transport (DeviceInvariant.shell _)).bind fun _ => keeps_orCrash _

lemma kept_runMutation (cmd : Text) : Keeps (Kept (OnAdb D)) (runMutation cmd) := by
  apply (kept_transport (DeviceInvariant.shellWithStderr _)).bind
  intro output
  split
  · exact keeps_fail _
  · split_ifs
    · exact keeps_fail _
    · exact keeps_pure _

lemma kept_rescanFile (p : Text) : Keeps (Kept (OnAdb D)) (rescanFile p) :=
  (kept_transport (DeviceInvariant.shell _)).bind fun _ => keeps_pure _

lemma kept_rescanDirRemoved (p : Text) : Keeps (Kept (OnAdb D)) (rescanDirRemoved p) :=
  (kept_transport (DeviceInvariant.shell _)).bind fun _ => keeps_pure _

lemma kept_touchRound {gnu : Bool} {p : Text} {atime mtime : Option SystemTime}
    {retry : OpsM τ Unit} (hretry : Keeps (Kept (OnAdb D)) retry) :
    Keeps (Kept (OnAdb D)) (touchRound gnu p atime mtime retry) := by
  by_cases hparts : touchParts p atime mtime gnu = []
  · rw [touchRound, if_pos hparts]
    exact keeps_pure _
  · rw [touchRound, if_neg hparts]
    apply (kept_transport (DeviceInvariant.shellWithStderr _)).bind
    intro output
    split
    · split_ifs
      · exact keeps_fail _
      · have hmode : Keeps (Kept (OnAdb D)) (update fun s => { s with touchGnuMode := false } :
            OpsM τ Unit) := keeps_update fun _ h => h
        exact hmode.bind fun _ => hretry
      · exact keeps_fail _
    · exact kept_whenRescan (kept_rescanFile p)

lemma kept_touch (p : Text) (atime mtime : Option SystemTime) :
    Keeps (Kept (OnAdb D)) (touch p atime mtime) :=
  keeps_read.bind fun _ => kept_touchRound (kept_touchRound (keeps_fail _))

lemma kept_rm (p : Text) : Keeps (Kept (OnAdb D)) (rm p) :=
  (kept_runMutation _).bind fun _ => kept_whenRescan (kept_rescanFile p)

lemma kept_rmdir (p : Text) : Keeps (Kept (OnAdb D)) (rmdir p) :=
  (kept_runMutation _).bind fun _ => kept_whenRescan (kept_rescanDirRemoved p)

lemma kept_mv (source target : Text) : Keeps (Kept (OnAdb D)) (mv source target) :=
  (kept_runMutation _).bind fun _ => kept_whenRescan
    ((kept_rescanFile source).bind fun _ => kept_rescanFile target)

lemma kept_pushAndSync (here : LocalPath) (contents : Option Bytes) (p : Text) :
    Keeps (Kept (OnAdb D)) (pushAndSync here contents p) :=
  (kept_transport (DeviceInvariant.push _ _ _)).bind fun _ =>
    kept_transport DeviceInvariant.syncDevice

end Device

/-- The inode maps are well formed, and the device has its invariant. -/
structure Sound {τ : Type} (D : τ → Prop) (w : AdbFs τ) : Prop where
  wf : w.inodes.WF
  device : D w.ops.adb

def Grows {τ : Type} (D : τ → Prop) (w w' : AdbFs τ) : Prop :=
  Sound D w → Sound D w' ∧ ∀ i p, w.inodes.getPath i = some p → w'.inodes.getPath i = some p

section Grows

variable {τ : Type} {D : τ → Prop} (h : Host)

lemma grows_of_same {w w' : AdbFs τ} (hdevice : D w.ops.adb → D w'.ops.adb)
    (hinodes : w'.inodes = w.inodes) : Grows D w w' :=
  fun h => ⟨⟨hinodes ▸ h.wf, hdevice h.device⟩, fun _ _ hi => hinodes ▸ hi⟩

instance : Std.Refl (Grows D) := ⟨fun _ h => ⟨h, fun _ _ hi => hi⟩⟩

instance : IsTrans (AdbFs τ) (Grows D) where
  trans _ _ _ h h' hs := ⟨(h' (h hs).1).1, fun i p hi => (h' (h hs).1).2 i p ((h hs).2 i p hi)⟩

lemma grows_setCache {ε : Type} (f : MetadataCache → MetadataCache) :
    Keeps (Grows D) (update (AdbFs.setCache f) : FsM τ ε Unit) :=
  keeps_update fun _ => grows_of_same id rfl

lemma grows_onDevice {α : Type} {x : OpsM τ α} (hx : Keeps (Kept (OnAdb D)) x) :
    Keeps (Grows D) (onDevice x) :=
  keeps_zoom fun w => grows_of_same (hx.holds w.ops) rfl

lemma grows_device {α : Type} {x : OpsM τ α} (hx : Keeps (Kept (OnAdb D)) x) :
    Keeps (Grows D) (device x) := (grows_onDevice hx).mapError

lemma Inodes.getPath_getOrAssignIno {t : Inodes} (h : t.WF) (p : Text) {i : ℕ} {q : Text}
    (hi : t.getPath i = some q) : (t.getOrAssignIno p).2.getPath i = some q := by
  cases hl : t.pathToIno.lookup p with
  | some ino => rwa [Inodes.getOrAssignIno_of_some hl]
  | none =>
    rw [Inodes.getOrAssignIno_of_none hl]
    change (t.inoToPath.insert t.nextIno p).lookup i = some q
    rw [Table.lookup_insert_eq, if_neg (h.bounded i q hi).ne]
    exact hi

lemma Inodes.WF.getPath_assigned {t : Inodes} (h : t.WF) {p : Text} :
    (t.getOrAssignIno p).2.getPath (t.getOrAssignIno p).1 = some p := by
  cases hl : t.pathToIno.lookup p with
  | some i =>
    rw [Inodes.getOrAssignIno_of_some hl]
    exact (h.inverse p i).mp hl
  | none =>
    rw [Inodes.getOrAssignIno_of_none hl]
    exact AList.lookup_insert _

lemma grows_getOrAssignIno {p : Text} (hp : Canonical p) :
    Keeps (Grows D) (getOrAssignIno p : FsM τ Errno ℕ) :=
  keeps_lift fun _ h => ⟨⟨h.wf.getOrAssignIno hp, h.device⟩,
    fun _ _ hi => Inodes.getPath_getOrAssignIno h.wf p hi⟩

lemma grows_bind {ε α β : Type} {x : FsM τ ε α} {f : α → FsM τ ε β} {P : α → Prop}
    (hx : Keeps (Grows D) x) (hP : ∀ w, Sound D w → Ends x w (fun a _ => P a) fun _ _ => True)
    (hf : ∀ a, P a → Keeps (Grows D) (f a)) : Keeps (Grows D) (x >>= f) :=
  hx.bind_post (fun _ _ hst hs => hst hs hs) hP hf

lemma grows_getPath_bind {α : Type} {f : Text → FsM τ Errno α} {ino : ℕ}
    (hf : ∀ p, Canonical p → Keeps (Grows D) (f p)) : Keeps (Grows D) (getPath ino >>= f) := by
  apply grows_bind (keeps_getPath ino) _ hf
  intro w hw
  apply ends_bind.mpr
  apply ends_ofOption.mpr
  exact ⟨fun p hp => hw.wf.canonical ino p hp, fun _ => trivial⟩

lemma canonical_childText {dir n : Text} (hdir : Canonical dir) (hn : IsName n) :
    Canonical (childText dir n) := by
  obtain ⟨cs, hcs, rfl⟩ := hdir
  rw [childText_render hcs]
  exact ⟨cs ++ [n], hcs.append (Names.singleton hn), rfl⟩

lemma canonical_childPath {dir : Text} (hdir : Canonical dir) (name : KernelName) :
    Canonical (childPath dir name) := canonical_childText hdir name.2.isName

lemma grows_listEntry {dir : Text} (hdir : Canonical dir) {entry : Text × Option FileMeta}
    (hname : IsName entry.1) :
    Keeps (Grows D) (listEntry h dir entry : FsM τ Errno (List DirEntry)) := by
  rw [listEntry]
  split_ifs
  · exact keeps_pure _
  · apply (grows_getOrAssignIno (canonical_childText hdir hname)).bind
    intro ino
    have hinsert : Keeps (Grows D) (cacheListed (childText dir entry.1) entry.2 h.now :
        FsM τ Errno Unit) := by
      cases entry.2 with
      | none => exact keeps_pure _
      | some m => exact grows_setCache _
    exact hinsert.bind fun _ => keeps_pure _

lemma grows_listEntries {dir : Text} (hdir : Canonical dir)
    (entries : List (Text × Option FileMeta)) (hnames : ∀ e ∈ entries, IsName e.1) :
    Keeps (Grows D) (listEntries h dir entries : FsM τ Errno (List DirEntry)) := by
  induction entries with
  | nil => exact keeps_pure _
  | cons entry entries ih =>
    apply (grows_listEntry h hdir (hnames entry (by simp))).bind
    intro first
    exact (ih fun e he => hnames e (by simp [he])).bind fun _ => keeps_pure _

variable [AdbDevice τ] [Libc] [DeviceInvariant D]

instance : Frame (Grows D) where
  same _ _ hops _ hinodes := grows_of_same (fun h => hops ▸ h) hinodes
  pull p here _ _ hops _ hinodes := grows_of_same
    (fun h => hops ▸ DeviceInvariant.pull p here _ h) hinodes

lemma grows_fetchMeta (p : Text) :
    Keeps (Grows D) (fetchMeta h p : FsM τ DeviceError FileMeta) := by
  have hget : ∀ w : AdbFs τ, Grows D w (w.setCache fun c => (c.get p h.now).2) :=
    fun _ => grows_of_same id rfl
  apply Keeps.bind (keeps_lift hget)
  rintro (_ | _ | m)
  · apply (grows_onDevice (kept_getMetadata p)).attempt.bind
    rintro (e | m)
    · cases e with
      | notFound q => exact (grows_setCache _).bind fun _ => keeps_fail _
      | _ => exact keeps_fail _
    · exact (grows_setCache _).bind fun _ => keeps_pure _
  · exact keeps_fail _
  · exact keeps_pure _

lemma grows_pushIfDirty (ino id : ℕ) :
    Keeps (Grows D) (pushIfDirty ino id : FsM τ Errno Unit) := by
  apply keeps_read.bind
  intro w
  split_ifs
  · apply (keeps_onFiles _).bind
    intro _
    split
    · exact (keeps_onFiles _).bind fun _ => keeps_fail _
    · apply (grows_device (kept_pushAndSync _ _ _)).attempt.bind
      rintro (e | _)
      · exact (keeps_onFiles _).bind fun _ => keeps_fail _
      · exact grows_setCache _
  · exact keeps_pure _

lemma grows_getattr (ino : ℕ) : Keeps (Grows D) (AdbFs.getattr h ino : FsM τ Errno Reply) :=
  (keeps_getPath ino).bind fun _ => (grows_fetchMeta h _).mapError.bind fun _ =>
    keeps_read.bind fun _ => keeps_pure _

lemma grows_lookup (parent : ℕ) (name : KernelName) :
    Keeps (Grows D) (AdbFs.lookup h parent name : FsM τ Errno Reply) := by
  apply grows_getPath_bind
  intro p hp
  apply keeps_read.bind
  intro w
  apply (grows_fetchMeta h _).attempt.bind
  rintro (e | m)
  · cases e with
    | notFound q =>
      dsimp only
      split_ifs
      · exact keeps_pure _
      · exact keeps_fail _
    | _ => exact keeps_fail _
  · exact (grows_getOrAssignIno (canonical_childPath hp name)).bind fun _ => keeps_pure _

lemma listDir_names (p : Text) {w : AdbFs τ} (hw : Sound D w) :
    Ends (device (listDir p)) w (fun entries _ => ∀ e ∈ entries, IsName e.1)
      fun _ _ => True := by
  apply ends_mapError.mpr
  apply ends_zoom.mpr
  apply ends_bind.mpr
  apply ends_zoom.mpr
  apply ends_mapError.mpr
  apply ends_of_apply
  · intro lines d hlines
    apply ends_orCrash.mpr
    exact ⟨DeviceInvariant.names p _ lines d hw.device hlines, fun _ => trivial⟩
  · exact fun _ _ _ => trivial

lemma grows_opendir (ino : ℕ) : Keeps (Grows D) (AdbFs.opendir h ino : FsM τ Errno Reply) := by
  apply grows_getPath_bind
  intro p hp
  apply grows_bind (grows_device (kept_listDir p)) fun w hw => listDir_names p hw
  intro entries hnames
  apply (grows_listEntries h hp entries hnames).bind
  intro children
  apply keeps_takeFh.bind
  intro fh
  refine Keeps.bind (keeps_update ?_) fun _ => keeps_pure _
  exact fun _ => grows_of_same id rfl

lemma grows_newEntry {p : Text} (hp : Canonical p) (f : FileMeta → ℕ → AdbFs τ → Reply) :
    Keeps (Grows D) (device (getMetadata p) >>= fun m => getOrAssignIno p >>= fun ino =>
      cacheInsert p (some m) h.now >>= fun _ => read >>= fun w => pure (f m ino w) :
        FsM τ Errno Reply) :=
  (grows_device (kept_getMetadata p)).bind fun _ => (grows_getOrAssignIno hp).bind fun _ =>
    (grows_setCache _).bind fun _ => keeps_read.bind fun _ => keeps_pure _

lemma grows_mkdir (parent : ℕ) (name : KernelName) :
    Keeps (Grows D) (AdbFs.mkdir h parent name : FsM τ Errno Reply) := by
  apply grows_getPath_bind
  intro p hp
  apply (grows_device (kept_runMutation _)).bind
  intro _
  apply (grows_setCache _).bind
  intro _
  exact grows_newEntry h (canonical_childPath hp name) _

lemma grows_unlink (parent : ℕ) (name : Bytes) :
    Keeps (Grows D) (AdbFs.unlink parent name : FsM τ Errno Reply) :=
  (keeps_getPath parent).bind fun _ => (grows_device (kept_rm _)).bind fun _ =>
    (grows_setCache _).bind fun _ => keeps_pure _

lemma grows_rmdir (parent : ℕ) (name : Bytes) :
    Keeps (Grows D) (AdbFs.rmdir parent name : FsM τ Errno Reply) :=
  (keeps_getPath parent).bind fun _ => (grows_device (kept_rmdir _)).bind fun _ =>
    (grows_setCache _).bind fun _ => keeps_pure _

lemma grows_flush (fh : ℕ) : Keeps (Grows D) (AdbFs.flush fh : FsM τ Errno Reply) :=
  (keeps_handleOf fh).bind fun _ => (grows_pushIfDirty _ _).bind fun _ => keeps_pure _

lemma grows_touchTimes (p : Text) (atime mtime : Option TimeOrNow) :
    Keeps (Grows D) (touchTimes h p atime mtime : FsM τ Errno Unit) := by
  rw [touchTimes]
  split_ifs
  · exact keeps_pure _
  · exact (grows_device (kept_touch _ _ _)).bind fun _ => grows_setCache _

lemma grows_setattr (ino : ℕ) (size : Option ℕ) (atime mtime : Option TimeOrNow) :
    Keeps (Grows D) (AdbFs.setattr h ino size atime mtime : FsM τ Errno Reply) := by
  apply (keeps_getPath ino).bind
  intro p
  apply (keeps_resize h p size fun id => grows_pushIfDirty ino id).bind
  intro _
  apply (grows_touchTimes h p atime mtime).bind
  intro _
  apply (grows_device (kept_getMetadata p)).bind
  intro m
  exact (grows_setCache _).bind fun _ => keeps_read.bind fun _ => keeps_pure _

lemma grows_readlink (ino : ℕ) : Keeps (Grows D) (AdbFs.readlink h ino : FsM τ Errno Reply) := by
  apply (keeps_getPath ino).bind
  intro p
  apply (grows_fetchMeta h p).mapError.bind
  intro m
  exact (grows_device (keeps_ofOption _ _)).bind fun _ => keeps_pure _

lemma grows_create (parent : ℕ) (name : KernelName) :
    Keeps (Grows D) (AdbFs.create h parent name : FsM τ Errno Reply) := by
  apply grows_getPath_bind
  intro dir hdir
  apply (grows_getOrAssignIno (canonical_childPath hdir name)).bind
  intro ino
  apply (keeps_acquireCopy h ino _ .empty).bind
  intro id
  have hdevice : Keeps (Grows D) (createOnDevice h ino id (childPath dir name) :
      FsM τ Errno FileMeta) :=
    (keeps_outcome _).bind fun _ => (grows_pushIfDirty ino id).bind fun _ =>
      grows_device (kept_getMetadata _)
  apply hdevice.attempt.bind
  rintro (e | m)
  · exact (keeps_releaseCopy h ino id).bind fun _ => keeps_fail _
  · exact (grows_setCache _).bind fun _ => (keeps_addHandle ino id).bind fun _ =>
      keeps_read.bind fun _ => keeps_pure _

lemma grows_mknod (parent : ℕ) (name : KernelName) (mode : ℕ) :
    Keeps (Grows D) (AdbFs.mknod h parent name mode : FsM τ Errno Reply) := by
  apply grows_getPath_bind
  intro dir hdir
  apply (keeps_outcome _).bind
  intro _
  apply (keeps_outcome _).bind
  intro _
  apply (grows_device (kept_pushAndSync _ _ _)).bind
  intro _
  apply (grows_setCache _).bind
  intro _
  exact grows_newEntry h (canonical_childPath hdir name) _

def Request.IsRename : Request → Prop
  | .rename _ _ _ _ _ => True
  | _ => False

lemma grows_handle (request : Request) (hrename : ¬ request.IsRename) :
    Keeps (Grows D) (AdbFs.handle h request : FsM τ Errno Reply) := by
  cases request with
  | getattr ino => exact grows_getattr h ino
  | lookup parent name => exact grows_lookup h parent name
  | opendir ino => exact grows_opendir h ino
  | readdir fh offset => exact keeps_readdir h fh offset
  | releasedir fh =>
    refine Keeps.bind (keeps_update ?_) fun _ => keeps_pure _
    exact fun _ => grows_of_same id rfl
  | «open» ino => exact keeps_open h ino
  | read fh offset size => exact keeps_readFile h fh offset size
  | write fh offset data => exact keeps_write h fh offset data
  | flush fh => exact grows_flush fh
  | release fh => exact keeps_release h fh
  | access ino => exact keeps_pure _
  | mkdir parent name => exact grows_mkdir h parent name
  | unlink parent name => exact grows_unlink parent name
  | rmdir parent name => exact grows_rmdir parent name
  | rename parent name newparent newname flags => exact absurd trivial hrename
  | setattr ino size atime mtime fh => exact grows_setattr h ino size atime mtime
  | readlink ino => exact grows_readlink h ino
  | create parent name => exact grows_create h parent name
  | mknod parent name mode => exact grows_mknod h parent name mode

end Grows

section Indifferent

variable {τ α ε : Type}

/-- The relation holds whatever becomes of the device and the cache, and of the inodes by
assignments. -/
class Indifferent (R : AdbFs τ → AdbFs τ → Prop) : Prop extends Std.Refl R, IsTrans (AdbFs τ) R where
  ops : ∀ s w, R w (w.setOps s)
  cache : ∀ f w, R w (w.setCache f)
  assign : ∀ p w, R w (w.setInodes fun t => (t.getOrAssignIno p).2)

variable {R : AdbFs τ → AdbFs τ → Prop} [Indifferent R] (h : Host)

lemma keeps_setCache (f : MetadataCache → MetadataCache) :
    Keeps R (update (AdbFs.setCache f) : FsM τ ε Unit) :=
  keeps_update (Indifferent.cache f)

lemma keeps_onDevice (x : OpsM τ α) : Keeps R (onDevice x) := keeps_zoom fun w => Indifferent.ops _ w

lemma keeps_device (x : OpsM τ α) : Keeps R (device x) := (keeps_onDevice x).mapError

lemma keeps_getOrAssignIno (p : Text) : Keeps R (getOrAssignIno p : FsM τ Errno ℕ) :=
  keeps_lift (Indifferent.assign p)

lemma keeps_listEntries (dir : Text) (entries : List (Text × Option FileMeta)) :
    Keeps R (listEntries h dir entries : FsM τ Errno (List DirEntry)) := by
  induction entries with
  | nil => exact keeps_pure _
  | cons entry entries ih =>
    have hlisted : ∀ q, Keeps R (cacheListed q entry.2 h.now : FsM τ Errno Unit) := by
      intro q
      cases entry.2 with
      | none => exact keeps_pure _
      | some m => exact keeps_setCache _
    have hentry : Keeps R (listEntry h dir entry : FsM τ Errno (List DirEntry)) := by
      rw [listEntry]
      split_ifs
      · exact keeps_pure _
      · exact (keeps_getOrAssignIno _).bind fun _ => (hlisted _).bind fun _ => keeps_pure _
    exact hentry.bind fun _ => ih.bind fun _ => keeps_pure _

variable [AdbDevice τ] [Libc]

lemma keeps_fetchMeta (p : Text) : Keeps R (fetchMeta h p : FsM τ DeviceError FileMeta) := by
  apply Keeps.bind (keeps_lift (Indifferent.cache fun c => (c.get p h.now).2))
  rintro (_ | _ | m)
  · apply (keeps_onDevice (getMetadata p)).attempt.bind
    rintro (e | m)
    · cases e with
      | notFound q => exact (keeps_setCache _).bind fun _ => keeps_fail _
      | _ => exact keeps_fail _
    · exact (keeps_setCache _).bind fun _ => keeps_pure _
  · exact keeps_fail _
  · exact keeps_pure _

lemma keeps_lookup (parent : ℕ) (name : Bytes) :
    Keeps R (AdbFs.lookup h parent name : FsM τ Errno Reply) := by
  apply (keeps_getPath parent).bind
  intro p
  apply keeps_read.bind
  intro w
  apply (keeps_fetchMeta h _).attempt.bind
  rintro (e | m)
  · cases e with
    | notFound q =>
      dsimp only
      split_ifs
      · exact keeps_pure _
      · exact keeps_fail _
    | _ => exact keeps_fail _
  · exact (keeps_getOrAssignIno _).bind fun _ => keeps_pure _

lemma keeps_newEntry (p : Text) (f : FileMeta → ℕ → AdbFs τ → Reply) :
    Keeps R (device (getMetadata p) >>= fun m => getOrAssignIno p >>= fun ino =>
      cacheInsert p (some m) h.now >>= fun _ => read >>= fun w => pure (f m ino w) :
        FsM τ Errno Reply) :=
  (keeps_device _).bind fun _ => (keeps_getOrAssignIno _).bind fun _ =>
    (keeps_setCache _).bind fun _ => keeps_read.bind fun _ => keeps_pure _

end Indifferent

end Adbfs
