import Adbfs.Answers
import Adbfs.NameSlices

namespace Adbfs

open Library Library.Action

section Blame

variable [Libc]

/-- A printed line on which the parsers panic, or an operation that panics itself. -/
def Exchange.Illegible : Exchange → Prop
  | .shellWithStderr command (.ok output) => (∃ p, command = lsMetadataCmd p) ∧
    ∃ line rest, metadataLines output = line :: rest ∧ ¬ permissionErrSuffix <:+ line ∧
      parseLsLine line = none
  | .shell command (.ok lines) => (∃ dir, command = lsDirCmd dir) ∧ listLines lines = none
  | .shell _ (.error e) | .shellWithStderr _ (.error e) | .push _ _ _ (.error e) | .sync (.error e) =>
    e = .panic
  | _ => False

section Operations

variable {τ α β : Type} {s : DeviceOps (Audited τ)} {p cmd : Text}

abbrev OpsBlame (x : OpsM (Audited τ) α) (s : DeviceOps (Audited τ)) : Prop :=
  Blames (fun s => s.adb.log) Exchange.Illegible x s

lemma blames_note {f : Result AdbError α → Exchange} {x : Action τ AdbError α}
    (hok : ∀ a, ¬ (f (.ok a)).Illegible) (herror : ∀ e, (f (.error e)).Illegible ↔ e = .panic) :
    OpsBlame (DeviceOps.transport (Audited.note f x)) s := by
  apply ends_note.mpr
  apply ends_of_apply
  · exact fun a d _ => ⟨[_], rfl, by simpa using hok a⟩
  · exact fun e d _ => ⟨[_], rfl, by cases e <;> simp [Abort.map, herror]⟩

omit [Libc] in
lemma ne_lsMetadataCmd {cs : List Command} (hcmd : readCommands cmd = some cs)
    (hcs : ∀ p, cs ≠ [.stat p]) : ∀ p, cmd ≠ lsMetadataCmd p := by
  rintro p rfl
  rw [readCommands_lsMetadataCmd] at hcmd
  exact hcs p (Option.some.inj hcmd).symm

omit [Libc] in
lemma ne_lsDirCmd {cs : List Command} (hcmd : readCommands cmd = some cs)
    (hcs : ∀ p, cs ≠ [.list p]) : ∀ p, cmd ≠ lsDirCmd p := by
  rintro p rfl
  rw [readCommands_lsDirCmd] at hcmd
  exact hcs p (Option.some.inj hcmd).symm

lemma blames_whenRescan {x : OpsM (Audited τ) Unit} (hx : ∀ s, OpsBlame x s) :
    OpsBlame (whenRescan x) s := by
  apply blames_read.bind
  intro s' t
  split_ifs
  · exact hx t
  · exact blames_pure _

variable [AdbDevice τ]

lemma blames_shell (hcmd : ∀ p, cmd ≠ lsDirCmd p) :
    OpsBlame (DeviceOps.transport (AdbDevice.shell cmd) : OpsM (Audited τ) (List Text)) s :=
  blames_note (f := .shell cmd) (fun _ ⟨⟨p, hp⟩, _⟩ => hcmd p hp) fun _ => Iff.rfl

lemma blames_shellWithStderr (hcmd : ∀ p, cmd ≠ lsMetadataCmd p) :
    OpsBlame (DeviceOps.transport (AdbDevice.shellWithStderr cmd) : OpsM (Audited τ) ShellOutput) s :=
  blames_note (f := .shellWithStderr cmd) (fun _ ⟨⟨p, hp⟩, _⟩ => hcmd p hp) fun _ => Iff.rfl

lemma blames_pushAndSync (here : LocalPath) (contents : Option Bytes) (p : Text) :
    OpsBlame (pushAndSync here contents p : OpsM (Audited τ) Unit) s :=
  Blames.bind (blames_note (f := .push here contents p) (fun _ h => h) fun _ => Iff.rfl) fun _ _ =>
    blames_note (f := .sync) (fun _ h => h) fun _ => Iff.rfl

lemma blames_runMutation (hcmd : ∀ p, cmd ≠ lsMetadataCmd p) :
    OpsBlame (runMutation cmd : OpsM (Audited τ) Unit) s := by
  apply (blames_shellWithStderr hcmd).bind
  intro output t
  split
  · exact blames_fail _
  · split_ifs
    · exact blames_fail _
    · exact blames_pure _

lemma blames_rescanFile (p : Text) : OpsBlame (rescanFile p : OpsM (Audited τ) Unit) s :=
  (blames_shell (ne_lsDirCmd (readCommands_rescanFileCmd p) (by simp))).bind fun _ _ =>
    blames_pure _

lemma blames_rescanDirRemoved (p : Text) :
    OpsBlame (rescanDirRemoved p : OpsM (Audited τ) Unit) s :=
  (blames_shell (ne_lsDirCmd (readCommands_rescanDirRemovedCmd p) (by simp))).bind fun _ _ =>
    blames_pure _

lemma blames_mkdir (p : Text) : OpsBlame (mkdir p : OpsM (Audited τ) Unit) s :=
  blames_runMutation (ne_lsMetadataCmd (readCommands_mkdirCmd p) (by simp))

lemma blames_rm (p : Text) : OpsBlame (rm p : OpsM (Audited τ) Unit) s :=
  (blames_runMutation (ne_lsMetadataCmd (readCommands_rmCmd p) (by simp))).bind fun _ _ =>
    blames_whenRescan fun _ => blames_rescanFile p

lemma blames_rmdir (p : Text) : OpsBlame (rmdir p : OpsM (Audited τ) Unit) s :=
  (blames_runMutation (ne_lsMetadataCmd (readCommands_rmdirCmd p) (by simp))).bind fun _ _ =>
    blames_whenRescan fun _ => blames_rescanDirRemoved p

lemma blames_mv (p q : Text) : OpsBlame (mv p q : OpsM (Audited τ) Unit) s :=
  (blames_runMutation (ne_lsMetadataCmd (readCommands_mvCmd p q) (by simp))).bind fun _ _ =>
    blames_whenRescan fun _ => (blames_rescanFile p).bind fun _ _ => blames_rescanFile q

omit [Libc] in
lemma ne_touch {gnu : Bool} {atime mtime : Option SystemTime}
    (hparts : touchParts p atime mtime gnu ≠ []) (q : Text) :
    List.intercalate " && ".toList (touchParts p atime mtime gnu) ≠ lsMetadataCmd q := by
  refine ne_lsMetadataCmd (readCommands_touch p gnu hparts) (fun q hq => ?_) q
  have hmem : Command.stat q ∈ List.replicate (touchParts p atime mtime gnu).length (.touch p) := by
    rw [hq]
    exact List.mem_singleton_self _
  exact absurd (List.eq_of_mem_replicate hmem) (by simp)

lemma blames_touchRound {gnu : Bool} {atime mtime : Option SystemTime}
    {retry : OpsM (Audited τ) Unit} (hretry : ∀ s, OpsBlame retry s) :
    OpsBlame (touchRound gnu p atime mtime retry) s := by
  by_cases hparts : touchParts p atime mtime gnu = []
  · rw [touchRound, if_pos hparts]
    exact blames_pure _
  · rw [touchRound, if_neg hparts]
    apply (blames_shellWithStderr (ne_touch hparts)).bind
    intro output t
    split
    · split_ifs
      · exact blames_fail _
      · exact (blames_update rfl).bind fun _ _ => hretry _
      · exact blames_fail _
    · exact blames_whenRescan fun _ => blames_rescanFile p

lemma blames_touch (p : Text) (atime mtime : Option SystemTime) :
    OpsBlame (touch p atime mtime : OpsM (Audited τ) Unit) s :=
  blames_read.bind fun _ _ => blames_touchRound fun _ => blames_touchRound fun _ => blames_fail _

lemma blames_getMetadata (p : Text) : OpsBlame (getMetadata p : OpsM (Audited τ) FileMeta) s := by
  apply ends_bind.mpr
  apply ends_note.mpr
  apply ends_of_apply
  · intro output d _
    cases hlines : metadataLines output with
    | nil => exact ⟨[_], rfl, by simp [Exchange.Illegible, hlines]⟩
    | cons line rest =>
      rw [decodeMetadata]
      split_ifs with hdenied
      · exact ⟨[_], rfl, by simp [Exchange.Illegible, hlines, hdenied]⟩
      · cases hparsed : parseLsLine line with
        | none => exact ⟨[_], rfl, by simp [Exchange.Illegible, hlines, hdenied, hparsed]⟩
        | some parsed =>
          cases parsed with
          | none => exact ⟨[_], rfl, by simp [Exchange.Illegible, hlines, hparsed]⟩
          | some m => exact ⟨[_], rfl, by simp [Exchange.Illegible, hlines, hparsed]⟩
  · exact fun e d _ => ⟨[_], rfl, by cases e <;> simp [Abort.map, Exchange.Illegible]⟩

lemma blames_listDir (dir : Text) :
    OpsBlame (listDir dir : OpsM (Audited τ) (List (Text × Option FileMeta))) s := by
  apply ends_bind.mpr
  apply ends_note.mpr
  apply ends_of_apply
  · intro lines d _
    cases hlisted : listLines lines with
    | none => exact ⟨[_], rfl, by simp [Exchange.Illegible, hlisted]⟩
    | some entries => exact ⟨[_], rfl, by simp [Exchange.Illegible, hlisted]⟩
  · exact fun e d _ => ⟨[_], rfl, by cases e <;> simp [Abort.map, Exchange.Illegible]⟩

end Operations

section Procedures

variable {τ α β : Type} {w w' : AdbFs (Audited τ)} {p : Text} {i id fh : ℕ} {spare : ℕ → ℕ}
  {c : Copy} {h : Host}

abbrev FsBlame {ε : Type} (x : FsM (Audited τ) ε α) (w : AdbFs (Audited τ)) : Prop :=
  Blames AdbFs.log Exchange.Illegible x w

lemma blames_onDevice {x : OpsM (Audited τ) α} (hx : OpsBlame x w.ops) : FsBlame (onDevice x) w :=
  blames_zoom rfl (fun _ => rfl) hx

lemma blames_device {x : OpsM (Audited τ) α} (hx : OpsBlame x w.ops) : FsBlame (device x) w :=
  (blames_onDevice hx).mapError

lemma blames_getPath (i : ℕ) : FsBlame (getPath i : FsM (Audited τ) Errno Text) w :=
  blames_read.bind fun _ _ => blames_ofOption _ _

lemma blames_path {f : Text → FsM (Audited τ) Errno α}
    (hf : ∀ p, w.inodes.getPath i = some p → FsBlame (f p) w) : FsBlame (getPath i >>= f) w :=
  ends_getPath.mpr ⟨hf, fun _ => .of_eq rfl (by simp)⟩

lemma blames_handleOf (fh : ℕ) : FsBlame (handleOf fh : FsM (Audited τ) Errno OpenFile) w :=
  blames_read.bind fun _ _ => blames_ofOption _ _

lemma blames_outcome (r : Option Errno) : FsBlame (outcome r : FsM (Audited τ) Errno Unit) w := by
  cases r
  · exact blames_pure _
  · exact blames_fail _

lemma blames_cache {ε : Type} (f : MetadataCache → MetadataCache) :
    FsBlame (update (AdbFs.setCache f) : FsM (Audited τ) ε Unit) w := blames_update rfl

lemma blames_onFiles (f : Files → Files) : FsBlame (onFiles f : FsM (Audited τ) Errno Unit) w :=
  blames_update rfl

lemma blames_getOrAssignIno (p : Text) : FsBlame (getOrAssignIno p : FsM (Audited τ) Errno ℕ) w :=
  blames_lift rfl

lemma blames_addHandle (i id : ℕ) : FsBlame (addHandle i id : FsM (Audited τ) Errno ℕ) w :=
  (blames_lift rfl).bind fun _ _ => (blames_onFiles _).bind fun _ _ => blames_pure _

lemma blames_listEntries (dir : Text) (entries : List (Text × Option FileMeta))
    (w : AdbFs (Audited τ)) :
    FsBlame (listEntries h dir entries : FsM (Audited τ) Errno (List DirEntry)) w := by
  induction entries generalizing w with
  | nil => exact blames_pure _
  | cons entry entries ih =>
    have hlisted : ∀ q v, FsBlame (cacheListed q entry.2 h.now : FsM (Audited τ) Errno Unit) v := by
      intro q v
      cases entry.2 with
      | none => exact blames_pure _
      | some m => exact blames_cache _
    have hentry : FsBlame (listEntry h dir entry : FsM (Audited τ) Errno (List DirEntry)) w := by
      rw [listEntry]
      split_ifs
      · exact blames_pure _
      · exact (blames_getOrAssignIno _).bind fun _ _ => (hlisted _ _).bind fun _ _ => blames_pure _
    exact hentry.bind fun _ _ => (ih _).bind fun _ _ => blames_pure _

lemma blames_of_sameOps {x : FsM (Audited τ) Errno α} (hx : Keeps SameOps x)
    (hpanic : Ends x w (fun _ _ => True) fun r _ => r ≠ .panic) : FsBlame x w := by
  have hlog : ∀ t, SameOps w t → t.log = w.log := fun t ht => by rw [AdbFs.log, ht]; rfl
  apply blames_of_same
  apply ((hx.ends w).and hpanic).imp
  · exact fun _ t ht => hlog t ht.1
  · exact fun _ t ht => ⟨ht.2, hlog t ht.1⟩

lemma blames_releaseCopy (hw : w.Wired (Files.more id spare))
    (hi : w.files.openCopies.lookup i = some id) :
    FsBlame (releaseCopy h i id : FsM (Audited τ) Errno Unit) w :=
  blames_of_sameOps (sameOps_releaseCopy i id)
    ((releaseCopy_ends hw hi).imp (fun _ _ _ => trivial) fun _ _ => False.elim)

variable [AdbDevice τ]

lemma blames_fetchMeta (p : Text) :
    FsBlame (fetchMeta h p : FsM (Audited τ) DeviceError FileMeta) w := by
  apply Blames.bind
  · exact blames_lift rfl
  rintro (_ | _ | m) v
  · apply (blames_onDevice (blames_getMetadata p)).attempt.bind
    rintro (e | m) u
    · cases e with
      | notFound q => exact (blames_cache _).bind fun _ _ => blames_fail _
      | _ => exact blames_fail _
    · exact (blames_cache _).bind fun _ _ => blames_pure _
  · exact blames_fail _
  · exact blames_pure _

lemma blames_pushIfDirty (i id : ℕ) :
    FsBlame (pushIfDirty i id : FsM (Audited τ) Errno Unit) w := by
  apply blames_read.bind
  intro u v
  split_ifs
  · apply (blames_onFiles _).bind
    intro _ t
    split
    · exact (blames_onFiles _).bind fun _ _ => blames_fail _
    · apply (blames_device (blames_pushAndSync _ _ _)).attempt.bind
      rintro (e | _) x
      · exact (blames_onFiles _).bind fun _ _ => blames_fail _
      · exact blames_cache _
  · exact blames_pure _

lemma blames_touchTimes (p : Text) (atime mtime : Option TimeOrNow) :
    FsBlame (touchTimes h p atime mtime : FsM (Audited τ) Errno Unit) w := by
  rw [touchTimes]
  split_ifs
  · exact blames_pure _
  · exact (blames_device (blames_touch p _ _)).bind fun _ _ => blames_cache _

lemma blames_newEntry (p : Text) (f : FileMeta → ℕ → AdbFs (Audited τ) → Reply) :
    FsBlame (device (getMetadata p) >>= fun m => getOrAssignIno p >>= fun ino =>
      cacheInsert p (some m) h.now >>= fun _ => read >>= fun w => pure (f m ino w)) w :=
  (blames_device (blames_getMetadata p)).bind fun _ _ => (blames_getOrAssignIno p).bind fun _ _ =>
    (blames_cache _).bind fun _ _ => blames_read.bind fun _ _ => blames_pure _

lemma blames_acquireCopy (hw : w.Wired spare) (i : ℕ) (p : Text) (init : CopyInit) :
    FsBlame (acquireCopy h i p init : FsM (Audited τ) Errno ℕ) w := by
  have hsame : ∀ {P : List Exchange → Prop} {u : AdbFs (Audited τ)}, u.ops = w.ops → P [] →
      Adds AdbFs.log P w u := fun {P u} hops hP => .of_eq (by rw [AdbFs.log, hops]; rfl) hP
  have hpulled : ∀ {P : List Exchange → Prop} {u : AdbFs (Audited τ)},
      u.ops = { w.ops with adb := (w.pulled p i).2 } →
        P [.pull p (w.files.tmpDir i) (AdbDevice.pull p (w.files.tmpDir i) w.ops.adb.device).1] →
          Adds AdbFs.log P w u := fun {P u} hops hP => ⟨_, by rw [AdbFs.log, hops]; rfl, hP⟩
  apply (acquireCopy_ends hw i p init).imp
  · rintro k w' ⟨c, -, hacquires⟩
    cases hacquires with
    | empty _ hops => exact hsame hops (by simp)
    | live _ hops => exact hsame hops (by simp)
    | pull _ _ hops => exact hpulled hops (by simp [Exchange.Illegible])
  · rintro e w' ⟨he, -, hrefuses⟩
    cases hrefuses with
    | empty _ hops => exact hsame hops (by simpa using he)
    | pull _ _ hops => exact hpulled hops (by simpa [Exchange.Illegible] using he)

lemma blames_holding {x : ℕ → FsM (Audited τ) Errno α} {g : ℕ → Except Errno α → FsM (Audited τ) Errno β}
    (hw : w.Wired spare) (p : Text) (init : CopyInit) (hx : ∀ id u, FsBlame (x id) u)
    (hholds : ∀ id u c, Holds (Files.more id spare) w u i id c → Acquires h p i w u init c →
      Ends (x id) u (fun _ t => ∃ c, Holds (Files.more id spare) w t i id c)
        fun r t => r ≠ .panic → ∃ c, Holds (Files.more id spare) w t i id c)
    (hg : ∀ id r t c, Holds (Files.more id spare) w t i id c → FsBlame (g id r) t) :
    FsBlame (acquireCopy h i p init >>= fun id => attempt (x id) >>= g id) w := by
  apply (blames_acquireCopy hw i p init).bindPost
    ((acquireCopy_ends hw i p init).imp (fun _ _ hP => hP) fun _ _ _ => trivial)
  rintro id u ⟨c, hheld, hacquires⟩
  have hattempt : Ends (attempt (x id) : FsM (Audited τ) Errno (Except Errno α)) u
      (fun _ t => ∃ c, Holds (Files.more id spare) w t i id c) fun _ _ => True := by
    apply ends_attempt.mpr
    apply (hholds id u c hheld hacquires).imp
    · exact fun _ _ ht => ht
    · rintro (e | _) t ht
      · exact ht (by simp)
      · trivial
  apply (hx id u).attempt.bindPost hattempt
  rintro r t ⟨c', hkept⟩
  exact hg id r t c' hkept

lemma blames_open (hw : w.Wired spare) : FsBlame (AdbFs.open h i : FsM (Audited τ) Errno Reply) w := by
  apply blames_path
  intro p _
  apply blames_holding (x := fun _ => outcome h.openFile) hw p .pull (fun _ _ => blames_outcome _)
  · intro id u c hheld _
    apply ends_outcome.mpr
    exact ⟨fun _ => ⟨c, hheld⟩, fun _ _ _ => ⟨c, hheld⟩⟩
  · rintro id (e | _) t c hkept
    · exact (blames_releaseCopy hkept.wired hkept.lookup).bind fun _ _ => blames_fail _
    · exact (blames_addHandle i id).bind fun _ _ => blames_read.bind fun _ _ => blames_pure _

lemma blames_truncate (n : ℕ) (hw : w.Wired spare) :
    FsBlame (truncate h i p n : FsM (Audited τ) Errno Unit) w := by
  have htruncate : ∀ id u, FsBlame (truncateCopy h i id n : FsM (Audited τ) Errno Unit) u :=
    fun id u => (blames_outcome _).bind fun _ _ => (blames_outcome _).bind fun _ _ =>
      (blames_onFiles _).bind fun _ _ => blames_pushIfDirty i id
  apply blames_holding hw p _ htruncate
  · intro id u c hheld _
    apply (ends_truncateCopy h n hheld.wired hheld.lookup hheld.copies_eq).imp
    · exact fun _ t ht => ⟨_, hheld.trans ht.1⟩
    · rintro e t ⟨⟨c', hkept, -⟩, -⟩ _
      exact ⟨_, hheld.trans hkept⟩
  · exact fun id r t c hkept => (blames_releaseCopy hkept.wired hkept.lookup).bind fun _ _ =>
      blames_ofExcept _

lemma blames_create (parent : ℕ) (name : Bytes) (hw : w.Wired spare) :
    FsBlame (AdbFs.create h parent name : FsM (Audited τ) Errno Reply) w := by
  apply blames_path
  intro dir _
  have hassigned : (w.assigned (childPath dir name)).Wired spare := ⟨hw.files, hw.fresh⟩
  apply (blames_getOrAssignIno _).bindPost (P := fun _ u => u = w.assigned (childPath dir name))
    (ends_lift.mpr rfl)
  rintro i _ rfl
  have hcreate : ∀ id u,
      FsBlame (createOnDevice h i id (childPath dir name) : FsM (Audited τ) Errno FileMeta) u :=
    fun id u => (blames_outcome _).bind fun _ _ => (blames_pushIfDirty i id).bind fun _ _ =>
      blames_device (blames_getMetadata _)
  apply blames_holding hassigned _ .empty hcreate
  · intro id u c hheld hacquires
    have hdirty : c.dirty = true := by
      cases hacquires with
      | empty => rfl
    apply (ends_createOnDevice h hheld.wired hheld.lookup hheld.copies_eq hdirty).imp
    · exact fun _ t ht => ⟨_, hheld.trans ht.1⟩
    · rintro e t ⟨⟨dirty, hkept, -⟩, -⟩ _
      exact ⟨_, hheld.trans hkept⟩
  · rintro id (e | m) t c hkept
    · exact (blames_releaseCopy hkept.wired hkept.lookup).bind fun _ _ => blames_fail _
    · exact (blames_cache _).bind fun _ _ => (blames_addHandle i id).bind fun _ _ =>
        blames_read.bind fun _ _ => blames_pure _

lemma blames_setattr (size : Option ℕ) (atime mtime : Option TimeOrNow) (hw : w.Wired spare) :
    FsBlame (AdbFs.setattr h i size atime mtime : FsM (Audited τ) Errno Reply) w := by
  apply blames_path
  intro p _
  apply Blames.bind
  · cases size with
    | none => exact blames_pure _
    | some n => exact blames_truncate n hw
  · exact fun _ _ => (blames_touchTimes p atime mtime).bind fun _ _ =>
      (blames_device (blames_getMetadata p)).bind fun _ _ => (blames_cache _).bind fun _ _ =>
        blames_read.bind fun _ _ => blames_pure _

lemma blames_lookup (parent : ℕ) (name : Bytes) :
    FsBlame (AdbFs.lookup h parent name : FsM (Audited τ) Errno Reply) w := by
  apply (blames_getPath parent).bind
  intro dir u
  apply blames_read.bind
  intro v t
  apply (blames_fetchMeta _).attempt.bind
  rintro (e | m) x
  · cases e with
    | notFound q =>
      dsimp only
      split_ifs
      · exact blames_pure _
      · exact blames_fail _
    | _ => exact blames_fail _
  · exact (blames_getOrAssignIno _).bind fun _ _ => blames_pure _

lemma blames_rename (parent : ℕ) (name : Bytes) (newparent : ℕ) (newname : Bytes) :
    FsBlame (AdbFs.rename h parent name newparent newname : FsM (Audited τ) Errno Reply) w :=
  (blames_getPath parent).bind fun _ _ => (blames_getPath newparent).bind fun _ _ =>
    (blames_device (blames_mv _ _)).bind fun _ _ => (blames_update rfl).bind fun _ _ =>
      (blames_cache _).bind fun _ _ => (blames_cache _).bind fun _ _ => blames_pure _

lemma blames_mknod (parent : ℕ) (name : Bytes) (mode : ℕ) :
    FsBlame (AdbFs.mknod h parent name mode : FsM (Audited τ) Errno Reply) w :=
  (blames_getPath parent).bind fun _ _ => (blames_outcome _).bind fun _ _ =>
    (blames_outcome _).bind fun _ _ => (blames_device (blames_pushAndSync _ _ _)).bind fun _ _ =>
      (blames_cache _).bind fun _ _ => blames_newEntry _ _

lemma handle_blames (request : Request) (hw : w.Wired spare) :
    FsBlame (AdbFs.handle h request) w := by
  cases request with
  | getattr ino =>
    exact (blames_getPath ino).bind fun _ _ => (blames_fetchMeta _).mapError.bind fun _ _ =>
      blames_read.bind fun _ _ => blames_pure _
  | lookup parent name => exact blames_lookup parent name
  | opendir ino =>
    exact (blames_getPath ino).bind fun _ _ => (blames_device (blames_listDir _)).bind fun _ _ =>
      (blames_listEntries _ _ _).bind fun _ _ => (blames_lift rfl).bind fun _ _ =>
        (blames_update rfl).bind fun _ _ => blames_pure _
  | readdir fh offset =>
    exact blames_read.bind fun _ _ => (blames_ofOption _ _).bind fun _ _ => blames_pure _
  | releasedir fh => exact (blames_update rfl).bind fun _ _ => blames_pure _
  | «open» ino => exact blames_open hw
  | read fh offset size =>
    exact (blames_handleOf fh).bind fun _ _ => (blames_outcome _).bind fun _ _ =>
      blames_read.bind fun _ _ => blames_pure _
  | write fh offset data =>
    exact (blames_handleOf fh).bind fun _ _ => (blames_ofExcept _).bind fun _ _ =>
      (blames_onFiles _).bind fun _ _ => blames_pure _
  | flush fh =>
    exact (blames_handleOf fh).bind fun _ _ => (blames_pushIfDirty _ _).bind fun _ _ =>
      blames_pure _
  | release fh =>
    exact blames_of_sameOps sameOps_release
      ((release_ends h hw).imp (fun _ _ _ => trivial) fun _ _ => False.elim)
  | access ino => exact blames_pure _
  | mkdir parent name =>
    exact (blames_getPath parent).bind fun _ _ => (blames_device (blames_mkdir _)).bind fun _ _ =>
      (blames_cache _).bind fun _ _ => blames_newEntry _ _
  | unlink parent name =>
    exact (blames_getPath parent).bind fun _ _ => (blames_device (blames_rm _)).bind fun _ _ =>
      (blames_cache _).bind fun _ _ => blames_pure _
  | rmdir parent name =>
    exact (blames_getPath parent).bind fun _ _ => (blames_device (blames_rmdir _)).bind fun _ _ =>
      (blames_cache _).bind fun _ _ => blames_pure _
  | rename parent name newparent newname flags => exact blames_rename parent name newparent newname
  | setattr ino size atime mtime fh => exact blames_setattr size atime mtime hw
  | readlink ino =>
    exact (blames_getPath ino).bind fun _ _ => (blames_fetchMeta _).mapError.bind fun _ _ =>
      (blames_device (blames_ofOption _ _)).bind fun _ _ => blames_pure _
  | create parent name => exact blames_create parent name hw
  | mknod parent name mode => exact blames_mknod parent name mode

end Procedures

section Runs

variable {τ : Type} [AdbDevice τ] {ops : DeviceOps (Audited τ)} {cacheTtl : ℕ} {opts : FsOptions}
  {w : AdbFs (Audited τ)}

/-- After any run, on any device: the handler of a request panics if and only if one of the answers it
is given is illegible. -/
theorem panics_iff_illegible (hrun : Run Serves Always (AdbFs.new ops cacheTtl opts) w) (h : Host)
    (request : Request) :
    ∃ part, (AdbFs.handle h request w).2.log = w.log ++ part ∧
      ((AdbFs.handle h request w).1 = .error .panic ↔ ∃ e ∈ part, e.Illegible) := by
  obtain ⟨spare, hw⟩ := linked_of_run hrun
  have hblames := handle_blames (h := h) request hw
  rcases hresult : AdbFs.handle h request w with ⟨(e | _) | reply, w'⟩
  · obtain ⟨part, hpart, hiff⟩ := hblames.of_error hresult
    exact ⟨part, hpart, by simpa using hiff⟩
  · obtain ⟨part, hpart, hiff⟩ := hblames.of_error hresult
    exact ⟨part, hpart, by simpa using hiff⟩
  · obtain ⟨part, hpart, hclear⟩ := hblames.of_ok hresult
    exact ⟨part, hpart, by simpa using hclear⟩

end Runs

end Blame

section Plain

attribute [local instance] plainLibc

def accentedFs : AdbFs (Audited MockAdb) :=
  AdbFs.new ⟨⟨MockAdb.new [MockAdb.out [accentedMessage]], []⟩, true, false⟩ (30 * 10 ^ 9) {}

theorem panics_iff_illegible_of_opendir :
    (AdbFs.handle (plainHost 0 0 0) (.opendir 1) accentedFs).1 = .error .panic ∧
      ∃ part, (AdbFs.handle (plainHost 0 0 0) (.opendir 1) accentedFs).2.log = [] ++ part ∧
        ∃ e ∈ part, e.Illegible := by
  have hpanic : (AdbFs.handle (plainHost 0 0 0) (.opendir 1) accentedFs).1 = .error .panic := by
    decide +kernel
  obtain ⟨part, hpart, hiff⟩ := panics_iff_illegible (w := accentedFs) .refl (plainHost 0 0 0)
    (.opendir 1)
  exact ⟨hpanic, part, hpart, hiff.mp hpanic⟩

end Plain

end Adbfs
