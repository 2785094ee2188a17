import Adbfs.Coherence
import Adbfs.OpenFiles
import Adbfs.Paging

namespace Adbfs

open Library Library.Action Files

section Same

variable {τ : Type}

structure SameHandles (w w' : AdbFs τ) : Prop where
  openFiles : w'.files.openFiles = w.files.openFiles
  openDirs : w'.openDirs = w.openDirs
  nextFh : w'.nextFh = w.nextFh

lemma SameHandles.trans {w u v : AdbFs τ} (h : SameHandles w u) (h' : SameHandles u v) :
    SameHandles w v :=
  ⟨h'.openFiles.trans h.openFiles, h'.openDirs.trans h.openDirs, h'.nextFh.trans h.nextFh⟩

instance : Indifferent (@SameHandles τ) where
  refl _ := ⟨rfl, rfl, rfl⟩
  trans _ _ _ h h' := h.trans h'
  ops _ _ := ⟨rfl, rfl, rfl⟩
  cache _ _ := ⟨rfl, rfl, rfl⟩
  assign _ _ := ⟨rfl, rfl, rfl⟩

variable {h : Host}

lemma sameHandles_onFiles (f : Files → Files) (hf : ∀ t, (f t).openFiles = t.openFiles) :
    Keeps SameHandles (onFiles f : FsM τ Errno Unit) :=
  keeps_update fun w => ⟨hf w.files, rfl, rfl⟩

lemma openFiles_evict (i id : ℕ) (t : Files) : (t.evict i id).openFiles = t.openFiles := by
  rw [Files.evict, Files.removeCopy]
  split_ifs <;> rfl

lemma openFiles_entryOrInsert (i : ℕ) (t : Files) :
    (t.entryOrInsert i).2.openFiles = t.openFiles := by
  rw [Files.entryOrInsert]
  split <;> rfl

lemma sameHandles_releaseCopy (i id : ℕ) :
    Keeps SameHandles (releaseCopy h i id : FsM τ Errno Unit) := by
  apply keeps_read.bind
  intro w
  split_ifs
  · exact keeps_crash
  · exact sameHandles_onFiles _ (openFiles_releaseCopy h.remove i id)

variable [AdbDevice τ]

lemma sameHandles_acquireCopy (i : ℕ) (p : Text) (init : CopyInit) :
    Keeps SameHandles (acquireCopy h i p init : FsM τ Errno ℕ) := by
  have hentry : ∀ w : AdbFs τ, SameHandles w (w.setFiles fun t => (t.entryOrInsert i).2) :=
    fun w => ⟨openFiles_entryOrInsert i w.files, rfl, rfl⟩
  apply Keeps.bind (keeps_lift hentry)
  intro id
  apply keeps_read.bind
  intro w
  split_ifs
  · exact keeps_crash
  · have hpopulate : Keeps SameHandles (populate h p id init : FsM τ Errno Unit) := by
      apply keeps_read.bind
      intro u
      cases init with
      | empty =>
        exact (keeps_outcome _).bind fun _ =>
          (sameHandles_onFiles (Files.setLocal _ _) fun _ => rfl).bind fun _ =>
            sameHandles_onFiles (Files.setDirty id true) fun _ => rfl
      | pull =>
        dsimp only
        split_ifs
        · exact keeps_pure _
        · exact ⟨fun _ => ⟨rfl, rfl, rfl⟩⟩
    apply hpopulate.attempt.bind
    rintro (e | _)
    · refine Keeps.bind (sameHandles_onFiles _ fun t => ?_) fun _ => keeps_fail _
      split_ifs
      · exact openFiles_evict i id t
      · rfl
    · exact (sameHandles_onFiles (Files.setCopy id _) fun _ => rfl).bind fun _ => keeps_pure _

lemma sameHandles_pushIfDirty (i id : ℕ) :
    Keeps SameHandles (pushIfDirty i id : FsM τ Errno Unit) := by
  have hdirty : ∀ b, Keeps SameHandles (onFiles (Files.setDirty id b) : FsM τ Errno Unit) :=
    fun b => sameHandles_onFiles (Files.setDirty id b) fun _ => rfl
  apply keeps_read.bind
  intro w
  split_ifs
  · apply (hdirty false).bind
    intro _
    cases w.inodes.getPath i with
    | none => exact (hdirty true).bind fun _ => keeps_fail _
    | some p =>
      apply (keeps_device _).attempt.bind
      rintro (e | _)
      · exact (hdirty true).bind fun _ => keeps_fail _
      · exact keeps_setCache _
  · exact keeps_pure _

lemma sameHandles_touchTimes (p : Text) (atime mtime : Option TimeOrNow) :
    Keeps SameHandles (touchTimes h p atime mtime : FsM τ Errno Unit) := by
  rw [touchTimes]
  split_ifs
  · exact keeps_pure _
  · exact (keeps_device _).bind fun _ => keeps_setCache _

lemma sameHandles_resize (i : ℕ) (p : Text) (size : Option ℕ) :
    Keeps SameHandles (resize h i p size : FsM τ Errno Unit) := by
  cases size with
  | none => exact keeps_pure _
  | some n =>
    apply (sameHandles_acquireCopy i p _).bind
    intro id
    have hcopy : Keeps SameHandles (truncateCopy h i id n : FsM τ Errno Unit) :=
      (keeps_outcome _).bind fun _ => (keeps_outcome _).bind fun _ =>
        (sameHandles_onFiles (Files.truncate id n) fun _ => rfl).bind fun _ =>
          sameHandles_pushIfDirty i id
    exact hcopy.attempt.bind fun _ => (sameHandles_releaseCopy i id).bind fun _ =>
      keeps_ofExcept _

variable [Libc]

/-- The requests that neither give a handle nor take one back. -/
def Request.Bystands : Request → Prop
  | .open _ | .create _ _ | .release _ | .opendir _ | .releasedir _ => False
  | _ => True

lemma sameHandles_handle {request : Request} (hrequest : request.Bystands) :
    Keeps SameHandles (AdbFs.handle h request : FsM τ Errno Reply) := by
  cases request with
  | «open» _ | create _ _ | release _ | opendir _ | releasedir _ => exact hrequest.elim
  | getattr ino =>
    exact (keeps_getPath ino).bind fun _ => (keeps_fetchMeta h _).mapError.bind fun _ =>
      keeps_read.bind fun _ => keeps_pure _
  | lookup parent name => exact keeps_lookup h parent name
  | readdir fh offset => exact keeps_readdir h fh offset
  | read fh offset size => exact keeps_readFile h fh offset size
  | write fh offset data =>
    exact (keeps_handleOf fh).bind fun _ => (keeps_ofExcept _).bind fun _ =>
      (sameHandles_onFiles (Files.write _ offset _) fun _ => rfl).bind fun _ => keeps_pure _
  | flush fh =>
    exact (keeps_handleOf fh).bind fun _ => (sameHandles_pushIfDirty _ _).bind fun _ => keeps_pure _
  | access ino => exact keeps_pure _
  | mkdir parent name =>
    exact (keeps_getPath parent).bind fun _ => (keeps_device _).bind fun _ =>
      (keeps_setCache _).bind fun _ => keeps_newEntry h _ _
  | unlink parent name =>
    exact (keeps_getPath parent).bind fun _ => (keeps_device _).bind fun _ =>
      (keeps_setCache _).bind fun _ => keeps_pure _
  | rmdir parent name =>
    exact (keeps_getPath parent).bind fun _ => (keeps_device _).bind fun _ =>
      (keeps_setCache _).bind fun _ => keeps_pure _
  | rename parent name newparent newname flags =>
    have hrekey : ∀ p q, Keeps SameHandles
        (update (AdbFs.setInodes (Inodes.rekeyPaths h.order p q)) : FsM τ Errno Unit) :=
      fun _ _ => keeps_update fun _ => ⟨rfl, rfl, rfl⟩
    exact (keeps_getPath parent).bind fun _ => (keeps_getPath newparent).bind fun _ =>
      (keeps_device _).bind fun _ => (hrekey _ _).bind fun _ =>
        (keeps_setCache _).bind fun _ => (keeps_setCache _).bind fun _ => keeps_pure _
  | setattr ino size atime mtime fh =>
    exact (keeps_getPath ino).bind fun _ => (sameHandles_resize ino _ size).bind fun _ =>
      (sameHandles_touchTimes _ atime mtime).bind fun _ => (keeps_device _).bind fun _ =>
        (keeps_setCache _).bind fun _ => keeps_read.bind fun _ => keeps_pure _
  | readlink ino =>
    exact (keeps_getPath ino).bind fun _ => (keeps_fetchMeta h _).mapError.bind fun _ =>
      (keeps_device _).bind fun _ => keeps_pure _
  | mknod parent name mode =>
    exact (keeps_getPath parent).bind fun _ => (keeps_outcome _).bind fun _ =>
      (keeps_outcome _).bind fun _ => (keeps_device _).bind fun _ =>
        (keeps_setCache _).bind fun _ => keeps_newEntry h _ _

end Same

/-- The handles that are open: those of files, with their inodes, and those of directories. -/
structure Handles where
  files : ℕ → Option ℕ
  dirs : ℕ → Bool

def Handles.none : Handles := ⟨fun _ => Option.none, fun _ => false⟩

def Handles.giveFile (fh i : ℕ) (t : Handles) : Handles :=
  { t with files := Function.update t.files fh (some i) }

def Handles.takeFile (fh : ℕ) (t : Handles) : Handles :=
  { t with files := Function.update t.files fh Option.none }

def Handles.giveDir (fh : ℕ) (t : Handles) : Handles :=
  { t with dirs := Function.update t.dirs fh true }

def Handles.takeDir (fh : ℕ) (t : Handles) : Handles :=
  { t with dirs := Function.update t.dirs fh false }

def Call.handles (c : Call) (t : Handles) : Handles :=
  match c.request, c.reply with
  | .open ino, some (.opened fh _) => t.giveFile fh ino
  | .create _ _, some (.created _ a _ fh _) => t.giveFile fh a.ino
  | .opendir _, some (.opened fh _) => t.giveDir fh
  | .release fh, _ => t.takeFile fh
  | .releasedir fh, _ => t.takeDir fh
  | _, _ => t

def Call.gives (c : Call) : Option ℕ :=
  match c.request, c.reply with
  | .open _, some (.opened fh _) => some fh
  | .create _ _, some (.created _ _ _ fh _) => some fh
  | .opendir _, some (.opened fh _) => some fh
  | _, _ => none

section Step

variable {τ : Type} {w u w' : AdbFs τ} {h : Host} {i id fh : ℕ} {c : Call}

def AdbFs.handles (w : AdbFs τ) : Handles :=
  ⟨w.shared.handles, fun fh => (w.openDirs.lookup fh).isSome⟩

lemma SameHandles.handles (hsame : SameHandles w w') : w'.handles = w.handles := by
  simp only [AdbFs.handles, AdbFs.shared, Files.shared, hsame.openFiles, hsame.openDirs]

structure Gave (i : ℕ) (w w' : AdbFs τ) : Prop where
  handles : w'.handles = w.handles.giveFile w.nextFh i
  nextFh : w'.nextFh = w.nextFh + 1

lemma addHandle_gives (hsame : SameHandles w u) :
    Ends (addHandle i id : FsM τ Errno ℕ) u (fun fh w' => fh = w.nextFh ∧ Gave i w w')
      fun _ _ => False := by
  apply ends_bind.mpr
  apply ends_lift.mpr
  apply ends_bind.mpr
  apply ends_update.mpr
  apply ends_pure.mpr
  refine ⟨hsame.nextFh, ?_, congrArg (· + 1) hsame.nextFh⟩
  rw [← hsame.handles, ← hsame.nextFh]
  have hfiles : ∀ g, ((u.files.openFiles.insert u.nextFh ⟨i, id⟩).lookup g).map OpenFile.ino =
      Function.update u.shared.handles u.nextFh (some i) g := by
    intro g
    rw [Table.lookup_insert_eq, Function.update_apply]
    split_ifs <;> rfl
  exact congrArg (fun files => (⟨files, u.handles.dirs⟩ : Handles)) (funext hfiles)

lemma release_takes :
    Ends (AdbFs.release h fh : FsM τ Errno Reply) w
      (fun _ w' => w'.handles = w.handles.takeFile fh ∧ w'.nextFh = w.nextFh)
      fun _ w' => w'.handles = w.handles.takeFile fh ∧ w'.nextFh = w.nextFh := by
  apply ends_bind.mpr
  apply ends_read.mpr
  have herased : ∀ u : AdbFs τ,
      SameHandles (w.setFiles fun t => { t with openFiles := t.openFiles.erase fh }) u →
        u.handles = w.handles.takeFile fh ∧ u.nextFh = w.nextFh := by
    intro u hu
    refine ⟨?_, hu.nextFh⟩
    rw [hu.handles]
    have hfiles : ∀ g, ((w.files.openFiles.erase fh).lookup g).map OpenFile.ino =
        Function.update w.shared.handles fh none g := by
      intro g
      rw [Table.lookup_erase_eq, Function.update_apply]
      split_ifs <;> rfl
    exact congrArg (fun files => (⟨files, w.handles.dirs⟩ : Handles)) (funext hfiles)
  cases ho : w.files.openFiles.lookup fh with
  | some o =>
    apply ends_bind.mpr
    apply ends_update.mpr
    refine (sameHandles_releaseCopy o.ino o.copy).thenEnds (fun _ u hu => herased u hu) fun _ u hu => ?_
    exact ends_pure.mpr (herased u hu)
  | none =>
    refine ends_pure.mpr ⟨?_, rfl⟩
    have hclosed : w.shared.handles fh = none := congrArg (Option.map OpenFile.ino) ho
    rw [Handles.takeFile, ← hclosed]
    exact congrArg (fun files => (⟨files, w.handles.dirs⟩ : Handles))
      (Function.update_eq_self fh w.shared.handles).symm

variable [AdbDevice τ]

lemma open_gives (i : ℕ) :
    Ends (AdbFs.open h i) w (fun r w' => ∃ flags, r = .opened w.nextFh flags ∧ Gave i w w')
      fun _ w' => SameHandles w w' := by
  refine (keeps_getPath (R := SameHandles) i).thenEnds (fun _ _ hu => hu) fun p u hu => ?_
  refine (sameHandles_acquireCopy i p .pull).thenEnds (fun _ _ hv => hu.trans hv) fun id v hv => ?_
  refine (keeps_outcome (R := SameHandles) h.openFile).attempt.thenEnds
    (fun _ _ ht => hu.trans (hv.trans ht)) fun r t ht => ?_
  have hsame := hu.trans (hv.trans ht)
  rcases r with e | -
  · refine (sameHandles_releaseCopy i id).thenEnds (fun _ _ hx => hsame.trans hx) fun _ _ hx => ?_
    exact ends_fail.mpr (hsame.trans hx)
  · apply ends_bind.mpr
    apply (addHandle_gives hsame).imp
    · rintro fh x ⟨rfl, hgave⟩
      exact ⟨_, rfl, hgave⟩
    · exact fun _ _ => False.elim

variable [Libc]

lemma create_gives (parent : ℕ) (name : Bytes) :
    Ends (AdbFs.create h parent name) w
      (fun r w' => ∃ ttl a g flags, r = .created ttl a g w.nextFh flags ∧ Gave a.ino w w')
      fun _ w' => SameHandles w w' := by
  refine (keeps_getPath (R := SameHandles) parent).thenEnds (fun _ _ hu => hu) fun p u hu => ?_
  refine (keeps_getOrAssignIno _).thenEnds (fun _ _ hv => hu.trans hv) fun i v hv => ?_
  refine (sameHandles_acquireCopy i _ .empty).thenEnds
    (fun _ _ ht => hu.trans (hv.trans ht)) fun id t ht => ?_
  have hcreated : Keeps SameHandles (createOnDevice h i id (childPath p name) : FsM τ Errno FileMeta) :=
    (keeps_outcome _).bind fun _ => (sameHandles_pushIfDirty i id).bind fun _ => keeps_device _
  refine hcreated.attempt.thenEnds (fun _ _ hx => hu.trans (hv.trans (ht.trans hx))) fun r x hx => ?_
  have hsame := hu.trans (hv.trans (ht.trans hx))
  rcases r with e | m
  · refine (sameHandles_releaseCopy i id).thenEnds (fun _ _ hy => hsame.trans hy) fun _ _ hy => ?_
    exact ends_fail.mpr (hsame.trans hy)
  · refine (keeps_setCache _).thenEnds (fun _ _ hy => hsame.trans hy) fun _ y hy => ?_
    apply ends_bind.mpr
    apply (addHandle_gives (hsame.trans hy)).imp
    · rintro fh z ⟨rfl, hgave⟩
      exact ⟨_, _, _, _, rfl, hgave⟩
    · exact fun _ _ => False.elim

lemma opendir_gives (i : ℕ) :
    Ends (AdbFs.opendir h i) w
      (fun r w' => ∃ flags, r = .opened w.nextFh flags ∧
        w'.handles = w.handles.giveDir w.nextFh ∧ w'.nextFh = w.nextFh + 1)
      fun _ w' => SameHandles w w' := by
  refine (keeps_getPath (R := SameHandles) i).thenEnds (fun _ _ hu => hu) fun p u hu => ?_
  refine (keeps_device _).thenEnds (fun _ _ hv => hu.trans hv) fun entries v hv => ?_
  refine (keeps_listEntries h p entries).thenEnds
    (fun _ _ ht => hu.trans (hv.trans ht)) fun children t ht => ?_
  have hsame := hu.trans (hv.trans ht)
  apply ends_bind.mpr
  apply ends_lift.mpr
  apply ends_bind.mpr
  apply ends_update.mpr
  apply ends_pure.mpr
  refine ⟨_, congrArg (fun fh => Reply.opened fh _) hsame.nextFh, ?_,
    congrArg (· + 1) hsame.nextFh⟩
  rw [← hsame.handles, ← hsame.nextFh]
  have hdirs : ∀ g (dir : List DirEntry), ((t.openDirs.insert t.nextFh dir).lookup g).isSome =
      Function.update t.handles.dirs t.nextFh true g := by
    intro g dir
    rw [Table.lookup_insert_eq, Function.update_apply]
    split_ifs <;> rfl
  exact congrArg (fun dirs => (⟨t.shared.handles, dirs⟩ : Handles)) (funext fun g => hdirs g _)

omit [AdbDevice τ] [Libc] in
lemma releasedir_takes :
    Ends (AdbFs.releasedir fh : FsM τ Errno Reply) w
      (fun _ w' => w'.handles = w.handles.takeDir fh ∧ w'.nextFh = w.nextFh) fun _ _ => False := by
  apply ends_bind.mpr
  apply ends_update.mpr
  refine ends_pure.mpr ⟨?_, rfl⟩
  have hdirs : ∀ g, ((w.openDirs.erase fh).lookup g).isSome =
      Function.update w.handles.dirs fh false g := by
    intro g
    rw [Table.lookup_erase_eq, Function.update_apply]
    split_ifs <;> rfl
  exact congrArg (fun dirs => (⟨w.shared.handles, dirs⟩ : Handles)) (funext hdirs)

structure Tracked (c : Call) (w w' : AdbFs τ) : Prop where
  handles : w'.handles = c.handles w.handles
  next : c.gives = none ∧ w'.nextFh = w.nextFh ∨ c.gives = some w.nextFh ∧ w'.nextFh = w.nextFh + 1

omit [AdbDevice τ] [Libc] in
lemma tracked_same {request : Request} {reply : Option Reply} (hsame : SameHandles w w')
    (hhandles : ∀ t, Call.handles ⟨request, h, reply⟩ t = t)
    (hgives : Call.gives ⟨request, h, reply⟩ = none) : Tracked ⟨request, h, reply⟩ w w' :=
  ⟨hsame.handles.trans (hhandles _).symm, Or.inl ⟨hgives, hsame.nextFh⟩⟩

lemma Serves.elim {P : Option Reply → AdbFs τ → Prop} (hs : Serves w c w')
    (h : Ends (AdbFs.handle c.host c.request) w (fun r u => P (some r) u)
      fun e u => (∀ f, e = .error f → P (some (.error f)) u) ∧ (e = .panic → P none u)) :
    P c.reply w' := by
  rw [Serves, AdbFs.serve] at hs
  rcases hresult : AdbFs.handle c.host c.request w with ⟨(f | _) | r, u⟩
  · rw [hresult, Prod.mk.injEq] at hs
    obtain ⟨hreply, rfl⟩ := hs
    rw [← hreply]
    exact (h.of_error hresult).1 f rfl
  · rw [hresult, Prod.mk.injEq] at hs
    obtain ⟨hreply, rfl⟩ := hs
    rw [← hreply]
    exact (h.of_error hresult).2 rfl
  · rw [hresult, Prod.mk.injEq] at hs
    obtain ⟨hreply, rfl⟩ := hs
    rw [← hreply]
    exact h.of_ok hresult

lemma serves_tracked (hs : Serves w c w') : Tracked c w w' := by
  obtain ⟨request, host, reply⟩ := c
  refine hs.elim (P := fun reply w' => Tracked ⟨request, host, reply⟩ w w') ?_
  by_cases hrequest : request.Bystands
  · have hhandles : ∀ reply t, Call.handles ⟨request, host, reply⟩ t = t := by
      intro reply t
      cases request <;> first | rfl | exact hrequest.elim
    have hgives : ∀ reply, Call.gives ⟨request, host, reply⟩ = none := by
      intro reply
      cases request <;> first | rfl | exact hrequest.elim
    have htracked : ∀ reply u, SameHandles w u → Tracked ⟨request, host, reply⟩ w u :=
      fun reply u hsame => tracked_same hsame (hhandles reply) (hgives reply)
    exact ((sameHandles_handle hrequest).ends w).imp (fun _ _ hsame => htracked _ _ hsame)
      fun _ _ hsame => ⟨fun _ _ => htracked _ _ hsame, fun _ => htracked _ _ hsame⟩
  · cases request with
    | «open» ino =>
      apply (open_gives ino).imp
      · rintro _ u ⟨flags, rfl, hgave⟩
        exact ⟨hgave.handles, Or.inr ⟨rfl, hgave.nextFh⟩⟩
      · exact fun _ _ hsame => ⟨fun _ _ => tracked_same hsame (fun _ => rfl) rfl,
          fun _ => tracked_same hsame (fun _ => rfl) rfl⟩
    | create parent name =>
      apply (create_gives parent name).imp
      · rintro _ u ⟨ttl, a, g, flags, rfl, hgave⟩
        exact ⟨hgave.handles, Or.inr ⟨rfl, hgave.nextFh⟩⟩
      · exact fun _ _ hsame => ⟨fun _ _ => tracked_same hsame (fun _ => rfl) rfl,
          fun _ => tracked_same hsame (fun _ => rfl) rfl⟩
    | opendir ino =>
      apply (opendir_gives ino).imp
      · rintro _ u ⟨flags, rfl, hgave, hnext⟩
        exact ⟨hgave, Or.inr ⟨rfl, hnext⟩⟩
      · exact fun _ _ hsame => ⟨fun _ _ => tracked_same hsame (fun _ => rfl) rfl,
          fun _ => tracked_same hsame (fun _ => rfl) rfl⟩
    | release fh =>
      apply release_takes.imp
      · exact fun _ _ htaken => ⟨htaken.1, Or.inl ⟨rfl, htaken.2⟩⟩
      · exact fun _ _ htaken => ⟨fun _ _ => ⟨htaken.1, Or.inl ⟨rfl, htaken.2⟩⟩,
          fun _ => ⟨htaken.1, Or.inl ⟨rfl, htaken.2⟩⟩⟩
    | releasedir fh =>
      apply releasedir_takes.imp
      · exact fun _ _ htaken => ⟨htaken.1, Or.inl ⟨rfl, htaken.2⟩⟩
      · exact fun _ _ => False.elim
    | _ => exact (hrequest trivial).elim

lemma handle_wired {spare : ℕ → ℕ} (h : Host) (request : Request) (hw : w.Wired spare) :
    Ends (AdbFs.handle h request) w (fun _ w' => w'.Wired spare)
      fun e w' => e ≠ .panic → w'.Wired spare := by
  have hquiet : ∀ {x : FsM τ Errno Reply} {u : AdbFs τ}, Keeps FilesKept x → u.Wired spare →
      Ends x u (fun _ w' => w'.Wired spare) fun e w' => e ≠ .panic → w'.Wired spare :=
    fun hx hu => (hx.ends _).imp (fun _ _ hkept => hkept.wired hu) fun _ _ hkept _ => hkept.wired hu
  cases request with
  | getattr ino => exact hquiet (quiet_getattr h ino) hw
  | lookup parent name => exact hquiet (quiet_lookup h parent name) hw
  | opendir ino => exact hquiet (quiet_opendir h ino) hw
  | readdir fh offset => exact hquiet (keeps_readdir h fh offset) hw
  | releasedir fh =>
    exact hquiet (Keeps.bind (keeps_update fun _ => ⟨rfl, le_rfl⟩) fun _ => keeps_pure _) hw
  | «open» ino =>
    apply (open_ends h hw).imp
    · rintro _ w' ⟨p, c, w₁, -, -, hopened, -⟩
      exact hopened.wired
    · rintro _ w' (⟨hwired, -⟩ | ⟨p, c, w₁, -, -, hback⟩) _
      · exact hwired
      · exact hback.wired
  | read fh offset size => exact hquiet (keeps_readFile h fh offset size) hw
  | write fh offset data =>
    apply (write_ends h offset data hw).imp
    · rintro _ w' ⟨j, id, c, n, -, -, -, hholds⟩
      exact hholds.wired
    · rintro _ w' rfl _
      exact hw
  | flush fh =>
    apply (flush_ends hw).imp
    · rintro _ w' ⟨-, j, id, c, -, hid, hc, hdone⟩
      exact (hdone.holds hw hid hc).wired
    · rintro _ w' (rfl | ⟨j, id, c, -, -, -, -, ⟨dirty, hholds, -⟩, -⟩) _
      · exact hw
      · exact hholds.wired
  | release fh =>
    apply (release_ends h hw).imp
    · rintro _ w' (⟨-, rfl⟩ | ⟨j, id, -, hwired, -⟩)
      · exact hw
      · exact hwired
    · exact fun _ _ => False.elim
  | access ino => exact hquiet (keeps_pure _) hw
  | mkdir parent name => exact hquiet (quiet_mkdir h parent name) hw
  | unlink parent name => exact hquiet (quiet_unlink parent name) hw
  | rmdir parent name => exact hquiet (quiet_rmdir parent name) hw
  | rename parent name newparent newname flags =>
    exact hquiet (quiet_rename h parent name newparent newname) hw
  | setattr ino size atime mtime fh =>
    refine ends_getPath.mpr ⟨fun p _ => ?_, fun _ _ => hw⟩
    have hrest := quiet_afterResize (τ := τ) h ino p atime mtime
    apply ends_bind.mpr
    cases size with
    | none => exact hquiet hrest hw
    | some n =>
      apply (truncate_cases h n hw).imp
      · rintro _ u ⟨c, w₁, path, -, -, -, hback⟩
        exact hquiet hrest hback.wired
      · rintro e u (⟨hunheld, -, -⟩ | ⟨c, w₁, -, -, -, hback, -⟩) he
        · exact hunheld.wired
        · exact (hback he).wired
  | readlink ino => exact hquiet (quiet_readlink h ino) hw
  | create parent name =>
    cases hdir : w.inodes.getPath parent with
    | none => exact ends_getPath.mpr ⟨fun p hp => by simp [hdir] at hp, fun _ _ => hw⟩
    | some dir =>
      apply (create_ends h name hw hdir rfl rfl).imp
      · rintro _ u ⟨-, hopened, -⟩
        exact hopened.wired
      · rintro e u (⟨-, hwired, -, -⟩ | ⟨-, -, dirty, spare', hback, hsame, -⟩) he
        · exact hwired
        · exact hsame he ▸ hback.wired
  | mknod parent name mode => exact hquiet (quiet_mknod h parent name mode) hw

lemma serves_wired {spare : ℕ → ℕ} (hw : w.Wired spare) (hs : Serves w c w')
    (hanswered : c.reply ≠ none) : w'.Wired spare := by
  have hends := (handle_wired c.host c.request hw)
  refine hs.elim (P := fun reply w' => reply ≠ none → w'.Wired spare) ?_ hanswered
  apply hends.imp
  · exact fun _ _ hwired _ => hwired
  · exact fun e u hwired => ⟨fun f he _ => hwired (by simp [he]), fun _ hreply => absurd rfl hreply⟩

end Step

section Runs

variable {τ : Type} [AdbDevice τ] [Libc] {w w' : AdbFs τ} {l : List (AdbFs τ × Call × AdbFs τ)}

def callsOf (l : List (AdbFs τ × Call × AdbFs τ)) : List Call := l.map fun x => x.2.1

def held (calls : List Call) (t : Handles) : Handles := calls.foldl (fun t c => c.handles t) t

def givenBy (calls : List Call) : List ℕ := calls.filterMap Call.gives

/-- The requests that need the handle to be that of an open file. -/
def Request.Uses (fh : ℕ) : Request → Prop
  | .read g _ _ | .write g _ _ | .flush g => g = fh
  | _ => False

lemma trace_tracked (htrace : Trace Serves w l w') :
    w'.handles = held (callsOf l) w.handles ∧ (∀ fh ∈ givenBy (callsOf l), w.nextFh ≤ fh) ∧
      (givenBy (callsOf l)).Pairwise (· < ·) := by
  induction htrace with
  | nil => exact ⟨rfl, by simp [callsOf, givenBy], by simp [callsOf, givenBy]⟩
  | @cons s t u c l hst _ ih =>
    obtain ⟨hhandles, hlater, hpairwise⟩ := ih
    have hstep := serves_tracked hst
    rw [hstep.handles] at hhandles
    refine ⟨hhandles, ?_⟩
    rcases hstep.next with ⟨hnone, hnext⟩ | ⟨hgives, hnext⟩
    · have hsame : givenBy (callsOf ((s, c, t) :: l)) = givenBy (callsOf l) :=
        List.filterMap_cons_none hnone
      rw [hsame]
      exact ⟨fun fh hfh => hnext ▸ hlater fh hfh, hpairwise⟩
    · have hmore : givenBy (callsOf ((s, c, t) :: l)) = s.nextFh :: givenBy (callsOf l) :=
        List.filterMap_cons_some hgives
      rw [hnext] at hlater
      rw [hmore]
      refine ⟨List.forall_mem_cons.mpr ⟨le_rfl, fun fh hfh => ?_⟩,
        List.pairwise_cons.mpr ⟨fun fh hfh => hlater fh hfh, hpairwise⟩⟩
      have hle := hlater fh hfh
      omega

lemma serve_unopened {fh : ℕ} {request : Request} (hfh : w.shared.handles fh = none)
    (huses : request.Uses fh) (h : Host) :
    AdbFs.serve h request w = (some (.error .ebadf), w) := by
  have hclosed : w.files.openFiles.lookup fh = none := Option.map_eq_none_iff.mp hfh
  have hhandle : (handleOf fh : FsM τ Errno OpenFile) w = (.error (.error .ebadf), w) := by
    simp [handleOf, hclosed]
  cases request with
  | read g offset size =>
    obtain rfl : g = fh := huses
    rw [AdbFs.serve, AdbFs.handle, AdbFs.read, bind_of_error hhandle]
  | write g offset data =>
    obtain rfl : g = fh := huses
    rw [AdbFs.serve, AdbFs.handle, AdbFs.write, bind_of_error hhandle]
  | flush g =>
    obtain rfl : g = fh := huses
    rw [AdbFs.serve, AdbFs.handle, AdbFs.flush, bind_of_error hhandle]
  | _ => exact huses.elim

lemma serve_unlisted {fh offset : ℕ} {h : Host} (hdir : w.openDirs.lookup fh = none) :
    AdbFs.serve h (.readdir fh offset) w = (some (.error .ebadf), w) := by
  have hread : AdbFs.handle h (.readdir fh offset) w = (.error (.error .ebadf), w) := by
    change AdbFs.readdir h fh offset w = _
    rw [AdbFs.readdir, bind_read_apply, hdir]
    rfl
  rw [AdbFs.serve, hread]

structure Tallies (calls : List Call) (w : AdbFs τ) : Prop where
  handles : w.handles = held calls .none
  fresh : (givenBy calls).Pairwise (· < ·)
  backed : ∀ fh i, (held calls .none).files fh = some i → w.shared.copies i ≠ none
  released : (∀ c ∈ calls, c.reply ≠ none) → ∀ i, w.shared.copies i ≠ none →
    ∃ fh, (held calls .none).files fh = some i
  refused : ∀ fh, (held calls .none).files fh = none → ∀ (request : Request) (h : Host),
    request.Uses fh → AdbFs.serve h request w = (some (.error .ebadf), w)
  listed : ∀ fh offset (h : Host), ((AdbFs.serve h (.readdir fh offset) w).1 = some (.error .ebadf) ↔
    (held calls .none).dirs fh = false) ∧ (AdbFs.serve h (.readdir fh offset) w).2 = w

/-- Over every run, on any device: the handles that are open are those that the replies gave and no
request took back, none is given twice, and where every request is answered a local copy is kept for
exactly the inodes that have one of them. -/
theorem handles_follow_calls {ops : DeviceOps τ} {cacheTtl : ℕ} {opts : FsOptions}
    (htrace : Trace Serves (AdbFs.new ops cacheTtl opts) l w) : Tallies (callsOf l) w := by
  obtain ⟨hhandles, -, hfresh⟩ := trace_tracked htrace
  have hheld : w.handles = held (callsOf l) .none := hhandles
  have hlinked : w.Linked := (htrace.invariant (I := AdbFs.Linked) (G := fun _ => True)
    ⟨0, wired_new, fun _ _ => rfl⟩ (fun _ _ _ hw hs _ => (serves_othersKept hw hs).linked)
    fun _ _ => trivial).1
  have hfiles : ∀ fh, w.shared.handles fh = (held (callsOf l) .none).files fh :=
    fun fh => congrFun (congrArg Handles.files hheld) fh
  have hdirs : ∀ fh, (w.openDirs.lookup fh).isSome = (held (callsOf l) .none).dirs fh :=
    fun fh => congrFun (congrArg Handles.dirs hheld) fh
  refine ⟨hheld, hfresh, fun fh i hfh => ?_, fun hanswered i hi => ?_, fun fh hfh request h huses => ?_,
    fun fh offset h => ?_⟩
  · obtain ⟨id, -, -, hlive⟩ := hlinked.live ((hfiles fh).trans hfh)
    simp [hlive]
  · have hwired : w.Wired 0 := (htrace.invariant (I := AdbFs.Wired 0)
      (G := fun x => x.2.1.reply ≠ none) ⟨wired_new, fun _ _ => rfl⟩
      (fun _ _ _ hw hs hreply => serves_wired hw hs hreply)
      fun x hx => hanswered x.2.1 (List.mem_map_of_mem hx)).1
    obtain ⟨c, hc⟩ := Option.ne_none_iff_exists'.mp hi
    obtain ⟨fh, hfh⟩ := (hwired.handle_of_live hc).resolve_right fun hne => hne rfl
    exact ⟨fh, (hfiles fh).symm.trans hfh⟩
  · exact serve_unopened ((hfiles fh).trans hfh) huses h
  · rw [← hdirs fh]
    cases hdir : w.openDirs.lookup fh with
    | none =>
      rw [serve_unlisted hdir]
      simp
    | some dir =>
      rw [serve_readdir hdir]
      simp

end Runs

section Plain

attribute [local instance] plainLibc

def sharedFs : AdbFs Phone :=
  AdbFs.new ⟨plainPhone [("/a".toList, byteNode 7)] [], true, false⟩ (10 ^ 9) {}

def replay : List Request → AdbFs Phone → List (AdbFs Phone × Call × AdbFs Phone) × AdbFs Phone
  | [], w => ([], w)
  | request :: requests, w =>
    let answer := AdbFs.serve (plainHost 0 0 0) request w
    let rest := replay requests answer.2
    ((w, ⟨request, plainHost 0 0 0, answer.1⟩, answer.2) :: rest.1, rest.2)

lemma trace_replay (requests : List Request) (w : AdbFs Phone) :
    Trace Serves w (replay requests w).1 (replay requests w).2 := by
  induction requests generalizing w with
  | nil => exact .nil
  | cons request requests ih => exact .cons rfl (ih _)

def twoOpens : List (AdbFs Phone × Call × AdbFs Phone) × AdbFs Phone :=
  replay [.lookup 1 nameA, .open 2, .open 2, .release 1] sharedFs

theorem handles_follow_calls_of_two_opens :
    Tallies (callsOf twoOpens.1) twoOpens.2 ∧ givenBy (callsOf twoOpens.1) = [1, 2] ∧
      twoOpens.2.shared.copies 2 ≠ none := by
  have htallies : Tallies (callsOf twoOpens.1) twoOpens.2 :=
    handles_follow_calls (trace_replay _ sharedFs)
  exact ⟨htallies, by decide +kernel, htallies.backed 2 2 (by decide +kernel)⟩

end Plain

end Adbfs
