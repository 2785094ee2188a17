import Adbfs.Backing
import Adbfs.RenameFlags

namespace Adbfs

open Library Library.Action

inductive Inodes.Step : Inodes → Inodes → Prop
  | assign {t : Inodes} (p : Text) : Inodes.Step t (t.getOrAssignIno p).2
  | rekey {t : Inodes} (order : IterOrder InoEntry) (source target : Text) :
      Inodes.Step t (t.rekeyPaths order source target)

section Steps

variable {τ : Type}

/-- Nothing becomes of the inode maps but assignments and renames. -/
def InodeSteps (w w' : AdbFs τ) : Prop := Relation.ReflTransGen Inodes.Step w.inodes w'.inodes

lemma inodeSteps_of_same {w w' : AdbFs τ} (h : w'.inodes = w.inodes) : InodeSteps w w' := by
  rw [InodeSteps, h]

instance : Indifferent (@InodeSteps τ) where
  refl _ := .refl
  trans _ _ _ h h' := h.trans h'
  ops _ _ := inodeSteps_of_same rfl
  cache _ _ := inodeSteps_of_same rfl
  assign p _ := .single (.assign p)

instance [AdbDevice τ] : Frame (@InodeSteps τ) where
  same _ _ _ _ h := inodeSteps_of_same h
  pull _ _ _ _ _ _ h := inodeSteps_of_same h

variable (h : Host) [AdbDevice τ] [Libc]

lemma steps_opendir (ino : ℕ) : Keeps InodeSteps (AdbFs.opendir h ino : FsM τ Errno Reply) := by
  apply (keeps_getPath ino).bind
  intro p
  apply (keeps_device (listDir p)).bind
  intro entries
  apply (keeps_listEntries h p entries).bind
  intro children
  apply keeps_takeFh.bind
  intro fh
  exact Keeps.bind (keeps_update fun _ => inodeSteps_of_same rfl) fun _ => keeps_pure _

omit [Libc] in
lemma steps_rename (parent : ℕ) (name : Bytes) (newparent : ℕ) (newname : Bytes) :
    Keeps InodeSteps (AdbFs.rename h parent name newparent newname : FsM τ Errno Reply) := by
  apply (keeps_getPath parent).bind
  intro fromParent
  apply (keeps_getPath newparent).bind
  intro toParent
  apply (keeps_device _).bind
  intro _
  have hrekey : Keeps InodeSteps (update (AdbFs.setInodes (Inodes.rekeyPaths h.order
      (childPath fromParent name) (childPath toParent newname))) : FsM τ Errno Unit) :=
    keeps_update fun _ => .single (.rekey _ _ _)
  exact hrekey.bind fun _ => (keeps_setCache _).bind fun _ => (keeps_setCache _).bind fun _ =>
    keeps_pure _

lemma steps_create (parent : ℕ) (name : Bytes) (w : AdbFs τ) :
    InodeSteps w (AdbFs.create h parent name w).2 := by
  cases hdir : w.inodes.getPath parent with
  | none =>
    rw [create_of_orphan h name hdir]
    exact .refl
  | some dir =>
    apply ends_iff.mp
    have hassigned : InodeSteps w (w.assigned (childPath dir name)) := .single (.assign _)
    apply (create_inodes h name hdir).imp
    · exact fun _ w' hw' => hassigned.trans (inodeSteps_of_same hw')
    · exact fun _ w' hw' => hassigned.trans (inodeSteps_of_same hw')

lemma steps_handle (request : Request) (w : AdbFs τ) :
    InodeSteps w (AdbFs.handle h request w).2 := by
  have hkept : ∀ {x : FsM τ Errno Reply}, Keeps InodeSteps x → InodeSteps w (x w).2 :=
    fun hx => hx.holds w
  have hsame : ∀ {x : FsM τ Errno Reply}, Keeps SameInodes x → InodeSteps w (x w).2 :=
    fun hx => inodeSteps_of_same (hx.holds w)
  cases request with
  | getattr ino =>
    exact hkept ((keeps_getPath ino).bind fun _ => (keeps_fetchMeta h _).mapError.bind fun _ =>
      keeps_read.bind fun _ => keeps_pure _)
  | lookup parent name => exact hkept (keeps_lookup h parent name)
  | opendir ino => exact hkept (steps_opendir h ino)
  | readdir fh offset => exact hkept (keeps_readdir h fh offset)
  | releasedir fh => exact inodeSteps_of_same rfl
  | «open» ino => exact hkept (keeps_open h ino)
  | read fh offset size => exact hkept (keeps_readFile h fh offset size)
  | write fh offset data => exact hkept (keeps_write h fh offset data)
  | flush fh => exact hsame (sameInodes_flush fh)
  | release fh => exact hkept (keeps_release h fh)
  | access ino => exact hkept (keeps_pure _)
  | mkdir parent name =>
    exact hkept ((keeps_getPath parent).bind fun _ => (keeps_device _).bind fun _ =>
      (keeps_setCache _).bind fun _ => keeps_newEntry h _ _)
  | unlink parent name =>
    exact hkept ((keeps_getPath parent).bind fun _ => (keeps_device _).bind fun _ =>
      (keeps_setCache _).bind fun _ => keeps_pure _)
  | rmdir parent name =>
    exact hkept ((keeps_getPath parent).bind fun _ => (keeps_device _).bind fun _ =>
      (keeps_setCache _).bind fun _ => keeps_pure _)
  | rename parent name newparent newname flags =>
    exact hkept (steps_rename h parent name newparent newname)
  | setattr ino size atime mtime fh => exact hsame (sameInodes_setattr h ino size atime mtime)
  | readlink ino =>
    exact hkept ((keeps_getPath ino).bind fun _ => (keeps_fetchMeta h _).mapError.bind fun _ =>
      (keeps_device _).bind fun _ => keeps_pure _)
  | create parent name => exact steps_create h parent name w
  | mknod parent name mode =>
    exact hkept ((keeps_getPath parent).bind fun _ => (keeps_outcome _).bind fun _ =>
      (keeps_outcome _).bind fun _ => (keeps_device _).bind fun _ => (keeps_setCache _).bind
        fun _ => keeps_newEntry h _ _)

end Steps

namespace Inodes

variable {t t' : Inodes} {i : ℕ}

lemma Anchored.step (h : Anchored t) (hstep : Step t t') : Anchored t' := by
  cases hstep with
  | assign p => exact h.getOrAssignIno p
  | rekey order source target => exact h.rekeyPaths order source target

/-- The number was handed out, and has no path any more. -/
def Lost (t : Inodes) (i : ℕ) : Prop := i < t.nextIno ∧ t.getPath i = none

lemma Lost.assign (h : t.Lost i) (p : Text) : (t.getOrAssignIno p).2.Lost i := by
  cases hl : t.pathToIno.lookup p with
  | some j => rwa [getOrAssignIno_of_some hl]
  | none =>
    rw [getOrAssignIno_of_none hl]
    refine ⟨Nat.lt_succ_of_lt h.1, ?_⟩
    change (t.inoToPath.insert t.nextIno p).lookup i = none
    rw [Table.lookup_insert_eq, if_neg h.1.ne]
    exact h.2

lemma Lost.foldl_rekeyOne {source target : Text} {l : List InoEntry} (h : t.Lost i)
    (hl : ∀ e ∈ l, i ≠ e.2) : (l.foldl (rekeyOne source target) t).Lost i := by
  induction l generalizing t with
  | nil => exact h
  | cons e l ih =>
    have hne : i ≠ e.2 := hl e (by simp)
    refine ih ⟨?_, ?_⟩ fun a ha => hl a (by simp [ha])
    · rw [rekeyOne_nextIno]
      exact h.1
    · change (rekeyOne source target t e).inoToPath.lookup i = none
      unfold rekeyOne
      dsimp only
      split
      · rw [Table.lookup_insert_eq, if_neg hne, Table.lookup_erase_eq]
        split_ifs
        · rfl
        · exact h.2
      · rw [Table.lookup_insert_eq, if_neg hne]
        exact h.2

lemma Lost.step (h : t.Lost i) (ht : Anchored t) (hstep : Step t t') : t'.Lost i := by
  cases hstep with
  | assign p => exact h.assign p
  | rekey order source target =>
    apply h.foldl_rekeyOne
    rintro e he rfl
    have hback := ht.back _ _ ((mem_movedEntries order e).mp he).1
    exact absurd (hback.symm.trans h.2) (by simp)

lemma Anchored.steps (h : Anchored t) (hsteps : Relation.ReflTransGen Step t t') :
    Anchored t' ∧ ∀ i, t.Lost i → t'.Lost i := by
  induction hsteps with
  | refl => exact ⟨h, fun _ hi => hi⟩
  | tail _ hstep ih => exact ⟨ih.1.step hstep, fun i hi => (ih.2 i hi).step ih.1 hstep⟩

end Inodes

section Runs

variable {τ : Type} [AdbDevice τ] [Libc] {ops : DeviceOps τ} {cacheTtl : ℕ} {opts : FsOptions}
  {w w' : AdbFs τ}

lemma inodeSteps_of_run (hrun : Run Serves Always w w') : InodeSteps w w' := by
  induction hrun with
  | refl => exact .refl
  | @tail u v c _ _ hserve ih =>
    refine ih.trans ?_
    have hsteps := steps_handle c.host c.request u
    rw [← serve_snd, hserve] at hsteps
    exact hsteps

lemma anchored_of_run (hrun : Run Serves Always (AdbFs.new ops cacheTtl opts) w) :
    w.inodes.Anchored := (Inodes.anchored_new.steps (inodeSteps_of_run hrun)).1

/-- On any device, a path leads to an inode that leads back to it, and an inode that has lost its
path never stands for a file again. -/
theorem lost_inode_stays_lost (hrun : Run Serves Always (AdbFs.new ops cacheTtl opts) w) :
    (∀ p i, w.inodes.pathToIno.lookup p = some i → w.inodes.getPath i = some p) ∧
      ∀ i, i < w.inodes.nextIno → w.inodes.getPath i = none →
        ∀ w', Run Serves Always w w' → w'.inodes.getPath i = none := by
  have hanchored := anchored_of_run hrun
  exact ⟨hanchored.back, fun i hi hnone w' hrun' =>
    ((hanchored.steps (inodeSteps_of_run hrun')).2 i ⟨hi, hnone⟩).2⟩

end Runs

section Plain

attribute [local instance] plainLibc

def overwritten : PhoneFs :=
  let w := (AdbFs.serve (plainHost 0 0 0) (.lookup 1 nameB) (lookupA twoFiles).2).2
  (AdbFs.serve (plainHost 0 0 0) renameAB w).2

theorem lost_inode_stays_lost_after_rename :
    overwritten.inodes.getPath 2 = some "/b".toList ∧
      (AdbFs.serve (plainHost 0 0 0) (.lookup 1 nameB) overwritten).2.inodes.getPath 3 = none := by
  have hrun : Run Serves Always (startFs twoFiles) overwritten :=
    run_serve (run_serve (run_serve .refl _ _) _ _) _ _
  refine ⟨by decide, (lost_inode_stays_lost hrun).2 3 (by decide) (by decide) _ ?_⟩
  exact Run.single (a := ⟨.lookup 1 nameB, plainHost 0 0 0,
    (AdbFs.serve (plainHost 0 0 0) (.lookup 1 nameB) overwritten).1⟩) rfl trivial

end Plain

end Adbfs
