import Adbfs.InStep
import Adbfs.Unpushed

/-! The files behind the open ones: where they lie on the phone, and what a request that is obeyed
does to them. -/

namespace Adbfs

open Library Library.Paths Library.Action Files

section Trees

variable [Libc] {tree tree' tree'' : Tree} {p : Text} {f g : List Text}

/-- Whatever is there lies in a directory. -/
def Rooted (tree : Tree) : Prop :=
  ∀ dir n, Names (dir ++ [n]) → tree (render (dir ++ [n])) ≠ none →
    Phone.isDir tree (render dir) = true

lemma isDir_ne_none (h : Phone.isDir tree p = true) : tree p ≠ none := by
  intro hnone
  simp [Phone.isDir, hnone] at h

lemma Rooted.isDir (h : Rooted tree) {dir s : List Text} (hs : s ≠ []) (hnames : Names (dir ++ s))
    (hthere : tree (render (dir ++ s)) ≠ none) : Phone.isDir tree (render dir) = true := by
  induction s using List.reverseRecOn with
  | nil => exact absurd rfl hs
  | append_singleton s n ih =>
    rw [← List.append_assoc] at hnames hthere
    have hparent := h (dir ++ s) n hnames hthere
    by_cases hempty : s = []
    · rwa [hempty, List.append_nil] at hparent
    · exact ih hempty hnames.left (isDir_ne_none hparent)

lemma Refiled.rooted (h : Refiled p tree tree') (hr : Rooted tree) : Rooted tree' := by
  intro dir n hnames hthere
  rw [h.isDir]
  by_cases hp : render (dir ++ [n]) = p
  · rw [hp] at hthere
    rcases h.placed hthere with hthere | hparent
    · exact hr dir n hnames (hp ▸ hthere)
    · rwa [← hp, parentOf_concat (hnames n (by simp))] at hparent
  · exact hr dir n hnames (h.other _ hp ▸ hthere)

lemma Put.refiled {contents : Option Bytes} (h : Put p contents tree tree') : Refiled p tree tree' := by
  obtain ⟨hfits, n, hfile, -, rfl⟩ := h
  simp only [Phone.fits, Bool.and_eq_true, Bool.not_eq_true'] at hfits
  refine ⟨fun q hq => Function.update_of_ne hq _ _, ?_, by simp, fun _ => Or.inr hfits.1⟩
  rw [hfits.2, Phone.isDir, Function.update_self]
  exact hfile

lemma Put.data {contents : Option Bytes} (h : Put p contents tree tree') :
    (tree' p).bind Node.data = contents := by
  obtain ⟨-, n, -, hdata, rfl⟩ := h
  rw [Function.update_self]
  exact hdata

lemma Put.there {f : Bytes} (h : Put p (some f) tree tree') : tree' p ≠ none := by
  intro hnone
  have hdata := h.data
  rw [hnone] at hdata
  contradiction

lemma Torn.refiled (h : Torn p tree tree') : Refiled p tree tree' := by
  rcases h with rfl | ⟨contents, hput⟩
  · exact .refl p _
  · exact hput.refiled

lemma perform_mv_onto (hf : Names f) (hg : Names g) (hf' : f ≠ []) (hg' : g ≠ []) {fate : Fate}
    {a : Except Failure (List Text)}
    (honto : Phone.mvTarget tree (render f) (render g) = render g)
    (h : Phone.perform tree fate (.mv (render f) (render g)) = some (a, tree')) :
    Apart f g ∧ Phone.isDir tree (render g) = false ∧ Moved (render f) (render g) tree tree' := by
  simp only [Phone.perform, honto] at h
  split_ifs at h with hcond
  simp only [Option.some.injEq, Prod.mk.injEq] at h
  obtain ⟨hsource, hparent, hdir, hclear, hout, hin⟩ := hcond
  exact ⟨apart_of_rebase hf hg hf' hg' hout hin, hdir, hsource, hparent, hclear, h.2.symm⟩

lemma moveTree_outside (hf : Names f) (hg : Names g) (ha : Apart f g) {q : List Text} (hq : Names q)
    (hqf : ∀ s, q ≠ f ++ s) (hqg : ∀ s, q ≠ g ++ s) :
    moveTree (render f) (render g) tree (render q) = tree (render q) := by
  have hin : rebase (render f) (render g) (render q) = none := by
    by_contra hne
    obtain ⟨r, hr⟩ := Option.ne_none_iff_exists'.mp hne
    obtain ⟨s, hs, -⟩ := (rebase_render hf ha.ne_nil ha.symm.ne_nil hq r).mp hr
    exact hqf s hs
  have hout : rebase (render g) (render f) (render q) = none := by
    by_contra hne
    obtain ⟨r, hr⟩ := Option.ne_none_iff_exists'.mp hne
    obtain ⟨s, hs, -⟩ := (rebase_render hg ha.symm.ne_nil ha.ne_nil hq r).mp hr
    exact hqg s hs
  rw [moveTree, hout, hin]
  rfl

lemma Rooted.moved (hr : Rooted tree) (hf : Names f) (hg : Names g) (ha : Apart f g)
    (h : Moved (render f) (render g) tree tree') : Rooted tree' := by
  obtain ⟨-, hparent, -, rfl⟩ := h
  have hsame : ∀ {a b : Text} {t t' : Tree}, t' a = t b → Phone.isDir t b = true →
      Phone.isDir t' a = true := by
    intro a b t t' heq hdir
    rwa [Phone.isDir, heq]
  intro dir n hnames hthere
  by_cases htarget : ∃ s, dir ++ [n] = g ++ s
  · obtain ⟨s, hs⟩ := htarget
    rcases List.eq_nil_or_concat' s with rfl | ⟨s, m, rfl⟩
    · -- the target itself lies where it was put
      rw [List.append_nil] at hs
      subst hs
      rw [parentOf_concat (hnames n (by simp))] at hparent
      refine hsame (moveTree_outside hf hg ha hnames.left ?_ ?_) hparent
      · rintro s rfl
        exact ha.1 (by simp)
      · intro s heq
        have hlen := congrArg List.length heq
        simp only [List.length_append, List.length_singleton] at hlen
        omega
    · rw [← List.append_assoc] at hs
      obtain ⟨rfl, hm⟩ := List.append_inj' hs rfl
      obtain rfl := List.singleton_inj.mp hm
      rw [List.append_assoc] at hnames hthere
      rw [moveTree_target hg ha hnames.right, ← List.append_assoc] at hthere
      have hsource := hr (f ++ s) n (by
        rw [List.append_assoc]
        exact hf.append hnames.right) hthere
      exact hsame (moveTree_target hg ha hnames.right.left) hsource
  · push Not at htarget
    by_cases hsource : ∃ s, dir ++ [n] = f ++ s
    · obtain ⟨s, hs⟩ := hsource
      rw [hs] at hnames hthere
      exact absurd (moveTree_source hf hg ha hnames.right) hthere
    · push Not at hsource
      rw [moveTree_outside hf hg ha hnames hsource htarget] at hthere
      refine hsame (moveTree_outside hf hg ha hnames.left ?_ ?_) (hr dir n hnames hthere)
      · rintro s rfl
        exact hsource (s ++ [n]) (List.append_assoc _ _ _)
      · rintro s rfl
        exact htarget (s ++ [n]) (List.append_assoc _ _ _)

end Trees

namespace Inodes

variable {t : Inodes} {p : Text}

structure Given (t t' : Inodes) : Prop where
  wf : t'.WF
  next : t.nextIno ≤ t'.nextIno
  kept : ∀ i p, t.getPath i = some p → t'.getPath i = some p
  born : ∀ i p, t'.getPath i = some p → t.getPath i = some p ∨ t.nextIno ≤ i

lemma WF.given_refl (h : t.WF) : Given t t := ⟨h, le_rfl, fun _ _ hi => hi, fun _ _ hi => Or.inl hi⟩

lemma WF.given_assigned (h : t.WF) (hp : Canonical p) : Given t (t.getOrAssignIno p).2 := by
  refine ⟨h.getOrAssignIno hp, ?_, fun i q hi => getPath_getOrAssignIno h p hi, ?_⟩
  · cases hl : t.pathToIno.lookup p with
    | some i => rw [getOrAssignIno_of_some hl]
    | none =>
      rw [getOrAssignIno_of_none hl]
      exact Nat.le_succ _
  · intro i q hi
    cases hl : t.pathToIno.lookup p with
    | some j =>
      rw [getOrAssignIno_of_some hl] at hi
      exact Or.inl hi
    | none =>
      rw [getOrAssignIno_of_none hl] at hi
      change (t.inoToPath.insert t.nextIno p).lookup i = some q at hi
      rw [Table.lookup_insert_eq] at hi
      split_ifs at hi with heq
      · exact Or.inr heq.ge
      · exact Or.inl hi

lemma WF.path_inj (h : t.WF) {i j : ℕ} (hi : t.getPath i = some p) (hj : t.getPath j = some p) :
    i = j := by
  have hi' := (h.inverse p i).mpr hi
  rw [(h.inverse p j).mpr hj] at hi'
  exact (Option.some.inj hi').symm

end Inodes

section Inodes

variable {τ : Type}

def SameInodes (w w' : AdbFs τ) : Prop := w'.inodes = w.inodes

instance [AdbDevice τ] : Frame (@SameInodes τ) where
  refl _ := rfl
  trans _ _ _ h h' := h'.trans h
  same _ _ _ _ h := h
  pull _ _ _ _ _ _ h := h

section Steps

variable {α : Type}

lemma sameInodes_setCache (f : MetadataCache → MetadataCache) :
    Keeps SameInodes (update (AdbFs.setCache f) : FsM τ Errno Unit) := keeps_update fun _ => rfl

lemma sameInodes_device (x : OpsM τ α) : Keeps SameInodes (device x) :=
  (keeps_zoom fun _ => rfl : Keeps SameInodes (onDevice x)).mapError

variable [AdbDevice τ]

lemma sameInodes_pushIfDirty (i id : ℕ) : Keeps SameInodes (pushIfDirty i id : FsM τ Errno Unit) := by
  apply keeps_read.bind
  intro w
  split_ifs
  · apply (keeps_onFiles _).bind
    intro _
    split
    · exact (keeps_onFiles _).bind fun _ => keeps_fail _
    · apply (sameInodes_device _).attempt.bind
      rintro (e | _)
      · exact (keeps_onFiles _).bind fun _ => keeps_fail _
      · exact sameInodes_setCache _
  · exact keeps_pure _

lemma sameInodes_flush (fh : ℕ) : Keeps SameInodes (AdbFs.flush fh : FsM τ Errno Reply) :=
  (keeps_handleOf fh).bind fun _ => (sameInodes_pushIfDirty _ _).bind fun _ => keeps_pure _

variable (h : Host)

lemma sameInodes_touchTimes (p : Text) (atime mtime : Option TimeOrNow) :
    Keeps SameInodes (touchTimes h p atime mtime : FsM τ Errno Unit) := by
  rw [touchTimes]
  split_ifs
  · exact keeps_pure _
  · exact (sameInodes_device _).bind fun _ => sameInodes_setCache _

variable [Libc]

lemma sameInodes_setattr (i : ℕ) (size : Option ℕ) (atime mtime : Option TimeOrNow) :
    Keeps SameInodes (AdbFs.setattr h i size atime mtime : FsM τ Errno Reply) := by
  apply (keeps_getPath i).bind
  intro p
  apply (keeps_resize h p size fun id => sameInodes_pushIfDirty i id).bind
  intro _
  apply (sameInodes_touchTimes h p atime mtime).bind
  intro _
  exact (sameInodes_device _).bind fun _ => (sameInodes_setCache _).bind fun _ =>
    keeps_read.bind fun _ => keeps_pure _

lemma create_inodes {w : AdbFs τ} {parent : ℕ} {dir : Text} (name : Bytes)
    (hdir : w.inodes.getPath parent = some dir) :
    Ends (AdbFs.create h parent name) w
      (fun _ w' => w'.inodes = (w.assigned (childPath dir name)).inodes)
      fun _ w' => w'.inodes = (w.assigned (childPath dir name)).inodes := by
  apply ends_getPath.mpr
  refine ⟨fun p hp => ?_, fun hnone => absurd (hdir.symm.trans hnone) (by simp)⟩
  obtain rfl := Option.some.inj (hdir.symm.trans hp)
  apply ends_bind.mpr
  apply ends_lift.mpr
  refine Ends.imp (Keeps.ends (R := SameInodes) ?_ _) (fun _ _ hu => hu) fun _ _ hu => hu
  apply (keeps_acquireCopy h _ _ .empty).bind
  intro id
  have hdevice : ∀ i q, Keeps SameInodes (createOnDevice h i id q : FsM τ Errno FileMeta) :=
    fun i q => (keeps_outcome _).bind fun _ =>
      (sameInodes_pushIfDirty i id).bind fun _ => sameInodes_device _
  apply (hdevice _ _).attempt.bind
  rintro (e | m)
  · exact (keeps_releaseCopy h _ id).bind fun _ => keeps_fail _
  · exact (sameInodes_setCache _).bind fun _ => (keeps_addHandle _ id).bind fun _ =>
      keeps_read.bind fun _ => keeps_pure _

end Steps

end Inodes

section Devices

variable {τ : Type} {h : Host} {fh : ℕ}

def SameOps (w w' : AdbFs τ) : Prop := w'.ops = w.ops

instance : Std.Refl (@SameOps τ) := ⟨fun _ => rfl⟩

instance : IsTrans (AdbFs τ) SameOps := ⟨fun _ _ _ h h' => h'.trans h⟩

lemma sameOps_onFiles (f : Files → Files) : Keeps SameOps (onFiles f : FsM τ Errno Unit) :=
  keeps_update fun _ => rfl

lemma sameOps_setCache {ε : Type} (f : MetadataCache → MetadataCache) :
    Keeps SameOps (update (AdbFs.setCache f) : FsM τ ε Unit) := keeps_update fun _ => rfl

lemma sameOps_getOrAssignIno (p : Text) : Keeps SameOps (getOrAssignIno p : FsM τ Errno ℕ) :=
  keeps_lift fun _ => rfl

lemma sameOps_takeFh : Keeps SameOps (takeFh : FsM τ Errno ℕ) := keeps_lift fun _ => rfl

lemma sameOps_addHandle (i id : ℕ) : Keeps SameOps (addHandle i id : FsM τ Errno ℕ) :=
  sameOps_takeFh.bind fun _ => (sameOps_onFiles _).bind fun _ => keeps_pure _

lemma sameOps_listEntries (dir : Text) (entries : List (Text × Option FileMeta)) :
    Keeps SameOps (listEntries h dir entries : FsM τ Errno (List DirEntry)) := by
  induction entries with
  | nil => exact keeps_pure _
  | cons entry entries ih =>
    have hlisted : ∀ q, Keeps SameOps (cacheListed q entry.2 h.now : FsM τ Errno Unit) := by
      intro q
      cases entry.2 with
      | none => exact keeps_pure _
      | some m => exact sameOps_setCache _
    have hentry : Keeps SameOps (listEntry h dir entry : FsM τ Errno (List DirEntry)) := by
      rw [listEntry]
      split_ifs
      · exact keeps_pure _
      · exact (sameOps_getOrAssignIno _).bind fun _ => (hlisted _).bind fun _ => keeps_pure _
    exact hentry.bind fun _ => ih.bind fun _ => keeps_pure _

lemma sameOps_releaseCopy (i id : ℕ) : Keeps SameOps (releaseCopy h i id : FsM τ Errno Unit) := by
  apply keeps_read.bind
  intro w
  split_ifs
  · exact keeps_crash
  · exact sameOps_onFiles _

lemma sameOps_write (offset : ℕ) (data : Bytes) :
    Keeps SameOps (AdbFs.write h fh offset data : FsM τ Errno Reply) :=
  (keeps_handleOf fh).bind fun _ => (keeps_ofExcept _).bind fun _ =>
    (sameOps_onFiles _).bind fun _ => keeps_pure _

lemma sameOps_release : Keeps SameOps (AdbFs.release h fh : FsM τ Errno Reply) := by
  apply keeps_read.bind
  intro w
  split
  · exact (sameOps_onFiles _).bind fun _ => (sameOps_releaseCopy _ _).bind fun _ => keeps_pure _
  · exact keeps_pure _

end Devices

section Looks

variable [Libc]

def Looks (w w' : PhoneFs) : Prop := w'.tree = w.tree ∧ w'.inodes = w.inodes

instance : Frame Looks where
  refl _ := ⟨rfl, rfl⟩
  trans _ _ _ h h' := ⟨h'.1.trans h.1, h'.2.trans h.2⟩
  same w w' hops _ hinodes := ⟨by rw [AdbFs.tree, hops], hinodes⟩
  pull p here w w' hops hcache hinodes :=
    ⟨(Frame.pull (R := Still) p here w w' hops hcache hinodes).tree, hinodes⟩

variable (h : Host)

lemma looks_fetchMeta (p : Text) : Keeps Looks (fetchMeta h p : FsM Phone DeviceError FileMeta) := by
  have hcache : ∀ f, Keeps Looks (update (AdbFs.setCache f) : FsM Phone DeviceError Unit) :=
    fun f => keeps_update fun _ => ⟨rfl, rfl⟩
  have hasked : Keeps Looks (onDevice (getMetadata p) : FsM Phone DeviceError FileMeta) := by
    apply Keeps.of_ends
    intro w
    apply ends_onDevice.mpr
    apply (getMetadata_ends p w.ops).imp
    · exact fun _ _ ht => ⟨ht.1, rfl⟩
    · exact fun _ _ ht => ⟨ht.1, rfl⟩
  apply Keeps.bind (keeps_lift fun _ => ⟨rfl, rfl⟩)
  rintro (_ | _ | m)
  · apply hasked.attempt.bind
    rintro (e | m)
    · cases e with
      | notFound q => exact (hcache _).bind fun _ => keeps_fail _
      | _ => exact keeps_fail _
    · exact (hcache _).bind fun _ => keeps_pure _
  · exact keeps_fail _
  · exact keeps_pure _

lemma looks_getattr (i : ℕ) : Keeps Looks (AdbFs.getattr h i : FsM Phone Errno Reply) :=
  (keeps_getPath i).bind fun _ => (looks_fetchMeta h _).mapError.bind fun _ =>
    keeps_read.bind fun _ => keeps_pure _

/-- The device does not change, and at most the path of the name is given an inode. -/
def LooksUp (parent : ℕ) (name : Bytes) (w w' : PhoneFs) : Prop :=
  w'.tree = w.tree ∧ (w'.inodes = w.inodes ∨ ∃ dir, w.inodes.getPath parent = some dir ∧
    w'.inodes = (w.assigned (childPath dir name)).inodes)

lemma LooksUp.given {parent : ℕ} {name : KernelName} {w w' : PhoneFs} (h : LooksUp parent name w w')
    (hw : w.inodes.WF) : Inodes.Given w.inodes w'.inodes := by
  rcases h.2 with hsame | ⟨dir, hdir, hassigned⟩
  · exact hsame ▸ hw.given_refl
  · rw [hassigned]
    exact hw.given_assigned (canonical_childPath (hw.canonical parent dir hdir) name)

lemma lookup_looks (parent : ℕ) (name : Bytes) (w : PhoneFs) :
    Ends (AdbFs.lookup h parent name) w (fun _ w' => LooksUp parent name w w')
      fun _ w' => LooksUp parent name w w' := by
  apply ends_getPath.mpr
  refine ⟨fun dir hdir => ?_, fun _ => ⟨rfl, Or.inl rfl⟩⟩
  apply ends_bind.mpr
  apply ends_read.mpr
  apply ends_bind.mpr
  apply ends_attempt.mpr
  apply ((looks_fetchMeta h _).ends w).imp
  · rintro m u ⟨htree, hinodes⟩
    apply ends_bind.mpr
    apply ends_lift.mpr
    refine ⟨htree, Or.inr ⟨dir, hdir, ?_⟩⟩
    change (u.inodes.getOrAssignIno _).2 = (w.inodes.getOrAssignIno _).2
    rw [hinodes]
  · rintro (e | _) u ⟨htree, hinodes⟩
    · cases e with
      | notFound q =>
        dsimp only
        split_ifs
        · exact ⟨htree, Or.inl hinodes⟩
        · exact ⟨htree, Or.inl hinodes⟩
      | _ => exact ⟨htree, Or.inl hinodes⟩
    · exact ⟨htree, Or.inl hinodes⟩

end Looks

end Adbfs
