import Adbfs.Library.Runs
import Adbfs.PhoneOps
import Adbfs.Upkeep

namespace Adbfs

open Library Library.Paths Library.Action

section Coherence

variable [Libc]

abbrev PhoneFs := AdbFs Phone

abbrev AdbFs.tree (w : PhoneFs) : Tree := w.ops.tree

abbrev AdbFs.failures (w : PhoneFs) : ℕ := w.ops.failures

def Matches : Option Node → Option FileMeta → Prop
  | some n, some m => SameMeta n.entry.fileMeta m
  | none, none => True
  | _, _ => False

/-- Whatever its age, an entry equals the device's metadata of its path. -/
def Coherent (w : PhoneFs) : Prop := ∀ p e, w.cache.peek p = some e → Matches (w.tree p) e

/-- An entry is either true of the device or older than the change, which then left its path alone. -/
def Refreshes (w w' : PhoneFs) : Prop :=
  ∀ p e, w'.cache.peek p = some e →
    Matches (w'.tree p) e ∨ w.cache.peek p = some e ∧ w'.tree p = w.tree p

/-- If no command failed, the cache kept up with the device. -/
structure Follows (w w' : PhoneFs) : Prop where
  failures : w.failures ≤ w'.failures
  refreshes : w'.failures = w.failures → Refreshes w w'

lemma Refreshes.trans {w w' w'' : PhoneFs} (h : Refreshes w w') (h' : Refreshes w' w'') :
    Refreshes w w'' := by
  intro p e he
  rcases h' p e he with hm | ⟨he', htree⟩
  · exact Or.inl hm
  · rcases h p e he' with hm | ⟨he, htree'⟩
    · exact Or.inl (htree ▸ hm)
    · exact Or.inr ⟨he, htree.trans htree'⟩

lemma Refreshes.coherent {w w' : PhoneFs} (h : Refreshes w w') (hw : Coherent w) : Coherent w' := by
  intro p e he
  rcases h p e he with hm | ⟨he, htree⟩
  · exact hm
  · exact htree ▸ hw p e he

lemma Follows.trans {w w' w'' : PhoneFs} (h : Follows w w') (h' : Follows w' w'') : Follows w w'' :=
  ⟨h.failures.trans h'.failures, fun heq =>
    (h.refreshes (by have := h.failures; have := h'.failures; omega)).trans
      (h'.refreshes (by have := h.failures; have := h'.failures; omega))⟩

instance : Std.Refl Follows := ⟨fun _ => ⟨le_rfl, fun _ _ _ he => Or.inr ⟨he, rfl⟩⟩⟩

instance : IsTrans PhoneFs Follows := ⟨fun _ _ _ => Follows.trans⟩

lemma Follows.of_lt {w w' : PhoneFs} (h : w.failures < w'.failures) : Follows w w' :=
  ⟨h.le, fun heq => absurd heq (by omega)⟩

/-- Only what the cache forgets about may have changed on the device. -/
lemma Follows.of_quietly {w w' : PhoneFs} {P : Prop} (h : Quietly w.ops w'.ops P)
    (hP : P → ∀ p e, w'.cache.peek p = some e →
      Matches (w'.tree p) e ∨ w.cache.peek p = some e ∧ w'.tree p = w.tree p) : Follows w w' :=
  ⟨h.1, fun heq => hP (h.2 heq)⟩

lemma Follows.of_same {w w' : PhoneFs} (hops : w'.ops = w.ops) (hcache : w'.cache = w.cache) :
    Follows w w' :=
  ⟨by rw [AdbFs.failures, AdbFs.failures, hops], fun _ p e he => Or.inr
    ⟨hcache ▸ he, by rw [AdbFs.tree, AdbFs.tree, hops]⟩⟩

instance : Frame Follows where
  same _ _ hops hcache _ := Follows.of_same hops hcache
  pull p here w w' hops hcache _ := by
    have hadb : w'.ops.adb = (AdbDevice.pull p here w.ops.adb).2 := congrArg DeviceOps.adb hops
    rcases pull_cases p here w.ops.adb with ⟨-, _, -, -, htree, heq⟩ | ⟨-, htree, hlt⟩
    · rw [← hadb] at htree heq
      exact ⟨heq.ge, fun _ q e he => Or.inr ⟨hcache ▸ he, congrFun htree q⟩⟩
    · rw [← hadb] at hlt
      exact Follows.of_lt hlt

section Procedures

variable (h : Host)

lemma follows_getOrAssignIno (p : Text) :
    Keeps Follows (getOrAssignIno p : FsM Phone Errno ℕ) :=
  keeps_lift fun _ => Follows.of_same rfl rfl

lemma follows_change {x : OpsM Phone Unit} {p : Text} {P : Tree → Tree → Prop}
    (hx : ∀ s, Ends x s (fun _ t => Quietly s t (P s.tree t.tree)) fun _ t => s.failures < t.failures)
    (hP : ∀ tree tree', P tree tree' → ∀ q, q ≠ p → tree' q = tree q) :
    Keeps Follows (device x >>= fun _ => cacheInvalidate p) := by
  apply Keeps.of_ends
  intro w
  apply ends_bind.mpr
  apply ends_device.mpr
  apply (hx w.ops).imp
  · rintro _ s hs
    apply ends_update.mpr
    refine Follows.of_quietly hs fun hp q e he => Or.inr ?_
    change (w.cache.invalidate p).peek q = some e at he
    rw [MetadataCache.peek_invalidate] at he
    split_ifs at he with hq
    exact ⟨he, hP _ _ hp q hq⟩
  · exact fun _ s hs => Follows.of_lt hs

lemma follows_insert {w t : PhoneFs} {p : Text} {m : Option FileMeta} {now : ℕ} (hw : Follows w t)
    (hm : t.failures = w.failures → Matches (t.tree p) m) :
    Follows w (t.setCache (MetadataCache.insert p m now)) := by
  refine ⟨hw.failures, fun heq q e he => ?_⟩
  change (t.cache.insert p m now).peek q = some e at he
  rw [MetadataCache.peek_insert] at he
  split_ifs at he with hq
  · rw [hq, ← Option.some.inj he]
    exact Or.inl (hm heq)
  · exact hw.refreshes heq q e he

lemma onDevice_getMetadata_ends (p : Text) (w : PhoneFs) :
    Ends (onDevice (getMetadata p)) w
      (fun m t => (Follows w t ∧ t = w.setOps t.ops ∧ t.tree = w.tree) ∧
        (t.failures = w.failures → Stats w.tree p (.ok m)))
      fun e t => (Follows w t ∧ t = w.setOps t.ops ∧ t.tree = w.tree) ∧
        (t.failures = w.failures → Stats w.tree p (.error e)) := by
  have hframe : ∀ s : DeviceOps Phone, s.tree = w.tree → w.failures ≤ s.failures →
      Follows w (w.setOps s) ∧ w.setOps s = w.setOps (w.setOps s).ops ∧ (w.setOps s).tree = w.tree :=
    fun s htree hle => ⟨⟨hle, fun _ q e he => Or.inr ⟨he, congrFun htree q⟩⟩, rfl, htree⟩
  apply ends_onDevice.mpr
  apply (getMetadata_ends p w.ops).imp
  · exact fun m s hs => ⟨hframe s hs.1 hs.2.1, hs.2.2⟩
  · exact fun e s hs => ⟨hframe s hs.1 hs.2.1, hs.2.2⟩

lemma Stats.matches {tree : Tree} {p : Text} {m : FileMeta} (hs : Stats tree p (.ok m)) :
    Matches (tree p) (some m) := by
  obtain ⟨n, hn, hm⟩ := hs.found m rfl
  rw [hn]
  exact hm

lemma Stats.missing {tree : Tree} {p q : Text} (hs : Stats tree p (.error (.error (.notFound q)))) :
    q = p ∧ tree p = none := by
  rcases hs.failed _ rfl with ⟨hnone, he⟩ | ⟨he, -⟩
  · simp only [Abort.error.injEq, DeviceError.notFound.injEq] at he
    exact ⟨he, hnone⟩
  · simp at he

lemma device_getMetadata_ends (p : Text) (w : PhoneFs) :
    Ends (device (getMetadata p)) w
      (fun m t => Follows w t ∧ (t.failures = w.failures → Matches (t.tree p) (some m)))
      fun _ t => Follows w t := by
  apply ends_mapError.mpr
  apply (onDevice_getMetadata_ends p w).imp
  · rintro m t ⟨⟨hf, -, htree⟩, hs⟩
    refine ⟨hf, fun heq => ?_⟩
    rw [htree]
    exact (hs heq).matches
  · exact fun _ _ ht => ht.1.1

lemma follows_fetchMeta (p : Text) : Keeps Follows (fetchMeta h p : FsM Phone DeviceError FileMeta) := by
  have hget : ∀ w : PhoneFs, Follows w (w.setCache fun c => (c.get p h.now).2) := by
    intro w
    exact ⟨le_rfl, fun _ q e he => Or.inr ⟨w.cache.peek_of_peek_get he, rfl⟩⟩
  apply Keeps.bind (keeps_lift hget)
  rintro (_ | _ | m)
  · apply Keeps.of_ends
    intro w
    apply ends_bind.mpr
    apply ends_attempt.mpr
    apply (onDevice_getMetadata_ends p w).imp
    · rintro m t ⟨⟨hf, -, htree⟩, hs⟩
      apply ends_bind.mpr
      exact follows_insert hf fun heq => htree ▸ (hs heq).matches
    · rintro e t ⟨⟨hf, -, htree⟩, hs⟩
      rcases e with e | _
      · cases e with
        | notFound q =>
          apply ends_bind.mpr
          refine follows_insert hf fun heq => ?_
          rw [htree, (hs heq).missing.2]
          trivial
        | _ => exact hf
      · exact hf
  · exact keeps_fail _
  · exact keeps_pure _

lemma follows_pushAndSync (here : LocalPath) (contents : Option Bytes) (p : Text) (w : PhoneFs) :
    Ends (device (pushAndSync here contents p)) w
      (fun _ t => Follows w (t.setCache (MetadataCache.invalidate p)))
      fun _ t => w.failures < t.failures := by
  apply ends_device.mpr
  apply (pushAndSync_ends here contents p w.ops).imp
  · rintro _ s ⟨hle, hfits, n, -, -, htree⟩
    refine ⟨hle, fun _ q e he => Or.inr ?_⟩
    change (w.cache.invalidate p).peek q = some e at he
    rw [MetadataCache.peek_invalidate] at he
    split_ifs at he with hq
    refine ⟨he, (congrFun htree q).trans (Function.update_of_ne hq _ _)⟩
  · exact fun _ s hs => hs.1

lemma follows_pushIfDirty (ino id : ℕ) : Keeps Follows (pushIfDirty ino id : FsM Phone Errno Unit) := by
  apply keeps_read.bind
  intro w
  split_ifs
  · apply (keeps_onFiles _).bind
    intro _
    split
    · exact (keeps_onFiles _).bind fun _ => keeps_fail _
    · next p _ =>
      apply Keeps.of_ends
      intro v
      apply ends_bind.mpr
      apply ends_attempt.mpr
      apply (follows_pushAndSync _ _ p v).imp
      · exact fun _ t ht => ht
      · rintro (e | _) t hlt
        · exact Follows.of_lt hlt
        · exact Follows.of_lt hlt
  · exact keeps_pure _

end Procedures

section Listing

variable (h : Host) (dir : Text) (all : List (Text × Option FileMeta))

structure Caches (w t : PhoneFs) : Prop where
  ops : t.ops = w.ops
  fresh : ∀ q e, t.cache.peek q = some e → w.cache.peek q = some e ∨
    ∃ entry ∈ all, isDots entry.1 = false ∧ q = childText dir entry.1 ∧ e.isSome ∧ e = entry.2

instance : Std.Refl (Caches dir all) := ⟨fun _ => ⟨rfl, fun _ _ he => Or.inl he⟩⟩

instance : IsTrans PhoneFs (Caches dir all) where
  trans _ _ _ h h' := by
    refine ⟨h'.ops.trans h.ops, fun q e he => ?_⟩
    rcases h'.fresh q e he with he | hnew
    · exact h.fresh q e he
    · exact Or.inr hnew

lemma caches_listEntry {entry : Text × Option FileMeta} (hmem : entry ∈ all) :
    Keeps (Caches dir all) (listEntry h dir entry : FsM Phone Errno (List DirEntry)) := by
  rw [listEntry]
  split_ifs with hdots
  · exact keeps_pure _
  · have hassign : Keeps (Caches dir all) (getOrAssignIno (childText dir entry.1) :
        FsM Phone Errno ℕ) := keeps_lift fun _ => ⟨rfl, fun _ _ he => Or.inl he⟩
    apply hassign.bind
    intro ino
    have hinsert : Keeps (Caches dir all) (cacheListed (childText dir entry.1) entry.2 h.now :
        FsM Phone Errno Unit) := by
      cases hm : entry.2 with
      | none => exact keeps_pure _
      | some m =>
        apply keeps_update
        refine fun w => ⟨rfl, fun q e he => ?_⟩
        change (w.cache.insert (childText dir entry.1) (some m) h.now).peek q = some e at he
        rw [MetadataCache.peek_insert] at he
        split_ifs at he with hq
        · rw [Option.some.injEq] at he
          exact Or.inr ⟨entry, hmem, by simpa using hdots, hq, by rw [← he]; rfl, by rw [hm, he]⟩
        · exact Or.inl he
    exact hinsert.bind fun _ => keeps_pure _

lemma caches_listEntries (entries : List (Text × Option FileMeta)) (hsub : entries ⊆ all) :
    Keeps (Caches dir all) (listEntries h dir entries : FsM Phone Errno (List DirEntry)) := by
  induction entries with
  | nil => exact keeps_pure _
  | cons entry entries ih =>
    rw [List.cons_subset] at hsub
    apply (caches_listEntry h dir all hsub.1).bind
    intro first
    exact (ih hsub.2).bind fun _ => keeps_pure _

variable {dir all}

lemma Caches.follows {w u t : PhoneFs} (hw : Follows w u) (hc : Caches dir all u t)
    (hlists : u.failures = w.failures → Lists u.tree dir all) : Follows w t := by
  have hfailures : t.failures = u.failures := congrArg DeviceOps.failures hc.ops
  have htree : t.tree = u.tree := congrArg DeviceOps.tree hc.ops
  refine ⟨hfailures ▸ hw.failures, fun heq q e he => ?_⟩
  rw [hfailures] at heq
  rw [htree]
  rcases hc.fresh q e he with he | ⟨entry, hmem, hdots, rfl, hsome, rfl⟩
  · exact hw.refreshes heq q e he
  · obtain ⟨m, hm⟩ := Option.isSome_iff_exists.mp hsome
    obtain ⟨n, hn, hmeta⟩ := hlists heq entry hmem hdots m hm
    left
    rw [hn, hm]
    exact hmeta

end Listing

section Handlers

variable (h : Host)

lemma follows_getattr (ino : ℕ) : Keeps Follows (AdbFs.getattr h ino : FsM Phone Errno Reply) :=
  (keeps_getPath ino).bind fun _ => (follows_fetchMeta h _).mapError.bind fun _ =>
    keeps_read.bind fun _ => keeps_pure _

lemma follows_lookup (parent : ℕ) (name : Bytes) :
    Keeps Follows (AdbFs.lookup h parent name : FsM Phone Errno Reply) := by
  apply (keeps_getPath parent).bind
  intro p
  apply keeps_read.bind
  intro w
  apply (follows_fetchMeta h _).attempt.bind
  rintro (e | m)
  · cases e with
    | notFound q =>
      dsimp only
      split_ifs
      · exact keeps_pure _
      · exact keeps_fail _
    | _ => exact keeps_fail _
  · exact (follows_getOrAssignIno _).bind fun _ => keeps_pure _

lemma opendir_follows (ino : ℕ) (w : PhoneFs)
    (hnames : ∀ dir, w.inodes.getPath ino = some dir → Phone.Legible w.tree dir) :
    Follows w (AdbFs.opendir h ino w).2 := by
  apply ends_iff.mp
  have hself : Follows w w := Std.Refl.refl w
  apply ends_bind.mpr
  apply ends_bind.mpr
  apply ends_read.mpr
  apply ends_ofOption.mpr
  refine ⟨fun p hp => ?_, fun _ => hself⟩
  have hsame : ∀ s : DeviceOps Phone, s.tree = w.tree → w.failures ≤ s.failures →
      Follows w (w.setOps s) := fun s htree hle =>
    ⟨hle, fun _ q e he => Or.inr ⟨he, congrFun htree q⟩⟩
  apply ends_bind.mpr
  apply ends_device.mpr
  apply (listDir_ends p w.ops).imp
  · rintro entries s ⟨htree, hle, hlists⟩
    have hf := hsame s htree hle
    have hlists' : s.failures = w.failures → Lists (w.setOps s).tree p entries := by
      intro heq
      change Lists s.tree p entries
      rw [htree]
      exact hlists heq (hnames p hp)
    apply ends_bind.mpr
    apply ((caches_listEntries h p entries entries (List.Subset.refl _)).ends _).imp
    · exact fun children t ht => (ht.follows hf hlists').trans (Follows.of_same rfl rfl)
    · exact fun _ t ht => ht.follows hf hlists'
  · exact fun _ s hs => hsame s hs.1 hs.2

lemma follows_newEntry (p : Text) (f : FileMeta → ℕ → PhoneFs → Reply) :
    Keeps Follows (device (getMetadata p) >>= fun m => getOrAssignIno p >>= fun ino =>
      cacheInsert p (some m) h.now >>= fun _ => read >>= fun w => pure (f m ino w) :
        FsM Phone Errno Reply) := by
  apply Keeps.of_ends
  intro w
  apply ends_bind.mpr
  apply (device_getMetadata_ends p w).imp
  · rintro m t ⟨hf, hm⟩
    exact follows_insert (hf.trans (Follows.of_same rfl rfl)) hm
  · exact fun _ _ ht => ht

lemma follows_mkdir (parent : ℕ) (name : Bytes) :
    Keeps Follows (AdbFs.mkdir h parent name : FsM Phone Errno Reply) := by
  apply (keeps_getPath parent).bind
  intro dir
  apply Keeps.group
  · refine follows_change (P := fun tree tree' => ∃ n, tree (childPath dir name) = none ∧
      tree' = Function.update tree (childPath dir name) (some n)) (mkdir_ends _) ?_
    rintro tree tree' ⟨n, -, rfl⟩ q hq
    exact Function.update_of_ne hq _ _
  · exact fun _ => follows_newEntry h _ _

lemma follows_unlink (parent : ℕ) (name : Bytes) :
    Keeps Follows (AdbFs.unlink parent name : FsM Phone Errno Reply) := by
  apply (keeps_getPath parent).bind
  intro dir
  apply Keeps.group
  · refine follows_change (P := fun tree tree' => tree' =
      Function.update tree (childPath dir name) none) (rm_ends _) ?_
    rintro tree tree' rfl q hq
    exact Function.update_of_ne hq _ _
  · exact fun _ => keeps_pure _

lemma follows_rmdir (parent : ℕ) (name : Bytes) :
    Keeps Follows (AdbFs.rmdir parent name : FsM Phone Errno Reply) := by
  apply (keeps_getPath parent).bind
  intro dir
  apply Keeps.of_ends
  intro w
  apply ends_bind.mpr
  apply ends_device.mpr
  apply (rmdir_ends _ w.ops).imp
  · rintro _ s hs
    refine Follows.of_quietly hs fun htree q e he => Or.inr ?_
    obtain ⟨he, hq, -⟩ := MetadataCache.peek_invalidatePrefix_of_some he
    exact ⟨he, (congrFun htree q).trans (Function.update_of_ne hq _ _)⟩
  · exact fun _ s hs => Follows.of_lt hs

lemma follows_flush (fh : ℕ) : Keeps Follows (AdbFs.flush fh : FsM Phone Errno Reply) :=
  (keeps_handleOf fh).bind fun _ => (follows_pushIfDirty _ _).bind fun _ => keeps_pure _

lemma follows_touchTimes (p : Text) (atime mtime : Option TimeOrNow) :
    Keeps Follows (touchTimes h p atime mtime : FsM Phone Errno Unit) := by
  rw [touchTimes]
  split_ifs
  · exact keeps_pure _
  · exact follows_change (touch_ends p _ _) fun _ _ ht => ht.other

lemma follows_afterResize (ino : ℕ) (p : Text) (atime mtime : Option TimeOrNow) :
    Keeps Follows (touchTimes h p atime mtime >>= fun _ => device (getMetadata p) >>= fun m =>
      cacheInsert p (some m) h.now >>= fun _ => read >>= fun w =>
        pure (.attr w.opts.attrTimeout (w.opts.metaToAttr ino m)) : FsM Phone Errno Reply) := by
  apply (follows_touchTimes h p atime mtime).bind
  intro _
  apply Keeps.of_ends
  intro w
  apply ends_bind.mpr
  apply (device_getMetadata_ends p w).imp
  · rintro m t ⟨hf, hm⟩
    exact follows_insert hf hm
  · exact fun _ _ ht => ht

lemma follows_setattr (ino : ℕ) (size : Option ℕ) (atime mtime : Option TimeOrNow) :
    Keeps Follows (AdbFs.setattr h ino size atime mtime : FsM Phone Errno Reply) :=
  (keeps_getPath ino).bind fun p =>
    (keeps_resize h p size fun id => follows_pushIfDirty ino id).bind fun _ =>
      follows_afterResize h ino p atime mtime

lemma follows_readlink (ino : ℕ) : Keeps Follows (AdbFs.readlink h ino : FsM Phone Errno Reply) := by
  apply (keeps_getPath ino).bind
  intro p
  apply (follows_fetchMeta h p).mapError.bind
  intro m
  have hresolve : Keeps Follows (device (resolveSymlink p m.rawLine) : FsM Phone Errno Text) := by
    apply Keeps.mapError
    apply keeps_zoom
    intro w
    rw [resolveSymlink]
    cases parseSymlinkTarget m.rawLine (p.count '/') <;> exact Follows.of_same rfl rfl
  exact hresolve.bind fun _ => keeps_pure _

lemma follows_create (parent : ℕ) (name : Bytes) :
    Keeps Follows (AdbFs.create h parent name : FsM Phone Errno Reply) := by
  apply (keeps_getPath parent).bind
  intro dir
  apply (follows_getOrAssignIno _).bind
  intro ino
  apply (keeps_acquireCopy h ino _ .empty).bind
  intro id
  apply Keeps.of_ends
  intro w
  have hdevice : Ends (createOnDevice h ino id (childPath dir name)) w
      (fun m t => Follows w t ∧
        (t.failures = w.failures → Matches (t.tree (childPath dir name)) (some m)))
      fun _ t => Follows w t := by
    apply ends_bind.mpr
    apply ((keeps_outcome (R := Follows) h.openFile).ends w).imp
    · intro _ u hu
      apply ends_bind.mpr
      apply ((follows_pushIfDirty ino id).ends u).imp
      · intro _ v hv
        apply (device_getMetadata_ends _ v).imp
        · rintro m t ⟨hf, hm⟩
          refine ⟨(hu.trans hv).trans hf, fun heq => hm ?_⟩
          have hle := (hu.trans hv).failures
          have hle' := hf.failures
          omega
        · exact fun _ _ ht => (hu.trans hv).trans ht
      · exact fun _ _ hv => hu.trans hv
    · exact fun _ _ hu => hu
  apply ends_bind.mpr
  apply ends_attempt.mpr
  apply hdevice.imp
  · rintro m t ⟨hf, hm⟩
    apply ends_bind.mpr
    apply ends_update.mpr
    have hinsert := @follows_insert _ _ _ _ _ h.now hf hm
    have hrest : Keeps Follows (addHandle ino id >>= fun fh => read >>= fun w =>
        pure (.created w.opts.entryTimeout (w.opts.metaToAttr ino m) 0 fh w.opts.fileOpenFlags) :
          FsM Phone Errno Reply) :=
      (keeps_addHandle ino id).bind fun _ => keeps_read.bind fun _ => keeps_pure _
    apply (hrest.ends _).imp
    · exact fun _ _ ht => hinsert.trans ht
    · exact fun _ _ ht => hinsert.trans ht
  · rintro (e | _) t ht
    · have hrest : Keeps Follows (releaseCopy h ino id >>= fun _ => fail e :
          FsM Phone Errno Reply) := (keeps_releaseCopy h ino id).bind fun _ => keeps_fail _
      apply (hrest.ends t).imp
      · exact fun _ _ hu => ht.trans hu
      · exact fun _ _ hu => ht.trans hu
    · exact ht

lemma follows_mknod (parent : ℕ) (name : Bytes) (mode : ℕ) :
    Keeps Follows (AdbFs.mknod h parent name mode : FsM Phone Errno Reply) := by
  apply (keeps_getPath parent).bind
  intro dir
  apply (keeps_outcome _).bind
  intro _
  apply (keeps_outcome _).bind
  intro _
  apply Keeps.group
  · apply Keeps.of_ends
    intro w
    apply ends_bind.mpr
    apply (follows_pushAndSync .scratch (nodeContents mode) (childPath dir name) w).imp
    · exact fun _ _ ht => ht
    · exact fun _ _ ht => Follows.of_lt ht
  · exact fun _ => follows_newEntry h _ _

lemma Refreshes.of_moved {w t : PhoneFs} {source target : Text}
    (hcache : t.cache = (w.cache.invalidatePrefix source).invalidatePrefix target)
    (htree : t.tree = moveTree source target w.tree)
    (hsource : MetadataCache.dirPrefix source = source ++ ['/'])
    (htarget : MetadataCache.dirPrefix target = target ++ ['/']) : Refreshes w t := by
  intro q e he
  rw [hcache] at he
  obtain ⟨he, hq, hq'⟩ := MetadataCache.peek_invalidatePrefix_of_some he
  obtain ⟨he, hp, hp'⟩ := MetadataCache.peek_invalidatePrefix_of_some he
  rw [htarget] at hq'
  rw [hsource] at hp'
  exact Or.inr ⟨he, (congrFun htree q).trans (moveTree_other hp hp' hq hq')⟩

def renameSource {τ : Type} (w : AdbFs τ) (parent : ℕ) (name : Bytes) : Option Text :=
  (w.inodes.getPath parent).map fun dir => childPath dir name

def renameTarget {τ : Type} (w : AdbFs τ) (newparent : ℕ) (newname : Bytes) : Option Text :=
  (w.inodes.getPath newparent).map fun dir => childPath dir newname

lemma rename_follows (parent newparent : ℕ) (name newname : KernelName) (w : PhoneFs)
    (honto : ∀ source target, renameSource w parent name = some source →
      renameTarget w newparent newname = some target →
        Phone.mvTarget w.tree source target = target) :
    Follows w (AdbFs.rename h parent name newparent newname w).2 := by
  apply ends_iff.mp
  have hself : Follows w w := Std.Refl.refl w
  apply ends_bind.mpr
  apply ends_bind.mpr
  apply ends_read.mpr
  apply ends_ofOption.mpr
  refine ⟨fun fromDir hfrom => ?_, fun _ => hself⟩
  apply ends_bind.mpr
  apply ends_bind.mpr
  apply ends_read.mpr
  apply ends_ofOption.mpr
  refine ⟨fun toDir hto => ?_, fun _ => hself⟩
  apply ends_bind.mpr
  apply ends_device.mpr
  apply (mv_ends (childPath fromDir name) (childPath toDir newname) w.ops
    (honto _ _ (by rw [renameSource, hfrom]; rfl) (by rw [renameTarget, hto]; rfl))).imp
  · rintro _ s hs
    refine Follows.of_quietly hs fun hmoved => ?_
    exact Refreshes.of_moved (w := w) rfl hmoved.2.2.2 (dirPrefix_childPath _ _)
      (dirPrefix_childPath _ _)
  · exact fun _ s hs => Follows.of_lt hs

/-- `mv` does not take the target of a rename for a directory. -/
def NoDirTarget (w : PhoneFs) : Request → Prop
  | .rename parent name newparent newname _ => ∀ source target,
      renameSource w parent name = some source →
      renameTarget w newparent newname = some target →
      Phone.mvTarget w.tree source target = target
  | _ => True

/-- What is opened with `opendir` holds no link whose name ends in half an arrow, and no other file
with an arrow in its name. -/
def LegibleDir (w : PhoneFs) : Request → Prop
  | .opendir ino => ∀ dir, w.inodes.getPath ino = some dir → Phone.Legible w.tree dir
  | _ => True

lemma handle_follows (w : PhoneFs) (request : Request) (hdir : NoDirTarget w request)
    (hnames : LegibleDir w request) : Follows w (AdbFs.handle h request w).2 := by
  cases request with
  | getattr ino => exact (follows_getattr h ino).holds w
  | lookup parent name => exact (follows_lookup h parent name).holds w
  | opendir ino => exact opendir_follows h ino w hnames
  | readdir fh offset => exact (keeps_readdir h fh offset).holds w
  | releasedir fh => exact Follows.of_same rfl rfl
  | «open» ino => exact (keeps_open h ino).holds w
  | read fh offset size => exact (keeps_readFile h fh offset size).holds w
  | write fh offset data => exact (keeps_write h fh offset data).holds w
  | flush fh => exact (follows_flush fh).holds w
  | release fh => exact (keeps_release h fh).holds w
  | access ino => exact Follows.of_same rfl rfl
  | mkdir parent name => exact (follows_mkdir h parent name).holds w
  | unlink parent name => exact (follows_unlink parent name).holds w
  | rmdir parent name => exact (follows_rmdir parent name).holds w
  | rename parent name newparent newname flags =>
    exact rename_follows h parent newparent name newname w hdir
  | setattr ino size atime mtime fh => exact (follows_setattr h ino size atime mtime).holds w
  | readlink ino => exact (follows_readlink h ino).holds w
  | create parent name => exact (follows_create h parent name).holds w
  | mknod parent name mode => exact (follows_mknod h parent name mode).holds w

end Handlers

end Coherence

def QuietRun [Libc] (w w' : PhoneFs) : Prop :=
  Run (fun w c w' => Serves w c w' ∧ w'.failures = w.failures)
    (fun w (c : Call) => NoDirTarget w c.request ∧ LegibleDir w c.request) w w'

theorem cache_coherent [Libc] (ops : DeviceOps Phone) (cacheTtl : ℕ) (opts : FsOptions)
    {w : PhoneFs} (h : QuietRun (AdbFs.new ops cacheTtl opts) w) :
    ∀ p e, w.cache.peek p = some e →
      (e = none ∧ w.tree p = none) ∨
        ∃ n m, w.tree p = some n ∧ e = some m ∧ { n.entry.fileMeta with rawLine := m.rawLine } = m := by
  have hcoherent : Coherent w := by
    refine Run.invariant ?_ h ?_
    · rintro w c w' hw ⟨hdir, hnames⟩ ⟨hserve, hquiet⟩
      have hfollows := handle_follows c.host w c.request hdir hnames
      rw [← serve_snd, hserve] at hfollows
      exact (hfollows.refreshes hquiet).coherent hw
    · intro p e he
      simp [AdbFs.new, MetadataCache.new, MetadataCache.peek] at he
  intro p e he
  have hm := hcoherent p e he
  cases hn : w.tree p with
  | none =>
    cases e with
    | none => exact Or.inl ⟨rfl, rfl⟩
    | some m => simp [Matches, hn] at hm
  | some n =>
    cases e with
    | none => simp [Matches, hn] at hm
    | some m =>
      rw [hn] at hm
      exact Or.inr ⟨n, m, rfl, rfl, hm⟩

section Plain

attribute [local instance] plainLibc

def oneFile : PhoneFs :=
  AdbFs.new ⟨plainPhone [("/a".toList, byteNode 7)] [], true, false⟩ (10 ^ 9) {}

def nameA : KernelName := ⟨[97], by decide⟩

/-- The root directory holds a link whose name ends in half an arrow. -/
def arrowPhone : Phone :=
  { plainPhone [("/a ->".toList, linkNode "t".toList)] [] with
    plan := fun _ => { plainFate dirNode with listing := [.file "a ->".toList] } }

def arrowFs : PhoneFs := AdbFs.new ⟨arrowPhone, true, false⟩ (10 ^ 9) {}

/-- The link's line ends in `a -> -> t`, and the cache learns of a file `/a`. -/
theorem cache_coherent_fails_for_arrow_name :
    let w := (AdbFs.serve (plainHost 0 0 0) (.opendir 1) arrowFs).2
    (AdbFs.serve (plainHost 0 0 0) (.opendir 1) arrowFs).1 = some (.opened 1 FopenFlags.none) ∧
      w.failures = arrowFs.failures ∧ (∀ p, w.tree p ≠ none → ¬ arrow <:+: p ∧ '\n' ∉ p) ∧
      w.tree "/a".toList = none ∧ ∃ m, w.cache.peek "/a".toList = some (some m) := by
  intro w
  refine ⟨by decide, by decide, fun p hp => ?_, by decide, ?_⟩
  · have htree : w.tree = (plainPhone [("/a ->".toList, linkNode "t".toList)] []).tree := rfl
    rw [htree] at hp
    rcases plainPhone_holds hp with rfl | ⟨f, hf, rfl⟩
    · decide
    · obtain rfl := List.mem_singleton.mp hf
      decide
  · have hcached : ((w.cache.peek "/a".toList).bind id).isSome := by decide
    obtain ⟨m, hm⟩ := Option.isSome_iff_exists.mp hcached
    obtain ⟨e, he, rfl⟩ := Option.bind_eq_some_iff.mp hm
    exact ⟨m, he⟩

theorem cache_coherent_after_lookup :
    let w := (AdbFs.serve (plainHost 0 0 0) (.lookup 1 nameA) oneFile).2
    (w.cache.peek "/a".toList).isSome ∧
      ∀ e, w.cache.peek "/a".toList = some e → e.map FileMeta.size = some 1 := by
  intro w
  refine ⟨by decide, fun e he => ?_⟩
  have hrun : QuietRun oneFile w :=
    Run.single (a := ⟨.lookup 1 nameA, plainHost 0 0 0, (AdbFs.serve (plainHost 0 0 0)
      (.lookup 1 nameA) oneFile).1⟩) ⟨rfl, by decide⟩ ⟨trivial, trivial⟩
  rcases cache_coherent _ _ _ hrun _ _ he with ⟨-, hnone⟩ | ⟨n, m, hn, rfl, hm⟩
  · exact absurd hnone (by decide)
  · have hnode : w.tree "/a".toList = some (byteNode 7) := by rfl
    rw [hnode, Option.some.injEq] at hn
    rw [← hm, ← hn]
    rfl

end Plain

end Adbfs
