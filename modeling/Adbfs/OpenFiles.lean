import Adbfs.Holding
import Adbfs.Library.Runs

namespace Adbfs

open Library Library.Action Files

section Quiet

variable {τ : Type}

structure FilesKept (w w' : AdbFs τ) : Prop where
  files : w'.files = w.files
  nextFh : w.nextFh ≤ w'.nextFh

instance : Std.Refl (@FilesKept τ) := ⟨fun _ => ⟨rfl, le_rfl⟩⟩

instance : IsTrans (AdbFs τ) FilesKept :=
  ⟨fun _ _ _ h h' => ⟨h'.files.trans h.files, h.nextFh.trans h'.nextFh⟩⟩

section Steps

variable {ε α : Type}

lemma quiet_setCache (f : MetadataCache → MetadataCache) :
    Keeps FilesKept (update (AdbFs.setCache f) : FsM τ ε Unit) := keeps_update fun _ => ⟨rfl, le_rfl⟩

lemma quiet_onDevice (x : OpsM τ α) : Keeps FilesKept (onDevice x) :=
  keeps_zoom fun _ => ⟨rfl, le_rfl⟩

lemma quiet_device (x : OpsM τ α) : Keeps FilesKept (device x) := (quiet_onDevice x).mapError

lemma quiet_getOrAssignIno (p : Text) : Keeps FilesKept (getOrAssignIno p : FsM τ Errno ℕ) :=
  keeps_lift fun _ => ⟨rfl, le_rfl⟩

end Steps

variable (h : Host)

lemma quiet_listEntry (dir : Text) (entry : Text × Option FileMeta) :
    Keeps FilesKept (listEntry h dir entry : FsM τ Errno (List DirEntry)) := by
  rw [listEntry]
  split_ifs
  · exact keeps_pure _
  · apply (quiet_getOrAssignIno _).bind
    intro ino
    have hlisted : Keeps FilesKept (cacheListed (childText dir entry.1) entry.2 h.now :
        FsM τ Errno Unit) := by
      cases entry.2 with
      | none => exact keeps_pure _
      | some m => exact quiet_setCache _
    exact hlisted.bind fun _ => keeps_pure _

lemma quiet_listEntries (dir : Text) (entries : List (Text × Option FileMeta)) :
    Keeps FilesKept (listEntries h dir entries : FsM τ Errno (List DirEntry)) := by
  induction entries with
  | nil => exact keeps_pure _
  | cons entry entries ih =>
    exact (quiet_listEntry h dir entry).bind fun _ => ih.bind fun _ => keeps_pure _

variable [AdbDevice τ]

lemma quiet_touchTimes (p : Text) (atime mtime : Option TimeOrNow) :
    Keeps FilesKept (touchTimes h p atime mtime : FsM τ Errno Unit) := by
  rw [touchTimes]
  split_ifs
  · exact keeps_pure _
  · exact (quiet_device _).bind fun _ => quiet_setCache _

lemma quiet_unlink (parent : ℕ) (name : Bytes) :
    Keeps FilesKept (AdbFs.unlink parent name : FsM τ Errno Reply) :=
  (keeps_getPath parent).bind fun _ => (quiet_device _).bind fun _ => (quiet_setCache _).bind
    fun _ => keeps_pure _

lemma quiet_rmdir (parent : ℕ) (name : Bytes) :
    Keeps FilesKept (AdbFs.rmdir parent name : FsM τ Errno Reply) :=
  (keeps_getPath parent).bind fun _ => (quiet_device _).bind fun _ => (quiet_setCache _).bind
    fun _ => keeps_pure _

lemma quiet_rename (parent : ℕ) (name : Bytes) (newparent : ℕ) (newname : Bytes) :
    Keeps FilesKept (AdbFs.rename h parent name newparent newname : FsM τ Errno Reply) := by
  apply (keeps_getPath parent).bind
  intro source
  apply (keeps_getPath newparent).bind
  intro target
  apply (quiet_device _).bind
  intro _
  apply Keeps.bind (keeps_update fun _ => ⟨rfl, le_rfl⟩)
  intro _
  exact (quiet_setCache _).bind fun _ => (quiet_setCache _).bind fun _ => keeps_pure _

variable [Libc]

lemma quiet_fetchMeta (p : Text) : Keeps FilesKept (fetchMeta h p : FsM τ DeviceError FileMeta) := by
  have hget : ∀ w : AdbFs τ, FilesKept w (w.setCache fun c => (c.get p h.now).2) :=
    fun _ => ⟨rfl, le_rfl⟩
  apply Keeps.bind (keeps_lift hget)
  rintro (_ | _ | m)
  · apply (quiet_onDevice (getMetadata p)).attempt.bind
    rintro (e | m)
    · cases e with
      | notFound q => exact (quiet_setCache _).bind fun _ => keeps_fail _
      | _ => exact keeps_fail _
    · exact (quiet_setCache _).bind fun _ => keeps_pure _
  · exact keeps_fail _
  · exact keeps_pure _

lemma quiet_getattr (ino : ℕ) : Keeps FilesKept (AdbFs.getattr h ino : FsM τ Errno Reply) :=
  (keeps_getPath ino).bind fun _ => (quiet_fetchMeta h _).mapError.bind fun _ =>
    keeps_read.bind fun _ => keeps_pure _

lemma quiet_lookup (parent : ℕ) (name : Bytes) :
    Keeps FilesKept (AdbFs.lookup h parent name : FsM τ Errno Reply) := by
  apply (keeps_getPath parent).bind
  intro p
  apply keeps_read.bind
  intro w
  apply (quiet_fetchMeta h _).attempt.bind
  rintro (e | m)
  · cases e with
    | notFound q =>
      dsimp only
      split_ifs
      · exact keeps_pure _
      · exact keeps_fail _
    | _ => exact keeps_fail _
  · exact (quiet_getOrAssignIno _).bind fun _ => keeps_pure _

lemma quiet_opendir (ino : ℕ) : Keeps FilesKept (AdbFs.opendir h ino : FsM τ Errno Reply) := by
  have hfh : Keeps FilesKept (takeFh : FsM τ Errno ℕ) := keeps_lift fun _ => ⟨rfl, Nat.le_succ _⟩
  apply (keeps_getPath ino).bind
  intro p
  apply (quiet_device _).bind
  intro entries
  apply (quiet_listEntries h p entries).bind
  intro children
  apply hfh.bind
  intro fh
  exact Keeps.bind (keeps_update fun _ => ⟨rfl, le_rfl⟩) fun _ => keeps_pure _

lemma quiet_newEntry (p : Text) (f : FileMeta → ℕ → AdbFs τ → Reply) :
    Keeps FilesKept (device (getMetadata p) >>= fun m => getOrAssignIno p >>= fun ino =>
      cacheInsert p (some m) h.now >>= fun _ => read >>= fun w => pure (f m ino w) :
        FsM τ Errno Reply) :=
  (quiet_device _).bind fun _ => (quiet_getOrAssignIno p).bind fun _ =>
    (quiet_setCache _).bind fun _ => keeps_read.bind fun _ => keeps_pure _

lemma quiet_mkdir (parent : ℕ) (name : Bytes) :
    Keeps FilesKept (AdbFs.mkdir h parent name : FsM τ Errno Reply) :=
  (keeps_getPath parent).bind fun _ => (quiet_device _).bind fun _ => (quiet_setCache _).bind
    fun _ => quiet_newEntry h _ _

lemma quiet_readlink (ino : ℕ) : Keeps FilesKept (AdbFs.readlink h ino : FsM τ Errno Reply) :=
  (keeps_getPath ino).bind fun _ => (quiet_fetchMeta h _).mapError.bind fun _ =>
    (quiet_device _).bind fun _ => keeps_pure _

lemma quiet_mknod (parent : ℕ) (name : Bytes) (mode : ℕ) :
    Keeps FilesKept (AdbFs.mknod h parent name mode : FsM τ Errno Reply) :=
  (keeps_getPath parent).bind fun _ => (keeps_outcome _).bind fun _ => (keeps_outcome _).bind
    fun _ => (quiet_device _).bind fun _ => (quiet_setCache _).bind fun _ => quiet_newEntry h _ _

end Quiet

section Others

variable {τ : Type} {w w' w'' : AdbFs τ} {J : Option ℕ} {i id fh : ℕ} {c : Copy}

/-- The copies in the table are those that are referred to. -/
def AdbFs.Linked (w : AdbFs τ) : Prop := ∃ spare, w.Wired spare

structure OthersKept (J : Option ℕ) (w w' : AdbFs τ) : Prop where
  linked : w'.Linked
  copies : ∀ i, J ≠ some i → w'.shared.copies i = w.shared.copies i
  handles : ∀ fh i, J ≠ some i → (w'.shared.handles fh = some i ↔ w.shared.handles fh = some i)

lemma OthersKept.trans (h : OthersKept J w w') (h' : OthersKept J w' w'') : OthersKept J w w'' where
  linked := h'.linked
  copies i hi := (h'.copies i hi).trans (h.copies i hi)
  handles fh i hi := (h'.handles fh i hi).trans (h.handles fh i hi)

lemma FilesKept.wired {spare : ℕ → ℕ} (h : FilesKept w w') (hw : w.Wired spare) :
    w'.Wired spare := by
  refine ⟨h.files ▸ hw.files, fun fh hfh => ?_⟩
  rw [h.files]
  exact hw.fresh fh (h.nextFh.trans hfh)

lemma FilesKept.linked (h : FilesKept w w') (hw : w.Linked) : w'.Linked := by
  obtain ⟨spare, hwired⟩ := hw
  exact ⟨spare, h.wired hwired⟩

lemma FilesKept.shared (h : FilesKept w w') : w'.shared = w.shared := congrArg Files.shared h.files

lemma FilesKept.othersKept (h : FilesKept w w') (hw : w.Linked) (J : Option ℕ) : OthersKept J w w' where
  linked := h.linked hw
  copies i _ := by rw [h.shared]
  handles fh i _ := by rw [h.shared]

lemma OthersKept.of_shared (hw : w'.Linked) (h : w'.shared = w.shared) : OthersKept J w w' where
  linked := hw
  copies i _ := by rw [h]
  handles fh i _ := by rw [h]

lemma OthersKept.of_put (hw : w'.Linked) (h : w'.shared = w.shared.put i c) :
    OthersKept (some i) w w' where
  linked := hw
  copies j hj := by
    rw [h]
    exact Function.update_of_ne (fun heq => hj (congrArg some heq.symm)) _ _
  handles fh j _ := by
    rw [h]
    exact Iff.rfl

lemma OthersKept.of_put_drop (hw : w'.Linked) (h : w'.shared = (w.shared.put i c).drop i) :
    OthersKept (some i) w w' where
  linked := hw
  copies j hj := by
    have hji : j ≠ i := fun heq => hj (congrArg some heq.symm)
    rw [h, Shared.copies_drop_of_ne _ hji]
    exact Function.update_of_ne hji _ _
  handles fh j _ := by
    rw [h, Shared.handles_drop]
    exact Iff.rfl

lemma OthersKept.of_put_attach (hw : w'.Linked) (h : w'.shared = (w.shared.put i c).attach fh i)
    (hfh : w.shared.handles fh = none) : OthersKept (some i) w w' where
  linked := hw
  copies j hj := by
    rw [h]
    exact Function.update_of_ne (fun heq => hj (congrArg some heq.symm)) _ _
  handles g j hj := by
    rw [h]
    change Function.update w.shared.handles fh (some i) g = some j ↔ _
    by_cases hg : g = fh
    · subst hg
      rw [Function.update_self, hfh]
      simp [hj]
    · rw [Function.update_of_ne hg]

lemma OthersKept.of_detach (hw : w'.Linked) (h : w'.shared = w.shared.detach fh)
    (hfh : w.shared.handles fh = some i) : OthersKept (some i) w w' where
  linked := hw
  copies j _ := by
    rw [h]
    rfl
  handles g j hj := by
    rw [h]
    change Function.update w.shared.handles fh none g = some j ↔ _
    by_cases hg : g = fh
    · subst hg
      rw [Function.update_self, hfh]
      simp [hj]
    · rw [Function.update_of_ne hg]

lemma OthersKept.of_detach_drop (hw : w'.Linked) (h : w'.shared = (w.shared.detach fh).drop i)
    (hfh : w.shared.handles fh = some i) : OthersKept (some i) w w' where
  linked := hw
  copies j hj := by
    rw [h, Shared.copies_drop_of_ne _ fun heq => hj (congrArg some heq.symm)]
    rfl
  handles g j hj := by
    have hdetached : w'.shared.handles = (w.shared.detach fh).handles := by
      rw [h, Shared.handles_drop]
    rw [hdetached]
    change Function.update w.shared.handles fh none g = some j ↔ _
    by_cases hg : g = fh
    · subst hg
      rw [Function.update_self, hfh]
      simp [hj]
    · rw [Function.update_of_ne hg]

lemma AdbFs.Linked.live (hw : w.Linked) (hfh : w.shared.handles fh = some i) :
    ∃ id, w.files.openFiles.lookup fh = some ⟨i, id⟩ ∧ w.files.openCopies.lookup i = some id ∧
      w.shared.copies i = some ⟨w.files.contents id, (w.files.heap id).dirty⟩ := by
  obtain ⟨spare, hwired⟩ := hw
  obtain ⟨⟨j, id⟩, ho, rfl⟩ := Option.map_eq_some_iff.mp hfh
  have hid := hwired.files.handles fh _ ho
  exact ⟨id, ho, hid, hwired.files.copyOf_eq hid⟩

end Others

section Requests

variable {τ α : Type} {w : AdbFs τ} {i id fh : ℕ} {p : Text} {c : Copy} {spare : ℕ → ℕ}

lemma ends_handleOf {f : OpenFile → FsM τ Errno α} {Q : α → AdbFs τ → Prop}
    {E : Abort Errno → AdbFs τ → Prop} :
    Ends (handleOf fh >>= f) w Q E ↔
      (∀ o, w.files.openFiles.lookup fh = some o → Ends (f o) w Q E) ∧
        (w.files.openFiles.lookup fh = none → E (.error .ebadf) w) :=
  ends_bind.trans (ends_bind.trans ends_ofOption)

lemma ends_outcome {r : Option Errno} {Q : Unit → AdbFs τ → Prop}
    {E : Abort Errno → AdbFs τ → Prop} :
    Ends (outcome r) w Q E ↔ (r = none → Q () w) ∧ ∀ e, r = some e → E (.error e) w := by
  cases r <;> simp [outcome]

lemma AdbFs.Wired.opened {o : OpenFile} (hw : w.Wired spare)
    (ho : w.files.openFiles.lookup fh = some o) :
    w.shared.handles fh = some o.ino ∧ w.files.openCopies.lookup o.ino = some o.copy ∧
      w.shared.copies o.ino = some ⟨w.files.contents o.copy, (w.files.heap o.copy).dirty⟩ := by
  have hid := hw.files.handles fh o ho
  exact ⟨congrArg (Option.map OpenFile.ino) ho, hid, hw.files.copyOf_eq hid⟩

lemma holds_rewrite (hw : w.Wired spare) (hi : w.files.openCopies.lookup i = some id)
    (hc : w.shared.copies i = some c) (g : Bytes → Bytes) :
    Holds spare w (w.setFiles fun t => (t.setLocal (t.heap id).path
      ((t.contents id).map g)).setDirty id true) i id ⟨c.bytes.map g, true⟩ := by
  have hpath : (w.files.heap id).path = i := (hw.files.copies i id hi).path
  have hbytes : w.files.contents id = c.bytes := by rw [hw.copy_eq hi hc]
  obtain ⟨hlocal, hbytes'⟩ := hw.files.setLocal hi (c.bytes.map g)
  obtain ⟨hwired, hshared⟩ := hlocal.setDirty hi true
  have hnew : (w.files.setLocal i (c.bytes.map g)).contents id = c.bytes.map g := by
    simp [Files.contents, Files.setLocal, hpath]
  rw [hnew, hbytes', Shared.put_put] at hshared
  have hset : (w.setFiles fun t => (t.setLocal (t.heap id).path ((t.contents id).map g)).setDirty
      id true) = { w with files := (w.files.setLocal i (c.bytes.map g)).setDirty id true } := by
    rw [AdbFs.setFiles, hpath, hbytes]
  rw [hset]
  exact ⟨hw.within ⟨rfl, rfl, rfl, rfl⟩ hwired rfl, hi, hshared, ⟨rfl, rfl, rfl, rfl⟩⟩

lemma write_ends (h : Host) (offset : ℕ) (data : Bytes) (hw : w.Wired spare) :
    Ends (AdbFs.write h fh offset data) w
      (fun r w' => ∃ i id c n, r = .written n ∧ w.shared.handles fh = some i ∧
        w.shared.copies i = some c ∧
          Holds spare w w' i id ⟨c.bytes.map (Contents.writeAt offset (data.take n)), true⟩)
      fun _ w' => w' = w := by
  apply ends_handleOf.mpr
  refine ⟨fun o ho => ?_, fun _ => rfl⟩
  obtain ⟨hfh, hid, hc⟩ := hw.opened ho
  apply ends_bind.mpr
  apply ends_ofExcept.mpr
  refine ⟨fun n _ => ?_, fun _ _ => rfl⟩
  apply ends_bind.mpr
  apply ends_update.mpr
  refine ⟨o.ino, o.copy, _, min n data.length, rfl, hfh, hc, ?_⟩
  rw [← List.take_eq_take_min]
  exact holds_rewrite hw hid hc _

variable [AdbDevice τ]

lemma flush_ends (hw : w.Wired spare) :
    Ends (AdbFs.flush fh) w
      (fun r w' => r = .ok ∧ ∃ i id c, w.shared.handles fh = some i ∧
        w.files.openCopies.lookup i = some id ∧ w.shared.copies i = some c ∧
          PushDone spare i id c w w')
      fun e w' => w' = w ∨ ∃ i id c, w.shared.handles fh = some i ∧
        w.files.openCopies.lookup i = some id ∧ w.shared.copies i = some c ∧
          PushFailed spare i id c w e w' := by
  apply ends_handleOf.mpr
  refine ⟨fun o ho => ?_, fun _ => Or.inl rfl⟩
  obtain ⟨hfh, hid, hc⟩ := hw.opened ho
  apply ends_bind.mpr
  apply (ends_pushIfDirty hw hid hc).imp
  · exact fun _ w' h => ⟨rfl, o.ino, o.copy, _, hfh, hid, hc, h⟩
  · exact fun _ w' h => Or.inr ⟨o.ino, o.copy, _, hfh, hid, hc, h⟩

omit [AdbDevice τ] in
lemma release_ends (h : Host) (hw : w.Wired spare) :
    Ends (AdbFs.release h fh : FsM τ Errno Reply) w
      (fun _ w' => w.shared.handles fh = none ∧ w' = w ∨ ∃ i id, w.shared.handles fh = some i ∧
        w'.Wired spare ∧ (w'.shared = (w.shared.detach fh).drop i ∨
          spare id ≠ 0 ∧ w'.shared = w.shared.detach fh))
      fun _ _ => False := by
  apply ends_bind.mpr
  apply ends_read.mpr
  split
  · next o ho =>
    obtain ⟨hfh, -, -⟩ := hw.opened ho
    obtain ⟨hwired, hid, hshared⟩ := hw.files.detach ho
    have hw' : (w.setFiles fun t => { t with openFiles := t.openFiles.erase fh }).Wired
        (more o.copy spare) := by
      refine ⟨hwired, fun g hg => ?_⟩
      change (w.files.openFiles.erase fh).lookup g = none
      rw [Table.lookup_erase_eq, hw.fresh g hg, ite_self]
    apply ends_bind.mpr
    apply ends_update.mpr
    apply ends_bind.mpr
    apply (releaseCopy_ends (h := h) hw' hid).imp
    · rintro _ w' ⟨hwired', hshared', -, -⟩
      have hdetached : (w.setFiles fun t => { t with openFiles := t.openFiles.erase fh }).shared =
          w.shared.detach fh := hshared
      rw [hdetached] at hshared'
      exact Or.inr ⟨o.ino, o.copy, hfh, hwired', hshared'⟩
    · exact fun _ _ => False.elim
  · next ho => exact Or.inl ⟨congrArg (Option.map OpenFile.ino) ho, rfl⟩

omit [AdbDevice τ] in
lemma addHandle_ends (hw : w.Wired (more id spare)) (hi : w.files.openCopies.lookup i = some id) :
    Ends (addHandle i id : FsM τ Errno ℕ) w
      (fun fh w' => fh = w.nextFh ∧ w.shared.handles fh = none ∧ w'.Wired spare ∧
        w'.shared = w.shared.attach fh i ∧ w'.ops = w.ops)
      fun _ _ => False := by
  have hfh : w.files.openFiles.lookup w.nextFh = none := hw.fresh w.nextFh le_rfl
  obtain ⟨hwired, hshared⟩ := hw.files.attach hi hfh
  apply ends_bind.mpr
  apply ends_lift.mpr
  apply ends_bind.mpr
  apply ends_update.mpr
  apply ends_pure.mpr
  refine ⟨rfl, congrArg (Option.map OpenFile.ino) hfh, ⟨hwired, fun g hg => ?_⟩, hshared, rfl⟩
  have hg' : w.nextFh + 1 ≤ g := hg
  change (w.files.openFiles.insert w.nextFh ⟨i, id⟩).lookup g = none
  rw [Table.lookup_insert_eq, if_neg (by omega)]
  exact hw.fresh g (by omega)

structure GaveBack (spare : ℕ → ℕ) (i : ℕ) (c : Copy) (w w' : AdbFs τ) : Prop where
  wired : w'.Wired spare
  shared : w'.shared = (w.shared.put i c).drop i ∨ spare ≠ 0 ∧ w'.shared = w.shared.put i c

structure Opened (spare : ℕ → ℕ) (i : ℕ) (c : Copy) (w w' : AdbFs τ) : Prop where
  wired : w'.Wired spare
  shared : ∃ fh, w.shared.handles fh = none ∧ w'.shared = (w.shared.put i c).attach fh i

section Ownership

variable {h : Host} {w' : AdbFs τ} {E : Abort Errno → AdbFs τ → Prop}

omit [AdbDevice τ]

lemma GaveBack.othersKept (hback : GaveBack spare i c w w') : OthersKept (some i) w w' :=
  hback.shared.elim (.of_put_drop ⟨spare, hback.wired⟩) fun h => .of_put ⟨spare, hback.wired⟩ h.2

lemma AdbFs.Wired.handle_of_live (hw : w.Wired spare) (hc : w.shared.copies i = some c) :
    (∃ fh, w.shared.handles fh = some i) ∨ spare ≠ 0 := by
  obtain ⟨id, hi, -⟩ := Option.map_eq_some_iff.mp hc
  by_cases hused : ∃ fh, w.shared.handles fh = some i
  · exact Or.inl hused
  · right
    rintro rfl
    push Not at hused
    have hat := hw.files.copies i id hi
    have hrefs := hat.refs
    rw [(hw.files.count_eq_zero hi).mpr hused] at hrefs
    exact hat.used.ne' hrefs

lemma AdbFs.Wired.drop_live (hw : w.Wired spare) (hc : w.shared.copies i = some c) :
    w.shared.drop i = w.shared ∨ spare ≠ 0 := by
  rcases hw.handle_of_live hc with ⟨fh, hfh⟩ | hspare
  · exact Or.inl (Shared.drop_of_used hfh)
  · exact Or.inr hspare

lemma Unheld.gaveBack (hunheld : Unheld spare w w') (hc : w.shared.copies i = some c) :
    GaveBack spare i c w w' := by
  refine ⟨hunheld.wired, ?_⟩
  rw [Shared.put_self hc, hunheld.shared]
  exact (hunheld.wired.drop_live (by rw [hunheld.shared, hc])).imp
    (fun h => by rw [hunheld.shared] at h; exact h.symm) fun h => ⟨h, rfl⟩

lemma Opened.othersKept (hopened : Opened spare i c w w') : OthersKept (some i) w w' := by
  obtain ⟨hwired, fh, hfh, hshared⟩ := hopened
  exact .of_put_attach ⟨spare, hwired⟩ hshared hfh

lemma GaveBack.of_open (hback : GaveBack spare i c w w') (hfh : w.shared.handles fh = some i) :
    w'.shared = w.shared.put i c := by
  have hsame : (w.shared.put i c).drop i = w.shared.put i c :=
    Shared.drop_of_used (s := w.shared.put i c) hfh
  exact hback.shared.elim (fun h => h.trans hsame) And.right

lemma Opened.copies_eq (hopened : Opened spare i c w w') : w'.shared.copies i = some c := by
  obtain ⟨-, fh, -, hshared⟩ := hopened
  rw [hshared]
  exact Function.update_self _ _ _

lemma GaveBack.of_live (hback : GaveBack 0 i c w w') (hw : w.Wired 0)
    (hc : w.shared.copies i = some c) : w'.shared = w.shared := by
  have hput := hback.shared.resolve_right fun h => h.1 rfl
  rw [hput, Shared.put_self hc]
  exact (hw.drop_live hc).resolve_right fun h => h rfl

lemma GaveBack.of_absent (hback : GaveBack 0 i c w w') (hw : w.Wired 0)
    (hnone : w.shared.copies i = none) : w'.shared = w.shared := by
  have hput := hback.shared.resolve_right fun h => h.1 rfl
  have hunused : ∀ fh, (w.shared.put i c).handles fh ≠ some i := by
    intro fh hfh
    obtain ⟨id, -, -, hlive⟩ := AdbFs.Linked.live ⟨0, hw⟩ hfh
    rw [hnone] at hlive
    contradiction
  rw [hput, Shared.drop_of_unused hunused, Shared.put, Function.update_idem, ← hnone,
    Function.update_eq_self]

lemma GaveBack.copies_eq (hback : GaveBack spare i c w w') {d : Copy}
    (hd : w'.shared.copies i = some d) : d = c := by
  have hself : (w.shared.put i c).copies i = some c := Function.update_self _ _ _
  rcases hback.shared with hshared | ⟨-, hshared⟩
  · rw [hshared, Shared.drop] at hd
    split_ifs at hd
    · exact Option.some.inj (hd.symm.trans hself)
    · exact absurd ((Function.update_self _ _ _).symm.trans hd) (by simp)
  · rw [hshared, hself] at hd
    exact (Option.some.inj hd).symm

lemma Holds.othersKept (hholds : Holds spare w w' i id c) : OthersKept (some i) w w' :=
  .of_put ⟨spare, hholds.wired⟩ hholds.shared

lemma ends_giveBack {f : Unit → FsM τ Errno α} {Q : α → AdbFs τ → Prop}
    (hholds : Holds (more id spare) w w' i id c)
    (hf : ∀ u, GaveBack spare i c w u → u.ops = w'.ops → Ends (f ()) u Q E) :
    Ends (releaseCopy h i id >>= f) w' Q E := by
  apply ends_bind.mpr
  apply (releaseCopy_ends hholds.wired hholds.lookup).imp
  · rintro _ u ⟨hwired, hshared, hops, -⟩
    rw [hholds.shared] at hshared
    refine hf u ⟨hwired, hshared.imp_right fun hspare => ⟨?_, hspare.2⟩⟩ hops
    exact fun hzero => hspare.1 (congrFun hzero id)
  · exact fun _ _ => False.elim

lemma ends_addHandle {f : ℕ → FsM τ Errno α} {Q : α → AdbFs τ → Prop}
    (hholds : Holds (more id spare) w w' i id c)
    (hf : ∀ fh u, Opened spare i c w u → u.ops = w'.ops → Ends (f fh) u Q E) :
    Ends (addHandle i id >>= f) w' Q E := by
  apply ends_bind.mpr
  apply (addHandle_ends hholds.wired hholds.lookup).imp
  · rintro fh u ⟨-, hfh, hwired, hshared, hops⟩
    rw [hholds.shared] at hfh hshared
    exact hf fh u ⟨hwired, fh, hfh, hshared⟩ hops
  · exact fun _ _ => False.elim

end Ownership

lemma Acquires.live_eq {h : Host} {w' : AdbFs τ} {c d : Copy} (hacquires : Acquires h p i w w' .pull c)
    (hd : w.shared.copies i = some d) : c = d := by
  cases hacquires with
  | live hc _ => exact Option.some.inj (hc.symm.trans hd)
  | pull hnone _ _ =>
    rw [hnone] at hd
    simp at hd

lemma open_ends (h : Host) (hw : w.Wired spare) :
    Ends (AdbFs.open h i) w
      (fun _ w' => ∃ p c w₁, w.inodes.getPath i = some p ∧ Acquires h p i w w₁ .pull c ∧
        Opened spare i c w w' ∧ w'.ops = w₁.ops)
      fun _ w' => w'.Wired spare ∧ w'.shared = w.shared ∨
        ∃ p c w₁, w.inodes.getPath i = some p ∧ Acquires h p i w w₁ .pull c ∧
          GaveBack spare i c w w' := by
  apply ends_getPath.mpr
  refine ⟨fun p hp => ?_, fun _ => Or.inl ⟨hw, rfl⟩⟩
  apply ends_bind.mpr
  apply (acquireCopy_ends hw i p .pull).imp
  · rintro id w₁ ⟨c, hholds, hacquires⟩
    apply ends_bind.mpr
    apply ends_attempt.mpr
    apply ends_outcome.mpr
    constructor
    · intro _
      apply ends_addHandle hholds
      exact fun _ u hopened hops => ⟨p, c, w₁, hp, hacquires, hopened, hops⟩
    · intro e _
      apply ends_giveBack hholds
      exact fun u hback _ => Or.inr ⟨p, c, w₁, hp, hacquires, hback⟩
  · rintro _ w₁ ⟨-, hunheld, -⟩
    exact Or.inl ⟨hunheld.wired, hunheld.shared⟩

/-- Why a file that was made is not open. -/
inductive Uncreated [Libc] (h : Host) (p : Text) (i : ℕ) (f : Option Bytes) (w : AdbFs τ)
    (r : Abort Errno) (w' : AdbFs τ) : Prop
  | unopened {e : Errno} : h.openFile = some e → r = .error e → w'.ops = w.ops →
      Uncreated h p i f w r w'
  | unsent : Unsent i f w r w' → Uncreated h p i f w r w'
  | unknown {path : Text} {s : DeviceOps τ} {e : Abort DeviceError} : h.openFile = none →
      w.inodes.getPath i = some path → pushAndSync (.copy i) f path w.ops = (.ok (), s) →
      getMetadata p s = (.error e, w'.ops) → r = e.map DeviceError.toErrno → Uncreated h p i f w r w'

lemma Unsent.not_sent {w' : AdbFs τ} {f : Option Bytes} {r : Abort Errno} {path : Text}
    {s : DeviceOps τ} (h : Unsent i f w r w') (hpath : w.inodes.getPath i = some path) :
    pushAndSync (.copy i) f path w.ops ≠ (.ok (), s) := by
  intro hsent
  cases h with
  | nowhere hnone _ _ => simp [hpath] at hnone
  | refused hpath' hrefused _ =>
    obtain rfl := Option.some.inj (hpath.symm.trans hpath')
    rw [hsent] at hrefused
    simp at hrefused

lemma ends_createOnDevice [Libc] (h : Host) (hw : w.Wired spare)
    (hi : w.files.openCopies.lookup i = some id) (hc : w.shared.copies i = some c)
    (hdirty : c.dirty = true) :
    Ends (createOnDevice h i id p) w
      (fun m w' => Holds spare w w' i id { c with dirty := false } ∧
        ∃ path s, w.inodes.getPath i = some path ∧
          pushAndSync (.copy i) c.bytes path w.ops = (.ok (), s) ∧
            getMetadata p s = (.ok m, w'.ops))
      fun e w' => (∃ dirty, Holds spare w w' i id { c with dirty } ∧
        (h.openFile ≠ none → dirty = true) ∧
          (Unsent i c.bytes w e w' → e ≠ .panic → dirty = true)) ∧ Uncreated h p i c.bytes w e w' := by
  apply ends_bind.mpr
  apply ends_outcome.mpr
  refine ⟨fun hopen => ?_, fun _ he =>
    ⟨⟨c.dirty, holds_refl hw hi hc, fun _ => hdirty, fun _ _ => hdirty⟩, .unopened he rfl rfl⟩⟩
  apply ends_bind.mpr
  apply (ends_pushIfDirty hw hi hc).imp
  · intro _ w₁ hdone
    cases hdone with
    | clean hclean _ => simp [hdirty] at hclean
    | sent _ hpath hsent hholds =>
      apply ends_device.mpr
      apply ends_of_apply
      · intro m s hs
        exact ⟨hholds.of_files rfl (hholds.within.trans ⟨rfl, rfl, rfl, rfl⟩), _, _, hpath, hsent, hs⟩
      · intro e s hs
        refine ⟨⟨_, hholds.of_files rfl (hholds.within.trans ⟨rfl, rfl, rfl, rfl⟩),
          fun hstopped => absurd hopen hstopped, fun hunsent => ?_⟩, .unknown hopen hpath hsent hs rfl⟩
        exact absurd hsent (hunsent.not_sent hpath)
  · rintro e w₁ ⟨-, ⟨dirty, hholds, hdirty'⟩, hunsent⟩
    exact ⟨⟨_, hholds, fun hstopped => absurd hopen hstopped, fun _ => hdirty'⟩, .unsent hunsent⟩

section Causes

variable {w' w'' : AdbFs τ} {f : Option Bytes} {r : Abort Errno}

lemma Unsent.of_ops (h : Unsent i f w r w') (hops : w''.ops = w'.ops) : Unsent i f w r w'' := by
  cases h with
  | nowhere hnone hr hsame => exact .nowhere hnone hr (hops.trans hsame)
  | refused hpath hsent hr => exact .refused hpath (hops ▸ hsent) hr

lemma Unsent.of_start (h : Unsent i f w r w') (hinodes : w.inodes = w''.inodes)
    (hops : w.ops = w''.ops) : Unsent i f w'' r w' := by
  cases h with
  | nowhere hnone hr hsame => exact .nowhere (hinodes ▸ hnone) hr (hsame.trans hops)
  | refused hpath hsent hr => exact .refused (hinodes ▸ hpath) (hops ▸ hsent) hr

variable [Libc] {h : Host}

lemma Uncreated.of_ops (h' : Uncreated h p i f w r w') (hops : w''.ops = w'.ops) :
    Uncreated h p i f w r w'' := by
  cases h' with
  | unopened he hr hsame => exact .unopened he hr (hops.trans hsame)
  | unsent hunsent => exact .unsent (hunsent.of_ops hops)
  | unknown hopen hpath hsent hasked hr => exact .unknown hopen hpath hsent (hops ▸ hasked) hr

lemma Uncreated.of_start (h' : Uncreated h p i f w r w') (hinodes : w.inodes = w''.inodes)
    (hops : w.ops = w''.ops) : Uncreated h p i f w'' r w' := by
  cases h' with
  | unopened he hr hsame => exact .unopened he hr (hsame.trans hops)
  | unsent hunsent => exact .unsent (hunsent.of_start hinodes hops)
  | unknown hopen hpath hsent hasked hr =>
    exact .unknown hopen (hinodes ▸ hpath) (hops ▸ hsent) hasked hr

end Causes

def Request.created (w : AdbFs τ) (parent : ℕ) (name : Bytes) : Option ℕ :=
  (w.inodes.getPath parent).map fun p => (w.inodes.getOrAssignIno (childPath p name)).1

def AdbFs.assigned (w : AdbFs τ) (p : Text) : AdbFs τ := w.setInodes fun t => (t.getOrAssignIno p).2

lemma create_ends [Libc] (h : Host) {parent : ℕ} {dir : Text} (name : Bytes) (hw : w.Wired spare)
    (hdir : w.inodes.getPath parent = some dir) (hp : childPath dir name = p)
    (hi : (w.inodes.getOrAssignIno p).1 = i) :
    Ends (AdbFs.create h parent name) w
      (fun r w' => (∃ ttl a g fh flags, r = .created ttl a g fh flags) ∧
        Opened spare i ⟨some [], false⟩ w w' ∧ ∃ path s m,
          (w.assigned p).inodes.getPath i = some path ∧
            pushAndSync (.copy i) (some []) path w.ops = (.ok (), s) ∧
              getMetadata p s = (.ok m, w'.ops))
      fun e w' => h.create ≠ none ∧ w'.Wired spare ∧ w'.shared = w.shared ∧ w'.ops = w.ops ∨
        h.create = none ∧ Uncreated h p i (some []) (w.assigned p) e w' ∧ ∃ dirty spare',
          GaveBack spare' i ⟨some [], dirty⟩ w w' ∧ (e ≠ .panic → spare' = spare) ∧
            (h.openFile ≠ none → dirty = true) ∧
              (Unsent i (some []) (w.assigned p) e w' → e ≠ .panic → dirty = true) := by
  have hw₀ : (w.assigned p).Wired spare := ⟨hw.files, hw.fresh⟩
  apply ends_getPath.mpr
  refine ⟨fun dir' hdir' => ?_, fun hnone => ?_⟩
  swap
  · rw [hdir] at hnone
    simp at hnone
  obtain rfl := Option.some.inj (hdir.symm.trans hdir')
  dsimp only
  rw [hp]
  apply ends_bind.mpr
  apply ends_lift.mpr
  dsimp only
  rw [hi]
  apply ends_bind.mpr
  apply (acquireCopy_ends hw₀ i p .empty).imp
  · rintro id w₁ ⟨c, hholds, hacquires⟩
    obtain ⟨rfl, hcreate, hops⟩ : c = ⟨some [], true⟩ ∧ h.create = none ∧ w₁.ops = w.ops := by
      cases hacquires with
      | empty hcreate hops => exact ⟨rfl, hcreate, hops⟩
    have hinodes : w₁.inodes = (w.assigned p).inodes := hholds.within.inodes
    apply ends_bind.mpr
    apply ends_attempt.mpr
    apply (ends_createOnDevice h hholds.wired hholds.lookup hholds.copies_eq rfl).imp
    · rintro m w₂ ⟨hholds', path, s, hpath, hsent, hasked⟩
      rw [hinodes] at hpath
      rw [hops] at hsent
      have hboth := hholds.trans hholds'
      have hcached : Holds _ _ (w₂.setCache (MetadataCache.insert p (some m) h.now)) i id _ :=
        hboth.of_files rfl (hboth.within.trans ⟨rfl, rfl, rfl, rfl⟩)
      apply ends_bind.mpr
      apply ends_update.mpr
      apply ends_addHandle hcached
      rintro _ u ⟨hwired, hshared⟩ hu
      exact ⟨⟨_, _, _, _, _, rfl⟩, ⟨hwired, hshared⟩, path, s, m, hpath, hsent, hu ▸ hasked⟩
    · rintro e w₂ ⟨⟨dirty, hholds', hstopped, hunsent⟩, huncreated⟩
      have hwhy : Uncreated h p i (some []) (w.assigned p) e w₂ :=
        huncreated.of_start hinodes hops
      have hrefused : Unsent i (some []) (w.assigned p) e w₂ → e ≠ .panic → dirty = true :=
        fun h' => hunsent (h'.of_start hinodes.symm hops.symm)
      cases e with
      | panic =>
        -- the reference that the thread took stays
        have hleft := hholds.trans hholds'
        have hspare : more id spare ≠ 0 := by
          intro hzero
          have hone := congrFun hzero id
          simp at hone
        exact Or.inr ⟨hcreate, hwhy, dirty, _, ⟨hleft.wired, Or.inr ⟨hspare, hleft.shared⟩⟩,
          by simp, hstopped, hrefused⟩
      | error e =>
        apply ends_giveBack (hholds.trans hholds')
        intro u hu hsame
        exact Or.inr ⟨hcreate, hwhy.of_ops hsame, dirty, spare, ⟨hu.wired, hu.shared⟩,
          fun _ => rfl, hstopped, fun h' => hrefused (h'.of_ops hsame.symm)⟩
  · rintro e w₁ ⟨-, hunheld, hrefuses⟩
    left
    cases hrefuses with
    | empty hcreate hops => exact ⟨hcreate, hunheld.wired, hunheld.shared, hops⟩

lemma create_of_orphan [Libc] (h : Host) {parent : ℕ} (name : Bytes)
    (hdir : w.inodes.getPath parent = none) :
    AdbFs.create h parent name w = (.error (.error .enoent), w) := by
  have hget : (getPath parent : FsM τ Errno Text) w = (.error (.error .enoent), w) := by
    simp [getPath, hdir]
  rw [AdbFs.create, bind_of_error hget]

lemma create_othersKept [Libc] (h : Host) (parent : ℕ) (name : Bytes) (hw : w.Wired spare) :
    Ends (AdbFs.create h parent name) w
      (fun _ w' => OthersKept (Request.created w parent name) w w')
      fun _ w' => OthersKept (Request.created w parent name) w w' := by
  cases hdir : w.inodes.getPath parent with
  | none => exact ends_getPath.mpr ⟨fun p hp => by simp [hdir] at hp,
      fun _ => .of_shared ⟨spare, hw⟩ rfl⟩
  | some dir =>
    have hcreated : Request.created w parent name =
        some (w.inodes.getOrAssignIno (childPath dir name)).1 := by
      rw [Request.created, hdir]
      rfl
    rw [hcreated]
    apply (create_ends h name hw hdir rfl rfl).imp
    · exact fun _ w' h => h.2.1.othersKept
    · rintro _ w' (⟨-, hwired, hshared, -⟩ | ⟨-, -, dirty, spare', hback, -⟩)
      · exact .of_shared ⟨spare, hwired⟩ hshared
      · exact hback.othersKept

/-- What a setattr that fails leaves of a copy it finds. -/
def Copy.truncateFailed (h : Host) (size : ℕ) (c : Copy) : Copy :=
  if size = 0 then if h.create = none then ⟨some [], true⟩ else c
  else if h.openFile = none ∧ h.setLen = none then ⟨c.bytes.map (Contents.setLen size), true⟩ else c

omit [AdbDevice τ] in
lemma Copy.truncateFailed_dirty (h : Host) (n : ℕ) {c : Copy} (hc : c.dirty = true) :
    (c.truncateFailed h n).dirty = true := by
  rw [truncateFailed]
  split_ifs <;> simp [hc]

/-- The new length is not taken back where the push fails. -/
lemma ends_truncateCopy (h : Host) (size : ℕ) (hw : w.Wired spare)
    (hi : w.files.openCopies.lookup i = some id) (hc : w.shared.copies i = some c) :
    Ends (truncateCopy h i id size) w
      (fun _ w' => Holds spare w w' i id ⟨c.bytes.map (Contents.setLen size), false⟩ ∧
        ∃ path, w.inodes.getPath i = some path ∧ pushAndSync (.copy i)
          (c.bytes.map (Contents.setLen size)) path w.ops = (.ok (), w'.ops))
      fun e w' => (∃ c', Holds spare w w' i id c' ∧ (e ≠ .panic →
        c' = if h.openFile = none ∧ h.setLen = none then
          ⟨c.bytes.map (Contents.setLen size), true⟩ else c)) ∧
        if h.openFile = none ∧ h.setLen = none then
          Unsent i (c.bytes.map (Contents.setLen size)) w e w' else w'.ops = w.ops := by
  apply ends_bind.mpr
  apply ends_outcome.mpr
  refine ⟨fun hopen => ?_, fun e he => ⟨⟨c, holds_refl hw hi hc, fun _ => by simp [he]⟩, by simp [he]⟩⟩
  apply ends_bind.mpr
  apply ends_outcome.mpr
  refine ⟨fun hset => ?_, fun e he => ⟨⟨c, holds_refl hw hi hc, fun _ => by simp [he]⟩, by simp [he]⟩⟩
  have hholds := holds_rewrite hw hi hc (Contents.setLen size)
  apply ends_bind.mpr
  apply ends_update.mpr
  apply (ends_pushIfDirty hholds.wired hholds.lookup hholds.copies_eq).imp
  · intro _ w' hdone
    refine ⟨hholds.trans (hdone.holds hholds.wired hholds.lookup hholds.copies_eq), ?_⟩
    cases hdone with
    | clean hclean _ => simp at hclean
    | sent _ hpath hsent _ => exact ⟨_, hpath, hsent⟩
  · intro e w' hfailed
    refine ⟨?_, ?_⟩
    · cases e with
      | panic =>
        obtain ⟨-, ⟨dirty, hleft, -⟩, -⟩ := hfailed
        exact ⟨_, hholds.trans hleft, by simp⟩
      | error e =>
        exact ⟨_, hholds.trans (hfailed.restored (by simp)), fun _ => by simp [hopen, hset]⟩
    · rw [if_pos ⟨hopen, hset⟩]
      cases hfailed.unsent with
      | nowhere hnone he hops => exact .nowhere hnone he hops
      | refused hpath hsent he => exact .refused hpath hsent he

section Truncated

variable {h : Host} {size : ℕ} {w' : AdbFs τ} {c₁ : Copy}

lemma Acquires.truncateFailed
    (hacquires : Acquires h p i w w' (if size = 0 then .empty else .pull) c₁)
    (hc : w.shared.copies i = some c) :
    (if h.openFile = none ∧ h.setLen = none then ⟨c₁.bytes.map (Contents.setLen size), true⟩
      else c₁) = c.truncateFailed h size := by
  by_cases hzero : size = 0
  · rw [if_pos hzero] at hacquires
    cases hacquires with
    | empty hcreate _ => simp [Copy.truncateFailed, hzero, hcreate, Contents.setLen_zero]
  · rw [if_neg hzero] at hacquires
    cases hacquires with
    | live hlive _ =>
      obtain rfl : c₁ = c := Option.some.inj (hlive.symm.trans hc)
      rw [Copy.truncateFailed, if_neg hzero]
    | pull hnone _ _ =>
      rw [hnone] at hc
      simp at hc

lemma Acquires.shortened
    (hacquires : Acquires h p i w w' (if size = 0 then .empty else .pull) c₁)
    (hc : w.shared.copies i = some c) : w'.ops = w.ops ∧ ∀ b, c.bytes = some b →
      c₁.bytes.map (Contents.setLen size) = some (Contents.setLen size b) := by
  by_cases hzero : size = 0
  · rw [if_pos hzero] at hacquires
    cases hacquires with
    | empty _ hops => exact ⟨hops, fun b _ => by simp [hzero, Contents.setLen_zero]⟩
  · rw [if_neg hzero] at hacquires
    cases hacquires with
    | live hlive hops =>
      obtain rfl : c₁ = c := Option.some.inj (hlive.symm.trans hc)
      exact ⟨hops, fun b hb => by rw [hb, Option.map_some]⟩
    | pull hnone _ _ =>
      rw [hnone] at hc
      simp at hc

lemma Refuses.truncateFailed
    (hrefuses : Refuses h p i w w' (if size = 0 then .empty else .pull))
    (hc : w.shared.copies i = some c) : c.truncateFailed h size = c := by
  by_cases hzero : size = 0
  · rw [if_pos hzero] at hrefuses
    cases hrefuses with
    | empty hcreate _ => rw [Copy.truncateFailed, if_pos hzero, if_neg hcreate]
  · rw [if_neg hzero] at hrefuses
    cases hrefuses with
    | pull hnone _ _ =>
      rw [hnone] at hc
      simp at hc

end Truncated

lemma truncate_cases (h : Host) (size : ℕ) (hw : w.Wired spare) :
    Ends (truncate h i p size) w
      (fun _ w' => ∃ c w₁ path, Acquires h p i w w₁ (if size = 0 then .empty else .pull) c ∧
        w.inodes.getPath i = some path ∧ pushAndSync (.copy i)
          (c.bytes.map (Contents.setLen size)) path w₁.ops = (.ok (), w'.ops) ∧
            GaveBack spare i ⟨c.bytes.map (Contents.setLen size), false⟩ w w')
      fun e w' => (Unheld spare w w' ∧ e ≠ .panic ∧
          Refuses h p i w w' (if size = 0 then .empty else .pull)) ∨
        ∃ c w₁, Acquires h p i w w₁ (if size = 0 then .empty else .pull) c ∧
          w₁.inodes = w.inodes ∧ OthersKept (some i) w w' ∧
          (e ≠ .panic → GaveBack spare i (if h.openFile = none ∧ h.setLen = none then
            ⟨c.bytes.map (Contents.setLen size), true⟩ else c) w w') ∧
          if h.openFile = none ∧ h.setLen = none then
            Unsent i (c.bytes.map (Contents.setLen size)) w₁ e w' else w'.ops = w₁.ops := by
  apply ends_bind.mpr
  apply (acquireCopy_ends hw i p (if size = 0 then .empty else .pull)).imp
  · rintro id w₁ ⟨c, hholds, hacquires⟩
    have hinodes := hholds.within.inodes
    apply ends_bind.mpr
    apply ends_attempt.mpr
    apply (ends_truncateCopy h size hholds.wired hholds.lookup hholds.copies_eq).imp
    · rintro _ w₂ ⟨hholds', path, hpath, hsent⟩
      rw [hinodes] at hpath
      apply ends_giveBack (hholds.trans hholds')
      exact fun u hback hops => ⟨c, w₁, path, hacquires, hpath, hops ▸ hsent, hback⟩
    · rintro e w₂ ⟨⟨c', hholds', hleft⟩, hunsent⟩
      cases e with
      | panic =>
        exact Or.inr ⟨c, w₁, hacquires, hinodes, (hholds.trans hholds').othersKept, by simp, hunsent⟩
      | error e =>
        apply ends_giveBack (hholds.trans hholds')
        intro u hback hops
        rw [hleft (by simp)] at hback
        refine Or.inr ⟨c, w₁, hacquires, hinodes, hback.othersKept, fun _ => hback, ?_⟩
        split_ifs at hunsent ⊢
        · exact hunsent.of_ops hops
        · exact hops.trans hunsent
  · rintro e w₁ ⟨he, hunheld, hrefuses⟩
    exact Or.inl ⟨hunheld, he, hrefuses⟩

lemma truncate_ends (h : Host) (size : ℕ) (hw : w.Wired spare) :
    Ends (truncate h i p size) w
      (fun _ w' => OthersKept (some i) w w' ∧ ∀ c, w.shared.copies i = some c → ∃ f path,
        (∀ b, c.bytes = some b → f = some (Contents.setLen size b)) ∧
          w.inodes.getPath i = some path ∧
            pushAndSync (.copy i) f path w.ops = (.ok (), w'.ops) ∧ GaveBack spare i ⟨f, false⟩ w w')
      fun e w' => OthersKept (some i) w w' ∧ ∀ c, w.shared.copies i = some c → e ≠ .panic →
        GaveBack spare i (c.truncateFailed h size) w w' := by
  apply (truncate_cases h size hw).imp
  · rintro _ w' ⟨c₁, w₁, path, hacquires, hpath, hsent, hback⟩
    refine ⟨hback.othersKept, fun c hc => ?_⟩
    obtain ⟨hsame, hshort⟩ := hacquires.shortened hc
    rw [hsame] at hsent
    exact ⟨_, path, hshort, hpath, hsent, hback⟩
  · rintro e w' (⟨hunheld, -, hrefuses⟩ | ⟨c₁, w₁, hacquires, -, hkept, hback, -⟩)
    · refine ⟨.of_shared ⟨spare, hunheld.wired⟩ hunheld.shared, fun c hc _ => ?_⟩
      rw [hrefuses.truncateFailed hc]
      exact hunheld.gaveBack hc
    · refine ⟨hkept, fun c hc he => ?_⟩
      rw [← hacquires.truncateFailed hc]
      exact hback he

variable [Libc]

lemma setattr_of_truncate {h : Host} {w' : AdbFs τ} {n : ℕ} {e : Errno} (hpath : w.inodes.getPath i = some p)
    (hfails : truncate h i p n w = (.error (.error e), w')) (atime mtime : Option TimeOrNow)
    (g : Option ℕ) :
    AdbFs.serve h (.setattr i (some n) atime mtime g) w = (some (.error e), w') := by
  have hget : (getPath i : FsM τ Errno Text) w = (.ok p, w) := by simp [getPath, hpath]
  have hsetattr : AdbFs.setattr h i (some n) atime mtime w = (.error (.error e), w') := by
    rw [AdbFs.setattr, bind_of_ok hget]
    exact bind_of_error hfails
  rw [AdbFs.serve, AdbFs.handle, hsetattr]

lemma quiet_afterResize (h : Host) (i : ℕ) (p : Text) (atime mtime : Option TimeOrNow) :
    Keeps FilesKept (touchTimes h p atime mtime >>= fun _ => device (getMetadata p) >>= fun m =>
      cacheInsert p (some m) h.now >>= fun _ => read >>= fun w =>
        pure (.attr w.opts.attrTimeout (w.opts.metaToAttr i m)) : FsM τ Errno Reply) :=
  (quiet_touchTimes h p atime mtime).bind fun _ => (quiet_device _).bind fun _ =>
    (quiet_setCache _).bind fun _ => keeps_read.bind fun _ => keeps_pure _

lemma setattr_othersKept (h : Host) (size : Option ℕ) (atime mtime : Option TimeOrNow)
    (hw : w.Wired spare) :
    Ends (AdbFs.setattr h i size atime mtime) w (fun _ w' => OthersKept (size.map fun _ => i) w w')
      fun _ w' => OthersKept (size.map fun _ => i) w w' := by
  apply ends_getPath.mpr
  refine ⟨fun p _ => ?_, fun _ => .of_shared ⟨spare, hw⟩ rfl⟩
  have hrest : ∀ u, OthersKept (size.map fun _ => i) w u → Ends (touchTimes h p atime mtime >>= fun _ =>
      device (getMetadata p) >>= fun m => cacheInsert p (some m) h.now >>= fun _ => read >>= fun w =>
        pure (.attr w.opts.attrTimeout (w.opts.metaToAttr i m)) : FsM τ Errno Reply) u
      (fun _ w' => OthersKept (size.map fun _ => i) w w') fun _ w' => OthersKept (size.map fun _ => i) w w' :=
    fun u hu => ends_iff.mpr (hu.trans (((quiet_afterResize h i p atime mtime).holds u).othersKept
      hu.linked _))
  apply ends_bind.mpr
  cases size with
  | none => exact hrest w (.of_shared ⟨spare, hw⟩ rfl)
  | some n =>
    apply (truncate_ends h n hw).imp
    · exact fun _ u hu => hrest u hu.1
    · exact fun _ u hu => hu.1

/-- The inode whose open files a request may change. -/
def Request.target (w : AdbFs τ) : Request → Option ℕ
  | .open ino => some ino
  | .write fh _ _ => w.shared.handles fh
  | .flush fh => w.shared.handles fh
  | .release fh => w.shared.handles fh
  | .setattr ino size _ _ _ => size.map fun _ => ino
  | .create parent name => Request.created w parent name
  | _ => none

lemma handle_othersKept (h : Host) (request : Request) (hw : w.Wired spare) :
    OthersKept (request.target w) w (AdbFs.handle h request w).2 := by
  have hquiet : ∀ {x : FsM τ Errno Reply}, Keeps FilesKept x → OthersKept none w (x w).2 :=
    fun hx => (hx.holds w).othersKept ⟨spare, hw⟩ none
  cases request with
  | getattr ino => exact hquiet (quiet_getattr h ino)
  | lookup parent name => exact hquiet (quiet_lookup h parent name)
  | opendir ino => exact hquiet (quiet_opendir h ino)
  | readdir fh offset => exact hquiet (keeps_readdir h fh offset)
  | releasedir fh => exact hquiet (Keeps.bind (keeps_update fun _ => ⟨rfl, le_rfl⟩) fun _ => keeps_pure _)
  | «open» ino =>
    apply ends_iff.mp
    apply (open_ends h hw).imp
    · rintro _ w' ⟨p, c, w₁, -, -, hopened, -⟩
      exact hopened.othersKept
    · rintro _ w' (⟨hwired, hshared⟩ | ⟨p, c, w₁, -, -, hback⟩)
      · exact .of_shared ⟨spare, hwired⟩ hshared
      · exact hback.othersKept
  | read fh offset size => exact hquiet (keeps_readFile h fh offset size)
  | write fh offset data =>
    apply ends_iff.mp
    apply (write_ends h offset data hw).imp
    · rintro _ w' ⟨j, id, c, n, -, hfh, -, hholds⟩
      rw [Request.target, hfh]
      exact hholds.othersKept
    · rintro _ w' rfl
      exact .of_shared ⟨spare, hw⟩ rfl
  | flush fh =>
    apply ends_iff.mp
    apply (flush_ends hw).imp
    · rintro _ w' ⟨-, j, id, c, hfh, hid, hc, hdone⟩
      rw [Request.target, hfh]
      exact (hdone.holds hw hid hc).othersKept
    · rintro _ w' (rfl | ⟨j, id, c, hfh, -, -, -, ⟨dirty, hholds, -⟩, -⟩)
      · exact .of_shared ⟨spare, hw⟩ rfl
      · rw [Request.target, hfh]
        exact hholds.othersKept
  | release fh =>
    apply ends_iff.mp
    apply (release_ends h hw).imp
    · rintro _ w' (⟨-, rfl⟩ | ⟨j, id, hfh, hwired, hshared⟩)
      · exact .of_shared ⟨spare, hw⟩ rfl
      · rw [Request.target, hfh]
        rcases hshared with hshared | ⟨-, hshared⟩
        · exact .of_detach_drop ⟨spare, hwired⟩ hshared hfh
        · exact .of_detach ⟨spare, hwired⟩ hshared hfh
    · exact fun _ _ => False.elim
  | access ino => exact hquiet (keeps_pure _)
  | mkdir parent name => exact hquiet (quiet_mkdir h parent name)
  | unlink parent name => exact hquiet (quiet_unlink parent name)
  | rmdir parent name => exact hquiet (quiet_rmdir parent name)
  | rename parent name newparent newname flags =>
    exact hquiet (quiet_rename h parent name newparent newname)
  | setattr ino size atime mtime fh => exact ends_iff.mp (setattr_othersKept h size atime mtime hw)
  | readlink ino => exact hquiet (quiet_readlink h ino)
  | create parent name => exact ends_iff.mp (create_othersKept h parent name hw)
  | mknod parent name mode => exact hquiet (quiet_mknod h parent name mode)

lemma serves_othersKept {call : Call} {w' : AdbFs τ} (hw : w.Linked) (hserves : Serves w call w') :
    OthersKept (call.request.target w) w w' := by
  obtain ⟨spare, hwired⟩ := hw
  have happly := handle_othersKept call.host call.request hwired
  rw [← serve_snd, hserves] at happly
  exact happly

lemma read_reply {h : Host} (hw : w.Linked) (hfh : w.shared.handles fh = some i)
    (hc : w.shared.copies i = some c) (offset size : ℕ) :
    (AdbFs.serve h (.read fh offset size) w).1 =
      some (match h.read with
        | none => .data (Contents.readAt offset size (c.bytes.getD []))
        | some e => .error e) := by
  obtain ⟨id, ho, -, hlive⟩ := hw.live hfh
  have hbytes : w.files.contents id = c.bytes := by
    rw [Option.some.inj (hc.symm.trans hlive)]
  have hread : AdbFs.read h fh offset size w = (match h.read with
      | none => (.ok (.data (Contents.readAt offset size (c.bytes.getD []))), w)
      | some e => (.error (.error e), w)) := by
    have hhandle : (handleOf fh : FsM τ Errno OpenFile) w = (.ok ⟨i, id⟩, w) := by
      simp [handleOf, ho]
    rw [AdbFs.read, bind_of_ok hhandle]
    cases h.read with
    | none => simp [outcome, hbytes]
    | some e => rfl
  rw [AdbFs.serve, AdbFs.handle, hread]
  cases h.read <;> rfl

lemma run_serve {ops : DeviceOps τ} {cacheTtl : ℕ} {opts : FsOptions}
    (hrun : Run Serves Always (AdbFs.new ops cacheTtl opts) w) (h : Host) (request : Request) :
    Run Serves Always (AdbFs.new ops cacheTtl opts) (AdbFs.serve h request w).2 :=
  hrun.tail (a := ⟨request, h, (AdbFs.serve h request w).1⟩) trivial rfl

theorem linked_of_run {ops : DeviceOps τ} {cacheTtl : ℕ} {opts : FsOptions}
    (h : Run Serves Always (AdbFs.new ops cacheTtl opts) w) : w.Linked :=
  h.invariant (fun _ _ _ hw _ hserves => (serves_othersKept hw hserves).linked)
    ⟨0, wired_new, fun _ _ => rfl⟩

end Requests

end Adbfs
