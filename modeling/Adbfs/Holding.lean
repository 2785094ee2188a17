import Adbfs.Sharing
import Adbfs.Upkeep

/-! What the procedures on shared copies do to the open files of the filesystem. -/

namespace Adbfs

open Library Library.Action Files

section Holding

variable {τ : Type}

structure AdbFs.Wired (spare : ℕ → ℕ) (w : AdbFs τ) : Prop where
  files : w.files.Wired spare
  fresh : ∀ fh, w.nextFh ≤ fh → w.files.openFiles.lookup fh = none

def AdbFs.shared (w : AdbFs τ) : Shared := w.files.shared

/-- Only the device, the cache and the open files may have changed. -/
structure Within (w w' : AdbFs τ) : Prop where
  inodes : w'.inodes = w.inodes
  opts : w'.opts = w.opts
  openDirs : w'.openDirs = w.openDirs
  nextFh : w'.nextFh = w.nextFh

lemma Within.refl (w : AdbFs τ) : Within w w := ⟨rfl, rfl, rfl, rfl⟩

lemma Within.trans {w w' w'' : AdbFs τ} (h : Within w w') (h' : Within w' w'') : Within w w'' :=
  ⟨h'.inodes.trans h.inodes, h'.opts.trans h.opts,
    h'.openDirs.trans h.openDirs, h'.nextFh.trans h.nextFh⟩

lemma AdbFs.Wired.within {spare spare' : ℕ → ℕ} {w w' : AdbFs τ} (h : w.Wired spare)
    (hw : Within w w') (hfiles : w'.files.Wired spare') (hopen : w'.files.openFiles = w.files.openFiles) :
    w'.Wired spare' :=
  ⟨hfiles, fun fh hfh => by rw [hopen]; exact h.fresh fh (hw.nextFh ▸ hfh)⟩

variable [AdbDevice τ] {h : Host} {i id : ℕ} {p : Text} {w : AdbFs τ} {spare : ℕ → ℕ}

/-- The answer of the device to a pull of the path into the file of the inode. -/
def AdbFs.pulled (w : AdbFs τ) (p : Text) (i : ℕ) : (Except AdbError Unit × Option Bytes) × τ :=
  AdbDevice.pull p (w.files.tmpDir i) w.ops.adb

/-- Where the contents of a copy come from. -/
inductive Acquires (h : Host) (p : Text) (i : ℕ) (w w' : AdbFs τ) : CopyInit → Copy → Prop
  | empty : h.create = none → w'.ops = w.ops → Acquires h p i w w' .empty ⟨some [], true⟩
  | live {c : Copy} : w.shared.copies i = some c → w'.ops = w.ops → Acquires h p i w w' .pull c
  | pull {f : Option Bytes} : w.shared.copies i = none → (w.pulled p i).1 = (.ok (), f) →
      w'.ops = { w.ops with adb := (w.pulled p i).2 } → Acquires h p i w w' .pull ⟨f, false⟩

inductive Refuses (h : Host) (p : Text) (i : ℕ) (w w' : AdbFs τ) : CopyInit → Prop
  | empty : h.create ≠ none → w'.ops = w.ops → Refuses h p i w w' .empty
  | pull {e : AdbError} : w.shared.copies i = none → (w.pulled p i).1.1 = .error e →
      w'.ops = { w.ops with adb := (w.pulled p i).2 } → Refuses h p i w w' .pull

structure Holds (spare : ℕ → ℕ) (w w' : AdbFs τ) (i id : ℕ) (c : Copy) : Prop where
  wired : w'.Wired spare
  lookup : w'.files.openCopies.lookup i = some id
  shared : w'.shared = w.shared.put i c
  within : Within w w'

structure Unheld (spare : ℕ → ℕ) (w w' : AdbFs τ) : Prop where
  wired : w'.Wired spare
  shared : w'.shared = w.shared
  within : Within w w'

omit [AdbDevice τ] in
lemma copies_eq_none (hi : w.files.openCopies.lookup i = none) : w.shared.copies i = none := by
  change w.files.copyOf i = none
  rw [Files.copyOf, hi]
  rfl

lemma ends_acquireCopy {init : CopyInit} {t : Files} {Q : ℕ → AdbFs τ → Prop}
    {E : Abort Errno → AdbFs τ → Prop} (hentry : w.files.entryOrInsert i = (id, t))
    (hkept : (t.heap id).evicted = false)
    (hpopulate : Ends (populate h p id init) { w with files := t }
      (fun _ u => Q id (u.setFiles (Files.hold id)))
      fun e u => ∃ e', e = .error e' ∧
        E e (u.setFiles fun t => if (t.heap id).refs = 0 then t.evict i id else t)) :
    Ends (acquireCopy h i p init) w Q E := by
  apply ends_bind.mpr
  apply ends_lift.mpr
  rw [AdbFs.setFiles, hentry]
  apply ends_bind.mpr
  apply ends_read.mpr
  dsimp only
  rw [hkept, if_neg (by decide)]
  apply ends_bind.mpr
  apply ends_attempt.mpr
  apply hpopulate.imp
  · exact fun _ _ hQ => hQ
  · rintro _ u ⟨e', rfl, hE⟩
    exact hE

lemma ends_populate_empty {u : AdbFs τ} {Q : Unit → AdbFs τ → Prop}
    {E : Abort Errno → AdbFs τ → Prop} (hpath : (u.files.heap id).path = i)
    (hok : h.create = none →
      Q () (u.setFiles fun t => (t.setLocal i (some [])).setDirty id true))
    (herror : ∀ e, h.create = some e → E (.error e) u) :
    Ends (populate h p id .empty) u Q E := by
  apply ends_bind.mpr
  apply ends_read.mpr
  dsimp only
  rw [hpath]
  apply ends_bind.mpr
  cases hcreate : h.create with
  | none => exact hok hcreate
  | some e => exact herror e hcreate

lemma ends_populate_pull {u : AdbFs τ} {Q : Unit → AdbFs τ → Prop}
    {E : Abort Errno → AdbFs τ → Prop} (hpath : (u.files.heap id).path = i)
    (hnew : (u.files.heap id).pulled = false)
    (hok : ∀ f, (u.pulled p i).1 = (.ok (), f) →
      Q () { u with ops := { u.ops with adb := (u.pulled p i).2 }, files := u.files.setLocal i f })
    (herror : ∀ e f, (u.pulled p i).1 = (.error e, f) → E (.error (DeviceError.adb e).toErrno)
      { u with ops := { u.ops with adb := (u.pulled p i).2 }, files := u.files.setLocal i f }) :
    Ends (populate h p id .pull) u Q E := by
  apply ends_bind.mpr
  apply ends_read.mpr
  dsimp only
  rw [hnew, if_neg (by decide), Ends, pullInto]
  dsimp only
  rw [hpath]
  rcases hanswer : (u.pulled p i).1 with ⟨r, f⟩
  have hr : (AdbDevice.pull p (u.files.tmpDir i) u.ops.adb).1 = (r, f) := hanswer
  rw [hr]
  cases r with
  | ok a => exact hok f hanswer
  | error e => exact herror e f hanswer

lemma acquireCopy_live (hw : w.Wired spare) (hi : w.files.openCopies.lookup i = some id)
    (init : CopyInit) : Ends (acquireCopy h i p init) w
      (fun k w' => ∃ c, Holds (more k spare) w w' i k c ∧ Acquires h p i w w' init c)
      fun e w' => e ≠ .panic ∧ Unheld spare w w' ∧ Refuses h p i w w' init := by
  have hat := hw.files.copies i id hi
  have hentry : w.files.entryOrInsert i = (id, w.files) := by rw [Files.entryOrInsert, hi]
  apply ends_acquireCopy hentry hat.kept
  cases init with
  | empty =>
    apply ends_populate_empty hat.path
    · intro hcreate
      have hlocal := hw.files.setLocal hi (some [])
      have hdirty := hlocal.1.setDirty hi true
      have hhold := hdirty.1.hold hi
      refine ⟨⟨some [], true⟩, ⟨hw.within ⟨rfl, rfl, rfl, rfl⟩ hhold.1 rfl, hi, ?_,
        ⟨rfl, rfl, rfl, rfl⟩⟩, .empty hcreate rfl⟩
      refine hhold.2.trans (hdirty.2.trans ?_)
      rw [hlocal.2, Shared.put_put]
      congr 2
      simp [Files.contents, Files.setLocal, hat.path]
    · intro e hcreate
      have hsame : w.setFiles (fun t => if (t.heap id).refs = 0 then t.evict i id else t) = w := by
        rw [AdbFs.setFiles, if_neg (hw.files.refs_pos hi)]
      refine ⟨e, rfl, ?_⟩
      rw [hsame]
      exact ⟨by simp, ⟨hw, rfl, .refl w⟩, .empty (by simp [hcreate]) rfl⟩
  | pull =>
    have hpulled : (populate h p id .pull : FsM τ Errno Unit) w = (.ok (), w) := by
      change (if (w.files.heap id).pulled = true then pure () else pullInto p id :
        FsM τ Errno Unit) w = _
      rw [if_pos hat.pulled]
      rfl
    have hhold := hw.files.hold hi
    have hcopy := hw.files.copyOf_eq hi
    rw [Ends, hpulled]
    refine ⟨_, ⟨hw.within ⟨rfl, rfl, rfl, rfl⟩ hhold.1 rfl, hi, ?_, ⟨rfl, rfl, rfl, rfl⟩⟩,
      .live hcopy rfl⟩
    exact hhold.2.trans (Shared.put_self hcopy).symm

def Files.withNew (i : ℕ) (t : Files) : Files :=
  { t with
    openCopies := t.openCopies.insert i t.nextCopy
    heap := Function.update t.heap t.nextCopy (LocalCopy.new i)
    nextCopy := t.nextCopy + 1 }

namespace Files

variable {t : Files} {c : LocalCopy} {spare : ℕ → ℕ}

lemma entryOrInsert_none (hi : t.openCopies.lookup i = none) :
    t.entryOrInsert i = (t.nextCopy, t.withNew i) := by
  rw [entryOrInsert, hi]
  rfl

lemma heap_withNew (i : ℕ) (t : Files) : (t.withNew i).heap t.nextCopy = LocalCopy.new i :=
  Function.update_self _ _ _

lemma Wired.filled (h : t.Wired spare) (hi : t.openCopies.lookup i = none) (f : Option Bytes)
    (edit : LocalCopy → LocalCopy) (hc : edit (.new i) = c)
    (hspec : c.path = i ∧ c.pulled = true ∧ c.evicted = false ∧ c.refs = 1) :
    let t' := ((t.withNew i).setLocal i f).setCopy t.nextCopy edit
    t'.Wired (more t.nextCopy spare) ∧ t'.openCopies.lookup i = some t.nextCopy ∧
      t'.shared = t.shared.put i ⟨f, c.dirty⟩ := by
  intro t'
  have hheap : t'.heap = Function.update t.heap t.nextCopy c := by
    change Function.update (Function.update t.heap t.nextCopy (.new i)) t.nextCopy
      (edit ((t.withNew i).heap t.nextCopy)) = _
    rw [Function.update_idem, heap_withNew, hc]
  have htmp : t'.tmpDir i = f := Function.update_self _ _ _
  have hother : ∀ j, j ≠ i → t'.tmpDir j = t.tmpDir j := fun j hj => Function.update_of_ne hj _ _
  rw [← htmp]
  exact h.fresh hi hspec rfl rfl hheap rfl hother

lemma Wired.emptied (h : t.Wired spare) (hi : t.openCopies.lookup i = none) {t₁ : Files}
    (ht₁ : t₁ = t.withNew i ∨ ∃ f, t₁ = (t.withNew i).setLocal i f) :
    (t₁.evict i t.nextCopy).Wired spare ∧ (t₁.evict i t.nextCopy).shared = t.shared ∧
      (t₁.evict i t.nextCopy).openFiles = t.openFiles := by
  have hopen : t₁.openCopies = t.openCopies.insert i t.nextCopy ∧ t₁.openFiles = t.openFiles ∧
      t₁.nextCopy = t.nextCopy + 1 ∧ (∀ k, k ≠ t.nextCopy → t₁.heap k = t.heap k) ∧
      ∀ j, j ≠ i → t₁.tmpDir j = t.tmpDir j := by
    rcases ht₁ with rfl | ⟨f, rfl⟩
    · exact ⟨rfl, rfl, rfl, fun k hk => Function.update_of_ne hk _ _, fun _ _ => rfl⟩
    · exact ⟨rfl, rfl, rfl, fun k hk => Function.update_of_ne hk _ _,
        fun j hj => Function.update_of_ne hj _ _⟩
  obtain ⟨hcopies, hfiles, hnext, hheap, htmp⟩ := hopen
  have hin : t₁.openCopies.lookup i = some t.nextCopy := by rw [hcopies, AList.lookup_insert]
  have hevict := evict_of_lookup hin
  generalize t₁.evict i t.nextCopy = t₂ at hevict
  have herased : ∀ j, t₂.openCopies.lookup j = t.openCopies.lookup j := by
    intro j
    rw [hevict, Table.lookup_erase_eq, hcopies, Table.lookup_insert_eq]
    split_ifs with hj
    · rw [hj, hi]
    · rfl
  have hmarked : ∀ k, k ≠ t.nextCopy → t₂.heap k = t.heap k := by
    intro k hk
    rw [hevict]
    exact (Function.update_of_ne hk _ _).trans (hheap k hk)
  have hrest : t₂.openFiles = t₁.openFiles ∧ t₂.nextCopy = t₁.nextCopy ∧ t₂.tmpDir = t₁.tmpDir := by
    rw [hevict]
    exact ⟨rfl, rfl, rfl⟩
  obtain ⟨hopened, hnext₂, htmp₂⟩ := hrest
  obtain ⟨hwired, hshared⟩ := h.scrap hi (hopened.trans hfiles) herased hmarked (by omega)
    fun j hj => by rw [htmp₂, htmp j hj]
  exact ⟨hwired, hshared, hopened.trans hfiles⟩

end Files

lemma acquireCopy_absent (hw : w.Wired spare) (hi : w.files.openCopies.lookup i = none)
    (init : CopyInit) : Ends (acquireCopy h i p init) w
      (fun k w' => ∃ c, Holds (more k spare) w w' i k c ∧ Acquires h p i w w' init c)
      fun e w' => e ≠ .panic ∧ Unheld spare w w' ∧ Refuses h p i w w' init := by
  have hnone := copies_eq_none hi
  have hnew := Files.heap_withNew i w.files
  have hpath : ((w.files.withNew i).heap w.files.nextCopy).path = i := by rw [hnew]; rfl
  have hunread : ((w.files.withNew i).heap w.files.nextCopy).pulled = false := by rw [hnew]; rfl
  -- the copy given up leaves no trace, whatever is in its file
  have hscrap : ∀ u : AdbFs τ, Within w u → (u.files = w.files.withNew i ∨
      ∃ f, u.files = (w.files.withNew i).setLocal i f) →
      Unheld spare w (u.setFiles fun t =>
        if (t.heap w.files.nextCopy).refs = 0 then t.evict i w.files.nextCopy else t) := by
    intro u hwithin hfiles
    obtain ⟨hwired, hshared, hopen⟩ := hw.files.emptied hi hfiles
    have hrefs : (u.files.heap w.files.nextCopy).refs = 0 := by
      have hheap : u.files.heap = (w.files.withNew i).heap := by
        rcases hfiles with h | ⟨f, h⟩
        · rw [h]
        · rw [h]
          rfl
      rw [hheap, hnew]
      rfl
    have hset : (u.setFiles fun t => if (t.heap w.files.nextCopy).refs = 0 then
        t.evict i w.files.nextCopy else t) = u.setFiles (Files.evict i w.files.nextCopy) := by
      rw [AdbFs.setFiles, if_pos hrefs]
      rfl
    rw [hset]
    exact ⟨hw.within ⟨hwithin.inodes, hwithin.opts, hwithin.openDirs, hwithin.nextFh⟩
      hwired hopen, hshared,
      ⟨hwithin.inodes, hwithin.opts, hwithin.openDirs, hwithin.nextFh⟩⟩
  apply ends_acquireCopy (Files.entryOrInsert_none hi) (by rw [hnew]; rfl)
  cases init with
  | empty =>
    apply ends_populate_empty hpath
    · intro hcreate
      obtain ⟨hwired, hlookup, hshared⟩ := hw.files.filled hi (some [])
        (fun c => { c with dirty := true, pulled := true, refs := c.refs + 1 }) rfl ⟨rfl, rfl, rfl, rfl⟩
      have hfiles : (((w.files.withNew i).setLocal i (some [])).setDirty w.files.nextCopy true).hold
          w.files.nextCopy = ((w.files.withNew i).setLocal i (some [])).setCopy w.files.nextCopy
            fun c => { c with dirty := true, pulled := true, refs := c.refs + 1 } := by
        rw [Files.hold, Files.setDirty, Files.setCopy, Files.setCopy, Files.setCopy]
        simp
      rw [← hfiles] at hwired hlookup hshared
      exact ⟨_, ⟨hw.within ⟨rfl, rfl, rfl, rfl⟩ hwired rfl, hlookup, hshared,
        ⟨rfl, rfl, rfl, rfl⟩⟩, .empty hcreate rfl⟩
    · intro e hcreate
      have hunheld := hscrap { w with files := w.files.withNew i } ⟨rfl, rfl, rfl, rfl⟩ (Or.inl rfl)
      exact ⟨e, rfl, by simp, hunheld, .empty (by simp [hcreate]) rfl⟩
  | pull =>
    apply ends_populate_pull hpath hunread
    · intro f hf
      obtain ⟨hwired, hlookup, hshared⟩ := hw.files.filled hi f
        (fun c => { c with pulled := true, refs := c.refs + 1 }) rfl ⟨rfl, rfl, rfl, rfl⟩
      exact ⟨_, ⟨hw.within ⟨rfl, rfl, rfl, rfl⟩ hwired rfl, hlookup, hshared,
        ⟨rfl, rfl, rfl, rfl⟩⟩, .pull hnone hf rfl⟩
    · intro e f hf
      have hunheld := hscrap { w with
        ops := { w.ops with adb := (w.pulled p i).2 }
        files := (w.files.withNew i).setLocal i f } ⟨rfl, rfl, rfl, rfl⟩ (Or.inr ⟨f, rfl⟩)
      exact ⟨_, rfl, by simp, hunheld, .pull hnone (congrArg Prod.fst hf) rfl⟩

lemma acquireCopy_ends (hw : w.Wired spare) (i : ℕ) (p : Text) (init : CopyInit) :
    Ends (acquireCopy h i p init) w
      (fun k w' => ∃ c, Holds (more k spare) w w' i k c ∧ Acquires h p i w w' init c)
      fun e w' => e ≠ .panic ∧ Unheld spare w w' ∧ Refuses h p i w w' init := by
  cases hi : w.files.openCopies.lookup i with
  | none => exact acquireCopy_absent hw hi init
  | some id => exact acquireCopy_live hw hi init

lemma Files.openFiles_releaseCopy (remove : Bool) (i id : ℕ) (t : Files) :
    (t.releaseCopy remove i id).openFiles = t.openFiles := by
  have hevict : ∀ s : Files, (s.evict i id).openFiles = s.openFiles := by
    intro s
    rw [evict, removeCopy]
    split_ifs <;> rfl
  rw [Files.releaseCopy]
  split_ifs
  · exact hevict _
  · exact hevict _
  · rfl

omit [AdbDevice τ] in
lemma releaseCopy_ends (hw : w.Wired (more id spare)) (hi : w.files.openCopies.lookup i = some id) :
    Ends (releaseCopy h i id) w
      (fun _ w' => w'.Wired spare ∧
        (w'.shared = w.shared.drop i ∨ spare id ≠ 0 ∧ w'.shared = w.shared) ∧
          w'.ops = w.ops ∧ Within w w')
      fun _ _ => False := by
  obtain ⟨hwired, hshared⟩ := hw.files.release hi h.remove
  apply ends_bind.mpr
  apply ends_read.mpr
  rw [if_neg (hw.files.refs_pos hi)]
  exact ⟨hw.within ⟨rfl, rfl, rfl, rfl⟩ hwired (Files.openFiles_releaseCopy _ _ _ _), hshared,
    rfl, ⟨rfl, rfl, rfl, rfl⟩⟩

section Editing

variable {c : Copy}

omit [AdbDevice τ] in
lemma AdbFs.Wired.copy_eq (hw : w.Wired spare) (hi : w.files.openCopies.lookup i = some id)
    (hc : w.shared.copies i = some c) : c = ⟨w.files.contents id, (w.files.heap id).dirty⟩ :=
  Option.some.inj (hc.symm.trans (hw.files.copyOf_eq hi))

omit [AdbDevice τ] in
lemma Holds.copies_eq {w' : AdbFs τ} (h : Holds spare w w' i id c) : w'.shared.copies i = some c := by
  rw [h.shared]
  exact Function.update_self _ _ _

omit [AdbDevice τ] in
lemma Holds.trans {spare' : ℕ → ℕ} {w' w'' : AdbFs τ} {c' : Copy} (h : Holds spare w w' i id c)
    (h' : Holds spare' w' w'' i id c') : Holds spare' w w'' i id c' :=
  ⟨h'.wired, h'.lookup, by rw [h'.shared, h.shared, Shared.put_put], h.within.trans h'.within⟩

omit [AdbDevice τ] in
lemma Holds.of_files {w' w'' : AdbFs τ} (h : Holds spare w w' i id c) (hfiles : w''.files = w'.files)
    (hwithin : Within w w'') : Holds spare w w'' i id c where
  wired := ⟨hfiles ▸ h.wired.files, fun fh hfh => by
    rw [hfiles]
    exact h.wired.fresh fh (by rw [h.within.nextFh]; exact hwithin.nextFh ▸ hfh)⟩
  lookup := hfiles ▸ h.lookup
  shared := by
    rw [← h.shared]
    exact congrArg Files.shared hfiles
  within := hwithin

omit [AdbDevice τ] in
lemma holds_setDirty (hw : w.Wired spare) (hi : w.files.openCopies.lookup i = some id)
    (hc : w.shared.copies i = some c) (dirty : Bool) :
    Holds spare w (w.setFiles (Files.setDirty id dirty)) i id { c with dirty } := by
  obtain ⟨hwired, hshared⟩ := hw.files.setDirty hi dirty
  rw [hw.copy_eq hi hc]
  exact ⟨hw.within ⟨rfl, rfl, rfl, rfl⟩ hwired rfl, hi, hshared, ⟨rfl, rfl, rfl, rfl⟩⟩

omit [AdbDevice τ] in
lemma holds_refl (hw : w.Wired spare) (hi : w.files.openCopies.lookup i = some id)
    (hc : w.shared.copies i = some c) : Holds spare w w i id c :=
  ⟨hw, hi, (Shared.put_self hc).symm, .refl w⟩

inductive PushDone (spare : ℕ → ℕ) (i id : ℕ) (c : Copy) (w w' : AdbFs τ) : Prop
  | clean : c.dirty = false → w' = w → PushDone spare i id c w w'
  | sent {path : Text} : c.dirty = true → w.inodes.getPath i = some path →
      pushAndSync (.copy i) c.bytes path w.ops = (.ok (), w'.ops) →
      Holds spare w w' i id { c with dirty := false } → PushDone spare i id c w w'

lemma PushDone.holds {w' : AdbFs τ} (h : PushDone spare i id c w w') (hw : w.Wired spare)
    (hi : w.files.openCopies.lookup i = some id) (hc : w.shared.copies i = some c) :
    Holds spare w w' i id { c with dirty := false } := by
  cases h with
  | clean hclean heq =>
    rw [heq, ← hclean]
    exact holds_refl hw hi hc
  | sent _ _ _ hholds => exact hholds

/-- The local file has nowhere to go, or the device did not take it. -/
inductive Unsent (i : ℕ) (f : Option Bytes) (w : AdbFs τ) (r : Abort Errno) (w' : AdbFs τ) : Prop
  | nowhere : w.inodes.getPath i = none → r = .error .enoent → w'.ops = w.ops → Unsent i f w r w'
  | refused {path : Text} {e : Abort DeviceError} : w.inodes.getPath i = some path →
      pushAndSync (.copy i) f path w.ops = (.error e, w'.ops) → r = e.map DeviceError.toErrno →
      Unsent i f w r w'

/-- The copy is dirty still, unless the device panicked. -/
structure PushFailed (spare : ℕ → ℕ) (i id : ℕ) (c : Copy) (w : AdbFs τ) (e : Abort Errno)
    (w' : AdbFs τ) : Prop where
  dirty : c.dirty = true
  holds : ∃ dirty, Holds spare w w' i id { c with dirty } ∧ (e ≠ .panic → dirty = true)
  unsent : Unsent i c.bytes w e w'

lemma PushFailed.restored {e : Abort Errno} {w' : AdbFs τ} (h : PushFailed spare i id c w e w')
    (he : e ≠ .panic) : Holds spare w w' i id c := by
  obtain ⟨dirty, hholds, hdirty⟩ := h.holds
  have hsame : ({ c with dirty } : Copy) = c := by rw [hdirty he, ← h.dirty]
  rwa [hsame] at hholds

lemma ends_pushIfDirty (hw : w.Wired spare) (hi : w.files.openCopies.lookup i = some id)
    (hc : w.shared.copies i = some c) :
    Ends (pushIfDirty i id) w (fun _ w' => PushDone spare i id c w w')
      fun e w' => PushFailed spare i id c w e w' := by
  have hcopy := hw.copy_eq hi hc
  have hclear := holds_setDirty hw hi hc false
  have hagain := hclear.trans (holds_setDirty hclear.wired hclear.lookup hclear.copies_eq true)
  apply ends_bind.mpr
  apply ends_read.mpr
  split_ifs with hdirty
  · have hset : c.dirty = true := by rw [hcopy]; exact hdirty
    apply ends_bind.mpr
    apply ends_update.mpr
    split
    · next hnone =>
      apply ends_bind.mpr
      apply ends_update.mpr
      apply ends_fail.mpr
      exact ⟨hset, ⟨true, hagain, fun _ => rfl⟩, .nowhere hnone rfl rfl⟩
    · next path hpath =>
      have hname : (w.files.heap id).path = i := (hw.files.copies i id hi).path
      have hbytes : w.files.contents id = c.bytes := by rw [hcopy]
      rw [hname, hbytes]
      apply ends_bind.mpr
      apply ends_attempt.mpr
      apply ends_device.mpr
      apply ends_of_apply
      · intro _ s hs
        exact .sent hset hpath hs (hclear.of_files rfl ⟨rfl, rfl, rfl, rfl⟩)
      · intro e s hs
        cases e with
        | panic =>
          exact ⟨hset, ⟨false, hclear.of_files rfl ⟨rfl, rfl, rfl, rfl⟩, by simp⟩,
            .refused hpath hs rfl⟩
        | error e =>
          exact ⟨hset, ⟨true, hagain.of_files rfl ⟨rfl, rfl, rfl, rfl⟩, fun _ => rfl⟩,
            .refused hpath hs rfl⟩
  · apply ends_pure.mpr
    have hclean : c.dirty = false := by rw [hcopy]; exact Bool.eq_false_iff.mpr hdirty
    exact .clean hclean rfl

end Editing

end Holding

end Adbfs
