import Adbfs.Reference

/-! A file that is unlinked while it is open, and the one that comes after it. -/

namespace Adbfs

open Library Library.Action Files

section Unlinked

variable [Libc]

def Call.unlinked (w : PhoneFs) (call : Call) : Option ℕ :=
  match call.request, call.reply with
  | .unlink parent name, some .ok =>
    (w.inodes.getPath parent).bind fun dir => w.inodes.pathToIno.lookup (childPath dir name)
  | _, _ => none

def Request.handle : Request → Option ℕ
  | .read fh _ _ => some fh
  | .write fh _ _ => some fh
  | .flush fh => some fh
  | .release fh => some fh
  | .setattr _ _ _ _ fh => fh
  | _ => none

def AdbFs.held (w : PhoneFs) (i : ℕ) : Option Bytes := (w.shared.copies i).bind Copy.bytes

/-- A handle is old once its file is unlinked. What the others are to read is their own: what was
there when the file was opened, and what they have written since. -/
structure Marked where
  fs : PhoneFs
  old : ℕ → Bool
  own : ℕ → Option Bytes

namespace Marked

def byOld (s : Marked) (request : Request) : Bool := request.handle.any s.old

/-- A setattr of the size comes to set it, whether it is acknowledged or not. -/
def setsLength (w : PhoneFs) (h : Host) (i n : ℕ) : Prop :=
  w.inodes.getPath i ≠ none ∧
    if n = 0 then h.create = none else h.openFile = none ∧ h.setLen = none

instance (w : PhoneFs) (h : Host) (i n : ℕ) : Decidable (setsLength w h i n) :=
  inferInstanceAs (Decidable (_ ∧ _))

/-- What a request leaves of the file, as those see it who sent it. Who opens the file first sees
what the device holds. One that fails may have cut the file, and its sender has to take that. -/
def edited (s : Marked) (call : Call) (i : ℕ) : Option Bytes :=
  match call.request, call.reply with
  | .open _, _ => if (s.fs.shared.copies i).isNone then s.fs.stored i else s.own i
  | .create _ _, some (.created _ _ _ _ _) => some []
  | .create _ _, _ => (s.own i).map fun b => if call.host.create = none then [] else b
  | .setattr _ (some n) _ _ _, some (.attr _ _) => (s.own i).map (Contents.setLen n)
  | .setattr _ (some n) _ _ _, _ =>
    (s.own i).map fun b => if setsLength s.fs call.host i n then Contents.setLen n b else b
  | _, _ => (s.own i).bind fun b => call.edit (some b)

def oldAfter (s : Marked) (call : Call) (fh : ℕ) : Bool :=
  match s.fs.shared.handles fh with
  | none => false
  | some i => s.old fh || call.unlinked s.fs == some i

/-- The old handles have no say in what the others read. -/
def ownAfter (s : Marked) (call : Call) (w' : PhoneFs) (i : ℕ) : Option Bytes :=
  if (w'.shared.copies i).isNone || call.unlinked s.fs == some i then none
  else if call.request.target s.fs == some i && !s.byOld call.request then s.edited call i
  else s.own i

end Marked

structure Marks (s : Marked) (call : Call) (s' : Marked) : Prop where
  serves : Serves s.fs call s'.fs
  old : s'.old = s.oldAfter call
  own : s'.own = s.ownAfter call s'.fs

/-- The request is of a handle that is old, or would send the copy of a file that was unlinked. -/
def Orphaned (s : Marked) : Request → Prop
  | .flush fh => s.old fh = true
  | .release fh => s.old fh = true
  | .setattr i size atime mtime fh => s.byOld (.setattr i size atime mtime fh) = true ∨
      (∃ n, size = some n ∧ n ≠ 0) ∧ s.fs.shared.copies i ≠ none ∧ s.own i = none
  | _ => False

/-- The device is asked for metadata at most. -/
def Unsending (w w' : PhoneFs) : Prop :=
  w'.ops = w.ops ∨ ∃ p, w'.ops = (getMetadata p w.ops).2

/-- Nothing of a file that was unlinked is sent to the device, and who opened a file that was not
reads what is its own, whatever is done with the old handles. -/
structure Isolated (s : Marked) (call : Call) (s' : Marked) : Prop where
  unsent : Orphaned s call.request → Unsending s.fs s'.fs
  reads : ∀ fh offset size bytes, call.request = .read fh offset size → s.old fh = false →
    call.reply = some (.data bytes) → ∃ i b, s.fs.shared.handles fh = some i ∧
      s.own i = some b ∧ bytes = Contents.readAt offset size b
  apart : ∀ fh, (∃ offset data, call.request = .write fh offset data) ∨ call.request = .flush fh →
    s.old fh = true → s'.fs.ops = s.fs.ops ∧
      ∀ i, s.own i ≠ none → s'.fs.shared.copies i = s.fs.shared.copies i

/-- An old handle is flushed with nothing pending only, and sets no attributes. Its file is not
written to where a new file has come to share the copy, nor opened where none has. -/
def Untangled (s : Marked) (call : Call) : Prop :=
  match call.request with
  | .flush fh => s.old fh = true → ∀ i c, s.fs.shared.handles fh = some i →
      s.fs.shared.copies i = some c → c.dirty = true → s.fs.inodes.getPath i = none
  | .setattr i size atime mtime fh => Orphaned s (.setattr i size atime mtime fh) →
      (size = none ∧ atime = none ∧ mtime = none) ∨ s.fs.inodes.getPath i = none
  | .write fh _ _ => s.old fh = true → ∀ i, s.fs.shared.handles fh = some i → s.own i = none
  | .open i => s.fs.shared.copies i ≠ none → s.own i = none → s.fs.inodes.getPath i = none
  | _ => True

/-- Whoever has the inode open and is not old reads what is its own. -/
structure PartedAt (s : Marked) (i : ℕ) : Prop where
  held : ∀ b, s.own i = some b → s.fs.held i = some b
  known : ∀ fh, s.fs.shared.handles fh = some i → s.old fh = false → s.own i ≠ none

structure Parted (s : Marked) : Prop where
  linked : s.fs.Linked
  parted : ∀ i, PartedAt s i

variable {s s' : Marked} {i : ℕ} {call : Call} {w w' : PhoneFs}

lemma AdbFs.held_eq {c : Copy} (hc : w.shared.copies i = some c) : w.held i = c.bytes := by
  rw [AdbFs.held, hc, Option.bind_some]

lemma AdbFs.Linked.copies_ne_none (hw : w.Linked) {fh : ℕ} (hfh : w.shared.handles fh = some i) :
    w.shared.copies i ≠ none := by
  obtain ⟨id, -, -, hlive⟩ := hw.live hfh
  simp [hlive]

lemma Marks.oldAfter_eq (h : Marks s call s') {fh : ℕ} (hfh : s.fs.shared.handles fh = some i) :
    s'.old fh = (s.old fh || call.unlinked s.fs == some i) := by
  rw [h.old, Marked.oldAfter, hfh]

lemma Call.unlinked_request (hi : call.unlinked s.fs = some i) :
    ∃ parent name, call.request = .unlink parent name := by
  obtain ⟨request, host, reply⟩ := call
  cases request with
  | unlink parent name => exact ⟨parent, name, rfl⟩
  | _ => simp [Call.unlinked] at hi

lemma Marks.linked (h : Marks s call s') (hs : Parted s) : s'.fs.Linked :=
  (serves_othersKept hs.linked h.serves).linked

lemma Marks.parted_unlinked (h : Marks s call s') (hi : call.unlinked s.fs = some i) :
    PartedAt s' i := by
  have hnone : s'.own i = none := by
    rw [h.own, Marked.ownAfter, hi]
    simp
  refine ⟨by simp [hnone], fun fh hfh hnew => ?_⟩
  obtain ⟨parent, name, hrequest⟩ := Call.unlinked_request hi
  have hfiles : FilesKept s.fs s'.fs := by
    have happly := (quiet_unlink (τ := Phone) parent name).holds s.fs
    have hsnd : (AdbFs.unlink parent name s.fs).2 = s'.fs := by
      have hserves := congrArg Prod.snd h.serves
      rw [hrequest, serve_snd] at hserves
      exact hserves
    rwa [hsnd] at happly
  rw [hfiles.shared] at hfh
  rw [h.oldAfter_eq hfh, hi] at hnew
  simp at hnew

lemma Marks.partedAt {o : Option Bytes} (h : Marks s call s') (hs : Parted s)
    (hi : call.unlinked s.fs ≠ some i)
    (ho : (if call.request.target s.fs == some i && !s.byOld call.request then
      s.edited call i else s.own i) = o)
    (hheld : ∀ b, o = some b → s'.fs.shared.copies i ≠ none → s'.fs.held i = some b)
    (hknown : ∀ fh, s'.fs.shared.handles fh = some i → s'.old fh = false → o ≠ none) :
    PartedAt s' i := by
  have hown : s'.own i = if (s'.fs.shared.copies i).isNone then none else o := by
    have hne : (call.unlinked s.fs == some i) = false := by simpa using hi
    rw [h.own, Marked.ownAfter, hne, Bool.or_false, ho]
  constructor
  · intro b hb
    rw [hown] at hb
    split_ifs at hb with hnone
    exact hheld b hb (by simpa using hnone)
  · intro fh hfh hnew
    have hlive := (h.linked hs).copies_ne_none hfh
    rw [hown, if_neg (by simpa using hlive)]
    exact hknown fh hfh hnew

structure SameFile (i : ℕ) (w w' : PhoneFs) : Prop where
  held : w'.shared.copies i ≠ none → w'.held i = w.held i
  handles : ∀ fh, w'.shared.handles fh = some i → w.shared.handles fh = some i

lemma SameFile.of_shared (h : w'.shared = w.shared) : SameFile i w w' :=
  ⟨fun _ => by rw [AdbFs.held, h, AdbFs.held], fun fh hfh => by rwa [← h]⟩

lemma SameFile.of_put {c d : Copy} (hc : w.shared.copies i = some c)
    (h : w'.shared = w.shared.put i d) (hbytes : d.bytes = c.bytes) : SameFile i w w' := by
  refine ⟨fun _ => ?_, fun fh hfh => ?_⟩
  · have hd : w'.shared.copies i = some d := by
      rw [h]
      exact Function.update_self _ _ _
    rw [AdbFs.held_eq hd, AdbFs.held_eq hc, hbytes]
  · rw [h] at hfh
    exact hfh

lemma GaveBack.handles_eq {spare : ℕ → ℕ} {c : Copy} (h : GaveBack spare i c w w') :
    w'.shared.handles = w.shared.handles := by
  rcases h.shared with hshared | ⟨-, hshared⟩
  · rw [hshared, Shared.handles_drop]
    rfl
  · rw [hshared]
    rfl

lemma SameFile.of_gaveBack {spare : ℕ → ℕ} {c d : Copy} (hc : w.shared.copies i = some c)
    (h : GaveBack spare i d w w') (hbytes : d.bytes = c.bytes) : SameFile i w w' := by
  refine ⟨fun hlive => ?_, fun fh hfh => h.handles_eq ▸ hfh⟩
  obtain ⟨d', hd'⟩ := Option.ne_none_iff_exists'.mp hlive
  rw [AdbFs.held_eq hd', h.copies_eq hd', AdbFs.held_eq hc, hbytes]

lemma SameFile.of_detach {fh : ℕ} {P : Prop}
    (h : w'.shared = (w.shared.detach fh).drop i ∨ P ∧ w'.shared = w.shared.detach fh) :
    SameFile i w w' := by
  have hhandles : w'.shared.handles = (w.shared.detach fh).handles := by
    rcases h with h | ⟨-, h⟩
    · rw [h, Shared.handles_drop]
    · rw [h]
  refine ⟨fun hlive => ?_, fun g hg => ?_⟩
  · rcases h with h | ⟨-, h⟩
    · rw [h, Shared.drop] at hlive
      rw [AdbFs.held, h, Shared.drop]
      split_ifs at hlive ⊢
      · rfl
      · exact absurd (Function.update_self _ _ _) hlive
    · rw [AdbFs.held, h]
      rfl
  · rw [hhandles] at hg
    change Function.update w.shared.handles fh none g = some i at hg
    rw [Function.update_apply] at hg
    split_ifs at hg
    exact hg

lemma Marks.parted_same (h : Marks s call s') (hs : Parted s) (hi : call.unlinked s.fs ≠ some i)
    (ho : (if call.request.target s.fs == some i && !s.byOld call.request then
      s.edited call i else s.own i) = s.own i)
    (hsame : SameFile i s.fs s'.fs) : PartedAt s' i := by
  refine h.partedAt hs hi ho (fun b hb hlive => ?_) fun fh hfh hnew => ?_
  · rw [hsame.held hlive, (hs.parted i).held b hb]
  · have hfh' := hsame.handles fh hfh
    rw [h.oldAfter_eq hfh', Bool.or_eq_false_iff] at hnew
    exact (hs.parted i).known fh hfh' hnew.1

lemma Marks.parted_other (h : Marks s call s') (hs : Parted s) (hi : call.unlinked s.fs ≠ some i)
    (htarget : call.request.target s.fs ≠ some i) : PartedAt s' i := by
  have hkept := serves_othersKept hs.linked h.serves
  apply h.parted_same hs hi
  · simp [htarget]
  · refine ⟨fun _ => ?_, fun fh => (hkept.handles fh i htarget).mp⟩
    rw [AdbFs.held, hkept.copies i htarget, AdbFs.held]

section Requests

variable {host : Host} {reply : Option Reply}

lemma Marks.parted_open (h : Marks s ⟨.open i, host, reply⟩ s') (hs : Parted s)
    (hclear : s.fs.shared.copies i ≠ none → s.own i = none → s.fs.inodes.getPath i = none) :
    PartedAt s' i := by
  obtain ⟨spare, hwired⟩ := hs.linked
  have hself := hs.parted i
  cases hc : s.fs.shared.copies i with
  | none =>
    have ho : (if (some i : Option ℕ) == some i && !s.byOld (.open i) then
        s.edited ⟨.open i, host, reply⟩ i else s.own i) = s.fs.stored i := by
      simp [Marked.byOld, Request.handle, Marked.edited, hc]
    have hclosed : ∀ fh, s.fs.shared.handles fh ≠ some i :=
      fun fh hopen => hs.linked.copies_ne_none hopen hc
    have hpulls : ∀ {c w₁ p}, s.fs.inodes.getPath i = some p →
        Acquires host p i s.fs w₁ .pull c → c.bytes = s.fs.stored i ∧ c.bytes ≠ none := by
      intro c w₁ p hp hacquires
      cases hacquires with
      | live hlive _ => simp [hc] at hlive
      | pull _ hpulled _ =>
        obtain ⟨b, hb, rfl⟩ := pulled_ok hpulled
        rw [AdbFs.stored_of_path hp, hb]
        simp
    have hends : Ends (AdbFs.open host i) s.fs (fun _ _ => PartedAt s' i)
        fun _ _ => PartedAt s' i := by
      apply ((open_ends host hwired).and h.serves.ends).imp
      · rintro r u ⟨⟨p, c, w₁, hp, hacquires, hopened, -⟩, -, rfl⟩
        obtain ⟨hstored, hthere⟩ := hpulls hp hacquires
        refine h.partedAt hs (by simp [Call.unlinked]) ho (fun b hb _ => ?_) fun _ _ _ => ?_
        · rw [AdbFs.held_eq hopened.copies_eq, hstored, hb]
        · rwa [← hstored]
      · rintro e u ⟨⟨-, hshared⟩ | ⟨p, c, w₁, hp, hacquires, hback⟩, -, rfl⟩
        · refine h.partedAt hs (by simp [Call.unlinked]) ho (fun b _ hlive => ?_) fun fh hfh _ => ?_
          · rw [hshared, hc] at hlive
            contradiction
          · exact absurd (hshared ▸ hfh) (hclosed fh)
        · obtain ⟨hstored, -⟩ := hpulls hp hacquires
          refine h.partedAt hs (by simp [Call.unlinked]) ho (fun b hb hlive => ?_)
            fun fh hfh _ => absurd (hback.handles_eq ▸ hfh) (hclosed fh)
          obtain ⟨d, hd⟩ := Option.ne_none_iff_exists'.mp hlive
          rw [AdbFs.held_eq hd, hback.copies_eq hd, hstored, hb]
    exact ends_iff.mp hends
  | some c =>
    have ho : (if (some i : Option ℕ) == some i && !s.byOld (.open i) then
        s.edited ⟨.open i, host, reply⟩ i else s.own i) = s.own i := by
      simp [Marked.byOld, Request.handle, Marked.edited, hc]
    have hends : Ends (AdbFs.open host i) s.fs (fun _ _ => PartedAt s' i)
        fun _ _ => PartedAt s' i := by
      apply ((open_ends host hwired).and h.serves.ends).imp
      · rintro r u ⟨⟨p, d, w₁, hp, hacquires, hopened, -⟩, -, rfl⟩
        obtain rfl := hacquires.live_eq hc
        have hown : s.own i ≠ none := by
          intro hnone
          rw [hclear (by simp [hc]) hnone] at hp
          contradiction
        refine h.partedAt hs (by simp [Call.unlinked]) ho (fun b hb _ => ?_) fun _ _ _ => hown
        rw [AdbFs.held_eq hopened.copies_eq, ← AdbFs.held_eq hc, hself.held b hb]
      · rintro e u ⟨⟨-, hshared⟩ | ⟨p, d, w₁, -, hacquires, hback⟩, -, rfl⟩
        · exact h.parted_same hs (by simp [Call.unlinked]) ho (.of_shared hshared)
        · obtain rfl := hacquires.live_eq hc
          exact h.parted_same hs (by simp [Call.unlinked]) ho (.of_gaveBack hc hback rfl)
    exact ends_iff.mp hends

lemma Marks.parted_write {fh offset : ℕ} {data : Bytes}
    (h : Marks s ⟨.write fh offset data, host, reply⟩ s') (hs : Parted s)
    (hfh : s.fs.shared.handles fh = some i) (hclear : s.old fh = true → s.own i = none) :
    PartedAt s' i := by
  obtain ⟨spare, hwired⟩ := hs.linked
  have hself := hs.parted i
  have hends : Ends (AdbFs.write host fh offset data) s.fs (fun _ _ => PartedAt s' i)
      fun _ _ => PartedAt s' i := by
    apply ((write_ends host offset data hwired).and h.serves.ends).imp
    · rintro r u ⟨⟨j, id, c, n, rfl, hj, hc, hholds⟩, hreply, rfl⟩
      dsimp only at hreply
      subst hreply
      obtain rfl : j = i := Option.some.inj (hj.symm.trans hfh)
      have ho : (if (s.fs.shared.handles fh) == some j && !s.byOld (.write fh offset data) then
          s.edited ⟨.write fh offset data, host, some (.written n)⟩ j else s.own j) =
            (s.own j).map (Contents.writeAt offset (data.take n)) := by
        cases hold : s.old fh with
        | true => simp [Marked.byOld, Request.handle, hold, hclear hold]
        | false =>
          simp only [hfh, Marked.byOld, Request.handle, Option.any_some, hold]
          cases hown : s.own j <;> simp [Marked.edited, hown, Call.edit]
      refine h.partedAt hs (by simp [Call.unlinked]) ho (fun b hb _ => ?_) fun g hg hnew => ?_
      · obtain ⟨b', hb', rfl⟩ := Option.map_eq_some_iff.mp hb
        rw [AdbFs.held_eq hholds.copies_eq, ← AdbFs.held_eq hc, hself.held b' hb']
        rfl
      · rw [hholds.shared] at hg
        have hg' : s.fs.shared.handles g = some j := hg
        rw [h.oldAfter_eq hg', Bool.or_eq_false_iff] at hnew
        simp [hself.known g hg' hnew.1]
    · rintro e u ⟨rfl, hreply, hu⟩
      refine h.parted_same hs (by simp [Call.unlinked]) ?_ (.of_shared (by rw [← hu]))
      have hedit := (Call.idle_of_failed hreply).edit
      simp only [Marked.edited, hedit]
      cases s.own i <;> simp
  exact ends_iff.mp hends

lemma Marks.parted_flush {fh : ℕ} (h : Marks s ⟨.flush fh, host, reply⟩ s') (hs : Parted s)
    (hfh : s.fs.shared.handles fh = some i) : PartedAt s' i := by
  obtain ⟨spare, hwired⟩ := hs.linked
  have hsame : SameFile i s.fs s'.fs := by
    have hends : Ends (AdbFs.flush fh) s.fs (fun _ _ => SameFile i s.fs s'.fs)
        fun _ _ => SameFile i s.fs s'.fs := by
      apply ((flush_ends hwired).and h.serves.ends).imp
      · rintro r u ⟨⟨-, j, id, c, hj, hid, hc, hdone⟩, -, rfl⟩
        obtain rfl : j = i := Option.some.inj (hj.symm.trans hfh)
        exact .of_put hc (hdone.holds hwired hid hc).shared rfl
      · rintro e u ⟨hfailed, -, hu⟩
        rcases hfailed with rfl | ⟨j, id, c, hj, -, hc, hfailed⟩
        · exact .of_shared (by rw [← hu])
        · subst hu
          obtain rfl : j = i := Option.some.inj (hj.symm.trans hfh)
          obtain ⟨dirty, hholds, -⟩ := hfailed.holds
          exact .of_put hc hholds.shared rfl
    exact ends_iff.mp hends
  refine h.parted_same hs (by simp [Call.unlinked]) ?_ hsame
  have hedit : ∀ f, Call.edit ⟨.flush fh, host, reply⟩ f = f := fun _ => rfl
  simp only [Marked.edited, hedit]
  cases s.own i <;> simp

lemma Marks.parted_release {fh : ℕ} (h : Marks s ⟨.release fh, host, reply⟩ s') (hs : Parted s)
    (hfh : s.fs.shared.handles fh = some i) : PartedAt s' i := by
  obtain ⟨spare, hwired⟩ := hs.linked
  have hsame : SameFile i s.fs s'.fs := by
    have hends : Ends (AdbFs.release host fh : FsM Phone Errno Reply) s.fs
        (fun _ _ => SameFile i s.fs s'.fs) fun _ _ => SameFile i s.fs s'.fs := by
      apply ((release_ends host hwired).and h.serves.ends).imp
      · rintro r u ⟨⟨hnone, -⟩ | ⟨j, id, hj, -, hshared⟩, -, rfl⟩
        · simp [hfh] at hnone
        · obtain rfl : j = i := Option.some.inj (hj.symm.trans hfh)
          exact .of_detach hshared
      · exact fun _ _ hfalse => hfalse.1.elim
    exact ends_iff.mp hends
  refine h.parted_same hs (by simp [Call.unlinked]) ?_ hsame
  have hedit : ∀ f, Call.edit ⟨.release fh, host, reply⟩ f = f := fun _ => rfl
  simp only [Marked.edited, hedit]
  cases s.own i <;> simp

lemma truncate_opened {p : Text} {n : ℕ} :
    Ends (truncate host i p n) w (fun _ _ => host.openFile = none ∧ host.setLen = none)
      fun _ _ => True := by
  have hcut : ∀ (id : ℕ) (v : PhoneFs), Ends (truncateCopy host i id n) v
      (fun _ _ => host.openFile = none ∧ host.setLen = none) fun _ _ => True := by
    intro id v
    apply ends_bind.mpr
    apply ends_outcome.mpr
    refine ⟨fun hopen => ?_, fun _ _ => trivial⟩
    apply ends_bind.mpr
    apply ends_outcome.mpr
    refine ⟨fun hset => ?_, fun _ _ => trivial⟩
    exact ends_of_apply (fun _ _ _ => ⟨hopen, hset⟩) fun _ _ _ => trivial
  apply ends_bind.mpr
  refine ends_of_apply (fun id u _ => ?_) fun _ _ _ => trivial
  apply ends_bind.mpr
  apply ends_attempt.mpr
  apply (hcut id u).imp
  · intro _ v hset
    apply ends_bind.mpr
    exact ends_of_apply (fun _ _ _ => hset) fun _ _ _ => trivial
  · rintro (e | _) v -
    · apply ends_bind.mpr
      exact ends_of_apply (fun _ _ _ => trivial) fun _ _ _ => trivial
    · trivial

lemma setattr_held {n : ℕ} {atime mtime : Option TimeOrNow} (hw : w.Linked) :
    Ends (AdbFs.setattr host i (some n) atime mtime) w
      (fun r w' => (∃ ttl a, r = .attr ttl a) ∧ w'.shared.handles = w.shared.handles ∧
        ∀ b, w.held i = some b → w'.shared.copies i ≠ none →
          w'.held i = some (Contents.setLen n b))
      fun _ w' => w'.shared.handles = w.shared.handles ∧
        ∀ b, w.held i = some b → w'.shared.copies i ≠ none →
          w'.held i = some (if Marked.setsLength w host i n then Contents.setLen n b else b) := by
  obtain ⟨spare, hwired⟩ := id hw
  apply ends_getPath.mpr
  refine ⟨fun p hp => ?_, fun hnone => ⟨rfl, fun b hb _ => by simp [Marked.setsLength, hnone, hb]⟩⟩
  apply ends_bind.mpr
  apply (((truncate_cases host n hwired).and truncate_opened).and
    (truncate_returns host hw i p n)).imp
  · rintro _ u ⟨⟨⟨c, w₁, q, hacquires, -, -, hback⟩, hopened⟩, -⟩
    have hsets : Marked.setsLength w host i n := by
      refine ⟨by simp [hp], ?_⟩
      split_ifs at hacquires ⊢
      · cases hacquires with
        | empty hcreate _ => exact hcreate
      · exact hopened
    have hcut : ∀ {w' : PhoneFs} {b}, FilesKept u w' → w.held i = some b →
        w'.shared.copies i ≠ none → w'.held i = some (Contents.setLen n b) := by
      intro w' b hfiles hb hlive
      rw [hfiles.shared] at hlive
      obtain ⟨d, hd⟩ := Option.ne_none_iff_exists'.mp hlive
      obtain ⟨c', hc', hb'⟩ := Option.bind_eq_some_iff.mp hb
      rw [AdbFs.held, hfiles.shared, ← AdbFs.held, AdbFs.held_eq hd, hback.copies_eq hd]
      exact (hacquires.shortened hc').2 b hb'
    apply ((afterResize_ends host i p atime mtime u).and
      ((quiet_afterResize host i p atime mtime).ends u)).imp
    · rintro r w' ⟨⟨hr, -⟩, hfiles⟩
      exact ⟨hr, by rw [hfiles.shared, hback.handles_eq], fun b => hcut hfiles⟩
    · rintro e w' ⟨-, hfiles⟩
      simp only [if_pos hsets]
      exact ⟨by rw [hfiles.shared, hback.handles_eq], fun b => hcut hfiles⟩
  · rintro e u ⟨⟨hfailed, -⟩, hpanic⟩
    have hleft : ∀ {c : Copy} {b}, c.bytes = some b → (c.truncateFailed host n).bytes =
        some (if Marked.setsLength w host i n then Contents.setLen n b else b) := by
      intro c b hb
      have hsets : Marked.setsLength w host i n ↔
          if n = 0 then host.create = none else host.openFile = none ∧ host.setLen = none := by
        simp [Marked.setsLength, hp]
      simp only [Copy.truncateFailed, hsets]
      by_cases hzero : n = 0
      · subst hzero
        by_cases hcreate : host.create = none <;> simp [hcreate, hb, Contents.setLen_zero]
      · by_cases hset : host.openFile = none ∧ host.setLen = none <;> simp [hzero, hset, hb]
    rcases hfailed with ⟨hunheld, -, hrefuses⟩ | ⟨c, w₁, hacquires, -, -, hback, -⟩
    · refine ⟨by rw [hunheld.shared], fun b hb _ => ?_⟩
      obtain ⟨c', hc', hb'⟩ := Option.bind_eq_some_iff.mp hb
      rw [AdbFs.held, hunheld.shared, ← AdbFs.held, AdbFs.held_eq hc', ← hleft hb',
        hrefuses.truncateFailed hc']
    · have hback := hback hpanic
      refine ⟨hback.handles_eq, fun b hb hlive => ?_⟩
      obtain ⟨d, hd⟩ := Option.ne_none_iff_exists'.mp hlive
      obtain ⟨c', hc', hb'⟩ := Option.bind_eq_some_iff.mp hb
      rw [AdbFs.held_eq hd, hback.copies_eq hd, hacquires.truncateFailed hc', hleft hb']

lemma Marks.parted_setattr {n : ℕ} {atime mtime : Option TimeOrNow} {fh : Option ℕ}
    (h : Marks s ⟨.setattr i (some n) atime mtime fh, host, reply⟩ s') (hs : Parted s)
    (hclear : s.byOld (.setattr i (some n) atime mtime fh) = true → s.fs.inodes.getPath i = none) :
    PartedAt s' i := by
  have hself := hs.parted i
  cases hold : s.byOld (.setattr i (some n) atime mtime fh) with
  | true =>
    have hnone := hclear hold
    have hends : Ends (AdbFs.setattr host i (some n) atime mtime) s.fs (fun _ _ => False)
        fun _ w' => w' = s.fs :=
      ends_getPath.mpr ⟨fun p hp => by simp [hnone] at hp, fun _ => rfl⟩
    have heq : s'.fs = s.fs := by
      have hall : Ends (AdbFs.setattr host i (some n) atime mtime) s.fs
          (fun _ _ => s'.fs = s.fs) fun _ _ => s'.fs = s.fs := by
        apply (hends.and h.serves.ends).imp
        · exact fun _ _ hfalse => hfalse.1.elim
        · rintro e u ⟨rfl, -, hu⟩
          exact hu.symm
      exact ends_iff.mp hall
    exact h.parted_same hs (by simp [Call.unlinked]) (by simp [hold]) (.of_shared (by rw [heq]))
  | false =>
    have hhandle : ∀ g, s.fs.shared.handles g = some i → s'.old g = false → s.own i ≠ none := by
      intro g hg hnew
      rw [h.oldAfter_eq hg, Bool.or_eq_false_iff] at hnew
      exact hself.known g hg hnew.1
    have hends : Ends (AdbFs.setattr host i (some n) atime mtime) s.fs (fun _ _ => PartedAt s' i)
        fun _ _ => PartedAt s' i := by
      apply ((setattr_held hs.linked).and h.serves.ends).imp
      · rintro r u ⟨⟨⟨ttl, a, rfl⟩, hhandles, hheld⟩, hreply, rfl⟩
        dsimp only at hreply
        subst hreply
        refine h.partedAt (o := (s.own i).map (Contents.setLen n)) hs (by simp [Call.unlinked]) ?_
          (fun b hb hlive => ?_) fun g hg hnew => ?_
        · simp [hold, Request.target, Marked.edited]
        · obtain ⟨b', hb', rfl⟩ := Option.map_eq_some_iff.mp hb
          exact hheld b' (hself.held b' hb') hlive
        · simp [hhandle g (hhandles ▸ hg) hnew]
      · rintro e u ⟨⟨hhandles, hheld⟩, hreply, rfl⟩
        refine h.partedAt (o := (s.own i).map fun b =>
          if Marked.setsLength s.fs host i n then Contents.setLen n b else b) hs
          (by simp [Call.unlinked]) ?_ (fun b hb hlive => ?_) fun g hg hnew => ?_
        · dsimp only at hreply
          subst hreply
          cases e <;> simp [hold, Request.target, Marked.edited, replyTo]
        · obtain ⟨b', hb', rfl⟩ := Option.map_eq_some_iff.mp hb
          exact hheld b' (hself.held b' hb') hlive
        · simp [hhandle g (hhandles ▸ hg) hnew]
    exact ends_iff.mp hends

lemma Marks.parted_create {parent : ℕ} {name : KernelName}
    (h : Marks s ⟨.create parent name, host, reply⟩ s') (hs : Parted s)
    (htarget : Request.created s.fs parent name = some i) : PartedAt s' i := by
  obtain ⟨spare, hwired⟩ := hs.linked
  have hself := hs.parted i
  obtain ⟨dir, hdir, hi⟩ := Option.map_eq_some_iff.mp htarget
  have hown : ∀ {o}, s.edited ⟨.create parent name, host, reply⟩ i = o →
      (if Request.created s.fs parent name == some i && !s.byOld (.create parent name) then
        s.edited ⟨.create parent name, host, reply⟩ i else s.own i) = o := by
    rintro o rfl
    simp [htarget, Marked.byOld, Request.handle]
  have hends : Ends (AdbFs.create host parent name) s.fs (fun _ _ => PartedAt s' i)
      fun _ _ => PartedAt s' i := by
    apply ((create_ends host name hwired hdir rfl hi).and h.serves.ends).imp
    · rintro r u ⟨⟨⟨ttl, a, g, fh, flags, rfl⟩, hopened, -⟩, hreply, rfl⟩
      dsimp only at hreply
      subst hreply
      refine h.partedAt (o := some []) hs (by simp [Call.unlinked]) (hown rfl) (fun b hb _ => ?_)
        fun _ _ _ => by simp
      rw [AdbFs.held_eq hopened.copies_eq]
      exact hb
    · rintro e u ⟨hfailed, hreply, rfl⟩
      have hsame : s'.fs.shared.handles = s.fs.shared.handles ∧
          ∀ b, s.fs.held i = some b → s'.fs.shared.copies i ≠ none →
            s'.fs.held i = some (if host.create = none then [] else b) := by
        rcases hfailed with ⟨hcreate, -, hshared, -⟩ | ⟨hcreate, -, dirty, spare', hback, -⟩
        · simp only [AdbFs.held, hshared, if_neg hcreate]
          exact ⟨trivial, fun b hb _ => hb⟩
        · refine ⟨hback.handles_eq, fun b _ hlive => ?_⟩
          obtain ⟨d, hd⟩ := Option.ne_none_iff_exists'.mp hlive
          rw [AdbFs.held_eq hd, hback.copies_eq hd, if_pos hcreate]
      obtain ⟨hhandles, hheld⟩ := hsame
      refine h.partedAt (o := (s.own i).map fun b => if host.create = none then [] else b) hs
        (by simp [Call.unlinked]) (hown ?_) (fun b hb hlive => ?_) fun g hg hnew => ?_
      · dsimp only at hreply
        subst hreply
        cases e <;> rfl
      · obtain ⟨b', hb', rfl⟩ := Option.map_eq_some_iff.mp hb
        exact hheld b' (hself.held b' hb') hlive
      · rw [hhandles] at hg
        rw [h.oldAfter_eq hg, Bool.or_eq_false_iff] at hnew
        simp [hself.known g hg hnew.1]
  exact ends_iff.mp hends

end Requests

lemma Marks.parted (h : Marks s call s') (hs : Parted s) (hclear : Untangled s call) : Parted s' := by
  refine ⟨h.linked hs, fun i => ?_⟩
  by_cases hi : call.unlinked s.fs = some i
  · exact h.parted_unlinked hi
  by_cases htarget : call.request.target s.fs = some i
  · obtain ⟨request, host, reply⟩ := call
    cases request with
    | «open» j =>
      obtain rfl := Option.some.inj htarget
      exact h.parted_open hs hclear
    | write fh offset data => exact h.parted_write hs htarget fun hold => hclear hold i htarget
    | flush fh => exact h.parted_flush hs htarget
    | release fh => exact h.parted_release hs htarget
    | setattr j size atime mtime fh =>
      obtain ⟨n, rfl, rfl⟩ := Option.map_eq_some_iff.mp htarget
      refine h.parted_setattr hs fun hold => ?_
      exact (hclear (Or.inl hold)).resolve_left (by simp)
    | create parent name => exact h.parted_create hs htarget
    | _ => simp [Request.target] at htarget
  · exact h.parted_other hs hi htarget

section Old

variable {host : Host} {reply : Option Reply} {fh : ℕ}

lemma Marks.holds (h : Marks s call s') {R : PhoneFs → PhoneFs → Prop}
    (hkeeps : Keeps R (AdbFs.handle call.host call.request)) : R s.fs s'.fs := by
  have happly := hkeeps.holds s.fs
  rwa [← serve_snd, h.serves] at happly

lemma Marks.flush_idle (h : Marks s ⟨.flush fh, host, reply⟩ s') (hs : Parted s)
    (hclear : ∀ i c, s.fs.shared.handles fh = some i → s.fs.shared.copies i = some c →
      c.dirty = true → s.fs.inodes.getPath i = none) :
    s'.fs.ops = s.fs.ops ∧ s'.fs.shared = s.fs.shared := by
  obtain ⟨spare, hwired⟩ := hs.linked
  have hends : Ends (AdbFs.flush fh) s.fs
      (fun _ _ => s'.fs.ops = s.fs.ops ∧ s'.fs.shared = s.fs.shared)
      fun _ _ => s'.fs.ops = s.fs.ops ∧ s'.fs.shared = s.fs.shared := by
    apply ((flush_ends hwired).and h.serves.ends).imp
    · rintro r u ⟨⟨-, i, id, c, hi, hid, hc, hdone⟩, -, rfl⟩
      cases hdone with
      | clean _ heq => rw [heq]; exact ⟨rfl, rfl⟩
      | sent hdirty hpath _ _ =>
        rw [hclear i c hi hc hdirty] at hpath
        contradiction
    · rintro e u ⟨heq | ⟨i, id, c, hi, -, hc, hfailed⟩, -, hu⟩
      · rw [← hu, heq]
        exact ⟨rfl, rfl⟩
      · subst hu
        have hnone := hclear i c hi hc hfailed.dirty
        cases hfailed.unsent with
        | nowhere _ he hops =>
          have hholds := hfailed.restored (by simp [he])
          exact ⟨hops, hholds.shared.trans (Shared.put_self hc)⟩
        | refused hpath _ _ =>
          rw [hnone] at hpath
          contradiction
  exact ends_iff.mp hends

lemma Marks.setattr_idle {size : Option ℕ} {atime mtime : Option TimeOrNow} {g : Option ℕ}
    (h : Marks s ⟨.setattr i size atime mtime g, host, reply⟩ s')
    (hclear : (size = none ∧ atime = none ∧ mtime = none) ∨ s.fs.inodes.getPath i = none) :
    Unsending s.fs s'.fs := by
  have hends : Ends (AdbFs.setattr host i size atime mtime) s.fs
      (fun _ w' => Unsending s.fs w') fun _ w' => Unsending s.fs w' := by
    apply ends_getPath.mpr
    refine ⟨fun p hp => ?_, fun _ => Or.inl rfl⟩
    obtain ⟨rfl, rfl, rfl⟩ := hclear.resolve_right (by simp [hp])
    apply ends_bind.mpr
    change Ends (touchTimes host p none none >>= _) s.fs _ _
    rw [touchTimes, if_pos ⟨rfl, rfl⟩]
    apply ends_bind.mpr
    change Ends (device (getMetadata p) >>= _) s.fs _ _
    apply ends_bind.mpr
    apply ends_device.mpr
    apply ends_of_apply
    · intro m t ht
      exact Or.inr ⟨p, (congrArg Prod.snd ht).symm⟩
    · intro e t ht
      exact Or.inr ⟨p, (congrArg Prod.snd ht).symm⟩
  have happly := ends_iff.mp hends
  have hsnd : (AdbFs.setattr host i size atime mtime s.fs).2 = s'.fs :=
    (serve_snd _ _ _).symm.trans (congrArg Prod.snd h.serves)
  rwa [hsnd] at happly

lemma Marks.read_own {offset size : ℕ} {bytes : Bytes}
    (h : Marks s ⟨.read fh offset size, host, some (.data bytes)⟩ s') (hs : Parted s)
    (hnew : s.old fh = false) : ∃ i b, s.fs.shared.handles fh = some i ∧ s.own i = some b ∧
      bytes = Contents.readAt offset size b := by
  have hread : (AdbFs.serve host (.read fh offset size) s.fs).1 = some (.data bytes) :=
    congrArg Prod.fst h.serves
  cases hfh : s.fs.shared.handles fh with
  | none =>
    have hends : Ends (AdbFs.read host fh offset size : FsM Phone Errno Reply) s.fs
        (fun _ _ => False) fun _ _ => True := by
      apply ends_handleOf.mpr
      refine ⟨fun o ho => ?_, fun _ => trivial⟩
      have hsome : s.fs.shared.handles fh = some o.ino := congrArg (Option.map OpenFile.ino) ho
      simp [hfh] at hsome
    have happly := handle_of_serve (by simp) h.serves
    exact (hends.of_ok happly).elim
  | some i =>
    obtain ⟨b, hb⟩ := Option.ne_none_iff_exists'.mp ((hs.parted i).known fh hfh hnew)
    obtain ⟨c, hc, hbytes⟩ := Option.bind_eq_some_iff.mp ((hs.parted i).held b hb)
    rw [read_reply hs.linked hfh hc, hbytes] at hread
    refine ⟨i, b, rfl, hb, ?_⟩
    cases hhost : host.read with
    | none =>
      rw [hhost] at hread
      exact (Reply.data.inj (Option.some.inj hread)).symm
    | some e => simp [hhost] at hread

end Old

lemma Marks.isolated (h : Marks s call s') (hs : Parted s) (hclear : Untangled s call) :
    Isolated s call s' := by
  obtain ⟨request, host, reply⟩ := call
  constructor
  · intro horphaned
    cases request with
    | flush fh => exact Or.inl (h.flush_idle hs (hclear horphaned)).1
    | release fh => exact Or.inl (h.holds sameOps_release)
    | setattr i size atime mtime fh => exact h.setattr_idle (hclear horphaned)
    | _ => exact horphaned.elim
  · rintro fh offset size bytes rfl hnew rfl
    exact h.read_own hs hnew
  · rintro fh (⟨offset, data, rfl⟩ | rfl) hold
    · refine ⟨h.holds (sameOps_write offset data), fun i hown => ?_⟩
      apply (serves_othersKept hs.linked h.serves).copies
      exact fun hi => hown (hclear hold i hi)
    · obtain ⟨hops, hshared⟩ := h.flush_idle hs (hclear hold)
      exact ⟨hops, fun i _ => by rw [hshared]⟩

def Marked.mounted (ops : DeviceOps Phone) (cacheTtl : ℕ) (opts : FsOptions) : Marked where
  fs := AdbFs.new ops cacheTtl opts
  old _ := false
  own _ := none

lemma parted_mounted (ops : DeviceOps Phone) (cacheTtl : ℕ) (opts : FsOptions) :
    Parted (.mounted ops cacheTtl opts) where
  linked := ⟨0, wired_new, fun _ _ => rfl⟩
  parted i := by
    refine ⟨by simp [Marked.mounted], fun fh hfh => ?_⟩
    have hnone : (Marked.mounted ops cacheTtl opts).fs.shared.handles fh = none := rfl
    rw [hnone] at hfh
    contradiction

end Unlinked

section Plain

attribute [local instance] plainLibc

def Marked.after (s : Marked) (request : Request) : Marked :=
  let answer := AdbFs.serve (plainHost 0 1 0) request s.fs
  let call : Call := ⟨request, plainHost 0 1 0, answer.1⟩
  { fs := answer.2
    old := s.oldAfter call
    own := s.ownAfter call answer.2 }

def Marked.call (s : Marked) (request : Request) : Call :=
  ⟨request, plainHost 0 1 0, (AdbFs.serve (plainHost 0 1 0) request s.fs).1⟩

lemma marks_after (s : Marked) (request : Request) :
    Marks s (s.call request) (s.after request) := ⟨rfl, rfl, rfl⟩

def oneFileOps : DeviceOps Phone where
  adb := plainPhone [("/a".toList, byteNode 7)] [dirNode, dirNode, dirNode, byteNode 9]
  touchGnuMode := true
  rescan := false

def openedA : Marked :=
  ((Marked.mounted oneFileOps (10 ^ 9) {}).after (.lookup 1 nameA)).after (.open 2)

def unlinkedA : Marked := (openedA.after (.write 1 0 [9])).after (.unlink 1 nameA)

def successorOps : DeviceOps Phone where
  adb := plainPhone [("/a".toList, byteNode 7)] [dirNode, dirNode, dirNode, emptyNode]
  touchGnuMode := true
  rescan := false

def remadeA : Marked :=
  ((((Marked.mounted successorOps (10 ^ 9) {}).after (.lookup 1 nameA)).after (.open 2)).after
    (.unlink 1 nameA)).after (.create 1 nameA)

def succeededA : Marked := remadeA.after (.write 2 0 [9])

end Plain

end Adbfs
