import Adbfs.Backing

/-! The file system beside a reference that keeps one byte string for each inode. -/

namespace Adbfs

open Library Library.Paths Library.Action Files

section Reference

variable [Libc]

abbrev Reference := ℕ → Option Bytes

/-- What a request that is acknowledged does to the file it concerns. -/
def Call.edit (call : Call) (f : Option Bytes) : Option Bytes :=
  match call.request, call.reply with
  | .write _ offset data, some (.written n) => f.map (Contents.writeAt offset (data.take n))
  | .setattr _ (some n) _ _ _, some (.attr _ _) => some (Contents.setLen n (f.getD []))
  | .create _ _, some (.created _ _ _ _ _) => some []
  | _, _ => f

def Reference.apply (w : PhoneFs) (call : Call) (r : Reference) : Reference := fun i =>
  if call.request.target w = some i then call.edit (r i) else r i

def AdbFs.stored (w : PhoneFs) (i : ℕ) : Option Bytes :=
  (w.inodes.getPath i).bind fun p => (w.tree p).bind Node.data

def Call.flushed (call : Call) (flushed : ℕ → Bool) : ℕ → Bool :=
  match call.request, call.reply with
  | .flush fh, some .ok => Function.update flushed fh true
  | .write fh _ _, some (.written _) => Function.update flushed fh false
  | _, _ => flushed

structure Watched where
  fs : PhoneFs
  contents : Reference
  flushed : ℕ → Bool

/-- An inode that the reference knows no file of takes what the device holds. -/
structure Watches (s : Watched) (call : Call) (s' : Watched) : Prop where
  serves : Serves s.fs call s'.fs
  contents : ∀ i, s'.contents i =
    (Reference.apply s.fs call s.contents i).or (s'.fs.stored i)
  flushed : s'.flushed = call.flushed s.flushed

/-- Files are opened, created, read, written, resized, renamed and closed, and a handle is closed
after a flush only. A file is created where there is none, and what is renamed has an inode. -/
def Regular (s : Watched) : Request → Prop
  | .getattr _ => True
  | .lookup _ _ => True
  | .open _ => True
  | .read _ _ _ => True
  | .write _ _ _ => True
  | .flush _ => True
  | .release fh => s.flushed fh = true
  | .setattr _ size _ _ _ => size ≠ none
  | .create parent name => ∀ dir, s.fs.inodes.getPath parent = some dir →
      s.fs.tree (childPath dir name) = none
  | .rename parent name _ _ _ => ∀ p, renameSource s.fs parent name = some p →
      ∃ i, s.fs.inodes.getPath i = some p
  | _ => False

/-- No command on the device fails, but those of a flush may. -/
def Obeyed (s : Watched) (call : Call) : Prop :=
  (∃ fh, call.request = .flush fh) ∨
    (AdbFs.serve call.host call.request s.fs).2.ops.failures = s.fs.ops.failures

/-- A rename does not go into a directory. A setattr of the size is of no file whose name reads as a
denial, and does not fail after it emptied a file that is open. -/
def Harmless (s : Watched) (call : Call) : Prop :=
  NoDirTarget s.fs call.request ∧
    match call.request with
    | .setattr i (some n) _ _ _ =>
      (∀ p, s.fs.inodes.getPath i = some p → ¬ permissionErrSuffix <:+ p) ∧
        (n = 0 → call.host.create = none → s.fs.shared.copies i ≠ none →
          call.host.openFile = none ∧ call.host.setLen = none)
    | _ => True

/-- Every copy holds what the reference holds, which is what a read replies unless the local one fails,
and so does the device where nothing is pending. -/
structure Faithful (s : Watched) : Prop where
  copies : ∀ i c, s.fs.shared.copies i = some c → c.bytes = s.contents i
  reads : ∀ fh i (h : Host) offset size, s.fs.shared.handles fh = some i →
    ∃ b, s.contents i = some b ∧ (AdbFs.serve h (.read fh offset size) s.fs).1 =
      some (h.read.elim (.data (Contents.readAt offset size b)) .error)
  stored : ∀ i p, s.fs.inodes.getPath i = some p →
    (∀ c, s.fs.shared.copies i = some c → c.dirty = false) →
      (s.fs.tree p).bind Node.data = s.contents i

/-- A copy that is dirty waits for the flush of a handle, and a file with a copy is on the device. -/
structure Mirrors (s : Watched) (i : ℕ) : Prop where
  copy : ∀ c, s.fs.shared.copies i = some c → ∃ b, c.bytes = some b ∧ s.contents i = some b
  settled : ∀ p, s.fs.inodes.getPath i = some p →
    (∀ c, s.fs.shared.copies i = some c → c.dirty = false) →
      (s.fs.tree p).bind Node.data = s.contents i
  pending : ∀ c, s.fs.shared.copies i = some c → c.dirty = true →
    ∃ fh, s.fs.shared.handles fh = some i ∧ s.flushed fh = false
  present : ∀ p, s.fs.inodes.getPath i = some p → s.fs.shared.copies i ≠ none → s.fs.tree p ≠ none
  unborn : s.fs.inodes.nextIno ≤ i → s.fs.shared.copies i = none ∧ s.contents i = none

structure Consistent (s : Watched) : Prop where
  wired : s.fs.Wired 0
  wf : s.fs.inodes.WF
  rooted : Rooted s.fs.tree
  mirrors : ∀ i, Mirrors s i

variable {s s' : Watched} {i j : ℕ} {p : Text} {call : Call} {c : Copy}

lemma AdbFs.stored_of_path {w : PhoneFs} (hp : w.inodes.getPath i = some p) :
    w.stored i = (w.tree p).bind Node.data := by
  rw [AdbFs.stored, hp, Option.bind_some]

lemma AdbFs.stored_of_none {w : PhoneFs} (hp : w.inodes.getPath i = none) : w.stored i = none := by
  rw [AdbFs.stored, hp, Option.bind_none]

lemma Mirrors.lt (h : Mirrors s i) (hc : s.fs.shared.copies i = some c) :
    i < s.fs.inodes.nextIno := by
  by_contra hle
  have hnone := (h.unborn (not_lt.mp hle)).1
  rw [hc] at hnone
  contradiction

lemma Mirrors.settled_of_none (h : Mirrors s i) (hp : s.fs.inodes.getPath i = some p)
    (hc : s.fs.shared.copies i = none) : (s.fs.tree p).bind Node.data = s.contents i :=
  h.settled p hp fun c hsome => by simp [hc] at hsome

lemma Mirrors.frame (h : Mirrors s i)
    (hnext : s.fs.inodes.nextIno ≤ s'.fs.inodes.nextIno)
    (hcopies : s'.fs.shared.copies i = s.fs.shared.copies i)
    (hhandles : ∀ fh, s.fs.shared.handles fh = some i → s.flushed fh = false →
      s'.fs.shared.handles fh = some i ∧ s'.flushed fh = false)
    (hpath : ∀ p', s'.fs.inodes.getPath i = some p' → ∃ p, s.fs.inodes.getPath i = some p ∧
      (s'.fs.tree p').bind Node.data = (s.fs.tree p).bind Node.data ∧
        (s.fs.tree p ≠ none → s'.fs.tree p' ≠ none))
    (hbounded : s'.fs.inodes.nextIno ≤ i → s'.fs.inodes.getPath i = none)
    (hcontents : s'.contents i = (s.contents i).or (s'.fs.stored i)) : Mirrors s' i := by
  constructor
  · intro c hc
    obtain ⟨b, hb, hcontents'⟩ := h.copy c (hcopies ▸ hc)
    exact ⟨b, hb, by rw [hcontents, hcontents', Option.some_or]⟩
  · intro p' hp' hclean
    obtain ⟨p, hp, hdata, -⟩ := hpath p' hp'
    rw [hcontents, AdbFs.stored_of_path hp', hdata, h.settled p hp (hcopies ▸ hclean), Option.or_self]
  · intro c hc hdirty
    obtain ⟨fh, hfh, hflushed⟩ := h.pending c (hcopies ▸ hc) hdirty
    exact ⟨fh, hhandles fh hfh hflushed⟩
  · intro p' hp' hlive
    obtain ⟨p, hp, -, hkept⟩ := hpath p' hp'
    exact hkept (h.present p hp (hcopies ▸ hlive))
  · intro hi
    obtain ⟨hnone, hno⟩ := h.unborn (hnext.trans hi)
    exact ⟨hcopies.trans hnone, by
      rw [hcontents, hno, AdbFs.stored_of_none (hbounded hi), Option.or_self]⟩

lemma Mirrors.adopted (hcopies : s'.fs.shared.copies i = none) (hno : s.contents i = none)
    (hbounded : s'.fs.inodes.nextIno ≤ i → s'.fs.inodes.getPath i = none)
    (hcontents : s'.contents i = (s.contents i).or (s'.fs.stored i)) : Mirrors s' i := by
  have hstored : s'.contents i = s'.fs.stored i := by rw [hcontents, hno, Option.none_or]
  refine ⟨by simp [hcopies], ?_, by simp [hcopies], by simp [hcopies], fun hi => ⟨hcopies, ?_⟩⟩
  · intro p hp _
    rw [hstored, AdbFs.stored_of_path hp]
  · rw [hstored, AdbFs.stored_of_none (hbounded hi)]

lemma Mirrors.of_clean {b : Bytes} (hi : i < s.fs.inodes.nextIno) (hcontents : s.contents i = some b)
    (hcopies : ∀ c, s.fs.shared.copies i = some c → c = ⟨some b, false⟩)
    (hdata : ∀ p, s.fs.inodes.getPath i = some p → (s.fs.tree p).bind Node.data = some b) :
    Mirrors s i := by
  refine ⟨fun c hc => ?_, fun p hp _ => ?_, fun c hc hdirty => ?_, fun p hp _ hnone => ?_, ?_⟩
  · rw [hcopies c hc]
    exact ⟨b, rfl, hcontents⟩
  · rw [hdata p hp, hcontents]
  · rw [hcopies c hc] at hdirty
    contradiction
  · have hthere := hdata p hp
    rw [hnone] at hthere
    contradiction
  · intro hle
    omega

lemma pulled_ok {w : PhoneFs} {f : Option Bytes} (h : (w.pulled p i).1 = (.ok (), f)) :
    ∃ b, (w.tree p).bind Node.data = some b ∧ f = some b := by
  rcases pull_cases p (w.files.tmpDir i) w.ops.adb with ⟨-, b, hb, hf, -⟩ | ⟨⟨e, he⟩, -⟩
  · refine ⟨b, hb, ?_⟩
    rw [← hf]
    exact (congrArg Prod.snd h).symm
  · have hok : (AdbDevice.pull p (w.files.tmpDir i) w.ops.adb).1.1 = .ok () := congrArg Prod.fst h
    rw [he] at hok
    contradiction

lemma put_of_sent {here : LocalPath} {f : Option Bytes} {t t' : DeviceOps Phone}
    (h : pushAndSync here f p t = (.ok (), t')) : Put p f t.tree t'.tree :=
  ((pushAndSync_ends here f p t).of_ok h).2

lemma torn_of_refused {here : LocalPath} {f : Option Bytes} {t t' : DeviceOps Phone}
    {e : Abort DeviceError} (h : pushAndSync here f p t = (.error e, t')) : Torn p t.tree t'.tree :=
  ((pushAndSync_ends here f p t).of_error h).2

omit [Libc] in
lemma Inodes.WF.getPath_of_le {t : Inodes} (h : t.WF) (hi : t.nextIno ≤ i) : t.getPath i = none := by
  cases hp : t.getPath i with
  | none => rfl
  | some p => exact absurd (h.bounded i p hp) (by omega)

lemma Call.flushed_eq {fh : ℕ} (hfh : s.fs.shared.handles fh = some i)
    (hi : call.request.target s.fs ≠ some i) : call.flushed s.flushed fh = s.flushed fh := by
  obtain ⟨request, host, reply⟩ := call
  have hne : ∀ g, s.fs.shared.handles g ≠ some i → fh ≠ g := by
    rintro g hg rfl
    exact hg hfh
  rw [Call.flushed]
  dsimp only
  split
  · exact Function.update_of_ne (hne _ hi) _ _
  · exact Function.update_of_ne (hne _ hi) _ _
  · rfl

lemma Watches.contents_other (h : Watches s call s') (hi : call.request.target s.fs ≠ some i) :
    s'.contents i = (s.contents i).or (s'.fs.stored i) := by
  rw [h.contents, Reference.apply, if_neg hi]

lemma Watches.contents_target (h : Watches s call s') (hi : call.request.target s.fs = some i) :
    s'.contents i = (call.edit (s.contents i)).or (s'.fs.stored i) := by
  rw [h.contents, Reference.apply, if_pos hi]

lemma Watches.othersKept (h : Watches s call s') (hs : Consistent s) :
    OthersKept (call.request.target s.fs) s.fs s'.fs := serves_othersKept ⟨0, hs.wired⟩ h.serves

lemma Watches.mirrors_other (h : Watches s call s') (hs : Consistent s)
    (hgiven : Inodes.Given s.fs.inodes s'.fs.inodes)
    (htree : ∀ q, (∀ j, call.request.target s.fs = some j → s'.fs.inodes.getPath j ≠ some q) →
      s'.fs.tree q = s.fs.tree q)
    (hi : call.request.target s.fs ≠ some i) : Mirrors s' i := by
  have hkept := h.othersKept hs
  have hself := hs.mirrors i
  have hcontents := h.contents_other hi
  have hcopies := hkept.copies i hi
  by_cases hborn : s.fs.inodes.nextIno ≤ i
  · obtain ⟨hnone, hno⟩ := hself.unborn hborn
    exact .adopted (hcopies.trans hnone) hno hgiven.wf.getPath_of_le hcontents
  · refine hself.frame hgiven.next hcopies ?_ ?_ hgiven.wf.getPath_of_le hcontents
    · intro fh hfh hflushed
      refine ⟨(hkept.handles fh i hi).mpr hfh, ?_⟩
      rw [h.flushed, Call.flushed_eq hfh hi, hflushed]
    · intro p hp
      have hsame : s'.fs.tree p = s.fs.tree p := by
        apply htree
        rintro j hj hjp
        exact hi (hj.trans (congrArg some (hgiven.wf.path_inj hjp hp)))
      exact ⟨p, (hgiven.born i p hp).resolve_right hborn, by rw [hsame], by rw [hsame]; exact id⟩

lemma Watches.rest (h : Watches s call s') (hs : Consistent s)
    (hgiven : Inodes.Given s.fs.inodes s'.fs.inodes)
    (htree : s'.fs.tree = s.fs.tree ∨ ∃ j p, call.request.target s.fs = some j ∧
      s'.fs.inodes.getPath j = some p ∧ Refiled p s.fs.tree s'.fs.tree) :
    Rooted s'.fs.tree ∧ ∀ i, call.request.target s.fs ≠ some i → Mirrors s' i := by
  constructor
  · rcases htree with hsame | ⟨j, p, -, -, hrefiled⟩
    · rw [hsame]
      exact hs.rooted
    · exact hrefiled.rooted hs.rooted
  · intro i hi
    refine h.mirrors_other hs hgiven (fun q hq => ?_) hi
    rcases htree with hsame | ⟨j, p, hj, hp, hrefiled⟩
    · rw [hsame]
    · refine hrefiled.other q ?_
      rintro rfl
      exact hq j hj hp

lemma Watches.consistent (h : Watches s call s') (hs : Consistent s) (hwired : s'.fs.Wired 0)
    (hgiven : Inodes.Given s.fs.inodes s'.fs.inodes)
    (htree : s'.fs.tree = s.fs.tree ∨ ∃ j p, call.request.target s.fs = some j ∧
      s'.fs.inodes.getPath j = some p ∧ Refiled p s.fs.tree s'.fs.tree)
    (htarget : ∀ j, call.request.target s.fs = some j → Mirrors s' j) : Consistent s' := by
  obtain ⟨hrooted, hrest⟩ := h.rest hs hgiven htree
  refine ⟨hwired, hgiven.wf, hrooted, fun i => ?_⟩
  by_cases hi : call.request.target s.fs = some i
  · exact htarget i hi
  · exact hrest i hi

/-- A request that fails has no effect on the reference, and neither have most others. -/
structure Call.Idle (call : Call) : Prop where
  edit : ∀ f, call.edit f = f
  flushed : ∀ f, call.flushed f = f

def replyTo : Abort Errno → Option Reply
  | .error e => some (.error e)
  | .panic => none

omit [Libc] in
lemma Call.idle_of_failed {e : Abort Errno} (h : call.reply = replyTo e) : call.Idle := by
  obtain ⟨request, host, reply⟩ := call
  obtain rfl : reply = replyTo e := h
  constructor
  · intro f
    cases e <;> cases request with
    | setattr _ size _ _ _ => cases size <;> rfl
    | _ => rfl
  · intro f
    cases e <;> cases request <;> rfl

lemma Serves.ends {w w' : PhoneFs} (h : Serves w call w') :
    Ends (AdbFs.handle call.host call.request) w (fun r u => call.reply = some r ∧ u = w')
      fun e u => call.reply = replyTo e ∧ u = w' := by
  rw [Serves, AdbFs.serve] at h
  apply ends_of_apply
  · intro r u happly
    rw [happly, Prod.mk.injEq] at h
    exact ⟨h.1.symm, h.2⟩
  · intro e u happly
    rw [happly] at h
    cases e with
    | error e =>
      rw [Prod.mk.injEq] at h
      exact ⟨h.1.symm, h.2⟩
    | panic =>
      rw [Prod.mk.injEq] at h
      exact ⟨h.1.symm, h.2⟩

lemma Watches.ends (h : Watches s call s') : Ends (AdbFs.handle call.host call.request) s.fs
    (fun r u => call.reply = some r ∧ u = s'.fs) fun _ u => call.Idle ∧ u = s'.fs :=
  h.serves.ends.imp (fun _ _ hu => hu) fun _ _ hu => ⟨Call.idle_of_failed hu.1, hu.2⟩

lemma Watches.holds (h : Watches s call s') {R : PhoneFs → PhoneFs → Prop}
    (hkeeps : Keeps R (AdbFs.handle call.host call.request)) : R s.fs s'.fs := by
  have happly := hkeeps.holds s.fs
  rwa [← serve_snd, h.serves] at happly

lemma Watches.mirrors_same (h : Watches s call s') (hs : Consistent s) (hidle : call.Idle)
    (hlooks : Looks s.fs s'.fs) (hcopies : s'.fs.shared.copies i = s.fs.shared.copies i)
    (hhandles : ∀ fh, s.fs.shared.handles fh = some i → s.flushed fh = false →
      s'.fs.shared.handles fh = some i) : Mirrors s' i := by
  have hgiven : Inodes.Given s.fs.inodes s'.fs.inodes := hlooks.2 ▸ hs.wf.given_refl
  refine (hs.mirrors i).frame hgiven.next hcopies ?_ ?_ hgiven.wf.getPath_of_le ?_
  · intro fh hfh hflushed
    rw [h.flushed, hidle.flushed]
    exact ⟨hhandles fh hfh hflushed, hflushed⟩
  · intro p hp
    exact ⟨p, hlooks.2 ▸ hp, by rw [hlooks.1], by rw [hlooks.1]; exact id⟩
  · rw [h.contents, Reference.apply]
    split_ifs
    · rw [hidle.edit]
    · rfl

lemma Watches.consistent_same (h : Watches s call s') (hs : Consistent s) (hidle : call.Idle)
    (hlooks : Looks s.fs s'.fs) (hwired : s'.fs.Wired 0) (hshared : s'.fs.shared = s.fs.shared) :
    Consistent s' where
  wired := hwired
  wf := hlooks.2 ▸ hs.wf
  rooted := hlooks.1 ▸ hs.rooted
  mirrors i := h.mirrors_same hs hidle hlooks (by rw [hshared]) fun fh hfh _ => by rw [hshared, hfh]

lemma Watches.consistent_of_eq (h : Watches s call s') (hs : Consistent s) (hidle : call.Idle)
    (heq : s.fs = s'.fs) : Consistent s' :=
  h.consistent_same hs hidle (by rw [← heq]; exact ⟨rfl, rfl⟩) (heq ▸ hs.wired) (by rw [← heq])

section Sizes

variable {host : Host} {w w' : PhoneFs} {n : ℕ}

lemma Acquires.looked {init : CopyInit} (h : Acquires host p i w w' init c) :
    w'.tree = w.tree ∧ w'.ops.failures = w.ops.failures := by
  cases h with
  | empty _ hops => exact ⟨congrArg DeviceOps.tree hops, congrArg DeviceOps.failures hops⟩
  | live _ hops => exact ⟨congrArg DeviceOps.tree hops, congrArg DeviceOps.failures hops⟩
  | pull _ hpulled hops =>
    rw [AdbFs.tree, hops]
    rcases pull_cases p (w.files.tmpDir i) w.ops.adb with ⟨-, b, -, -, htree, hfailures⟩ | ⟨⟨e, he⟩, -⟩
    · exact ⟨htree, hfailures⟩
    · have hok : (AdbDevice.pull p (w.files.tmpDir i) w.ops.adb).1.1 = .ok () :=
        congrArg Prod.fst hpulled
      rw [he] at hok
      contradiction

lemma Refuses.tree_eq {init : CopyInit} (h : Refuses host p i w w' init) : w'.tree = w.tree := by
  cases h with
  | empty _ hops => exact congrArg DeviceOps.tree hops
  | pull _ _ hops =>
    rw [AdbFs.tree, hops]
    rcases pull_cases p (w.files.tmpDir i) w.ops.adb with ⟨-, b, -, -, htree, -⟩ | ⟨-, htree, -⟩
    · exact htree
    · exact htree

lemma truncate_obeyed (hw : w.Wired 0) (hp : w.inodes.getPath i = some p) :
    Ends (truncate host i p n) w
      (fun _ w' => ∃ c w₁, Acquires host p i w w₁ (if n = 0 then .empty else .pull) c ∧
        GaveBack 0 i ⟨c.bytes.map (Contents.setLen n), false⟩ w w' ∧
          w.ops.failures ≤ w'.ops.failures ∧
            Put p (c.bytes.map (Contents.setLen n)) w.tree w'.tree)
      fun _ w' => w.ops.failures < w'.ops.failures ∨ w'.tree = w.tree ∧ w'.Wired 0 ∧
        (w'.shared = w.shared ∨ n = 0 ∧ host.create = none ∧ w.shared.copies i ≠ none ∧
          ¬ (host.openFile = none ∧ host.setLen = none) ∧
            w'.shared = w.shared.put i ⟨some [], true⟩) := by
  apply ((truncate_cases host n hw).and (truncate_returns host ⟨0, hw⟩ i p n)).imp
  · rintro _ w' ⟨⟨c, w₁, q, hacquires, hq, hsent, hback⟩, -⟩
    obtain rfl : q = p := Option.some.inj (hq.symm.trans hp)
    obtain ⟨htree, hfailures⟩ := hacquires.looked
    obtain ⟨hle, hput⟩ := (pushAndSync_ends _ _ _ _).of_ok hsent
    exact ⟨c, w₁, hacquires, hback, hfailures ▸ hle, htree ▸ hput⟩
  · rintro e w' ⟨⟨hunheld, -, hrefuses⟩ | ⟨c, w₁, hacquires, hinodes, -, hback, hcause⟩, hpanic⟩
    · exact Or.inr ⟨hrefuses.tree_eq, hunheld.wired, Or.inl hunheld.shared⟩
    · obtain ⟨htree, hfailures⟩ := hacquires.looked
      have hback := hback hpanic
      split_ifs at hback hcause with hran
      · left
        cases hcause with
        | nowhere hnone _ _ =>
          rw [hinodes, hp] at hnone
          contradiction
        | refused _ hsent _ =>
          rw [← hfailures]
          exact ((pushAndSync_ends _ _ _ _).of_error hsent).1
      · right
        refine ⟨(congrArg DeviceOps.tree hcause).trans htree, hback.wired, ?_⟩
        by_cases hnone : w.shared.copies i = none
        · exact Or.inl (hback.of_absent hw hnone)
        · by_cases hzero : n = 0
          · rw [if_pos hzero] at hacquires
            cases hacquires with
            | empty hcreate _ =>
              obtain ⟨d, hd⟩ := Option.ne_none_iff_exists'.mp hnone
              obtain ⟨fh, hfh⟩ := (hw.handle_of_live hd).resolve_right fun h => h rfl
              exact Or.inr ⟨hzero, hcreate, hnone, hran, hback.of_open hfh⟩
          · rw [if_neg hzero] at hacquires
            obtain ⟨d, hd⟩ := Option.ne_none_iff_exists'.mp hnone
            obtain rfl := hacquires.live_eq hd
            exact Or.inl (hback.of_live hw hd)

lemma touchTimes_obeyed (atime mtime : Option TimeOrNow) :
    Ends (touchTimes host p atime mtime) w
      (fun _ w' => Quietly w.ops w'.ops (Touched p w.tree w'.tree))
      fun _ w' => w.ops.failures < w'.ops.failures := by
  rw [touchTimes]
  split_ifs
  · exact ⟨le_rfl, fun _ => Touched.refl _ _⟩
  · apply ends_bind.mpr
    apply ends_device.mpr
    exact (touch_ends p _ _ w.ops).imp (fun _ _ ht => ht) fun _ _ ht => ht

/-- The line that `ls` prints for a file ends as a denial only where the file's name does. -/
lemma Node.denied {node : Node} (hp : '/' ∈ p) {b : Bytes} (hdata : node.data = some b)
    (hline : permissionErrSuffix <:+ node.entry.line p) : permissionErrSuffix <:+ p := by
  rcases List.suffix_or_suffix_of_suffix hline (node.suffix_line hdata p) with h | h
  · exact h
  · exact absurd (h.subset hp) (by decide)

lemma afterResize_ends (host : Host) (i : ℕ) (p : Text) (atime mtime : Option TimeOrNow)
    (w : PhoneFs) :
    Ends (touchTimes host p atime mtime >>= fun _ => device (getMetadata p) >>= fun m =>
      cacheInsert p (some m) host.now >>= fun _ => read >>= fun w =>
        pure (.attr w.opts.attrTimeout (w.opts.metaToAttr i m)) : FsM Phone Errno Reply) w
      (fun r w' => (∃ ttl a, r = .attr ttl a) ∧ Quietly w.ops w'.ops (Touched p w.tree w'.tree))
      fun _ w' => Quietly w.ops w'.ops (Touched p w.tree w'.tree ∧
        (w'.tree p = none ∨ ∃ n, w'.tree p = some n ∧ permissionErrSuffix <:+ n.entry.line p)) := by
  apply ends_bind.mpr
  apply (touchTimes_obeyed atime mtime).imp
  · rintro _ u ⟨hle, htouched⟩
    have hsteps : ∀ t : DeviceOps Phone, u.ops.failures ≤ t.failures →
        t.failures = w.ops.failures → u.ops.failures = w.ops.failures ∧
          t.failures = u.ops.failures := by
      intro t hle' heq
      omega
    apply ends_bind.mpr
    apply ends_device.mpr
    apply (getMetadata_ends p u.ops).imp
    · rintro m t ⟨htree, hle', -⟩
      refine ⟨⟨_, _, rfl⟩, hle.trans hle', fun heq => ?_⟩
      change Touched p w.tree t.tree
      rw [htree]
      exact htouched (hsteps t hle' heq).1
    · rintro e t ⟨htree, hle', hstats⟩
      refine ⟨hle.trans hle', fun heq => ?_⟩
      obtain ⟨hfirst, hsecond⟩ := hsteps t hle' heq
      change Touched p w.tree t.tree ∧
        (t.tree p = none ∨ ∃ n, t.tree p = some n ∧ permissionErrSuffix <:+ n.entry.line p)
      rw [htree]
      refine ⟨htouched hfirst, ?_⟩
      rcases (hstats hsecond).failed e rfl with ⟨hnone, -⟩ | ⟨-, hdenied⟩
      · exact Or.inl hnone
      · exact Or.inr hdenied
  · intro e u hlt
    exact Quietly.of_lt hlt

end Sizes

section Requests

variable {host : Host} {reply : Option Reply}

lemma Watches.looking (h : Watches s call s') (hs : Consistent s) (hidle : call.Idle)
    (hlooks : Looks s.fs s'.fs) (hfiles : FilesKept s.fs s'.fs) : Consistent s' :=
  h.consistent_same hs hidle hlooks (hfiles.wired hs.wired) hfiles.shared

lemma Watches.lookup {parent : ℕ} {name : KernelName}
    (h : Watches s ⟨.lookup parent name, host, reply⟩ s') (hs : Consistent s) : Consistent s' := by
  have hfiles : FilesKept s.fs s'.fs := h.holds (quiet_lookup host parent name)
  have hlooks : LooksUp parent name s.fs s'.fs := by
    have hends := ends_iff.mp (lookup_looks host parent name s.fs)
    have hsnd : (AdbFs.lookup host parent name s.fs).2 = s'.fs := by
      exact (serve_snd _ _ _).symm.trans (congrArg Prod.snd h.serves)
    rwa [hsnd] at hends
  exact h.consistent hs (hfiles.wired hs.wired) (hlooks.given hs.wf) (Or.inl hlooks.1)
    fun j hj => nomatch hj

lemma Watches.open (h : Watches s ⟨.open j, host, reply⟩ s') (hs : Consistent s) :
    Consistent s' := by
  have hidle : Call.Idle ⟨.open j, host, reply⟩ := ⟨fun _ => rfl, fun _ => rfl⟩
  have hlooks : Looks s.fs s'.fs := h.holds (keeps_open host j)
  have hgiven : Inodes.Given s.fs.inodes s'.fs.inodes := hlooks.2 ▸ hs.wf.given_refl
  have hself := hs.mirrors j
  have hends : Ends (AdbFs.open host j) s.fs (fun _ _ => Consistent s') fun _ _ => Consistent s' := by
    apply ((open_ends host hs.wired).and h.ends).imp
    · rintro r u ⟨⟨p, c, w₁, hp, hacquires, hopened, -⟩, -, rfl⟩
      have hlive := hopened.copies_eq
      obtain ⟨hwired, fh, -, hshared⟩ := hopened
      refine h.consistent hs hwired hgiven (Or.inl hlooks.1) fun k hk => ?_
      obtain rfl : j = k := Option.some.inj hk
      cases hacquires with
      | live hc _ =>
        rw [Shared.put_self hc] at hshared
        refine h.mirrors_same hs hidle hlooks (by rw [hshared, Shared.attach]) fun g hg _ => ?_
        rw [hshared]
        change Function.update s.fs.shared.handles fh (some j) g = some j
        rw [Function.update_apply, hg, ite_self]
      | pull hnone hpulled _ =>
        obtain ⟨b, hb, rfl⟩ := pulled_ok hpulled
        have hcontents : s'.contents j = some b := by
          rw [h.contents_target rfl, hidle.edit, ← hself.settled_of_none hp hnone, hb, Option.some_or]
        refine .of_clean (hgiven.wf.bounded j p (hgiven.kept j p hp)) hcontents ?_ ?_
        · exact fun c hc => Option.some.inj (hc.symm.trans hlive)
        · intro q hq
          obtain rfl : p = q := Option.some.inj ((hgiven.kept j p hp).symm.trans hq)
          rw [hlooks.1, hb]
    · rintro e u ⟨⟨hwired, hshared⟩ | ⟨p, c, w₁, -, hacquires, hback⟩, -, rfl⟩
      · exact h.consistent_same hs hidle hlooks hwired hshared
      · cases hacquires with
        | live hc _ =>
          exact h.consistent_same hs hidle hlooks hback.wired (hback.of_live hs.wired hc)
        | pull hnone _ _ =>
          exact h.consistent_same hs hidle hlooks hback.wired (hback.of_absent hs.wired hnone)
  exact ends_iff.mp hends

lemma Watches.write {fh offset : ℕ} {data : Bytes}
    (h : Watches s ⟨.write fh offset data, host, reply⟩ s') (hs : Consistent s) : Consistent s' := by
  have hlooks : Looks s.fs s'.fs := h.holds (keeps_write host fh offset data)
  have hgiven : Inodes.Given s.fs.inodes s'.fs.inodes := hlooks.2 ▸ hs.wf.given_refl
  have hends : Ends (AdbFs.write host fh offset data) s.fs (fun _ _ => Consistent s')
      fun _ _ => Consistent s' := by
    apply ((write_ends host offset data hs.wired).and h.ends).imp
    · rintro r u ⟨⟨i, id, c, n, rfl, hfh, hc, hholds⟩, hreply, rfl⟩
      dsimp only at hreply
      subst hreply
      refine h.consistent hs hholds.wired hgiven (Or.inl hlooks.1) fun k hk => ?_
      obtain rfl : i = k := Option.some.inj (hfh.symm.trans hk)
      have hself := hs.mirrors i
      obtain ⟨b, hb, hcontents⟩ := hself.copy c hc
      have hlive := hholds.copies_eq
      have hedit : s'.contents i = some (Contents.writeAt offset (data.take n) b) := by
        rw [h.contents_target hfh, hcontents]
        rfl
      have hnew : ∀ c', s'.fs.shared.copies i = some c' →
          c' = ⟨some (Contents.writeAt offset (data.take n) b), true⟩ := by
        intro c' hc'
        rw [hlive, hb] at hc'
        exact (Option.some.inj hc').symm
      constructor
      · intro c' hc'
        rw [hnew c' hc']
        exact ⟨_, rfl, hedit⟩
      · intro p _ hclean
        exact absurd (hclean _ hlive) (by simp)
      · intro c' _ _
        refine ⟨fh, by rw [hholds.shared]; exact hfh, ?_⟩
        rw [h.flushed]
        exact Function.update_self _ _ _
      · intro p hp _
        rw [hlooks.1]
        exact hself.present p (hlooks.2 ▸ hp) (by simp [hc])
      · intro hle
        have hlt := hself.lt hc
        rw [hlooks.2] at hle
        omega
    · rintro e u ⟨rfl, hidle, hu⟩
      exact h.consistent_of_eq hs hidle hu
  exact ends_iff.mp hends

lemma Watches.flush {fh : ℕ} (h : Watches s ⟨.flush fh, host, reply⟩ s') (hs : Consistent s) :
    Consistent s' := by
  have hgiven : Inodes.Given s.fs.inodes s'.fs.inodes := by
    have hsame : SameInodes s.fs s'.fs := h.holds (sameInodes_flush fh)
    exact hsame ▸ hs.wf.given_refl
  have hends : Ends (AdbFs.flush fh) s.fs (fun _ _ => Consistent s') fun _ _ => Consistent s' := by
    apply (((flush_ends hs.wired).and (flush_returns fh s.fs)).and h.ends).imp
    · rintro r u ⟨⟨⟨rfl, i, id, c, hfh, hid, hc, hdone⟩, -⟩, hreply, rfl⟩
      have hself := hs.mirrors i
      obtain ⟨b, hb, hcontents⟩ := hself.copy c hc
      have hsame : s'.contents i = some b := by
        rw [h.contents_target hfh, hcontents]
        rfl
      have hholds := hdone.holds hs.wired hid hc
      have hi : i < s'.fs.inodes.nextIno := (hself.lt hc).trans_le hgiven.next
      have hclean : ∀ d, s'.fs.shared.copies i = some d → d = ⟨some b, false⟩ := by
        intro d hd
        rw [hholds.copies_eq, hb] at hd
        exact (Option.some.inj hd).symm
      cases hdone with
      | clean hclean' heq =>
        refine h.consistent hs hholds.wired hgiven (Or.inl (by rw [heq])) fun k hk => ?_
        obtain rfl : i = k := Option.some.inj (hfh.symm.trans hk)
        refine .of_clean hi hsame hclean fun p hp => ?_
        rw [heq] at hp ⊢
        rw [hself.settled p hp fun d hd => ?_, hcontents]
        rwa [← Option.some.inj (hc.symm.trans hd)]
      | sent _ hpath hsent _ =>
        have hput := put_of_sent hsent
        refine h.consistent hs hholds.wired hgiven
          (Or.inr ⟨i, _, hfh, hgiven.kept i _ hpath, hput.refiled⟩) fun k hk => ?_
        obtain rfl : i = k := Option.some.inj (hfh.symm.trans hk)
        refine .of_clean hi hsame hclean fun p hp => ?_
        rw [← Option.some.inj ((hgiven.kept i _ hpath).symm.trans hp), ← hb]
        exact hput.data
    · rintro e u ⟨⟨hfailed, hpanic⟩, hidle, hu⟩
      rcases hfailed with rfl | ⟨i, id, c, hfh, -, hc, hfailed⟩
      · exact h.consistent_of_eq hs hidle hu
      · subst hu
        have hself := hs.mirrors i
        have hholds := hfailed.restored hpanic
        have hshared : s'.fs.shared = s.fs.shared := hholds.shared.trans (Shared.put_self hc)
        have hsame : s'.fs.inodes = s.fs.inodes := hholds.within.inodes
        cases hfailed.unsent with
        | nowhere _ _ hops =>
          exact h.consistent_same hs hidle ⟨congrArg DeviceOps.tree hops, hsame⟩ hholds.wired hshared
        | refused hpath hsent _ =>
          have htorn := torn_of_refused hsent
          refine h.consistent hs hholds.wired hgiven
            (Or.inr ⟨i, _, hfh, hgiven.kept i _ hpath, htorn.refiled⟩) fun k hk => ?_
          obtain rfl : i = k := Option.some.inj (hfh.symm.trans hk)
          -- whatever the device was left with, the copy is still to be sent
          constructor
          · intro d hd
            obtain ⟨b, hb, hcontents⟩ := hself.copy d (hshared ▸ hd)
            refine ⟨b, hb, ?_⟩
            rw [h.contents_target hfh, hidle.edit, hcontents, Option.some_or]
          · intro p _ hclean
            have hdirty := hclean c hholds.copies_eq
            rw [hfailed.dirty] at hdirty
            contradiction
          · intro d hd hdirty
            rw [hshared, h.flushed, hidle.flushed]
            exact hself.pending d (hshared ▸ hd) hdirty
          · intro p hp hlive
            rw [hsame] at hp
            obtain rfl := Option.some.inj (hpath.symm.trans hp)
            exact htorn.refiled.kept (hself.present _ hp (hshared ▸ hlive))
          · intro hle
            have hlt := hself.lt hc
            rw [hsame] at hle
            omega
  exact ends_iff.mp hends

lemma Watches.release {fh : ℕ} (h : Watches s ⟨.release fh, host, reply⟩ s') (hs : Consistent s)
    (hflushed : s.flushed fh = true) : Consistent s' := by
  have hidle : Call.Idle ⟨.release fh, host, reply⟩ := ⟨fun _ => rfl, fun _ => rfl⟩
  have hlooks : Looks s.fs s'.fs := h.holds (keeps_release host fh)
  have hgiven : Inodes.Given s.fs.inodes s'.fs.inodes := hlooks.2 ▸ hs.wf.given_refl
  have hends : Ends (AdbFs.release host fh : FsM Phone Errno Reply) s.fs (fun _ _ => Consistent s')
      fun _ _ => Consistent s' := by
    apply ((release_ends host hs.wired).and h.ends).imp
    · rintro r u ⟨⟨-, rfl⟩ | ⟨i, id, hfh, hwired, hshared⟩, -, hu⟩
      · exact h.consistent_of_eq hs hidle hu
      · subst hu
        have hshared := hshared.resolve_right fun h => h.1 rfl
        refine h.consistent hs hwired hgiven (Or.inl hlooks.1) fun k hk => ?_
        obtain rfl : i = k := Option.some.inj (hfh.symm.trans hk)
        have hleft : ∀ g, s.fs.shared.handles g = some i → s.flushed g = false →
            (s.fs.shared.detach fh).handles g = some i := by
          intro g hg hunflushed
          have hne : g ≠ fh := by
            rintro rfl
            rw [hflushed] at hunflushed
            contradiction
          exact (Function.update_of_ne hne _ _).trans hg
        by_cases hused : ∃ g, (s.fs.shared.detach fh).handles g = some i
        · obtain ⟨g, hg⟩ := hused
          rw [Shared.drop_of_used hg] at hshared
          refine h.mirrors_same hs hidle hlooks (by rw [hshared, Shared.detach]) ?_
          rw [hshared]
          exact hleft
        · push Not at hused
          have hself := hs.mirrors i
          have hnone : s'.fs.shared.copies i = none := by
            rw [hshared, Shared.drop_of_unused hused]
            exact Function.update_self _ _ _
          have hclean : ∀ c, s.fs.shared.copies i = some c → c.dirty = false := by
            intro c hc
            by_contra hdirty
            obtain ⟨g, hg, hunflushed⟩ := hself.pending c hc (by simpa using hdirty)
            exact hused g (hleft g hg hunflushed)
          obtain ⟨_, -, -, hlive⟩ := AdbFs.Linked.live ⟨0, hs.wired⟩ hfh
          obtain ⟨b, -, hcontents⟩ := hself.copy _ hlive
          have hsame : s'.contents i = some b := by
            rw [h.contents_target hfh, hidle.edit, hcontents, Option.some_or]
          refine .of_clean ((hself.lt hlive).trans_le hgiven.next) hsame (by simp [hnone]) ?_
          intro p hp
          rw [hlooks.1, hself.settled p (hlooks.2 ▸ hp) hclean, hcontents]
    · exact fun _ _ hfalse => hfalse.1.elim
  exact ends_iff.mp hends

lemma Acquires.shortened_eq {n : ℕ} {w₁ : PhoneFs} (hself : Mirrors s j)
    (hp : s.fs.inodes.getPath j = some p)
    (h : Acquires host p j s.fs w₁ (if n = 0 then .empty else .pull) c) :
    c.bytes.map (Contents.setLen n) = some (Contents.setLen n ((s.contents j).getD [])) := by
  by_cases hzero : n = 0
  · rw [if_pos hzero] at h
    cases h with
    | empty _ _ => simp [hzero, Contents.setLen_zero]
  · rw [if_neg hzero] at h
    cases h with
    | live hc _ =>
      obtain ⟨b, hb, hcontents⟩ := hself.copy c hc
      rw [hb, hcontents]
      rfl
    | pull hnone hpulled _ =>
      obtain ⟨b, hb, rfl⟩ := pulled_ok hpulled
      rw [← hself.settled_of_none hp hnone, hb]
      rfl

lemma setattr_obeyed {n : ℕ} {atime mtime : Option TimeOrNow} (hs : Consistent s)
    (hname : ∀ p, s.fs.inodes.getPath j = some p → ¬ permissionErrSuffix <:+ p)
    (hran : n = 0 → host.create = none → s.fs.shared.copies j ≠ none →
      host.openFile = none ∧ host.setLen = none) :
    Ends (AdbFs.setattr host j (some n) atime mtime) s.fs
      (fun r w' => (∃ ttl a, r = .attr ttl a) ∧ ∃ p u,
        s.fs.inodes.getPath j = some p ∧ FilesKept u w' ∧
          GaveBack 0 j ⟨some (Contents.setLen n ((s.contents j).getD [])), false⟩ s.fs u ∧
            Quietly s.fs.ops w'.ops (Refiled p s.fs.tree w'.tree ∧ (w'.tree p).bind Node.data =
              some (Contents.setLen n ((s.contents j).getD []))))
      fun _ w' => w'.ops.failures = s.fs.ops.failures →
        w'.tree = s.fs.tree ∧ w'.Wired 0 ∧ w'.shared = s.fs.shared := by
  apply ends_getPath.mpr
  refine ⟨fun p hp => ?_, fun _ _ => ⟨rfl, hs.wired, rfl⟩⟩
  have hslash := (hs.wf.canonical j p hp).slash_mem
  apply ends_bind.mpr
  apply (truncate_obeyed hs.wired hp).imp
  · rintro _ u ⟨c, w₁, hacquires, hback, hle, hput⟩
    rw [hacquires.shortened_eq (hs.mirrors j) hp] at hback hput
    apply ((afterResize_ends host j p atime mtime u).and
      ((quiet_afterResize host j p atime mtime).ends u)).imp
    · rintro r w' ⟨⟨hr, hle', htouched⟩, hfiles⟩
      refine ⟨hr, p, u, hp, hfiles, hback, hle.trans hle', fun heq => ?_⟩
      have htouched := htouched (by omega)
      exact ⟨hput.refiled.trans htouched.toRefiled, (htouched.data hput.there).trans hput.data⟩
    · rintro e w' ⟨⟨hle', hstopped⟩, -⟩ heq
      obtain ⟨htouched, hcause⟩ := hstopped (by omega)
      have hdata := (htouched.data hput.there).trans hput.data
      rcases hcause with hnone | ⟨n, hn, hline⟩
      · rw [hnone] at hdata
        contradiction
      · rw [hn] at hdata
        exact absurd (Node.denied hslash hdata hline) (hname p hp)
  · rintro e u (hlt | ⟨htree, hwired, hshared | ⟨hzero, hcreate, hlive, hstopped, -⟩⟩) heq
    · omega
    · exact ⟨htree, hwired, hshared⟩
    · exact absurd (hran hzero hcreate hlive) hstopped

lemma Watches.setattr {n : ℕ} {atime mtime : Option TimeOrNow} {g : Option ℕ}
    (h : Watches s ⟨.setattr j (some n) atime mtime g, host, reply⟩ s') (hs : Consistent s)
    (hobeyed : s'.fs.ops.failures = s.fs.ops.failures)
    (hname : ∀ p, s.fs.inodes.getPath j = some p → ¬ permissionErrSuffix <:+ p)
    (hran : n = 0 → host.create = none → s.fs.shared.copies j ≠ none →
      host.openFile = none ∧ host.setLen = none) : Consistent s' := by
  have hsame : SameInodes s.fs s'.fs := h.holds (sameInodes_setattr host j (some n) atime mtime)
  have hgiven : Inodes.Given s.fs.inodes s'.fs.inodes := hsame ▸ hs.wf.given_refl
  have hends : Ends (AdbFs.setattr host j (some n) atime mtime) s.fs (fun _ _ => Consistent s')
      fun _ _ => Consistent s' := by
    apply ((setattr_obeyed hs hname hran).and h.ends).imp
    · rintro r u ⟨⟨⟨ttl, a, rfl⟩, p, v, hp, hfiles, hback, -, hdone⟩, hreply, rfl⟩
      dsimp only at hreply
      subst hreply
      obtain ⟨hrefiled, hdata⟩ := hdone hobeyed
      refine h.consistent hs (hfiles.wired hback.wired) hgiven
        (Or.inr ⟨j, p, rfl, hgiven.kept j p hp, hrefiled⟩) fun k hk => ?_
      obtain rfl : j = k := Option.some.inj hk
      have hcontents : s'.contents j = some (Contents.setLen n ((s.contents j).getD [])) := by
        rw [h.contents_target rfl]
        rfl
      refine .of_clean (hgiven.wf.bounded j p (hgiven.kept j p hp)) hcontents ?_ ?_
      · intro c hc
        rw [hfiles.shared] at hc
        exact hback.copies_eq hc
      · intro q hq
        rw [← Option.some.inj ((hgiven.kept j p hp).symm.trans hq)]
        exact hdata
    · rintro e u ⟨hdone, hidle, rfl⟩
      obtain ⟨htree, hwired, hshared⟩ := hdone hobeyed
      exact h.consistent_same hs hidle ⟨htree, hsame⟩ hwired hshared
  exact ends_iff.mp hends

lemma Uncreated.obeyed {w w' : PhoneFs} {f : Option Bytes} {e : Abort Errno}
    (h : Uncreated host p i f w e w') (hp : w.inodes.getPath i = some p)
    (hobeyed : w'.ops.failures = w.ops.failures) : e ≠ .panic ∧ Refiled p w.tree w'.tree := by
  cases h with
  | unopened _ he hops =>
    have htree : w'.tree = w.tree := congrArg DeviceOps.tree hops
    rw [htree]
    exact ⟨by simp [he], .refl p _⟩
  | unsent hunsent =>
    cases hunsent with
    | nowhere hnone _ _ => simp [hp] at hnone
    | refused _ hsent _ =>
      have hlt := ((pushAndSync_ends _ _ _ _).of_error hsent).1
      omega
  | @unknown q t e' _ hq hsent hasked he =>
    obtain rfl : q = p := Option.some.inj (hq.symm.trans hp)
    obtain ⟨hle, hput⟩ := (pushAndSync_ends _ _ _ _).of_ok hsent
    obtain ⟨htree, hle', hstats⟩ := (getMetadata_ends _ _).of_error hasked
    refine ⟨?_, ?_⟩
    · rcases (hstats (by omega)).failed e' rfl with ⟨-, rfl⟩ | ⟨rfl, -⟩
      · simp [he, Abort.map]
      · simp [he, Abort.map]
    · change Refiled q w.ops.tree w'.ops.tree
      rw [htree]
      exact hput.refiled

lemma Watches.create_refiled {parent : ℕ} {name : KernelName} {dir : Text}
    (h : Watches s ⟨.create parent name, host, reply⟩ s') (hs : Consistent s)
    (hobeyed : s'.fs.ops.failures = s.fs.ops.failures)
    (hdir : s.fs.inodes.getPath parent = some dir) :
    Inodes.Given s.fs.inodes s'.fs.inodes ∧
      s'.fs.inodes.getPath (s.fs.inodes.getOrAssignIno (childPath dir name)).1 =
        some (childPath dir name) ∧
      Refiled (childPath dir name) s.fs.tree s'.fs.tree := by
  have hcanonical : Canonical (childPath dir name) :=
    canonical_childPath (hs.wf.canonical parent dir hdir) name
  have hassigned : s'.fs.inodes = (s.fs.assigned (childPath dir name)).inodes := by
    have hends := ends_iff.mp (create_inodes host name hdir)
    have hsnd : (AdbFs.create host parent name s.fs).2 = s'.fs :=
      (serve_snd _ _ _).symm.trans (congrArg Prod.snd h.serves)
    rwa [hsnd] at hends
  have hpath := hs.wf.getPath_assigned (p := childPath dir name)
  refine ⟨hassigned ▸ hs.wf.given_assigned hcanonical, hassigned ▸ hpath, ?_⟩
  have hends : Ends (AdbFs.create host parent name) s.fs
      (fun _ _ => Refiled (childPath dir name) s.fs.tree s'.fs.tree)
      fun _ _ => Refiled (childPath dir name) s.fs.tree s'.fs.tree := by
    apply ((create_ends host name hs.wired hdir rfl rfl).and h.ends).imp
    · rintro r u ⟨⟨-, -, q, t, m, hq, hsent, hasked⟩, -, rfl⟩
      obtain rfl := Option.some.inj (hq.symm.trans hpath)
      have hput := put_of_sent hsent
      have htree : s'.fs.tree = t.tree := ((getMetadata_ends _ _).of_ok hasked).1
      rw [htree]
      exact hput.refiled
    · rintro e u ⟨⟨-, -, -, hops⟩ | ⟨-, huncreated, -⟩, -, rfl⟩
      · have htree : s'.fs.tree = s.fs.tree := congrArg DeviceOps.tree hops
        rw [htree]
        exact .refl _ _
      · exact (huncreated.obeyed hpath hobeyed).2
  exact ends_iff.mp hends

lemma Watches.create {parent : ℕ} {name : KernelName}
    (h : Watches s ⟨.create parent name, host, reply⟩ s') (hs : Consistent s)
    (hobeyed : s'.fs.ops.failures = s.fs.ops.failures)
    (habsent : ∀ dir, s.fs.inodes.getPath parent = some dir →
      s.fs.tree (childPath dir name) = none) : Consistent s' := by
  cases hdir : s.fs.inodes.getPath parent with
  | none =>
    obtain ⟨hidle, heq⟩ := h.ends.of_error (create_of_orphan host name hdir)
    exact h.consistent_of_eq hs hidle heq
  | some dir =>
    generalize hp : childPath dir name = p
    generalize hi : (s.fs.inodes.getOrAssignIno p).1 = i
    have htarget : Request.created s.fs parent name = some i := by
      rw [Request.created, hdir, Option.map_some, hp, hi]
    obtain ⟨hgiven, hpath', hrefiled⟩ := h.create_refiled hs hobeyed hdir
    rw [hp] at hpath' hrefiled
    rw [hi] at hpath'
    have hpath : (s.fs.assigned p).inodes.getPath i = some p := hi ▸ hs.wf.getPath_assigned
    -- no file is open or known where none is on the device
    have hself := hs.mirrors i
    obtain ⟨hclosed, hno⟩ : s.fs.shared.copies i = none ∧ s.contents i = none := by
      have hnone := hp ▸ habsent dir hdir
      rcases hgiven.born i p hpath' with hold | hborn
      · have hclosed : s.fs.shared.copies i = none := by
          by_contra hlive
          exact hself.present p hold hlive hnone
        refine ⟨hclosed, ?_⟩
        rw [← hself.settled_of_none hold hclosed, hnone]
        rfl
      · exact hself.unborn hborn
    have hfailed : Call.Idle ⟨.create parent name, host, reply⟩ → s'.fs.Wired 0 →
        s'.fs.shared = s.fs.shared → Consistent s' := by
      intro hidle hwired hshared
      refine h.consistent hs hwired hgiven (Or.inr ⟨i, p, htarget, hpath', hrefiled⟩) fun k hk => ?_
      obtain rfl : i = k := Option.some.inj (htarget.symm.trans hk)
      refine .adopted (by rw [hshared, hclosed]) hno hgiven.wf.getPath_of_le ?_
      rw [h.contents_target htarget, hidle.edit]
    have hends : Ends (AdbFs.create host parent name) s.fs (fun _ _ => Consistent s')
        fun _ _ => Consistent s' := by
      apply ((create_ends host name hs.wired hdir hp hi).and h.ends).imp
      · rintro r u ⟨⟨⟨ttl, a, g, fh, flags, rfl⟩, hopened, q, t, m, hq, hsent, hasked⟩, hreply, rfl⟩
        dsimp only at hreply
        subst hreply
        obtain rfl : q = p := Option.some.inj (hq.symm.trans hpath)
        have hput := put_of_sent hsent
        have htree : s'.fs.tree = t.tree := ((getMetadata_ends _ _).of_ok hasked).1
        rw [← htree] at hput
        refine h.consistent hs hopened.wired hgiven
          (Or.inr ⟨i, q, htarget, hpath', hput.refiled⟩) fun k hk => ?_
        obtain rfl : i = k := Option.some.inj (htarget.symm.trans hk)
        have hdata : (s'.fs.tree q).bind Node.data = some [] := hput.data
        have hempty : s'.contents i = some [] := by
          rw [h.contents_target htarget]
          rfl
        refine .of_clean (hgiven.wf.bounded i q hpath') hempty ?_ ?_
        · exact fun c hc => Option.some.inj (hc.symm.trans hopened.copies_eq)
        · intro q' hq'
          rw [← Option.some.inj (hpath'.symm.trans hq'), hdata]
      · rintro e u ⟨⟨-, hwired, hshared, -⟩ |
          ⟨-, huncreated, dirty, spare, hback, hzero, -⟩, hidle, rfl⟩
        · exact hfailed hidle hwired hshared
        · obtain rfl := hzero (huncreated.obeyed hpath hobeyed).1
          exact hfailed hidle hback.wired (hback.of_absent hs.wired hclosed)
    exact ends_iff.mp hends

structure RenameDone (order : IterOrder InoEntry) (f g : List Text) (w w' : PhoneFs) : Prop where
  source : Names f
  target : Names g
  apart : Apart f g
  notDir : Phone.isDir w.tree (render g) = false
  moved : Moved (render f) (render g) w.tree w'.tree
  inodes : w'.inodes = w.inodes.rekeyPaths order (render f) (render g)
  cache : w'.cache = (w.cache.invalidatePrefix (render f)).invalidatePrefix (render g)

lemma rename_obeyed {w : PhoneFs} {parent newparent : ℕ} {name newname : KernelName}
    (hw : w.inodes.WF) (honto : ∀ source target, renameSource w parent name = some source →
      renameTarget w newparent newname = some target →
        Phone.mvTarget w.tree source target = target) :
    Ends (AdbFs.rename host parent name newparent newname) w
      (fun _ w' => w'.ops.failures = w.ops.failures → ∃ f g,
        renameSource w parent name = some (render f) ∧ RenameDone host.order f g w w')
      fun _ w' => w'.ops.failures = w.ops.failures → w' = w := by
  apply ends_getPath.mpr
  refine ⟨fun fromDir hfrom => ?_, fun _ _ => rfl⟩
  apply ends_getPath.mpr
  refine ⟨fun toDir hto => ?_, fun _ _ => rfl⟩
  obtain ⟨ds, hds, rfl⟩ := hw.canonical parent fromDir hfrom
  obtain ⟨es, hes, rfl⟩ := hw.canonical newparent toDir hto
  have hf := hds.append (Names.singleton name.2.isName)
  have hg := hes.append (Names.singleton newname.2.isName)
  have hsource : childPath (render ds) name = render (ds ++ [Text.fromUtf8Lossy name]) :=
    childText_render hds _
  have htarget : childPath (render es) newname = render (es ++ [Text.fromUtf8Lossy newname]) :=
    childText_render hes _
  have honto' := honto _ _ (by rw [renameSource, hfrom, Option.map_some, hsource])
    (by rw [renameTarget, hto, Option.map_some, htarget])
  dsimp only
  rw [hsource, htarget]
  apply ends_bind.mpr
  apply ends_device.mpr
  apply (mv_performed _ _ w.ops).imp
  · rintro _ t ⟨-, hperformed⟩ heq
    obtain ⟨fate, a, hperformed⟩ := hperformed heq
    obtain ⟨hapart, hnotDir, hmoved⟩ := perform_mv_onto hf hg (by simp) (by simp) honto' hperformed
    refine ⟨_, _, ?_, hf, hg, hapart, hnotDir, hmoved, rfl, rfl⟩
    rw [renameSource, hfrom, Option.map_some, hsource]
  · rintro e t hlt heq
    have heq' : t.failures = w.ops.failures := heq
    omega

section Moving

variable {order : IterOrder InoEntry} {f g : List Text} {w w' : PhoneFs}

lemma RenameDone.rooted (h : RenameDone order f g w w') (hr : Rooted w.tree) : Rooted w'.tree :=
  hr.moved h.source h.target h.apart h.moved

lemma RenameDone.wf (h : RenameDone order f g w w') (hw : w.inodes.WF) : w'.inodes.WF := by
  rw [h.inodes]
  exact hw.rekeyPaths h.source h.target h.apart

lemma RenameDone.nextIno_eq (h : RenameDone order f g w w') (hw : w.inodes.WF) :
    w'.inodes.nextIno = w.inodes.nextIno := by
  rw [h.inodes]
  exact (hw.rekeyed order h.source h.target h.apart).next

lemma RenameDone.getPath_none (h : RenameDone order f g w w') (hw : w.inodes.WF)
    (hp : w.inodes.getPath i = none) : w'.inodes.getPath i = none := by
  rw [h.inodes, hw.rekeyPaths_other h.source h.target h.apart, hp]
  · simp [hp]
  · simp [hp]

lemma RenameDone.getPath_outside (h : RenameDone order f g w w') (hw : w.inodes.WF)
    {q : List Text} (hq : Names q) (hp : w.inodes.getPath i = some (render q))
    (hout : ∀ s, q ≠ g ++ s) :
    ∃ p', w'.inodes.getPath i = some p' ∧ w'.tree p' = w.tree (render q) := by
  have hback : rebase (render g) (render f) (render q) = none := by
    by_contra hne
    obtain ⟨r, hr⟩ := Option.ne_none_iff_exists'.mp hne
    obtain ⟨s, hs, -⟩ :=
      (rebase_render h.target h.apart.symm.ne_nil h.apart.ne_nil hq r).mp hr
    exact hout s hs
  refine ⟨movePath (render f) (render g) (render q), ?_, ?_⟩
  · rw [h.inodes]
    exact hw.rekeyPaths_movePath h.source h.target h.apart hp hback
  · rw [h.moved.2.2.2]
    exact moveTree_movePath h.source h.target h.apart ⟨q, hq, rfl⟩ hback

lemma RenameDone.tree_below (h : RenameDone order f g w w') (hr : Rooted w.tree) {t : List Text}
    (ht : t ≠ []) (hnames : Names (g ++ t)) : w.tree (render (g ++ t)) = none := by
  by_contra hthere
  have hdir := hr.isDir ht hnames hthere
  rw [h.notDir] at hdir
  contradiction

lemma Watches.renamed {parent newparent flags : ℕ} {name newname : KernelName}
    (h : Watches s ⟨.rename parent name newparent newname flags, host, reply⟩ s')
    (hs : Consistent s) (hj : s.fs.inodes.getPath j = some (render f))
    (hdone : RenameDone host.order f g s.fs s'.fs) : Consistent s' := by
  have hfiles : FilesKept s.fs s'.fs := h.holds (quiet_rename host parent name newparent newname)
  have hwf := hdone.wf hs.wf
  refine ⟨hfiles.wired hs.wired, hwf, hdone.rooted hs.rooted, fun i => ?_⟩
  have hself := hs.mirrors i
  have hcontents := h.contents_other (i := i) (fun hi => nomatch hi)
  have hcopies : s'.fs.shared.copies i = s.fs.shared.copies i := by rw [hfiles.shared]
  have hstays : (∀ p', s'.fs.inodes.getPath i = some p' → ∃ p,
      s.fs.inodes.getPath i = some p ∧ s'.fs.tree p' = s.fs.tree p) → Mirrors s' i := by
    intro hpath
    refine hself.frame (hdone.nextIno_eq hs.wf).ge hcopies ?_ ?_ hwf.getPath_of_le hcontents
    · intro fh hfh hflushed
      rw [hfiles.shared, h.flushed]
      exact ⟨hfh, hflushed⟩
    · intro p' hp'
      obtain ⟨p, hp, hsame⟩ := hpath p' hp'
      exact ⟨p, hp, by rw [hsame], by rw [hsame]; exact id⟩
  cases hp : s.fs.inodes.getPath i with
  | none =>
    apply hstays
    simp [hdone.getPath_none hs.wf hp]
  | some p =>
    obtain ⟨q, hq, rfl⟩ := hs.wf.canonical i p hp
    by_cases hin : ∃ t, q = g ++ t
    · obtain ⟨t, rfl⟩ := hin
      by_cases ht : t = []
      · subst ht
        have hgone : s'.fs.inodes.getPath i = none := by
          rw [hdone.inodes]
          refine hs.wf.rekeyPaths_replaced hdone.source hdone.target hdone.apart
            (s := []) (by simp [Names]) hp ?_
          rw [List.append_nil, (hs.wf.inverse _ _).mpr hj]
          simp
        apply hstays
        simp [hgone]
      · have hnone := hdone.tree_below hs.rooted ht hq
        have hclosed : s.fs.shared.copies i = none := by
          by_contra hlive
          exact hself.present _ hp hlive hnone
        refine .adopted (hcopies.trans hclosed) ?_ hwf.getPath_of_le hcontents
        rw [← hself.settled_of_none hp hclosed, hnone]
        rfl
    · push Not at hin
      obtain ⟨p', hp', hsame⟩ := hdone.getPath_outside hs.wf hq hp hin
      apply hstays
      intro p'' hp''
      obtain rfl := Option.some.inj (hp'.symm.trans hp'')
      exact ⟨_, hp, hsame⟩

end Moving

lemma Watches.rename {parent newparent flags : ℕ} {name newname : KernelName}
    (h : Watches s ⟨.rename parent name newparent newname flags, host, reply⟩ s')
    (hs : Consistent s) (hobeyed : s'.fs.ops.failures = s.fs.ops.failures)
    (hsource : ∀ p, renameSource s.fs parent name = some p → ∃ i, s.fs.inodes.getPath i = some p)
    (honto : NoDirTarget s.fs (.rename parent name newparent newname flags)) :
    Consistent s' := by
  have hends : Ends (AdbFs.rename host parent name newparent newname) s.fs
      (fun _ _ => Consistent s') fun _ _ => Consistent s' := by
    apply ((rename_obeyed hs.wf honto).and h.ends).imp
    · rintro r u ⟨hdone, -, rfl⟩
      obtain ⟨f, g, hfrom, hdone⟩ := hdone hobeyed
      obtain ⟨j, hj⟩ := hsource _ hfrom
      exact h.renamed hs hj hdone
    · rintro e u ⟨hsame, hidle, rfl⟩
      exact h.consistent_of_eq hs hidle (hsame hobeyed).symm
  exact ends_iff.mp hends

end Requests

/-- What the steps of a run meet: that they are regular and obeyed, and that they do no harm. -/
def Guarded (s : Watched) (call : Call) : Prop :=
  (Regular s call.request ∧ Obeyed s call) ∧ Harmless s call

lemma Watches.step (h : Watches s call s') (hs : Consistent s) (hguarded : Guarded s call) :
    Consistent s' := by
  obtain ⟨request, host, reply⟩ := call
  obtain ⟨⟨hregular, hobeyed⟩, hdir, hharmless⟩ := hguarded
  have hfailures : (∀ fh, request ≠ .flush fh) → s'.fs.ops.failures = s.fs.ops.failures := by
    intro hne
    rcases hobeyed with ⟨fh, hfh⟩ | hobeyed
    · exact absurd hfh (hne fh)
    · rwa [h.serves] at hobeyed
  cases request with
  | getattr i =>
    exact h.looking hs ⟨fun _ => rfl, fun _ => rfl⟩ (h.holds (looks_getattr host i))
      (h.holds (quiet_getattr host i))
  | lookup parent name => exact h.lookup hs
  | «open» i => exact h.open hs
  | read fh offset size =>
    exact h.looking hs ⟨fun _ => rfl, fun _ => rfl⟩ (h.holds (keeps_readFile host fh offset size))
      (h.holds (keeps_readFile host fh offset size))
  | write fh offset data => exact h.write hs
  | flush fh => exact h.flush hs
  | release fh => exact h.release hs hregular
  | setattr i size atime mtime fh =>
    cases size with
    | none => exact absurd rfl hregular
    | some n => exact h.setattr hs (hfailures (by simp)) hharmless.1 hharmless.2
  | create parent name => exact h.create hs (hfailures (by simp)) hregular
  | rename parent name newparent newname flags =>
    exact h.rename hs (hfailures (by simp)) hregular hdir
  | _ => exact hregular.elim

/-- Where the file of an inode comes from that the reference takes from the device: it was there
before, or a rename brought it, or it is the file of a create that failed. -/
inductive Adopts (s : Watched) (call : Call) (i : ℕ) (p : Text) (b : Bytes) : Prop
  | there : (s.fs.tree p).bind Node.data = some b → Adopts s call i p b
  | moved {q : Text} : call.request.IsRename → (s.fs.tree q).bind Node.data = some b →
      Adopts s call i p b
  | made {parent : ℕ} {name : KernelName} : call.request = .create parent name →
      call.request.target s.fs = some i → Adopts s call i p b

lemma bind_moveTree {source target : Text} {tree : Tree} {b : Bytes}
    (h : (moveTree source target tree p).bind Node.data = some b) :
    ∃ q, (tree q).bind Node.data = some b := by
  rw [moveTree] at h
  split at h
  · exact ⟨_, h⟩
  · split_ifs at h
    · simp at h
    · exact ⟨_, h⟩

lemma adopts_other {b : Bytes} (hgiven : Inodes.Given s.fs.inodes s'.fs.inodes)
    (htree : s'.fs.tree = s.fs.tree ∨ ∃ j p, call.request.target s.fs = some j ∧
      s'.fs.inodes.getPath j = some p ∧ Refiled p s.fs.tree s'.fs.tree)
    (hi : call.request.target s.fs ≠ some i) (hp : s'.fs.inodes.getPath i = some p)
    (hdata : (s'.fs.tree p).bind Node.data = some b) : Adopts s call i p b := by
  rcases htree with hsame | ⟨j, q, hj, hq, hrefiled⟩
  · exact .there (hsame ▸ hdata)
  · have hne : p ≠ q := by
      rintro rfl
      exact hi (hj.trans (congrArg some (hgiven.wf.path_inj hq hp)))
    rw [hrefiled.other p hne] at hdata
    exact .there hdata

omit [Libc] in
lemma Call.edit_ne_none {f : Option Bytes} (hf : f ≠ none) : call.edit f ≠ none := by
  obtain ⟨b, rfl⟩ := Option.ne_none_iff_exists'.mp hf
  rw [Call.edit]
  split <;> simp

lemma flush_refiled (fh : ℕ) (hs : Consistent s) :
    Ends (AdbFs.flush fh) s.fs
      (fun _ w' => w'.tree = s.fs.tree ∨ ∃ i p, s.fs.shared.handles fh = some i ∧
        s.fs.inodes.getPath i = some p ∧ Refiled p s.fs.tree w'.tree)
      fun _ w' => w'.tree = s.fs.tree ∨ ∃ i p, s.fs.shared.handles fh = some i ∧
        s.fs.inodes.getPath i = some p ∧ Refiled p s.fs.tree w'.tree := by
  apply (flush_ends hs.wired).imp
  · rintro _ w' ⟨-, i, id, c, hfh, -, -, hdone⟩
    cases hdone with
    | clean _ heq => exact Or.inl (by rw [heq])
    | sent _ hpath hsent _ => exact Or.inr ⟨i, _, hfh, hpath, (put_of_sent hsent).refiled⟩
  · rintro _ w' (rfl | ⟨i, id, c, hfh, -, -, hfailed⟩)
    · exact Or.inl rfl
    · cases hfailed.unsent with
      | nowhere _ _ hops => exact Or.inl (congrArg DeviceOps.tree hops)
      | refused hpath hsent _ => exact Or.inr ⟨i, _, hfh, hpath, (torn_of_refused hsent).refiled⟩

section Adoption

variable {host : Host} {reply : Option Reply} {b : Bytes}

lemma Watches.adopts_flush {fh : ℕ} (h : Watches s ⟨.flush fh, host, reply⟩ s') (hs : Consistent s)
    (hno : Reference.apply s.fs ⟨.flush fh, host, reply⟩ s.contents i = none)
    (hp : s'.fs.inodes.getPath i = some p) (hdata : (s'.fs.tree p).bind Node.data = some b) :
    Adopts s ⟨.flush fh, host, reply⟩ i p b := by
  have hsame : SameInodes s.fs s'.fs := h.holds (sameInodes_flush fh)
  have hrefiles := ends_iff.mp (flush_refiled fh hs)
  have hsnd : (AdbFs.flush fh s.fs).2 = s'.fs :=
    (serve_snd _ _ _).symm.trans (congrArg Prod.snd h.serves)
  rw [hsnd] at hrefiles
  refine adopts_other (hsame ▸ hs.wf.given_refl) (hsame ▸ hrefiles) (fun hi => ?_) hp hdata
  -- the reference knows the file of an open inode
  obtain ⟨_, -, -, hlive⟩ := AdbFs.Linked.live ⟨0, hs.wired⟩ hi
  obtain ⟨f, -, hf⟩ := (hs.mirrors i).copy _ hlive
  rw [Reference.apply, if_pos hi, hf] at hno
  exact Call.edit_ne_none (by simp) hno

lemma Watches.adopts_setattr {n : ℕ} {atime mtime : Option TimeOrNow} {fh : Option ℕ}
    (h : Watches s ⟨.setattr j (some n) atime mtime fh, host, reply⟩ s') (hs : Consistent s)
    (hharmless : Harmless s ⟨.setattr j (some n) atime mtime fh, host, reply⟩)
    (hfailures : s'.fs.ops.failures = s.fs.ops.failures)
    (hno : Reference.apply s.fs ⟨.setattr j (some n) atime mtime fh, host, reply⟩ s.contents i = none)
    (hp : s'.fs.inodes.getPath i = some p) (hdata : (s'.fs.tree p).bind Node.data = some b) :
    Adopts s ⟨.setattr j (some n) atime mtime fh, host, reply⟩ i p b := by
  have hsame : SameInodes s.fs s'.fs := h.holds (sameInodes_setattr host j (some n) atime mtime)
  have hends : Ends (AdbFs.setattr host j (some n) atime mtime) s.fs
      (fun _ _ => Adopts s ⟨.setattr j (some n) atime mtime fh, host, reply⟩ i p b)
      fun _ _ => Adopts s ⟨.setattr j (some n) atime mtime fh, host, reply⟩ i p b := by
    apply ((setattr_obeyed hs hharmless.2.1 hharmless.2.2).and h.ends).imp
    · rintro r u ⟨⟨⟨ttl, a, rfl⟩, q, v, hq, -, -, -, hdone⟩, hreply, rfl⟩
      dsimp only at hreply
      subst hreply
      obtain ⟨hrefiled, -⟩ := hdone hfailures
      refine adopts_other (hsame ▸ hs.wf.given_refl)
        (Or.inr ⟨j, q, rfl, hsame ▸ hq, hrefiled⟩) (fun hi => ?_) hp hdata
      rw [Reference.apply, if_pos hi] at hno
      simp [Call.edit] at hno
    · rintro e u ⟨hdone, -, rfl⟩
      exact .there ((hdone hfailures).1 ▸ hdata)
  exact ends_iff.mp hends

lemma Watches.adopts_create {parent : ℕ} {name : KernelName}
    (h : Watches s ⟨.create parent name, host, reply⟩ s') (hs : Consistent s)
    (hfailures : s'.fs.ops.failures = s.fs.ops.failures)
    (hp : s'.fs.inodes.getPath i = some p) (hdata : (s'.fs.tree p).bind Node.data = some b) :
    Adopts s ⟨.create parent name, host, reply⟩ i p b := by
  by_cases hi : Request.created s.fs parent name = some i
  · exact .made rfl hi
  cases hdir : s.fs.inodes.getPath parent with
  | none =>
    obtain ⟨-, heq⟩ := h.ends.of_error (create_of_orphan host name hdir)
    exact .there (heq ▸ hdata)
  | some dir =>
    obtain ⟨hgiven, hpath, hrefiled⟩ := h.create_refiled hs hfailures hdir
    refine adopts_other hgiven (Or.inr ⟨_, _, ?_, hpath, hrefiled⟩) hi hp hdata
    change Request.created s.fs parent name = _
    rw [Request.created, hdir, Option.map_some]

lemma Watches.adopts_rename {parent newparent flags : ℕ} {name newname : KernelName}
    (h : Watches s ⟨.rename parent name newparent newname flags, host, reply⟩ s')
    (hs : Consistent s) (hdir : NoDirTarget s.fs (.rename parent name newparent newname flags))
    (hfailures : s'.fs.ops.failures = s.fs.ops.failures)
    (hdata : (s'.fs.tree p).bind Node.data = some b) :
    Adopts s ⟨.rename parent name newparent newname flags, host, reply⟩ i p b := by
  have hends : Ends (AdbFs.rename host parent name newparent newname) s.fs
      (fun _ _ => ∃ q, (s.fs.tree q).bind Node.data = some b)
      fun _ _ => ∃ q, (s.fs.tree q).bind Node.data = some b := by
    apply ((rename_obeyed hs.wf hdir).and h.ends).imp
    · rintro _ u ⟨hdone, -, rfl⟩
      obtain ⟨f, g, -, hdone⟩ := hdone hfailures
      obtain ⟨-, -, -, htree⟩ := hdone.moved
      exact bind_moveTree (htree ▸ hdata)
    · rintro _ u ⟨hsame, -, rfl⟩
      have hsame := hsame hfailures
      exact ⟨p, hsame ▸ hdata⟩
  obtain ⟨q, hq⟩ := ends_iff.mp hends
  exact .moved trivial hq

/-- No file changes for the sake of an inode that takes one from the device. -/
lemma Watches.adopts (h : Watches s call s') (hs : Consistent s)
    (hguarded : Guarded s call) (hno : Reference.apply s.fs call s.contents i = none)
    (hcontents : s'.contents i = some b) :
    ∃ p, s'.fs.inodes.getPath i = some p ∧ Adopts s call i p b := by
  have hstored : s'.fs.stored i = some b := by rw [← hcontents, h.contents, hno, Option.none_or]
  obtain ⟨p, hp, hdata⟩ := Option.bind_eq_some_iff.mp hstored
  refine ⟨p, hp, ?_⟩
  obtain ⟨request, host, reply⟩ := call
  obtain ⟨⟨hregular, hobeyed⟩, hharmless⟩ := hguarded
  have hfailures : (∀ fh, request ≠ .flush fh) → s'.fs.ops.failures = s.fs.ops.failures := by
    intro hne
    rcases hobeyed with ⟨fh, hfh⟩ | hobeyed
    · exact absurd hfh (hne fh)
    · rwa [h.serves] at hobeyed
  have hlooked : Looks s.fs s'.fs → Adopts s ⟨request, host, reply⟩ i p b :=
    fun hlooks => .there (hlooks.1 ▸ hdata)
  cases request with
  | getattr j => exact hlooked (h.holds (looks_getattr host j))
  | lookup parent name =>
    have hends := ends_iff.mp (lookup_looks host parent name s.fs)
    have hsnd : (AdbFs.lookup host parent name s.fs).2 = s'.fs :=
      (serve_snd _ _ _).symm.trans (congrArg Prod.snd h.serves)
    rw [hsnd] at hends
    exact .there (hends.1 ▸ hdata)
  | «open» j => exact hlooked (h.holds (keeps_open host j))
  | read fh offset size => exact hlooked (h.holds (keeps_readFile host fh offset size))
  | write fh offset data => exact hlooked (h.holds (keeps_write host fh offset data))
  | release fh => exact hlooked (h.holds (keeps_release host fh))
  | flush fh => exact h.adopts_flush hs hno hp hdata
  | setattr j size atime mtime fh =>
    cases size with
    | none => exact absurd rfl hregular
    | some n => exact h.adopts_setattr hs hharmless (hfailures (by simp)) hno hp hdata
  | create parent name => exact h.adopts_create hs (hfailures (by simp)) hp hdata
  | rename parent name newparent newname flags =>
    exact h.adopts_rename hs hharmless.1 (hfailures (by simp)) hdata
  | _ => exact hregular.elim

end Adoption

lemma Consistent.faithful (hs : Consistent s) : Faithful s where
  copies i c hc := by
    obtain ⟨b, hb, hcontents⟩ := (hs.mirrors i).copy c hc
    rw [hb, hcontents]
  reads fh i h offset size hfh := by
    obtain ⟨id, -, -, hc⟩ := AdbFs.Linked.live ⟨0, hs.wired⟩ hfh
    obtain ⟨b, hb, hcontents⟩ := (hs.mirrors i).copy _ hc
    refine ⟨b, hcontents, ?_⟩
    rw [read_reply ⟨0, hs.wired⟩ hfh hc, hb]
    cases h.read <;> rfl
  stored i := (hs.mirrors i).settled

def Watched.mounted (ops : DeviceOps Phone) (cacheTtl : ℕ) (opts : FsOptions) : Watched where
  fs := AdbFs.new ops cacheTtl opts
  contents := (AdbFs.new ops cacheTtl opts).stored
  flushed _ := false

lemma consistent_mounted {ops : DeviceOps Phone} (hroot : Rooted ops.tree) (cacheTtl : ℕ)
    (opts : FsOptions) : Consistent (.mounted ops cacheTtl opts) where
  wired := ⟨wired_new, fun _ _ => rfl⟩
  wf := Inodes.wf_new
  rooted := hroot
  mirrors i := by
    have hclosed : (Watched.mounted ops cacheTtl opts).fs.shared.copies i = none := rfl
    refine ⟨by simp [hclosed], ?_, by simp [hclosed], by simp [hclosed], fun hi => ⟨hclosed, ?_⟩⟩
    · exact fun p hp _ => (AdbFs.stored_of_path hp).symm
    · exact AdbFs.stored_of_none (Inodes.wf_new.getPath_of_le hi)

/-- In every run that does no harm, the copies hold what the reference holds, and so does the device
where no write is pending. -/
theorem contents_follow_reference {ops : DeviceOps Phone} {cacheTtl : ℕ} {opts : FsOptions}
    (hroot : Rooted ops.tree) (hrun : Run Watches Guarded (.mounted ops cacheTtl opts) s) :
    Faithful s := by
  have hs : Consistent s :=
    hrun.invariant (fun _ _ _ hs hguarded hstep => hstep.step hs hguarded)
      (consistent_mounted hroot cacheTtl opts)
  exact hs.faithful

end Reference

section Plain

attribute [local instance] plainLibc

def Watched.after (s : Watched) (request : Request) : Watched :=
  let answer := AdbFs.serve (plainHost 0 1 0) request s.fs
  let call : Call := ⟨request, plainHost 0 1 0, answer.1⟩
  { fs := answer.2
    contents := fun i => (Reference.apply s.fs call s.contents i).or (answer.2.stored i)
    flushed := call.flushed s.flushed }

lemma watches_after (s : Watched) (request : Request) :
    Watches s ⟨request, plainHost 0 1 0, (AdbFs.serve (plainHost 0 1 0) request s.fs).1⟩
      (s.after request) := ⟨rfl, fun _ => rfl, rfl⟩

lemma run_after {guard : Watched → Call → Prop} {start s : Watched} {request : Request}
    (hrun : Run Watches guard start s)
    (hguard : guard s
      ⟨request, plainHost 0 1 0, (AdbFs.serve (plainHost 0 1 0) request s.fs).1⟩) :
    Run Watches guard start (s.after request) := hrun.tail hguard (watches_after s request)

lemma rooted_plainPhone {files : List (Text × Node)} {made : List Node}
    (h : ∀ f ∈ files, Phone.isDir (plainPhone files made).tree (parentOf f.1) = true) :
    Rooted (plainPhone files made).tree := by
  intro dir n hnames hthere
  have hn : IsName n := hnames n (by simp)
  rcases plainPhone_holds hthere with hroot | ⟨f, hf, heq⟩
  · have hnil := render_injective (b := []) hnames (by simp [Names]) hroot
    simp at hnil
  · rw [← parentOf_concat hn, ← heq]
    exact h f hf

def nameX : KernelName := ⟨[120], by decide⟩

def twoDirs : DeviceOps Phone where
  adb := plainPhone [("/a".toList, dirNode), ("/b".toList, dirNode), ("/a/x".toList, byteNode 7)] []
  touchGnuMode := true
  rescan := false

def foundA : Watched := (Watched.mounted twoDirs (10 ^ 9) {}).after (.lookup 1 nameA)

def foundX : Watched := foundA.after (.lookup 2 nameX)

/-- The file went with its directory into the empty one, and its inode does not know. -/
theorem contents_follow_reference_fails_for_empty_directory :
    let s := foundX.after (.rename 1 nameA 1 nameB 0)
    Rooted twoDirs.tree ∧
      Run Watches (fun s call => Regular s call.request ∧ Obeyed s call)
        (.mounted twoDirs (10 ^ 9) {}) s ∧ ¬ Faithful s := by
  intro s
  refine ⟨rooted_plainPhone (by decide), ?_, ?_⟩
  · have hsource : renameSource foundX.fs 1 nameA = some "/a".toList := by decide +kernel
    have hknown : foundX.fs.inodes.getPath 2 = some "/a".toList := by decide +kernel
    apply run_after
    · apply run_after
      · exact run_after .refl ⟨trivial, Or.inr (by decide +kernel)⟩
      · exact ⟨trivial, Or.inr (by decide +kernel)⟩
    · refine ⟨fun p hp => ⟨2, ?_⟩, Or.inr (by decide +kernel)⟩
      rw [hknown, ← hsource]
      exact hp
  · intro hfaithful
    have hpath : s.fs.inodes.getPath 3 = some "/b/x".toList := by decide +kernel
    have hclosed : (s.fs.shared.copies 3).isNone = true := by decide +kernel
    have hdata : (s.fs.tree "/b/x".toList).bind Node.data = none := by decide +kernel
    have hcontents : s.contents 3 = some [7] := by decide +kernel
    have hstored := hfaithful.stored 3 _ hpath fun c hc => by simp [hc] at hclosed
    rw [hdata, hcontents] at hstored
    simp at hstored

def oneByte : DeviceOps Phone where
  adb := plainPhone [("/a".toList, byteNode 7)] [dirNode, dirNode, byteNode 9]
  touchGnuMode := true
  rescan := false

def wroteA : Watched :=
  (((Watched.mounted oneByte (10 ^ 9) {}).after (.lookup 1 nameA)).after (.open 2)).after
    (.write 1 0 [9])

def closedA : Watched := (wroteA.after (.flush 1)).after (.release 1)

/-- What was written is on the device once it was flushed. -/
theorem contents_follow_reference_after_write :
    closedA.contents 2 = some [9] ∧ (closedA.fs.tree "/a".toList).bind Node.data = some [9] := by
  have hcontents : closedA.contents 2 = some [9] := by decide +kernel
  have hpath : closedA.fs.inodes.getPath 2 = some "/a".toList := by decide +kernel
  have hclosed : (closedA.fs.shared.copies 2).isNone = true := by decide +kernel
  have hflushed : (wroteA.after (.flush 1)).flushed 1 = true := by decide +kernel
  have hrun : Run Watches Guarded (.mounted oneByte (10 ^ 9) {}) closedA := by
    apply run_after
    · apply run_after
      · apply run_after
        · apply run_after
          · exact run_after .refl ⟨⟨trivial, Or.inr (by decide +kernel)⟩, trivial, trivial⟩
          · exact ⟨⟨trivial, Or.inr (by decide +kernel)⟩, trivial, trivial⟩
        · exact ⟨⟨trivial, Or.inr (by decide +kernel)⟩, trivial, trivial⟩
      · exact ⟨⟨trivial, Or.inl ⟨1, rfl⟩⟩, trivial, trivial⟩
    · exact ⟨⟨hflushed, Or.inr (by decide +kernel)⟩, trivial, trivial⟩
  have hfaithful := contents_follow_reference (rooted_plainPhone (by decide)) hrun
  refine ⟨hcontents, ?_⟩
  rw [← hcontents]
  exact hfaithful.stored 2 _ hpath fun c hc => by simp [hc] at hclosed

end Plain

end Adbfs
