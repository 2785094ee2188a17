import Adbfs.Pending

namespace Adbfs

open Library Library.Paths Library.Action Files

section Sizes

variable [Libc]

/-- The local files are what the device has, but for those that wait to be pushed. -/
def Backed (w : PhoneFs) : Prop := ∃ contents, Consistent ⟨w, contents, fun _ => false⟩

structure Settled (w : PhoneFs) : Prop where
  backed : Backed w
  sighted : Sighted w

/-- What a request that makes a file anew or sets its length leaves of an inode. -/
inductive Remade (j : ℕ) (w w' : PhoneFs) : Prop
  | pushed {p : Text} {f : Bytes} : w'.inodes.getPath j = some p → Refiled p w.tree w'.tree →
      (w'.tree p).bind Node.data = some f →
      (∀ c, w'.shared.copies j = some c → c.bytes = some f) → SightedAt w' p → Remade j w w'
  | kept : w'.tree = w.tree → w'.shared = w.shared → Remade j w w'
  -- a push that failed may have put anything there
  | unpushed {f : Bytes} :
      (w'.tree = w.tree ∨ ∃ p, w'.inodes.getPath j = some p ∧ Refiled p w.tree w'.tree) →
      w.shared.copies j ≠ none → w'.shared = w.shared.put j ⟨some f, true⟩ → Remade j w w'
  | dropped {p : Text} : w'.inodes.getPath j = some p → Refiled p w.tree w'.tree →
      w.shared.copies j = none → w'.shared = w.shared → Remade j w w'

/-- The device's files and the local ones stay, and the cache learns nothing. -/
structure Inert (w w' : PhoneFs) : Prop where
  tree : w'.tree = w.tree
  shared : w'.shared = w.shared
  cache : ∀ p e, w'.cache.peek p = some e → w.cache.peek p = some e

/-- Files are opened, created, read, written, resized, renamed and asked about, and what is renamed
has an inode. -/
def Asked (w : PhoneFs) : Request → Prop
  | .getattr _ => True
  | .lookup _ _ => True
  | .open _ => True
  | .read _ _ _ => True
  | .write _ _ _ => True
  | .flush _ => True
  | .setattr _ _ _ _ _ => True
  | .create _ _ => True
  | .rename parent name _ _ _ => ∀ p, renameSource w parent name = some p →
      ∃ i, w.inodes.getPath i = some p
  | _ => False

lemma Asked.legibleDir {w : PhoneFs} {request : Request} (h : Asked w request) :
    LegibleDir w request := by
  cases request <;> trivial

/-- No command on the device fails, or the request does without effect. -/
def Smooth (w : PhoneFs) (call : Call) (w' : PhoneFs) : Prop :=
  w'.failures = w.failures ∨ (∃ e, call.reply = some (.error e)) ∧ Inert w w'

/-- No text of a command that failed makes the parser panic. -/
def Phone.Readable (d : Phone) : Prop :=
  ∀ n lines exitCode, (d.plan n).failure = .message lines exitCode →
    ∀ line ∈ lines, parseLsLine line ≠ none

/-- What fails is told, and it does not fail half-way on something that the cache has an entry of. -/
structure FailsSoftly (w : PhoneFs) (call : Call) : Prop where
  honest : w.ops.adb.Honest
  readable : w.ops.adb.Readable
  sent : KernelSends w call.request
  clean : FailsClean call.host w call.request

/-- Only a flush may fail half-way on what the cache has an entry of, and nothing is renamed onto a
directory. -/
structure Ordinary (w : PhoneFs) (call : Call) : Prop where
  asked : Asked w call.request
  notDir : NoDirTarget w call.request
  smooth : (∃ fh, call.request = .flush fh) ∨
    Smooth w call (AdbFs.serve call.host call.request w).2 ∨ FailsSoftly w call

variable {s s' : Watched} {i j : ℕ} {call : Call} {w w' : PhoneFs} {p : Text} {host : Host}
  {reply : Option Reply}

lemma Mirrors.congr (h : Mirrors s i) (hfs : s'.fs = s.fs)
    (hcontents : s'.contents i = s.contents i) (hflushed : s'.flushed = s.flushed) :
    Mirrors s' i where
  copy c hc := by
    rw [hcontents]
    exact h.copy c (hfs ▸ hc)
  settled p hp hclean := by
    rw [hcontents, hfs]
    exact h.settled p (hfs ▸ hp) (hfs ▸ hclean)
  pending c hc hdirty := by
    rw [hflushed, hfs]
    exact h.pending c (hfs ▸ hc) hdirty
  present p hp hlive := by
    rw [hfs]
    exact h.present p (hfs ▸ hp) (hfs ▸ hlive)
  unborn hi := by
    rw [hcontents, hfs]
    exact h.unborn (hfs ▸ hi)

lemma Consistent.backed (hs : Consistent s) : Backed s.fs := by
  refine ⟨s.contents, hs.wired, hs.wf, hs.rooted, fun i => ?_⟩
  have hself := hs.mirrors i
  refine ⟨hself.copy, hself.settled, fun c hc hdirty => ?_, hself.present, hself.unborn⟩
  obtain ⟨fh, hfh, -⟩ := hself.pending c hc hdirty
  exact ⟨fh, hfh, rfl⟩

lemma Remade.mirrors (h : Remade j s.fs w') (hs : Consistent s) (hwired : w'.Wired 0)
    (hgiven : Inodes.Given s.fs.inodes w'.inodes) :
    ∃ f, ∀ s' : Watched, s'.fs = w' → s'.contents j = f → s'.flushed = (fun _ => false) →
      Mirrors s' j := by
  have hself := hs.mirrors j
  have hpending : ∀ c, w'.shared.copies j = some c → ∃ fh, w'.shared.handles fh = some j :=
    fun c hc => (hwired.handle_of_live hc).resolve_right fun hne => hne rfl
  cases h with
  | @pushed p f hp hrefiled hdata hbytes hsighted =>
    refine ⟨some f, ?_⟩
    rintro s' rfl hcontents hflushed
    have hpath : ∀ q, s'.fs.inodes.getPath j = some q → (s'.fs.tree q).bind Node.data = some f := by
      intro q hq
      obtain rfl := Option.some.inj (hp.symm.trans hq)
      exact hdata
    constructor
    · exact fun c hc => ⟨f, hbytes c hc, hcontents⟩
    · intro q hq _
      rw [hpath q hq, hcontents]
    · intro c hc _
      rw [hflushed]
      exact (hpending c hc).imp fun _ hfh => ⟨hfh, rfl⟩
    · intro q hq _ hnone
      have hthere := hpath q hq
      rw [hnone] at hthere
      contradiction
    · intro hle
      have hlt := hgiven.wf.bounded j p hp
      omega
  | kept htree hshared =>
    refine ⟨(s.contents j).or (w'.stored j), ?_⟩
    rintro s' rfl hcontents hflushed
    by_cases hborn : s.fs.inodes.nextIno ≤ j
    · obtain ⟨hnone, hno⟩ := hself.unborn hborn
      exact .adopted (by rw [hshared, hnone]) hno hgiven.wf.getPath_of_le hcontents
    · refine hself.frame hgiven.next (by rw [hshared]) ?_ ?_ ?_ hcontents
      · intro fh hfh _
        rw [hshared, hflushed]
        exact ⟨hfh, rfl⟩
      · intro q hq
        exact ⟨q, (hgiven.born j q hq).resolve_right hborn, by rw [htree], by rw [htree]; exact id⟩
      · exact hgiven.wf.getPath_of_le
  | @unpushed f htree hlive hshared =>
    obtain ⟨c, hc⟩ := Option.ne_none_iff_exists'.mp hlive
    have hlt := hself.lt hc
    refine ⟨some f, ?_⟩
    rintro s' rfl hcontents hflushed
    have hcopies : s'.fs.shared.copies j = some ⟨some f, true⟩ := by
      rw [hshared]
      exact Function.update_self _ _ _
    constructor
    · intro d hd
      obtain rfl := Option.some.inj (hcopies.symm.trans hd)
      exact ⟨f, rfl, hcontents⟩
    · intro q _ hclean
      exact absurd (hclean _ hcopies) (by simp)
    · intro d hd _
      rw [hflushed]
      exact (hpending d hd).imp fun _ hfh => ⟨hfh, rfl⟩
    · intro q hq _
      have hthere := hself.present q ((hgiven.born j q hq).resolve_right (by omega)) hlive
      rcases htree with hsame | ⟨p, hp, hrefiled⟩
      · rwa [hsame]
      · obtain rfl := Option.some.inj (hp.symm.trans hq)
        exact hrefiled.kept hthere
    · intro hle
      have hnext := hgiven.next
      omega
  | @dropped p hp hrefiled hnone hshared =>
    refine ⟨w'.stored j, ?_⟩
    rintro s' rfl hcontents -
    have hclosed : s'.fs.shared.copies j = none := by rw [hshared, hnone]
    refine ⟨by simp [hclosed], fun q hq _ => ?_, by simp [hclosed], by simp [hclosed], fun hle => ?_⟩
    · rw [hcontents, AdbFs.stored_of_path hq]
    · have hlt := hgiven.wf.bounded j p hp
      omega

lemma Watches.backed (h : Watches s call s') (hs : Consistent s)
    (hflushed : s'.flushed = fun _ => false) (hwired : s'.fs.Wired 0)
    (hgiven : Inodes.Given s.fs.inodes s'.fs.inodes) (htarget : call.request.target s.fs = some j)
    (hremade : Remade j s.fs s'.fs) : Backed s'.fs := by
  have htree : s'.fs.tree = s.fs.tree ∨ ∃ j p, call.request.target s.fs = some j ∧
      s'.fs.inodes.getPath j = some p ∧ Refiled p s.fs.tree s'.fs.tree := by
    cases hremade with
    | pushed hp hrefiled _ _ _ => exact Or.inr ⟨j, _, htarget, hp, hrefiled⟩
    | kept htree _ => exact Or.inl htree
    | unpushed htree _ _ =>
      exact htree.imp_right fun ⟨p, hp, hrefiled⟩ => ⟨j, p, htarget, hp, hrefiled⟩
    | dropped hp hrefiled _ _ => exact Or.inr ⟨j, _, htarget, hp, hrefiled⟩
  obtain ⟨hrooted, hrest⟩ := h.rest hs hgiven htree
  obtain ⟨f, hf⟩ := hremade.mirrors hs hwired hgiven
  refine ⟨Function.update s'.contents j f, hwired, hgiven.wf, hrooted, fun i => ?_⟩
  by_cases hi : i = j
  · subst hi
    exact hf _ rfl (Function.update_self _ _ _) rfl
  · refine (hrest i fun heq => hi (Option.some.inj (htarget.symm.trans heq)).symm).congr rfl ?_
      hflushed.symm
    exact Function.update_of_ne hi _ _

lemma Remade.resolves (h : Remade j w w') (hgiven : Inodes.Given w.inodes w'.inodes)
    (hothers : ∀ i, i ≠ j → w'.shared.copies i = w.shared.copies i) : Resolves w w' := by
  rintro q ⟨i, c, hi, hc, hdirty⟩
  have hi' := hgiven.kept i q hi
  by_cases hij : i = j
  · subst hij
    cases h with
    | pushed hp _ _ _ hsighted =>
      obtain rfl := Option.some.inj (hp.symm.trans hi')
      exact Or.inr hsighted
    | kept _ hshared => exact Or.inl ⟨i, c, hi', by rw [hshared, hc], hdirty⟩
    | @unpushed f _ _ hshared =>
      refine Or.inl ⟨i, ⟨some f, true⟩, hi', ?_, rfl⟩
      rw [hshared]
      exact Function.update_self _ _ _
    | dropped _ _ hnone _ => simp [hnone] at hc
  · exact Or.inl ⟨i, c, hi', by rw [hothers i hij, hc], hdirty⟩

lemma Watches.settles (h : Watches s call s') (hs : Consistent s)
    (hflushed : s'.flushed = fun _ => false) (hwired : s'.fs.Wired 0)
    (hgiven : Inodes.Given s.fs.inodes s'.fs.inodes) (htarget : call.request.target s.fs = some j)
    (hremade : Remade j s.fs s'.fs) : Backed s'.fs ∧ Resolves s.fs s'.fs := by
  refine ⟨h.backed hs hflushed hwired hgiven htarget hremade, hremade.resolves hgiven ?_⟩
  intro i hi
  apply (h.othersKept hs).copies
  intro heq
  exact hi (Option.some.inj (htarget.symm.trans heq)).symm

section Left

variable {u v : PhoneFs} {f : Bytes}

lemma Remade.of_put (hpath : v.inodes.getPath j = some p) (hput : Put p (some f) w.tree v.tree)
    (hcopies : ∀ c, v.shared.copies j = some c → c.bytes = some f) (hsighted : SightedAt v p) :
    Remade j w v := .pushed hpath hput.refiled hput.data hcopies hsighted

lemma Remade.of_touched (hpath : v.inodes.getPath j = some p)
    (hput : Put p (some f) w.tree u.tree) (hback : GaveBack 0 j ⟨some f, false⟩ w u)
    (htouched : Touched p u.tree v.tree) (hfiles : FilesKept u v) (hsighted : SightedAt v p) :
    v.Wired 0 ∧ Remade j w v := by
  refine ⟨hfiles.wired hback.wired, .pushed hpath (hput.refiled.trans htouched.toRefiled)
    ((htouched.data hput.there).trans hput.data) (fun c hc => ?_) hsighted⟩
  rw [hfiles.shared] at hc
  rw [hback.copies_eq hc]

/-- Whether the file was open before decides what becomes of its copy. -/
lemma Remade.of_unpushed (hw : w.Wired 0) (hpath : v.inodes.getPath j = some p)
    (hback : GaveBack 0 j ⟨some f, true⟩ w v) (htree : v.tree = w.tree ∨ Refiled p w.tree v.tree) :
    v.Wired 0 ∧ Remade j w v := by
  refine ⟨hback.wired, ?_⟩
  by_cases hnone : w.shared.copies j = none
  · exact .dropped hpath (htree.elim (fun h => h ▸ .refl p _) id) hnone (hback.of_absent hw hnone)
  · obtain ⟨c, hc⟩ := Option.ne_none_iff_exists'.mp hnone
    obtain ⟨fh, hfh⟩ := (hw.handle_of_live hc).resolve_right fun h => h rfl
    exact .unpushed (htree.imp_right fun h => ⟨p, hpath, h⟩) hnone (hback.of_open hfh)

end Left

section Requests

lemma setattr_remade (host : Host) (j n : ℕ) (atime mtime : Option TimeOrNow) (hs : Consistent s) :
    Ends (AdbFs.setattr host j (some n) atime mtime) s.fs
      (fun _ v => SameInodes s.fs v → v.failures = s.fs.failures → v.Wired 0 ∧ Remade j s.fs v)
      fun _ v => SameInodes s.fs v → v.failures = s.fs.failures → v.Wired 0 ∧ Remade j s.fs v := by
  apply ends_getPath.mpr
  refine ⟨fun p hp => ?_, fun _ _ _ => ⟨hs.wired, .kept rfl rfl⟩⟩
  apply ends_bind.mpr
  apply ((truncate_obeyed hs.wired hp).and (truncate_forgets (h := host) hp n)).imp
  · rintro _ u ⟨⟨c, w₁, hacquires, hback, hle, hput⟩, hforgot⟩
    rw [hacquires.shortened_eq (hs.mirrors j) hp] at hback hput
    have hdone : ∀ v, Quietly u.ops v.ops (Touched p u.tree v.tree) → FilesKept u v → Follows u v →
        SameInodes s.fs v → v.failures = s.fs.failures → v.Wired 0 ∧ Remade j s.fs v := by
      rintro v ⟨hle', htouched⟩ hfiles hfollows hinodes heq
      have htouched := htouched (by
        change v.ops.failures = s.fs.ops.failures at heq
        omega)
      exact Remade.of_touched (hinodes ▸ hp) hput hback htouched hfiles
        ((hforgot.follows hfollows).sightedAt heq)
    apply (((afterResize_ends host j p atime mtime u).and
      ((quiet_afterResize host j p atime mtime).ends u)).and
        ((follows_afterResize host j p atime mtime).ends u)).imp
    · exact fun _ v hv => hdone v hv.1.1.2 hv.1.2 hv.2
    · exact fun _ v hv => hdone v ⟨hv.1.1.1, fun heq => (hv.1.1.2 heq).1⟩ hv.1.2 hv.2
  · rintro e u ⟨hlt | ⟨htree, hwired, hshared | ⟨-, -, hlive, -, hshared⟩⟩, -⟩ - heq
    · change u.ops.failures = s.fs.ops.failures at heq
      omega
    · exact ⟨hwired, .kept htree hshared⟩
    · exact ⟨hwired, .unpushed (Or.inl htree) hlive hshared⟩

lemma create_remade (host : Host) {parent : ℕ} {dir : Text} (name : KernelName) (hs : Consistent s)
    (hdir : s.fs.inodes.getPath parent = some dir) (hp : childPath dir name = p)
    (hj : (s.fs.inodes.getOrAssignIno p).1 = j) :
    Ends (AdbFs.create host parent name) s.fs
      (fun _ v => SameInodes (s.fs.assigned p) v → v.failures = s.fs.failures →
        v.Wired 0 ∧ Remade j s.fs v)
      fun _ v => SameInodes (s.fs.assigned p) v → v.failures = s.fs.failures →
        v.Wired 0 ∧ Remade j s.fs v := by
  have hpath : (s.fs.assigned p).inodes.getPath j = some p := hj ▸ hs.wf.getPath_assigned
  have hforgets := create_forgets (h := host) name hs.wf hs.wired hdir
  rw [hp] at hforgets
  apply ((create_ends host name hs.wired hdir hp hj).and hforgets).imp
  · rintro r v ⟨⟨-, hopened, q, t, m, hq, hsent, hasked⟩, hforgot⟩ hinodes heq
    obtain rfl : q = p := Option.some.inj (hq.symm.trans hpath)
    have hput := put_of_sent hsent
    rw [← ((getMetadata_ends _ _).of_ok hasked).1] at hput
    exact ⟨hopened.wired, .of_put (hinodes ▸ hpath) hput
      (fun c hc => by rw [← Option.some.inj (hopened.copies_eq.symm.trans hc)])
      (hforgot.sightedAt heq)⟩
  · rintro e v ⟨⟨-, hwired, hshared, hops⟩ |
      ⟨hcreate, huncreated, dirty, spare, hback, hzero, hstopped, -⟩, hforgot⟩ hinodes heq
    · exact ⟨hwired, .kept (congrArg DeviceOps.tree hops) hshared⟩
    · obtain ⟨hpanic, -⟩ := huncreated.obeyed hpath heq
      obtain rfl := hzero hpanic
      -- the device was asked for the file, or a local file kept it from that
      have hasked : host.openFile = none → Forgot p s.fs v := by
        intro hopen
        rcases hforgot with ⟨hlocal, -⟩ | hlt | hforgot
        · simp [hcreate, hopen] at hlocal
        · omega
        · exact hforgot
      cases huncreated with
      | @unopened e' hopen _ hops =>
        obtain rfl := hstopped (by simp [hopen])
        exact Remade.of_unpushed hs.wired (hinodes ▸ hpath) hback
          (Or.inl (congrArg DeviceOps.tree hops))
      | unsent hunsent =>
        cases hunsent with
        | nowhere hnone _ _ => simp [hpath] at hnone
        | refused _ hsent _ =>
          have hlt := ((pushAndSync_ends _ _ _ _).of_error hsent).1
          change v.ops.failures = s.fs.ops.failures at heq
          have hlt' : s.fs.ops.failures < v.ops.failures := hlt
          omega
      | @unknown q t e' hopen hq hsent hasked' he =>
        obtain rfl : q = p := Option.some.inj (hq.symm.trans hpath)
        have hput := put_of_sent hsent
        rw [← ((getMetadata_ends _ _).of_error hasked').1] at hput
        exact ⟨hback.wired, .of_put (hinodes ▸ hpath) hput (fun c hc => by rw [hback.copies_eq hc])
          ((hasked hopen).sightedAt heq)⟩

lemma afterResize_touched (host : Host) (j : ℕ) (p : Text) (atime mtime : Option TimeOrNow) :
    Keeps (fun w v => TouchedAt p w.ops v.ops)
      (touchTimes host p atime mtime >>= fun _ => device (getMetadata p) >>= fun m =>
        cacheInsert p (some m) host.now >>= fun _ => read >>= fun w =>
          pure (.attr w.opts.attrTimeout (w.opts.metaToAttr j m)) : FsM Phone Errno Reply) := by
  have hrefl : Std.Refl fun w v : PhoneFs => TouchedAt p w.ops v.ops := ⟨fun w => .refl p w.tree⟩
  have htrans : IsTrans PhoneFs fun w v => TouchedAt p w.ops v.ops := ⟨fun _ _ _ h h' => h.trans h'⟩
  have hdevice : ∀ {α : Type} {x : OpsM Phone α}, Keeps (TouchedAt p) x →
      Keeps (fun w v : PhoneFs => TouchedAt p w.ops v.ops) (device x) :=
    fun hx => (keeps_zoom fun w => hx.holds w.ops).mapError
  have hcache : ∀ f, Keeps (fun w v : PhoneFs => TouchedAt p w.ops v.ops)
      (update (AdbFs.setCache f) : FsM Phone Errno Unit) :=
    fun f => keeps_update fun w => Touched.refl p w.tree
  have htimes : Keeps (fun w v : PhoneFs => TouchedAt p w.ops v.ops)
      (touchTimes host p atime mtime) := by
    rw [touchTimes]
    split_ifs
    · exact keeps_pure _
    · exact (hdevice (touchedAt_touch p _ _)).bind fun _ => hcache _
  have hasked : Keeps (TouchedAt p) (getMetadata p : OpsM Phone FileMeta) := by
    apply Keeps.of_ends
    intro t
    have hsame : ∀ u : DeviceOps Phone, u.tree = t.tree → TouchedAt p t u := by
      intro u hu
      rw [TouchedAt, hu]
      exact .refl p t.tree
    exact (getMetadata_ends p t).imp (fun _ u hu => hsame u hu.1) fun _ u hu => hsame u hu.1
  exact htimes.bind fun _ => (hdevice hasked).bind fun _ => (hcache _).bind fun _ =>
    keeps_read.bind fun _ => keeps_pure _

lemma setattr_touched (host : Host) (j : ℕ) (atime mtime : Option TimeOrNow) (w : PhoneFs) :
    Ends (AdbFs.setattr host j none atime mtime) w
      (fun _ v => FilesKept w v ∧ ∃ p, Touched p w.tree v.tree)
      fun _ v => FilesKept w v ∧ ∃ p, Touched p w.tree v.tree := by
  apply ends_getPath.mpr
  refine ⟨fun p _ => ?_, fun _ => ⟨Std.Refl.refl w, [], .refl _ _⟩⟩
  apply ends_bind.mpr
  change Ends (touchTimes host p atime mtime >>= _) w _ _
  apply (((afterResize_touched host j p atime mtime).ends w).and
    ((quiet_afterResize host j p atime mtime).ends w)).imp
  · exact fun _ _ hv => ⟨hv.2, p, hv.1⟩
  · exact fun _ _ hv => ⟨hv.2, p, hv.1⟩

lemma decodeMetadata_returns {lines : List Text} {t : DeviceOps Phone}
    (hlines : ∀ line ∈ lines, parseLsLine line ≠ none) :
    Ends (decodeMetadata p lines) t (fun _ _ => True) fun e _ => e ≠ .panic := by
  cases lines with
  | nil => simp [decodeMetadata]
  | cons first rest =>
    rw [decodeMetadata]
    split_ifs
    · simp
    · apply ends_bind.mpr
      apply ends_orCrash.mpr
      refine ⟨fun m _ => ?_, fun hnone => absurd hnone (hlines first (by simp))⟩
      apply ends_ofOption.mpr
      exact ⟨fun _ _ => trivial, by simp⟩

lemma getMetadata_returns (p : Text) {t : DeviceOps Phone} (hreadable : t.adb.Readable) :
    Ends (getMetadata p) t (fun _ _ => True) fun e _ => e ≠ .panic := by
  have hstats : ∀ (lines : List Text) (u : DeviceOps Phone),
      Stats t.tree p (decodeMetadata p lines u).1 →
        Ends (decodeMetadata p lines) u (fun _ _ => True) fun e _ => e ≠ .panic := by
    intro lines u hst
    refine ends_of_apply (fun _ _ _ => trivial) fun e v hv => ?_
    rw [hv] at hst
    rcases hst.failed e rfl with ⟨-, rfl⟩ | ⟨rfl, -⟩
    · simp
    · simp
  apply ends_bind.mpr
  apply ends_transport.mpr
  apply ends_asAction.mpr
  simp only [Phone.shellWithStderr, readCommands_lsMetadataCmd, Phone.runAll_singleton]
  refine ⟨fun output houtput => ?_, by simp [Abort.map]⟩
  rcases Phone.run_fate (.stat p) t.adb with ⟨fate, hp⟩ | ⟨hfail, -⟩
  · obtain ⟨-, hslash, ⟨n, hn, ha⟩ | ⟨hn, ha⟩⟩ := perform_stat hp
    · rw [ha] at houtput
      rw [← Except.ok.inj houtput]
      exact hstats _ _ (decodeMetadata_found hslash hn _)
    · rw [ha, Phone.missing, (metadataLines_message _ _ _).1] at houtput
      rw [← Except.ok.inj houtput, (metadataLines_message _ _ _).2]
      exact hstats _ _ (decodeMetadata_missing hn _)
  · rw [hfail] at houtput
    cases hf : (t.adb.plan t.adb.commands).failure with
    | transport e => simp [hf, Phone.answer] at houtput
    | message lines exitCode =>
      rw [hf, (metadataLines_message _ _ _).1] at houtput
      rw [← Except.ok.inj houtput, (metadataLines_message _ _ _).2]
      exact decodeMetadata_returns (hreadable _ lines exitCode hf)

lemma pushAndSync_plan (here : LocalPath) (contents : Option Bytes) (p : Text) :
    Keeps (fun s t : DeviceOps Phone => t.adb.plan = s.adb.plan) (pushAndSync here contents p) := by
  have hrefl : Std.Refl fun s t : DeviceOps Phone => t.adb.plan = s.adb.plan := ⟨fun _ => rfl⟩
  have htrans : IsTrans (DeviceOps Phone) fun s t => t.adb.plan = s.adb.plan :=
    ⟨fun _ _ _ h h' => h'.trans h⟩
  have hpush : Keeps (fun d d' : Phone => d'.plan = d.plan)
      (AdbDevice.push here contents p : Action Phone AdbError Unit) := by
    refine ⟨fun d => ?_⟩
    change (Phone.push here contents p d).2.plan = d.plan
    simp only [Phone.push]
    split_ifs <;> rfl
  have hsync : Keeps (fun d d' : Phone => d'.plan = d.plan)
      (AdbDevice.syncDevice : Action Phone AdbError Unit) := by
    have hrefl : Std.Refl fun d d' : Phone => d'.plan = d.plan := ⟨fun _ => rfl⟩
    have htrans : IsTrans Phone fun d d' : Phone => d'.plan = d.plan :=
      ⟨fun _ _ _ h h' => h'.trans h⟩
    refine Keeps.bind ⟨fun d => ?_⟩ fun _ => keeps_pure _
    have hrun := (Phone.run_plan .sync d).1
    have hshell : (Phone.shell "sync".toList d).2 = (Phone.run .sync d).2 := by
      simp only [Phone.shell, Phone.shellWithStderr, readCommands_sync, Phone.runAll_singleton]
    rwa [← hshell] at hrun
  exact (keeps_transport (fun _ _ h => h) hpush).bind fun _ => keeps_transport (fun _ _ h => h) hsync

lemma setattr_remade_told (host : Host) (j n : ℕ) (atime mtime : Option TimeOrNow)
    (hs : Consistent s) (hhonest : s.fs.ops.adb.Honest) :
    Ends (AdbFs.setattr host j (some n) atime mtime) s.fs
      (fun _ v => SameInodes s.fs v → v.Wired 0 ∧ Remade j s.fs v)
      fun _ v => SameInodes s.fs v → v.Wired 0 ∧ Remade j s.fs v := by
  have hsound : Sound Phone.Honest s.fs := ⟨hs.wf, hhonest⟩
  apply ends_getPath.mpr
  refine ⟨fun p hp => ?_, fun _ _ => ⟨hs.wired, .kept rfl rfl⟩⟩
  have hcanonical := hs.wf.canonical j p hp
  apply ends_bind.mpr
  apply ((((truncate_obeyed hs.wired hp).and (resize_uncached host hp (n := n))).and
    (((truncate_cases host n hs.wired).and (truncate_returns host ⟨0, hs.wired⟩ j p n)))).and
      ((keeps_resize host p (some n) fun id => grows_pushIfDirty (D := Phone.Honest) j id).ends s.fs)).imp
  · rintro _ u ⟨⟨⟨⟨c, w₁, hacquires, hback, -, hput⟩, huncached⟩, -⟩, hgrows⟩
    rw [hacquires.shortened_eq (hs.mirrors j) hp] at hback hput
    have hdone : ∀ v, Touched p u.tree v.tree → FilesKept u v → InStep u v → SameInodes s.fs v →
        v.Wired 0 ∧ Remade j s.fs v := by
      intro v htouched hfiles hinStep hinodes
      exact Remade.of_touched (hinodes ▸ hp) hput hback htouched hfiles
        ((sightedAt_of_uncached huncached).of_refreshes (hinStep (hgrows hsound).1).2)
    apply (((afterResize_touched host j p atime mtime).ends u).and
      (((quiet_afterResize host j p atime mtime).ends u).and (afterResize_inStep host j hcanonical
        (discreet_touchTimes host fun hcached => absurd huncached hcached)))).imp
    · exact fun _ v hv => hdone v hv.1 hv.2.1 hv.2.2
    · exact fun _ v hv => hdone v hv.1 hv.2.1 hv.2.2
  · rintro e u ⟨⟨-, hcases, hpanic⟩, -⟩ hinodes
    rcases hcases with ⟨hunheld, -, hrefuses⟩ | ⟨c, w₁, hacquires, hsame, -, hback, hcause⟩
    · exact ⟨hunheld.wired, .kept hrefuses.still hunheld.shared⟩
    have hback := hback hpanic
    have hstill := hacquires.still
    have hpath : u.inodes.getPath j = some p := hinodes ▸ hp
    split_ifs at hback hcause with hset
    · rw [hacquires.shortened_eq (hs.mirrors j) hp] at hback
      apply Remade.of_unpushed hs.wired hpath hback
      cases hcause with
      | nowhere _ _ hops => exact Or.inl (by rw [AdbFs.tree, hops, ← hstill])
      | refused hpath hsent _ =>
        rw [hsame, hp] at hpath
        obtain rfl := Option.some.inj hpath
        exact Or.inr (hstill ▸ (torn_of_refused hsent).refiled)
    · have htree : u.tree = s.fs.tree := by rw [AdbFs.tree, hcause, ← hstill]
      by_cases hzero : n = 0
      · rw [if_pos hzero] at hacquires
        cases hacquires with
        | empty _ _ => exact Remade.of_unpushed hs.wired hpath hback (Or.inl htree)
      · rw [if_neg hzero] at hacquires
        cases hacquires with
        | live hc _ => exact ⟨hback.wired, .kept htree (hback.of_live hs.wired hc)⟩
        | pull hnone _ _ => exact ⟨hback.wired, .kept htree (hback.of_absent hs.wired hnone)⟩

lemma create_remade_told (host : Host) {parent : ℕ} {dir : Text} (name : KernelName)
    (hs : Consistent s) (hhonest : s.fs.ops.adb.Honest) (hreadable : s.fs.ops.adb.Readable)
    (hdir : s.fs.inodes.getPath parent = some dir) (hp : childPath dir name = p)
    (hj : (s.fs.inodes.getOrAssignIno p).1 = j) :
    Ends (AdbFs.create host parent name) s.fs
      (fun _ v => SameInodes (s.fs.assigned p) v → v.Wired 0 ∧ Remade j s.fs v)
      fun _ v => SameInodes (s.fs.assigned p) v → v.Wired 0 ∧ Remade j s.fs v := by
  have hpath : (s.fs.assigned p).inodes.getPath j = some p := hj ▸ hs.wf.getPath_assigned
  apply ((create_ends host name hs.wired hdir hp hj).and
    (create_sighted name ⟨hs.wf, hhonest⟩ hs.wired hdir hp hj)).imp
  · rintro r v ⟨⟨-, hopened, q, t, m, hq, hsent, hasked⟩, hsighted⟩ hinodes
    obtain rfl : q = p := Option.some.inj (hq.symm.trans hpath)
    have hput := put_of_sent hsent
    rw [← ((getMetadata_ends _ _).of_ok hasked).1] at hput
    exact ⟨hopened.wired, .of_put (hinodes ▸ hpath) hput
      (fun c hc => by rw [← Option.some.inj (hopened.copies_eq.symm.trans hc)]) hsighted⟩
  · rintro e v ⟨⟨-, hwired, hshared, hops⟩ |
      ⟨hcreate, huncreated, dirty, spare, hback, hzero, hstopped, hrefused⟩, hsighted⟩ hinodes
    · exact ⟨hwired, .kept (congrArg DeviceOps.tree hops) hshared⟩
    have hleft : dirty = true → spare = 0 → (v.tree = s.fs.tree ∨ Refiled p s.fs.tree v.tree) →
        v.Wired 0 ∧ Remade j s.fs v := by
      rintro rfl rfl htree
      exact Remade.of_unpushed hs.wired (hinodes ▸ hpath) hback htree
    cases huncreated with
    | @unopened e' hopen he hops =>
      exact hleft (hstopped (by simp [hopen])) (hzero (by simp [he]))
        (Or.inl (congrArg DeviceOps.tree hops))
    | unsent hunsent =>
      cases hunsent with
      | nowhere hnone _ _ => simp [hpath] at hnone
      | @refused q e' hq hsent he =>
        obtain rfl : q = p := Option.some.inj (hq.symm.trans hpath)
        have hreturns : e ≠ .panic := by
          have hpanic := (pushAndSync_returns _ _ _ _).of_error hsent
          rw [he]
          cases e' with
          | error e' => simp [Abort.map]
          | panic => exact absurd rfl hpanic
        exact hleft (hrefused (.refused hq hsent he) hreturns) (hzero hreturns)
          (Or.inr (torn_of_refused hsent).refiled)
    | @unknown q t e' hopen hq hsent hasked he =>
      obtain rfl : q = p := Option.some.inj (hq.symm.trans hpath)
      have hplan : t.adb.plan = s.fs.ops.adb.plan := by
        have hkeeps := (pushAndSync_plan (.copy j) (some []) q).holds s.fs.ops
        change pushAndSync _ _ _ s.fs.ops = _ at hsent
        rwa [hsent] at hkeeps
      have hreturns : e ≠ .panic := by
        have hreadable' : t.adb.Readable := by
          rw [Phone.Readable, hplan]
          exact hreadable
        have hpanic := (getMetadata_returns q hreadable').of_error hasked
        rw [he]
        cases e' with
        | error e' => simp [Abort.map]
        | panic => exact absurd rfl hpanic
      obtain rfl := hzero hreturns
      have hput := put_of_sent hsent
      rw [← ((getMetadata_ends _ _).of_error hasked).1] at hput
      refine ⟨hback.wired, .of_put (hinodes ▸ hpath) hput (fun c hc => by rw [hback.copies_eq hc]) ?_⟩
      rcases hsighted with hrefuses | hstops | hunsent | hsighted
      · exact absurd hcreate hrefuses
      · exact absurd hopen hstops
      · exact absurd hsent (hunsent.not_sent hq)
      · exact hsighted

lemma Watches.touched (h : Watches s call s') (hs : Consistent s) (hidle : call.Idle)
    (hfiles : FilesKept s.fs s'.fs) (hsame : SameInodes s.fs s'.fs)
    (htouched : Touched p s.fs.tree s'.fs.tree) : Consistent s' := by
  have hgiven : Inodes.Given s.fs.inodes s'.fs.inodes := hsame ▸ hs.wf.given_refl
  refine ⟨hfiles.wired hs.wired, hgiven.wf, htouched.toRefiled.rooted hs.rooted, fun i => ?_⟩
  have hself := hs.mirrors i
  have hcontents : s'.contents i = (s.contents i).or (s'.fs.stored i) := by
    rw [h.contents, Reference.apply]
    split_ifs
    · rw [hidle.edit]
    · rfl
  have hcopies : s'.fs.shared.copies i = s.fs.shared.copies i := by rw [hfiles.shared]
  by_cases hmade : s.fs.inodes.getPath i = some p ∧ s.fs.tree p = none
  · -- the file was not there, and so it was not open
    obtain ⟨hp, hnone⟩ := hmade
    have hclosed : s.fs.shared.copies i = none := by
      by_contra hlive
      exact hself.present p hp hlive hnone
    refine .adopted (hcopies.trans hclosed) ?_ hgiven.wf.getPath_of_le hcontents
    rw [← hself.settled_of_none hp hclosed, hnone]
    rfl
  · refine hself.frame hgiven.next hcopies ?_ ?_ hgiven.wf.getPath_of_le hcontents
    · intro fh hfh hflushed
      rw [hfiles.shared, h.flushed, hidle.flushed]
      exact ⟨hfh, hflushed⟩
    · intro q hq
      rw [hsame] at hq
      by_cases hpq : q = p
      · subst hpq
        exact ⟨q, hq, htouched.data fun hnone => hmade ⟨hq, hnone⟩, htouched.kept⟩
      · exact ⟨q, hq, by rw [htouched.other q hpq], by rw [htouched.other q hpq]; exact id⟩

lemma Watches.settles_same (h : Watches s call s') (hs : Consistent s)
    (hflushed : s'.flushed = fun _ => false) (hwired : s'.fs.Wired 0)
    (hgiven : Inodes.Given s.fs.inodes s'.fs.inodes) (htree : s'.fs.tree = s.fs.tree)
    (hshared : s'.fs.shared = s.fs.shared) : Backed s'.fs ∧ Resolves s.fs s'.fs := by
  refine ⟨?_, .of_shared hgiven hshared⟩
  cases htarget : call.request.target s.fs with
  | some j => exact h.backed hs hflushed hwired hgiven htarget (.kept htree hshared)
  | none =>
    have hnone : ∀ j, call.request.target s.fs ≠ some j := by simp [htarget]
    exact (h.consistent hs hwired hgiven (Or.inl htree) fun j hj => absurd hj (hnone j)).backed

lemma setattr_wired (host : Host) (j : ℕ) (size : Option ℕ) (atime mtime : Option TimeOrNow)
    (hw : w.Wired 0) :
    Ends (AdbFs.setattr host j size atime mtime) w (fun _ v => v.Wired 0) fun _ v => v.Wired 0 := by
  cases size with
  | none =>
    exact (setattr_touched host j atime mtime w).imp (fun _ _ hv => hv.1.wired hw)
      fun _ _ hv => hv.1.wired hw
  | some n =>
    apply ends_getPath.mpr
    refine ⟨fun p _ => ?_, fun _ => hw⟩
    apply ends_bind.mpr
    apply ((truncate_cases host n hw).and (truncate_returns host ⟨0, hw⟩ j p n)).imp
    · rintro _ u ⟨⟨c, w₁, q, -, -, -, hback⟩, -⟩
      exact ((quiet_afterResize host j p atime mtime).ends u).imp
        (fun _ _ hv => hv.wired hback.wired) fun _ _ hv => hv.wired hback.wired
    · rintro e u ⟨⟨hunheld, -, -⟩ | ⟨c, w₁, -, -, -, hback, -⟩, hpanic⟩
      · exact hunheld.wired
      · exact (hback hpanic).wired

lemma Serves.given (h : Serves w call w') (hw : w.inodes.WF) (hasked : Asked w call.request)
    (hrename : ¬ call.request.IsRename) : Inodes.Given w.inodes w'.inodes := by
  obtain ⟨request, host, reply⟩ := call
  have hsnd : (AdbFs.handle host request w).2 = w' := serves_eq h
  have hsame : ∀ {x : FsM Phone Errno Reply}, x = AdbFs.handle host request → Keeps SameInodes x →
      Inodes.Given w.inodes w'.inodes := by
    rintro _ rfl hx
    have hinodes : (AdbFs.handle host request w).2.inodes = w.inodes := hx.holds w
    rw [hsnd] at hinodes
    exact hinodes ▸ hw.given_refl
  cases request with
  | getattr i =>
    have hlooks : Looks w (AdbFs.handle host (.getattr i) w).2 := (looks_getattr host i).holds w
    rw [hsnd] at hlooks
    exact hlooks.2 ▸ hw.given_refl
  | lookup parent name =>
    have hlooks : LooksUp parent name w (AdbFs.handle host (.lookup parent name) w).2 :=
      ends_iff.mp (lookup_looks host parent name w)
    rw [hsnd] at hlooks
    exact hlooks.given hw
  | «open» i => exact hsame rfl (keeps_open host i)
  | read fh offset size => exact hsame rfl (keeps_readFile host fh offset size)
  | write fh offset data => exact hsame rfl (keeps_write host fh offset data)
  | flush fh => exact hsame rfl (sameInodes_flush fh)
  | setattr i size atime mtime fh => exact hsame rfl (sameInodes_setattr host i size atime mtime)
  | create parent name =>
    cases hdir : w.inodes.getPath parent with
    | none =>
      have heq : w = w' := (congrArg Prod.snd (create_of_orphan host name hdir)).symm.trans hsnd
      exact heq ▸ hw.given_refl
    | some dir =>
      have hassigned := ends_iff.mp (create_inodes host name hdir)
      have hsnd' : (AdbFs.create host parent name w).2 = w' := hsnd
      rw [hsnd'] at hassigned
      rw [hassigned]
      exact hw.given_assigned (canonical_childPath (hw.canonical parent dir hdir) name)
  | rename => exact absurd trivial hrename
  | _ => exact hasked.elim

lemma rename_refused {parent newparent : ℕ} {name newname : Bytes} (w : PhoneFs) :
    Ends (AdbFs.rename host parent name newparent newname) w (fun r _ => r = .ok)
      fun _ v => v.inodes = w.inodes := by
  apply ends_getPath.mpr
  refine ⟨fun source _ => ?_, fun _ => rfl⟩
  apply ends_getPath.mpr
  refine ⟨fun target _ => ?_, fun _ => rfl⟩
  apply ends_bind.mpr
  apply ends_device.mpr
  exact ends_of_apply (fun _ _ _ => rfl) fun _ _ _ => rfl

lemma Watches.settles_setattr {size : Option ℕ} {atime mtime : Option TimeOrNow} {g : Option ℕ}
    (h : Watches s ⟨.setattr j size atime mtime g, host, reply⟩ s') (hs : Consistent s)
    (hflushed : s'.flushed = fun _ => false)
    (hsmooth : Smooth s.fs ⟨.setattr j size atime mtime g, host, reply⟩ s'.fs ∨
      FailsSoftly s.fs ⟨.setattr j size atime mtime g, host, reply⟩) :
    Backed s'.fs ∧ Resolves s.fs s'.fs := by
  have hinodes : SameInodes s.fs s'.fs := h.holds (sameInodes_setattr host j size atime mtime)
  have hgiven : Inodes.Given s.fs.inodes s'.fs.inodes := hinodes ▸ hs.wf.given_refl
  have hsnd : (AdbFs.setattr host j size atime mtime s.fs).2 = s'.fs := serves_eq h.serves
  cases size with
  | none =>
    obtain ⟨hfiles, p, hp⟩ := hsnd ▸ ends_iff.mp (setattr_touched host j atime mtime s.fs)
    have hidle : Call.Idle ⟨.setattr j none atime mtime g, host, reply⟩ :=
      ⟨fun _ => rfl, fun _ => rfl⟩
    exact ⟨(h.touched hs hidle hfiles hinodes hp).backed, .of_shared hgiven hfiles.shared⟩
  | some n =>
    rcases hsmooth with (heq | ⟨-, hinert⟩) | hsoft
    · have hremade := ends_iff.mp (setattr_remade host j n atime mtime hs)
      rw [hsnd] at hremade
      obtain ⟨hwired, hremade⟩ := hremade hinodes heq
      exact h.settles hs hflushed hwired hgiven rfl hremade
    · have hwired := ends_iff.mp (setattr_wired host j (some n) atime mtime hs.wired)
      rw [hsnd] at hwired
      exact h.settles_same hs hflushed hwired hgiven hinert.tree hinert.shared
    · have hremade := ends_iff.mp (setattr_remade_told host j n atime mtime hs hsoft.honest)
      rw [hsnd] at hremade
      obtain ⟨hwired, hremade⟩ := hremade hinodes
      exact h.settles hs hflushed hwired hgiven rfl hremade

lemma Watches.settles_create {parent : ℕ} {name : KernelName}
    (h : Watches s ⟨.create parent name, host, reply⟩ s') (hs : Consistent s)
    (hflushed : s'.flushed = fun _ => false)
    (hsmooth : Smooth s.fs ⟨.create parent name, host, reply⟩ s'.fs ∨
      FailsSoftly s.fs ⟨.create parent name, host, reply⟩) :
    Backed s'.fs ∧ Resolves s.fs s'.fs := by
  have hgiven := h.serves.given hs.wf trivial fun hrename => hrename
  have hsnd : (AdbFs.create host parent name s.fs).2 = s'.fs := serves_eq h.serves
  cases hdir : s.fs.inodes.getPath parent with
  | none =>
    have heq : s.fs = s'.fs := (congrArg Prod.snd (create_of_orphan host name hdir)).symm.trans hsnd
    exact h.settles_same hs hflushed (heq ▸ hs.wired) hgiven (by rw [heq]) (by rw [heq])
  | some dir =>
    have hassigned := ends_iff.mp (create_inodes host name hdir)
    rw [hsnd] at hassigned
    have htarget : Request.created s.fs parent name =
        some (s.fs.inodes.getOrAssignIno (childPath dir name)).1 := by
      rw [Request.created, hdir, Option.map_some]
    rcases hsmooth with (heq | ⟨⟨e, he⟩, hinert⟩) | hsoft
    · have hremade := ends_iff.mp (create_remade host name hs hdir rfl rfl)
      rw [hsnd] at hremade
      obtain ⟨hwired, hremade⟩ := hremade hassigned heq
      exact h.settles hs hflushed hwired hgiven htarget hremade
    · have hends : Ends (AdbFs.create host parent name) s.fs (fun _ _ => s'.fs.Wired 0)
          fun _ _ => s'.fs.Wired 0 := by
        apply ((create_ends host name hs.wired hdir rfl rfl).and h.serves.ends).imp
        · rintro _ v ⟨⟨-, hopened, -⟩, -, rfl⟩
          exact hopened.wired
        · rintro e' v ⟨⟨-, hwired, -⟩ | ⟨-, -, dirty, spare, hback, hzero, -⟩, hreply, rfl⟩
          · exact hwired
          · obtain rfl : spare = 0 := by
              apply hzero
              rintro rfl
              dsimp only at he hreply
              rw [he] at hreply
              simp [replyTo] at hreply
            exact hback.wired
      exact h.settles_same hs hflushed (ends_iff.mp hends) hgiven hinert.tree hinert.shared
    · have hremade := ends_iff.mp
        (create_remade_told host name hs hsoft.honest hsoft.readable hdir rfl rfl)
      rw [hsnd] at hremade
      obtain ⟨hwired, hremade⟩ := hremade hassigned
      exact h.settles hs hflushed hwired hgiven htarget hremade

lemma Watches.settles_rename {parent newparent flags : ℕ} {name newname : KernelName}
    (h : Watches s ⟨.rename parent name newparent newname flags, host, reply⟩ s')
    (hs : Consistent s) (hflushed : s'.flushed = fun _ => false)
    (hsource : Asked s.fs (.rename parent name newparent newname flags))
    (hdir : NoDirTarget s.fs (.rename parent name newparent newname flags))
    (hsmooth : Smooth s.fs ⟨.rename parent name newparent newname flags, host, reply⟩ s'.fs ∨
      FailsSoftly s.fs ⟨.rename parent name newparent newname flags, host, reply⟩) :
    Backed s'.fs ∧ Resolves s.fs s'.fs := by
  have hfiles : FilesKept s.fs s'.fs := h.holds (quiet_rename host parent name newparent newname)
  rcases hsmooth with (heq | ⟨⟨e, he⟩, hinert⟩) | hsoft
  · refine ⟨(h.rename hs heq hsource hdir).backed, ?_⟩
    have hends : Ends (AdbFs.rename host parent name newparent newname) s.fs
        (fun _ _ => Resolves s.fs s'.fs) fun _ _ => Resolves s.fs s'.fs := by
      apply ((rename_obeyed hs.wf hdir).and h.serves.ends).imp
      · rintro _ v ⟨hdone, -, rfl⟩
        obtain ⟨f, g, -, hdone⟩ := hdone heq
        exact hdone.resolves hs.wf hfiles.shared
      · rintro _ v ⟨hsame, -, rfl⟩
        have hsame := hsame heq
        exact .of_shared (hsame ▸ hs.wf.given_refl) hfiles.shared
    exact ends_iff.mp hends
  · have hends : Ends (AdbFs.rename host parent name newparent newname) s.fs
        (fun _ _ => s'.fs.inodes = s.fs.inodes) fun _ _ => s'.fs.inodes = s.fs.inodes := by
      apply ((rename_refused s.fs).and h.serves.ends).imp
      · rintro r v ⟨rfl, hreply, -⟩
        dsimp only at he hreply
        rw [he] at hreply
        simp at hreply
      · rintro _ v ⟨hinodes, -, rfl⟩
        exact hinodes
    have hinodes := ends_iff.mp hends
    exact h.settles_same hs hflushed (hfiles.wired hs.wired) (hinodes ▸ hs.wf.given_refl)
      hinert.tree hinert.shared
  · have hsound : Sound Phone.Honest s.fs := ⟨hs.wf, hsoft.honest⟩
    have hends : Ends (AdbFs.rename host parent name newparent newname) s.fs
        (fun _ _ => Backed s'.fs ∧ Resolves s.fs s'.fs)
        fun _ _ => Backed s'.fs ∧ Resolves s.fs s'.fs := by
      apply (((rename_ends host hsound parent newparent name newname).and
        (rename_halfway host parent newparent name newname hsoft.honest)).and h.serves.ends).imp
      · rintro _ v ⟨⟨⟨-, f, g, hf, hg, hfrom, hto, hr⟩, -⟩, -, rfl⟩
        obtain ⟨fate, a, hp⟩ := hr.performed
        have ha := hsoft.sent f g hf hg hfrom hto
        obtain ⟨-, hnotDir, hmoved⟩ :=
          perform_mv_onto hf hg ha.ne_nil ha.symm.ne_nil (hdir _ _ hfrom hto) hp
        have hdone : RenameDone host.order f g s.fs s'.fs :=
          ⟨hf, hg, ha, hnotDir, hmoved, hr.inodes, hr.cache⟩
        obtain ⟨j, hj⟩ := hsource _ hfrom
        exact ⟨(h.renamed hs hj hdone).backed, hdone.resolves hs.wf hfiles.shared⟩
      · rintro e v ⟨⟨⟨-, hinodes, -⟩, hhalf⟩, -, rfl⟩
        refine h.settles_same hs hflushed (hfiles.wired hs.wired) (hinodes ▸ hs.wf.given_refl) ?_
          hfiles.shared
        rcases hhalf with htree | ⟨source, target, hfrom, hto, hbreaks⟩
        · exact htree
        · obtain ⟨i, hi⟩ := hsource source hfrom
          refine absurd hbreaks ((hsoft.clean source target hfrom hto).2 (Or.inr ⟨i, source, hi, ?_⟩))
          simp [rebase]
    exact ends_iff.mp hends

lemma Smooth.refreshes (h : Smooth w call w') (hserves : Serves w call w')
    (hasked : Asked w call.request) (hdir : NoDirTarget w call.request) : Refreshes w w' := by
  rcases h with heq | ⟨-, hinert⟩
  · have hfollows := handle_follows call.host w call.request hdir hasked.legibleDir
    rw [serves_eq hserves] at hfollows
    exact hfollows.refreshes heq
  · exact .of_same hinert.tree hinert.cache

lemma FailsSoftly.refreshes (h : FailsSoftly w call) (hserves : Serves w call w') (hw : Backed w) :
    Refreshes w w' := by
  obtain ⟨contents, hs⟩ := hw
  have hrefreshes := handle_inStep call.host ⟨hs.wf, h.honest⟩ ⟨0, hs.wired⟩ h.sent h.clean
  rwa [serves_eq hserves] at hrefreshes

lemma Watches.settled_flush {fh : ℕ} (h : Watches s ⟨.flush fh, host, reply⟩ s')
    (hs : Consistent s) (hsighted : Sighted s.fs) : Settled s'.fs := by
  have hsighted' : Sighted (AdbFs.flush fh s.fs).2 := ends_iff.mp (flush_sighted hs.wired hsighted)
  have hsnd : (AdbFs.flush fh s.fs).2 = s'.fs := serves_eq h.serves
  rw [hsnd] at hsighted'
  exact ⟨(h.flush hs).backed, hsighted'⟩

lemma Watches.settled (h : Watches s call s') (hs : Consistent s)
    (hflushed : s.flushed = fun _ => false) (hsighted : Sighted s.fs)
    (hordinary : Ordinary s.fs call) : Settled s'.fs := by
  obtain ⟨request, host, reply⟩ := call
  obtain ⟨hasked, hdir, hsmooth⟩ := hordinary
  by_cases hflush : ∃ fh, request = .flush fh
  · obtain ⟨fh, rfl⟩ := hflush
    exact h.settled_flush hs hsighted
  · have hsmooth : Smooth s.fs ⟨request, host, reply⟩ s'.fs ∨ FailsSoftly s.fs ⟨request, host, reply⟩ := by
      have hsmooth := hsmooth.resolve_left hflush
      rwa [h.serves] at hsmooth
    have hrefreshes : Refreshes s.fs s'.fs :=
      hsmooth.elim (fun hsmooth => hsmooth.refreshes h.serves hasked hdir)
        fun hsoft => hsoft.refreshes h.serves hs.backed
    have hgiven : ¬ request.IsRename → Inodes.Given s.fs.inodes s'.fs.inodes :=
      h.serves.given hs.wf hasked
    suffices hboth : Backed s'.fs ∧ Resolves s.fs s'.fs from
      ⟨hboth.1, hsighted.of_refreshes hrefreshes hboth.2⟩
    cases request with
    | getattr i =>
      have hfiles : FilesKept s.fs s'.fs := h.holds (quiet_getattr host i)
      have hlooks : Looks s.fs s'.fs := h.holds (looks_getattr host i)
      exact ⟨(h.looking hs ⟨fun _ => rfl, fun _ => rfl⟩ hlooks hfiles).backed,
        .of_shared (hgiven id) hfiles.shared⟩
    | lookup parent name =>
      have hfiles : FilesKept s.fs s'.fs := h.holds (quiet_lookup host parent name)
      exact ⟨(h.lookup hs).backed, .of_shared (hgiven id) hfiles.shared⟩
    | «open» i =>
      refine ⟨(h.open hs).backed, .of_copies (hgiven id) ?_⟩
      have hcopies := ends_iff.mp (open_copies host i hs.wired)
      have hsnd : (AdbFs.open host i s.fs).2 = s'.fs := serves_eq h.serves
      rw [hsnd] at hcopies
      exact fun k c hc hdirty => ⟨c, hcopies k c hc, hdirty⟩
    | read fh offset size =>
      have hfiles : FilesKept s.fs s'.fs := h.holds (keeps_readFile host fh offset size)
      have hlooks : Looks s.fs s'.fs := h.holds (keeps_readFile host fh offset size)
      exact ⟨(h.looking hs ⟨fun _ => rfl, fun _ => rfl⟩ hlooks hfiles).backed,
        .of_shared (hgiven id) hfiles.shared⟩
    | write fh offset data =>
      refine ⟨(h.write hs).backed, .of_copies (hgiven id) ?_⟩
      have hcopies := ends_iff.mp (write_copies host fh offset data hs.wired)
      have hsnd : (AdbFs.write host fh offset data s.fs).2 = s'.fs := serves_eq h.serves
      rwa [hsnd] at hcopies
    | flush fh => exact absurd ⟨fh, rfl⟩ hflush
    | setattr i size atime mtime fh =>
      exact h.settles_setattr hs (by rw [h.flushed, hflushed]; rfl) hsmooth
    | create parent name => exact h.settles_create hs (by rw [h.flushed, hflushed]; rfl) hsmooth
    | rename parent name newparent newname flags =>
      exact h.settles_rename hs (by rw [h.flushed, hflushed]; rfl) hasked hdir hsmooth
    | _ => exact hasked.elim

end Requests

def Watched.next (s : Watched) (call : Call) (w' : PhoneFs) : Watched where
  fs := w'
  contents i := (Reference.apply s.fs call s.contents i).or (w'.stored i)
  flushed := call.flushed s.flushed

/-- The requests whose replies say how long the file of an inode is. -/
def Inquires (w : PhoneFs) (i : ℕ) : Request → Prop
  | .getattr j => j = i
  | .lookup parent name => ∃ p, renameSource w parent name = some p ∧ w.inodes.getPath i = some p
  | _ => False

def Reply.size : Reply → Option ℕ
  | .attr _ a => some a.size
  | .entry _ a _ => some a.size
  | _ => none

lemma Settled.step (hs : Settled w) (hordinary : Ordinary w call) (h : Serves w call w') :
    Settled w' := by
  obtain ⟨⟨contents, hconsistent⟩, hsighted⟩ := hs
  have hwatches : Watches ⟨w, contents, fun _ => false⟩ call
      (Watched.next ⟨w, contents, fun _ => false⟩ call w') := ⟨h, fun _ => rfl, rfl⟩
  exact hwatches.settled hconsistent rfl hsighted hordinary

lemma settled_new {ops : DeviceOps Phone} (hroot : Rooted ops.tree) (cacheTtl : ℕ)
    (opts : FsOptions) : Settled (AdbFs.new ops cacheTtl opts) := by
  refine ⟨(consistent_mounted hroot cacheTtl opts).backed, fun p e he => ?_⟩
  simp [AdbFs.new, MetadataCache.new, MetadataCache.peek] at he

lemma Matches.size_eq {m : FileMeta} {b : Bytes} {o : Option Node} (h : Matches o (some m))
    (hdata : o.bind Node.data = some b) : m.size = b.length := by
  obtain ⟨n, rfl, hb⟩ := Option.bind_eq_some_iff.mp hdata
  have hsame : SameMeta n.entry.fileMeta m := h
  rw [← n.size_eq hb, ← hsame]

lemma Settled.known {c : Copy} (hs : Settled w) (hc : w.shared.copies i = some c)
    (hclean : c.dirty = false) : ∃ b, c.bytes = some b ∧ ∀ p, w.inodes.getPath i = some p →
      (w.tree p).bind Node.data = some b ∧ SightedAt w p := by
  obtain ⟨⟨contents, hconsistent⟩, hsighted⟩ := hs
  have hself := hconsistent.mirrors i
  obtain ⟨b, hb, hcontents⟩ := hself.copy c hc
  refine ⟨b, hb, fun p hp => ⟨?_, fun e he => ?_⟩⟩
  · rw [hself.settled p hp fun d hd => ?_, hcontents]
    rwa [← Option.some.inj (hc.symm.trans hd)]
  · rcases hsighted p e he with hmatches | ⟨k, d, hk, hd, hdirty⟩
    · exact hmatches
    · obtain rfl := hconsistent.wf.path_inj hk hp
      rw [← Option.some.inj (hc.symm.trans hd), hclean] at hdirty
      contradiction

/-- What an `ls` of the path says where `good` holds of the state it leaves: metadata is that of the
file, and else `Fails`, which takes no file that is there for missing. -/
structure Tells (w : PhoneFs) (p : Text) (good : DeviceOps Phone → Prop)
    (Fails : Abort DeviceError → Prop) : Prop where
  ends : Ends (getMetadata p) w.ops (fun m t => good t → Matches (w.tree p) (some m))
    fun e t => good t → Fails e
  absent : w.tree p = none → Fails (.error (.notFound p))
  missing : ∀ q, Fails (.error (.notFound q)) → w.tree p = none

/-- The `ls` found nothing there, or took the line of a file for a denial. -/
def Unseen (tree : Tree) (p : Text) (e : Abort DeviceError) : Prop :=
  tree p = none ∧ e = .error (.notFound p) ∨
    e = .error (.permissionDenied p) ∧ ∃ n, tree p = some n ∧ permissionErrSuffix <:+ n.entry.line p

lemma tells_obeyed (w : PhoneFs) (p : Text) :
    Tells w p (fun t => t.failures = w.failures) (Unseen w.tree p) where
  ends := (getMetadata_ends p w.ops).imp (fun _ _ hm heq => (hm.2.2 heq).matches)
    fun e _ he heq => (he.2.2 heq).failed e rfl
  absent hnone := Or.inl ⟨hnone, rfl⟩
  missing q hq := by
    rcases hq with ⟨hnone, -⟩ | ⟨he, -⟩
    · exact hnone
    · simp at he

lemma tells_soft (hcanonical : Canonical p) (hhonest : w.ops.adb.Honest)
    (hunderstood : w.ops.adb.Understood p) :
    Tells w p (fun _ => True) fun e => ∀ q, e = .error (.notFound q) → w.tree p = none where
  ends := (getMetadata_told hcanonical hhonest).imp (fun _ _ hm _ => hm.2)
    fun _ _ he _ q hq => he.2 q hq hunderstood
  absent hnone _ _ := hnone
  missing q hq := hq q rfl

section Replies

variable {good : DeviceOps Phone → Prop} {Fails : Abort DeviceError → Prop}
  (htells : Tells w p good Fails) (hsighted : SightedAt w p)
include htells hsighted

lemma fetchMeta_sighted (host : Host) :
    Ends (fetchMeta host p) w (fun m t => good t.ops → Matches (w.tree p) (some m))
      fun e t => good t.ops → Fails e := by
  apply ends_bind.mpr
  apply ends_lift.mpr
  rcases w.cache.get_cases p host.now with ⟨e, hget, hpeek⟩ | ⟨hmiss, -⟩
  · have hmatches := hsighted e hpeek
    rw [hget]
    cases e with
    | some m => exact fun _ => hmatches
    | none =>
      intro _
      apply htells.absent
      cases htree : w.tree p with
      | none => rfl
      | some n =>
        rw [htree] at hmatches
        exact hmatches.elim
  · rw [hmiss]
    apply ends_bind.mpr
    apply ends_attempt.mpr
    apply ends_onDevice.mpr
    apply htells.ends.imp
    · intro m t hm
      apply ends_bind.mpr
      apply ends_update.mpr
      exact hm
    · rintro (e | _) t he
      · cases e with
        | notFound q =>
          apply ends_bind.mpr
          apply ends_update.mpr
          exact he
        | _ => exact he
      · exact he

variable {b : Bytes} (hdata : (w.tree p).bind Node.data = some b)
include hdata

lemma getattr_sized (host : Host) (hp : w.inodes.getPath i = some p) :
    Ends (AdbFs.getattr host i) w (fun r t => good t.ops → r.size = some b.length)
      fun _ t => good t.ops → ∃ e, Fails e := by
  apply ends_getPath.mpr
  refine ⟨fun q hq => ?_, fun hnone => absurd (hp.symm.trans hnone) (by simp)⟩
  obtain rfl := Option.some.inj (hp.symm.trans hq)
  apply ends_bind.mpr
  apply ends_mapError.mpr
  apply (fetchMeta_sighted htells hsighted host).imp
  · intro m t hm hgood
    exact congrArg some ((hm hgood).size_eq hdata)
  · exact fun e _ he hgood => ⟨e, he hgood⟩

lemma lookup_sized (host : Host) {parent : ℕ} {name : Bytes}
    (hp : renameSource w parent name = some p) :
    Ends (AdbFs.lookup host parent name) w (fun r t => good t.ops → r.size = some b.length)
      fun _ t => good t.ops → ∃ e, Fails e := by
  apply ends_getPath.mpr
  refine ⟨fun dir hdir => ?_, fun hnone => by simp [renameSource, hnone] at hp⟩
  rw [renameSource, hdir, Option.map_some] at hp
  obtain rfl := Option.some.inj hp
  apply ends_bind.mpr
  apply ends_read.mpr
  apply ends_bind.mpr
  apply ends_attempt.mpr
  apply (fetchMeta_sighted htells hsighted host).imp
  · intro m t hm hgood
    exact congrArg some ((hm hgood).size_eq hdata)
  · rintro (e | _) t he
    · cases e with
      | notFound q =>
        have hnone : ∀ hgood : good t.ops, w.tree (childPath dir name) = none :=
          fun hgood => htells.missing q (he hgood)
        dsimp only
        split_ifs
        · intro hgood
          rw [hnone hgood] at hdata
          contradiction
        · exact fun hgood => ⟨_, he hgood⟩
      | _ => exact fun hgood => ⟨_, he hgood⟩
    · exact fun hgood => ⟨_, he hgood⟩

end Replies

lemma inquiry_sized {b : Bytes} {good : DeviceOps Phone → Prop} {Fails : Abort DeviceError → Prop}
    (hasks : Inquires w i call.request) (hp : w.inodes.getPath i = some p)
    (htells : Tells w p good Fails) (hsighted : SightedAt w p)
    (hdata : (w.tree p).bind Node.data = some b) :
    Ends (AdbFs.handle call.host call.request) w (fun r t => good t.ops → r.size = some b.length)
      fun _ t => good t.ops → ∃ e, Fails e := by
  obtain ⟨request, host, reply⟩ := call
  cases request with
  | getattr j =>
    obtain rfl := hasks
    exact getattr_sized htells hsighted hdata host hp
  | lookup parent name =>
    obtain ⟨q, hsource, hq⟩ := hasks
    obtain rfl := Option.some.inj (hp.symm.trans hq)
    exact lookup_sized htells hsighted hdata host hsource
  | _ => exact hasks.elim

lemma Inquires.unanswered (hasks : Inquires w i call.request) (hp : w.inodes.getPath i = none)
    (h : Serves w call w') {r : Reply} {n : ℕ} (hreply : call.reply = some r) : r.size ≠ some n := by
  have herror : ∀ e, (AdbFs.handle call.host call.request w).1 = .error e → call.reply = replyTo e := by
    intro e he
    exact (h.ends.of_error (Prod.ext he rfl)).1
  obtain ⟨request, host, reply⟩ := call
  cases request with
  | getattr j =>
    obtain rfl := hasks
    have henoent : (AdbFs.getattr host j w).1 = .error (.error .enoent) := by
      have hget : (getPath j : FsM Phone Errno Text) w = (.error (.error .enoent), w) := by
        simp [getPath, hp]
      rw [AdbFs.getattr, bind_of_error hget]
    have hreply' := herror _ henoent
    rw [hreply] at hreply'
    rw [Option.some.inj hreply']
    simp [Reply.size]
  | lookup parent name =>
    obtain ⟨q, -, hq⟩ := hasks
    simp [hp] at hq
  | _ => exact hasks.elim

lemma FailsSoftly.understood (h : FailsSoftly w call) (hasks : Inquires w i call.request)
    (hp : w.inodes.getPath i = some p) : w.ops.adb.Understood p := by
  have hclean := h.clean
  obtain ⟨request, host, reply⟩ := call
  cases request with
  | getattr j =>
    obtain rfl := hasks
    exact hclean p hp
  | lookup parent name =>
    obtain ⟨q, hsource, hq⟩ := hasks
    obtain rfl := Option.some.inj (hp.symm.trans hq)
    exact hclean p hsource
  | _ => exact hasks.elim

lemma Serves.sized {b : Bytes} (good : DeviceOps Phone → Prop) {Fails : Abort DeviceError → Prop}
    (h : Serves w call w') (hgood : good w'.ops)
    (hsized : Ends (AdbFs.handle call.host call.request) w
      (fun r t => good t.ops → r.size = some b.length) fun _ t => good t.ops → ∃ e, Fails e) :
    (∃ r, call.reply = some r ∧ r.size = some b.length) ∨
      (∃ e, Fails e) ∧ ∀ r n, call.reply = some r → r.size ≠ some n := by
  have hends : Ends (AdbFs.handle call.host call.request) w
      (fun _ _ => (∃ r, call.reply = some r ∧ r.size = some b.length) ∨
        (∃ e, Fails e) ∧ ∀ r n, call.reply = some r → r.size ≠ some n)
      fun _ _ => (∃ r, call.reply = some r ∧ r.size = some b.length) ∨
        (∃ e, Fails e) ∧ ∀ r n, call.reply = some r → r.size ≠ some n := by
    apply (hsized.and h.ends).imp
    · rintro r t ⟨hsize, hreply, rfl⟩
      exact Or.inl ⟨r, hreply, hsize hgood⟩
    · rintro e t ⟨hfails, hreply, rfl⟩
      refine Or.inr ⟨hfails hgood, fun r n hr hn => ?_⟩
      rw [hreply] at hr
      cases e with
      | error e =>
        rw [← Option.some.inj hr] at hn
        contradiction
      | panic => contradiction
  exact ends_iff.mp hends

/-- Whatever was written before, the size that is replied is that of the local file once it was
pushed. It is replied where no command fails, unless the line of the file reads as a denial. -/
theorem clean_copy_has_the_replied_size {ops : DeviceOps Phone} {cacheTtl : ℕ} {opts : FsOptions}
    {c : Copy} (hroot : Rooted ops.tree)
    (hrun : Run Serves Ordinary (AdbFs.new ops cacheTtl opts) w)
    (hc : w.shared.copies i = some c) (hclean : c.dirty = false)
    (hasks : Inquires w i call.request) (hordinary : Ordinary w call) (h : Serves w call w') :
    ∃ b, c.bytes = some b ∧ (∀ r n, call.reply = some r → r.size = some n → n = b.length) ∧
      ∀ p, w.inodes.getPath i = some p → ¬ permissionErrSuffix <:+ p → w'.failures = w.failures →
        ∃ r, call.reply = some r ∧ r.size = some b.length := by
  have hs : Settled w :=
    hrun.invariant (fun _ _ _ hs hordinary hstep => hs.step hordinary hstep)
      (settled_new hroot cacheTtl opts)
  obtain ⟨b, hb, hknown⟩ := hs.known hc hclean
  refine ⟨b, hb, ?_⟩
  cases hp : w.inodes.getPath i with
  | none => exact ⟨fun r n hr hn => absurd hn (hasks.unanswered hp h hr), fun p hp' => nomatch hp'⟩
  | some p =>
    obtain ⟨hdata, hsighted⟩ := hknown p hp
    have hobeyed := inquiry_sized hasks hp (tells_obeyed w p) hsighted hdata
    refine ⟨fun r n hreply hn => ?_, fun q hq hname heq => ?_⟩
    · have hsized : ∀ {Fails : Abort DeviceError → Prop},
          ((∃ r, call.reply = some r ∧ r.size = some b.length) ∨
            (∃ e, Fails e) ∧ ∀ r n, call.reply = some r → r.size ≠ some n) → n = b.length := by
        rintro Fails (⟨r', hr', hsize⟩ | ⟨-, hnone⟩)
        · obtain rfl := Option.some.inj (hreply.symm.trans hr')
          exact Option.some.inj (hn.symm.trans hsize)
        · exact absurd hn (hnone r n hreply)
      rcases hordinary.smooth with ⟨fh, hfh⟩ | (heq | ⟨⟨e, he⟩, -⟩) | hsoft
      · rw [hfh] at hasks
        exact hasks.elim
      · rw [h] at heq
        exact hsized (h.sized (fun t => t.failures = w.failures) heq hobeyed)
      · obtain rfl := Option.some.inj (hreply.symm.trans he)
        contradiction
      · have hcanonical : Canonical p := by
          obtain ⟨⟨contents, hconsistent⟩, -⟩ := hs
          exact hconsistent.wf.canonical i p hp
        exact hsized (h.sized (fun _ => True) trivial (inquiry_sized hasks hp (tells_soft hcanonical
          hsoft.honest (hsoft.understood hasks hp)) hsighted hdata))
    · obtain rfl := Option.some.inj hq
      rcases h.sized (fun t => t.failures = w.failures) heq hobeyed with hreplied | ⟨⟨e, hunseen⟩, -⟩
      · exact hreplied
      · rcases hunseen with ⟨hnone, -⟩ | ⟨-, n, hn, hline⟩
        · rw [hnone] at hdata
          contradiction
        · rw [hn] at hdata
          obtain ⟨⟨contents, hconsistent⟩, -⟩ := hs
          have hslash := (hconsistent.wf.canonical i p hp).slash_mem
          exact absurd (Node.denied hslash hdata hline) hname

end Sizes

section Plain

attribute [local instance] plainLibc

lemma two_bytes_size (a b : UInt8) : [a, b].length < 2 ^ 64 := by simp

def growingOps : DeviceOps Phone where
  adb := plainPhone [("/a".toList, byteNode 7)] [dirNode, dirNode, fileNode [7, 9] (two_bytes_size 7 9)]
  touchGnuMode := true
  rescan := false

def AdbFs.after (w : PhoneFs) (request : Request) : PhoneFs :=
  (AdbFs.serve (plainHost 0 1 0) request w).2

def AdbFs.call (w : PhoneFs) (request : Request) : Call :=
  ⟨request, plainHost 0 1 0, (AdbFs.serve (plainHost 0 1 0) request w).1⟩

lemma serves_after (w : PhoneFs) (request : Request) :
    Serves w (w.call request) (w.after request) := rfl

def growingA : PhoneFs :=
  ((AdbFs.new growingOps (10 ^ 9) {}).after (.lookup 1 nameA)).after (.open 2)

def grownA : PhoneFs := growingA.after (.write 1 1 [9])

lemma run_grownA : Run Serves Ordinary (AdbFs.new growingOps (10 ^ 9) {}) grownA := by
  refine ((Run.refl.tail ?_ (serves_after _ (.lookup 1 nameA))).tail ?_
    (serves_after _ (.open 2))).tail ?_ (serves_after _ (.write 1 1 [9]))
  · exact ⟨trivial, trivial, Or.inr (Or.inl (Or.inl (by decide +kernel)))⟩
  · exact ⟨trivial, trivial, Or.inr (Or.inl (Or.inl (by decide +kernel)))⟩
  · exact ⟨trivial, trivial, Or.inr (Or.inl (Or.inl (by decide +kernel)))⟩

/-- The local file has two bytes, and the reply is that there is one. -/
theorem copy_has_the_replied_size_fails_after_write :
    Run Serves Ordinary (AdbFs.new growingOps (10 ^ 9) {}) grownA ∧ Rooted growingOps.tree ∧
      Inquires grownA 2 (.getattr 2) ∧ Ordinary grownA (grownA.call (.getattr 2)) ∧
      ((grownA.shared.copies 2).bind Copy.bytes).map List.length = some 2 ∧
      (grownA.call (.getattr 2)).reply.bind Reply.size = some 1 :=
  ⟨run_grownA, rooted_plainPhone (by decide), rfl,
    ⟨trivial, trivial, Or.inr (Or.inl (Or.inl (by decide +kernel)))⟩, by decide +kernel, by decide +kernel⟩

def pushedA : PhoneFs := grownA.after (.flush 1)

/-- Once it was flushed, both are two. -/
theorem clean_copy_has_the_replied_size_after_flush :
    (pushedA.call (.getattr 2)).reply.bind Reply.size = some 2 ∧
      ∃ c b, pushedA.shared.copies 2 = some c ∧ c.bytes = some b ∧ b.length = 2 := by
  have hsize : (pushedA.call (.getattr 2)).reply.bind Reply.size = some 2 := by decide +kernel
  have hclean : (pushedA.shared.copies 2).map Copy.dirty = some false := by decide +kernel
  have hflush : Ordinary grownA (grownA.call (.flush 1)) := ⟨trivial, trivial, Or.inl ⟨1, rfl⟩⟩
  have hrun : Run Serves Ordinary (AdbFs.new growingOps (10 ^ 9) {}) pushedA :=
    run_grownA.tail hflush (serves_after _ (.flush 1))
  have hasks : Inquires pushedA 2 (pushedA.call (.getattr 2)).request := rfl
  have hordinary : Ordinary pushedA (pushedA.call (.getattr 2)) :=
    ⟨trivial, trivial, Or.inr (Or.inl (Or.inl (by decide +kernel)))⟩
  obtain ⟨c, hc, hdirty⟩ := Option.map_eq_some_iff.mp hclean
  obtain ⟨r, hr, hn⟩ := Option.bind_eq_some_iff.mp hsize
  obtain ⟨b, hb, hreplied, -⟩ := clean_copy_has_the_replied_size (rooted_plainPhone (by decide)) hrun
    hc hdirty hasks hordinary (serves_after _ (.getattr 2))
  exact ⟨hsize, c, b, hc, hb, (hreplied r 2 hr hn).symm⟩

end Plain

end Adbfs
