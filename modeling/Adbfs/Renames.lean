import Adbfs.Coherence
import Adbfs.Honest
import Adbfs.Library.Resolve

namespace Adbfs

open Library Library.Paths Library.Action

section Renames

variable [Libc]

section Resolution

variable {tree : Tree} {dir p : Text} {cs rest : List Text}

omit [Libc] in
lemma canonical_parentOf (h : Canonical p) : Canonical (parentOf p) := by
  obtain ⟨cs, hcs, rfl⟩ := h
  rcases List.eq_nil_or_concat' cs with rfl | ⟨ds, n, rfl⟩
  · exact ⟨[], hcs, by decide⟩
  · exact ⟨ds, hcs.left, parentOf_concat (hcs n (by simp))⟩

lemma canonical_descend {stop : Option (Text × List Text)} (hdir : Canonical dir)
    (hcs : ∀ c ∈ cs, '/' ∉ c) (h : Phone.descend tree dir cs = some (p, stop)) :
    Canonical p ∧ ∀ target rest, stop = some (target, rest) → ∀ c ∈ rest, '/' ∉ c := by
  induction cs generalizing dir with
  | nil =>
    obtain ⟨rfl, rfl⟩ := Prod.mk.inj (Option.some.inj h)
    exact ⟨hdir, fun _ _ hstop => by simp at hstop⟩
  | cons c cs ih =>
    have hcs' : ∀ d ∈ cs, '/' ∉ d := fun d hd => hcs d (List.mem_cons_of_mem _ hd)
    rw [Phone.descend] at h
    by_cases hskip : c = [] ∨ c = ['.']
    · rw [if_pos hskip] at h
      exact ih hdir hcs' h
    rw [if_neg hskip] at h
    by_cases hup : c = ['.', '.']
    · rw [if_pos hup] at h
      exact ih (canonical_parentOf hdir) hcs' h
    rw [if_neg hup] at h
    have hname : IsName c := ⟨fun hnil => hskip (Or.inl hnil), hcs c (by simp)⟩
    have hchild := canonical_childText hdir hname
    cases hn : tree (childText dir c) with
    | none => simp [hn] at h
    | some n =>
      rw [hn] at h
      cases hlink : n.entry.link with
      | some target =>
        simp only [hlink, Option.some.injEq, Prod.mk.injEq] at h
        obtain ⟨rfl, rfl⟩ := h
        refine ⟨hdir, fun t r hstop => ?_⟩
        obtain ⟨-, rfl⟩ := Prod.mk.inj (Option.some.inj hstop)
        exact hcs'
      | none =>
        simp only [hlink] at h
        split_ifs at h
        · exact ih hchild hcs' h
        · obtain ⟨rfl, rfl⟩ := Prod.mk.inj (Option.some.inj h)
          exact ⟨hchild, fun _ _ hstop => by simp at hstop⟩

lemma canonical_follow {links : ℕ} {target : Text} (hdir : Canonical dir)
    (hrest : ∀ c ∈ rest, '/' ∉ c) (h : Phone.follow tree links dir target rest = some p) :
    Canonical p := by
  induction links generalizing dir target rest with
  | zero => simp [Phone.follow] at h
  | succ links ih =>
    have hstart : Canonical (if ['/'] <+: target then ['/'] else dir) := by
      split_ifs
      · exact ⟨[], by simp [Names], rfl⟩
      · exact hdir
    have hcs : ∀ c ∈ target.splitOn '/' ++ rest, '/' ∉ c := by
      intro c hc
      rcases List.mem_append.mp hc with hc | hc
      · exact slash_notMem_splitOn hc
      · exact hrest c hc
    rw [Phone.follow] at h
    split at h
    · simp at h
    · next heq =>
      obtain rfl := Option.some.inj h
      exact (canonical_descend hstart hcs heq).1
    · next heq =>
      obtain ⟨hdir', hrest'⟩ := canonical_descend hstart hcs heq
      exact ih hdir' (hrest' _ _ rfl) h

lemma canonical_dirAt (hp : Canonical p) (h : Phone.dirAt tree p = some dir) : Canonical dir := by
  rw [Phone.dirAt] at h
  split_ifs at h
  · exact Option.some.inj h ▸ hp
  · obtain ⟨hfollow, -⟩ := Option.filter_eq_some_iff.mp h
    obtain ⟨target, -, hfollow⟩ := Option.bind_eq_some_iff.mp hfollow
    exact canonical_follow (canonical_parentOf hp) (fun _ hc => by simp at hc) hfollow

end Resolution

lemma perform_mv {f g : List Text} (hf : Names f) (hg : Names g) (hf' : f ≠ []) (hg' : g ≠ [])
    {tree tree' : Tree} {fate : Fate} {a : Except Failure (List Text)}
    (h : Phone.perform tree fate (.mv (render f) (render g)) = some (a, tree')) :
    ∃ k, Names k ∧ Phone.mvTarget tree (render f) (render g) = render k ∧ Apart f k ∧
      tree (render f) ≠ none ∧ tree' = moveTree (render f) (render k) tree := by
  simp only [Phone.perform] at h
  split_ifs at h with hcond
  simp only [Option.some.injEq, Prod.mk.injEq] at h
  obtain ⟨hsource, -, -, -, hout, hin⟩ := hcond
  obtain ⟨k, hk, hk', htarget⟩ : ∃ k, Names k ∧ k ≠ [] ∧
      Phone.mvTarget tree (render f) (render g) = render k := by
    cases hdir : Phone.dirAt tree (render g) with
    | none => exact ⟨g, hg, hg', by rw [Phone.mvTarget, hdir]⟩
    | some dir =>
      obtain ⟨ds, hds, rfl⟩ := canonical_dirAt ⟨g, hg, rfl⟩ hdir
      obtain ⟨es, n, rfl⟩ := (List.eq_nil_or_concat' f).resolve_left hf'
      have hn : IsName n := hf n (by simp)
      refine ⟨ds ++ [n], hds.append (Names.singleton hn), by simp, ?_⟩
      rw [Phone.mvTarget, hdir]
      dsimp only
      rw [baseName_concat hn, childText_render hds]
  rw [htarget] at h hin hout
  exact ⟨k, hk, htarget, apart_of_rebase hf hk hf' hk' hout hin, hsource, h.2.symm⟩

lemma mv_told (source target : Text) {s : DeviceOps Phone} (hs : s.adb.Honest) :
    Ends (mv source target) s
      (fun _ t => ∃ fate a, Phone.perform s.tree fate (.mv source target) = some (a, t.tree))
      fun _ t => t.tree = s.tree ∨
        ∃ fate a, Phone.perform s.tree fate (.mv source target) = some (a, t.tree) := by
  apply ends_bind.mpr
  apply (runMutation_told (readCommands_mvCmd source target) (silent_mv source target) hs).imp
  · rintro _ t ⟨fate, a, hp⟩
    apply ((observes_whenRescan ((observes_rescanFile source).bind fun _ =>
      observes_rescanFile target)).ends t).imp
    · rintro _ u ⟨htree, -⟩
      rw [htree]
      exact ⟨fate, a, hp⟩
    · rintro _ u ⟨htree, -⟩
      rw [htree]
      exact Or.inr ⟨fate, a, hp⟩
  · exact fun _ _ ht => ht

structure Renamed (order : IterOrder InoEntry) (f g : List Text) (w t : PhoneFs) : Prop where
  performed : ∃ fate a,
    Phone.perform w.tree fate (.mv (render f) (render g)) = some (a, t.tree)
  inodes : t.inodes = w.inodes.rekeyPaths order (render f) (render g)
  cache : t.cache = (w.cache.invalidatePrefix (render f)).invalidatePrefix (render g)

lemma Sound.childPath {w : PhoneFs} {D : Phone → Prop} (hw : Sound D w) {parent : ℕ} {dir : Text}
    (hdir : w.inodes.getPath parent = some dir) (name : KernelName) :
    ∃ f, Names f ∧ Adbfs.childPath dir name = render f :=
  canonical_childPath (hw.wf.canonical parent dir hdir) name

structure NotRenamed (parent newparent : ℕ) (name newname : Bytes) (w t : PhoneFs) : Prop where
  inodes : t.inodes = w.inodes
  cache : t.cache = w.cache
  failed : t = w ∨ ∃ f g, Names f ∧ Names g ∧ renameSource w parent name = some (render f) ∧
    renameTarget w newparent newname = some (render g) ∧
      (∃ e, device (mv (render f) (render g)) w = (.error e, t)) ∧
        (t.tree = w.tree ∨ ∃ fate a,
          Phone.perform w.tree fate (.mv (render f) (render g)) = some (a, t.tree))

lemma rename_ends (h : Host) {w : PhoneFs} (hw : Sound Phone.Honest w) (parent newparent : ℕ)
    (name newname : KernelName) :
    Ends (AdbFs.rename h parent name newparent newname) w
      (fun _ t => Phone.Honest t.ops.adb ∧ ∃ f g, Names f ∧ Names g ∧
        renameSource w parent name = some (render f) ∧
          renameTarget w newparent newname = some (render g) ∧ Renamed h.order f g w t)
      fun _ t => Phone.Honest t.ops.adb ∧ NotRenamed parent newparent name newname w t := by
  have hself : Phone.Honest w.ops.adb ∧ NotRenamed parent newparent name newname w w :=
    ⟨hw.device, rfl, rfl, Or.inl rfl⟩
  apply ends_bind.mpr
  apply ends_bind.mpr
  apply ends_read.mpr
  apply ends_ofOption.mpr
  refine ⟨fun fromDir hfrom => ?_, fun _ => hself⟩
  apply ends_bind.mpr
  apply ends_bind.mpr
  apply ends_read.mpr
  apply ends_ofOption.mpr
  refine ⟨fun toDir hto => ?_, fun _ => hself⟩
  obtain ⟨f, hf, hsource⟩ := hw.childPath hfrom name
  obtain ⟨g, hg, htarget⟩ := hw.childPath hto newname
  have hsource' : renameSource w parent name = some (render f) := by
    rw [renameSource, hfrom, Option.map_some, hsource]
  have htarget' : renameTarget w newparent newname = some (render g) := by
    rw [renameTarget, hto, Option.map_some, htarget]
  dsimp only
  rw [hsource, htarget]
  apply ends_bind.mpr
  have hkept := (kept_mv (D := Phone.Honest) (render f) (render g)).ends w.ops
  have hmv : Ends (device (mv (render f) (render g))) w
      (fun _ t => t.ops.adb.Honest ∧ t.inodes = w.inodes ∧ t.cache = w.cache ∧ ∃ fate a,
        Phone.perform w.tree fate (.mv (render f) (render g)) = some (a, t.tree))
      fun _ t => t.ops.adb.Honest ∧ t.inodes = w.inodes ∧ t.cache = w.cache ∧
        (t.tree = w.tree ∨ ∃ fate a,
          Phone.perform w.tree fate (.mv (render f) (render g)) = some (a, t.tree)) := by
    apply ends_device.mpr
    apply ((mv_told (render f) (render g) hw.device).and hkept).imp
    · exact fun _ _ hs => ⟨hs.2 hw.device, rfl, rfl, hs.1⟩
    · exact fun _ _ hs => ⟨hs.2 hw.device, rfl, rfl, hs.1⟩
  apply hmv.remember.imp
  · rintro _ t ⟨⟨hhonest, hinodes, hcache, hp⟩, -⟩
    refine ⟨hhonest, f, g, hf, hg, hsource', htarget', hp, ?_, ?_⟩
    · exact congrArg (Inodes.rekeyPaths h.order (render f) (render g)) hinodes
    · exact congrArg (fun c => (c.invalidatePrefix (render f)).invalidatePrefix (render g)) hcache
  · rintro e t ⟨⟨hhonest, hinodes, hcache, hp⟩, hfail⟩
    exact ⟨hhonest, hinodes, hcache,
      Or.inr ⟨f, g, hf, hg, hsource', htarget', ⟨e, hfail⟩, hp⟩⟩

/-- The kernel moves nothing into itself and nothing onto what holds it. -/
def KernelSends (w : PhoneFs) : Request → Prop
  | .rename parent name newparent newname _ => ∀ f g, Names f → Names g →
      renameSource w parent name = some (render f) →
      renameTarget w newparent newname = some (render g) → Apart f g
  | _ => True

lemma sound_handle (h : Host) {w : PhoneFs} (hw : Sound Phone.Honest w) {request : Request}
    (hsent : KernelSends w request) : Sound Phone.Honest (AdbFs.handle h request w).2 := by
  by_cases hrename : request.IsRename
  · cases request with
    | rename parent name newparent newname flags =>
      apply ends_iff.mp
      apply (rename_ends h hw parent newparent name newname).imp
      · rintro _ t ⟨hdevice, f, g, hf, hg, hsource, htarget, hr⟩
        refine ⟨?_, hdevice⟩
        rw [hr.inodes]
        exact hw.wf.rekeyPaths hf hg (hsent f g hf hg hsource htarget)
      · rintro _ t ⟨hdevice, hfailed⟩
        exact ⟨hfailed.inodes ▸ hw.wf, hdevice⟩
    | _ => exact hrename.elim
  · exact ((grows_handle h request hrename).holds w hw).1

/-- The states that requests of the kernel lead to, from the start with an honest device. -/
def Served (w : PhoneFs) : Prop :=
  ∃ (ops : DeviceOps Phone) (cacheTtl : ℕ) (opts : FsOptions), ops.adb.Honest ∧
    Run Serves (fun w (c : Call) => KernelSends w c.request) (AdbFs.new ops cacheTtl opts) w

lemma Served.sound {w : PhoneFs} (h : Served w) : Sound Phone.Honest w := by
  obtain ⟨ops, cacheTtl, opts, hhonest, hrun⟩ := h
  refine Run.invariant ?_ hrun ⟨Inodes.wf_new, hhonest⟩
  intro w c w' hw hsent hserve
  have hsound := sound_handle c.host hw hsent
  rw [← serve_snd, hserve] at hsound
  exact hsound

lemma Served.serve {w : PhoneFs} (h : Served w) (host : Host) (request : Request)
    (hsent : KernelSends w request) : Served (AdbFs.serve host request w).2 := by
  obtain ⟨ops, cacheTtl, opts, hhonest, hrun⟩ := h
  exact ⟨ops, cacheTtl, opts, hhonest,
    hrun.tail (a := ⟨request, host, (AdbFs.serve host request w).1⟩) hsent rfl⟩

/-- Whatever lay at or below `f` lies at or below `g` in the same place, and so do its inodes. -/
def MovedTo (f g : List Text) (w w' : PhoneFs) : Prop :=
  ∀ s, Names s → w'.tree (render (g ++ s)) = w.tree (render (f ++ s)) ∧
    w'.tree (render (f ++ s)) = none ∧
    ∀ i, w.inodes.getPath i = some (render (f ++ s)) →
      w'.inodes.getPath i = some (render (g ++ s))

lemma Renamed.tree_eq {order : IterOrder InoEntry} {f g : List Text} {w t : PhoneFs}
    (hr : Renamed order f g w t) (hf : Names f) (hg : Names g) (ha : Apart f g)
    (honto : Phone.mvTarget w.tree (render f) (render g) = render g) :
    w.tree (render f) ≠ none ∧ t.tree = moveTree (render f) (render g) w.tree := by
  obtain ⟨fate, a, hp⟩ := hr.performed
  obtain ⟨k, hk, htarget, -, hsource, htree⟩ := perform_mv hf hg ha.ne_nil ha.symm.ne_nil hp
  obtain rfl := render_injective hk hg (htarget.symm.trans honto)
  exact ⟨hsource, htree⟩

lemma Renamed.movedTo {order : IterOrder InoEntry} {f g : List Text} {w w' : PhoneFs}
    (hr : Renamed order f g w w') (hwf : w.inodes.WF) (hf : Names f) (hg : Names g)
    (ha : Apart f g) (honto : Phone.mvTarget w.tree (render f) (render g) = render g) :
    MovedTo f g w w' := by
  obtain ⟨-, htree⟩ := hr.tree_eq hf hg ha honto
  intro s hs
  rw [htree, hr.inodes]
  exact ⟨moveTree_target hg ha hs, moveTree_source hf hg ha hs,
    fun i hi => hwf.rekeyPaths_moved hf hg ha hs hi⟩

/-- Else it would hold itself, over and over. -/
lemma not_periodic {tree : Tree} (hfinite : { p | tree p ≠ none }.Finite) {f s : List Text}
    (hf : Names f) (hs : Names s) (hne : s ≠ []) (hthere : tree (render f) ≠ none) :
    ¬ ∀ t, Names t → tree (render (f ++ (s ++ t))) = tree (render (f ++ t)) := by
  intro hsame
  have hnames : ∀ m, Names (List.replicate m s).flatten := by
    intro m c hc
    obtain ⟨l, hl, hcl⟩ := List.mem_flatten.mp hc
    exact hs c (List.eq_of_mem_replicate hl ▸ hcl)
  have hdeep : ∀ m, tree (render (f ++ (List.replicate m s).flatten)) ≠ none := by
    intro m
    induction m with
    | zero => simpa using hthere
    | succ m ih =>
      rw [List.replicate_succ, List.flatten_cons, hsame _ (hnames m)]
      exact ih
  refine Set.infinite_of_injective_forall_mem
    (f := fun m => render (f ++ (List.replicate m s).flatten)) ?_ hdeep hfinite
  intro m m' heq
  have hlists := render_injective (hf.append (hnames m)) (hf.append (hnames m')) heq
  have hlen := congrArg List.length hlists
  simp only [List.length_append, List.length_flatten, List.map_replicate, List.sum_replicate,
    smul_eq_mul, Nat.add_left_cancel_iff] at hlen
  exact Nat.eq_of_mul_eq_mul_right (List.length_pos_iff.mpr hne) hlen

/-- `mv` puts the source elsewhere, and what stays at the target is like it. -/
def LooksMoved (f g : List Text) (tree : Tree) : Prop :=
  ∃ k, Names k ∧ Phone.mvTarget tree (render f) (render g) = render k ∧ Apart g k ∧
    ∀ s, Names s → tree (render (g ++ s)) = tree (render (f ++ s))

lemma Renamed.movedTo_iff {order : IterOrder InoEntry} {f g : List Text} {w w' : PhoneFs}
    (hr : Renamed order f g w w') (hw : Sound Phone.Honest w) (hf : Names f) (hg : Names g)
    (ha : Apart f g) : MovedTo f g w w' ↔
      Phone.mvTarget w.tree (render f) (render g) = render g ∨ LooksMoved f g w.tree := by
  obtain ⟨fate, a, hp⟩ := hr.performed
  obtain ⟨k, hk, htarget, hak, hsource, htree⟩ := perform_mv hf hg ha.ne_nil ha.symm.ne_nil hp
  have hinside : ∀ s, Names s → w'.tree (render (k ++ s)) = w.tree (render (f ++ s)) :=
    fun s hs => htree ▸ moveTree_target hk hak hs
  have hperiodic := fun s => @not_periodic _ w.tree hw.device.finite f s hf
  constructor
  · intro hmoved
    by_cases hkg : k = g
    · exact Or.inl (hkg ▸ htarget)
    -- of the target and the place that `mv` took, neither lies below the other
    have hgk : ¬ g <+: k := by
      rintro ⟨s, rfl⟩
      refine hperiodic s hk.right (by rintro rfl; simp at hkg) hsource fun t ht => ?_
      rw [← hinside t ht, List.append_assoc, (hmoved _ (hk.right.append ht)).1]
    have hkg' : ¬ k <+: g := by
      rintro ⟨s, rfl⟩
      refine hperiodic s hg.right (by rintro rfl; simp at hkg) hsource fun t ht => ?_
      rw [← hinside _ (hg.right.append ht), ← List.append_assoc, (hmoved t ht).1]
    have hag : Apart g k := ⟨hgk, hkg'⟩
    refine Or.inr ⟨k, hk, htarget, hag, fun s hs => ?_⟩
    rw [← (hmoved s hs).1, htree, moveTree_apart hf hk hak ha.symm hag hg hs]
  · rintro (honto | ⟨k', hk', htarget', hag, hlike⟩)
    · exact hr.movedTo hw.wf hf hg ha honto
    · obtain rfl := render_injective hk hk' (htarget.symm.trans htarget')
      intro s hs
      rw [htree, hr.inodes, moveTree_apart hf hk hak ha.symm hag hg hs]
      exact ⟨hlike s hs, moveTree_source hf hk hak hs,
        fun i hi => hw.wf.rekeyPaths_moved hf hg ha hs hi⟩

end Renames

section Plain

attribute [local instance] plainLibc

lemma plainPhone_honest (files : List (Text × Node)) (made : List Node) :
    (plainPhone files made).Honest := by
  refine ⟨fun _ => ⟨Or.inr ⟨rfl, by decide⟩, fun _ h => (nomatch h)⟩, ?_⟩
  apply ((files.map Prod.fst).finite_toSet.insert ['/']).subset
  intro p hp
  rcases plainPhone_holds hp with hroot | ⟨f, hf, heq⟩
  · exact Or.inl hroot
  · exact Or.inr (List.mem_map.mpr ⟨f, hf, heq⟩)

def startFs (files : List (Text × Node)) : PhoneFs :=
  AdbFs.new ⟨plainPhone files [], true, false⟩ (10 ^ 9) {}

def lookupA (files : List (Text × Node)) : Option Reply × PhoneFs :=
  AdbFs.serve (plainHost 0 0 0) (.lookup 1 nameA) (startFs files)

lemma served_lookupA (files : List (Text × Node)) : Served (lookupA files).2 := by
  refine ⟨⟨plainPhone files [], true, false⟩, 10 ^ 9, {}, plainPhone_honest files [], ?_⟩
  exact Run.single (a := ⟨.lookup 1 nameA, plainHost 0 0 0, (lookupA files).1⟩) rfl trivial

def nameB : KernelName := ⟨[98], by decide⟩

def emptyDirs : List (Text × Node) := [("/a".toList, dirNode), ("/b".toList, dirNode)]

def renameAB : Request := .rename 1 nameA 1 nameB 0

lemma kernelSends_renameAB {w : PhoneFs} (hroot : w.inodes.getPath 1 = some ['/']) :
    KernelSends w renameAB := by
  intro f g hf hg hsource htarget
  rw [renameSource, hroot] at hsource
  rw [renameTarget, hroot] at htarget
  obtain rfl := render_injective (b := [['a']]) hf (by decide) (Option.some.inj hsource).symm
  obtain rfl := render_injective (b := [['b']]) hg (by decide) (Option.some.inj htarget).symm
  unfold Apart
  decide

end Plain

end Adbfs
