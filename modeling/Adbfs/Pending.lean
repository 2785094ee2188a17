import Adbfs.InStep
import Adbfs.Reference

/-! The metadata cache where writes are pending: it may be wrong about a file that a flush has
failed to push, and about no other. -/

namespace Adbfs

open Library Library.Paths Library.Action Files

section Pending

variable [Libc]

/-- The local copy of the file at the path waits to be pushed. -/
def PendingAt (w : PhoneFs) (p : Text) : Prop :=
  ∃ i c, w.inodes.getPath i = some p ∧ w.shared.copies i = some c ∧ c.dirty = true

/-- The cache is right about every file that no push is pending for. -/
def Sighted (w : PhoneFs) : Prop :=
  ∀ p e, w.cache.peek p = some e → Matches (w.tree p) e ∨ PendingAt w p

def SightedAt (w : PhoneFs) (p : Text) : Prop :=
  ∀ e, w.cache.peek p = some e → Matches (w.tree p) e

/-- What is pending stays so, or the cache is right about it. -/
def Resolves (w w' : PhoneFs) : Prop := ∀ q, PendingAt w q → PendingAt w' q ∨ SightedAt w' q

def Forgot (p : Text) (w w' : PhoneFs) : Prop :=
  ∃ v, v.cache.peek p = none ∧ w.failures ≤ v.failures ∧ Follows v w'

variable {w w' w'' : PhoneFs} {p : Text} {h : Host}

lemma Sighted.of_refreshes (hs : Sighted w) (href : Refreshes w w')
    (hresolves : Resolves w w') : Sighted w' := by
  intro q e he
  rcases href q e he with hm | ⟨he', htree⟩
  · exact Or.inl hm
  · rcases hs q e he' with hm | hpend
    · exact Or.inl (htree ▸ hm)
    · rcases hresolves q hpend with hpend' | hsighted
      · exact Or.inr hpend'
      · exact Or.inl (hsighted e he)

lemma sightedAt_of_uncached (hnone : w.cache.peek p = none) : SightedAt w p :=
  fun e he => by simp [hnone] at he

lemma SightedAt.of_refreshes (hs : SightedAt w p) (href : Refreshes w w') : SightedAt w' p := by
  intro e he
  rcases href p e he with hm | ⟨he', htree⟩
  · exact hm
  · exact htree ▸ hs e he'

lemma Resolves.of_copies (hgiven : Inodes.Given w.inodes w'.inodes)
    (hcopies : ∀ i c, w.shared.copies i = some c → c.dirty = true →
      ∃ c', w'.shared.copies i = some c' ∧ c'.dirty = true) : Resolves w w' := by
  rintro q ⟨i, c, hi, hc, hdirty⟩
  obtain ⟨c', hc', hdirty'⟩ := hcopies i c hc hdirty
  exact Or.inl ⟨i, c', hgiven.kept i q hi, hc', hdirty'⟩

lemma Resolves.of_shared (hgiven : Inodes.Given w.inodes w'.inodes)
    (hshared : w'.shared = w.shared) : Resolves w w' :=
  .of_copies hgiven fun _ c hc hdirty => ⟨c, hshared ▸ hc, hdirty⟩

lemma Forgot.sightedAt (hf : Forgot p w w') (hobeyed : w'.failures = w.failures) :
    SightedAt w' p := by
  obtain ⟨v, hnone, hle, hfollows⟩ := hf
  intro e he
  have hle' := hfollows.failures
  rcases hfollows.refreshes (by omega) p e he with hm | ⟨hsome, -⟩
  · exact hm
  · rw [hnone] at hsome
    contradiction

lemma Forgot.follows (hf : Forgot p w w') (hfollows : Follows w' w'') : Forgot p w w'' := by
  obtain ⟨v, hnone, hle, hv⟩ := hf
  exact ⟨v, hnone, hle, hv.trans hfollows⟩

lemma Follows.forgot (hfollows : Follows w w') (hf : Forgot p w' w'') : Forgot p w w'' := by
  obtain ⟨v, hnone, hle, hv⟩ := hf
  exact ⟨v, hnone, hfollows.failures.trans hle, hv⟩

lemma pushIfDirty_forgets {ino id : ℕ} (hp : w.inodes.getPath ino = some p)
    (hdirty : (w.files.heap id).dirty = true) :
    Ends (pushIfDirty ino id) w (fun _ t => Forgot p w t) fun _ t => w.failures < t.failures := by
  apply ((pushIfDirty_cache ino id w).and ((follows_pushIfDirty ino id).ends w)).imp
  · rintro _ t ⟨hcache, hfollows⟩
    refine ⟨t, ?_, hfollows.failures, Std.Refl.refl t⟩
    rw [hcache p hp hdirty, MetadataCache.peek_invalidate, if_pos rfl]
  · exact fun _ _ ht => ht.1.2 p hp

lemma truncateCopy_forgets {i id : ℕ} (hp : w.inodes.getPath i = some p) (n : ℕ) :
    Ends (truncateCopy h i id n) w (fun _ t => Forgot p w t) fun _ _ => True := by
  apply ends_bind.mpr
  apply ends_outcome.mpr
  refine ⟨fun _ => ?_, fun _ _ => trivial⟩
  apply ends_bind.mpr
  apply ends_outcome.mpr
  refine ⟨fun _ => ?_, fun _ _ => trivial⟩
  apply ends_bind.mpr
  apply ends_update.mpr
  have hset : ((w.setFiles (Files.truncate id n)).files.heap id).dirty = true := by
    simp [AdbFs.setFiles, Files.truncate, Files.setDirty]
  have hpath : (w.setFiles (Files.truncate id n)).inodes.getPath i = some p := hp
  exact (pushIfDirty_forgets hpath hset).imp (fun _ _ ht => ht) fun _ _ _ => trivial

lemma truncate_forgets {i : ℕ} (hp : w.inodes.getPath i = some p) (n : ℕ) :
    Ends (truncate h i p n) w (fun _ t => Forgot p w t) fun _ _ => True := by
  have hinodes :=
    (keeps_acquireCopy (R := SameInodes) h i p (if n = 0 then .empty else .pull)).ends w
  have hfollows := (keeps_acquireCopy (R := Follows) h i p (if n = 0 then .empty else .pull)).ends w
  apply ends_bind.mpr
  apply (hinodes.and hfollows).imp
  · rintro id u ⟨hsame, hu⟩
    have hpath : u.inodes.getPath i = some p := by rw [hsame, hp]
    apply ends_bind.mpr
    apply ends_attempt.mpr
    apply (truncateCopy_forgets hpath n).imp
    · intro _ v hv
      have hrest : Keeps Follows (releaseCopy h i id >>= fun _ => ofExcept (.ok ()) :
          FsM Phone Errno Unit) := (keeps_releaseCopy h i id).bind fun _ => keeps_ofExcept _
      apply (hrest.ends v).imp
      · exact fun _ _ ht => (hu.forgot hv).follows ht
      · exact fun _ _ _ => trivial
    · rintro (e | _) v -
      · apply ends_bind.mpr
        refine ends_of_apply (fun _ t _ => ?_) fun _ _ _ => trivial
        exact ends_ofExcept.mpr ⟨fun _ hok => by simp at hok, fun _ _ => trivial⟩
      · trivial
  · exact fun _ _ _ => trivial

lemma follows_addHandle (i id : ℕ) (m : FileMeta) :
    Keeps Follows (addHandle i id >>= fun fh => read >>= fun w =>
      pure (.created w.opts.entryTimeout (w.opts.metaToAttr i m) 0 fh w.opts.fileOpenFlags) :
        FsM Phone Errno Reply) :=
  (keeps_addHandle i id).bind fun _ => keeps_read.bind fun _ => keeps_pure _

lemma createOnDevice_forgets {i id : ℕ} (hp : w.inodes.getPath i = some p)
    (hdirty : (w.files.heap id).dirty = true) :
    Ends (createOnDevice h i id p) w
      (fun m t => Forgot p w (t.setCache (MetadataCache.insert p (some m) h.now)))
      fun _ t => (h.openFile ≠ none ∧ t.ops = w.ops) ∨ w.failures < t.failures ∨ Forgot p w t := by
  apply ends_bind.mpr
  apply ends_outcome.mpr
  refine ⟨fun _ => ?_, fun _ he => Or.inl ⟨by simp [he], rfl⟩⟩
  apply ends_bind.mpr
  apply (((pushIfDirty_forgets hp hdirty).and ((follows_pushIfDirty i id).ends w)).imp)
  · rintro _ u ⟨hforgot, -⟩
    apply (device_getMetadata_ends p u).imp
    · rintro m t ⟨ht, hm⟩
      obtain ⟨v, hnone, hle, hv⟩ := hforgot
      refine ⟨v, hnone, hle, follows_insert (hv.trans ht) fun heq => hm ?_⟩
      have hle := hv.failures
      have hle' := ht.failures
      omega
    · exact fun _ t ht => Or.inr (Or.inr (hforgot.follows ht))
  · exact fun _ _ ht => Or.inr (Or.inl ht.1)

lemma create_forgets {spare : ℕ → ℕ} {parent : ℕ} {dir : Text} (name : KernelName)
    (hw : w.inodes.WF) (hwired : w.Wired spare) (hdir : w.inodes.getPath parent = some dir) :
    Ends (AdbFs.create h parent name) w (fun _ t => Forgot (childPath dir name) w t)
      fun _ t => ((h.create ≠ none ∨ h.openFile ≠ none) ∧ t.ops = w.ops) ∨
        w.failures < t.failures ∨ Forgot (childPath dir name) w t := by
  generalize hp : childPath dir name = p
  have hassigned : (w.assigned p).Wired spare := ⟨hwired.files, hwired.fresh⟩
  apply ends_getPath.mpr
  refine ⟨fun dir' hdir' => ?_, fun hnone => absurd (hdir.symm.trans hnone) (by simp)⟩
  obtain rfl := Option.some.inj (hdir.symm.trans hdir')
  dsimp only
  rw [hp]
  apply ends_bind.mpr
  apply ends_lift.mpr
  dsimp only
  generalize hi : (w.inodes.getOrAssignIno p).1 = i
  have hpath : (w.assigned p).inodes.getPath i = some p := hi ▸ hw.getPath_assigned
  apply ends_bind.mpr
  apply (acquireCopy_ends hassigned i p .empty).imp
  · rintro id u ⟨c, hholds, hacquires⟩
    obtain ⟨rfl, hops⟩ : c = ⟨some [], true⟩ ∧ u.ops = w.ops := by
      cases hacquires with
      | empty _ hops => exact ⟨rfl, hops⟩
    have hdirty : (u.files.heap id).dirty = true :=
      (congrArg Copy.dirty (hholds.wired.copy_eq hholds.lookup hholds.copies_eq)).symm
    have hpath' : u.inodes.getPath i = some p := by rw [hholds.within.inodes, hpath]
    have hfrom : ∀ {t}, Forgot p u t → Forgot p w t := by
      rintro t ⟨v, hnone, hle, hv⟩
      refine ⟨v, hnone, ?_, hv⟩
      rwa [AdbFs.failures, ← hops]
    apply ends_bind.mpr
    apply ends_attempt.mpr
    apply (createOnDevice_forgets hpath' hdirty).imp
    · intro m v hforgot
      apply ends_bind.mpr
      apply ends_update.mpr
      apply ((follows_addHandle i id m).ends _).imp
      · exact fun _ _ ht => hfrom (hforgot.follows ht)
      · exact fun _ _ ht => Or.inr (Or.inr (hfrom (hforgot.follows ht)))
    · intro e v hv
      have hleft : ∀ t, SameOps v t → Follows v t →
          ((h.create ≠ none ∨ h.openFile ≠ none) ∧ t.ops = w.ops) ∨ w.failures < t.failures ∨
            Forgot p w t := by
        intro t hsame hfollows
        rcases hv with ⟨hopen, heq⟩ | hlt | hforgot
        · exact Or.inl ⟨Or.inr hopen, hsame.trans (heq.trans hops)⟩
        · right; left
          rw [AdbFs.failures, ← hops, AdbFs.failures, show t.ops = v.ops from hsame]
          exact hlt
        · exact Or.inr (Or.inr (hfrom (hforgot.follows hfollows)))
      cases e with
      | error e =>
        apply ends_bind.mpr
        apply (((sameOps_releaseCopy i id).ends v).and
          ((keeps_releaseCopy (R := Follows) h i id).ends v)).imp
        · exact fun _ t ht => hleft t ht.1 ht.2
        · exact fun _ t ht => hleft t ht.1 ht.2
      | panic => exact hleft v rfl (Std.Refl.refl v)
  · rintro e u ⟨-, -, hrefuses⟩
    left
    cases hrefuses with
    | empty hcreate hops => exact ⟨Or.inl hcreate, hops⟩

section Told

variable {i id : ℕ} {spare : ℕ → ℕ}

lemma createOnDevice_sighted {c : Copy} (hcanonical : Canonical p) (hw : Sound Phone.Honest w)
    (hwired : w.Wired spare) (hi : w.files.openCopies.lookup i = some id)
    (hc : w.shared.copies i = some c) (hdirty : c.dirty = true)
    (hp : w.inodes.getPath i = some p) :
    Ends (createOnDevice h i id p) w
      (fun m t => SightedAt (t.setCache (MetadataCache.insert p (some m) h.now)) p)
      fun e t => h.openFile ≠ none ∨ Unsent i c.bytes w e t ∨ SightedAt t p := by
  have hheap : (w.files.heap id).dirty = true :=
    (congrArg Copy.dirty (hwired.copy_eq hi hc)).symm.trans hdirty
  apply ends_bind.mpr
  apply ends_outcome.mpr
  refine ⟨fun _ => ?_, fun _ he => Or.inl (by simp [he])⟩
  apply ends_bind.mpr
  apply (((pushIfDirty_cache i id w).and (ends_pushIfDirty hwired hi hc)).and
    ((grows_pushIfDirty (D := Phone.Honest) i id).ends w)).imp
  · rintro _ u ⟨⟨hcache, -⟩, hgrows⟩
    have hforgot : SightedAt u p := by
      apply sightedAt_of_uncached
      rw [hcache p hp hheap, MetadataCache.peek_invalidate, if_pos rfl]
    apply (device_getMetadata_told hcanonical (hgrows hw).1.device).imp
    · intro m t ht e he
      change (t.cache.insert p (some m) h.now).peek p = some e at he
      rw [MetadataCache.peek_insert, if_pos rfl] at he
      exact Option.some.inj he ▸ ht.2
    · exact fun _ t ht => Or.inr (Or.inr (hforgot.of_refreshes ht))
  · exact fun _ _ ht => Or.inr (Or.inl ht.1.2.unsent)

lemma create_sighted {parent : ℕ} {dir : Text} (name : KernelName) (hw : Sound Phone.Honest w)
    (hwired : w.Wired spare) (hdir : w.inodes.getPath parent = some dir)
    (hp : childPath dir name = p) (hi : (w.inodes.getOrAssignIno p).1 = i) :
    Ends (AdbFs.create h parent name) w (fun _ t => SightedAt t p)
      fun e t => h.create ≠ none ∨ h.openFile ≠ none ∨ Unsent i (some []) (w.assigned p) e t ∨
        SightedAt t p := by
  have hcanonical : Canonical p := hp ▸ hw.canonical_child hdir name
  have hassigned : (w.assigned p).Wired spare := ⟨hwired.files, hwired.fresh⟩
  have hsound : Sound Phone.Honest (w.assigned p) := ⟨hw.wf.getOrAssignIno hcanonical, hw.device⟩
  have hpath : (w.assigned p).inodes.getPath i = some p := hi ▸ hw.wf.getPath_assigned
  apply ends_getPath.mpr
  refine ⟨fun dir' hdir' => ?_, fun hnone => absurd (hdir.symm.trans hnone) (by simp)⟩
  obtain rfl := Option.some.inj (hdir.symm.trans hdir')
  dsimp only
  rw [hp]
  apply ends_bind.mpr
  apply ends_lift.mpr
  dsimp only
  rw [hi]
  apply ends_bind.mpr
  apply ((acquireCopy_ends hassigned i p .empty).and
    ((keeps_acquireCopy (R := InStep) h i p .empty).ends (w.assigned p))).imp
  · rintro id u ⟨⟨c, hholds, hacquires⟩, hinStep⟩
    obtain ⟨rfl, hops⟩ : c = ⟨some [], true⟩ ∧ u.ops = w.ops := by
      cases hacquires with
      | empty _ hops => exact ⟨rfl, hops⟩
    have hinodes : u.inodes = (w.assigned p).inodes := hholds.within.inodes
    apply ends_bind.mpr
    apply ends_attempt.mpr
    apply ((createOnDevice_sighted hcanonical (hinStep hsound).1 hholds.wired hholds.lookup
      hholds.copies_eq rfl (by rw [hinodes, hpath])).and (ends_createOnDevice h hholds.wired
        hholds.lookup hholds.copies_eq rfl)).imp
    · rintro m v ⟨hv, -⟩
      apply ends_bind.mpr
      apply ends_update.mpr
      have hrest : Keeps Still (addHandle i id >>= fun fh => read >>= fun w =>
          pure (.created w.opts.entryTimeout (w.opts.metaToAttr i m) 0 fh w.opts.fileOpenFlags) :
            FsM Phone Errno Reply) :=
        (keeps_addHandle i id).bind fun _ => keeps_read.bind fun _ => keeps_pure _
      apply (hrest.ends _).imp
      · exact fun _ _ ht => hv.of_refreshes ht.refreshes
      · exact fun _ _ ht => Or.inr (Or.inr (Or.inr (hv.of_refreshes ht.refreshes)))
    · rintro e v ⟨hv, ⟨dirty, hheld, -⟩, -⟩
      have hleft : ∀ t, SameOps v t → Still v t → h.create ≠ none ∨ h.openFile ≠ none ∨
          Unsent i (some []) (w.assigned p) e t ∨ SightedAt t p := by
        intro t hsame hstill
        rcases hv with hopen | hunsent | hsighted
        · exact Or.inr (Or.inl hopen)
        · exact Or.inr (Or.inr (Or.inl ((hunsent.of_start hinodes hops).of_ops hsame)))
        · exact Or.inr (Or.inr (Or.inr (hsighted.of_refreshes hstill.refreshes)))
      cases e with
      | error e =>
        apply ends_bind.mpr
        apply ((((sameOps_releaseCopy i id).ends v).and
          ((keeps_releaseCopy (R := Still) h i id).ends v)).and
            (releaseCopy_ends hheld.wired hheld.lookup)).imp
        · exact fun _ t ht => hleft t ht.1.1 ht.1.2
        · exact fun _ _ ht => ht.2.elim
      | panic => exact hleft v rfl (Std.Refl.refl v)
  · rintro e u ⟨⟨-, -, hrefuses⟩, -⟩
    left
    cases hrefuses with
    | empty hcreate hops => simp [hcreate]

end Told

section Requests

variable {i fh : ℕ}

lemma open_copies (h : Host) (i : ℕ) (hw : w.Wired 0) :
    Ends (AdbFs.open h i) w
      (fun _ t => ∀ k d, w.shared.copies k = some d → t.shared.copies k = some d)
      fun _ t => ∀ k d, w.shared.copies k = some d → t.shared.copies k = some d := by
  have hsame : ∀ {t : PhoneFs}, t.shared = w.shared →
      ∀ k d, w.shared.copies k = some d → t.shared.copies k = some d := by
    intro t hshared k d hd
    rw [hshared, hd]
  apply (open_ends h hw).imp
  · rintro _ t ⟨p, c, u, -, hacquires, hopened, -⟩ k d hd
    by_cases hk : k = i
    · subst hk
      rw [hopened.copies_eq, hacquires.live_eq hd]
    · rw [hopened.othersKept.copies k fun heq => hk (Option.some.inj heq).symm, hd]
  · rintro _ t (⟨-, hshared⟩ | ⟨p, c, u, -, hacquires, hback⟩)
    · exact hsame hshared
    · cases hacquires with
      | live hc _ => exact hsame (hback.of_live hw hc)
      | pull hnone _ _ => exact hsame (hback.of_absent hw hnone)

lemma write_copies (h : Host) (fh offset : ℕ) (data : Bytes) (hw : w.Wired 0) :
    Ends (AdbFs.write h fh offset data) w
      (fun _ t => ∀ k c, w.shared.copies k = some c → c.dirty = true →
        ∃ c', t.shared.copies k = some c' ∧ c'.dirty = true)
      fun _ t => ∀ k c, w.shared.copies k = some c → c.dirty = true →
        ∃ c', t.shared.copies k = some c' ∧ c'.dirty = true := by
  apply (write_ends h offset data hw).imp
  · rintro _ t ⟨i, id, c, n, -, hfh, -, hholds⟩ k d hd hdirty
    by_cases hk : k = i
    · subst hk
      exact ⟨_, hholds.copies_eq, rfl⟩
    · refine ⟨d, ?_, hdirty⟩
      rw [hholds.shared]
      exact (Function.update_of_ne hk _ _).trans hd
  · rintro _ t rfl k d hd hdirty
    exact ⟨d, hd, hdirty⟩

lemma flush_cache {spare : ℕ → ℕ} (hw : w.Wired spare) :
    Ends (AdbFs.flush fh) w
      (fun _ t => ∀ i c p, w.shared.handles fh = some i → w.shared.copies i = some c →
        c.dirty = true → w.inodes.getPath i = some p → t.cache = w.cache.invalidate p)
      fun _ t => t.cache = w.cache := by
  apply ends_handleOf.mpr
  refine ⟨fun o ho => ?_, fun _ => rfl⟩
  obtain ⟨hfh, hid, -⟩ := hw.opened ho
  apply ends_bind.mpr
  apply (pushIfDirty_cache o.ino o.copy w).imp
  · intro _ t ht i c p hi hc hdirty hp
    obtain rfl := Option.some.inj (hfh.symm.trans hi)
    exact ht p hp ((congrArg Copy.dirty (hw.copy_eq hid hc)).symm.trans hdirty)
  · exact fun _ _ ht => ht.1

/-- A flush that fails may leave anything at its path, and there the push is pending still. -/
lemma flush_sighted (hw : w.Wired 0) (hs : Sighted w) :
    Ends (AdbFs.flush fh) w (fun _ t => Sighted t) fun _ t => Sighted t := by
  apply ((((flush_ends hw).and (flush_cache hw)).and (flush_returns fh w)).and
    ((sameInodes_flush fh).ends w)).imp
  · rintro _ t ⟨⟨⟨⟨-, i, id, c, hfh, hid, hc, hdone⟩, hcache⟩, -⟩, hinodes⟩
    cases hdone with
    | clean _ heq => rwa [heq]
    | sent hdirty hp hsent hholds =>
      next p =>
      have hcache := hcache i c p hfh hc hdirty hp
      have hput := put_of_sent hsent
      intro q e he
      rw [hcache] at he
      obtain ⟨he, hq⟩ := MetadataCache.peek_invalidate_of_some he
      rcases hs q e he with hm | ⟨k, d, hk, hd, hpending⟩
      · left
        have hsame : t.tree q = w.tree q := hput.refiled.other q hq
        rwa [hsame]
      · right
        have hne : k ≠ i := by
          rintro rfl
          exact hq (Option.some.inj (hk.symm.trans hp))
        refine ⟨k, d, by rw [hinodes, hk], ?_, hpending⟩
        rw [hholds.shared]
        exact (Function.update_of_ne hne _ _).trans hd
  · rintro _ t ⟨⟨⟨rfl | ⟨i, id, c, hfh, -, hc, hfailed⟩, hcache⟩, hpanic⟩, hinodes⟩
    · exact hs
    · have hshared : t.shared = w.shared :=
        (hfailed.restored hpanic).shared.trans (Shared.put_self hc)
      have hpending : ∀ q, PendingAt w q → PendingAt t q := by
        rintro q ⟨k, d, hk, hd, hdirty⟩
        exact ⟨k, d, by rw [hinodes, hk], by rw [hshared, hd], hdirty⟩
      intro q e he
      rw [hcache] at he
      rcases hs q e he with hm | hpend
      · cases hfailed.unsent with
        | nowhere _ _ hops =>
          left
          rwa [AdbFs.tree, hops]
        | @refused p _ hp hsent _ =>
          by_cases hq : q = p
          · subst hq
            exact Or.inr (hpending q ⟨i, c, hp, hc, hfailed.dirty⟩)
          · left
            have hsame : t.tree q = w.tree q := (torn_of_refused hsent).refiled.other q hq
            rwa [hsame]
      · exact Or.inr (hpending q hpend)

lemma RenameDone.resolves {order : IterOrder InoEntry} {f g : List Text}
    (hdone : RenameDone order f g w w') (hw : w.inodes.WF) (hshared : w'.shared = w.shared) :
    Resolves w w' := by
  rintro q ⟨i, c, hi, hc, hdirty⟩
  have houtside : ∀ p : Text, ¬ MetadataCache.dirPrefix p <+: q → ¬ (p ++ ['/']) <+: q := by
    intro p hp hpre
    apply hp
    rw [MetadataCache.dirPrefix]
    split_ifs
    · exact (List.prefix_append _ _).trans hpre
    · exact hpre
  cases he : w'.cache.peek q with
  | none => exact Or.inr fun e he' => by simp [he] at he'
  | some e =>
    left
    rw [hdone.cache] at he
    obtain ⟨he, hg, hg'⟩ := MetadataCache.peek_invalidatePrefix_of_some he
    obtain ⟨-, hf, hf'⟩ := MetadataCache.peek_invalidatePrefix_of_some he
    refine ⟨i, c, ?_, by rw [hshared, hc], hdirty⟩
    rw [hdone.inodes, hw.rekeyPaths_movePath hdone.source hdone.target hdone.apart hi
      (rebase_eq_none hg (houtside _ hg')), movePath_of_none (rebase_eq_none hf (houtside _ hf'))]

end Requests

end Pending

end Adbfs
