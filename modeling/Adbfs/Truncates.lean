import Adbfs.Coherence
import Adbfs.OpenFiles

namespace Adbfs

open Library Library.Action Files

section Later

variable {τ : Type} [AdbDevice τ] [Libc] {w w' u u' : AdbFs τ} {i fh : ℕ} {c : Copy} {call : Call}
  {h : Host}

/-- A call that neither writes to the inode, nor shortens it, nor pushes it, nor closes the handle. -/
def Spares (i fh : ℕ) (w : AdbFs τ) (call : Call) : Prop :=
  match call.request with
  | .write g _ _ => w.shared.handles g ≠ some i
  | .setattr j size _ _ _ => size = none ∨ j ≠ i
  | .create parent name => Request.created w parent name ≠ some i
  | .flush g => w.shared.handles g = some i → ∃ e, call.reply = some (.error e)
  | .release g => g ≠ fh
  | _ => True

def Sends (i : ℕ) (c : Copy) (u u' : AdbFs τ) : Prop :=
  ∃ path f, u.inodes.getPath i = some path ∧ f.getD [] = c.bytes.getD [] ∧
    pushAndSync (.copy i) f path u.ops = (.ok (), u'.ops)

/-- For those who have the inode open, nothing has happened. -/
structure Unharmed (i : ℕ) (w w' : AdbFs τ) : Prop where
  reads : ∀ fh, w.shared.handles fh = some i → ∀ h offset size,
    (AdbFs.serve h (.read fh offset size) w').1 = (AdbFs.serve h (.read fh offset size) w).1
  pending : ∀ fh c, w.shared.handles fh = some i → w.shared.copies i = some c → c.dirty = true →
    ∃ c', w'.shared.copies i = some c' ∧ c'.dirty = true
  flushes : ∀ fh c, w.shared.handles fh = some i → w.shared.copies i = some c →
    ∀ u, Run Serves (Spares i fh) w' u → ∀ g, u.shared.handles g = some i →
      ∀ h u', AdbFs.serve h (.flush g) u = (some .ok, u') →
        Sends i c u u' ∨ c.dirty = false ∧ u'.ops = u.ops

lemma serves_cases (call : Call) (hserves : AdbFs.serve h call.request w = (call.reply, w')) :
    Ends (AdbFs.handle h call.request) w (fun r u => call.reply = some r ∧ u = w') fun e u =>
      u = w' ∧ ∀ e', call.reply = some (.error e') → e ≠ .panic := by
  apply ends_of_apply
  · intro r u happly
    rw [AdbFs.serve, happly, Prod.mk.injEq] at hserves
    exact ⟨hserves.1.symm, hserves.2⟩
  · intro e u happly
    rw [AdbFs.serve, happly] at hserves
    cases e with
    | panic =>
      rw [Prod.mk.injEq] at hserves
      exact ⟨hserves.2, fun e' he' => by simp [← hserves.1] at he'⟩
    | error e =>
      rw [Prod.mk.injEq] at hserves
      exact ⟨hserves.2, fun _ _ => by simp⟩

structure Spared (i fh : ℕ) (c : Copy) (w : AdbFs τ) : Prop where
  linked : w.Linked
  handle : w.shared.handles fh = some i
  copy : w.shared.copies i = some c

omit [AdbDevice τ] [Libc] in
lemma Spared.of_shared (hs : Spared i fh c w) (hw : w'.Linked) (h : w'.shared = w.shared) :
    Spared i fh c w' := ⟨hw, by rw [h, hs.handle], by rw [h, hs.copy]⟩

omit [AdbDevice τ] [Libc] in
lemma Spared.of_put (hs : Spared i fh c w) (hw : w'.Linked) (h : w'.shared = w.shared.put i c) :
    Spared i fh c w' := hs.of_shared hw (h.trans (Shared.put_self hs.copy))

omit [Libc] in
lemma Spared.open (hs : Spared i fh c w) {J : ℕ} (hj : J = i) :
    Ends (AdbFs.open h J) w (fun _ w' => Spared i fh c w') fun _ w' => Spared i fh c w' := by
  subst hj
  obtain ⟨spare, hwired⟩ := hs.linked
  apply (open_ends h hwired).imp
  · rintro _ w' ⟨p, d, w₁, -, hacquires, ⟨hwired', g, hg, hshared⟩, -⟩
    obtain rfl := hacquires.live_eq hs.copy
    have hne : fh ≠ g := by
      rintro rfl
      rw [hs.handle] at hg
      simp at hg
    rw [Shared.put_self hs.copy] at hshared
    refine ⟨⟨spare, hwired'⟩, ?_, ?_⟩
    · rw [hshared]
      exact (Function.update_of_ne hne _ _).trans hs.handle
    · rw [hshared]
      exact hs.copy
  · rintro _ w' (⟨hwired', hshared⟩ | ⟨p, d, w₁, -, hacquires, hback⟩)
    · exact hs.of_shared ⟨spare, hwired'⟩ hshared
    · obtain rfl := hacquires.live_eq hs.copy
      exact hs.of_put ⟨spare, hback.wired⟩ (hback.of_open hs.handle)

omit [AdbDevice τ] [Libc] in
lemma Spared.release (hs : Spared i fh c w) {g : ℕ} (hg : g ≠ fh) :
    Ends (AdbFs.release h g : FsM τ Errno Reply) w (fun _ w' => Spared i fh c w')
      fun _ w' => Spared i fh c w' := by
  obtain ⟨spare, hwired⟩ := hs.linked
  have hhandle : ∀ s : Shared, s.handles fh = some i → (s.detach g).handles fh = some i :=
    fun s h => (Function.update_of_ne hg.symm _ _).trans h
  apply (release_ends h hwired).imp
  · rintro _ w' (⟨-, rfl⟩ | ⟨j, id, hfh, hwired', hshared | ⟨-, hshared⟩⟩)
    · exact hs
    · by_cases hji : j = i
      · subst hji
        rw [Shared.drop_of_used (hhandle _ hs.handle)] at hshared
        exact ⟨⟨spare, hwired'⟩, by rw [hshared]; exact hhandle _ hs.handle,
          by rw [hshared]; exact hs.copy⟩
      · refine ⟨⟨spare, hwired'⟩, ?_, ?_⟩
        · rw [hshared, Shared.handles_drop]
          exact hhandle _ hs.handle
        · rw [hshared, Shared.copies_drop_of_ne _ (Ne.symm hji)]
          exact hs.copy
    · exact ⟨⟨spare, hwired'⟩, by rw [hshared]; exact hhandle _ hs.handle,
        by rw [hshared]; exact hs.copy⟩
  · exact fun _ _ => False.elim

lemma Spared.flush (hs : Spared i fh c w) {g : ℕ} (hg : w.shared.handles g = some i)
    {e : Errno} (hserves : AdbFs.serve h (.flush g) w = (some (.error e), w')) : Spared i fh c w' := by
  obtain ⟨spare, hwired⟩ := hs.linked
  have hcases := serves_cases ⟨.flush g, h, some (.error e)⟩ hserves
  have hends : Ends (AdbFs.flush g) w (fun _ _ => Spared i fh c w') fun _ _ => Spared i fh c w' := by
    apply ((flush_ends hwired).and hcases).imp
    · rintro r u ⟨⟨rfl, -⟩, hreply, -⟩
      simp at hreply
    · rintro e' u ⟨rfl | ⟨j, id, d, hj, -, hd, hfailed⟩, rfl, hpanic⟩
      · exact hs
      · obtain rfl : j = i := Option.some.inj (hj.symm.trans hg)
        obtain rfl : d = c := Option.some.inj (hd.symm.trans hs.copy)
        have hholds := hfailed.restored (hpanic e rfl)
        exact hs.of_put ⟨spare, hholds.wired⟩ hholds.shared
  exact ends_iff.mp hends

lemma Spared.step (hs : Spared i fh c w) (hspares : Spares i fh w call) (hserves : Serves w call w') :
    Spared i fh c w' := by
  have hsnd : (AdbFs.handle call.host call.request w).2 = w' := by rw [← serve_snd, hserves]
  have hkept := serves_othersKept hs.linked hserves
  by_cases htarget : call.request.target w = some i
  · obtain ⟨request, host, reply⟩ := call
    cases request with
    | «open» j =>
      rw [← hsnd]
      exact ends_iff.mp (hs.open (Option.some.inj htarget))
    | write g offset data => exact absurd htarget hspares
    | flush g =>
      obtain ⟨e, he⟩ := hspares htarget
      dsimp only at he
      subst he
      exact hs.flush htarget hserves
    | release g =>
      rw [← hsnd]
      exact ends_iff.mp (hs.release hspares)
    | setattr j size atime mtime g =>
      rcases hspares with hsize | hj
      · rw [hsize] at htarget
        exact absurd htarget (by simp [Request.target])
      · obtain ⟨_, -, rfl⟩ := Option.map_eq_some_iff.mp htarget
        exact absurd rfl hj
    | create parent name => exact absurd htarget hspares
    | _ => exact absurd htarget (by simp [Request.target])
  · exact ⟨hkept.linked, (hkept.handles fh i htarget).mpr hs.handle,
      (hkept.copies i htarget).trans hs.copy⟩

lemma Spared.run (hs : Spared i fh c w) (hrun : Run Serves (Spares i fh) w u) : Spared i fh c u :=
  hrun.invariant (fun _ _ _ hs hspares hserves => hs.step hspares hserves) hs

lemma Spared.flushes (hs : Spared i fh c u) {g : ℕ} (hg : u.shared.handles g = some i)
    (hserves : AdbFs.serve h (.flush g) u = (some .ok, u')) :
    c.dirty = true ∧ Sends i c u u' ∨ c.dirty = false ∧ u'.ops = u.ops := by
  obtain ⟨spare, hwired⟩ := hs.linked
  have hhandle := handle_of_serve (by simp) hserves
  obtain ⟨-, j, id, d, hj, -, hd, hdone⟩ := (flush_ends hwired).of_ok hhandle
  obtain rfl : j = i := Option.some.inj (hj.symm.trans hg)
  obtain rfl : d = c := Option.some.inj (hd.symm.trans hs.copy)
  cases hdone with
  | clean hclean heq => exact Or.inr ⟨hclean, by rw [heq]⟩
  | sent hdirty hpath hsent _ => exact Or.inl ⟨hdirty, _, _, hpath, rfl, hsent⟩

end Later

section Failure

lemma Copy.truncateFailed_bytes (h : Host) (n : ℕ) (c : Copy) :
    (c.truncateFailed h n).bytes.getD [] = c.bytes.getD [] ↔
      (∀ b, c.bytes = some b → b.length = n) ∨ (n = 0 ∧ h.create ≠ none) ∨
        (n ≠ 0 ∧ (h.openFile ≠ none ∨ h.setLen ≠ none)) := by
  obtain ⟨bytes, dirty⟩ := c
  rw [truncateFailed]
  split_ifs with hzero hcreate hdone
  · subst hzero
    cases bytes <;> simp [hcreate, eq_comm]
  · simp [hzero, hcreate]
  · cases bytes with
    | none => simp
    | some b => simp [hzero, hdone, Contents.setLen_eq_self]
  · have hstopped : h.openFile ≠ none ∨ h.setLen ≠ none := not_and_or.mp hdone
    exact ⟨fun _ => Or.inr (Or.inr ⟨hzero, hstopped⟩), fun _ => rfl⟩

variable {τ : Type} [AdbDevice τ] [Libc] {w w' : AdbFs τ} {h : Host} {i n fh : ℕ} {p : Text}
  {c : Copy} {e : Errno}

omit [Libc] in
lemma spared_of_truncate (hw : w.Linked) (hfails : truncate h i p n w = (.error (.error e), w'))
    (hfh : w.shared.handles fh = some i) (hc : w.shared.copies i = some c) :
    Spared i fh (c.truncateFailed h n) w' := by
  obtain ⟨spare, hwired⟩ := hw
  obtain ⟨hkept, hleft⟩ := (truncate_ends h n hwired).of_error hfails
  have hshared := (hleft c hc (by simp)).of_open hfh
  refine ⟨hkept.linked, ?_, ?_⟩
  · rw [hshared]
    exact hfh
  · rw [hshared]
    exact Function.update_self _ _ _

lemma unharmed_of_bytes (hw : w.Linked) (hfails : truncate h i p n w = (.error (.error e), w'))
    (hbytes : ∀ fh c, w.shared.handles fh = some i → w.shared.copies i = some c →
      (c.truncateFailed h n).bytes.getD [] = c.bytes.getD []) : Unharmed i w w' where
  reads fh hfh g offset size := by
    obtain ⟨id, -, -, hc⟩ := hw.live hfh
    have hs := spared_of_truncate hw hfails hfh hc
    rw [read_reply hw hfh hc, read_reply hs.linked hs.handle hs.copy, hbytes fh _ hfh hc]
  pending fh c hfh hc hdirty :=
    ⟨_, (spared_of_truncate hw hfails hfh hc).copy, Copy.truncateFailed_dirty h n hdirty⟩
  flushes fh c hfh hc u hrun g hg _ u' hserves := by
    rcases ((spared_of_truncate hw hfails hfh hc).run hrun).flushes hg hserves with
      ⟨-, path, f, hpath, hf, hsent⟩ | ⟨hclean, hops⟩
    · exact Or.inl ⟨path, f, hpath, hf.trans (hbytes fh c hfh hc), hsent⟩
    · refine Or.inr ⟨Bool.eq_false_iff.mpr fun hdirty => ?_, hops⟩
      rw [Copy.truncateFailed_dirty h n hdirty] at hclean
      simp at hclean

lemma Unharmed.bytes (hu : Unharmed i w w') (hw : w.Linked)
    (hfails : truncate h i p n w = (.error (.error e), w')) (hfh : w.shared.handles fh = some i)
    (hc : w.shared.copies i = some c) :
    (c.truncateFailed h n).bytes.getD [] = c.bytes.getD [] := by
  have hs := spared_of_truncate hw hfails hfh hc
  apply Contents.readAt_ext
  intro offset size
  have hreads := hu.reads fh hfh (plainHost 0 0 0) offset size
  rw [read_reply hw hfh hc, read_reply hs.linked hs.handle hs.copy] at hreads
  exact Reply.data.inj (Option.some.inj hreads)

/-- A truncate that fails leaves the open file as it was where it fails before its first step on the
local file, or where that file has the new length already; and in no other case. -/
theorem failed_truncate_unharmed_iff {ops : DeviceOps τ} {cacheTtl : ℕ} {opts : FsOptions}
    (hrun : Run Serves Always (AdbFs.new ops cacheTtl opts) w)
    (hpath : w.inodes.getPath i = some p)
    (hfails : truncate h i p n w = (.error (.error e), w')) (atime mtime : Option TimeOrNow)
    (g : Option ℕ) :
    AdbFs.serve h (.setattr i (some n) atime mtime g) w = (some (.error e), w') ∧
      (Unharmed i w w' ↔
        (∀ fh c b, w.shared.handles fh = some i → w.shared.copies i = some c → c.bytes = some b →
          b.length = n) ∨
        (n = 0 ∧ h.create ≠ none) ∨ (n ≠ 0 ∧ (h.openFile ≠ none ∨ h.setLen ≠ none))) := by
  have hw := linked_of_run hrun
  refine ⟨setattr_of_truncate hpath hfails atime mtime g, ?_, ?_⟩
  · intro hu
    by_cases hopen : ∃ fh c, w.shared.handles fh = some i ∧ w.shared.copies i = some c
    · obtain ⟨fh, c, hfh, hc⟩ := hopen
      rcases (c.truncateFailed_bytes h n).mp (hu.bytes hw hfails hfh hc) with hlen | hstopped
      · left
        intro _ d b _ hd hb
        obtain rfl := Option.some.inj (hc.symm.trans hd)
        exact hlen b hb
      · exact Or.inr hstopped
    · left
      intro fh c b hfh hc _
      exact absurd ⟨fh, c, hfh, hc⟩ hopen
  · intro hcondition
    apply unharmed_of_bytes hw hfails
    intro fh c hfh hc
    apply (c.truncateFailed_bytes h n).mpr
    exact hcondition.imp_left fun hlen b hb => hlen fh c b hfh hc hb

end Failure

section Plain

attribute [local instance] plainLibc

def thirdFailsOps : DeviceOps Phone where
  adb :=
    { plainPhone [("/a".toList, byteNode 7)] [] with
      plan := fun k => { plainFate emptyNode with fails := k == 2 } }
  touchGnuMode := true
  rescan := false

def writtenFs : PhoneFs :=
  let found := (AdbFs.serve (plainHost 0 1 0) (.lookup 1 nameA)
    (AdbFs.new thirdFailsOps (10 ^ 9) {})).2
  let opened := (AdbFs.serve (plainHost 0 1 0) (.open 2) found).2
  (AdbFs.serve (plainHost 0 1 0) (.write 1 0 [9]) opened).2

lemma run_writtenFs : Run Serves Always (AdbFs.new thirdFailsOps (10 ^ 9) {}) writtenFs :=
  run_serve (run_serve (run_serve .refl _ _) _ _) _ _

/-- The write is lost with the setattr that failed: the next flush sends an empty file. -/
theorem failed_truncate_unharmed_iff_fails_for_push :
    let truncated := AdbFs.serve (plainHost 0 1 0) (.setattr 2 (some 0) none none none) writtenFs
    let flushed := AdbFs.serve (plainHost 0 1 0) (.flush 1) truncated.2
    (AdbFs.serve (plainHost 0 1 0) (.read 1 0 8) writtenFs).1 = some (.data [9]) ∧
      truncated.1 = some (.error .eio) ∧
      (AdbFs.serve (plainHost 0 1 0) (.read 1 0 8) truncated.2).1 = some (.data []) ∧
      flushed.1 = some .ok ∧ (flushed.2.tree "/a".toList).map Node.data = some (some []) ∧
      ¬ Unharmed 2 writtenFs truncated.2 := by
  intro truncated flushed
  have hbefore : (AdbFs.serve (plainHost 0 1 0) (.read 1 0 8) writtenFs).1 = some (.data [9]) := by
    decide +kernel
  have hafter : (AdbFs.serve (plainHost 0 1 0) (.read 1 0 8) truncated.2).1 = some (.data []) := by
    decide +kernel
  refine ⟨hbefore, by decide +kernel, hafter, by decide +kernel, by decide +kernel, ?_⟩
  intro hu
  have hsame := hu.reads 1 (by decide +kernel) (plainHost 0 1 0) 0 8
  rw [hbefore, hafter] at hsame
  exact absurd hsame (by decide)

/-- Where the new length cannot be set, the bytes written are there still. -/
theorem failed_truncate_unharmed_iff_of_setLen :
    let h := { plainHost 0 1 0 with setLen := some .eio }
    let truncated := AdbFs.serve h (.setattr 2 (some 3) none none none) writtenFs
    truncated.1 = some (.error .eio) ∧ Unharmed 2 writtenFs truncated.2 := by
  intro h truncated
  have hfails : truncate h 2 "/a".toList 3 writtenFs =
      (.error (.error .eio), (truncate h 2 "/a".toList 3 writtenFs).2) :=
    Prod.ext (by rfl) rfl
  have hharm := failed_truncate_unharmed_iff run_writtenFs (by decide +kernel) hfails none none none
  have hreply := hharm.1
  refine ⟨congrArg Prod.fst hreply, ?_⟩
  have hstate : truncated.2 = (truncate h 2 "/a".toList 3 writtenFs).2 := congrArg Prod.snd hreply
  rw [hstate]
  exact hharm.2.mpr (Or.inr (Or.inr ⟨by decide, Or.inr (by decide)⟩))

end Plain

end Adbfs
