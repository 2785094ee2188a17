import Adbfs.Coherence
import Adbfs.OpenFiles

namespace Adbfs

open Library Library.Action Files

section Events

variable {τ : Type} [AdbDevice τ]

abbrev Service (τ : Type) := AdbFs τ × Call × AdbFs τ

def Writes (i : ℕ) (x : Service τ) : Prop :=
  ∃ fh offset data n, x.2.1.request = .write fh offset data ∧ x.1.shared.handles fh = some i ∧
    x.2.1.reply = some (.written n)

def Drops (i : ℕ) (x : Service τ) : Prop :=
  x.1.shared.copies i ≠ none ∧ x.2.2.shared.copies i = none

def Creates (i : ℕ) (x : Service τ) : Prop :=
  ∃ parent name, x.2.1.request = .create parent name ∧ Request.created x.1 parent name = some i

inductive Flushes (i : ℕ) : Service τ → Prop
  | flush {w w' : AdbFs τ} {fh : ℕ} {h : Host} {r : Option Reply} :
      w.shared.handles fh = some i → Flushes i (w, ⟨.flush fh, h, r⟩, w')
  | setattr {w w' : AdbFs τ} {n : ℕ} {atime mtime : Option TimeOrNow} {g : Option ℕ} {h : Host}
      {r : Option Reply} : Flushes i (w, ⟨.setattr i (some n) atime mtime g, h, r⟩, w')

def ReportsError (i : ℕ) (x : Service τ) : Prop := Flushes i x ∧ ∃ e, x.2.1.reply = some (.error e)

/-- The device took the local file; for a setattr, the file of its new length. -/
inductive Pushes (i : ℕ) : Service τ → Prop
  | flush {w w' : AdbFs τ} {fh : ℕ} {h : Host} {c : Copy} {path : Text} :
      w.shared.handles fh = some i → w.shared.copies i = some c →
      w.inodes.getPath i = some path →
      pushAndSync (.copy i) c.bytes path w.ops = (.ok (), w'.ops) →
      Pushes i (w, ⟨.flush fh, h, some .ok⟩, w')
  | setattr {w v w' : AdbFs τ} {n : ℕ} {atime mtime : Option TimeOrNow} {g : Option ℕ} {h : Host}
      {r : Option Reply} {c : Copy} {path : Text} {f : Option Bytes} :
      w.shared.copies i = some c → w.inodes.getPath i = some path →
      truncate h i path n w = (.ok (), v) →
      (∀ b, c.bytes = some b → f = some (Contents.setLen n b)) →
      pushAndSync (.copy i) f path w.ops = (.ok (), v.ops) →
      Pushes i (w, ⟨.setattr i (some n) atime mtime g, h, r⟩, w')

lemma Pushes.flushes {i : ℕ} {x : Service τ} (h : Pushes i x) : Flushes i x := by
  cases h with
  | flush hfh _ _ _ => exact .flush hfh
  | setattr _ _ _ _ _ => exact .setattr

/-- A push and a sync return, with a result or an error. -/
class Returns (τ : Type) [AdbDevice τ] : Prop where
  push : ∀ here contents p (d : τ), (AdbDevice.push here contents p d).1 ≠ .error .panic
  syncDevice : ∀ d : τ, ((AdbDevice.syncDevice : Action τ AdbError Unit) d).1 ≠ .error .panic

end Events

section Returning

variable {τ : Type} [AdbDevice τ] [Returns τ]

omit [AdbDevice τ] [Returns τ] in
lemma transport_returns {x : Action τ AdbError Unit} (hx : ∀ d, (x d).1 ≠ .error .panic)
    (s : DeviceOps τ) :
    Ends (DeviceOps.transport x) s (fun _ _ => True) fun e _ => e ≠ .panic := by
  apply ends_zoom.mpr
  apply ends_mapError.mpr
  apply ends_of_apply
  · exact fun _ _ _ => trivial
  · intro e d he
    cases e with
    | error e => simp [Abort.map]
    | panic => exact absurd (congrArg Prod.fst he) (hx s.adb)

lemma pushAndSync_returns (here : LocalPath) (contents : Option Bytes) (p : Text)
    (s : DeviceOps τ) :
    Ends (pushAndSync here contents p) s (fun _ _ => True) fun e _ => e ≠ .panic := by
  apply ends_bind.mpr
  apply (transport_returns (Returns.push here contents p) s).imp
  · exact fun _ t _ => transport_returns Returns.syncDevice t
  · exact fun _ _ he => he

lemma pushIfDirty_returns (i id : ℕ) (w : AdbFs τ) :
    Ends (pushIfDirty i id) w (fun _ _ => True) fun e _ => e ≠ .panic := by
  apply ends_bind.mpr
  apply ends_read.mpr
  split_ifs
  · apply ends_bind.mpr
    apply ends_update.mpr
    split
    · apply ends_bind.mpr
      apply ends_update.mpr
      apply ends_fail.mpr
      simp
    · apply ends_bind.mpr
      apply ends_attempt.mpr
      apply ends_device.mpr
      apply (pushAndSync_returns _ _ _ _).imp
      · exact fun _ _ _ => trivial
      · intro e t he
        cases e with
        | error e =>
          apply ends_bind.mpr
          apply ends_update.mpr
          apply ends_fail.mpr
          simp
        | panic => exact absurd rfl he
  · trivial

lemma flush_returns (fh : ℕ) (w : AdbFs τ) :
    Ends (AdbFs.flush fh) w (fun r _ => r = .ok) fun e _ => e ≠ .panic := by
  apply ends_handleOf.mpr
  refine ⟨fun o _ => ?_, fun _ => by simp⟩
  apply ends_bind.mpr
  apply (pushIfDirty_returns o.ino o.copy w).imp
  · exact fun _ _ _ => rfl
  · exact fun _ _ he => he

lemma truncate_returns (h : Host) {w : AdbFs τ} (hw : w.Linked) (i : ℕ) (p : Text) (n : ℕ) :
    Ends (truncate h i p n) w (fun _ _ => True) fun e _ => e ≠ .panic := by
  obtain ⟨spare, hwired⟩ := hw
  apply ends_bind.mpr
  apply (acquireCopy_ends hwired i p (if n = 0 then .empty else .pull)).imp
  · rintro id w₁ ⟨c, hholds, -⟩
    have hcopy : Ends (truncateCopy h i id n) w₁ (fun _ _ => True) fun e _ => e ≠ .panic := by
      apply ends_bind.mpr
      apply ends_outcome.mpr
      refine ⟨fun _ => ?_, fun _ _ => by simp⟩
      apply ends_bind.mpr
      apply ends_outcome.mpr
      refine ⟨fun _ => ?_, fun _ _ => by simp⟩
      apply ends_bind.mpr
      apply ends_update.mpr
      exact pushIfDirty_returns i id _
    have hlive := ends_truncateCopy h n hholds.wired hholds.lookup hholds.copies_eq
    apply ends_bind.mpr
    apply ends_attempt.mpr
    apply (hcopy.and hlive).imp
    · rintro _ w₂ ⟨-, hholds', -⟩
      exact ends_giveBack (hholds.trans hholds') fun _ _ _ => trivial
    · rintro e w₂ ⟨he, ⟨c', hholds', -⟩, -⟩
      cases e with
      | panic => exact absurd rfl he
      | error e =>
        apply ends_giveBack (hholds.trans hholds')
        exact fun _ _ _ => ends_ofExcept.mpr ⟨fun _ _ => trivial, fun _ _ => by simp⟩
  · exact fun _ _ h => h.1

end Returning

section Steps

variable {τ : Type} [AdbDevice τ] [Libc] {w w' u : AdbFs τ} {i : ℕ} {call : Call}

/-- The copy of the inode holds writes that were not pushed. -/
structure Unpushed (i : ℕ) (w : AdbFs τ) : Prop where
  linked : w.Linked
  dirty : ∃ c, w.shared.copies i = some c ∧ c.dirty = true

omit [AdbDevice τ] [Libc] in
lemma Unpushed.of_gaveBack {spare : ℕ → ℕ} {c : Copy} (hback : GaveBack spare i c w w')
    (hc : c.dirty = true)
    (hlive : w'.shared.copies i ≠ none) : Unpushed i w' := by
  refine ⟨⟨spare, hback.wired⟩, c, ?_, hc⟩
  have hput : (w.shared.put i c).copies i = some c := Function.update_self _ _ _
  rcases hback.shared with hshared | ⟨-, hshared⟩
  · rw [hshared, Shared.drop] at hlive ⊢
    split_ifs at hlive ⊢
    · exact hput
    · exact absurd (Function.update_self _ _ _) hlive
  · rw [hshared, hput]

omit [AdbDevice τ] [Libc] in
lemma Unpushed.of_shared (h : Unpushed i w) (hw : w'.Linked)
    (hcopy : w'.shared.copies i = w.shared.copies i) : Unpushed i w' := by
  obtain ⟨c, hc, hdirty⟩ := h.dirty
  exact ⟨hw, c, hcopy.trans hc, hdirty⟩

omit [Libc] in
lemma Unpushed.open (hu : Unpushed i w) {h : Host} :
    Ends (AdbFs.open h i) w (fun _ w' => w'.shared.copies i ≠ none → Unpushed i w')
      fun _ w' => w'.shared.copies i ≠ none → Unpushed i w' := by
  obtain ⟨spare, hwired⟩ := hu.linked
  obtain ⟨c, hc, hdirty⟩ := hu.dirty
  apply (open_ends h hwired).imp
  · rintro _ w' ⟨p, d, w₁, -, hacquires, ⟨hwired', fh, -, hshared⟩, -⟩ -
    obtain rfl := hacquires.live_eq hc
    rw [Shared.put_self hc] at hshared
    exact hu.of_shared ⟨spare, hwired'⟩ (by rw [hshared, Shared.attach])
  · rintro _ w' (⟨hwired', hshared⟩ | ⟨p, d, w₁, -, hacquires, hback⟩) hopen
    · exact hu.of_shared ⟨spare, hwired'⟩ (by rw [hshared])
    · obtain rfl := hacquires.live_eq hc
      exact .of_gaveBack hback hdirty hopen

omit [AdbDevice τ] [Libc] in
lemma Unpushed.write (hu : Unpushed i w) {h : Host} {fh : ℕ} (hfh : w.shared.handles fh = some i)
    (offset : ℕ) (data : Bytes) :
    Ends (AdbFs.write h fh offset data) w (fun _ w' => Unpushed i w') fun _ w' => Unpushed i w' := by
  obtain ⟨spare, hwired⟩ := hu.linked
  apply (write_ends h offset data hwired).imp
  · rintro _ w' ⟨j, id, c, n, -, hj, -, hholds⟩
    obtain rfl : j = i := Option.some.inj (hj.symm.trans hfh)
    exact ⟨⟨spare, hholds.wired⟩, _, hholds.copies_eq, rfl⟩
  · rintro _ w' rfl
    exact hu

omit [AdbDevice τ] [Libc] in
lemma Unpushed.release (hu : Unpushed i w) {h : Host} {fh : ℕ}
    (hfh : w.shared.handles fh = some i) :
    Ends (AdbFs.release h fh : FsM τ Errno Reply) w
      (fun _ w' => w'.shared.copies i ≠ none → Unpushed i w') fun _ _ => False := by
  obtain ⟨spare, hwired⟩ := hu.linked
  apply (release_ends h hwired).imp
  · rintro _ w' (⟨-, rfl⟩ | ⟨j, id, hj, hwired', hshared⟩) hlive
    · exact hu
    · obtain rfl : j = i := Option.some.inj (hj.symm.trans hfh)
      apply hu.of_shared ⟨spare, hwired'⟩
      rcases hshared with hshared | ⟨-, hshared⟩
      · rw [hshared, Shared.drop] at hlive ⊢
        split_ifs at hlive ⊢
        · rfl
        · exact absurd (Function.update_self _ _ _) hlive
      · rw [hshared, Shared.detach]
  · exact fun _ _ => False.elim

lemma Unpushed.flush [Returns τ] (hu : Unpushed i w) {h : Host} {fh : ℕ} {r : Option Reply}
    (hfh : w.shared.handles fh = some i) (hserves : AdbFs.serve h (.flush fh) w = (r, w')) :
    Pushes i (w, ⟨.flush fh, h, r⟩, w') ∨ Unpushed i w' ∧ ∃ e, r = some (.error e) := by
  obtain ⟨spare, hwired⟩ := hu.linked
  obtain ⟨c, hc, hdirty⟩ := hu.dirty
  rcases hresult : AdbFs.flush fh w with ⟨e | reply, u⟩
  · have hends := ((flush_ends hwired).and (flush_returns fh w)).of_error hresult
    have hhandle : AdbFs.handle h (.flush fh) w = (.error e, u) := hresult
    cases e with
    | panic => exact absurd rfl hends.2
    | error e =>
      rw [AdbFs.serve, hhandle, Prod.mk.injEq] at hserves
      obtain ⟨rfl, rfl⟩ := hserves
      refine Or.inr ⟨?_, e, rfl⟩
      rcases hends.1 with rfl | ⟨j, id, d, hj, -, hd, hfailed⟩
      · exact hu
      · obtain rfl : j = i := Option.some.inj (hj.symm.trans hfh)
        have hholds := hfailed.restored (by simp)
        exact ⟨⟨spare, hholds.wired⟩, d, hholds.copies_eq, hfailed.dirty⟩
  · obtain ⟨rfl, j, id, d, hj, -, hd, hdone⟩ := (flush_ends hwired).of_ok hresult
    have hhandle : AdbFs.handle h (.flush fh) w = (.ok .ok, u) := hresult
    rw [AdbFs.serve, hhandle, Prod.mk.injEq] at hserves
    obtain ⟨rfl, rfl⟩ := hserves
    obtain rfl : j = i := Option.some.inj (hj.symm.trans hfh)
    obtain rfl : d = c := Option.some.inj (hd.symm.trans hc)
    cases hdone with
    | clean hclean _ => simp [hdirty] at hclean
    | sent _ hpath hsent _ => exact Or.inl (.flush hfh hc hpath hsent)

lemma Unpushed.setattr [Returns τ] (hu : Unpushed i w) {h : Host} {n : ℕ}
    {atime mtime : Option TimeOrNow} {g : Option ℕ} {r : Option Reply}
    (hserves : AdbFs.serve h (.setattr i (some n) atime mtime g) w = (r, w')) :
    Pushes i (w, ⟨.setattr i (some n) atime mtime g, h, r⟩, w') ∨
      (w'.shared.copies i ≠ none → Unpushed i w') ∧ ∃ e, r = some (.error e) := by
  obtain ⟨spare, hwired⟩ := hu.linked
  obtain ⟨c, hc, hdirty⟩ := hu.dirty
  cases hpath : w.inodes.getPath i with
  | none =>
    have hget : (getPath i : FsM τ Errno Text) w = (.error (.error .enoent), w) := by
      simp [getPath, hpath]
    have hsetattr : AdbFs.setattr h i (some n) atime mtime w = (.error (.error .enoent), w) :=
      bind_of_error hget
    rw [AdbFs.serve, AdbFs.handle, hsetattr, Prod.mk.injEq] at hserves
    obtain ⟨rfl, rfl⟩ := hserves
    exact Or.inr ⟨fun _ => hu, .enoent, rfl⟩
  | some p =>
    rcases hresult : truncate h i p n w with ⟨e | _, u⟩
    · have hends := ((truncate_ends h n hwired).and (truncate_returns h hu.linked i p n)).of_error
        hresult
      cases e with
      | panic => exact absurd rfl hends.2
      | error e =>
        rw [setattr_of_truncate hpath hresult, Prod.mk.injEq] at hserves
        obtain ⟨rfl, rfl⟩ := hserves
        have hback := hends.1.2 c hc (by simp)
        exact Or.inr ⟨.of_gaveBack hback (Copy.truncateFailed_dirty h n hdirty), e, rfl⟩
    · obtain ⟨-, hpushed⟩ := (truncate_ends h n hwired).of_ok hresult
      obtain ⟨f, path, hf, hpath', hsent, -⟩ := hpushed c hc
      obtain rfl : path = p := Option.some.inj (hpath'.symm.trans hpath)
      exact Or.inl (.setattr hc hpath' hresult hf hsent)

lemma Unpushed.step [Returns τ] (hu : Unpushed i w) (hserves : Serves w call w')
    (hcreates : ¬ Creates i (w, call, w')) :
    Pushes i (w, call, w') ∨ (w'.shared.copies i ≠ none → Unpushed i w') ∧
      (Flushes i (w, call, w') → ReportsError i (w, call, w')) := by
  have hsnd : (AdbFs.handle call.host call.request w).2 = w' := by rw [← serve_snd, hserves]
  have hkept := serves_othersKept hu.linked hserves
  by_cases htarget : call.request.target w = some i
  · obtain ⟨request, host, reply⟩ := call
    cases request with
    | «open» j =>
      obtain rfl : j = i := Option.some.inj htarget
      refine Or.inr ⟨?_, fun hf => by cases hf⟩
      rw [← hsnd]
      exact ends_iff.mp hu.open
    | write g offset data =>
      refine Or.inr ⟨fun _ => ?_, fun hf => by cases hf⟩
      rw [← hsnd]
      exact ends_iff.mp (hu.write htarget offset data)
    | flush g =>
      rcases hu.flush htarget hserves with hpushed | ⟨hkeeps, herror⟩
      · exact Or.inl hpushed
      · exact Or.inr ⟨fun _ => hkeeps, fun hf => ⟨hf, herror⟩⟩
    | release g =>
      refine Or.inr ⟨?_, fun hf => by cases hf⟩
      rw [← hsnd]
      exact ends_iff.mp ((hu.release htarget).imp (fun _ _ h => h) fun _ _ => False.elim)
    | setattr j size atime mtime g =>
      obtain ⟨n, rfl, rfl⟩ := Option.map_eq_some_iff.mp htarget
      rcases hu.setattr hserves with hpushed | ⟨hkeeps, herror⟩
      · exact Or.inl hpushed
      · exact Or.inr ⟨hkeeps, fun hf => ⟨hf, herror⟩⟩
    | create parent name => exact absurd ⟨parent, name, rfl, htarget⟩ hcreates
    | _ => exact absurd htarget (by simp [Request.target])
  · refine Or.inr ⟨fun _ => hu.of_shared hkept.linked (hkept.copies i htarget), fun hf => ?_⟩
    cases hf with
    | flush hfh => exact absurd hfh htarget
    | setattr => exact absurd rfl htarget

lemma unpushed_of_writes (hw : w.Linked) (hserves : Serves w call w')
    (hwrites : Writes i (w, call, w')) : Unpushed i w' := by
  obtain ⟨spare, hwired⟩ := hw
  obtain ⟨request, host, reply⟩ := call
  obtain ⟨fh, offset, data, n, rfl, hfh, rfl⟩ := hwrites
  have hhandle : AdbFs.write host fh offset data w = (.ok (.written n), w') :=
    handle_of_serve (by simp) hserves
  obtain ⟨j, id, c, m, -, hj, -, hholds⟩ := (write_ends host offset data hwired).of_ok hhandle
  obtain rfl : j = i := Option.some.inj (hj.symm.trans hfh)
  exact ⟨⟨spare, hholds.wired⟩, _, hholds.copies_eq, rfl⟩

/-- Until its copy is dropped, and by the request that drops it, a write that was acknowledged has been
pushed, or an error was replied since, or there was no flush since and no setattr of the size. -/
theorem write_pushed_or_reported_or_unflushed [Returns τ] {ops : DeviceOps τ}
    {cacheTtl : ℕ} {opts : FsOptions} {last : Call} {u' : AdbFs τ} {l : List (Service τ)}
    (hrun : Run Serves Always (AdbFs.new ops cacheTtl opts) w) (hserves : Serves w call w')
    (hwrites : Writes i (w, call, w')) (htrace : Trace Serves w' l u)
    (hlive : ∀ x ∈ l, ¬ Drops i x) (hserves' : Serves u last u')
    (hcreates : ∀ x ∈ l ++ [(u, last, u')], ¬ Creates i x) :
    (∃ x ∈ l ++ [(u, last, u')], Pushes i x) ∨ (∃ x ∈ l ++ [(u, last, u')], ReportsError i x) ∨
      ∀ x ∈ l ++ [(u, last, u')], ¬ Flushes i x := by
  by_cases hpushes : ∃ x ∈ l ++ [(u, last, u')], Pushes i x
  · exact Or.inl hpushes
  by_cases hreports : ∃ x ∈ l ++ [(u, last, u')], ReportsError i x
  · exact Or.inr (Or.inl hreports)
  push Not at hpushes hreports
  have hstart := unpushed_of_writes (linked_of_run hrun) hserves hwrites
  let Harmless (x : Service τ) : Prop := (¬ Drops i x ∧ ¬ Creates i x) ∧ ¬ Pushes i x
  have hkeeps : ∀ (s : AdbFs τ) (c : Call) (t : AdbFs τ), Unpushed i s → Serves s c t →
      Harmless (s, c, t) → Unpushed i t := by
    rintro s c t hs hst ⟨⟨hdrop, hcreate⟩, hpush⟩
    obtain ⟨d, hd, -⟩ := hs.dirty
    refine ((hs.step hst hcreate).resolve_left hpush).1 fun hnone => hdrop ⟨?_, hnone⟩
    simp [hd]
  obtain ⟨hlast, hsteps⟩ := htrace.invariant (G := Harmless) hstart hkeeps fun x hx =>
    ⟨⟨hlive x hx, hcreates x (by simp [hx])⟩, hpushes x (by simp [hx])⟩
  right
  right
  have hone : ∀ x : Service τ, Unpushed i x.1 ∧ Serves x.1 x.2.1 x.2.2 →
      x ∈ l ++ [(u, last, u')] → ¬ Flushes i x := fun x hx hmem hflush =>
    hreports x hmem (((hx.1.step hx.2 (hcreates x hmem)).resolve_left (hpushes x hmem)).2 hflush)
  intro x hx
  rcases List.mem_append.mp hx with hin | hin
  · exact hone x (hsteps x hin) hx
  · obtain rfl := List.mem_singleton.mp hin
    exact hone _ ⟨hlast, hserves'⟩ hx

end Steps

section Phones

variable [Libc]

lemma asAction_returns {α : Type} (f : Phone → Except AdbError α × Phone) (d : Phone) :
    (Phone.asAction f d).1 ≠ .error .panic := by
  rw [Phone.asAction]
  cases (f d).1 <;> simp

instance : Returns Phone where
  push _ _ _ d := asAction_returns _ d
  syncDevice d := by
    have hends : Ends (AdbDevice.syncDevice : Action Phone AdbError Unit) d (fun _ _ => True)
        fun e _ => e ≠ .panic := by
      apply ends_bind.mpr
      apply ends_of_apply
      · exact fun _ _ _ => trivial
      · rintro e t he rfl
        exact asAction_returns _ d (congrArg Prod.fst he)
    intro hpanic
    have hresult : (AdbDevice.syncDevice : Action Phone AdbError Unit) d = (.error .panic, _) :=
      Prod.ext hpanic rfl
    exact hends.of_error hresult rfl

end Phones

section Plain

attribute [local instance] plainLibc

def openedFs : PhoneFs :=
  let found := (AdbFs.serve (plainHost 0 1 0) (.lookup 1 nameA)
    (AdbFs.new ⟨plainPhone [("/a".toList, byteNode 7)] [], true, false⟩ (10 ^ 9) {})).2
  (AdbFs.serve (plainHost 0 1 0) (.open 2) found).2

def served (request : Request) (w : PhoneFs) : Service Phone :=
  let answer := AdbFs.serve (plainHost 0 1 0) request w
  (w, ⟨request, plainHost 0 1 0, answer.1⟩, answer.2)

lemma serves_served (request : Request) (w : PhoneFs) :
    Serves w (served request w).2.1 (served request w).2.2 := by
  rw [Serves]
  rfl

lemma not_flushes_served {request : Request} {w : PhoneFs} {i : ℕ}
    (hrequest : (∃ fh offset data, request = .write fh offset data) ∨ ∃ fh, request = .release fh) :
    ¬ Flushes i (served request w) := by
  intro h
  rcases hrequest with ⟨_, _, _, rfl⟩ | ⟨_, rfl⟩
  · rw [served] at h
    cases h
  · rw [served] at h
    cases h

/-- A handle that is released after a write, and not flushed. -/
theorem write_pushed_or_reported_or_unflushed_without_flush :
    let wrote := served (.write 1 0 [9]) openedFs
    let released := served (.release 1) wrote.2.2
    Writes 2 wrote ∧ Drops 2 released ∧ released.2.1.reply = some .ok ∧
      (∀ x ∈ [wrote, released], ¬ Pushes 2 x ∧ ¬ ReportsError 2 x) ∧
      (released.2.2.tree "/a".toList).map Node.data = some (some [7]) := by
  intro wrote released
  have hopen : (wrote.2.2.shared.copies 2).isSome = true := by decide +kernel
  have hgone : (released.2.2.shared.copies 2).isNone = true := by decide +kernel
  have hquiet : ∀ x ∈ [wrote, released], ¬ Flushes 2 x := by
    intro x hx
    rcases List.mem_pair.mp hx with rfl | rfl
    · exact not_flushes_served (Or.inl ⟨1, 0, [9], rfl⟩)
    · exact not_flushes_served (Or.inr ⟨1, rfl⟩)
  refine ⟨⟨1, 0, [9], 1, rfl, by decide +kernel, by decide +kernel⟩, ⟨?_, ?_⟩, by decide +kernel,
    fun x hx => ⟨fun h => hquiet x hx h.flushes, fun h => hquiet x hx h.1⟩, by decide +kernel⟩
  · exact Option.isSome_iff_ne_none.mp hopen
  · exact Option.isNone_iff_eq_none.mp hgone

/-- The same with a flush in between. -/
theorem write_pushed_or_reported_or_unflushed_after_flush :
    let wrote := served (.write 1 0 [9]) openedFs
    let flushed := served (.flush 1) wrote.2.2
    let released := served (.release 1) flushed.2.2
    (∃ x ∈ [flushed, released], Pushes 2 x) ∨ (∃ x ∈ [flushed, released], ReportsError 2 x) ∨
      ∀ x ∈ [flushed, released], ¬ Flushes 2 x := by
  intro wrote flushed released
  have hrun : Run Serves Always (AdbFs.new _ _ _) openedFs := run_serve (run_serve .refl _ _) _ _
  have hwrites : Writes 2 wrote := ⟨1, 0, [9], 1, rfl, by decide +kernel, by decide +kernel⟩
  have hopen : (flushed.2.2.shared.copies 2).isSome = true := by decide +kernel
  apply write_pushed_or_reported_or_unflushed (l := [flushed]) hrun
    (serves_served _ _) hwrites (.cons (serves_served _ _) .nil)
  · intro x hx
    obtain rfl := List.mem_singleton.mp hx
    exact fun hdrops => Option.isSome_iff_ne_none.mp hopen hdrops.2
  · exact serves_served _ _
  · intro x hx
    rcases List.mem_pair.mp hx with rfl | rfl
    · rintro ⟨parent, name, hrequest, -⟩
      exact Request.noConfusion hrequest
    · rintro ⟨parent, name, hrequest, -⟩
      exact Request.noConfusion hrequest

end Plain

end Adbfs
