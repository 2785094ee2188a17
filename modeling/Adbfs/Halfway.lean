import Adbfs.Honest

/-! Which plans of a device let an operation fail after it has changed the tree. -/

namespace Adbfs

open Library Library.Paths Library.Action

section Plan

variable [Libc]

/-- The failure of a command whose output is not looked at is noticed all the same. -/
def Failure.noticed (v2 : Bool) : Failure → Bool
  | .transport _ => true
  | .message _ exitCode => v2 && exitCode != 0

namespace Phone

variable (d : Phone)

/-- Command `i`, a broadcast or a sync, ends the operation. -/
def breaks (i : ℕ) : Bool := (d.plan i).fails && (d.plan i).failure.noticed d.v2

/-- The next command takes effect, and it fails all the same or one of the broadcasts after it
does. -/
def Halfway (c : Command) (broadcasts : ℕ) : Prop :=
  perform d.tree (d.plan d.commands) c ≠ none ∧
    if (d.plan d.commands).fails then (d.plan d.commands).lands = true
    else ∃ k < broadcasts, d.breaks (d.commands + 1 + k) = true

/-- Command `i`, a push of the contents to the path, takes effect, and it fails all the same or the
sync after it does. -/
def HalfPushed (i : ℕ) (contents : Option Bytes) (p : Text) : Prop :=
  fits d.tree p = true ∧ (d.plan i).node.isDir = false ∧
    if (d.plan i).fails = false ∧ (d.plan i).node.data = contents then d.breaks (i + 1) = true
    else (d.plan i).lands = true

def touches (p : Text) (i : ℕ) : Bool := (perform d.tree (d.plan i) (.touch p)).isSome

/-- Command `i`, a touch, failed, an earlier one having taken effect if `landed`. -/
def stopped (rescan : Bool) (retry : ℕ → Bool → Bool) (i : ℕ) (landed : Bool) : Bool :=
  match (d.plan i).failure with
  | .transport _ => landed
  | .message lines exitCode =>
    match firstMessage ⟨lines, [], exitCode⟩ with
    | some message =>
      if touchToyboxErrPrefix <+: message ∨ touchBusyboxErrPrefix <+: message then
        retry (i + 1) landed
      else landed
    -- a touch that says nothing counts as done
    | none => landed && (rescan && d.breaks (i + 1))

/-- From command `i` on the device is to touch the path so many times: a touch takes effect, and one
of the commands fails. -/
def halfTouched (p : Text) (rescan : Bool) (retry : ℕ → Bool → Bool) : ℕ → ℕ → Bool → Bool
  | 0, i, landed => landed && (rescan && d.breaks i)
  | left + 1, i, landed =>
    if !(d.plan i).fails && d.touches p i then halfTouched p rescan retry left (i + 1) true
    else d.stopped rescan retry i (landed || ((d.plan i).lands && d.touches p i))

/-- With the dates of the GNU dialect the touches are tried once more in the other. -/
def HalfTouched (gnu rescan : Bool) (p : Text) (times : ℕ) : Prop :=
  let once := d.halfTouched p rescan (fun _ landed => landed) times
  (if gnu then d.halfTouched p rescan once times else once) d.commands false = true

end Phone

end Plan

section Operations

variable [Libc]

/-- It sends so many commands that change nothing, and ends early where one fails and this is
noticed. -/
structure Heeds (k : ℕ) (x : OpsM Phone Unit) : Prop where
  ends : ∀ s, Ends x s
    (fun _ t => t.adb.plan = s.adb.plan ∧ t.adb.v2 = s.adb.v2 ∧
      t.adb.commands = s.adb.commands + k)
    fun _ t => t.tree = s.tree ∧ ∃ j < k, s.adb.breaks (s.adb.commands + j) = true

lemma Heeds.bind {k l : ℕ} {x y : OpsM Phone Unit} (hx : Heeds k x) (hy : Heeds l y)
    (hsame : Observes x) : Heeds (k + l) (x >>= fun _ => y) where
  ends s := by
    apply ends_bind.mpr
    apply ((hx.ends s).and (hsame.ends s)).imp
    · rintro _ t ⟨⟨hplan, hv2, hcommands⟩, htree, -⟩
      apply (hy.ends t).imp
      · rintro _ u ⟨hplan', hv2', hcommands'⟩
        exact ⟨hplan'.trans hplan, hv2'.trans hv2, by omega⟩
      · rintro _ u ⟨htree', j, hj, hbreaks⟩
        refine ⟨htree'.trans htree, k + j, by omega, ?_⟩
        rw [Phone.breaks, hplan, hv2, hcommands, Nat.add_assoc] at hbreaks
        exact hbreaks
    · rintro _ t ⟨⟨htree, j, hj, hbreaks⟩, -⟩
      exact ⟨htree, j, by omega, hbreaks⟩

lemma Heeds.whenRescan {k : ℕ} {x : OpsM Phone Unit} (hx : Heeds k x) (s : DeviceOps Phone) :
    Ends (whenRescan x) s (fun _ _ => True) fun _ t =>
      t.tree = s.tree ∧ s.rescan = true ∧ ∃ j < k, s.adb.breaks (s.adb.commands + j) = true := by
  apply ends_bind.mpr
  apply ends_read.mpr
  split_ifs with hrescan
  · exact (hx.ends s).imp (fun _ _ _ => trivial) fun _ _ ht => ⟨ht.1, hrescan, ht.2⟩
  · trivial

lemma run_noticed {c : Command} (d : Phone)
    (hc : ∀ tree fate, ∃ lines, Phone.perform tree fate c = some (.ok lines, tree)) :
    (Phone.run c d).2.tree = d.tree ∧
      ∀ e, (Phone.answer d.v2 (Phone.run c d).1).bind AdbCli.shellLines = .error e →
        d.breaks d.commands = true := by
  obtain ⟨lines, hperform⟩ := hc d.tree (d.plan d.commands)
  rcases Phone.run_eq c d with ⟨-, answer, hp, hrun⟩ | ⟨hfails, tree, hrun, htree⟩
  · obtain rfl := Option.some.inj (hperform.symm.trans hp)
    rw [hrun]
    exact ⟨rfl, fun e he => by simp [Phone.answer, Except.bind, AdbCli.shellLines] at he⟩
  · rw [hperform] at hfails htree
    have hsame : tree = d.tree := by
      rcases htree with h | ⟨-, -, a, h⟩
      · exact h
      · exact (Prod.mk.inj (Option.some.inj h)).2.symm
    rw [hrun, Phone.breaks, hfails.resolve_right (by simp), Bool.true_and]
    refine ⟨hsame, fun e he => ?_⟩
    cases hfailure : (d.plan d.commands).failure with
    | transport _ => rfl
    | message said exitCode =>
      simp only [Phone.failed, hfailure, Phone.answer, Except.bind, AdbCli.shellLines] at he
      rw [Failure.noticed]
      cases hv2 : d.v2 with
      | false => simp [hv2] at he
      | true =>
        rw [hv2, if_pos rfl] at he
        split_ifs at he with hcode
        simpa using hcode.2

lemma heeds_shell {cmd : Text} {c : Command} (hcmd : readCommands cmd = some [c])
    (hc : ∀ tree fate, ∃ lines, Phone.perform tree fate c = some (.ok lines, tree)) :
    Heeds 1 (DeviceOps.transport (AdbDevice.shell cmd : Action Phone AdbError (List Text)) >>=
      fun _ => pure ()) where
  ends s := by
    obtain ⟨hplan, hv2, hcommands⟩ := Phone.run_plan c s.adb
    obtain ⟨htree, hbreaks⟩ := run_noticed s.adb hc
    apply ends_bind.mpr
    apply ends_transport.mpr
    apply ends_asAction.mpr
    simp only [Phone.shell, Phone.shellWithStderr, hcmd, Phone.runAll_singleton]
    exact ⟨fun _ _ => ⟨hplan, hv2, hcommands⟩,
      fun e he => ⟨htree, 0, Nat.one_pos, hbreaks e he⟩⟩

lemma heeds_rescanFile (p : Text) : Heeds 1 (rescanFile p : OpsM Phone Unit) :=
  heeds_shell (readCommands_rescanFileCmd p) fun _ fate => ⟨fate.lines, rfl⟩

lemma heeds_rescanDirRemoved (p : Text) : Heeds 1 (rescanDirRemoved p : OpsM Phone Unit) :=
  heeds_shell (readCommands_rescanDirRemovedCmd p) fun _ fate => ⟨fate.lines, rfl⟩

lemma heeds_syncDevice : Heeds 1 (syncDevice : OpsM Phone Unit) where
  ends s := by
    have h := (heeds_shell readCommands_sync fun _ fate => ⟨fate.lines, rfl⟩).ends s
    apply ends_transport.mpr
    apply ends_bind.mpr
    exact (ends_transport.mp (ends_bind.mp h)).imp (fun _ _ ht => ht) fun _ _ ht => ht

lemma runMutation_halfway {cmd : Text} {c : Command} (hc : readCommands cmd = some [c])
    (hsilent : c.Silent) {s : DeviceOps Phone} (hs : s.adb.Honest) (k : ℕ) :
    Ends (runMutation cmd) s
      (fun _ t => t = { s with adb := (Phone.run c s.adb).2 } ∧
        (s.adb.plan s.adb.commands).fails = false ∧
          Phone.perform s.tree (s.adb.plan s.adb.commands) c ≠ none)
      fun _ t => t.tree = s.tree ∨ s.adb.Halfway c k := by
  apply (runMutation_run hc hsilent hs).imp
  · rintro _ t ⟨ht, hfails, a, hp⟩
    exact ⟨ht, hfails, by simp [hp]⟩
  · rintro _ t (htree | ⟨hfails, hlands, a, hp⟩)
    · exact Or.inl htree
    · exact Or.inr ⟨by simp [hp], by rwa [if_pos hfails]⟩

lemma halfway_ends {cmd : Text} {c : Command} (hc : readCommands cmd = some [c])
    (hsilent : c.Silent) {s : DeviceOps Phone} (hs : s.adb.Honest) {k : ℕ} {x : OpsM Phone Unit}
    (hx : Heeds k x) :
    Ends (runMutation cmd >>= fun _ => whenRescan x) s (fun _ _ => True)
      fun _ t => t.tree = s.tree ∨ s.adb.Halfway c (if s.rescan then k else 0) := by
  obtain ⟨hplan, hv2, hcommands⟩ := Phone.run_plan c s.adb
  apply ends_bind.mpr
  apply (runMutation_halfway hc hsilent hs _).imp
  · rintro _ _ ⟨rfl, hfails, hp⟩
    apply (hx.whenRescan _).imp
    · exact fun _ _ _ => trivial
    · rintro _ t ⟨-, hrescan, j, hj, hbreaks⟩
      refine Or.inr ⟨hp, ?_⟩
      rw [hfails, if_neg Bool.false_ne_true, if_pos hrescan]
      refine ⟨j, hj, ?_⟩
      rw [Phone.breaks, hplan, hv2, hcommands] at hbreaks
      exact hbreaks
  · exact fun _ _ ht => ht

section Mutations

variable {s : DeviceOps Phone} (hs : s.adb.Honest)

include hs

lemma mkdir_halfway (p : Text) : Ends (mkdir p) s (fun _ _ => True)
    fun _ t => t.tree = s.tree ∨ s.adb.Halfway (.mkdir p) 0 :=
  (runMutation_halfway (readCommands_mkdirCmd p) (silent_mkdir p) hs 0).imp
    (fun _ _ _ => trivial) fun _ _ ht => ht

lemma rm_halfway (p : Text) : Ends (rm p) s (fun _ _ => True)
    fun _ t => t.tree = s.tree ∨ s.adb.Halfway (.rm p) (if s.rescan then 1 else 0) :=
  halfway_ends (readCommands_rmCmd p) (silent_rm p) hs (heeds_rescanFile p)

lemma rmdir_halfway (p : Text) : Ends (rmdir p) s (fun _ _ => True)
    fun _ t => t.tree = s.tree ∨ s.adb.Halfway (.rmdir p) (if s.rescan then 1 else 0) :=
  halfway_ends (readCommands_rmdirCmd p) (silent_rmdir p) hs (heeds_rescanDirRemoved p)

lemma mv_halfway (source target : Text) : Ends (mv source target) s (fun _ _ => True)
    fun _ t => t.tree = s.tree ∨
      s.adb.Halfway (.mv source target) (if s.rescan then 2 else 0) :=
  halfway_ends (readCommands_mvCmd source target) (silent_mv source target) hs
    ((heeds_rescanFile source).bind (heeds_rescanFile target) (observes_rescanFile source))

end Mutations

lemma pushAndSync_halfway (here : LocalPath) (contents : Option Bytes) (p : Text)
    (s : DeviceOps Phone) :
    Ends (pushAndSync here contents p) s (fun _ _ => True) fun _ t => t.tree = s.tree ∨
      (contents = none → here = .scratch) ∧ s.adb.HalfPushed s.adb.commands contents p := by
  apply ends_bind.mpr
  apply ends_transport.mpr
  apply ends_asAction.mpr
  simp only [Phone.push]
  have hthere : (contents.isSome || here == .scratch) = true ↔
      (contents = none → here = .scratch) := by
    cases contents <;> simp
  split_ifs with hgood hland
  · simp only [Bool.and_eq_true, Bool.not_eq_true', beq_iff_eq] at hgood
    obtain ⟨⟨hfails, ⟨hfits, hdir⟩, hsent⟩, hdata⟩ := hgood
    refine ⟨fun _ _ => ?_, fun _ h => nomatch h⟩
    apply (heeds_syncDevice.ends _).imp
    · exact fun _ _ _ => trivial
    · rintro _ t ⟨-, j, hj, hbreaks⟩
      obtain rfl : j = 0 := by omega
      exact Or.inr ⟨hthere.mp (by simpa using hsent), hfits, hdir,
        by rw [if_pos ⟨hfails, hdata⟩]; exact hbreaks⟩
  · simp only [Bool.and_eq_true, Bool.not_eq_true'] at hland
    obtain ⟨hlands, ⟨hfits, hdir⟩, hsent⟩ := hland
    refine ⟨fun _ h => (nomatch h), fun _ _ => Or.inr ⟨hthere.mp hsent, hfits, hdir, ?_⟩⟩
    rw [if_neg]
    · exact hlands
    · rintro ⟨hfails, hdata⟩
      apply hgood
      simp only [Bool.and_eq_true, Bool.not_eq_true', beq_iff_eq]
      exact ⟨⟨hfails, ⟨hfits, hdir⟩, hsent⟩, hdata⟩
  · exact ⟨fun _ h => (nomatch h), fun _ _ => Or.inl rfl⟩

section Touch

/-- What is left of the plan once some of the touches have been sent. -/
structure Partly (d d' : Phone) (p : Text) (i : ℕ) (landed : Bool) : Prop where
  plan : d'.plan = d.plan
  v2 : d'.v2 = d.v2
  commands : d'.commands = i
  again : ∀ fate, (Phone.perform d'.tree fate (.touch p)).isSome =
    (Phone.perform d.tree fate (.touch p)).isSome
  landed : d'.tree = d.tree ∨ landed = true

variable {d d' : Phone} {p : Text} {i : ℕ} {landed rescan : Bool} {retry : ℕ → Bool → Bool}

lemma perform_touch_again {tree tree' : Tree} {fate : Fate} {a : Except Failure (List Text)}
    (h : Phone.perform tree fate (.touch p) = some (a, tree')) (fate' : Fate) :
    (Phone.perform tree' fate' (.touch p)).isSome = (Phone.perform tree fate' (.touch p)).isSome := by
  have hdir := (perform_touch h).2.isDir
  have hdata : ((tree' p).map Node.data).getD (some []) = ((tree p).map Node.data).getD (some []) := by
    simp only [Phone.perform] at h
    split_ifs at h with hcond
    simp only [Option.some.injEq, Prod.mk.injEq] at h
    rw [← h.2, Function.update_self, ← hcond.2.1]
    rfl
  simp only [Phone.perform, hdir, hdata]
  split_ifs <;> rfl

lemma Partly.run (h : Partly d d' p i landed) :
    ((d.plan i).fails = false ∧ d.touches p i = true ∧ (Phone.run (.touch p) d').1 = .ok [] ∧
        Partly d (Phone.run (.touch p) d').2 p (i + 1) true) ∨
      (!(d.plan i).fails && d.touches p i) = false ∧
        (Phone.run (.touch p) d').1 = .error (d.plan i).failure ∧
          Partly d (Phone.run (.touch p) d').2 p (i + 1)
            (landed || ((d.plan i).lands && d.touches p i)) := by
  obtain ⟨hplan, hv2, hcommands⟩ := Phone.run_plan (.touch p) d'
  have hfate : d'.plan d'.commands = d.plan i := by rw [h.plan, h.commands]
  have hagain := h.again (d.plan i)
  rw [h.commands] at hcommands
  rcases Phone.run_eq (.touch p) d' with ⟨hfails, ⟨a, tree⟩, hp, hrun⟩ | ⟨hfails, tree, hrun, htree⟩
  · rw [hfate] at hfails hp
    rw [hp] at hagain
    refine Or.inl ⟨hfails, hagain.symm, ?_, hplan.trans h.plan, hv2.trans h.v2, hcommands, ?_,
      Or.inr rfl⟩
    · rw [hrun, (perform_touch hp).1]
    · intro fate
      rw [hrun]
      exact (perform_touch_again hp fate).trans (h.again fate)
  · rw [hfate] at hfails htree
    refine Or.inr ⟨?_, ?_, hplan.trans h.plan, hv2.trans h.v2, hcommands, ?_, ?_⟩
    · rcases hfails with hfails | hnone
      · simp [hfails]
      · rw [hnone] at hagain
        simp [Phone.touches, ← hagain]
    · rw [hrun, Phone.failed, hfate]
    · intro fate
      rw [hrun]
      rcases htree with htree | ⟨-, -, a, hp⟩
      · exact htree ▸ h.again fate
      · exact (perform_touch_again hp fate).trans (h.again fate)
    · rw [hrun]
      rcases htree with htree | ⟨-, hlands, a, hp⟩
      · change tree = d.tree ∨ _
        rw [htree]
        exact h.landed.imp_right fun hlanded => by simp [hlanded]
      · rw [hp] at hagain
        exact Or.inr (by simp [Phone.touches, hlands, ← hagain])

lemma Partly.runAll (left : ℕ) (h : Partly d d' p i landed) :
    (∃ j landed', (Phone.runAll (List.replicate left (.touch p)) d').1 = .ok [] ∧
        Partly d (Phone.runAll (List.replicate left (.touch p)) d').2 p j landed' ∧
          d.halfTouched p rescan retry left i landed = (landed' && (rescan && d.breaks j))) ∨
      ∃ j landed', (Phone.runAll (List.replicate left (.touch p)) d').1 =
          .error (d.plan j).failure ∧
        Partly d (Phone.runAll (List.replicate left (.touch p)) d').2 p (j + 1) landed' ∧
          d.halfTouched p rescan retry left i landed = d.stopped rescan retry j landed' := by
  induction left generalizing d' i landed with
  | zero => exact Or.inl ⟨i, landed, rfl, h, rfl⟩
  | succ left ih =>
    rw [List.replicate_succ, Phone.runAll, Phone.halfTouched]
    rcases hrun : Phone.run (.touch p) d' with ⟨r, u⟩
    have hstep := h.run
    rw [hrun] at hstep
    rcases hstep with ⟨hfails, htouches, hr, hnext⟩ | ⟨hcond, hr, hnext⟩
    · obtain rfl : r = .ok [] := hr
      rw [if_pos (by simp [hfails, htouches])]
      rcases ih hnext with ⟨j, landed', hall, hleft, heq⟩ | ⟨j, landed', hall, hleft, heq⟩
      · exact Or.inl ⟨j, landed', by simp [hall, Except.map], hleft, heq⟩
      · exact Or.inr ⟨j, landed', by simp [hall, Except.map], hleft, heq⟩
    · obtain rfl : r = .error (d.plan i).failure := hr
      rw [hcond, if_neg Bool.false_ne_true]
      exact Or.inr ⟨i, _, rfl, hnext, rfl⟩

lemma touchRound_halfway {gnu : Bool} {atime mtime : Option SystemTime} {x : OpsM Phone Unit}
    {s : DeviceOps Phone} (h : Partly d s.adb p i landed) (hs : s.rescan = rescan)
    (hgnu : gnu = false → retry = fun _ landed => landed)
    (hretry : gnu = true → ∀ {j landed} {t : DeviceOps Phone}, Partly d t.adb p j landed →
      t.rescan = rescan →
        Ends x t (fun _ _ => True) fun _ u => u.tree = d.tree ∨ retry j landed = true) :
    Ends (touchRound gnu p atime mtime x) s (fun _ _ => True) fun _ t => t.tree = d.tree ∨
      d.halfTouched p rescan retry (atime.toList.length + mtime.toList.length) i landed = true := by
  by_cases hparts : touchParts p atime mtime gnu = []
  · rw [touchRound, if_pos hparts]
    trivial
  have hlen : (touchParts p atime mtime gnu).length = atime.toList.length + mtime.toList.length := by
    cases atime <;> cases mtime <;> rfl
  have hrescan : ∀ {j : ℕ} {landed : Bool} {t : DeviceOps Phone}, Partly d t.adb p j landed →
      t.rescan = rescan → Ends (whenRescan (rescanFile p)) t (fun _ _ => True) fun _ u =>
        u.tree = d.tree ∨ (landed && (rescan && d.breaks j)) = true := by
    intro j landed t ht hsame
    apply ((heeds_rescanFile p).whenRescan t).imp
    · exact fun _ _ _ => trivial
    · rintro _ u ⟨htree, hon, k, hk, hbreaks⟩
      obtain rfl : k = 0 := by omega
      have hbreak : d.breaks j = true := by
        rw [Phone.breaks, ht.plan, ht.v2, ht.commands] at hbreaks
        exact hbreaks
      refine ht.landed.imp htree.trans fun hlanded => ?_
      rw [hlanded, hbreak, ← hsame, hon]
      rfl
  rw [touchRound, if_neg hparts]
  apply ends_bind.mpr
  apply ends_transport.mpr
  apply ends_asAction.mpr
  simp only [Phone.shellWithStderr, readCommands_touch p gnu hparts, hlen]
  rcases h.runAll (atime.toList.length + mtime.toList.length) with
    ⟨j, landed', hr, hleft, heq⟩ | ⟨j, landed', hr, hleft, heq⟩
  · rw [hr, heq]
    refine ⟨fun output houtput => ?_, by simp [Phone.answer]⟩
    obtain rfl := Except.ok.inj houtput
    exact hrescan hleft hs
  · rw [hr, heq, Phone.stopped]
    cases (d.plan j).failure with
    | transport e => exact ⟨by simp [Phone.answer], fun _ _ => hleft.landed⟩
    | message lines exitCode =>
      refine ⟨fun output houtput => ?_, by simp [Phone.answer]⟩
      have hmessage : firstMessage output = firstMessage ⟨lines, [], exitCode⟩ := by
        rw [← Except.ok.inj houtput, firstMessage, firstMessage]
        cases s.adb.v2 <;> simp
      rw [hmessage]
      dsimp only
      cases firstMessage ⟨lines, [], exitCode⟩ with
      | none => exact hrescan hleft hs
      | some message =>
        dsimp only
        split_ifs with hdate hold
        · have hfalse : gnu = false := by simpa using hold
          rw [hgnu hfalse]
          exact hleft.landed
        · have htrue : gnu = true := by simpa using hold
          apply ends_bind.mpr
          apply ends_update.mpr
          exact hretry htrue hleft hs
        · exact hleft.landed

end Touch

lemma touch_halfway (p : Text) (atime mtime : Option SystemTime) (s : DeviceOps Phone) :
    Ends (touch p atime mtime) s (fun _ _ => True) fun _ t => t.tree = s.tree ∨
      s.adb.HalfTouched s.touchGnuMode s.rescan p (atime.toList.length + mtime.toList.length) := by
  have hstart : Partly s.adb s.adb p s.adb.commands false :=
    ⟨rfl, rfl, rfl, fun _ => rfl, Or.inl rfl⟩
  apply ends_bind.mpr
  apply ends_read.mpr
  rw [Phone.HalfTouched]
  cases hgnu : s.touchGnuMode with
  | false =>
    exact touchRound_halfway hstart rfl (fun _ => rfl) fun h => absurd h Bool.false_ne_true
  | true =>
    apply touchRound_halfway hstart rfl fun h => absurd h.symm Bool.false_ne_true
    intro _ j landed t ht hsame
    exact touchRound_halfway ht hsame (fun _ => rfl) fun h => absurd h Bool.false_ne_true

end Operations

end Adbfs
