import Adbfs.Library.Outcome
import Adbfs.Phone

namespace Adbfs

open Library Library.Paths Library.Action

namespace Phone

variable [Libc]

section Run

variable (c : Command) (d : Phone)

lemma run_eq :
    ((d.plan d.commands).fails = false ∧ ∃ answer,
      perform d.tree (d.plan d.commands) c = some answer ∧
        run c d = (answer.1, { d with tree := answer.2, commands := d.commands + 1 })) ∨
    ((d.plan d.commands).fails = true ∨ perform d.tree (d.plan d.commands) c = none) ∧
      ∃ tree, run c d = failed (d.plan d.commands) tree d ∧ (tree = d.tree ∨
        (d.plan d.commands).fails = true ∧ (d.plan d.commands).lands = true ∧
          ∃ answer, perform d.tree (d.plan d.commands) c = some (answer, tree)) := by
  rw [run]
  cases hp : perform d.tree (d.plan d.commands) c with
  | none =>
    refine Or.inr ⟨Or.inr rfl, d.tree, ?_, Or.inl rfl⟩
    split_ifs <;> rfl
  | some answer =>
    cases hfails : (d.plan d.commands).fails with
    | false => exact Or.inl ⟨rfl, answer, rfl, by rw [if_neg Bool.false_ne_true]⟩
    | true =>
      rw [if_pos rfl]
      refine Or.inr ⟨Or.inl rfl, _, rfl, ?_⟩
      split_ifs with hlands
      · exact Or.inr ⟨rfl, hlands, answer.1, rfl⟩
      · exact Or.inl rfl

lemma run_cases :
    (d.failures < (run c d).2.failures ∧ ∃ e, (run c d).1 = .error e) ∨
      ((run c d).2.failures = d.failures ∧
        ∃ fate, perform d.tree fate c = some ((run c d).1, (run c d).2.tree)) := by
  rcases run_eq c d with ⟨-, answer, hp, hrun⟩ | ⟨-, tree, hrun, -⟩
  · rw [hrun]
    exact Or.inr ⟨rfl, _, hp⟩
  · rw [hrun]
    exact Or.inl ⟨Nat.lt_succ_self _, _, rfl⟩

lemma run_tree : (run c d).2.tree = d.tree ∨
    ∃ fate answer, perform d.tree fate c = some (answer, (run c d).2.tree) := by
  rcases run_eq c d with ⟨-, answer, hp, hrun⟩ | ⟨-, tree, hrun, htree | ⟨-, -, answer, hp⟩⟩
  · rw [hrun]
    exact Or.inr ⟨_, _, hp⟩
  · rw [hrun]
    exact Or.inl htree
  · rw [hrun]
    exact Or.inr ⟨_, _, hp⟩

lemma runAll_singleton : runAll [c] d = run c d := by
  simp only [runAll]
  split
  · next h => exact h.symm
  · next h => simpa [Except.map] using h.symm

end Run

end Phone

section Operations

variable [Libc]

abbrev DeviceOps.tree (s : DeviceOps Phone) : Tree := s.adb.tree

abbrev DeviceOps.failures (s : DeviceOps Phone) : ℕ := s.adb.failures

lemma ends_transport {α : Type} {x : Action Phone AdbError α} {s : DeviceOps Phone}
    {Q : α → DeviceOps Phone → Prop} {E : Abort DeviceError → DeviceOps Phone → Prop} :
    Ends (DeviceOps.transport x) s Q E ↔
      Ends x s.adb (fun a d => Q a { s with adb := d })
        fun e d => E (e.map .adb) { s with adb := d } := by
  rw [DeviceOps.transport, ends_zoom, ends_mapError]

lemma ends_asAction {α : Type} {f : Phone → Except AdbError α × Phone} {d : Phone}
    {Q : α → Phone → Prop} {E : Abort AdbError → Phone → Prop} :
    Ends (Phone.asAction f) d Q E ↔
      (∀ a, (f d).1 = .ok a → Q a (f d).2) ∧ ∀ e, (f d).1 = .error e → E (.error e) (f d).2 := by
  simp only [Ends, Phone.asAction]
  cases hf : (f d).1 <;> simp

/-- Commands may have failed, and if none has, then `P`. -/
def Quietly (s t : DeviceOps Phone) (P : Prop) : Prop :=
  s.failures ≤ t.failures ∧ (t.failures = s.failures → P)

lemma Quietly.of_lt {s t : DeviceOps Phone} {P : Prop} (h : s.failures < t.failures) :
    Quietly s t P := ⟨h.le, fun heq => absurd heq (by omega)⟩

lemma shellWithStderr_cases {cmd : Text} {c : Command} (hc : readCommands cmd = some [c])
    (d : Phone) :
    (d.failures < (Phone.shellWithStderr cmd d).2.failures ∧
      ((Phone.shellWithStderr cmd d).2.tree = d.tree ∨ ∃ fate a,
        Phone.perform d.tree fate c = some (a, (Phone.shellWithStderr cmd d).2.tree))) ∨
    ((Phone.shellWithStderr cmd d).2.failures = d.failures ∧ ∃ fate a,
      Phone.perform d.tree fate c = some (a, (Phone.shellWithStderr cmd d).2.tree) ∧
        (Phone.shellWithStderr cmd d).1 = Phone.answer d.v2 a) := by
  simp only [Phone.shellWithStderr, hc, Phone.runAll_singleton]
  rcases Phone.run_cases c d with ⟨hlt, -⟩ | ⟨heq, fate, hp⟩
  · exact Or.inl ⟨hlt, Phone.run_tree c d⟩
  · exact Or.inr ⟨heq, fate, _, hp, rfl⟩

lemma ends_command {α : Type} {g : ShellOutput → Except AdbError α} {cmd : Text} {c : Command}
    (hc : readCommands cmd = some [c]) {s : DeviceOps Phone} {Q : α → DeviceOps Phone → Prop}
    {E : Abort DeviceError → DeviceOps Phone → Prop}
    (hfail : ∀ r : Result DeviceError α, ∀ t, s.failures < t.failures →
      (t.tree = s.tree ∨ ∃ fate a, Phone.perform s.tree fate c = some (a, t.tree)) →
      match r with
      | .ok o => Q o t
      | .error e => E e t)
    (hdone : ∀ fate a t, Phone.perform s.tree fate c = some (a, t.tree) →
      t.failures = s.failures →
      match (Phone.answer s.adb.v2 a).bind g with
      | .ok o => Q o t
      | .error e => E (.error (.adb e)) t) :
    Ends (DeviceOps.transport (Phone.asAction fun d =>
      ((Phone.shellWithStderr cmd d).1.bind g, (Phone.shellWithStderr cmd d).2))) s Q E := by
  apply ends_transport.mpr
  apply ends_asAction.mpr
  rcases shellWithStderr_cases hc s.adb with ⟨hlt, htree⟩ | ⟨heq, fate, a, hp, hr⟩
  · exact ⟨fun o _ => hfail (.ok o) _ hlt htree, fun e _ => hfail (.error (.error (.adb e))) _ hlt htree⟩
  · have h := hdone fate a ⟨(Phone.shellWithStderr cmd s.adb).2, s.touchGnuMode, s.rescan⟩ hp heq
    dsimp only
    rw [hr]
    constructor
    · intro o ho
      rw [ho] at h
      exact h
    · intro e he
      rw [he] at h
      exact h

lemma shellWithStderr_eq (cmd : Text) :
    (AdbDevice.shellWithStderr cmd : Action Phone AdbError ShellOutput) =
      Phone.asAction fun d =>
        ((Phone.shellWithStderr cmd d).1.bind .ok, (Phone.shellWithStderr cmd d).2) := by
  change Phone.asAction (Phone.shellWithStderr cmd) = _
  congr 1
  funext d
  cases h : Phone.shellWithStderr cmd d with
  | mk r d' => cases r <;> rfl

def Command.Silent (c : Command) : Prop :=
  ∀ tree fate a tree', Phone.perform tree fate c = some (a, tree') → a = .ok []

lemma silent_mkdir (p : Text) : (Command.mkdir p).Silent := by
  intro tree fate a tree' h
  simp only [Phone.perform] at h
  split_ifs at h
  simp_all

lemma silent_rm (p : Text) : (Command.rm p).Silent := by
  intro tree fate a tree' h
  simp only [Phone.perform] at h
  split_ifs at h
  simp_all

lemma silent_rmdir (p : Text) : (Command.rmdir p).Silent := by
  intro tree fate a tree' h
  simp only [Phone.perform] at h
  split_ifs at h
  simp_all

lemma silent_mv (source target : Text) : (Command.mv source target).Silent := by
  intro tree fate a tree' h
  simp only [Phone.perform] at h
  split_ifs at h
  simp_all

lemma runMutation_ends {cmd : Text} {c : Command} (hc : readCommands cmd = some [c])
    (hsilent : c.Silent) (s : DeviceOps Phone) :
    Ends (runMutation cmd) s
      (fun _ t => Quietly s t (∃ fate a, Phone.perform s.tree fate c = some (a, t.tree)))
      fun _ t => s.failures < t.failures := by
  apply ends_bind.mpr
  rw [shellWithStderr_eq]
  apply ends_command hc
  · intro r t hlt _
    cases r with
    | error e => exact hlt
    | ok o =>
      dsimp only
      split
      · exact hlt
      · split_ifs
        · exact hlt
        · exact Quietly.of_lt hlt
  · intro fate a t hp heq
    obtain rfl := hsilent _ _ _ _ hp
    have hquiet : Quietly s t (∃ fate a, Phone.perform s.tree fate c = some (a, t.tree)) :=
      ⟨heq.ge, fun _ => ⟨fate, _, hp⟩⟩
    simpa [Phone.answer, firstMessage, Except.bind] using hquiet

/-- The tree stays, and an error comes of a command that failed. -/
structure Observes {α : Type} (x : OpsM Phone α) : Prop where
  ends : ∀ s, Ends x s (fun _ t => t.tree = s.tree ∧ s.failures ≤ t.failures)
    fun _ t => t.tree = s.tree ∧ s.failures < t.failures

lemma Observes.bind {α β : Type} {x : OpsM Phone α} {f : α → OpsM Phone β} (hx : Observes x)
    (hf : ∀ a, Observes (f a)) : Observes (x >>= f) where
  ends s := by
    apply ends_bind.mpr
    apply (hx.ends s).imp
    · rintro a t ⟨htree, hle⟩
      apply ((hf a).ends t).imp
      · exact fun _ u hu => ⟨hu.1.trans htree, hle.trans hu.2⟩
      · exact fun _ u hu => ⟨hu.1.trans htree, hle.trans_lt hu.2⟩
    · exact fun _ t ht => ht

lemma observes_pure {α : Type} (a : α) : Observes (pure a : OpsM Phone α) :=
  ⟨fun _ => ⟨rfl, le_rfl⟩⟩

lemma observes_shell {cmd : Text} {c : Command} (hc : readCommands cmd = some [c])
    (htree : ∀ tree fate a tree', Phone.perform tree fate c = some (a, tree') →
      tree' = tree ∧ ∃ lines, a = .ok lines) :
    Observes (DeviceOps.transport (AdbDevice.shell cmd : Action Phone AdbError (List Text))) where
  ends s := by
    apply ends_command hc
    · intro r t hlt hperf
      have hsame : t.tree = s.tree := by
        rcases hperf with h | ⟨fate, a, h⟩
        · exact h
        · exact (htree _ _ _ _ h).1
      cases r with
      | ok o => exact ⟨hsame, hlt.le⟩
      | error e => exact ⟨hsame, hlt⟩
    · intro fate a t hp heq
      obtain ⟨hsame, lines, rfl⟩ := htree _ _ _ _ hp
      have hdone : t.tree = s.tree ∧ s.failures ≤ t.failures := ⟨hsame, heq.ge⟩
      simpa [Phone.answer, Except.bind, AdbCli.shellLines] using hdone

lemma observes_broadcast {cmd : Text} (hc : readCommands cmd = some [.broadcast]) :
    Observes (DeviceOps.transport (AdbDevice.shell cmd : Action Phone AdbError (List Text)) >>=
      fun _ => pure ()) := by
  refine (observes_shell hc ?_).bind fun _ => observes_pure ()
  intro tree fate a tree' h
  simp only [Phone.perform, Option.some.injEq, Prod.mk.injEq] at h
  exact ⟨h.2.symm, _, h.1.symm⟩

lemma observes_rescanFile (p : Text) : Observes (rescanFile p : OpsM Phone Unit) :=
  observes_broadcast (readCommands_rescanFileCmd p)

lemma observes_rescanDirRemoved (p : Text) : Observes (rescanDirRemoved p : OpsM Phone Unit) :=
  observes_broadcast (readCommands_rescanDirRemovedCmd p)

lemma observes_whenRescan {x : OpsM Phone Unit} (hx : Observes x) : Observes (whenRescan x) where
  ends s := by
    apply ends_bind.mpr
    apply ends_read.mpr
    split_ifs
    · exact hx.ends s
    · exact (observes_pure ()).ends s

lemma Ends.thenObserves {x y : OpsM Phone Unit} {s : DeviceOps Phone} {P : Tree → Prop}
    (hx : Ends x s (fun _ t => Quietly s t (P t.tree)) fun _ t => s.failures < t.failures)
    (hy : Observes y) :
    Ends (x >>= fun _ => y) s (fun _ t => Quietly s t (P t.tree))
      fun _ t => s.failures < t.failures := by
  apply ends_bind.mpr
  apply hx.imp
  · rintro _ t ⟨hle, hP⟩
    apply (hy.ends t).imp
    · rintro _ u ⟨htree, hle'⟩
      refine ⟨hle.trans hle', fun heq => ?_⟩
      rw [htree]
      exact hP (by omega)
    · exact fun _ u hu => hle.trans_lt hu.2
  · exact fun _ t ht => ht

lemma mkdir_ends (p : Text) (s : DeviceOps Phone) :
    Ends (mkdir p) s
      (fun _ t => Quietly s t (∃ n, s.tree p = none ∧ t.tree = Function.update s.tree p (some n)))
      fun _ t => s.failures < t.failures := by
  apply (runMutation_ends (readCommands_mkdirCmd p) (silent_mkdir p) s).imp
  · rintro _ t ⟨hle, hp⟩
    refine ⟨hle, fun heq => ?_⟩
    obtain ⟨fate, a, hp⟩ := hp heq
    simp only [Phone.perform] at hp
    split_ifs at hp with hcond
    simp only [Option.some.injEq, Prod.mk.injEq] at hp
    exact ⟨fate.node, hcond.1, hp.2.symm⟩
  · exact fun _ _ h => h

lemma rm_ends (p : Text) (s : DeviceOps Phone) :
    Ends (rm p) s (fun _ t => Quietly s t (t.tree = Function.update s.tree p none))
      fun _ t => s.failures < t.failures := by
  rw [rm]
  refine Ends.thenObserves (P := fun tree => tree = Function.update s.tree p none) ?_
    (observes_whenRescan (observes_rescanFile p))
  apply (runMutation_ends (readCommands_rmCmd p) (silent_rm p) s).imp
  · rintro _ t ⟨hle, hp⟩
    refine ⟨hle, fun heq => ?_⟩
    obtain ⟨fate, a, hp⟩ := hp heq
    simp only [Phone.perform] at hp
    split_ifs at hp with hcond
    simp only [Option.some.injEq, Prod.mk.injEq] at hp
    exact hp.2.symm
  · exact fun _ _ h => h

lemma rmdir_ends (p : Text) (s : DeviceOps Phone) :
    Ends (rmdir p) s (fun _ t => Quietly s t (t.tree = Function.update s.tree p none))
      fun _ t => s.failures < t.failures := by
  rw [rmdir]
  refine Ends.thenObserves (P := fun tree => tree = Function.update s.tree p none) ?_
    (observes_whenRescan (observes_rescanDirRemoved p))
  apply (runMutation_ends (readCommands_rmdirCmd p) (silent_rmdir p) s).imp
  · rintro _ t ⟨hle, hp⟩
    refine ⟨hle, fun heq => ?_⟩
    obtain ⟨fate, a, hp⟩ := hp heq
    simp only [Phone.perform] at hp
    split_ifs at hp with hcond
    simp only [Option.some.injEq, Prod.mk.injEq] at hp
    exact hp.2.symm
  · exact fun _ _ h => h

def Moved (source target : Text) (tree tree' : Tree) : Prop :=
  tree source ≠ none ∧ Phone.isDir tree (parentOf target) = true ∧
    (Phone.isDir tree source → tree target = none) ∧ tree' = moveTree source target tree

lemma mv_performed (source target : Text) (s : DeviceOps Phone) :
    Ends (mv source target) s
      (fun _ t => Quietly s t (∃ fate a,
        Phone.perform s.tree fate (.mv source target) = some (a, t.tree)))
      fun _ t => s.failures < t.failures := by
  rw [mv]
  exact Ends.thenObserves (P := fun tree => ∃ fate a,
      Phone.perform s.tree fate (.mv source target) = some (a, tree))
    (runMutation_ends (readCommands_mvCmd source target) (silent_mv source target) s)
    (observes_whenRescan ((observes_rescanFile source).bind fun _ => observes_rescanFile target))

lemma mv_ends (source target : Text) (s : DeviceOps Phone)
    (honto : Phone.mvTarget s.tree source target = target) :
    Ends (mv source target) s (fun _ t => Quietly s t (Moved source target s.tree t.tree))
      fun _ t => s.failures < t.failures := by
  apply (mv_performed source target s).imp
  · rintro _ t ⟨hle, hp⟩
    refine ⟨hle, fun heq => ?_⟩
    obtain ⟨fate, a, hp⟩ := hp heq
    simp only [Phone.perform, honto] at hp
    split_ifs at hp with hcond
    simp only [Option.some.injEq, Prod.mk.injEq] at hp
    exact ⟨hcond.1, hcond.2.1, hcond.2.2.2.1, hp.2.symm⟩
  · exact fun _ _ h => h

section Refiled

variable {p : Text} {tree tree' tree'' : Tree}

/-- A file at the path may have come or changed; none has gone, and no directory is another. -/
structure Refiled (p : Text) (tree tree' : Tree) : Prop where
  other : ∀ q, q ≠ p → tree' q = tree q
  dir : Phone.isDir tree' p = Phone.isDir tree p
  kept : tree p ≠ none → tree' p ≠ none
  placed : tree' p ≠ none → tree p ≠ none ∨ Phone.isDir tree (parentOf p) = true

lemma Refiled.refl (p : Text) (tree : Tree) : Refiled p tree tree :=
  ⟨fun _ _ => rfl, rfl, id, Or.inl⟩

lemma Refiled.isDir (h : Refiled p tree tree') (q : Text) :
    Phone.isDir tree' q = Phone.isDir tree q := by
  by_cases hq : q = p
  · rw [hq, h.dir]
  · rw [Phone.isDir, Phone.isDir, h.other q hq]

lemma Refiled.trans (h : Refiled p tree tree') (h' : Refiled p tree' tree'') :
    Refiled p tree tree'' where
  other q hq := (h'.other q hq).trans (h.other q hq)
  dir := h'.dir.trans h.dir
  kept hthere := h'.kept (h.kept hthere)
  placed hthere := by
    rcases h'.placed hthere with hthere | hparent
    · exact h.placed hthere
    · exact Or.inr ((h.isDir _).symm.trans hparent)

/-- The contents of a file that was there have not changed. -/
structure Touched (p : Text) (tree tree' : Tree) : Prop extends Refiled p tree tree' where
  data : tree p ≠ none → (tree' p).bind Node.data = (tree p).bind Node.data

lemma Touched.refl (p : Text) (tree : Tree) : Touched p tree tree := ⟨.refl p tree, fun _ => rfl⟩

lemma Touched.trans (h : Touched p tree tree') (h' : Touched p tree' tree'') :
    Touched p tree tree'' where
  toRefiled := h.toRefiled.trans h'.toRefiled
  data hthere := (h'.data (h.kept hthere)).trans (h.data hthere)

end Refiled

lemma perform_touch {p : Text} {tree tree' : Tree} {fate : Fate}
    {a : Except Failure (List Text)}
    (h : Phone.perform tree fate (.touch p) = some (a, tree')) :
    a = .ok [] ∧ Touched p tree tree' := by
  simp only [Phone.perform] at h
  split_ifs at h with hcond
  simp only [Option.some.injEq, Prod.mk.injEq] at h
  obtain ⟨rfl, rfl⟩ := h
  have hself : Function.update tree p (some fate.node) p = some fate.node :=
    Function.update_self _ _ _
  refine ⟨rfl, ⟨fun q hq => Function.update_of_ne hq _ _, ?_, by simp, fun _ => Or.inr hcond.1⟩,
    fun hthere => ?_⟩
  · rw [Phone.isDir, hself]
    exact hcond.2.2
  · obtain ⟨n, hn⟩ := Option.ne_none_iff_exists'.mp hthere
    rw [hself, Option.bind_some, hcond.2.1, hn]
    rfl

lemma runAll_touch (p : Text) (k : ℕ) (d : Phone) :
    d.failures < (Phone.runAll (List.replicate k (.touch p)) d).2.failures ∨
      ((Phone.runAll (List.replicate k (.touch p)) d).2.failures = d.failures ∧
        (Phone.runAll (List.replicate k (.touch p)) d).1 = .ok [] ∧
        Touched p d.tree (Phone.runAll (List.replicate k (.touch p)) d).2.tree) := by
  induction k generalizing d with
  | zero => exact Or.inr ⟨rfl, rfl, Touched.refl _ _⟩
  | succ k ih =>
    rw [List.replicate_succ, Phone.runAll]
    rcases hrun : Phone.run (.touch p) d with ⟨r, d'⟩
    rcases Phone.run_cases (.touch p) d with ⟨hlt, e, he⟩ | ⟨heq, fate, hp⟩
    · rw [hrun] at hlt he
      obtain rfl : r = .error e := he
      exact Or.inl hlt
    · rw [hrun] at heq hp
      obtain ⟨rfl, htouched⟩ := perform_touch hp
      rcases ih d' with hlt | ⟨heq', hr, htouched'⟩
      · exact Or.inl (heq ▸ hlt)
      · exact Or.inr ⟨heq'.trans heq, by simp [hr, Except.map], htouched.trans htouched'⟩

lemma touchRound_ends {p : Text} {atime mtime : Option SystemTime} {gnu : Bool}
    {retry : OpsM Phone Unit} (s : DeviceOps Phone)
    (hretry : ∀ s, Ends retry s (fun _ t => s.failures ≤ t.failures)
      fun _ t => s.failures ≤ t.failures) :
    Ends (touchRound gnu p atime mtime retry) s
      (fun _ t => Quietly s t (Touched p s.tree t.tree)) fun _ t => s.failures < t.failures := by
  by_cases hparts : touchParts p atime mtime gnu = []
  · rw [touchRound, if_pos hparts]
    exact ⟨le_rfl, fun _ => Touched.refl _ _⟩
  · rw [touchRound, if_neg hparts]
    apply ends_bind.mpr
    apply ends_transport.mpr
    apply ends_asAction.mpr
    have hread := readCommands_touch p gnu hparts
    simp only [Phone.shellWithStderr, hread]
    have hrun := runAll_touch p (touchParts p atime mtime gnu).length s.adb
    rcases hrun with hlt | ⟨heq, hr, htouched⟩
    · constructor
      · intro o _
        split
        · split_ifs
          · exact hlt
          · apply ends_bind.mpr
            apply ends_update.mpr
            apply (hretry _).imp
            · exact fun _ t ht => Quietly.of_lt (hlt.trans_le ht)
            · exact fun _ t ht => hlt.trans_le ht
          · exact hlt
        · apply ((observes_whenRescan (observes_rescanFile p)).ends _).imp
          · exact fun _ t ht => Quietly.of_lt (hlt.trans_le ht.2)
          · exact fun _ t ht => hlt.trans ht.2
      · exact fun _ _ => hlt
    · rw [hr]
      constructor
      · rintro o ho
        obtain rfl := Except.ok.inj ho
        simp only [firstMessage, List.append_nil, List.map_nil, List.find?_nil]
        apply ((observes_whenRescan (observes_rescanFile p)).ends _).imp
        · rintro _ t ⟨htree, hle⟩
          refine ⟨heq.ge.trans hle, fun _ => ?_⟩
          rw [htree]
          exact htouched
        · exact fun _ t ht => heq.ge.trans_lt ht.2
      · exact fun _ he => nomatch he

lemma touch_ends (p : Text) (atime mtime : Option SystemTime) (s : DeviceOps Phone) :
    Ends (touch p atime mtime) s (fun _ t => Quietly s t (Touched p s.tree t.tree))
      fun _ t => s.failures < t.failures := by
  apply ends_bind.mpr
  apply ends_read.mpr
  apply touchRound_ends
  intro u
  apply (touchRound_ends u fun _ => le_rfl).imp
  · exact fun _ t ht => ht.1
  · exact fun _ t ht => ht.le

section Metadata

lemma parseLsLine_missing (t : Text) : parseLsLine ("ls: ".toList ++ t) = some none := by
  have hfields : Text.splitWhitespace ("ls: ".toList ++ t) = "ls:".toList :: Text.fieldsFrom [] t := by
    rfl
  rw [parseLsLine, hfields]
  split
  · next f0 f1 f2 f3 f4 f5 more heq =>
    obtain rfl : "ls:".toList = f0 := (List.cons.inj heq).1
    rfl
  · rfl

omit [Libc] in
lemma missing_suffix (p : Text) :
    ¬ permissionErrSuffix <:+ "ls: ".toList ++ p ++ ": No such file or directory".toList := by
  intro h
  have hshort := List.suffix_of_suffix_length_le h (List.suffix_append _ _) (by decide)
  exact absurd hshort (by decide)

/-- The answer for a path: its metadata, or the error for a missing file or for a line that reads as
a denial. -/
structure Stats (tree : Tree) (p : Text) (r : Result DeviceError FileMeta) : Prop where
  found : ∀ m, r = .ok m → ∃ n, tree p = some n ∧ SameMeta n.entry.fileMeta m
  failed : ∀ e, r = .error e → (tree p = none ∧ e = .error (.notFound p)) ∨
    e = .error (.permissionDenied p) ∧ ∃ n, tree p = some n ∧ permissionErrSuffix <:+ n.entry.line p

lemma decodeMetadata_state (p : Text) (lines : List Text) (s : DeviceOps Phone) :
    (decodeMetadata p lines s).2 = s := by
  cases lines with
  | nil => rfl
  | cons first rest =>
    rw [decodeMetadata]
    split_ifs
    · rfl
    · cases hparse : parseLsLine first with
      | none => rfl
      | some m => cases m <;> rfl

lemma decodeMetadata_found {tree : Tree} {p : Text} {n : Node} (hp : '/' ∈ p)
    (hn : tree p = some n) (s : DeviceOps Phone) :
    Stats tree p (decodeMetadata p [n.entry.line p] s).1 := by
  rw [decodeMetadata, n.entry.decodes hp]
  split_ifs with hsuffix
  · exact ⟨fun _ h => (nomatch h), fun e h => Or.inr ⟨(Except.error.inj h).symm, n, hn, hsuffix⟩⟩
  · refine ⟨fun m h => ⟨n, hn, ?_⟩, fun _ h => (nomatch h)⟩
    obtain rfl : { n.entry.fileMeta with rawLine := n.entry.line p } = m := Except.ok.inj h
    rfl

lemma decodeMetadata_missing {tree : Tree} {p : Text} (hp : tree p = none) (s : DeviceOps Phone) :
    Stats tree p (decodeMetadata p
      ["ls: ".toList ++ p ++ ": No such file or directory".toList] s).1 := by
  have hparse := parseLsLine_missing (p ++ ": No such file or directory".toList)
  rw [← List.append_assoc] at hparse
  rw [decodeMetadata, if_neg (missing_suffix p), hparse]
  exact ⟨fun _ h => (nomatch h), fun e h => Or.inl ⟨hp, (Except.error.inj h).symm⟩⟩

lemma perform_stat {tree tree' : Tree} {fate : Fate} {p : Text} {a : Except Failure (List Text)}
    (h : Phone.perform tree fate (.stat p) = some (a, tree')) :
    tree' = tree ∧ '/' ∈ p ∧ ((∃ n, tree p = some n ∧ a = .ok [n.entry.line p]) ∨
      tree p = none ∧ a = .error (Phone.missing p)) := by
  simp only [Phone.perform] at h
  split_ifs at h with hp
  split at h
  · next n hn =>
    simp only [Option.some.injEq, Prod.mk.injEq] at h
    exact ⟨h.2.symm, hp, Or.inl ⟨n, hn, h.1.symm⟩⟩
  · next hn =>
    simp only [Option.some.injEq, Prod.mk.injEq] at h
    exact ⟨h.2.symm, hp, Or.inr ⟨hn, h.1.symm⟩⟩

lemma getMetadata_ends (p : Text) (s : DeviceOps Phone) :
    Ends (getMetadata p) s
      (fun m t => t.tree = s.tree ∧ Quietly s t (Stats s.tree p (.ok m)))
      fun e t => t.tree = s.tree ∧ Quietly s t (Stats s.tree p (.error e)) := by
  have hdecode : ∀ (lines : List Text) (t : DeviceOps Phone), t.tree = s.tree →
      Quietly s t (Stats s.tree p (decodeMetadata p lines t).1) →
      Ends (decodeMetadata p lines) t
        (fun m t => t.tree = s.tree ∧ Quietly s t (Stats s.tree p (.ok m)))
        fun e t => t.tree = s.tree ∧ Quietly s t (Stats s.tree p (.error e)) := by
    intro lines t htree hstats
    have hstate := decodeMetadata_state p lines t
    apply ends_of_apply
    · intro m u hu
      rw [hu] at hstate hstats
      obtain rfl : u = t := hstate
      exact ⟨htree, hstats⟩
    · intro e u hu
      rw [hu] at hstate hstats
      obtain rfl : u = t := hstate
      exact ⟨htree, hstats⟩
  apply ends_bind.mpr
  rw [shellWithStderr_eq]
  apply ends_command (readCommands_lsMetadataCmd p)
  · intro r t hlt hperf
    have hsame : t.tree = s.tree := by
      rcases hperf with h | ⟨fate, a, h⟩
      · exact h
      · exact (perform_stat h).1
    cases r with
    | error e => exact ⟨hsame, Quietly.of_lt hlt⟩
    | ok o => exact hdecode _ t hsame (Quietly.of_lt hlt)
  · intro fate a t hp heq
    obtain ⟨hsame, hslash, ⟨n, hn, rfl⟩ | ⟨hn, rfl⟩⟩ := perform_stat hp
    · exact hdecode _ t hsame ⟨heq.ge, fun _ => decodeMetadata_found hslash hn t⟩
    · have hmissing : Quietly s t (Stats s.tree p (decodeMetadata p
          ["ls: ".toList ++ p ++ ": No such file or directory".toList] t).1) :=
        ⟨heq.ge, fun _ => decodeMetadata_missing hn t⟩
      cases s.adb.v2 with
      | true => exact hdecode _ t hsame hmissing
      | false => exact hdecode _ t hsame hmissing

def Lists (tree : Tree) (dir : Text) (entries : List (Text × Option FileMeta)) : Prop :=
  ∀ e ∈ entries, isDots e.1 = false → ∀ m, e.2 = some m →
    ∃ n, tree (childText dir e.1) = some n ∧ SameMeta n.entry.fileMeta m

/-- In the line of a file, the first arrow after the name leads to a target. -/
def LsEntry.Unambiguous (e : LsEntry) (name : Text) : Prop :=
  ¬ arrow <:+: name ++ (if e.columns.kind = .symlink then arrow.dropLast else [])

instance (e : LsEntry) (name : Text) : Decidable (e.Unambiguous name) :=
  inferInstanceAs (Decidable (¬ _))

def Phone.Legible (tree : Tree) (dir : Text) : Prop :=
  ∀ name n, IsName name → tree (childText dir name) = some n → n.entry.Unambiguous name

section Listing

variable {tree tree' : Tree} {fate : Fate} {dir line name : Text} {item : LsItem}
  {entries : List (Text × Option FileMeta)} {lines : List Text} {a : Except Failure (List Text)}

omit [Libc] in
lemma unambiguous_of_isDots (h : isDots name = true) {suffix : Text}
    (hsuffix : suffix = arrow.dropLast ∨ suffix = []) : ¬ arrow <:+: name ++ suffix := by
  simp only [isDots, Bool.or_eq_true, beq_iff_eq] at h
  rcases h with rfl | rfl <;> rcases hsuffix with rfl | rfl <;> decide

lemma listedLine_cases (h : Phone.listedLine tree dir item = some line)
    {e : Text × Option FileMeta} (he : listLine line = some (some e)) :
    IsName e.1 ∧ (e.2 = none ∨ ∃ name n, IsName name ∧ Phone.listedNode tree dir name = some n ∧
      e.1 <+: name ∧ (n.entry.Unambiguous name → e.1 = name) ∧
        ∀ m, e.2 = some m → SameMeta n.entry.fileMeta m) := by
  cases item with
  | remark said hremark =>
    obtain rfl : said = line := Option.some.inj h
    refine ⟨hremark.2 e he, Or.inl ?_⟩
    obtain ⟨read, fileMeta⟩ := e
    cases fileMeta with
    | none => rfl
    | some m => exact absurd (parseLsLine_of_listLine he) (hremark.1 m)
  | file name =>
    simp only [Phone.listedLine] at h
    split_ifs at h with hname
    obtain ⟨n, hn, rfl⟩ := Option.map_eq_some_iff.mp h
    have hbegins : Columns.namePart (n.entry.object hname).shown <+: name :=
      LsObject.namePart_prefix
    have hself := @LsObject.namePart_shown (n.entry.object hname)
    rw [n.entry.line_eq_listed hname, LsObject.listLine_listed_eq] at he
    split_ifs at he with hnil
    · simp at he
    · rw [← n.entry.line_eq_listed hname, LsEntry.parseLsLine_line, Option.map_some,
        Option.some.injEq, Option.some.injEq] at he
      subst he
      refine ⟨⟨hnil, fun hslash => hname.2 (hbegins.subset hslash)⟩,
        Or.inr ⟨name, n, hname, hn, hbegins, hself.mpr, fun m hm => ?_⟩⟩
      · dsimp only at hm
        split_ifs at hm
        obtain rfl := Option.some.inj hm
        rfl

lemma lists_of_performed (hlines : ∀ line ∈ lines, ∃ item,
      Phone.listedLine tree dir item = some line)
    (hlegible : Phone.Legible tree dir) (h : listLines lines = some entries) :
    Lists tree dir entries := by
  intro e he hdots m hm
  obtain ⟨line, hline, hle⟩ := mem_listLines h he
  obtain ⟨item, hitem⟩ := hlines line hline
  obtain ⟨-, hnone | ⟨name, n, hname, hn, -, hself, hmeta⟩⟩ := listedLine_cases hitem hle
  · rw [hm] at hnone
    contradiction
  · have hread : e.1 = name := by
      apply hself
      by_cases hd : isDots name = true
      · apply unambiguous_of_isDots hd
        split_ifs
        · exact Or.inl rfl
        · exact Or.inr rfl
      · simp only [isDots, Bool.or_eq_true, beq_iff_eq, not_or] at hd
        rw [Phone.listedNode, if_neg hd.1, if_neg hd.2] at hn
        exact hlegible name n hname hn
    rw [hread] at hdots ⊢
    simp only [isDots, Bool.or_eq_false_iff, beq_eq_false_iff_ne] at hdots
    rw [Phone.listedNode, if_neg hdots.1, if_neg hdots.2] at hn
    exact ⟨n, hn, hmeta m hm⟩

lemma perform_list (h : Phone.perform tree fate (.list dir) = some (a, tree')) :
    tree' = tree ∧ Phone.isDir tree dir = true ∧
      ∃ lines, a = .ok lines ∧ ∀ line ∈ lines, ∃ item, Phone.listedLine tree dir item = some line := by
  simp only [Phone.perform] at h
  split_ifs at h with hdir
  simp only [Option.some.injEq, Prod.mk.injEq] at h
  refine ⟨h.2.symm, hdir, _, h.1.symm, fun line hline => ?_⟩
  obtain ⟨item, -, hitem⟩ := List.mem_filterMap.mp hline
  exact ⟨item, hitem⟩

lemma listDir_ends (p : Text) (s : DeviceOps Phone) :
    Ends (listDir p) s
      (fun entries t => t.tree = s.tree ∧
        Quietly s t (Phone.Legible s.tree p → Lists s.tree p entries))
      fun _ t => t.tree = s.tree ∧ s.failures ≤ t.failures := by
  apply ends_bind.mpr
  apply ends_command (readCommands_lsDirCmd p)
  · intro r t hlt hperf
    have hsame : t.tree = s.tree := by
      rcases hperf with h | ⟨fate, a, h⟩
      · exact h
      · exact (perform_list h).1
    cases r with
    | error e => exact ⟨hsame, hlt.le⟩
    | ok lines =>
      apply ends_orCrash.mpr
      exact ⟨fun _ _ => ⟨hsame, Quietly.of_lt hlt⟩, fun _ => ⟨hsame, hlt.le⟩⟩
  · intro fate a t hp heq
    obtain ⟨hsame, -, lines, rfl, hlines⟩ := perform_list hp
    have hdone : Ends (orCrash (listLines lines) : OpsM Phone _) t
        (fun entries t => t.tree = s.tree ∧
          Quietly s t (Phone.Legible s.tree p → Lists s.tree p entries))
        fun _ t => t.tree = s.tree ∧ s.failures ≤ t.failures := by
      apply ends_orCrash.mpr
      exact ⟨fun entries hentries => ⟨hsame, heq.ge, fun _ hlegible =>
        lists_of_performed hlines hlegible hentries⟩, fun _ => ⟨hsame, heq.ge⟩⟩
    simpa [Phone.answer, Except.bind, AdbCli.shellLines] using hdone

end Listing

end Metadata

section Transfers

def Put (p : Text) (contents : Option Bytes) (tree tree' : Tree) : Prop :=
  Phone.fits tree p = true ∧
    ∃ n : Node, n.isDir = false ∧ n.data = contents ∧ tree' = Function.update tree p (some n)

/-- At most some file has been put at the path. -/
def Torn (p : Text) (tree tree' : Tree) : Prop :=
  tree' = tree ∨ ∃ contents, Put p contents tree tree'

variable (here : LocalPath) (contents : Option Bytes) (p : Text)

lemma push_ends (s : DeviceOps Phone) :
    Ends (push here contents p) s
      (fun _ t => t.failures = s.failures ∧ Put p contents s.tree t.tree)
      fun _ t => s.failures < t.failures ∧ Torn p s.tree t.tree := by
  apply ends_transport.mpr
  apply ends_asAction.mpr
  simp only [Phone.push]
  split_ifs with hgood hland
  · simp only [Bool.and_eq_true, Bool.not_eq_true', beq_iff_eq] at hgood
    constructor
    · exact fun _ _ => ⟨rfl, hgood.1.2.1.1, _, hgood.1.2.1.2, hgood.2, rfl⟩
    · exact fun _ h => nomatch h
  · simp only [Bool.and_eq_true, Bool.not_eq_true'] at hland
    constructor
    · exact fun _ h => nomatch h
    · exact fun _ _ => ⟨Nat.lt_succ_self _, Or.inr ⟨_, hland.2.1.1, _, hland.2.1.2, rfl, rfl⟩⟩
  · constructor
    · exact fun _ h => nomatch h
    · exact fun _ _ => ⟨Nat.lt_succ_self _, Or.inl rfl⟩

lemma observes_syncDevice : Observes (syncDevice : OpsM Phone Unit) where
  ends s := by
    have h := (observes_shell readCommands_sync (by
      intro tree fate a tree' h
      simp only [Phone.perform, Option.some.injEq, Prod.mk.injEq] at h
      exact ⟨h.2.symm, _, h.1.symm⟩)).ends s
    apply ends_transport.mpr
    apply ends_bind.mpr
    exact (ends_transport.mp h).imp (fun _ _ ht => ht) fun _ _ ht => ht

lemma pushAndSync_ends (s : DeviceOps Phone) :
    Ends (pushAndSync here contents p) s
      (fun _ t => s.failures ≤ t.failures ∧ Put p contents s.tree t.tree)
      fun _ t => s.failures < t.failures ∧ Torn p s.tree t.tree := by
  apply ends_bind.mpr
  apply (push_ends here contents p s).imp
  · rintro _ t ⟨heq, hput⟩
    apply (observes_syncDevice.ends t).imp
    · rintro _ u ⟨htree, hle⟩
      rw [htree]
      exact ⟨heq.ge.trans hle, hput⟩
    · rintro _ u ⟨htree, hlt⟩
      rw [htree]
      exact ⟨heq.ge.trans_lt hlt, Or.inr ⟨_, hput⟩⟩
  · exact fun _ _ h => h

lemma pull_cases (local' : Option Bytes) (d : Phone) :
    ((AdbDevice.pull p local' d).1.1 = .ok () ∧ ∃ b, (d.tree p).bind Node.data = some b ∧
      (AdbDevice.pull p local' d).1.2 = some b ∧ (AdbDevice.pull p local' d).2.tree = d.tree ∧
      (AdbDevice.pull p local' d).2.failures = d.failures) ∨
    ((∃ e, (AdbDevice.pull p local' d).1.1 = .error e) ∧
      (AdbDevice.pull p local' d).2.tree = d.tree ∧
      d.failures < (AdbDevice.pull p local' d).2.failures) := by
  change ((Phone.pull p local' d).1.1 = .ok () ∧ ∃ b, (d.tree p).bind Node.data = some b ∧
      (Phone.pull p local' d).1.2 = some b ∧ (Phone.pull p local' d).2.tree = d.tree ∧
      (Phone.pull p local' d).2.failures = d.failures) ∨
    ((∃ e, (Phone.pull p local' d).1.1 = .error e) ∧ (Phone.pull p local' d).2.tree = d.tree ∧
      d.failures < (Phone.pull p local' d).2.failures)
  rw [Phone.pull]
  split_ifs
  · exact Or.inr ⟨⟨_, rfl⟩, rfl, Nat.lt_succ_self _⟩
  · cases hb : (d.tree p).bind Node.data with
    | some b => exact Or.inl ⟨rfl, b, rfl, rfl, rfl, rfl⟩
    | none => exact Or.inr ⟨⟨_, rfl⟩, rfl, Nat.lt_succ_self _⟩

end Transfers

end Operations

end Adbfs
