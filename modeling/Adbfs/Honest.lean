import Adbfs.PhoneOps
import Adbfs.Upkeep

namespace Adbfs

open Library Library.Paths Library.Action

section Honest

variable [Libc]

/-- A command that fails tells so, by a message or by its exit code where the device has them. -/
def Failure.Told (v2 : Bool) : Failure → Prop
  | .transport _ => True
  | .message lines exitCode =>
    ((∃ line ∈ lines, Text.trim line ≠ []) ∨ v2 = true ∧ exitCode ≠ 0) ∧
      ∀ line ∈ lines, IsRemark line

/-- Every failure is told, and there are finitely many files. -/
structure Phone.Honest (d : Phone) : Prop where
  told : ∀ n, (d.plan n).failure.Told d.v2
  finite : { p | d.tree p ≠ none }.Finite

namespace Phone

lemma finite_update {tree : Tree} (h : { p | tree p ≠ none }.Finite) (p : Text)
    (n : Option Node) : { q | Function.update tree p n q ≠ none }.Finite := by
  apply (h.insert p).subset
  intro q hq
  by_cases hqp : q = p
  · exact Or.inl hqp
  · change Function.update tree p n q ≠ none at hq
    rw [Function.update_of_ne hqp] at hq
    exact Or.inr hq

lemma finite_moveTree {tree : Tree} (h : { p | tree p ≠ none }.Finite) (source target : Text) :
    { p | moveTree source target tree p ≠ none }.Finite := by
  apply (h.union (h.image (movePath source target))).subset
  intro p hp
  change moveTree source target tree p ≠ none at hp
  rw [moveTree] at hp
  cases hr : rebase target source p with
  | none =>
    rw [hr] at hp
    dsimp only at hp
    split_ifs at hp with hgone
    · exact absurd rfl hp
    · exact Or.inl hp
  | some q =>
    rw [hr] at hp
    refine Or.inr ⟨q, hp, ?_⟩
    rw [movePath, rebase_comm hr]
    rfl

lemma finite_perform {tree tree' : Tree} {fate : Fate} {c : Command}
    {a : Except Failure (List Text)} (h : { p | tree p ≠ none }.Finite)
    (hp : perform tree fate c = some (a, tree')) : { p | tree' p ≠ none }.Finite := by
  have hmade : tree' = tree ∨ (∃ p n, tree' = Function.update tree p n) ∨
      ∃ source target, tree' = moveTree source target tree := by
    cases c with
    | stat p => exact Or.inl (perform_stat hp).1
    | list p => exact Or.inl (perform_list hp).1
    | mv source target =>
      simp only [perform] at hp
      split_ifs at hp
      simp only [Option.some.injEq, Prod.mk.injEq] at hp
      exact Or.inr (Or.inr ⟨_, _, hp.2.symm⟩)
    | broadcast =>
      simp only [perform, Option.some.injEq, Prod.mk.injEq] at hp
      exact Or.inl hp.2.symm
    | sync =>
      simp only [perform, Option.some.injEq, Prod.mk.injEq] at hp
      exact Or.inl hp.2.symm
    | _ =>
      simp only [perform] at hp
      split_ifs at hp
      simp only [Option.some.injEq, Prod.mk.injEq] at hp
      exact Or.inr (Or.inl ⟨_, _, hp.2.symm⟩)
  rcases hmade with rfl | ⟨p, n, rfl⟩ | ⟨source, target, rfl⟩
  · exact h
  · exact finite_update h p n
  · exact finite_moveTree h source target

lemma run_fate (c : Command) (d : Phone) :
    (∃ fate, perform d.tree fate c = some ((run c d).1, (run c d).2.tree)) ∨
      (run c d).1 = .error (d.plan d.commands).failure ∧
        ((d.plan d.commands).fails = true ∨ perform d.tree (d.plan d.commands) c = none) := by
  rcases run_eq c d with ⟨-, answer, hp, hrun⟩ | ⟨hfails, tree, hrun, -⟩
  · rw [hrun]
    exact Or.inl ⟨_, hp⟩
  · rw [hrun]
    exact Or.inr ⟨rfl, hfails⟩

lemma run_plan (c : Command) (d : Phone) : (run c d).2.plan = d.plan ∧
    (run c d).2.v2 = d.v2 ∧ (run c d).2.commands = d.commands + 1 := by
  rcases run_eq c d with ⟨-, answer, -, hrun⟩ | ⟨-, tree, hrun, -⟩ <;>
    · rw [hrun]
      exact ⟨rfl, rfl, rfl⟩

lemma Honest.of_same {d d' : Phone} (h : d.Honest) (hplan : d'.plan = d.plan) (hv2 : d'.v2 = d.v2)
    (hfinite : { p | d'.tree p ≠ none }.Finite) : d'.Honest := by
  refine ⟨fun n => ?_, hfinite⟩
  rw [hplan, hv2]
  exact h.told n

lemma Honest.run {d : Phone} (h : d.Honest) (c : Command) : (run c d).2.Honest := by
  obtain ⟨hplan, hv2, -⟩ := run_plan c d
  apply h.of_same hplan hv2
  rcases run_tree c d with htree | ⟨fate, a, hp⟩
  · rw [htree]
    exact h.finite
  · exact finite_perform h.finite hp

lemma Honest.runAll {d : Phone} (h : d.Honest) (cs : List Command) : (runAll cs d).2.Honest := by
  induction cs generalizing d with
  | nil => exact h
  | cons c cs ih =>
    have hrun := h.run c
    rw [Phone.runAll]
    split
    · next heq =>
      rw [heq] at hrun
      exact hrun
    · next heq =>
      rw [heq] at hrun
      exact ih hrun

lemma Honest.shellWithStderr {d : Phone} (h : d.Honest) (cmd : Text) :
    (shellWithStderr cmd d).2.Honest := by
  rw [Phone.shellWithStderr]
  split
  · exact h.runAll _
  · exact h.of_same rfl rfl h.finite

lemma Honest.listed_lines {d : Phone} (h : d.Honest) {p : Text} {lines : List Text}
    (hlines : (answer d.v2 (Phone.run (.list p) d).1).bind AdbCli.shellLines = .ok lines) :
    (∀ line ∈ lines, ∃ item, listedLine d.tree p item = some line) ∨
      ∀ line ∈ lines, IsRemark line := by
  rcases run_fate (.list p) d with ⟨fate, hp⟩ | ⟨hfail, -⟩
  · obtain ⟨-, -, listed, hlisted, hitems⟩ := perform_list hp
    rw [hlisted] at hlines
    simp only [answer, Except.bind, AdbCli.shellLines, ne_eq, not_true_eq_false, and_false,
      if_false, Except.ok.injEq] at hlines
    exact Or.inl (hlines ▸ hitems)
  · rw [hfail] at hlines
    have htold := h.told d.commands
    right
    cases hf : (d.plan d.commands).failure with
    | transport e => simp [hf, answer, Except.bind] at hlines
    | message said exitCode =>
      rw [hf] at htold hlines
      cases hv2 : d.v2 with
      | true =>
        simp only [hv2, answer, Except.bind, AdbCli.shellLines, if_true, true_and] at hlines
        split_ifs at hlines
        rw [← Except.ok.inj hlines]
        intro line hline
        exact absurd hline List.not_mem_nil
      | false =>
        simp only [hv2, answer, Except.bind, AdbCli.shellLines, Bool.false_eq_true, if_false,
          ne_eq, not_true_eq_false, and_false, Except.ok.injEq] at hlines
        rw [← hlines]
        exact htold.2

lemma Honest.names {d : Phone} (h : d.Honest) {p : Text} {lines : List Text}
    (hlines : (shell (lsDirCmd p) d).1 = .ok lines) :
    ∀ line ∈ lines, ∀ e, listLine line = some (some e) → IsName e.1 := by
  simp only [shell, Phone.shellWithStderr, readCommands_lsDirCmd, runAll_singleton] at hlines
  intro line hline e he
  rcases h.listed_lines hlines with hitems | htold
  · obtain ⟨item, hitem⟩ := hitems line hline
    exact (listedLine_cases hitem he).1
  · exact (htold line hline).2 e he

instance : DeviceInvariant Phone.Honest where
  shell cmd := ⟨fun _ h => h.shellWithStderr cmd⟩
  shellWithStderr cmd := ⟨fun _ h => h.shellWithStderr cmd⟩
  pull p here d h := by
    change (Phone.pull p here d).2.Honest
    rw [Phone.pull]
    split_ifs
    · exact h.of_same rfl rfl h.finite
    · split <;> exact h.of_same rfl rfl h.finite
  push here contents p := by
    refine ⟨fun d h => ?_⟩
    change (Phone.push here contents p d).2.Honest
    simp only [Phone.push]
    split_ifs
    · exact h.of_same rfl rfl (finite_update h.finite _ _)
    · exact h.of_same rfl rfl (finite_update h.finite _ _)
    · exact h.of_same rfl rfl h.finite
  syncDevice := by
    refine Keeps.bind ⟨fun d h => ?_⟩ fun _ => keeps_pure _
    exact h.shellWithStderr _
  names p d lines d' h hlines entries hentries := by
    have hnamed : Ends (asAction (Phone.shell (lsDirCmd p))) d
        (fun lines _ => ∀ line ∈ lines, ∀ e, listLine line = some (some e) → IsName e.1)
        fun _ _ => True := ends_asAction.mpr ⟨fun _ ha => h.names ha, fun _ _ => trivial⟩
    intro e he
    obtain ⟨line, hline, hle⟩ := mem_listLines hentries he
    exact hnamed.of_ok hlines line hline e hle

end Phone

section Operations

/-- A mutation sends one command. It goes on where that is carried out, and else the command has
had no effect, or it is one that lands though it fails. -/
lemma runMutation_run {cmd : Text} {c : Command} (hc : readCommands cmd = some [c])
    (hsilent : c.Silent) {s : DeviceOps Phone} (hs : s.adb.Honest) :
    Ends (runMutation cmd) s
      (fun _ t => t = { s with adb := (Phone.run c s.adb).2 } ∧
        (s.adb.plan s.adb.commands).fails = false ∧
          ∃ a, Phone.perform s.tree (s.adb.plan s.adb.commands) c = some (a, t.tree))
      fun _ t => t.tree = s.tree ∨ (s.adb.plan s.adb.commands).fails = true ∧
        (s.adb.plan s.adb.commands).lands = true ∧
          ∃ a, Phone.perform s.tree (s.adb.plan s.adb.commands) c = some (a, t.tree) := by
  apply ends_bind.mpr
  apply ends_transport.mpr
  apply ends_asAction.mpr
  simp only [Phone.shellWithStderr, hc, Phone.runAll_singleton]
  rcases Phone.run_eq c s.adb with ⟨hfails, ⟨a, tree⟩, hp, hrun⟩ | ⟨-, tree, hrun, htree⟩
  · obtain rfl := hsilent _ _ _ _ hp
    rw [hrun]
    refine ⟨fun output houtput => ?_, by simp [Phone.answer]⟩
    obtain rfl := Except.ok.inj houtput
    exact ⟨rfl, hfails, _, hp⟩
  · rw [hrun]
    refine ⟨fun output houtput => ?_, fun _ _ => htree⟩
    have htold := hs.told s.adb.commands
    cases hf : (s.adb.plan s.adb.commands).failure with
    | transport e => simp [Phone.failed, hf, Phone.answer] at houtput
    | message lines exitCode =>
      simp only [Phone.failed, hf, Phone.answer, Except.ok.injEq] at houtput
      rw [hf] at htold
      cases hmsg : firstMessage output with
      | some message => exact htree
      | none =>
        have hquiet : ∀ line ∈ lines, Text.trim line = [] := by
          rw [firstMessage, List.find?_eq_none] at hmsg
          intro line hline
          by_contra hne
          refine hmsg (Text.trim line) (List.mem_map.mpr ⟨line, ?_, rfl⟩) (by simpa using hne)
          rw [← houtput]
          cases s.adb.v2 <;> simpa using hline
        rcases htold.1 with ⟨line, hline, hne⟩ | ⟨hv2, hcode⟩
        · exact absurd (hquiet line hline) hne
        · rw [← houtput, hv2]
          dsimp only
          rw [if_pos rfl, if_pos hcode]
          exact htree

lemma runMutation_told {cmd : Text} {c : Command} (hc : readCommands cmd = some [c])
    (hsilent : c.Silent) {s : DeviceOps Phone} (hs : s.adb.Honest) :
    Ends (runMutation cmd) s (fun _ t => ∃ fate a, Phone.perform s.tree fate c = some (a, t.tree))
      fun _ t => t.tree = s.tree ∨ ∃ fate a, Phone.perform s.tree fate c = some (a, t.tree) :=
  (runMutation_run hc hsilent hs).imp (fun _ _ ht => ⟨_, ht.2.2⟩)
    fun _ _ ht => ht.imp_right fun hp => ⟨_, hp.2.2⟩

end Operations

end Honest

end Adbfs
