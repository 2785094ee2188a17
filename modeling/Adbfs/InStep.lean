import Adbfs.Halfway
import Adbfs.OpenFiles
import Adbfs.Renames

/-! The cache and the inodes after a request that a command failed half-way through. -/

namespace Adbfs

open Library Library.Paths Library.Action

section Device

variable [Libc]

def OnlyAt (p : Text) (s t : DeviceOps Phone) : Prop := ∀ q, q ≠ p → t.tree q = s.tree q

variable {p : Text}

instance : Std.Refl (OnlyAt p) := ⟨fun _ _ _ => rfl⟩

instance : IsTrans (DeviceOps Phone) (OnlyAt p) :=
  ⟨fun _ _ _ h h' q hq => (h' q hq).trans (h q hq)⟩

def Command.Only (p : Text) (c : Command) : Prop :=
  ∀ tree fate a tree', Phone.perform tree fate c = some (a, tree') → ∀ q, q ≠ p → tree' q = tree q

lemma only_of_mem {c : Command} (h : c ∈ [Command.mkdir p, .rm p, .rmdir p]) : c.Only p := by
  intro tree fate a tree' hp q hq
  simp only [List.mem_cons, List.not_mem_nil, or_false] at h
  obtain rfl | rfl | rfl := h <;>
    · simp only [Phone.perform] at hp
      split_ifs at hp
      simp only [Option.some.injEq, Prod.mk.injEq] at hp
      rw [← hp.2, Function.update_of_ne hq]

lemma runAll_only {cs : List Command} (h : ∀ c ∈ cs, c.Only p) (d : Phone) {q : Text}
    (hq : q ≠ p) : (Phone.runAll cs d).2.tree q = d.tree q := by
  induction cs generalizing d with
  | nil => rfl
  | cons c cs ih =>
    have hrun : (Phone.run c d).2.tree q = d.tree q := by
      rcases Phone.run_tree c d with htree | ⟨fate, a, hp⟩
      · rw [htree]
      · exact h c (by simp) _ _ _ _ hp q hq
    rw [Phone.runAll]
    split
    · next heq =>
      rw [heq] at hrun
      exact hrun
    · next heq =>
      rw [heq] at hrun
      exact (ih (fun c hc => h c (by simp [hc])) _).trans hrun

lemma onlyAt_shellWithStderr {cmd : Text} {cs : List Command} (hcmd : readCommands cmd = some cs)
    (hcs : ∀ c ∈ cs, c.Only p) :
    Keeps (OnlyAt p) (DeviceOps.transport (AdbDevice.shellWithStderr cmd :
      Action Phone AdbError ShellOutput)) := by
  refine keeps_transport (R := fun d d' : Phone => ∀ q, q ≠ p → d'.tree q = d.tree q)
    (fun _ _ h => h) ⟨fun d q hq => ?_⟩
  change (Phone.shellWithStderr cmd d).2.tree q = d.tree q
  rw [Phone.shellWithStderr, hcmd]
  exact runAll_only hcs d hq

lemma onlyAt_of_observes {α : Type} {x : OpsM Phone α} (hx : Observes x) : Keeps (OnlyAt p) x := by
  apply Keeps.of_ends
  intro s
  apply (hx.ends s).imp
  · exact fun _ _ ht q _ => congrFun ht.1 q
  · exact fun _ _ ht q _ => congrFun ht.1 q

lemma onlyAt_runMutation {cmd : Text} {c : Command} (hcmd : readCommands cmd = some [c])
    (hc : c.Only p) : Keeps (OnlyAt p) (runMutation cmd : OpsM Phone Unit) := by
  apply (onlyAt_shellWithStderr hcmd (by simpa using hc)).bind
  intro output
  split
  · exact keeps_fail _
  · split_ifs
    · exact keeps_fail _
    · exact keeps_pure _

lemma onlyAt_mkdir (p : Text) : Keeps (OnlyAt p) (mkdir p : OpsM Phone Unit) :=
  onlyAt_runMutation (readCommands_mkdirCmd p) (only_of_mem (by simp))

lemma onlyAt_rm (p : Text) : Keeps (OnlyAt p) (rm p : OpsM Phone Unit) :=
  (onlyAt_runMutation (readCommands_rmCmd p) (only_of_mem (by simp))).bind fun _ =>
    onlyAt_of_observes (observes_whenRescan (observes_rescanFile p))

lemma onlyAt_rmdir (p : Text) : Keeps (OnlyAt p) (rmdir p : OpsM Phone Unit) :=
  (onlyAt_runMutation (readCommands_rmdirCmd p) (only_of_mem (by simp))).bind fun _ =>
    onlyAt_of_observes (observes_whenRescan (observes_rescanDirRemoved p))

def TouchedAt (p : Text) (s t : DeviceOps Phone) : Prop := Touched p s.tree t.tree

instance : Std.Refl (TouchedAt p) := ⟨fun s => .refl p s.tree⟩

instance : IsTrans (DeviceOps Phone) (TouchedAt p) := ⟨fun _ _ _ h h' => Touched.trans h h'⟩

lemma touched_runAll (n : ℕ) (d : Phone) :
    Touched p d.tree (Phone.runAll (List.replicate n (.touch p)) d).2.tree := by
  induction n generalizing d with
  | zero => exact .refl _ _
  | succ n ih =>
    have hrun : Touched p d.tree (Phone.run (.touch p) d).2.tree := by
      rcases Phone.run_tree (.touch p) d with htree | ⟨fate, a, hp⟩
      · exact htree ▸ .refl _ _
      · exact (perform_touch hp).2
    rw [List.replicate_succ, Phone.runAll]
    split
    · next heq =>
      rw [heq] at hrun
      exact hrun
    · next heq =>
      rw [heq] at hrun
      exact hrun.trans (ih _)

lemma touchedAt_of_observes {α : Type} {x : OpsM Phone α} (hx : Observes x) :
    Keeps (TouchedAt p) x := by
  apply Keeps.of_ends
  intro s
  have hsame : ∀ t : DeviceOps Phone, t.tree = s.tree → TouchedAt p s t := by
    intro t ht
    rw [TouchedAt, ht]
    exact .refl p s.tree
  exact (hx.ends s).imp (fun _ t ht => hsame t ht.1) fun _ t ht => hsame t ht.1

lemma touchedAt_touchRound {gnu : Bool} {atime mtime : Option SystemTime} {retry : OpsM Phone Unit}
    (hretry : Keeps (TouchedAt p) retry) :
    Keeps (TouchedAt p) (touchRound gnu p atime mtime retry) := by
  by_cases hparts : touchParts p atime mtime gnu = []
  · rw [touchRound, if_pos hparts]
    exact keeps_pure _
  · rw [touchRound, if_neg hparts]
    have hsent : Keeps (TouchedAt p) (DeviceOps.transport (AdbDevice.shellWithStderr
        (List.intercalate " && ".toList (touchParts p atime mtime gnu)) :
          Action Phone AdbError ShellOutput)) := by
      refine keeps_transport (R := fun d d' : Phone => Touched p d.tree d'.tree) (fun _ _ h => h)
        ⟨fun d => ?_⟩
      change Touched p d.tree (Phone.shellWithStderr _ d).2.tree
      rw [Phone.shellWithStderr, readCommands_touch p gnu hparts]
      exact touched_runAll _ d
    apply hsent.bind
    intro output
    split
    · split_ifs
      · exact keeps_fail _
      · have hmode : Keeps (TouchedAt p) (update fun s => { s with touchGnuMode := false } :
            OpsM Phone Unit) := keeps_update fun s => Touched.refl p s.tree
        exact hmode.bind fun _ => hretry
      · exact keeps_fail _
    · exact touchedAt_of_observes (observes_whenRescan (observes_rescanFile p))

lemma touchedAt_touch (p : Text) (atime mtime : Option SystemTime) :
    Keeps (TouchedAt p) (touch p atime mtime : OpsM Phone Unit) :=
  keeps_read.bind fun _ => touchedAt_touchRound (touchedAt_touchRound (keeps_fail _))

lemma onlyAt_touch (p : Text) (atime mtime : Option SystemTime) :
    Keeps (OnlyAt p) (touch p atime mtime : OpsM Phone Unit) :=
  (touchedAt_touch p atime mtime).imp fun _ _ h => h.other

lemma onlyAt_pushAndSync (here : LocalPath) (contents : Option Bytes) (p : Text) :
    Keeps (OnlyAt p) (pushAndSync here contents p : OpsM Phone Unit) := by
  have hput : ∀ {contents} {tree tree' : Tree}, Put p contents tree tree' →
      ∀ q, q ≠ p → tree' q = tree q := by
    rintro contents tree _ ⟨-, n, -, -, rfl⟩ q hq
    exact Function.update_of_ne hq _ _
  apply Keeps.of_ends
  intro s
  apply (pushAndSync_ends here contents p s).imp
  · exact fun _ t ht => hput ht.2
  · rintro _ t ⟨-, htree | ⟨_, ht⟩⟩
    · exact fun q _ => congrFun htree q
    · exact hput ht

end Device

section Metadata

variable [Libc]

/-- The text of a failed `ls` is not the kind that is taken for a missing file. -/
def Failure.Understood : Failure → Prop
  | .transport _ => True
  | .message lines _ => ∀ first ∈ lines.head?, permissionErrSuffix <:+ first

/-- The next command, if it asks for the metadata of the path, does not fail in a way that is taken
for a missing file while the file is there. -/
def Phone.Understood (p : Text) (d : Phone) : Prop :=
  d.tree p ≠ none → (d.plan d.commands).fails = true → (d.plan d.commands).failure.Understood

omit [Libc] in
lemma metadataLines_message (v2 : Bool) (lines : List Text) (exitCode : ℤ) :
    Phone.answer v2 (.error (.message lines exitCode)) =
      .ok (if v2 then ⟨[], lines, exitCode⟩ else ⟨lines, [], 0⟩) ∧
    metadataLines (if v2 then ⟨[], lines, exitCode⟩ else ⟨lines, [], 0⟩) = lines := by
  refine ⟨rfl, ?_⟩
  cases v2 with
  | false =>
    rw [metadataLines]
    simp
  | true =>
    rw [metadataLines]
    by_cases hlines : lines = []
    · simp [hlines]
    · simp [hlines]

lemma decodeMetadata_told {p : Text} {lines : List Text} {s : DeviceOps Phone}
    (hlines : ∀ line ∈ lines, ∀ m, parseLsLine line ≠ some (some m)) :
    Ends (decodeMetadata p lines) s (fun _ _ => False)
      fun e t => t = s ∧ ∀ q, e = .error (.notFound q) →
        ¬ ∀ first ∈ lines.head?, permissionErrSuffix <:+ first := by
  cases lines with
  | nil => exact ⟨rfl, fun _ h => by simp at h⟩
  | cons first rest =>
    rw [decodeMetadata]
    split_ifs with hsuffix
    · exact ⟨rfl, fun _ h => by simp at h⟩
    · apply ends_bind.mpr
      apply ends_orCrash.mpr
      refine ⟨fun m hm => ?_, fun _ => ⟨rfl, fun _ h => by simp at h⟩⟩
      apply ends_ofOption.mpr
      refine ⟨fun a ha => hlines first (by simp) a (by rw [hm, ha]), fun _ => ⟨rfl, ?_⟩⟩
      exact fun _ _ hall => hsuffix (hall first rfl)

/-- Metadata comes from the file itself, and no file is taken for missing unless its `ls` failed. -/
lemma getMetadata_told {p : Text} (hpath : Canonical p) {s : DeviceOps Phone} (hs : s.adb.Honest) :
    Ends (getMetadata p) s (fun m t => t.tree = s.tree ∧ Matches (s.tree p) (some m))
      fun e t => t.tree = s.tree ∧
        ∀ q, e = .error (.notFound q) → s.adb.Understood p → s.tree p = none := by
  have htree : (Phone.run (.stat p) s.adb).2.tree = s.tree := by
    rcases Phone.run_tree (.stat p) s.adb with htree | ⟨fate, a, hp⟩
    · exact htree
    · exact (perform_stat hp).1
  have hstats : ∀ (lines : List Text) (t : DeviceOps Phone), t.tree = s.tree →
      Stats s.tree p (decodeMetadata p lines t).1 →
      Ends (decodeMetadata p lines) t (fun m t => t.tree = s.tree ∧ Matches (s.tree p) (some m))
        fun e t => t.tree = s.tree ∧
          ∀ q, e = .error (.notFound q) → s.adb.Understood p → s.tree p = none := by
    intro lines t ht hst
    have hstate := decodeMetadata_state p lines t
    apply ends_of_apply
    · intro m u hu
      rw [hu] at hstate hst
      obtain rfl : u = t := hstate
      exact ⟨ht, hst.matches⟩
    · intro e u hu
      rw [hu] at hstate hst
      obtain rfl : u = t := hstate
      refine ⟨ht, fun q hq _ => ?_⟩
      rw [hq] at hst
      exact hst.missing.2
  apply ends_bind.mpr
  apply ends_transport.mpr
  apply ends_asAction.mpr
  simp only [Phone.shellWithStderr, readCommands_lsMetadataCmd, Phone.runAll_singleton]
  refine ⟨fun output houtput => ?_, fun _ _ => ⟨htree, fun _ h => by simp [Abort.map] at h⟩⟩
  rcases Phone.run_fate (.stat p) s.adb with ⟨fate, hp⟩ | ⟨hfail, hfails⟩
  · obtain ⟨-, hslash, ⟨n, hn, ha⟩ | ⟨hn, ha⟩⟩ := perform_stat hp
    · rw [ha] at houtput
      rw [← Except.ok.inj houtput]
      exact hstats _ _ htree (decodeMetadata_found hslash hn _)
    · rw [ha, Phone.missing, (metadataLines_message _ _ _).1] at houtput
      rw [← Except.ok.inj houtput, (metadataLines_message _ _ _).2]
      exact hstats _ _ htree (decodeMetadata_missing hn _)
  · have htold := hs.told s.adb.commands
    rw [hfail] at houtput
    cases hf : (s.adb.plan s.adb.commands).failure with
    | transport e => simp [hf, Phone.answer] at houtput
    | message lines exitCode =>
      rw [hf] at htold
      rw [hf, (metadataLines_message _ _ _).1] at houtput
      rw [← Except.ok.inj houtput, (metadataLines_message _ _ _).2]
      apply (decodeMetadata_told fun line hline => (htold.2 line hline).1).imp
      · exact fun _ _ hfalse => hfalse.elim
      · rintro e t ⟨rfl, hmissing⟩
        refine ⟨htree, fun q hq hunderstood => ?_⟩
        by_contra hthere
        have hsaid := hunderstood hthere (hfails.resolve_right ?_)
        · rw [hf] at hsaid
          exact hmissing q hq hsaid
        · simp only [Phone.perform, if_pos hpath.slash_mem]
          split <;> simp

lemma lists_of_told {tree : Tree} {dir : Text} {lines : List Text}
    {entries : List (Text × Option FileMeta)} (htold : ∀ line ∈ lines, IsRemark line)
    (h : listLines lines = some entries) : Lists tree dir entries := by
  rintro ⟨name, fileMeta⟩ he - m rfl
  obtain ⟨line, hline, hle⟩ := mem_listLines h he
  exact absurd (parseLsLine_of_listLine hle) ((htold line hline).1 m)

lemma listDir_told (p : Text) {s : DeviceOps Phone} (hs : s.adb.Honest)
    (hlegible : Phone.Legible s.tree p) :
    Ends (listDir p) s (fun entries t => t.tree = s.tree ∧ Lists s.tree p entries)
      fun _ t => t.tree = s.tree := by
  have htree : (Phone.run (.list p) s.adb).2.tree = s.tree := by
    rcases Phone.run_tree (.list p) s.adb with htree | ⟨fate, a, hp⟩
    · exact htree
    · exact (perform_list hp).1
  apply ends_bind.mpr
  apply ends_transport.mpr
  apply ends_asAction.mpr
  simp only [Phone.shell, Phone.shellWithStderr, readCommands_lsDirCmd, Phone.runAll_singleton]
  refine ⟨fun lines hlines => ?_, fun _ _ => htree⟩
  apply ends_orCrash.mpr
  refine ⟨fun entries hentries => ⟨htree, ?_⟩, fun _ => htree⟩
  rcases hs.listed_lines hlines with hitems | htold
  · exact lists_of_performed hitems hlegible hentries
  · exact lists_of_told htold hentries

end Metadata

section Steps

variable [Libc]

/-- Whatever failed, the cache has kept up with the device. -/
def InStep (w w' : PhoneFs) : Prop :=
  Sound Phone.Honest w → Sound Phone.Honest w' ∧ Refreshes w w'

lemma Refreshes.of_same {w w' : PhoneFs} (htree : w'.tree = w.tree)
    (hcache : ∀ p e, w'.cache.peek p = some e → w.cache.peek p = some e) : Refreshes w w' :=
  fun p _ he => Or.inr ⟨hcache p _ he, congrFun htree p⟩

instance : Frame InStep where
  refl _ h := ⟨h, Refreshes.of_same rfl fun _ _ he => he⟩
  trans _ _ _ h h' hs := ⟨(h' (h hs).1).1, (h hs).2.trans (h' (h hs).1).2⟩
  same w w' hops hcache hinodes hs := by
    refine ⟨⟨hinodes ▸ hs.wf, hops ▸ hs.device⟩, Refreshes.of_same ?_ fun p e he => hcache ▸ he⟩
    rw [AdbFs.tree, hops]
  pull p here w w' hops hcache hinodes hs := by
    refine ⟨⟨hinodes ▸ hs.wf, hops ▸ DeviceInvariant.pull p here _ hs.device⟩,
      Refreshes.of_same ?_ fun p e he => hcache ▸ he⟩
    rw [AdbFs.tree, hops]
    rcases pull_cases p here w.ops.adb with ⟨-, b, -, -, htree, -⟩ | ⟨-, htree, -⟩
    · exact htree
    · exact htree

/-- Where it ends early, the cache holds no entry of a path that it has changed on the device. -/
def Discreet {α : Type} (x : FsM Phone Errno α) (w : PhoneFs) : Prop :=
  ∀ e t, x w = (.error e, t) → ∀ q, t.tree q ≠ w.tree q → w.cache.peek q = none

lemma Discreet.refreshes {α : Type} {x : FsM Phone Errno α} {w t : PhoneFs} {e : Abort Errno}
    (hx : Discreet x w) (he : x w = (.error e, t)) (hcache : t.cache = w.cache) :
    Refreshes w t := by
  intro q entry hentry
  rw [hcache] at hentry
  refine Or.inr ⟨hentry, ?_⟩
  by_contra hne
  rw [hx e t he q hne] at hentry
  contradiction

lemma discreet_device {α : Type} {x : OpsM Phone α} {p : Text} {w : PhoneFs} {P : Prop}
    (hx : Keeps (OnlyAt p) x)
    (hhalf : Ends x w.ops (fun _ _ => True) fun _ t => t.tree = w.tree ∨ P)
    (hclean : w.cache.peek p ≠ none → ¬ P) : Discreet (device x) w := by
  intro e t he q hq
  have hboth : Ends (device x) w (fun _ _ => True) fun _ t =>
      (t.tree = w.tree ∨ P) ∧ ∀ q, q ≠ p → t.tree q = w.tree q := by
    apply ends_device.mpr
    exact (hhalf.and (hx.ends w.ops)).imp (fun _ _ _ => trivial) fun _ _ ht => ht
  obtain ⟨htree | hp, honly⟩ := hboth.of_error he
  · exact absurd (congrFun htree q) hq
  · obtain rfl : q = p := by
      by_contra hne
      exact hq (honly q hne)
    by_contra hne
    exact hclean hne hp

lemma Discreet.ends {α : Type} {x : FsM Phone Errno α} {w : PhoneFs} (hx : Discreet x w)
    (h : Ends x w (fun _ t => Refreshes w t) fun _ t => Refreshes w t ∨ t.cache = w.cache) :
    Ends x w (fun _ t => Refreshes w t) fun _ t => Refreshes w t := by
  apply h.remember.imp
  · exact fun _ _ ht => ht.1
  · rintro e t ⟨hkept | hcache, he⟩
    · exact hkept
    · exact hx.refreshes he hcache

lemma ends_inStep {ε α : Type} {x : FsM Phone ε α} {w : PhoneFs}
    (hgrows : Keeps (Grows Phone.Honest) x)
    (h : Sound Phone.Honest w → Ends x w (fun _ t => Refreshes w t) fun _ t => Refreshes w t) :
    Ends x w (fun _ t => InStep w t) fun _ t => InStep w t :=
  ends_iff.mpr fun hw => ⟨(hgrows.holds w hw).1, ends_iff.mp (h hw)⟩

lemma change_ends {x : OpsM Phone Unit} {p : Text} (hx : Keeps (OnlyAt p) x)
    {forget : MetadataCache → MetadataCache}
    (hforget : ∀ c q e, (forget c).peek q = some e → c.peek q = some e ∧ q ≠ p) (w : PhoneFs)
    (hdiscreet : Discreet (device x) w) :
    Ends (device x >>= fun _ => update (AdbFs.setCache forget)) w (fun _ t => Refreshes w t)
      fun _ t => Refreshes w t := by
  have hdevice : Ends (device x) w
      (fun _ t => t.cache = w.cache ∧ ∀ q, q ≠ p → t.tree q = w.tree q)
      fun _ t => t.cache = w.cache := by
    apply ends_device.mpr
    exact (hx.ends w.ops).imp (fun _ _ hs => ⟨rfl, hs⟩) fun _ _ _ => rfl
  apply ends_bind.mpr
  apply hdevice.remember.imp
  · rintro _ t ⟨⟨hcache, htree⟩, -⟩
    apply ends_update.mpr
    intro q e he
    obtain ⟨he, hq⟩ := hforget t.cache q e he
    exact Or.inr ⟨hcache ▸ he, htree q hq⟩
  · rintro e t ⟨hcache, he⟩
    exact hdiscreet.refreshes he hcache

lemma invalidate_ends {x : OpsM Phone Unit} {p : Text} (hx : Keeps (OnlyAt p) x) (w : PhoneFs)
    (hdiscreet : Discreet (device x) w) :
    Ends (device x >>= fun _ => cacheInvalidate p) w (fun _ t => Refreshes w t)
      fun _ t => Refreshes w t :=
  change_ends hx (fun _ _ _ he => MetadataCache.peek_invalidate_of_some he) w hdiscreet

lemma refreshes_insert {w t : PhoneFs} {p : Text} {m : Option FileMeta} {now : ℕ}
    (hw : Refreshes w t) (hm : Matches (t.tree p) m) :
    Refreshes w (t.setCache (MetadataCache.insert p m now)) := by
  intro q e he
  change (t.cache.insert p m now).peek q = some e at he
  rw [MetadataCache.peek_insert] at he
  split_ifs at he with hq
  · rw [hq, ← Option.some.inj he]
    exact Or.inl hm
  · exact hw q e he

variable (h : Host)

lemma device_getMetadata_told {p : Text} (hp : Canonical p) {w : PhoneFs} (hw : w.ops.adb.Honest) :
    Ends (device (getMetadata p)) w
      (fun m t => Refreshes w t ∧ Matches (t.tree p) (some m))
      fun _ t => Refreshes w t := by
  apply ends_device.mpr
  apply (getMetadata_told hp hw).imp
  · rintro m s ⟨htree, hm⟩
    refine ⟨Refreshes.of_same htree fun _ _ he => he, ?_⟩
    change Matches (s.tree p) (some m)
    rwa [htree]
  · exact fun _ s hs => Refreshes.of_same hs.1 fun _ _ he => he

lemma fetchMeta_refreshes {p : Text} (hp : Canonical p) {w : PhoneFs} (hw : w.ops.adb.Honest)
    (hunderstood : w.ops.adb.Understood p) :
    Ends (fetchMeta h p) w (fun _ t => Refreshes w t) fun _ t => Refreshes w t := by
  have hget : Refreshes w (w.setCache fun c => (c.get p h.now).2) :=
    Refreshes.of_same rfl fun _ _ he => w.cache.peek_of_peek_get he
  apply ends_bind.mpr
  apply ends_lift.mpr
  rcases (w.cache.get p h.now).1 with _ | _ | m
  · apply ends_bind.mpr
    apply ends_attempt.mpr
    apply ends_onDevice.mpr
    apply (getMetadata_told hp hw).imp
    · rintro m s ⟨htree, hm⟩
      apply ends_bind.mpr
      apply ends_update.mpr
      refine refreshes_insert (hget.trans (Refreshes.of_same htree fun _ _ he => he)) ?_
      change Matches (s.tree p) (some m)
      rwa [htree]
    · rintro e s ⟨htree, hmissing⟩
      have hsame : Refreshes w ((w.setCache fun c => (c.get p h.now).2).setOps s) :=
        hget.trans (Refreshes.of_same htree fun _ _ he => he)
      rcases e with e | _
      · cases e with
        | notFound q =>
          apply ends_bind.mpr
          apply ends_update.mpr
          refine refreshes_insert hsame ?_
          change Matches (s.tree p) none
          rw [htree, hmissing q rfl hunderstood]
          trivial
        | _ => exact hsame
      · exact hsame
  · exact hget
  · exact hget

lemma inStep_newEntry {p : Text} (hp : Canonical p) (f : FileMeta → ℕ → PhoneFs → Reply) :
    Keeps InStep (device (getMetadata p) >>= fun m => getOrAssignIno p >>= fun ino =>
      cacheInsert p (some m) h.now >>= fun _ => read >>= fun w => pure (f m ino w) :
        FsM Phone Errno Reply) := by
  apply Keeps.of_ends
  intro w
  apply ends_inStep (grows_newEntry h hp f)
  intro hw
  apply ends_bind.mpr
  apply (device_getMetadata_told hp hw.device).imp
  · exact fun m t ht => refreshes_insert ht.1 ht.2
  · exact fun _ _ ht => ht

lemma inStep_self (w : PhoneFs) : InStep w w := Std.Refl.refl w

lemma getattr_inStep (ino : ℕ) {w : PhoneFs}
    (hguard : ∀ p, w.inodes.getPath ino = some p → w.ops.adb.Understood p) :
    Ends (AdbFs.getattr h ino) w (fun _ t => InStep w t) fun _ t => InStep w t := by
  refine ends_getPath.mpr ⟨fun p hp => ?_, fun _ => inStep_self w⟩
  refine Ends.thenKeeps ?_ fun _ => keeps_read.bind fun _ => keeps_pure _
  apply ends_mapError.mpr
  exact ends_inStep (grows_fetchMeta h p) fun hw =>
    fetchMeta_refreshes h (hw.wf.canonical ino p hp) hw.device (hguard p hp)

lemma readlink_inStep (ino : ℕ) {w : PhoneFs}
    (hguard : ∀ p, w.inodes.getPath ino = some p → w.ops.adb.Understood p) :
    Ends (AdbFs.readlink h ino) w (fun _ t => InStep w t) fun _ t => InStep w t := by
  refine ends_getPath.mpr ⟨fun p hp => ?_, fun _ => inStep_self w⟩
  refine Ends.thenKeeps ?_ fun m => ?_
  · apply ends_mapError.mpr
    exact ends_inStep (grows_fetchMeta h p) fun hw =>
      fetchMeta_refreshes h (hw.wf.canonical ino p hp) hw.device (hguard p hp)
  · have hresolve : Keeps InStep (device (resolveSymlink p m.rawLine) : FsM Phone Errno Text) := by
      apply Keeps.mapError
      apply keeps_zoom
      intro v
      rw [resolveSymlink]
      cases parseSymlinkTarget m.rawLine (p.count '/') <;> exact Frame.same v _ rfl rfl rfl
    exact hresolve.bind fun _ => keeps_pure _

lemma inStep_getOrAssignIno {p : Text} (hp : Canonical p) :
    Keeps InStep (getOrAssignIno p : FsM Phone Errno ℕ) :=
  keeps_lift fun _ hw => ⟨⟨hw.wf.getOrAssignIno hp, hw.device⟩,
    Refreshes.of_same rfl fun _ _ he => he⟩

lemma Sound.canonical_child {w : PhoneFs} (hw : Sound Phone.Honest w) {parent : ℕ} {dir : Text}
    (hdir : w.inodes.getPath parent = some dir) (name : KernelName) :
    Canonical (Adbfs.childPath dir name) :=
  canonical_childPath (hw.wf.canonical parent dir hdir) name

lemma lookup_inStep (parent : ℕ) (name : KernelName) {w : PhoneFs} (hw : Sound Phone.Honest w)
    (hguard : ∀ p, renameSource w parent name = some p → w.ops.adb.Understood p) :
    Ends (AdbFs.lookup h parent name) w (fun _ t => InStep w t) fun _ t => InStep w t := by
  refine ends_getPath.mpr ⟨fun dir hdir => ?_, fun _ => inStep_self w⟩
  apply ends_bind.mpr
  apply ends_read.mpr
  refine Ends.thenKeeps ?_ fun found => ?_
  · apply ends_attempt_iff.mpr
    refine ends_inStep (grows_fetchMeta h _) fun hw =>
      fetchMeta_refreshes h (hw.canonical_child hdir name) hw.device (hguard _ ?_)
    rw [renameSource, hdir]
    rfl
  · rcases found with e | m
    · cases e with
      | notFound q =>
        dsimp only
        split_ifs
        · exact keeps_pure _
        · exact keeps_fail _
      | _ => exact keeps_fail _
    · exact (inStep_getOrAssignIno (hw.canonical_child hdir name)).bind fun _ => keeps_pure _

lemma Caches.refreshes {dir : Text} {all : List (Text × Option FileMeta)} {w u t : PhoneFs}
    (hw : Refreshes w u) (hc : Caches dir all u t) (hlists : Lists u.tree dir all) :
    Refreshes w t := by
  have htree : t.tree = u.tree := congrArg DeviceOps.tree hc.ops
  intro q e he
  rw [htree]
  rcases hc.fresh q e he with he | ⟨⟨name, fileMeta⟩, hmem, hdots, rfl, hsome, rfl⟩
  · exact hw q e he
  · obtain ⟨m, rfl⟩ := Option.isSome_iff_exists.mp hsome
    obtain ⟨n, hn, hsame⟩ := hlists _ hmem hdots m rfl
    left
    rw [hn]
    exact hsame

lemma opendir_inStep (ino : ℕ) {w : PhoneFs} (hw : Sound Phone.Honest w)
    (hguard : ∀ dir, w.inodes.getPath ino = some dir → Phone.Legible w.tree dir) :
    Ends (AdbFs.opendir h ino) w (fun _ t => InStep w t) fun _ t => InStep w t := by
  refine ends_inStep (grows_opendir h ino) fun _ => ?_
  refine ends_getPath.mpr ⟨fun p hp => ?_, fun _ => (inStep_self w hw).2⟩
  apply ends_bind.mpr
  apply ends_device.mpr
  apply (listDir_told p hw.device (hguard p hp)).imp
  · rintro entries s ⟨htree, hlists⟩
    have hsame : Refreshes w (w.setOps s) := Refreshes.of_same htree fun _ _ he => he
    have hlists' : Lists (w.setOps s).tree p entries := by
      change Lists s.tree p entries
      rwa [htree]
    apply ends_bind.mpr
    apply ((caches_listEntries h p entries entries (List.Subset.refl _)).ends _).imp
    · intro children t ht
      exact (ht.refreshes hsame hlists').trans (Refreshes.of_same rfl fun _ _ he => he)
    · exact fun _ t ht => ht.refreshes hsame hlists'
  · exact fun _ s hs => Refreshes.of_same hs fun _ _ he => he

lemma mkdir_inStep (parent : ℕ) (name : KernelName) {w : PhoneFs} (hw : Sound Phone.Honest w)
    (hguard : ∀ p, renameSource w parent name = some p → w.cache.peek p ≠ none →
      ¬ w.ops.adb.Halfway (.mkdir p) 0) :
    Ends (AdbFs.mkdir h parent name) w (fun _ t => InStep w t) fun _ t => InStep w t := by
  refine ends_getPath.mpr ⟨fun dir hdir => ?_, fun _ => inStep_self w⟩
  apply ends_bind_assoc.mpr
  refine Ends.thenKeeps ?_ fun _ => inStep_newEntry h (hw.canonical_child hdir name) _
  refine ends_inStep ((grows_device (kept_runMutation _)).bind fun _ => grows_setCache _)
    fun _ => ?_
  exact invalidate_ends (onlyAt_mkdir _) w (discreet_device (onlyAt_mkdir _)
    (mkdir_halfway hw.device _) (hguard _ (by rw [renameSource, hdir]; rfl)))

lemma unlink_inStep (parent : ℕ) (name : Bytes) {w : PhoneFs} (hw : Sound Phone.Honest w)
    (hguard : ∀ p, renameSource w parent name = some p → w.cache.peek p ≠ none →
      ¬ w.ops.adb.Halfway (.rm p) (if w.ops.rescan then 1 else 0)) :
    Ends (AdbFs.unlink parent name) w (fun _ t => InStep w t) fun _ t => InStep w t := by
  refine ends_getPath.mpr ⟨fun dir hdir => ?_, fun _ => inStep_self w⟩
  apply ends_bind_assoc.mpr
  refine Ends.thenKeeps ?_ fun _ => keeps_pure _
  refine ends_inStep ((grows_device (kept_rm _)).bind fun _ => grows_setCache _) fun _ => ?_
  exact invalidate_ends (onlyAt_rm _) w (discreet_device (onlyAt_rm _) (rm_halfway hw.device _)
    (hguard _ (by rw [renameSource, hdir]; rfl)))

lemma rmdir_inStep (parent : ℕ) (name : Bytes) {w : PhoneFs} (hw : Sound Phone.Honest w)
    (hguard : ∀ p, renameSource w parent name = some p → w.cache.peek p ≠ none →
      ¬ w.ops.adb.Halfway (.rmdir p) (if w.ops.rescan then 1 else 0)) :
    Ends (AdbFs.rmdir parent name) w (fun _ t => InStep w t) fun _ t => InStep w t := by
  refine ends_getPath.mpr ⟨fun dir hdir => ?_, fun _ => inStep_self w⟩
  apply ends_bind_assoc.mpr
  refine Ends.thenKeeps ?_ fun _ => keeps_pure _
  refine ends_inStep ((grows_device (kept_rmdir _)).bind fun _ => grows_setCache _) fun _ => ?_
  refine change_ends (onlyAt_rmdir _) (fun _ _ _ he => ?_) w (discreet_device (onlyAt_rmdir _)
    (rmdir_halfway hw.device _) (hguard _ (by rw [renameSource, hdir]; rfl)))
  exact (MetadataCache.peek_invalidatePrefix_of_some he).imp_right And.left

lemma mknod_inStep (parent : ℕ) (name : KernelName) (mode : ℕ) {w : PhoneFs}
    (hw : Sound Phone.Honest w) (hguard : h.tempDir = none → h.mknod = none →
      ∀ p, renameSource w parent name = some p → w.cache.peek p ≠ none →
        ¬ w.ops.adb.HalfPushed w.ops.adb.commands (nodeContents mode) p) :
    Ends (AdbFs.mknod h parent name mode) w (fun _ t => InStep w t) fun _ t => InStep w t := by
  refine ends_getPath.mpr ⟨fun dir hdir => ?_, fun _ => inStep_self w⟩
  have hrest : h.tempDir = none → h.mknod = none →
      Ends (device (pushAndSync .scratch (nodeContents mode) (childPath dir name)) >>= fun _ =>
        cacheInvalidate (childPath dir name) >>= fun _ => device (getMetadata (childPath dir name)) >>=
          fun m => getOrAssignIno (childPath dir name) >>= fun ino =>
            cacheInsert (childPath dir name) (some m) h.now >>= fun _ => read >>= fun u =>
              pure (.entry u.opts.entryTimeout (u.opts.metaToAttr ino m) 0) : FsM Phone Errno Reply) w
        (fun _ t => InStep w t) fun _ t => InStep w t := by
    intro htemp hnode
    apply ends_bind_assoc.mpr
    refine Ends.thenKeeps (ends_inStep ((grows_device (kept_pushAndSync _ _ _)).bind
      fun _ => grows_setCache _) fun _ => invalidate_ends (onlyAt_pushAndSync _ _ _) w ?_)
      fun _ => inStep_newEntry h (hw.canonical_child hdir name) _
    apply discreet_device (onlyAt_pushAndSync _ _ _)
    · exact (pushAndSync_halfway _ _ _ w.ops).imp (fun _ _ ht => ht)
        fun _ _ ht => ht.imp_right And.right
    · exact hguard htemp hnode _ (by rw [renameSource, hdir]; rfl)
  dsimp only
  cases htemp : h.tempDir with
  | some e => exact inStep_self w
  | none =>
    cases hnode : h.mknod with
    | some e => exact inStep_self w
    | none => exact hrest htemp hnode

structure Still (w w' : PhoneFs) : Prop where
  tree : w'.tree = w.tree
  cache : w'.cache = w.cache
  inodes : w'.inodes = w.inodes

instance : Frame Still where
  refl _ := ⟨rfl, rfl, rfl⟩
  trans _ _ _ h h' := ⟨h'.tree.trans h.tree, h'.cache.trans h.cache, h'.inodes.trans h.inodes⟩
  same w w' hops hcache hinodes := ⟨by rw [AdbFs.tree, hops], hcache, hinodes⟩
  pull p here w w' hops hcache hinodes := by
    refine ⟨?_, hcache, hinodes⟩
    rw [AdbFs.tree, hops]
    rcases pull_cases p here w.ops.adb with ⟨-, b, -, -, htree, -⟩ | ⟨-, htree, -⟩
    · exact htree
    · exact htree

lemma Still.refreshes {w w' : PhoneFs} (h : Still w w') : Refreshes w w' :=
  Refreshes.of_same h.tree fun _ _ he => h.cache ▸ he

lemma pushIfDirty_ends (ino id : ℕ) (w : PhoneFs) :
    Ends (pushIfDirty ino id) w (fun _ t => Refreshes w t) fun _ t => t.cache = w.cache := by
  have hself : Refreshes w w := Refreshes.of_same rfl fun _ _ he => he
  apply ends_bind.mpr
  apply ends_read.mpr
  split_ifs
  · apply ends_bind.mpr
    apply ends_update.mpr
    split
    · exact ends_bind.mpr rfl
    · next p _ =>
      have hpush := (onlyAt_pushAndSync (.copy (w.files.heap id).path) (w.files.contents id) p).ends
        w.ops
      apply ends_bind.mpr
      apply ends_attempt.mpr
      apply ends_device.mpr
      apply hpush.imp
      · intro _ s hs q e he
        obtain ⟨he, hq⟩ := MetadataCache.peek_invalidate_of_some he
        exact Or.inr ⟨he, hs q hq⟩
      · rintro (e | _) s _
        · exact ends_bind.mpr rfl
        · rfl
  · exact hself

lemma pushIfDirty_cache (ino id : ℕ) (w : PhoneFs) :
    Ends (pushIfDirty ino id) w
      (fun _ t => ∀ p, w.inodes.getPath ino = some p → (w.files.heap id).dirty = true →
        t.cache = w.cache.invalidate p)
      fun _ t => t.cache = w.cache ∧
        ∀ p, w.inodes.getPath ino = some p → w.failures < t.failures := by
  apply ends_bind.mpr
  apply ends_read.mpr
  split_ifs with hdirty
  · apply ends_bind.mpr
    apply ends_update.mpr
    split
    · next hnone =>
      have hlost : ∀ p, w.inodes.getPath ino = some p → w.failures < w.failures := by
        intro p hp
        exact absurd (hnone.symm.trans hp) (by simp)
      exact ends_bind.mpr ⟨rfl, hlost⟩
    · next p hp =>
      apply ends_bind.mpr
      apply ends_attempt.mpr
      apply ends_device.mpr
      apply (pushAndSync_ends _ _ p w.ops).imp
      · intro _ s _ q hq _
        obtain rfl := Option.some.inj (hp.symm.trans hq)
        rfl
      · rintro (e | _) s ⟨hlt, -⟩
        · exact ends_bind.mpr ⟨rfl, fun _ _ => hlt⟩
        · exact ⟨rfl, fun _ _ => hlt⟩
  · exact fun p _ htrue => absurd htrue hdirty

/-- What the copy of an inode would push, if it is dirty. -/
structure Owes (w : PhoneFs) (ino id : ℕ) (p : Text) (b : Bytes) : Prop where
  dirty : (w.files.heap id).dirty = true
  path : w.inodes.getPath ino = some p
  contents : w.files.contents id = some b

lemma discreet_pushIfDirty {ino id : ℕ} {w : PhoneFs}
    (hclean : ∀ p b, Owes w ino id p b → w.cache.peek p ≠ none →
      ¬ w.ops.adb.HalfPushed w.ops.adb.commands (some b) p) :
    Discreet (pushIfDirty ino id) w := by
  have hends : Ends (pushIfDirty ino id) w (fun _ _ => True)
      fun _ t => ∀ q, t.tree q ≠ w.tree q → w.cache.peek q = none := by
    apply ends_bind.mpr
    apply ends_read.mpr
    split_ifs with hdirty
    · apply ends_bind.mpr
      apply ends_update.mpr
      split
      · exact ends_bind.mpr fun q hq => absurd rfl hq
      · next p hp =>
        apply ends_bind.mpr
        apply ends_attempt.mpr
        apply ends_of_apply
        · exact fun _ _ _ => trivial
        · intro e t he
          have hdiscreet : Discreet (device (pushAndSync (.copy (w.files.heap id).path)
              (w.files.contents id) p)) (w.setFiles (Files.setDirty id false)) := by
            apply discreet_device (onlyAt_pushAndSync _ _ _)
            · exact pushAndSync_halfway _ _ _ w.ops
            · rintro hcached ⟨hthere, hpushed⟩
              cases hcontents : w.files.contents id with
              | none => simp [hcontents] at hthere
              | some b =>
                rw [hcontents] at hpushed
                exact hclean p b ⟨hdirty, hp, hcontents⟩ hcached hpushed
          have hspared := hdiscreet e t he
          cases e with
          | error e => exact ends_bind.mpr hspared
          | panic => exact hspared
    · trivial
  exact fun e t he => hends.of_error he

lemma pushIfDirty_inStep {ino id : ℕ} {w : PhoneFs} (hguard : Discreet (pushIfDirty ino id) w) :
    Ends (pushIfDirty ino id) w (fun _ t => InStep w t) fun _ t => InStep w t :=
  ends_inStep (grows_pushIfDirty ino id) fun _ =>
    hguard.ends ((pushIfDirty_ends ino id w).imp (fun _ _ ht => ht) fun _ _ ht => Or.inr ht)

lemma flush_inStep (fh : ℕ) {w : PhoneFs}
    (hguard : ∀ f p b, w.files.openFiles.lookup fh = some f → Owes w f.ino f.copy p b →
      w.cache.peek p ≠ none → ¬ w.ops.adb.HalfPushed w.ops.adb.commands (some b) p) :
    Ends (AdbFs.flush fh) w (fun _ t => InStep w t) fun _ t => InStep w t := by
  apply ends_bind.mpr
  apply ends_bind.mpr
  apply ends_read.mpr
  apply ends_ofOption.mpr
  refine ⟨fun f hf => ?_, fun _ => inStep_self w⟩
  exact (pushIfDirty_inStep (discreet_pushIfDirty fun p b => hguard f p b hf)).thenKeeps
    fun _ => keeps_pure _

lemma truncateCopy_ends (ino id size : ℕ) (w : PhoneFs) :
    Ends (truncateCopy h ino id size) w (fun _ t => Refreshes w t)
      fun _ t => t.cache = w.cache := by
  rw [truncateCopy]
  cases h.openFile with
  | some e => exact rfl
  | none =>
    cases h.setLen with
    | some e => exact rfl
    | none => exact pushIfDirty_ends ino id (w.setFiles (Files.truncate id size))

lemma resize_ends (ino : ℕ) (p : Text) (size : Option ℕ) (w : PhoneFs) :
    Ends (resize h ino p size) w (fun _ t => Refreshes w t)
      fun _ t => Refreshes w t ∨ t.cache = w.cache := by
  cases size with
  | none => exact Refreshes.of_same rfl fun _ _ he => he
  | some n =>
    apply ends_bind.mpr
    apply ((keeps_acquireCopy (R := Still) h ino p _).ends w).imp
    · intro id t ht
      have hrelease := keeps_releaseCopy (R := Still) h ino id
      apply ends_bind.mpr
      apply ends_attempt.mpr
      apply (truncateCopy_ends h ino id n t).imp
      · intro _ u hu
        have hdone : ∀ v, Still u v → Refreshes w v :=
          fun v hv => (ht.refreshes.trans hu).trans hv.refreshes
        apply ends_bind.mpr
        exact (hrelease.ends u).imp (fun _ v hv => hdone v hv) fun _ v hv => Or.inl (hdone v hv)
      · intro e u hu
        have hfailed : ∀ v, Still u v → v.cache = w.cache :=
          fun v hv => hv.cache.trans (hu.trans ht.cache)
        cases e with
        | error e =>
          apply ends_bind.mpr
          exact (hrelease.ends u).imp (fun _ v hv => Or.inr (hfailed v hv))
            fun _ v hv => Or.inr (hfailed v hv)
        | panic => exact Or.inr (hu.trans ht.cache)
    · exact fun _ t ht => Or.inr ht.cache

/-- What a truncate to the length pushes, if it comes to that, and which command that is. -/
inductive Cuts (w : PhoneFs) (ino : ℕ) (p : Text) (n : ℕ) : ℕ → Bytes → Prop
  | empty : n = 0 → h.create = none → Cuts w ino p n w.ops.adb.commands []
  | live {c : Copy} {b : Bytes} : n ≠ 0 → w.shared.copies ino = some c → c.bytes = some b →
      Cuts w ino p n w.ops.adb.commands (Contents.setLen n b)
  -- the file is pulled first
  | pulled {b : Bytes} : n ≠ 0 → w.shared.copies ino = none →
      (w.ops.adb.plan w.ops.adb.commands).fails = false → (w.tree p).bind Node.data = some b →
        Cuts w ino p n (w.ops.adb.commands + 1) (Contents.setLen n b)

variable {h} in
lemma Acquires.cuts {w w' : PhoneFs} {ino n : ℕ} {p : Text} {c : Copy} {b : Bytes}
    (ha : Acquires h p ino w w' (if n = 0 then .empty else .pull) c)
    (hb : c.bytes.map (Contents.setLen n) = some b) :
    Cuts h w ino p n w'.ops.adb.commands b ∧ w'.tree = w.tree ∧
      w'.ops.adb.plan = w.ops.adb.plan ∧ w'.ops.adb.v2 = w.ops.adb.v2 := by
  obtain ⟨b', hb', rfl⟩ := Option.map_eq_some_iff.mp hb
  by_cases hn : n = 0
  · rw [if_pos hn] at ha
    cases ha with
    | empty hcreate hops =>
      obtain rfl := Option.some.inj hb'
      rw [AdbFs.tree, hops, hn, Contents.setLen_zero]
      exact ⟨.empty rfl hcreate, rfl, rfl, rfl⟩
  · rw [if_neg hn] at ha
    cases ha with
    | live hlive hops =>
      rw [AdbFs.tree, hops]
      exact ⟨.live hn hlive hb', rfl, rfl, rfl⟩
    | pull hnone hpull hops =>
      have hpull : (Phone.pull p (w.files.tmpDir ino) w.ops.adb).1 = _ := hpull
      have hadb : w'.ops.adb = (Phone.pull p (w.files.tmpDir ino) w.ops.adb).2 :=
        congrArg DeviceOps.adb hops
      rw [AdbFs.tree, DeviceOps.tree, hadb]
      simp only [Phone.pull] at hpull ⊢
      split_ifs at hpull ⊢ with hfails
      · simp at hpull
      · cases hdata : (w.ops.adb.tree p).bind Node.data with
        | none => simp [hdata] at hpull
        | some contents =>
          rw [hdata] at hpull
          obtain rfl : contents = b' := by simpa using (congrArg Prod.snd hpull).trans hb'
          exact ⟨.pulled hn hnone (by simpa using hfails) hdata, rfl, rfl, rfl⟩

lemma halfPushed_of_same {d d' : Phone} (htree : d'.tree = d.tree) (hplan : d'.plan = d.plan)
    (hv2 : d'.v2 = d.v2) {i : ℕ} {contents : Option Bytes} {p : Text}
    (h' : d'.HalfPushed i contents p) : d.HalfPushed i contents p := by
  rw [Phone.HalfPushed, Phone.breaks, htree, hplan, hv2] at h'
  exact h'

variable {h} in
lemma Acquires.still {w w' : PhoneFs} {ino : ℕ} {p : Text} {init : CopyInit} {c : Copy}
    (ha : Acquires h p ino w w' init c) : w'.tree = w.tree := by
  cases ha with
  | empty _ hops => rw [AdbFs.tree, hops]
  | live _ hops => rw [AdbFs.tree, hops]
  | pull _ _ hops =>
    rw [AdbFs.tree, hops]
    rcases pull_cases p (w.files.tmpDir ino) w.ops.adb with ⟨-, b, -, -, htree, -⟩ | ⟨-, htree, -⟩
    · exact htree
    · exact htree

variable {h} in
lemma Refuses.still {w w' : PhoneFs} {ino : ℕ} {p : Text} {init : CopyInit}
    (hr : Refuses h p ino w w' init) : w'.tree = w.tree := by
  cases hr with
  | empty _ hops => rw [AdbFs.tree, hops]
  | pull _ _ hops =>
    rw [AdbFs.tree, hops]
    rcases pull_cases p (w.files.tmpDir ino) w.ops.adb with ⟨-, b, -, -, htree, -⟩ | ⟨-, htree, -⟩
    · exact htree
    · exact htree

lemma discreet_resize {ino : ℕ} {p : Text} {size : Option ℕ} {w : PhoneFs} (hw : w.Linked)
    (hpath : w.inodes.getPath ino = some p) (hclean : h.openFile = none → h.setLen = none →
      ∀ n i b, size = some n → Cuts h w ino p n i b → w.cache.peek p ≠ none →
        ¬ w.ops.adb.HalfPushed i (some b) p) : Discreet (resize h ino p size) w := by
  intro e t he q hq
  cases size with
  | none => simp [resize] at he
  | some n =>
    obtain ⟨spare, hwired⟩ := hw
    rcases (truncate_cases h n hwired).of_error he with
      ⟨-, -, hrefuses⟩ | ⟨c, w₁, hacquires, hinodes, -, -, hunsent⟩
    · exact absurd (congrFun (hrefuses.still) q) hq
    rw [← hacquires.still] at hq
    split_ifs at hunsent with hset
    · cases hunsent with
      | nowhere _ _ hops => exact absurd (by rw [AdbFs.tree, hops]) hq
      | @refused path r hpath' hsent _ =>
        obtain rfl : p = path := by
          rw [hinodes, hpath] at hpath'
          exact Option.some.inj hpath'
        have honly := (onlyAt_pushAndSync (.copy ino) (c.bytes.map (Contents.setLen n)) p).holds
          w₁.ops
        rw [hsent] at honly
        obtain rfl : q = p := by
          by_contra hne
          exact hq (honly q hne)
        obtain htree | ⟨hthere, hpushed⟩ := (pushAndSync_halfway _ _ _ _).of_error hsent
        · exact absurd (congrFun htree q) hq
        cases hb : c.bytes.map (Contents.setLen n) with
        | none => simp [hb] at hthere
        | some b =>
          obtain ⟨hcuts, htree, hplan, hv2⟩ := hacquires.cuts hb
          rw [hb] at hpushed
          by_contra hcached
          exact hclean hset.1 hset.2 n _ b rfl hcuts hcached
            (halfPushed_of_same htree hplan hv2 hpushed)
    · exact absurd (by rw [AdbFs.tree, hunsent]) hq

lemma discreet_touchTimes {p : Text} {atime mtime : Option TimeOrNow} {w : PhoneFs}
    (hclean : w.cache.peek p ≠ none → ¬ w.ops.adb.HalfTouched w.ops.touchGnuMode w.ops.rescan p
      (atime.toList.length + mtime.toList.length)) : Discreet (touchTimes h p atime mtime) w := by
  have hlen : ∀ time : Option TimeOrNow,
      (time.map (resolveTime h)).toList.length = time.toList.length := by
    intro time
    cases time <;> rfl
  have htouch := touch_halfway p (atime.map (resolveTime h)) (mtime.map (resolveTime h)) w.ops
  rw [hlen, hlen] at htouch
  have hdiscreet := discreet_device (onlyAt_touch p _ _) htouch hclean
  intro e t he
  rw [touchTimes] at he
  split_ifs at he
  · simp at he
  · have hends : Ends (touchTimes h p atime mtime) w (fun _ _ => True) fun _ t =>
        ∀ q, t.tree q ≠ w.tree q → w.cache.peek q = none := by
      rw [touchTimes, if_neg ‹_›]
      apply ends_bind.mpr
      exact ends_of_apply (fun _ _ _ => trivial) hdiscreet
    rw [touchTimes, if_neg ‹_›] at hends
    exact hends.of_error he

lemma touchTimes_inStep (p : Text) (atime mtime : Option TimeOrNow) {w : PhoneFs}
    (hguard : Discreet (touchTimes h p atime mtime) w) :
    Ends (touchTimes h p atime mtime) w (fun _ t => InStep w t) fun _ t => InStep w t := by
  refine ends_inStep (grows_touchTimes h p atime mtime) fun _ => hguard.ends ?_
  rw [touchTimes]
  split_ifs
  · exact Refreshes.of_same rfl fun _ _ he => he
  · apply ends_bind.mpr
    apply ends_device.mpr
    apply ((onlyAt_touch p _ _).ends w.ops).imp
    · intro _ s hs q e he
      obtain ⟨he, hq⟩ := MetadataCache.peek_invalidate_of_some he
      exact Or.inr ⟨he, hs q hq⟩
    · exact fun _ _ _ => Or.inr rfl

lemma afterResize_inStep (ino : ℕ) {p : Text} (hp : Canonical p) {atime mtime : Option TimeOrNow}
    {w : PhoneFs} (hguard : Discreet (touchTimes h p atime mtime) w) :
    Ends (touchTimes h p atime mtime >>= fun _ => device (getMetadata p) >>= fun m =>
      cacheInsert p (some m) h.now >>= fun _ => read >>= fun w =>
        pure (.attr w.opts.attrTimeout (w.opts.metaToAttr ino m)) : FsM Phone Errno Reply) w
      (fun _ t => InStep w t) fun _ t => InStep w t := by
  have hinsert : Keeps InStep (device (getMetadata p) >>= fun m =>
      cacheInsert p (some m) h.now >>= fun _ => read >>= fun u =>
        pure (.attr u.opts.attrTimeout (u.opts.metaToAttr ino m)) : FsM Phone Errno Reply) := by
    apply Keeps.of_ends
    intro t
    refine ends_inStep ((grows_device (kept_getMetadata p)).bind fun m =>
      (grows_setCache _).bind fun _ => keeps_read.bind fun _ => keeps_pure _) fun ht => ?_
    apply ends_bind.mpr
    apply (device_getMetadata_told hp ht.device).imp
    · exact fun m u hu => refreshes_insert hu.1 hu.2
    · exact fun _ _ hu => hu
  exact (touchTimes_inStep h p atime mtime hguard).thenKeeps fun _ => hinsert

lemma resize_uncached {ino : ℕ} {p : Text} {n : ℕ} {w : PhoneFs}
    (hpath : w.inodes.getPath ino = some p) :
    Ends (resize h ino p (some n)) w (fun _ t => t.cache.peek p = none) fun _ _ => True := by
  apply ends_bind.mpr
  apply ((keeps_acquireCopy (R := Still) h ino p _).ends w).imp
  · intro id t ht
    have hcut : Ends (truncateCopy h ino id n) t (fun _ u => u.cache.peek p = none)
        fun _ _ => True := by
      apply ends_bind.mpr
      apply ends_outcome.mpr
      refine ⟨fun _ => ?_, fun _ _ => trivial⟩
      apply ends_bind.mpr
      apply ends_outcome.mpr
      refine ⟨fun _ => ?_, fun _ _ => trivial⟩
      apply ends_bind.mpr
      apply ends_update.mpr
      apply (pushIfDirty_cache ino id (t.setFiles (Files.truncate id n))).imp
      · intro _ u hu
        rw [hu p (ht.inodes ▸ hpath) (by simp [AdbFs.setFiles, Files.truncate, Files.setDirty]),
          MetadataCache.peek_invalidate, if_pos rfl]
      · exact fun _ _ _ => trivial
    apply ends_bind.mpr
    apply ends_attempt.mpr
    apply hcut.imp
    · intro _ u hu
      apply ends_bind.mpr
      apply ((keeps_releaseCopy (R := Still) h ino id).ends u).imp
      · intro _ v hv
        change v.cache.peek p = none
        rwa [hv.cache]
      · exact fun _ _ _ => trivial
    · intro e u _
      cases e with
      | error e =>
        apply ends_bind.mpr
        exact ((keeps_releaseCopy (R := Still) h ino id).ends u).imp (fun _ _ _ => trivial)
          fun _ _ _ => trivial
      | panic => trivial
  · exact fun _ _ _ => trivial

lemma setattr_inStep (ino : ℕ) (size : Option ℕ) (atime mtime : Option TimeOrNow) {w : PhoneFs}
    (hw : Sound Phone.Honest w) (hlinked : w.Linked)
    (hcut : ∀ p n i b, w.inodes.getPath ino = some p → size = some n → h.openFile = none →
      h.setLen = none → Cuts h w ino p n i b → w.cache.peek p ≠ none →
        ¬ w.ops.adb.HalfPushed i (some b) p)
    (htouch : ∀ p, w.inodes.getPath ino = some p → size = none → w.cache.peek p ≠ none →
      ¬ w.ops.adb.HalfTouched w.ops.touchGnuMode w.ops.rescan p
        (atime.toList.length + mtime.toList.length)) :
    Ends (AdbFs.setattr h ino size atime mtime) w (fun _ t => InStep w t)
      fun _ t => InStep w t := by
  refine ends_getPath.mpr ⟨fun p hp => ?_, fun _ => inStep_self w⟩
  have hresized : Ends (resize h ino p size) w (fun _ t => InStep w t) fun _ t => InStep w t :=
    ends_inStep (keeps_resize h p size fun id => grows_pushIfDirty ino id) fun _ =>
      (discreet_resize h hlinked hp fun hopen hset n i b hn =>
        hcut p n i b hp hn hopen hset).ends (resize_ends h ino p size w)
  have htouched : ∀ t, resize h ino p size w = (.ok (), t) →
      Discreet (touchTimes h p atime mtime) t := by
    intro t ht
    apply discreet_touchTimes
    intro hcached
    cases size with
    | none =>
      obtain rfl : t = w := (Prod.mk.inj ht).2.symm
      exact htouch p hp rfl hcached
    | some n => exact absurd ((resize_uncached h hp).of_ok ht) hcached
  apply ends_bind.mpr
  apply hresized.remember.imp
  · rintro _ t ⟨ht, hok⟩
    apply (afterResize_inStep h ino (hw.wf.canonical ino p hp) (htouched t hok)).imp
    · exact fun _ _ hu => IsTrans.trans _ _ _ ht hu
    · exact fun _ _ hu => IsTrans.trans _ _ _ ht hu
  · exact fun _ _ ht => ht.1

lemma createOnDevice_ends (ino id : ℕ) {p : Text} (hp : Canonical p) {w : PhoneFs}
    (hw : Sound Phone.Honest w) (hguard : h.openFile = none → Discreet (pushIfDirty ino id) w) :
    Ends (createOnDevice h ino id p) w
      (fun m t => InStep w t ∧ Matches (t.tree p) (some m)) fun _ t => InStep w t := by
  have hpushed : h.openFile = none → Ends (pushIfDirty ino id >>= fun _ => device (getMetadata p)) w
      (fun m t => InStep w t ∧ Matches (t.tree p) (some m)) fun _ t => InStep w t := by
    intro hopen
    apply ends_bind.mpr
    apply (pushIfDirty_inStep (hguard hopen)).imp
    · intro _ t ht
      have hsound := (ht hw).1
      have hgrown := (grows_device (kept_getMetadata (D := Phone.Honest) p)).ends t
      apply ((device_getMetadata_told hp hsound.device).and hgrown).imp
      · rintro m u ⟨⟨hkept, hm⟩, hgrows⟩
        exact ⟨fun _ => ⟨(hgrows hsound).1, (ht hw).2.trans hkept⟩, hm⟩
      · rintro _ u ⟨hkept, hgrows⟩
        exact fun _ => ⟨(hgrows hsound).1, (ht hw).2.trans hkept⟩
    · exact fun _ _ ht => ht
  rw [createOnDevice]
  cases hopen : h.openFile with
  | some e => exact inStep_self w
  | none => exact hpushed hopen

lemma discreet_create {p : Text} {w u : PhoneFs} {id : ℕ} (hw : Sound Phone.Honest w)
    (hlinked : w.Linked)
    (hacquire : acquireCopy h (w.inodes.getOrAssignIno p).1 p .empty (w.assigned p) = (.ok id, u))
    (hclean : h.create = none → w.cache.peek p ≠ none →
      ¬ w.ops.adb.HalfPushed w.ops.adb.commands (some []) p) :
    Discreet (pushIfDirty (w.inodes.getOrAssignIno p).1 id) u := by
  obtain ⟨spare, hwired⟩ := hlinked
  have hassigned : (w.assigned p).Wired spare := ⟨hwired.files, hwired.fresh⟩
  obtain ⟨c, hholds, hacquires⟩ := (acquireCopy_ends hassigned _ p .empty).of_ok hacquire
  obtain ⟨rfl, hcreate, hops⟩ : c = ⟨some [], true⟩ ∧ h.create = none ∧ u.ops = w.ops := by
    cases hacquires with
    | empty hcreate hops => exact ⟨rfl, hcreate, hops⟩
  have hstill : u.cache = w.cache := by
    have hkeeps := (keeps_acquireCopy (R := Still) h (w.inodes.getOrAssignIno p).1 p .empty).holds
      (w.assigned p)
    rw [hacquire] at hkeeps
    exact hkeeps.cache
  apply discreet_pushIfDirty
  rintro q b ⟨-, hq, hb⟩ hcached
  obtain rfl : p = q := by
    rw [hholds.within.inodes] at hq
    exact Option.some.inj (hw.wf.getPath_assigned.symm.trans hq)
  have hcopy := hholds.wired.copy_eq hholds.lookup hholds.copies_eq
  obtain rfl : [] = b := by
    rw [hb] at hcopy
    exact Option.some.inj (congrArg Copy.bytes hcopy)
  rw [hstill] at hcached
  rw [hops]
  exact hclean hcreate hcached

lemma create_inStep (parent : ℕ) (name : KernelName) {w : PhoneFs} (hw : Sound Phone.Honest w)
    (hlinked : w.Linked) (hguard : ∀ p, renameSource w parent name = some p → h.create = none →
      h.openFile = none → w.cache.peek p ≠ none →
        ¬ w.ops.adb.HalfPushed w.ops.adb.commands (some []) p) :
    Ends (AdbFs.create h parent name) w (fun _ t => InStep w t) fun _ t => InStep w t := by
  refine ends_getPath.mpr ⟨fun dir hdir => ?_, fun _ => inStep_self w⟩
  have hchild := hw.canonical_child hdir name
  have hsource : renameSource w parent name = some (childPath dir name) := by
    rw [renameSource, hdir]
    rfl
  apply ends_bind.mpr
  apply ((inStep_getOrAssignIno hchild).ends w).remember.imp
  · rintro ino t ⟨ht, hassign⟩
    obtain ⟨rfl, rfl⟩ : (w.inodes.getOrAssignIno (childPath dir name)).1 = ino ∧
        w.assigned (childPath dir name) = t := by
      simpa [getOrAssignIno, lift, AdbFs.assigned] using hassign
    apply ends_bind.mpr
    apply ((keeps_acquireCopy (R := InStep) h _ _ .empty).ends _).remember.imp
    · rintro id u ⟨hu, hacquire⟩
      have hwu : InStep w u := IsTrans.trans _ _ _ ht hu
      have hpush : h.openFile = none → Discreet (pushIfDirty _ id) u := fun hopen =>
        discreet_create h hw hlinked hacquire fun hcreate => hguard _ hsource hcreate hopen
      apply ends_bind.mpr
      apply ends_attempt.mpr
      apply (createOnDevice_ends h _ id hchild (hwu hw).1 hpush).imp
      · rintro m v ⟨hv, hm⟩
        have hwv : InStep w v := IsTrans.trans _ _ _ hwu hv
        apply ends_bind.mpr
        apply ends_update.mpr
        have hinsert : InStep w
            (v.setCache (MetadataCache.insert (childPath dir name) (some m) h.now)) :=
          fun hs => ⟨⟨(hwv hs).1.wf, (hwv hs).1.device⟩, refreshes_insert (hwv hs).2 hm⟩
        have hrest : ∀ ino, Keeps InStep (addHandle ino id >>= fun fh => read >>= fun u =>
            pure (.created u.opts.entryTimeout (u.opts.metaToAttr ino m) 0 fh
              u.opts.fileOpenFlags) : FsM Phone Errno Reply) :=
          fun ino => (keeps_addHandle ino id).bind fun _ => keeps_read.bind fun _ => keeps_pure _
        apply ((hrest _).ends _).imp
        · exact fun _ _ hx => IsTrans.trans _ _ _ hinsert hx
        · exact fun _ _ hx => IsTrans.trans _ _ _ hinsert hx
      · intro e v hv
        have hwv : InStep w v := IsTrans.trans _ _ _ hwu hv
        cases e with
        | error e =>
          have hrest : ∀ ino, Keeps InStep (releaseCopy h ino id >>= fun _ => fail e :
              FsM Phone Errno Reply) :=
            fun ino => (keeps_releaseCopy h ino id).bind fun _ => keeps_fail _
          apply ((hrest _).ends v).imp
          · exact fun _ _ hx => IsTrans.trans _ _ _ hwv hx
          · exact fun _ _ hx => IsTrans.trans _ _ _ hwv hx
        | panic => exact hwv
    · exact fun _ _ hu => IsTrans.trans _ _ _ ht hu.1
  · exact fun _ _ ht => ht.1

/-- Every inode of an object that is still there resolves to where the object is. -/
def InodesFollow (w w' : PhoneFs) : Request → Prop
  | .rename parent name newparent newname _ =>
    (w'.tree = w.tree ∧ ∀ i p, w.inodes.getPath i = some p → w'.inodes.getPath i = some p) ∨
      ∃ source target, renameSource w parent name = some source ∧
        renameTarget w newparent newname = some target ∧ w.tree source ≠ none ∧
          w'.tree = moveTree source target w.tree ∧ ∀ i p, w.inodes.getPath i = some p →
            rebase target source p = none →
              w'.inodes.getPath i = some (movePath source target p) ∧
                w'.tree (movePath source target p) = w.tree p
  | _ => ∀ i p, w.inodes.getPath i = some p → w'.inodes.getPath i = some p

/-- An entry of the cache or an inode is at or below the source, or an entry at or below the
target. -/
def Knows (w : PhoneFs) (source target : Text) : Prop :=
  (∃ q, w.cache.peek q ≠ none ∧
      (rebase source target q ≠ none ∨ rebase target source q ≠ none)) ∨
    ∃ i q, w.inodes.getPath i = some q ∧ rebase source target q ≠ none

/-- `mv` does not take the target for a directory, and if the cache or the inodes know of what it
moves, it does not break off half-way. -/
def RenamesClean (w : PhoneFs) (source target : Text) : Prop :=
  Phone.mvTarget w.tree source target = target ∧ (Knows w source target →
    ¬ w.ops.adb.Halfway (.mv source target) (if w.ops.rescan then 2 else 0))

lemma Sound.inodes_follow {w t : PhoneFs} (hw : Sound Phone.Honest w) {f g : List Text}
    (hf : Names f) (hg : Names g) (ha : Apart f g)
    (htree : t.tree = moveTree (render f) (render g) w.tree)
    (hinodes : ∀ i p, w.inodes.getPath i = some p → rebase (render g) (render f) p = none →
      t.inodes.getPath i = some (movePath (render f) (render g) p)) :
    ∀ i p, w.inodes.getPath i = some p → rebase (render g) (render f) p = none →
      t.inodes.getPath i = some (movePath (render f) (render g) p) ∧
        t.tree (movePath (render f) (render g) p) = w.tree p := by
  intro i p hi hout
  refine ⟨hinodes i p hi hout, ?_⟩
  rw [htree]
  exact moveTree_movePath hf hg ha (hw.wf.canonical i p hi) hout

lemma rename_halfway (parent newparent : ℕ) (name newname : Bytes) {w : PhoneFs}
    (hw : w.ops.adb.Honest) :
    Ends (AdbFs.rename h parent name newparent newname) w (fun _ _ => True)
      fun _ t => t.tree = w.tree ∨ ∃ source target, renameSource w parent name = some source ∧
        renameTarget w newparent newname = some target ∧
          w.ops.adb.Halfway (.mv source target) (if w.ops.rescan then 2 else 0) := by
  refine ends_getPath.mpr ⟨fun fromDir hfrom => ?_, fun _ => Or.inl rfl⟩
  refine ends_getPath.mpr ⟨fun toDir hto => ?_, fun _ => Or.inl rfl⟩
  apply ends_bind.mpr
  apply ends_device.mpr
  apply (mv_halfway hw _ _).imp
  · exact fun _ _ _ => trivial
  · rintro _ t ht
    refine ht.imp_right fun hbreaks => ⟨_, _, ?_, ?_, hbreaks⟩
    · rw [renameSource, hfrom, Option.map_some]
    · rw [renameTarget, hto, Option.map_some]

lemma rename_inStep (parent newparent : ℕ) (name newname : KernelName) (flags : ℕ) {w : PhoneFs}
    (hw : Sound Phone.Honest w)
    (hsent : KernelSends w (.rename parent name newparent newname flags))
    (hguard : ∀ source target, renameSource w parent name = some source →
      renameTarget w newparent newname = some target → RenamesClean w source target) :
    Refreshes w (AdbFs.rename h parent name newparent newname w).2 ∧
      InodesFollow w (AdbFs.rename h parent name newparent newname w).2
        (.rename parent name newparent newname flags) := by
  have hslash : ∀ {parent : ℕ} {name : KernelName} {p : Text},
      renameSource w parent name = some p → MetadataCache.dirPrefix p = p ++ ['/'] := by
    intro parent name p hp
    obtain ⟨dir, -, rfl⟩ := Option.map_eq_some_iff.mp hp
    exact dirPrefix_childPath dir name
  have hself : Refreshes w w := Refreshes.of_same rfl fun _ _ he => he
  refine (ends_iff (P := fun t => Refreshes w t ∧
    InodesFollow w t (.rename parent name newparent newname flags))).mp ?_
  apply ((rename_ends h hw parent newparent name newname).and
    (rename_halfway h parent newparent name newname hw.device)).imp
  · rintro _ t ⟨⟨-, f, g, hf, hg, hsource, htarget, hr⟩, -⟩
    have ha := hsent f g hf hg hsource htarget
    obtain ⟨hthere, htree⟩ := hr.tree_eq hf hg ha (hguard _ _ hsource htarget).1
    refine ⟨Refreshes.of_moved hr.cache htree (hslash hsource) (hslash htarget), Or.inr ?_⟩
    refine ⟨_, _, hsource, htarget, hthere, htree, hw.inodes_follow hf hg ha htree ?_⟩
    intro i p hi hout
    rw [hr.inodes]
    exact hw.wf.rekeyPaths_movePath hf hg ha hi hout
  · rintro _ t ⟨⟨-, hinodes, hcache, rfl | ⟨f, g, hf, hg, hsource, htarget, -, hmv⟩⟩, hhalf⟩
    · exact ⟨hself, Or.inl ⟨rfl, fun _ _ hi => hi⟩⟩
    · obtain ⟨honto, hclean⟩ := hguard _ _ hsource htarget
      have ha := hsent f g hf hg hsource htarget
      have hsame : t.tree = w.tree → Refreshes w t ∧
          InodesFollow w t (.rename parent name newparent newname flags) := fun htree =>
        ⟨Refreshes.of_same htree fun _ _ he => hcache ▸ he,
          Or.inl ⟨htree, fun i p hi => hinodes ▸ hi⟩⟩
      rcases hmv with htree | ⟨fate, a, hp⟩
      · exact hsame htree
      rcases hhalf with htree | ⟨p, q, hp', hq, hbreaks⟩
      · exact hsame htree
      obtain rfl := Option.some.inj (hsource.symm.trans hp')
      obtain rfl := Option.some.inj (htarget.symm.trans hq)
      obtain ⟨k, -, hk, -, hthere, htree⟩ := perform_mv hf hg ha.ne_nil ha.symm.ne_nil hp
      rw [← hk, honto] at htree
      have hunknown : ¬ Knows w (render f) (render g) := fun hknows => hclean hknows hbreaks
      simp only [Knows, not_or, not_exists, not_and, not_not] at hunknown
      obtain ⟨huncached, hunmapped⟩ := hunknown
      constructor
      · intro q entry hentry
        rw [hcache] at hentry
        have hout := huncached q (by simp [hentry])
        rw [htree, moveTree, hout.2, hout.1]
        exact Or.inr ⟨hentry, rfl⟩
      · refine Or.inr ⟨_, _, hsource, htarget, hthere, htree,
          hw.inodes_follow hf hg ha htree ?_⟩
        intro i p hi _
        rw [movePath_of_none (hunmapped i p hi), hinodes]
        exact hi

/-- The plan lets no operation of the request fail after it has changed on the device what the cache
holds an entry of, no `ls` be taken for that of a missing file, and no name be listed as another. -/
def FailsClean (w : PhoneFs) : Request → Prop
  | .getattr ino | .readlink ino => ∀ p, w.inodes.getPath ino = some p → w.ops.adb.Understood p
  | .lookup parent name => ∀ p, renameSource w parent name = some p → w.ops.adb.Understood p
  | .opendir ino => ∀ dir, w.inodes.getPath ino = some dir → Phone.Legible w.tree dir
  | .mkdir parent name => ∀ p, renameSource w parent name = some p → w.cache.peek p ≠ none →
      ¬ w.ops.adb.Halfway (.mkdir p) 0
  | .unlink parent name => ∀ p, renameSource w parent name = some p → w.cache.peek p ≠ none →
      ¬ w.ops.adb.Halfway (.rm p) (if w.ops.rescan then 1 else 0)
  | .rmdir parent name => ∀ p, renameSource w parent name = some p → w.cache.peek p ≠ none →
      ¬ w.ops.adb.Halfway (.rmdir p) (if w.ops.rescan then 1 else 0)
  | .rename parent name newparent newname _ => ∀ source target,
      renameSource w parent name = some source →
        renameTarget w newparent newname = some target → RenamesClean w source target
  | .mknod parent name mode => h.tempDir = none → h.mknod = none →
      ∀ p, renameSource w parent name = some p → w.cache.peek p ≠ none →
        ¬ w.ops.adb.HalfPushed w.ops.adb.commands (nodeContents mode) p
  | .flush fh => ∀ f p b, w.files.openFiles.lookup fh = some f → Owes w f.ino f.copy p b →
      w.cache.peek p ≠ none → ¬ w.ops.adb.HalfPushed w.ops.adb.commands (some b) p
  | .setattr ino size atime mtime _ =>
      (∀ p n i b, w.inodes.getPath ino = some p → size = some n → h.openFile = none →
        h.setLen = none → Cuts h w ino p n i b → w.cache.peek p ≠ none →
          ¬ w.ops.adb.HalfPushed i (some b) p) ∧
      ∀ p, w.inodes.getPath ino = some p → size = none → w.cache.peek p ≠ none →
        ¬ w.ops.adb.HalfTouched w.ops.touchGnuMode w.ops.rescan p
          (atime.toList.length + mtime.toList.length)
  | .create parent name => ∀ p, renameSource w parent name = some p → h.create = none →
      h.openFile = none → w.cache.peek p ≠ none →
        ¬ w.ops.adb.HalfPushed w.ops.adb.commands (some []) p
  | _ => True

lemma handle_inStep {w : PhoneFs} (hw : Sound Phone.Honest w) (hlinked : w.Linked) {request : Request}
    (hsent : KernelSends w request) (hclean : FailsClean h w request) :
    Refreshes w (AdbFs.handle h request w).2 := by
  have hdone : ∀ {x : FsM Phone Errno Reply}, (Ends x w (fun _ t => InStep w t) fun _ t =>
      InStep w t) → Refreshes w (x w).2 := fun hx => (ends_iff.mp hx hw).2
  have hkeeps : ∀ {x : FsM Phone Errno Reply}, Keeps InStep x → Refreshes w (x w).2 :=
    fun hx => (hx.holds w hw).2
  cases request with
  | getattr ino => exact hdone (getattr_inStep h ino hclean)
  | lookup parent name => exact hdone (lookup_inStep h parent name hw hclean)
  | opendir ino => exact hdone (opendir_inStep h ino hw hclean)
  | readdir fh offset => exact hkeeps (keeps_readdir h fh offset)
  | releasedir fh => exact Refreshes.of_same rfl fun _ _ he => he
  | «open» ino => exact hkeeps (keeps_open h ino)
  | read fh offset size => exact hkeeps (keeps_readFile h fh offset size)
  | write fh offset data => exact hkeeps (keeps_write h fh offset data)
  | flush fh => exact hdone (flush_inStep fh hclean)
  | release fh => exact hkeeps (keeps_release h fh)
  | access ino => exact hkeeps (keeps_pure _)
  | mkdir parent name => exact hdone (mkdir_inStep h parent name hw hclean)
  | unlink parent name => exact hdone (unlink_inStep parent name hw hclean)
  | rmdir parent name => exact hdone (rmdir_inStep parent name hw hclean)
  | rename parent name newparent newname flags =>
    exact (rename_inStep h parent newparent name newname flags hw hsent hclean).1
  | setattr ino size atime mtime fh =>
    exact hdone (setattr_inStep h ino size atime mtime hw hlinked hclean.1 hclean.2)
  | readlink ino => exact hdone (readlink_inStep h ino hclean)
  | create parent name => exact hdone (create_inStep h parent name hw hlinked hclean)
  | mknod parent name mode => exact hdone (mknod_inStep h parent name mode hw hclean)

lemma handle_inodesFollow {w : PhoneFs} (hw : Sound Phone.Honest w) {request : Request}
    (hsent : KernelSends w request) (hclean : FailsClean h w request) :
    InodesFollow w (AdbFs.handle h request w).2 request := by
  by_cases hrename : request.IsRename
  · cases request with
    | rename parent name newparent newname flags =>
      exact (rename_inStep h parent newparent name newname flags hw hsent hclean).2
    | _ => exact hrename.elim
  · have hgrows := ((grows_handle (D := Phone.Honest) h request hrename).holds w hw).2
    cases request with
    | rename => exact absurd trivial hrename
    | _ => exact hgrows

/-- A request of the kernel whose failures, if there are any, are clean. -/
def StepsClean (w : PhoneFs) (c : Call) : Prop :=
  KernelSends w c.request ∧ FailsClean c.host w c.request

lemma serves_eq {w w' : PhoneFs} {c : Call} (hserve : Serves w c w') :
    (AdbFs.handle c.host c.request w).2 = w' := by
  rw [← serve_snd, hserve]

end Steps

section Plain

attribute [local instance] plainLibc

def failingPhone (files : List (Text × Node)) (k : ℕ) : Phone :=
  { plainPhone files [] with
    plan := fun n => { plainFate dirNode with fails := n == k } }

lemma failingPhone_honest (files : List (Text × Node)) (k : ℕ) :
    (failingPhone files k).Honest :=
  ⟨fun _ => ⟨Or.inr ⟨rfl, by decide⟩, fun _ h => (nomatch h)⟩, (plainPhone_honest files []).finite⟩

def failingOps (k : ℕ) : DeviceOps Phone := ⟨failingPhone [("/a".toList, byteNode 7)] k, true, true⟩

def failingFs (k : ℕ) : PhoneFs :=
  (AdbFs.serve (plainHost 0 0 0) (.lookup 1 nameA) (AdbFs.new (failingOps k) (10 ^ 9) {})).2

end Plain

end Adbfs
