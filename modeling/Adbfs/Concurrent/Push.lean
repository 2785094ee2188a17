import Adbfs.Library.Contents
import Adbfs.Library.Paths
import Adbfs.Library.Runs

/-! Concurrent writes, flushes and renames of one inode with a live local copy. Local updates are
numbered; a snapshot contains the updates up to its number. -/

namespace Adbfs.Push

open Library Library.Paths

inductive Task where
  | writing (offset : ℕ) (data : Bytes)
  | updated (version : ℕ)
  | flushing (need : List ℕ)
  | cleared (need : List ℕ)
  | located (need : List ℕ) (path : Text)
  | snapped (need : List ℕ) (path : Text) (contents : Bytes) (version : ℕ)
  | delivered (need : List ℕ) (version : ℕ)
  | failed
  | renaming (source target : Text)
  | moved (source target : Text)

/-- `newest` is the latest version delivered to the device, `completed` the versions whose push has
succeeded, `acked` the updates whose write has been acknowledged. -/
structure State where
  file : Bytes
  dirty : Bool
  path : Text
  device : Text → Option Bytes
  version : ℕ
  newest : ℕ
  acked : List ℕ
  completed : List ℕ
  tasks : ℕ → Option Task

@[simps] def State.goto (s : State) (k : ℕ) (x : Option Task) : State :=
  { s with tasks := Function.update s.tasks k x }

inductive Label where
  | local
  | deliver (path : Text) (version : ℕ)
  | fail
  | clean (need : List ℕ)
  | sync (need : List ℕ)
  | move (source target : Text)

def Label.replies : Label → Option (List ℕ)
  | clean need | sync need => some need
  | _ => none

inductive Step (s : State) : Label → State → Prop
  | write {k offset : ℕ} {data : Bytes} : s.tasks k = none →
      Step s .local (s.goto k (some (.writing offset data)))
  | update {k offset : ℕ} {data : Bytes} : s.tasks k = some (.writing offset data) →
      Step s .local ({ s with
        file := Contents.writeAt offset data s.file
        version := s.version + 1 }.goto k (some (.updated (s.version + 1))))
  | mark {k v : ℕ} : s.tasks k = some (.updated v) →
      Step s .local ({ s with dirty := true, acked := v :: s.acked }.goto k none)
  | flush {k : ℕ} : s.tasks k = none → Step s .local (s.goto k (some (.flushing s.acked)))
  | clean {k : ℕ} {need : List ℕ} : s.tasks k = some (.flushing need) → s.dirty = false →
      Step s (.clean need) (s.goto k none)
  | clear {k : ℕ} {need : List ℕ} : s.tasks k = some (.flushing need) → s.dirty = true →
      Step s .local ({ s with dirty := false }.goto k (some (.cleared need)))
  | locate {k : ℕ} {need : List ℕ} : s.tasks k = some (.cleared need) →
      Step s .local (s.goto k (some (.located need s.path)))
  | read {k : ℕ} {need : List ℕ} {p : Text} : s.tasks k = some (.located need p) →
      Step s .local (s.goto k (some (.snapped need p s.file s.version)))
  | deliver {k w : ℕ} {need : List ℕ} {p : Text} {contents : Bytes} :
      s.tasks k = some (.snapped need p contents w) →
      Step s (.deliver p w) ({ s with
        device := Function.update s.device p (some contents)
        newest := max s.newest w }.goto k (some (.delivered need w)))
  | pushFails {k w : ℕ} {need : List ℕ} {p : Text} {contents : Bytes} {torn : Option Bytes} :
      s.tasks k = some (.snapped need p contents w) →
      Step s .fail ({ s with device := Function.update s.device p torn }.goto k (some .failed))
  | syncFails {k w : ℕ} {need : List ℕ} : s.tasks k = some (.delivered need w) →
      Step s .fail (s.goto k (some .failed))
  | restore {k : ℕ} : s.tasks k = some .failed →
      Step s .local ({ s with dirty := true }.goto k none)
  | sync {k w : ℕ} {need : List ℕ} : s.tasks k = some (.delivered need w) →
      Step s (.sync need) ({ s with completed := w :: s.completed }.goto k none)
  | rename {k : ℕ} {source target : Text} : s.tasks k = none →
      Step s .local (s.goto k (some (.renaming source target)))
  | move {k : ℕ} {source target : Text} : s.tasks k = some (.renaming source target) →
      Step s (.move source target)
        ({ s with device := moveTree source target s.device }.goto k (some (.moved source target)))
  | rekey {k : ℕ} {source target : Text} : s.tasks k = some (.moved source target) →
      Step s .local ({ s with path := movePath source target s.path }.goto k none)

/-- The copy as it is between requests, clean when the device holds its contents. -/
structure Start (s : State) : Prop where
  idle : ∀ k, s.tasks k = none
  canonical : Canonical s.path
  acked : s.acked = []
  versions : s.newest ≤ s.version
  current : s.newest = s.version → s.device s.path = some s.file
  clean : s.dirty = false → s.newest = s.version

section Flush

/-- The task has cleared the dirty bit, and its push has neither completed nor set the bit again. -/
def Task.InFlight : Task → Prop
  | .cleared _ | .located _ _ | .snapped _ _ _ _ | .delivered _ _ | .failed => True
  | _ => False

/-- The push will contain update `v` if it completes. -/
def Task.Carries (v : ℕ) : Task → Prop
  | .cleared _ | .located _ _ | .failed => True
  | .snapped _ _ _ w | .delivered _ w => v ≤ w
  | _ => False

/-- What the flush has to find completed when it replies. -/
def Task.Owes (s : State) : Task → Prop
  | .updated v => v ≤ s.version
  | .flushing need | .cleared need | .located need _ => ∀ v ∈ need, v ∈ s.acked
  | .snapped need _ _ w | .delivered need w => ∀ v ∈ need, v ≤ w
  | _ => True

/-- A flush finds the bit clear only when every push that cleared it is over. -/
def CleanIsIdle (s : State) : Label → Prop
  | .clean _ => ∀ k x, s.tasks k = some x → ¬ x.InFlight
  | _ => True

structure Acked (s : State) : Prop where
  made : ∀ v ∈ s.acked, v ≤ s.version
  owes : ∀ k x, s.tasks k = some x → x.Owes s
  covered : ∀ v ∈ s.acked, s.dirty = true ∨ (∃ w ∈ s.completed, v ≤ w) ∨
    ∃ k x, s.tasks k = some x ∧ x.Carries v

lemma Start.ackedInv {s : State} (h : Start s) : Acked s where
  made := by simp [h.acked]
  owes k x hk := by simp [h.idle] at hk
  covered := by simp [h.acked]

variable {s : State}

lemma Acked.goto {t : State} {k : ℕ} {y : Task} {x : Option Task} (h : Acked s)
    (hk : s.tasks k = some y ∨ s.tasks k = none)
    (htasks : t.tasks = s.tasks) (hversion : s.version ≤ t.version)
    (hacked : ∀ v, v ∈ t.acked → v ∈ s.acked ∨ t.dirty = true ∧ v ≤ t.version)
    (hgrows : ∀ v, v ∈ s.acked → v ∈ t.acked)
    (hcompleted : ∀ w, w ∈ s.completed → w ∈ t.completed)
    (howes : ∀ z, x = some z → z.Owes t)
    (hdirty : s.dirty = true → t.dirty = true ∨ ∃ z, x = some z ∧ ∀ v ∈ s.acked, z.Carries v)
    (hcarries : ∀ v, v ∈ s.acked → s.tasks k = some y → y.Carries v →
      t.dirty = true ∨ (∃ w ∈ t.completed, v ≤ w) ∨ ∃ z, x = some z ∧ z.Carries v) :
    Acked (t.goto k x) where
  made v hv := by
    rcases hacked v hv with hv | ⟨-, hv⟩
    · exact (h.made v hv).trans hversion
    · exact hv
  owes l z hl := by
    simp only [State.goto_tasks, Function.update_apply, htasks] at hl
    split_ifs at hl with hlk
    · have := howes z hl
      cases z <;> exact this
    · have := h.owes l z hl
      cases z with
      | updated v => exact le_trans this hversion
      | flushing need => exact fun v hv => hgrows v (this v hv)
      | cleared need => exact fun v hv => hgrows v (this v hv)
      | located need p => exact fun v hv => hgrows v (this v hv)
      | _ => exact this
  covered v hv := by
    simp only [State.goto_tasks, State.goto_dirty, State.goto_completed, Function.update_apply,
      htasks]
    have hnew : (∃ z, x = some z ∧ z.Carries v) →
        ∃ l z, (if l = k then x else s.tasks l) = some z ∧ z.Carries v := by
      rintro ⟨z, hz, hv⟩
      exact ⟨k, z, by rw [if_pos rfl, hz], hv⟩
    rcases hacked v hv with hold | ⟨hd, -⟩
    · rcases h.covered v hold with hd | ⟨w, hw, hvw⟩ | ⟨l, z, hl, hz⟩
      · rcases hdirty hd with hd | ⟨z, hz, hcarry⟩
        · exact Or.inl hd
        · exact Or.inr (Or.inr (hnew ⟨z, hz, hcarry v hold⟩))
      · exact Or.inr (Or.inl ⟨w, hcompleted w hw, hvw⟩)
      · by_cases hlk : l = k
        · subst hlk
          rcases hk with hk | hk
          · obtain rfl := Option.some.inj (hk.symm.trans hl)
            rcases hcarries v hold hk hz with hd | hw | hz
            · exact Or.inl hd
            · exact Or.inr (Or.inl hw)
            · exact Or.inr (Or.inr (hnew hz))
          · simp [hk] at hl
        · exact Or.inr (Or.inr ⟨l, z, by rw [if_neg hlk, hl], hz⟩)
    · exact Or.inl hd

lemma Acked.advance {t : State} {k : ℕ} {y : Task} {x : Option Task} (h : Acked s)
    (hk : s.tasks k = some y) (htasks : t.tasks = s.tasks) (hversion : s.version ≤ t.version)
    (hacked : t.acked = s.acked) (hcompleted : t.completed = s.completed)
    (hdirty : s.dirty = true → t.dirty = true) (howes : ∀ z, x = some z → z.Owes t)
    (hcarries : ∀ v, v ∈ s.acked → y.Carries v → t.dirty = true ∨ ∃ z, x = some z ∧ z.Carries v) :
    Acked (t.goto k x) := by
  refine h.goto (Or.inl hk) htasks hversion ?_ ?_ ?_ howes ?_ ?_
  · rw [hacked]
    exact fun v hv => Or.inl hv
  · rw [hacked]
    exact fun v hv => hv
  · rw [hcompleted]
    exact fun w hw => hw
  · exact fun hd => Or.inl (hdirty hd)
  · intro v hv _ hy
    rcases hcarries v hv hy with hd | hz
    · exact Or.inl hd
    · exact Or.inr (Or.inr hz)

lemma Acked.begin {k : ℕ} {x : Task} (h : Acked s) (hk : s.tasks k = none) (howes : x.Owes s) :
    Acked (s.goto k (some x)) := by
  refine h.goto (y := x) (Or.inr hk) rfl le_rfl (fun v hv => Or.inl hv) (fun v hv => hv)
    (fun w hw => hw) ?_ (fun hd => Or.inl hd) ?_
  · intro z hz
    obtain rfl := Option.some.inj hz
    exact howes
  · intro v _ hk'
    simp [hk] at hk'

lemma Acked.mark {k v : ℕ} (h : Acked s) (hk : s.tasks k = some (.updated v)) :
    Acked ({ s with dirty := true, acked := v :: s.acked }.goto k none) := by
  refine h.goto (Or.inl hk) rfl le_rfl ?_ ?_ ?_ ?_ ?_ ?_
  · intro w hw
    rcases List.mem_cons.mp hw with rfl | hw
    · exact Or.inr ⟨rfl, h.owes k _ hk⟩
    · exact Or.inl hw
  · exact fun w hw => List.mem_cons_of_mem v hw
  · exact fun w hw => hw
  · simp
  · exact fun _ => Or.inl rfl
  · exact fun _ _ _ _ => Or.inl rfl

lemma Acked.clear {k : ℕ} {need : List ℕ} (h : Acked s) (hk : s.tasks k = some (.flushing need)) :
    Acked ({ s with dirty := false }.goto k (some (.cleared need))) := by
  refine h.goto (Or.inl hk) rfl le_rfl (fun v hv => Or.inl hv) (fun v hv => hv)
    (fun w hw => hw) ?_ ?_ ?_
  · intro z hz
    obtain rfl := Option.some.inj hz
    exact h.owes k _ hk
  · exact fun _ => Or.inr ⟨_, rfl, fun _ _ => trivial⟩
  · exact fun _ _ _ hy => absurd hy (by simp [Task.Carries])

lemma Acked.sync {k w : ℕ} {need : List ℕ} (h : Acked s)
    (hk : s.tasks k = some (.delivered need w)) :
    Acked ({ s with completed := w :: s.completed }.goto k none) := by
  refine h.goto (Or.inl hk) rfl le_rfl (fun v hv => Or.inl hv) (fun v hv => hv)
    (fun u hu => List.mem_cons_of_mem w hu) (by simp) (fun hd => Or.inl hd) ?_
  intro v _ _ hv
  exact Or.inr (Or.inl ⟨w, List.mem_cons_self, hv⟩)

lemma Acked.step {t : State} {a : Label} (h : Acked s) (hs : Step s a t) : Acked t := by
  cases hs with
  | write hk => exact h.begin hk trivial
  | flush hk => exact h.begin hk fun v hv => hv
  | rename hk => exact h.begin hk trivial
  | mark hk => exact h.mark hk
  | clear hk => exact h.clear hk
  | sync hk => exact h.sync hk
  | update hk =>
    refine h.advance hk rfl (Nat.le_succ _) rfl rfl (fun hd => hd) ?_ (fun _ _ hy => hy.elim)
    simp [Task.Owes]
  | clean hk =>
    exact h.advance hk rfl le_rfl rfl rfl (fun hd => hd) (by simp) (fun _ _ hy => hy.elim)
  | locate hk =>
    refine h.advance hk rfl le_rfl rfl rfl (fun hd => hd) ?_ ?_
    · simpa [Task.Owes] using h.owes _ _ hk
    · exact fun _ _ _ => Or.inr ⟨_, rfl, trivial⟩
  | read hk =>
    have howes := h.owes _ _ hk
    refine h.advance hk rfl le_rfl rfl rfl (fun hd => hd) ?_ ?_
    · intro z hz
      obtain rfl := Option.some.inj hz
      exact fun v hv => h.made v (howes v hv)
    · exact fun v hv _ => Or.inr ⟨_, rfl, h.made v hv⟩
  | deliver hk =>
    refine h.advance hk rfl le_rfl rfl rfl (fun hd => hd) ?_ ?_
    · simpa [Task.Owes] using h.owes _ _ hk
    · exact fun v _ hv => Or.inr ⟨_, rfl, hv⟩
  | pushFails hk =>
    refine h.advance hk rfl le_rfl rfl rfl (fun hd => hd) (by simp [Task.Owes]) ?_
    exact fun _ _ _ => Or.inr ⟨_, rfl, trivial⟩
  | syncFails hk =>
    refine h.advance hk rfl le_rfl rfl rfl (fun hd => hd) (by simp [Task.Owes]) ?_
    exact fun _ _ _ => Or.inr ⟨_, rfl, trivial⟩
  | restore hk =>
    exact h.advance hk rfl le_rfl rfl rfl (fun _ => rfl) (by simp) (fun _ _ _ => Or.inl rfl)
  | move hk =>
    exact h.advance hk rfl le_rfl rfl rfl (fun hd => hd) (by simp [Task.Owes])
      (fun _ _ hy => hy.elim)
  | rekey hk =>
    exact h.advance hk rfl le_rfl rfl rfl (fun hd => hd) (by simp) (fun _ _ hy => hy.elim)

lemma Acked.reply {t : State} {a : Label} {need : List ℕ} (h : Acked s) (hg : CleanIsIdle s a)
    (hs : Step s a t) (ha : a.replies = some need) : ∀ v ∈ need, ∃ w ∈ t.completed, v ≤ w := by
  intro v hv
  cases hs with
  | clean hk hd =>
    obtain rfl := Option.some.inj ha
    rcases h.covered v (h.owes _ _ hk v hv) with hd' | hw | ⟨l, x, hl, hx⟩
    · rw [hd] at hd'
      simp at hd'
    · exact hw
    · have hidle := hg l x hl
      cases x <;> simp_all [Task.Carries, Task.InFlight]
  | sync hk =>
    obtain rfl := Option.some.inj ha
    exact ⟨_, List.mem_cons_self, h.owes _ _ hk v hv⟩
  | _ => simp [Label.replies] at ha

end Flush

/-- In a run whose flushes meet the guard, a flush that replies ok has every write acknowledged
before it arrived in a completed push. -/
theorem ok_flush_is_durable {s t u : State} {a : Label} {need : List ℕ} (hstart : Start s)
    (hrun : Run Step CleanIsIdle s t) (hg : CleanIsIdle t a) (hs : Step t a u)
    (ha : a.replies = some need) : ∀ v ∈ need, ∃ w ∈ u.completed, v ≤ w :=
  (hrun.invariant (fun _ _ _ h _ hs => Acked.step h hs) hstart.ackedInv).reply hg hs ha

def oneFile : State where
  file := []
  dirty := false
  path := "/f".toList
  device p := if p = "/f".toList then some [] else none
  version := 0
  newest := 0
  acked := []
  completed := []
  tasks _ := none

lemma oneFile_start : Start oneFile where
  idle _ := rfl
  canonical := ⟨["f".toList], by decide, by decide⟩
  acked := rfl
  versions := le_rfl
  current _ := by simp [oneFile]
  clean _ := rfl

/-- A second write is flushed while the flush of the first is under way. -/
theorem ok_flush_is_durable_of_overlapping_flushes :
    ∃ t, Run Step CleanIsIdle oneFile t ∧ t.acked = [2, 1] ∧
      ∀ v ∈ t.acked, ∃ w ∈ t.completed, v ≤ w := by
  have hrun : Run Step CleanIsIdle oneFile _ :=
    .head (@Step.write _ 0 0 [7] rfl) trivial <|
    .head (.update (k := 0) rfl) trivial <|
    .head (.mark (k := 0) rfl) trivial <|
    .head (.flush (k := 1) rfl) trivial <|
    .head (.clear (k := 1) rfl rfl) trivial <|
    .head (.locate (k := 1) rfl) trivial <|
    .head (.read (k := 1) rfl) trivial <|
    .head (@Step.write _ 0 1 [8] rfl) trivial <|
    .head (.update (k := 0) rfl) trivial <|
    .head (.mark (k := 0) rfl) trivial <|
    .head (.flush (k := 2) rfl) trivial <|
    .head (.clear (k := 2) rfl rfl) trivial <|
    .head (.deliver (k := 1) rfl) trivial <|
    .head (.locate (k := 2) rfl) trivial <|
    .head (.read (k := 2) rfl) trivial <|
    .single (.deliver (k := 2) rfl) trivial
  obtain ⟨t, u, hrun, hsync, hu⟩ : ∃ t u, Run Step CleanIsIdle oneFile t ∧
      Step t (.sync [2, 1]) u ∧ u.acked = [2, 1] :=
    ⟨_, _, hrun, .sync (k := 2) (w := 2) rfl, rfl⟩
  have hg : CleanIsIdle t (.sync [2, 1]) := trivial
  refine ⟨u, .tail hrun hg hsync, hu, ?_⟩
  rw [hu]
  exact ok_flush_is_durable oneFile_start hrun hg hsync rfl

/-- A flush finds the bit cleared by another flush whose push has not begun. -/
theorem ok_flush_is_durable_fails_for_overlapping_flushes :
    ¬ ∀ s t u a need, Start s → Run Step Always s t → Step t a u → a.replies = some need →
      ∀ v ∈ need, ∃ w ∈ u.completed, v ≤ w := by
  intro h
  have hrun : Run Step Always oneFile _ :=
    .head (@Step.write _ 0 0 [7] rfl) trivial <|
    .head (.update (k := 0) rfl) trivial <|
    .head (.mark (k := 0) rfl) trivial <|
    .head (.flush (k := 1) rfl) trivial <|
    .head (.flush (k := 2) rfl) trivial <|
    .single (.clear (k := 1) rfl rfl) trivial
  obtain ⟨w, hw, -⟩ := h _ _ _ _ _ oneFile_start hrun (.clean (k := 2) rfl rfl) rfl 1 (by decide)
  exact absurd hw (by simp [oneFile])

section Order

/-- The rename of `f` to `g`, past its `mv`, has moved the file and not yet rekeyed its path. -/
def Leads (s : State) (f g : Text) : Prop :=
  (∃ k, s.tasks k = some (.moved f g)) ∧ rebase f g s.path ≠ none

/-- The file on the device, which a rename has moved before it rekeys the path. -/
def Lies (s : State) (l : Text) : Prop :=
  (∃ f g, Leads s f g ∧ l = movePath f g s.path) ∨ (∀ f g, ¬ Leads s f g) ∧ l = s.path

/-- Commands succeed, and a rename neither replaces the inode's file nor overlaps itself. -/
def Admissible (s : State) : Label → Prop
  | .fail => False
  | .move source target => (∃ f g, Names f ∧ Names g ∧ Apart f g ∧ source = render f ∧
      target = render g) ∧ rebase target source s.path = none ∧
        ∀ l, Lies s l → rebase target source l = none
  | _ => True

/-- Snapshots are delivered in the order they were read, to where the file is. Of the renames that
are past their `mv`, one moves the file, and the others touch neither path of it. -/
def Orderly (s : State) : Label → Prop
  | .deliver p w => s.newest ≤ w ∧ p = s.path ∧
      ∀ k f g, s.tasks k = some (.moved f g) → rebase f g s.path = none
  | .move source target => ∀ k f g, s.tasks k = some (.moved f g) →
      if rebase f g s.path = none then rebase f g (movePath source target s.path) = none
      else rebase source target s.path = none ∧ rebase source target (movePath f g s.path) = none
  | _ => True

def Quiet (s : State) : Prop := ∀ k, s.tasks k = none

/-- The task will set the dirty bit or deliver the current contents. -/
def Task.Will (version : ℕ) : Task → Prop
  | .updated _ | .cleared _ | .located _ _ => True
  | .snapped _ _ _ w => w = version
  | _ => False

def Task.Sound (s : State) : Task → Prop
  | .snapped _ _ contents w => w ≤ s.version ∧ (w = s.version → contents = s.file)
  | .moved source target => ∃ f g, Names f ∧ Names g ∧ Apart f g ∧ source = render f ∧
      target = render g
  | _ => True

structure Pushed (s : State) : Prop where
  canonical : Canonical s.path
  turns : ∀ k l f g f' g', s.tasks k = some (.moved f g) → s.tasks l = some (.moved f' g') →
    k ≠ l → rebase f g s.path ≠ none →
      rebase f' g' s.path = none ∧ rebase f' g' (movePath f g s.path) = none
  versions : s.newest ≤ s.version
  sound : ∀ k x, s.tasks k = some x → x.Sound s
  current : s.newest = s.version → ∀ l, Lies s l → s.device l = some s.file
  covered : s.dirty = true ∨ s.newest = s.version ∨
    ∃ k x, s.tasks k = some x ∧ x.Will s.version

lemma Start.pushed {s : State} (h : Start s) : Pushed s where
  canonical := h.canonical
  turns k l f g f' g' hk := by simp [h.idle] at hk
  versions := h.versions
  sound k x hk := by simp [h.idle] at hk
  current hv l hl := by
    rcases hl with ⟨f, g, ⟨⟨k, hk⟩, -⟩, -⟩ | ⟨-, rfl⟩
    · simp [h.idle] at hk
    · exact h.current hv
  covered := by
    cases hd : s.dirty with
    | true => exact Or.inl rfl
    | false => exact Or.inr (Or.inl (h.clean hd))

variable {s : State}

lemma Pushed.goto {t : State} {k : ℕ} {x : Option Task} (h : Pushed s)
    (hy : ∀ f g, s.tasks k ≠ some (.moved f g)) (hx : ∀ f g, x ≠ some (.moved f g))
    (htasks : t.tasks = s.tasks) (hpath : t.path = s.path) (hversions : t.newest ≤ t.version)
    (hfile : t.version = s.version ∧ t.file = s.file ∨ s.version < t.version)
    (hsound : ∀ z, x = some z → z.Sound t)
    (hcurrent : t.newest = t.version → ∀ l, Lies s l → t.device l = some t.file)
    (hcovered : t.dirty = true ∨ t.newest = t.version ∨ (∃ z, x = some z ∧ z.Will t.version) ∨
      ∃ l z, l ≠ k ∧ s.tasks l = some z ∧ z.Will t.version) :
    Pushed (t.goto k x) := by
  have hmoved : ∀ l f g, (t.goto k x).tasks l = some (.moved f g) ↔
      s.tasks l = some (.moved f g) := by
    intro l f g
    simp only [State.goto_tasks, Function.update_apply, htasks]
    split_ifs with hlk
    · rw [hlk]
      exact iff_of_false (hx f g) (hy f g)
    · exact Iff.rfl
  have hleads : ∀ f g, Leads (t.goto k x) f g ↔ Leads s f g := by
    intro f g
    rw [Leads, Leads, State.goto_path, hpath]
    exact and_congr_left' (exists_congr fun l => hmoved l f g)
  constructor
  · simpa [hpath] using h.canonical
  · intro l m f g f' g' hl hm
    rw [State.goto_path, hpath]
    exact h.turns l m f g f' g' ((hmoved l f g).mp hl) ((hmoved m f' g').mp hm)
  · exact hversions
  · intro l z hl
    simp only [State.goto_tasks, Function.update_apply, htasks] at hl
    split_ifs at hl
    · exact hsound z hl
    · have hz := h.sound l z hl
      cases z with
      | snapped need p b w =>
        rcases hfile with ⟨hv, hf⟩ | hv
        · simpa [Task.Sound, hv, hf] using hz
        · have hw : w ≤ s.version := hz.1
          exact ⟨by simp; omega, fun hw' => by simp at hw'; omega⟩
      | moved source target => exact hz
      | _ => trivial
  · intro hv l hl
    refine hcurrent hv l ?_
    rcases hl with ⟨f, g, hfg, rfl⟩ | ⟨hnone, rfl⟩
    · exact Or.inl ⟨f, g, (hleads f g).mp hfg, by simp [hpath]⟩
    · exact Or.inr ⟨fun f g hfg => hnone f g ((hleads f g).mpr hfg), by simp [hpath]⟩
  · rcases hcovered with hd | hv | ⟨z, rfl, hz⟩ | ⟨l, z, hlk, hl, hz⟩
    · exact Or.inl hd
    · exact Or.inr (Or.inl hv)
    · exact Or.inr (Or.inr ⟨k, z, by simp, hz⟩)
    · exact Or.inr (Or.inr ⟨l, z, by simp [hlk, htasks, hl], hz⟩)

lemma Pushed.covered_without (h : Pushed s) {k : ℕ} {y : Task}
    (hk : s.tasks k = some y ∨ s.tasks k = none)
    (hy : ¬ y.Will s.version) : s.dirty = true ∨ s.newest = s.version ∨
      ∃ l z, l ≠ k ∧ s.tasks l = some z ∧ z.Will s.version := by
  rcases h.covered with hd | hv | ⟨l, z, hl, hz⟩
  · exact Or.inl hd
  · exact Or.inr (Or.inl hv)
  · refine Or.inr (Or.inr ⟨l, z, ?_, hl, hz⟩)
    rintro rfl
    rcases hk with hk | hk
    · exact hy (Option.some.inj (hk.symm.trans hl) ▸ hz)
    · simp [hk] at hl

lemma Pushed.advance (h : Pushed s) {k : ℕ} {y : Task} {x : Option Task}
    (hk : s.tasks k = some y ∨ s.tasks k = none) (hy : ∀ f g, y ≠ .moved f g)
    (hx : ∀ f g, x ≠ some (.moved f g)) (hsound : ∀ z, x = some z → z.Sound s)
    (hwill : y.Will s.version → ∃ z, x = some z ∧ z.Will s.version) : Pushed (s.goto k x) := by
  have hmoved : ∀ f g, s.tasks k ≠ some (.moved f g) := by
    intro f g hkm
    rcases hk with hk | hk
    · exact hy f g (Option.some.inj (hk.symm.trans hkm))
    · simp [hk] at hkm
  refine h.goto hmoved hx rfl rfl h.versions (Or.inl ⟨rfl, rfl⟩) hsound h.current ?_
  by_cases hw : y.Will s.version
  · exact Or.inr (Or.inr (Or.inl (hwill hw)))
  · rcases h.covered_without hk hw with hd | hv | hl
    · exact Or.inl hd
    · exact Or.inr (Or.inl hv)
    · exact Or.inr (Or.inr (Or.inr hl))

lemma Pushed.update {k offset : ℕ} {data : Bytes} (h : Pushed s)
    (hk : s.tasks k = some (.writing offset data)) :
    Pushed ({ s with
      file := Contents.writeAt offset data s.file
      version := s.version + 1 }.goto k (some (.updated (s.version + 1)))) := by
  have hlt := h.versions
  refine h.goto (by simp [hk]) (by simp) rfl rfl (Nat.le_succ_of_le hlt)
    (Or.inr (Nat.lt_succ_self _)) ?_ ?_ ?_
  · intro z hz
    obtain rfl := Option.some.inj hz
    trivial
  · intro hv
    have hv' : s.newest = s.version + 1 := hv
    omega
  · exact Or.inr (Or.inr (Or.inl ⟨_, rfl, trivial⟩))

lemma Pushed.setDirty {k : ℕ} {y : Task} {acked : List ℕ} (h : Pushed s) (hk : s.tasks k = some y)
    (hy : ∀ f g, y ≠ .moved f g) :
    Pushed ({ s with dirty := true, acked := acked }.goto k none) := by
  refine h.goto ?_ (by simp) rfl rfl h.versions (Or.inl ⟨rfl, rfl⟩) (by simp) h.current
    (Or.inl rfl)
  intro f g hkm
  exact hy f g (Option.some.inj (hk.symm.trans hkm))

lemma Pushed.clear {k : ℕ} {need : List ℕ} (h : Pushed s)
    (hk : s.tasks k = some (.flushing need)) :
    Pushed ({ s with dirty := false }.goto k (some (.cleared need))) := by
  refine h.goto (by simp [hk]) (by simp) rfl rfl h.versions (Or.inl ⟨rfl, rfl⟩) ?_ h.current
    (Or.inr (Or.inr (Or.inl ⟨_, rfl, trivial⟩)))
  intro z hz
  obtain rfl := Option.some.inj hz
  trivial

lemma Pushed.sync {k w : ℕ} {need : List ℕ} (h : Pushed s)
    (hk : s.tasks k = some (.delivered need w)) :
    Pushed ({ s with completed := w :: s.completed }.goto k none) := by
  refine h.goto (by simp [hk]) (by simp) rfl rfl h.versions (Or.inl ⟨rfl, rfl⟩) (by simp)
    h.current ?_
  rcases h.covered_without (Or.inl hk) (by simp [Task.Will]) with hd | hv | hl
  · exact Or.inl hd
  · exact Or.inr (Or.inl hv)
  · exact Or.inr (Or.inr (Or.inr hl))

lemma Pushed.deliver {k w : ℕ} {need : List ℕ} {p : Text} {contents : Bytes} (h : Pushed s)
    (hk : s.tasks k = some (.snapped need p contents w)) (hg : Orderly s (.deliver p w)) :
    Pushed ({ s with
      device := Function.update s.device p (some contents)
      newest := max s.newest w }.goto k (some (.delivered need w))) := by
  obtain ⟨hle, rfl, hstill⟩ := hg
  obtain ⟨hw, hcontents⟩ := h.sound k _ hk
  have hlies : ∀ l, Lies s l → l = s.path := by
    rintro l (⟨f, g, ⟨⟨m, hm⟩, hmoves⟩, -⟩ | ⟨-, rfl⟩)
    · exact absurd (hstill m f g hm) hmoves
    · rfl
  refine h.goto (by simp [hk]) (by simp) rfl rfl (max_le h.versions hw) (Or.inl ⟨rfl, rfl⟩) ?_ ?_ ?_
  · intro z hz
    obtain rfl := Option.some.inj hz
    trivial
  · intro hv l hl
    have hwv : w = s.version := by simpa [max_eq_right hle] using hv
    simp [hlies l hl, hcontents hwv]
  · by_cases hwv : w = s.version
    · exact Or.inr (Or.inl (by simp [hwv, h.versions]))
    · rcases h.covered_without (Or.inl hk) hwv with hd | hv | hl
      · exact Or.inl hd
      · exact absurd (le_antisymm hw (hv ▸ hle)) hwv
      · exact Or.inr (Or.inr (Or.inr hl))

lemma Lies.of_leads {f g : Text} (h : Leads s f g) : Lies s (movePath f g s.path) :=
  Or.inl ⟨f, g, h, rfl⟩

/-- A file that waits for a rename to rekey its path is no other rename's to move. -/
lemma Orderly.waits {source target f g : Text} (hg : Orderly s (.move source target))
    (h : Leads s f g) :
    rebase source target s.path = none ∧ rebase source target (movePath f g s.path) = none := by
  obtain ⟨⟨k, hk⟩, hmoves⟩ := h
  have hturn := hg k f g hk
  rwa [if_neg hmoves] at hturn

lemma Pushed.stays (h : Pushed s) (hv : s.newest = s.version) {source target l : Text}
    (hl : Lies s l) (hin : rebase target source l = none) (hout : rebase source target l = none) :
    moveTree source target s.device l = some s.file := by
  rw [moveTree, hin, hout]
  exact h.current hv l hl

lemma Pushed.move {k : ℕ} {source target : Text} (h : Pushed s)
    (hk : s.tasks k = some (.renaming source target)) (ha : Admissible s (.move source target))
    (hg : Orderly s (.move source target)) :
    Pushed ({ s with device := moveTree source target s.device }.goto k
      (some (.moved source target))) := by
  obtain ⟨⟨f, g, hf, hn, hfg, rfl, rfl⟩, hin, hout⟩ := ha
  have hother : ∀ m f' g', s.tasks m = some (.moved f' g') → m ≠ k := by
    rintro m f' g' hm rfl
    simp [hk] at hm
  have hmoved : ∀ m f' g', ({ s with device := moveTree (render f) (render g) s.device }.goto k
      (some (.moved (render f) (render g)))).tasks m = some (.moved f' g') →
        m = k ∧ f' = render f ∧ g' = render g ∨ s.tasks m = some (.moved f' g') := by
    intro m f' g' hm
    simp only [State.goto_tasks, Function.update_apply] at hm
    split_ifs at hm with hmk
    · simp only [Option.some.injEq, Task.moved.injEq] at hm
      exact Or.inl ⟨hmk, hm.1.symm, hm.2.symm⟩
    · exact Or.inr hm
  constructor
  · exact h.canonical
  · intro m n f₁ g₁ f₂ g₂ hm hn' hne hmoves
    simp only [State.goto_path] at hmoves ⊢
    rcases hmoved m f₁ g₁ hm with ⟨hmk, rfl, rfl⟩ | holdm
    · rcases hmoved n f₂ g₂ hn' with ⟨hnk, -, -⟩ | holdn
      · exact absurd (hmk.trans hnk.symm) hne
      · have hturn := hg n f₂ g₂ holdn
        split_ifs at hturn with hstill
        · exact ⟨hstill, hturn⟩
        · exact absurd hturn.1 hmoves
    · rcases hmoved n f₂ g₂ hn' with ⟨-, rfl, rfl⟩ | holdn
      · exact hg.waits ⟨⟨m, holdm⟩, hmoves⟩
      · exact h.turns m n f₁ g₁ f₂ g₂ holdm holdn hne hmoves
  · exact h.versions
  · intro l z hl
    simp only [State.goto_tasks, Function.update_apply] at hl
    split_ifs at hl
    · obtain rfl := Option.some.inj hl
      exact ⟨f, g, hf, hn, hfg, rfl, rfl⟩
    · have hz := h.sound l z hl
      cases z <;> exact hz
  · intro hv l hl
    rcases hl with ⟨f₁, g₁, ⟨⟨m, hm⟩, hmoves⟩, rfl⟩ | ⟨hnone, rfl⟩
    · rcases hmoved m f₁ g₁ hm with ⟨-, rfl, rfl⟩ | hm
      · have hlies : Lies s s.path :=
          Or.inr ⟨fun f₁ g₁ hleads => hmoves (hg.waits hleads).1, rfl⟩
        exact (moveTree_movePath hf hn hfg h.canonical hin).trans (h.current hv _ hlies)
      · have hleads : Leads s f₁ g₁ := ⟨⟨m, hm⟩, hmoves⟩
        have hlies := Lies.of_leads hleads
        exact h.stays hv hlies (hout _ hlies) (hg.waits hleads).2
    · have hlies : Lies s s.path := by
        refine Or.inr ⟨?_, rfl⟩
        rintro f₁ g₁ ⟨⟨m, hm⟩, hmoves⟩
        exact hnone f₁ g₁ ⟨⟨m, by simp [hother m f₁ g₁ hm, hm]⟩, hmoves⟩
      refine h.stays hv hlies hin ?_
      by_contra hmoves
      exact hnone _ _ ⟨⟨k, by simp⟩, hmoves⟩
  · rcases h.covered_without (Or.inl hk) (by simp [Task.Will]) with hd | hv | ⟨l, z, hlk, hl, hz⟩
    · exact Or.inl hd
    · exact Or.inr (Or.inl hv)
    · exact Or.inr (Or.inr ⟨l, z, by simp [hlk, hl], hz⟩)

lemma Pushed.rekey {k : ℕ} {source target : Text} (h : Pushed s)
    (hk : s.tasks k = some (.moved source target)) :
    Pushed ({ s with path := movePath source target s.path }.goto k none) := by
  obtain ⟨f, g, hf, hn, hfg, rfl, rfl⟩ := h.sound k _ hk
  have hmoved : ∀ m f' g', ({ s with path := movePath (render f) (render g) s.path }.goto k
      none).tasks m = some (.moved f' g') → m ≠ k ∧ s.tasks m = some (.moved f' g') := by
    intro m f' g' hm
    simp only [State.goto_tasks, Function.update_apply] at hm
    split_ifs at hm with hmk
    exact ⟨hmk, hm⟩
  -- another rename moves the file only where this one has left the path as it was
  have hkept : ∀ m f₁ g₁, m ≠ k → s.tasks m = some (.moved f₁ g₁) →
      rebase f₁ g₁ (movePath (render f) (render g) s.path) ≠ none →
        movePath (render f) (render g) s.path = s.path := by
    intro m f₁ g₁ hmk hm hmoves
    apply movePath_of_none
    by_contra hleads
    exact hmoves (h.turns k m _ _ f₁ g₁ hk hm (Ne.symm hmk) hleads).2
  constructor
  · exact movePath_canonical hf hn hfg h.canonical
  · intro m n f₁ g₁ f₂ g₂ hm hn' hne hmoves
    obtain ⟨hmk, hm⟩ := hmoved m f₁ g₁ hm
    obtain ⟨-, hn'⟩ := hmoved n f₂ g₂ hn'
    have hpath := hkept m f₁ g₁ hmk hm hmoves
    simp only [State.goto_path] at hmoves ⊢
    rw [hpath] at hmoves ⊢
    exact h.turns m n f₁ g₁ f₂ g₂ hm hn' hne hmoves
  · exact h.versions
  · intro l z hl
    simp only [State.goto_tasks, Function.update_apply] at hl
    split_ifs at hl
    have hz := h.sound l z hl
    cases z <;> exact hz
  · intro hv l hl
    rcases hl with ⟨f₁, g₁, ⟨⟨m, hm⟩, hmoves⟩, rfl⟩ | ⟨hnone, rfl⟩
    · obtain ⟨hmk, hm⟩ := hmoved m f₁ g₁ hm
      have hpath := hkept m f₁ g₁ hmk hm hmoves
      simp only [State.goto_path] at hmoves ⊢
      rw [hpath] at hmoves ⊢
      exact h.current hv _ (Lies.of_leads ⟨⟨m, hm⟩, hmoves⟩)
    · by_cases hleads : rebase (render f) (render g) s.path = none
      · simp only [State.goto_path, movePath_of_none hleads]
        refine h.current hv _ (Or.inr ⟨?_, rfl⟩)
        rintro f₁ g₁ ⟨⟨m, hm⟩, hmoves⟩
        have hmk : m ≠ k := by
          rintro rfl
          simp only [hk, Option.some.injEq, Task.moved.injEq] at hm
          exact hmoves (hm.1 ▸ hm.2 ▸ hleads)
        exact hnone f₁ g₁ ⟨⟨m, by simp [hmk, hm]⟩, by simpa [movePath_of_none hleads] using hmoves⟩
      · exact h.current hv _ (Lies.of_leads ⟨⟨k, hk⟩, hleads⟩)
  · rcases h.covered_without (Or.inl hk) (by simp [Task.Will]) with hd | hv | ⟨l, z, hlk, hl, hz⟩
    · exact Or.inl hd
    · exact Or.inr (Or.inl hv)
    · exact Or.inr (Or.inr ⟨l, z, by simp [hlk, hl], hz⟩)

lemma Pushed.step {t : State} {a : Label} (h : Pushed s) (ha : Admissible s a) (hg : Orderly s a)
    (hs : Step s a t) : Pushed t := by
  have hempty : ∀ f g, (none : Option Task) ≠ some (.moved f g) := by simp
  cases hs with
  | write hk =>
    exact h.advance (y := .failed) (Or.inr hk) (by simp) (by simp) (by simp [Task.Sound])
      (fun hy => hy.elim)
  | update hk => exact h.update hk
  | mark hk => exact h.setDirty hk (by simp)
  | flush hk =>
    exact h.advance (y := .failed) (Or.inr hk) (by simp) (by simp) (by simp [Task.Sound])
      (fun hy => hy.elim)
  | clean hk _ =>
    exact h.advance (Or.inl hk) (by simp) hempty (by simp) (fun hy => hy.elim)
  | clear hk _ => exact h.clear hk
  | locate hk =>
    exact h.advance (Or.inl hk) (by simp) (by simp) (by simp [Task.Sound])
      (fun _ => ⟨_, rfl, trivial⟩)
  | read hk =>
    refine h.advance (Or.inl hk) (by simp) (by simp) ?_ (fun _ => ⟨_, rfl, rfl⟩)
    intro z hz
    obtain rfl := Option.some.inj hz
    exact ⟨le_rfl, fun _ => rfl⟩
  | deliver hk => exact h.deliver hk hg
  | pushFails hk => exact ha.elim
  | syncFails hk => exact ha.elim
  | restore hk => exact h.setDirty hk (by simp)
  | sync hk => exact h.sync hk
  | rename hk =>
    exact h.advance (y := .failed) (Or.inr hk) (by simp) (by simp) (by simp [Task.Sound])
      (fun hy => hy.elim)
  | move hk => exact h.move hk ha hg
  | rekey hk => exact h.rekey hk

lemma Pushed.quiet (h : Pushed s) (hq : Quiet s) (hd : s.dirty = false) :
    s.device s.path = some s.file := by
  have hv : s.newest = s.version := by
    rcases h.covered with hd' | hv | ⟨k, x, hk, -⟩
    · simp [hd] at hd'
    · exact hv
    · simp [hq k] at hk
  refine h.current hv s.path (Or.inr ⟨?_, rfl⟩)
  rintro f g ⟨⟨k, hk⟩, -⟩
  simp [hq k] at hk

end Order

theorem quiet_copy_is_on_device {s t : State} (hstart : Start s)
    (hrun : Run Step (fun s a => Admissible s a ∧ Orderly s a) s t) (hq : Quiet t)
    (hd : t.dirty = false) : t.device t.path = some t.file :=
  (hrun.invariant (fun _ _ _ h hg hs => Pushed.step h hg.1 hg.2 hs) hstart.pushed).quiet hq hd

/-- Two flushes overlap, and so do a rename of the file and one of another path. -/
theorem quiet_copy_is_on_device_after_overlaps :
    ∃ t : State, t.path = "/g".toList ∧ t.file = [7, 8] ∧ t.device t.path = some t.file := by
  have hstart : Start { oneFile with file := [7], dirty := true, version := 1 } :=
    { oneFile_start with
      versions := by decide
      current := by simp [oneFile]
      clean := by simp }
  have hrun : Run Step (fun s a => Admissible s a ∧ Orderly s a)
      { oneFile with file := [7], dirty := true, version := 1 } _ :=
    .head (@Step.rename _ 3 "/f".toList "/g".toList rfl) ⟨trivial, trivial⟩ <|
    .head (@Step.rename _ 4 "/a".toList "/b".toList rfl) ⟨trivial, trivial⟩ <|
    .head (.move (k := 4) rfl) ⟨⟨⟨["a".toList], ["b".toList], by decide, by decide,
      ⟨by decide, by decide⟩, by decide, by decide⟩, by decide, fun l hl => by
        rcases hl with ⟨f, g, ⟨⟨k, hk⟩, -⟩, -⟩ | ⟨-, rfl⟩
        · simp only [State.goto_tasks, Function.update_apply, oneFile] at hk
          split_ifs at hk <;> simp at hk
        · decide⟩, fun k f g hk => by
      simp only [State.goto_tasks, Function.update_apply, oneFile] at hk
      split_ifs at hk <;> simp at hk⟩ <|
    .head (.move (k := 3) rfl) ⟨⟨⟨["f".toList], ["g".toList], by decide, by decide,
      ⟨by decide, by decide⟩, by decide, by decide⟩, by decide, fun l hl => by
        rcases hl with ⟨f, g, ⟨⟨k, hk⟩, -⟩, rfl⟩ | ⟨-, rfl⟩
        · simp only [State.goto_tasks, Function.update_apply, oneFile] at hk
          split_ifs at hk <;> simp at hk
          obtain ⟨rfl, rfl⟩ := hk
          decide
        · decide⟩, fun k f g hk => by
      simp only [State.goto_tasks, Function.update_apply, oneFile] at hk
      split_ifs at hk <;> simp at hk
      obtain ⟨rfl, rfl⟩ := hk
      decide⟩ <|
    .head (.rekey (k := 3) rfl) ⟨trivial, trivial⟩ <|
    .head (.flush (k := 1) rfl) ⟨trivial, trivial⟩ <|
    .head (.clear (k := 1) rfl rfl) ⟨trivial, trivial⟩ <|
    .head (.locate (k := 1) rfl) ⟨trivial, trivial⟩ <|
    .head (.read (k := 1) rfl) ⟨trivial, trivial⟩ <|
    .head (@Step.write _ 0 1 [8] rfl) ⟨trivial, trivial⟩ <|
    .head (.update (k := 0) rfl) ⟨trivial, trivial⟩ <|
    .head (.mark (k := 0) rfl) ⟨trivial, trivial⟩ <|
    .head (.flush (k := 2) rfl) ⟨trivial, trivial⟩ <|
    .head (.clear (k := 2) rfl rfl) ⟨trivial, trivial⟩ <|
    .head (.deliver (k := 1) rfl) ⟨trivial, by decide, by decide, fun k f g hk => by
      simp only [State.goto_tasks, Function.update_apply, oneFile] at hk
      split_ifs at hk <;> simp only [Option.some.injEq, Task.moved.injEq, reduceCtorEq] at hk
      obtain ⟨rfl, rfl⟩ := hk
      decide⟩ <|
    .head (.locate (k := 2) rfl) ⟨trivial, trivial⟩ <|
    .head (.read (k := 2) rfl) ⟨trivial, trivial⟩ <|
    .head (.deliver (k := 2) rfl) ⟨trivial, by decide, rfl, fun k f g hk => by
      simp only [State.goto_tasks, Function.update_apply, oneFile] at hk
      split_ifs at hk <;> simp only [Option.some.injEq, Task.moved.injEq, reduceCtorEq] at hk
      obtain ⟨rfl, rfl⟩ := hk
      decide⟩ <|
    .head (.sync (k := 2) rfl) ⟨trivial, trivial⟩ <|
    .head (.sync (k := 1) rfl) ⟨trivial, trivial⟩ <|
    .single (.rekey (k := 4) rfl) ⟨trivial, trivial⟩
  have hcopy := quiet_copy_is_on_device hstart hrun (fun k => by
    simp only [State.goto_tasks, Function.update_apply, oneFile]
    split_ifs <;> rfl) rfl
  exact ⟨_, by decide, by decide, hcopy⟩

/-- The snapshot read first is delivered last. -/
theorem quiet_copy_is_on_device_fails_for_reordered_pushes :
    ¬ ∀ s t, Start s → Run Step Admissible s t → Quiet t → t.dirty = false →
      t.device t.path = some t.file := by
  intro h
  have hrun : Run Step Admissible oneFile _ :=
    .head (@Step.write _ 0 0 [7] rfl) trivial <|
    .head (.update (k := 0) rfl) trivial <|
    .head (.mark (k := 0) rfl) trivial <|
    .head (.flush (k := 1) rfl) trivial <|
    .head (.clear (k := 1) rfl rfl) trivial <|
    .head (.locate (k := 1) rfl) trivial <|
    .head (.read (k := 1) rfl) trivial <|
    .head (@Step.write _ 0 0 [8] rfl) trivial <|
    .head (.update (k := 0) rfl) trivial <|
    .head (.mark (k := 0) rfl) trivial <|
    .head (.flush (k := 2) rfl) trivial <|
    .head (.clear (k := 2) rfl rfl) trivial <|
    .head (.locate (k := 2) rfl) trivial <|
    .head (.read (k := 2) rfl) trivial <|
    .head (.deliver (k := 2) rfl) trivial <|
    .head (.sync (k := 2) rfl) trivial <|
    .head (.deliver (k := 1) rfl) trivial <|
    .single (.sync (k := 1) rfl) trivial
  have hbytes := h _ _ oneFile_start hrun (fun k => ?_) rfl
  · exact absurd hbytes (by decide)
  · simp only [State.goto_tasks, Function.update_apply, oneFile]
    split_ifs <;> rfl

end Adbfs.Push
