import Adbfs.Concurrent.Copies

/-! The calls that are under way come to an end, in whatever order their steps are taken. -/

namespace Adbfs.Copies

open Library

/-- A step of a call that is under way: no call begins, and no reference is being given back that was
not before. -/
structure Advances (s : State) (a : Label) (s' : State) : Prop where
  step : Step s a s'
  absent : ∀ k, s.clients.lookup k = none → s'.clients.lookup k = none
  holding : ∀ k i c, s.clients.lookup k = some (.holds i c) →
    s'.clients.lookup k = some (.holds i c)

namespace Client

/-- Whether the client may yet take a copy out of the table, or wait for one that is taken out. -/
def undecided : Client → Bool
  | acquires _ _ | waits _ _ _ | checks _ _ _ | failed _ _ | deletes _ _ | removes _ _
  | releases _ _ | drops _ _ => true
  | populated _ _ | leaves _ _ | holds _ _ => false

/-- How many steps the client takes at most while the table of copies loses nothing. -/
def rank (openCopies : ℕ → Option ℕ) : Client → ℕ
  | waits i _ c => if openCopies i = some c then 5 else 8
  | checks i _ c => if openCopies i = some c then 4 else 7
  | acquires _ _ => 6
  | releases _ _ => 5
  | drops _ _ => 4
  | failed _ _ | deletes _ _ => 3
  | removes _ _ => 2
  | leaves _ _ | populated _ _ => 1
  | holds _ _ => 0

lemma rank_le (openCopies : ℕ → Option ℕ) (y : Client) : y.rank openCopies ≤ 8 := by
  cases y with
  | waits i init c | checks i init c =>
    simp only [rank]
    split_ifs <;> omega
  | _ => simp [rank]

lemma rank_update {openCopies : ℕ → Option ℕ} {y : Client} {i c : ℕ} (hnone : openCopies i = none)
    (hy : y.copy ≠ some c) :
    y.rank (Function.update openCopies i (some c)) = y.rank openCopies := by
  cases y with
  | waits j init d | checks j init d =>
    have hne : c ≠ d := fun he => hy (by rw [he]; rfl)
    by_cases hj : j = i
    · subst hj
      simp [rank, hnone, hne]
    · simp [rank, hj]
  | _ => rfl

lemma rank_checks (openCopies : ℕ → Option ℕ) (i c : ℕ) (init : CopyInit) :
    (checks i init c).rank openCopies < (waits i init c).rank openCopies := by
  simp only [rank]
  split_ifs <;> omega

lemma rank_failed (openCopies : ℕ → Option ℕ) (i c : ℕ) (init : CopyInit) :
    (failed i c).rank openCopies < (checks i init c).rank openCopies := by
  simp only [rank]
  split_ifs <;> omega

end Client

def callers (s : State) : ℕ := s.clients.count fun _ => true

def undecided (s : State) : ℕ := s.clients.count Client.undecided

/-- Each client that is decided pays for what the others may have to do again. -/
def effort (s : State) : ℕ :=
  undecided s * (8 * callers s + 1) + s.clients.total (Client.rank s.openCopies)

section Effort

variable {s s' : State} {k : ℕ} {y z : Client}

lemma callers_of_insert (hk : s.clients.lookup k = some y)
    (hclients : s'.clients = s.clients.insert k z) : callers s' = callers s := by
  have hcount := Table.count_replace (fun _ => true) z hk
  rw [callers, callers, hclients]
  simpa using hcount

lemma total_rank_le (s : State) : s.clients.total (Client.rank s.openCopies) ≤ 8 * callers s :=
  Table.total_le 8 s.clients fun y => y.rank_le s.openCopies

lemma undecided_le (s : State) : undecided s ≤ callers s :=
  Table.count_le_count _ _ fun _ _ _ _ => rfl

lemma effort_le (s : State) : effort s ≤ 8 * callers s ^ 2 + 9 * callers s := by
  have hrank := total_rank_le s
  have hmul : undecided s * (8 * callers s + 1) ≤ callers s * (8 * callers s + 1) :=
    Nat.mul_le_mul_right _ (undecided_le s)
  rw [effort]
  nlinarith

lemma effort_lt_of_decided (hk : s.clients.lookup k = some y)
    (hclients : s'.clients = s.clients.insert k z) (hy : y.undecided = true)
    (hz : z.undecided = false) : effort s' < effort s := by
  have hcallers := callers_of_insert hk hclients
  have hcount := Table.count_replace Client.undecided z hk
  rw [← hclients] at hcount
  have hundecided : undecided s' + 1 = undecided s := by
    rw [undecided, undecided]
    simpa [hy, hz] using hcount
  have hrank := total_rank_le s'
  rw [hcallers] at hrank
  rw [effort, effort, hcallers, ← hundecided, Nat.add_mul, Nat.one_mul]
  omega

lemma effort_lt_of_moved (hk : s.clients.lookup k = some y)
    (hclients : s'.clients = s.clients.insert k z) (hsame : z.undecided = y.undecided)
    (hothers : ∀ l x, s.clients.lookup l = some x → x.rank s'.openCopies = x.rank s.openCopies)
    (hrank : z.rank s'.openCopies < y.rank s.openCopies) : effort s' < effort s := by
  have hcallers := callers_of_insert hk hclients
  have hcount := Table.count_replace Client.undecided z hk
  rw [← hclients, hsame] at hcount
  have hundecided : undecided s' = undecided s := Nat.add_right_cancel hcount
  have htotal := Table.total_replace (Client.rank s'.openCopies) z hk
  rw [← hclients, Table.total_congr hothers, hothers k y hk] at htotal
  rw [effort, effort, hcallers, hundecided]
  omega

lemma effort_lt_of_left {i c : ℕ} (hk : s.clients.lookup k = some (.leaves i c))
    (hclients : s'.clients = s.clients.erase k) (hopen : s'.openCopies = s.openCopies) :
    effort s' < effort s := by
  have hcallers : callers s = callers s' + 1 := by
    rw [callers, callers, hclients]
    simpa using Table.count_erase (fun _ => true) hk
  have hundecided : undecided s = undecided s' := by
    rw [undecided, undecided, hclients]
    simpa [Client.undecided] using Table.count_erase Client.undecided hk
  have htotal := Table.total_erase (Client.rank s.openCopies) hk
  rw [← hclients, ← hopen] at htotal
  rw [effort, effort, hcallers, hundecided, ← hopen, htotal]
  have hmul : undecided s' * (8 * callers s' + 1) ≤ undecided s' * (8 * (callers s' + 1) + 1) :=
    Nat.mul_le_mul_left _ (by omega)
  simp only [Client.rank]
  omega

end Effort

section Progress

variable {s s' : State} {k c : ℕ} {y z : Client} {a : Label}

lemma Inv.effort_lt (h : Inv s) (hs : Advances s a s') : effort s' < effort s := by
  have hkept : ∀ {t : State}, t.openCopies = s.openCopies → ∀ (l : ℕ) (x : Client),
      s.clients.lookup l = some x → x.rank t.openCopies = x.rank s.openCopies :=
    fun hopen l x _ => by rw [hopen]
  obtain ⟨hstep, habsent, hholding⟩ := hs
  cases hstep with
  | acquire hk =>
    have hnone := habsent _ hk
    simp [State.goto] at hnone
  | release hk =>
    have hsame := hholding _ _ _ hk
    simp [State.goto] at hsame
  | entry hk hmap =>
    exact effort_lt_of_moved hk rfl rfl (hkept rfl) (by simp [Client.rank, hmap])
  | @insert k i init hk hnone =>
    exact effort_lt_of_moved hk rfl rfl
      (fun l x hl => Client.rank_update hnone (h.copy_ne_next hl)) (by simp [Client.rank])
  | lock hk hc hfree =>
    exact effort_lt_of_moved hk rfl rfl (hkept rfl) (Client.rank_checks _ _ _ _)
  | retry hk hc he =>
    refine effort_lt_of_moved hk rfl rfl (hkept rfl) ?_
    have hunmapped := h.met_once hk hc he .refl
    simp [Client.rank, hunmapped]
  | populate hk hc he hp => exact effort_lt_of_decided hk rfl rfl rfl
  | populateFails hk hc he hp =>
    exact effort_lt_of_moved hk rfl rfl (hkept rfl) (Client.rank_failed _ _ _ _)
  | acquired hk hc => exact effort_lt_of_moved hk rfl rfl (hkept rfl) (by simp [Client.rank])
  | evict hk hc hr => exact effort_lt_of_moved hk rfl rfl (hkept rfl) (by simp [Client.rank])
  | keep hk hc hr => exact effort_lt_of_decided hk rfl rfl rfl
  | lockRelease hk hc hfree =>
    exact effort_lt_of_moved hk rfl rfl (hkept rfl) (by simp [Client.rank])
  | drop hk hc hr => exact effort_lt_of_decided hk rfl rfl rfl
  | dropLast hk hc hr => exact effort_lt_of_moved hk rfl rfl (hkept rfl) (by simp [Client.rank])
  | delete hk => exact effort_lt_of_moved hk rfl rfl (hkept rfl) (by simp [Client.rank])
  | remove hk => exact effort_lt_of_decided hk rfl rfl rfl
  | leave hk hc => exact effort_lt_of_left hk rfl rfl

lemma advances_goto (hs : Step s a s') (hk : s.clients.lookup k = some y)
    (hy : ∀ i c, y ≠ .holds i c) (hclients : s'.clients = s.clients.insert k z) :
    Advances s a s' := by
  refine ⟨hs, fun l hl => ?_, fun l i c hl => ?_⟩
  · have hne : l ≠ k := by
      rintro rfl
      simp [hk] at hl
    simpa [hclients, hne] using hl
  · have hne : l ≠ k := by
      rintro rfl
      exact hy i c (Option.some.inj (hk.symm.trans hl))
    simpa [hclients, hne] using hl

lemma advances_leave (hs : Step s a s') (hk : s.clients.lookup k = some y)
    (hy : ∀ i c, y ≠ .holds i c) (hclients : s'.clients = s.clients.erase k) :
    Advances s a s' := by
  refine ⟨hs, fun l hl => ?_, fun l i c hl => ?_⟩
  · have hne : l ≠ k := by
      rintro rfl
      simp [hk] at hl
    simpa [hclients, hne] using hl
  · have hne : l ≠ k := by
      rintro rfl
      exact hy i c (Option.some.inj (hk.symm.trans hl))
    simpa [hclients, hne] using hl

lemma exists_populates (init : CopyInit) (pulled before : Bool) :
    ∃ after, Populates init pulled before after true := by
  cases init with
  | empty => exact ⟨true, .create⟩
  | pull =>
    cases pulled with
    | false => exact ⟨true, .pull⟩
    | true => exact ⟨before, .shared⟩

lemma Inv.advances_of_locks (h : Inv s) (hk : s.clients.lookup k = some y)
    (hy : y.locks = some c) : ∃ a t, Advances s a t := by
  obtain ⟨x, hc⟩ := h.copies_of_client hk (Client.copy_of_locks hy)
  cases y with
  | acquires _ _ | waits _ _ _ | holds _ _ | releases _ _ => cases hy
  | checks i init d =>
    obtain rfl := eq_of_some hy
    cases he : x.evicted with
    | true => exact ⟨_, _, advances_goto (.retry hk hc he) hk (by simp) rfl⟩
    | false =>
      obtain ⟨after, hp⟩ := exists_populates init x.pulled (s.present i)
      exact ⟨_, _, advances_goto (.populate hk hc he hp) hk (by simp) rfl⟩
  | populated i d =>
    obtain rfl := eq_of_some hy
    exact ⟨_, _, advances_goto (.acquired hk hc) hk (by simp) rfl⟩
  | failed i d =>
    obtain rfl := eq_of_some hy
    by_cases hr : x.refs = 0
    · exact ⟨_, _, advances_goto (.evict hk hc hr) hk (by simp) rfl⟩
    · exact ⟨_, _, advances_goto (.keep hk hc hr) hk (by simp) rfl⟩
  | deletes i d => exact ⟨_, _, advances_goto (.delete hk) hk (by simp) rfl⟩
  | removes i d => exact ⟨_, _, advances_goto (.remove hk) hk (by simp) rfl⟩
  | leaves i d =>
    obtain rfl := eq_of_some hy
    exact ⟨_, _, advances_leave (.leave hk hc) hk (by simp) rfl⟩
  | drops i d =>
    obtain rfl := eq_of_some hy
    by_cases hr : x.refs - 1 = 0
    · exact ⟨_, _, advances_goto (.dropLast hk hc hr) hk (by simp) rfl⟩
    · exact ⟨_, _, advances_goto (.drop hk hc hr) hk (by simp) rfl⟩

lemma Inv.advances_of_locked (h : Inv s) {x : Copy} (hc : s.copies c = some x) {l : ℕ}
    (hl : x.lock = some l) : ∃ a t, Advances s a t := by
  obtain ⟨z, hz, hlocks⟩ := ((h.copies c x hc).locked l).mp hl
  exact h.advances_of_locks hz hlocks

lemma Inv.exists_advances (h : Inv s) (hq : ¬ Quiet s) : ∃ a t, Advances s a t := by
  simp only [Quiet] at hq
  push Not at hq
  obtain ⟨k, y, hk, hy⟩ := hq
  cases y with
  | acquires i init =>
    cases hi : s.openCopies i with
    | none => exact ⟨_, _, advances_goto (.insert hk hi) hk hy rfl⟩
    | some c => exact ⟨_, _, advances_goto (.entry hk hi) hk hy rfl⟩
  | waits i init c =>
    obtain ⟨x, hc⟩ := h.copies_of_client hk rfl
    cases hl : x.lock with
    | none => exact ⟨_, _, advances_goto (.lock hk hc hl) hk hy rfl⟩
    | some l => exact h.advances_of_locked hc hl
  | releases i c =>
    obtain ⟨x, hc⟩ := h.copies_of_client hk rfl
    cases hl : x.lock with
    | none => exact ⟨_, _, advances_goto (.lockRelease hk hc hl) hk hy rfl⟩
    | some l => exact h.advances_of_locked hc hl
  | holds i c => exact absurd rfl (hy i c)
  | checks _ _ _ | populated _ _ | failed _ _ | deletes _ _ | removes _ _ | leaves _ _
  | drops _ _ => exact h.advances_of_locks hk rfl

end Progress

/-- What there is to say of the calls under way: each order of their steps comes to an end, in a
number of steps that is quadratic in the calls, and only when all of them have returned. -/
structure Finishes (s : State) : Prop where
  bounded : ∀ l t, Trace Advances s l t → l.length ≤ 8 * callers s ^ 2 + 9 * callers s
  unblocked : ∀ l t, Trace Advances s l t → (∀ a u, ¬ Advances t a u) → Quiet t
  ends : ∃ l t, Trace Advances s l t ∧ Quiet t

lemma Inv.advances {s t : State} {a : Label} (h : Inv s) (hs : Advances s a t) :
    Inv t ∧ effort t < effort s :=
  ⟨h.step hs.step, h.effort_lt hs⟩

lemma Inv.finishes {s : State} (h : Inv s) : Finishes s where
  bounded _ _ htrace :=
    (htrace.length_le h fun _ _ _ hs hst => hs.advances hst).trans (effort_le s)
  unblocked l t htrace hlast := by
    have hinv : Inv t := (htrace.invariant (G := fun _ => True) h
      (fun _ _ _ hs hst _ => hs.step hst.step) fun _ _ => trivial).1
    by_contra hq
    obtain ⟨a, u, hu⟩ := hinv.exists_advances hq
    exact hlast a u hu
  ends := by
    obtain ⟨l, t, htrace, hinv, hlast⟩ :=
      Trace.exists_last s h fun _ _ _ hs hst => hs.advances hst
    refine ⟨l, t, htrace, ?_⟩
    by_contra hq
    obtain ⟨a, u, hu⟩ := hinv.exists_advances hq
    exact hlast a u hu

theorem calls_finish {s : State} (hrun : Run Step Always start s) : Finishes s :=
  (hrun.invariant (fun _ _ _ h _ hs => Inv.step h hs) inv_start).finishes

/-- A second open waits for the mutex that the first holds. -/
theorem calls_finish_of_two_opens :
    ∃ s, Run Step Always start s ∧ Finishes s ∧ callers s = 2 ∧ ¬ Quiet s := by
  have hrun : Run Step Always start _ :=
    .head (@Step.acquire _ 0 7 .pull rfl) trivial <|
    .head (.insert (k := 0) rfl rfl) trivial <|
    .head (.lock (k := 0) rfl rfl rfl) trivial <|
    .head (@Step.acquire _ 1 7 .pull rfl) trivial <|
    .single (.entry (k := 1) rfl rfl) trivial
  refine ⟨_, hrun, calls_finish hrun, by decide, fun hq => ?_⟩
  obtain ⟨i, c, hc⟩ := hq 1 (.waits 7 .pull 0) rfl
  cases hc

end Adbfs.Copies
