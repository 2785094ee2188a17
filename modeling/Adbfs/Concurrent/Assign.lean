import Adbfs.Inodes
import Adbfs.Library.Runs

/-! Concurrent calls of `get_or_assign_ino`, one step for each access to a map or the counter. -/

namespace Adbfs.Assign

open Library Library.Paths

inductive Call where
  | missed (path : Text)
  | numbered (path : Text) (ino : ℕ)
  | listed (path : Text) (ino : ℕ)
  | done (path : Text) (ino : ℕ)
  deriving DecidableEq

structure State where
  inodes : Inodes
  calls : ℕ → Option Call

def State.set (s : State) (c : ℕ) (inodes : Inodes) (call : Call) : State :=
  ⟨inodes, Function.update s.calls c (some call)⟩

def start (t : Inodes) : State := ⟨t, fun _ => none⟩

inductive Label where
  | get (call : ℕ) (path : Text)
  | fetchAdd (call : ℕ)
  | insertPath (call : ℕ)
  | insertIno (call : ℕ)

inductive Step (s : State) : Label → State → Prop
  | hit {c : ℕ} {p : Text} {i : ℕ} : s.calls c = none → s.inodes.pathToIno.lookup p = some i →
      Step s (.get c p) (s.set c s.inodes (.done p i))
  | miss {c : ℕ} {p : Text} : s.calls c = none → s.inodes.pathToIno.lookup p = none →
      Step s (.get c p) (s.set c s.inodes (.missed p))
  | fetchAdd {c : ℕ} {p : Text} : s.calls c = some (.missed p) →
      Step s (.fetchAdd c)
        (s.set c { s.inodes with nextIno := s.inodes.nextIno + 1 } (.numbered p s.inodes.nextIno))
  | insertPath {c : ℕ} {p : Text} {i : ℕ} : s.calls c = some (.numbered p i) →
      Step s (.insertPath c)
        (s.set c { s.inodes with pathToIno := s.inodes.pathToIno.insert p i } (.listed p i))
  | insertIno {c : ℕ} {p : Text} {i : ℕ} : s.calls c = some (.listed p i) →
      Step s (.insertIno c)
        (s.set c { s.inodes with inoToPath := s.inodes.inoToPath.insert i p } (.done p i))

lemma State.set_calls (s : State) (c d : ℕ) (t : Inodes) (x : Call) :
    (s.set c t x).calls d = if d = c then some x else s.calls d := by
  simp only [State.set, Function.update_apply]

@[simp] lemma State.set_inodes (s : State) (c : ℕ) (t : Inodes) (x : Call) :
    (s.set c t x).inodes = t := rfl

lemma State.set_set (s : State) (c : ℕ) (t u : Inodes) (x y : Call) :
    (s.set c t x).set c u y = s.set c u y := by
  simp [State.set]

lemma State.set_calls_self (s : State) (c : ℕ) (t : Inodes) (x : Call) :
    (s.set c t x).calls c = some x := by
  rw [set_calls, if_pos rfl]

def InProgress (x : Call) : Prop := ∀ p i, x ≠ .done p i

def Quiet (s : State) : Prop := ∀ c x, s.calls c = some x → ¬ InProgress x

def OneInodePerPath (s : State) : Prop :=
  (∀ c d p i j, s.calls c = some (.done p i) → s.calls d = some (.done p j) → i = j) ∧
    ∀ p i, s.inodes.pathToIno.lookup p = some i ↔ s.inodes.inoToPath.lookup i = some p

/-- The call has found the path unbound and has not bound it yet. -/
def Pending (s : State) (c : ℕ) (p : Text) : Prop :=
  s.calls c = some (.missed p) ∨ ∃ i, s.calls c = some (.numbered p i)

/-- A call that finds its path unbound is the only one about to bind it. -/
def SoleMiss (s : State) : Label → Prop
  | .get _ p => s.inodes.pathToIno.lookup p = none → ∀ d, ¬ Pending s d p
  | _ => True

/-- A call left alone from its first step to its last does what the function does. -/
lemma run_alone (s : State) {c : ℕ} (hc : s.calls c = none) {p : Text}
    (hp : ∀ d, ¬ Pending s d p) :
    Run Step SoleMiss s
      (s.set c (Inodes.getOrAssignIno p s.inodes).2
        (.done p (Inodes.getOrAssignIno p s.inodes).1)) := by
  cases hl : s.inodes.pathToIno.lookup p with
  | some i =>
    rw [Inodes.getOrAssignIno_of_some hl]
    exact .single (.hit hc hl) (fun _ => hp)
  | none =>
    rw [Inodes.getOrAssignIno_of_none hl]
    have hmiss := Step.miss hc hl
    have hadd := Step.fetchAdd (s.set_calls_self c s.inodes (.missed p))
    have hpath := Step.insertPath (s.set_calls_self c
      { s.inodes with nextIno := s.inodes.nextIno + 1 } (.numbered p s.inodes.nextIno))
    have hino := Step.insertIno (s.set_calls_self c
      { s.inodes with
        pathToIno := s.inodes.pathToIno.insert p s.inodes.nextIno
        nextIno := s.inodes.nextIno + 1 } (.listed p s.inodes.nextIno))
    rw [State.set_set] at hadd hpath hino
    exact .head hmiss (fun _ => hp)
      (.head hadd trivial (.head hpath trivial (.single hino trivial)))

def Holds (t : Inodes) : Call → Prop
  | .missed p => t.pathToIno.lookup p = none
  | .numbered p i =>
    i < t.nextIno ∧ t.pathToIno.lookup p = none ∧ ∀ q, t.pathToIno.lookup q ≠ some i
  | .listed p i => t.pathToIno.lookup p = some i
  | .done p i => t.pathToIno.lookup p = some i

structure Inv (s : State) : Prop where
  inj : ∀ p q i, s.inodes.pathToIno.lookup p = some i → s.inodes.pathToIno.lookup q = some i → p = q
  bounded : ∀ p i, s.inodes.pathToIno.lookup p = some i → i < s.inodes.nextIno
  resolved : ∀ p i, s.inodes.inoToPath.lookup i = some p → s.inodes.pathToIno.lookup p = some i
  resolves : ∀ p i, s.inodes.pathToIno.lookup p = some i →
    s.inodes.inoToPath.lookup i = some p ∨ ∃ c, s.calls c = some (.listed p i)
  holds : ∀ c x, s.calls c = some x → Holds s.inodes x
  fresh : ∀ c d p q i, s.calls c = some (.numbered p i) → s.calls d = some (.numbered q i) → c = d
  sole : ∀ c d p, Pending s c p → Pending s d p → c = d

lemma inv_start {t : Inodes} (h : Inodes.WF t) : Inv (start t) where
  inj p q i hp hq := h.path_unique hp hq
  bounded p i hp := h.bounded i p ((h.inverse p i).mp hp)
  resolved p i hi := (h.inverse p i).mpr hi
  resolves p i hp := Or.inl ((h.inverse p i).mp hp)
  holds c x hc := by simp [start] at hc
  fresh c d p q i hc := by simp [start] at hc
  sole c d p hc := by simp [start, Pending] at hc

section Step

variable {s : State} {c : ℕ} {p : Text} {i : ℕ}

lemma Inv.set {t : Inodes} {x : Call} (h : Inv s)
    (hinj : ∀ q r j, t.pathToIno.lookup q = some j → t.pathToIno.lookup r = some j → q = r)
    (hbounded : ∀ q j, t.pathToIno.lookup q = some j → j < t.nextIno)
    (hresolved : ∀ q j, t.inoToPath.lookup j = some q → t.pathToIno.lookup q = some j)
    (hresolves : ∀ q j, t.pathToIno.lookup q = some j → t.inoToPath.lookup j = some q ∨
      x = .listed q j ∨ ∃ d, d ≠ c ∧ s.calls d = some (.listed q j))
    (hself : Holds t x) (hothers : ∀ d y, d ≠ c → s.calls d = some y → Holds t y)
    (hfresh : ∀ q j, x = .numbered q j → ∀ d r, d ≠ c → s.calls d ≠ some (.numbered r j))
    (hsole : ∀ q, (x = .missed q ∨ ∃ j, x = .numbered q j) → ∀ d, d ≠ c → ¬ Pending s d q) :
    Inv (s.set c t x) where
  inj := hinj
  bounded := hbounded
  resolved := hresolved
  resolves q j hq := by
    rcases hresolves q j hq with hj | rfl | ⟨d, hdc, hd⟩
    · exact Or.inl hj
    · exact Or.inr ⟨c, s.set_calls_self c t _⟩
    · exact Or.inr ⟨d, by rw [State.set_calls, if_neg hdc, hd]⟩
  holds d y hd := by
    rw [State.set_calls] at hd
    split_ifs at hd with hdc
    · exact Option.some.inj hd ▸ hself
    · exact hothers d y hdc hd
  fresh d e q r j hd he := by
    rw [State.set_calls] at hd he
    split_ifs at hd he with hdc hec hec
    · rw [hdc, hec]
    · exact absurd he (hfresh q j (Option.some.inj hd) e r hec)
    · exact absurd hd (hfresh r j (Option.some.inj he) d q hdc)
    · exact h.fresh d e q r j hd he
  sole d e q hd he := by
    unfold Pending at hd he
    rw [State.set_calls] at hd he
    split_ifs at hd he with hdc hec hec
    · rw [hdc, hec]
    · exact absurd he (hsole q (by simpa using hd) e hec)
    · exact absurd hd (hsole q (by simpa using he) d hdc)
    · exact h.sole d e q hd he

lemma Inv.resolves_other (h : Inv s) {x : Call} (hc : s.calls c = some x ∨ s.calls c = none)
    (hx : ∀ q j, x ≠ .listed q j) {q : Text} {j : ℕ} (hq : s.inodes.pathToIno.lookup q = some j) :
    s.inodes.inoToPath.lookup j = some q ∨ ∃ d, d ≠ c ∧ s.calls d = some (.listed q j) := by
  rcases h.resolves q j hq with hj | ⟨d, hd⟩
  · exact Or.inl hj
  · refine Or.inr ⟨d, ?_, hd⟩
    rintro rfl
    rcases hc with hc | hc
    · exact hx q j (Option.some.inj (hc.symm.trans hd))
    · simp [hc] at hd

lemma Inv.hit (h : Inv s) (hc : s.calls c = none) (hp : s.inodes.pathToIno.lookup p = some i) :
    Inv (s.set c s.inodes (.done p i)) := by
  refine h.set h.inj h.bounded h.resolved ?_ hp (fun d y _ hd => h.holds d y hd) ?_ ?_
  · intro q j hq
    rcases h.resolves_other (x := .missed p) (Or.inr hc) (by simp) hq with hj | hd
    · exact Or.inl hj
    · exact Or.inr (Or.inr hd)
  · simp
  · simp

lemma Inv.miss (h : Inv s) (hc : s.calls c = none) (hp : s.inodes.pathToIno.lookup p = none)
    (hsole : ∀ d, ¬ Pending s d p) : Inv (s.set c s.inodes (.missed p)) := by
  refine h.set h.inj h.bounded h.resolved ?_ hp (fun d y _ hd => h.holds d y hd) ?_ ?_
  · intro q j hq
    rcases h.resolves_other (x := .missed p) (Or.inr hc) (by simp) hq with hj | hd
    · exact Or.inl hj
    · exact Or.inr (Or.inr hd)
  · simp
  · intro q hq d _
    obtain rfl : p = q := by simpa using hq
    exact hsole d

lemma Inv.fetchAdd (h : Inv s) (hc : s.calls c = some (.missed p)) :
    Inv (s.set c { s.inodes with nextIno := s.inodes.nextIno + 1 }
      (.numbered p s.inodes.nextIno)) := by
  have hfresh : ∀ q, s.inodes.pathToIno.lookup q ≠ some s.inodes.nextIno :=
    fun q hq => lt_irrefl _ (h.bounded q _ hq)
  refine h.set h.inj ?_ h.resolved ?_ ⟨Nat.lt_succ_self _, h.holds c _ hc, hfresh⟩ ?_ ?_ ?_
  · exact fun q j hq => Nat.lt_succ_of_lt (h.bounded q j hq)
  · intro q j hq
    rcases h.resolves_other (Or.inl hc) (by simp) hq with hj | hd
    · exact Or.inl hj
    · exact Or.inr (Or.inr hd)
  · intro d y _ hd
    have hy := h.holds d y hd
    cases y with
    | numbered q j => exact ⟨Nat.lt_succ_of_lt hy.1, hy.2⟩
    | missed q => exact hy
    | listed q j => exact hy
    | done q j => exact hy
  · intro q j hx d r _ hd
    obtain ⟨-, rfl⟩ : p = q ∧ s.inodes.nextIno = j := by simpa using hx
    exact lt_irrefl _ (h.holds d _ hd).1
  · intro q hq d hdc hd
    obtain rfl : p = q := by simpa using hq
    exact hdc (h.sole d c p hd (Or.inl hc))

lemma Inv.insertPath (h : Inv s) (hc : s.calls c = some (.numbered p i)) :
    Inv (s.set c { s.inodes with pathToIno := s.inodes.pathToIno.insert p i } (.listed p i)) := by
  obtain ⟨hlt, hnone, hfree⟩ := h.holds c _ hc
  refine h.set ?_ ?_ ?_ ?_ ?_ ?_ ?_ ?_
  · intro q r j hq hr
    rw [Table.lookup_insert_eq] at hq hr
    split_ifs at hq hr with hqp hrp hrp
    · rw [hqp, hrp]
    · exact absurd (Option.some.inj hq ▸ hr) (hfree r)
    · exact absurd (Option.some.inj hr ▸ hq) (hfree q)
    · exact h.inj q r j hq hr
  · intro q j hq
    rw [Table.lookup_insert_eq] at hq
    split_ifs at hq
    · exact Option.some.inj hq ▸ hlt
    · exact h.bounded q j hq
  · intro q j hj
    have hq := h.resolved q j hj
    rw [Table.lookup_insert_eq, if_neg (by rintro rfl; simp [hnone] at hq), hq]
  · intro q j hq
    rw [Table.lookup_insert_eq] at hq
    split_ifs at hq with hqp
    · exact Or.inr (Or.inl (by rw [hqp, Option.some.inj hq]))
    · rcases h.resolves_other (Or.inl hc) (by simp) hq with hj | hd
      · exact Or.inl hj
      · exact Or.inr (Or.inr hd)
  · simp [Holds]
  · intro d y hdc hd
    have hy := h.holds d y hd
    have hbind : ∀ q j, s.inodes.pathToIno.lookup q = some j →
        (s.inodes.pathToIno.insert p i).lookup q = some j := by
      intro q j hq
      rw [Table.lookup_insert_eq, if_neg (by rintro rfl; simp [hnone] at hq), hq]
    cases y with
    | missed q =>
      have hqp : q ≠ p := by
        rintro rfl
        exact hdc (h.sole d c q (Or.inl hd) (Or.inr ⟨i, hc⟩))
      rwa [Holds, Table.lookup_insert_eq, if_neg hqp]
    | numbered q j =>
      have hqp : q ≠ p := by
        rintro rfl
        exact hdc (h.sole d c q (Or.inr ⟨j, hd⟩) (Or.inr ⟨i, hc⟩))
      refine ⟨hy.1, by rw [Table.lookup_insert_eq, if_neg hqp, hy.2.1], ?_⟩
      intro r hr
      rw [Table.lookup_insert_eq] at hr
      split_ifs at hr
      · exact hdc (h.fresh d c q p j hd (Option.some.inj hr ▸ hc))
      · exact hy.2.2 r hr
    | listed q j => exact hbind q j hy
    | done q j => exact hbind q j hy
  · simp
  · simp

lemma Inv.insertIno (h : Inv s) (hc : s.calls c = some (.listed p i)) :
    Inv (s.set c { s.inodes with inoToPath := s.inodes.inoToPath.insert i p } (.done p i)) := by
  have hp : s.inodes.pathToIno.lookup p = some i := h.holds c _ hc
  refine h.set h.inj h.bounded ?_ ?_ hp ?_ ?_ ?_
  · intro q j hj
    rw [Table.lookup_insert_eq] at hj
    split_ifs at hj with hji
    · rw [← Option.some.inj hj, hp, hji]
    · exact h.resolved q j hj
  · intro q j hq
    rw [Table.lookup_insert_eq]
    by_cases hji : j = i
    · subst hji
      rw [if_pos rfl, h.inj q p j hq hp]
      exact Or.inl rfl
    · rw [if_neg hji]
      rcases h.resolves q j hq with hj | ⟨d, hd⟩
      · exact Or.inl hj
      · refine Or.inr (Or.inr ⟨d, ?_, hd⟩)
        rintro rfl
        rw [hc] at hd
        simp [Ne.symm hji] at hd
  · intro d y _ hd
    have hy := h.holds d y hd
    cases y <;> exact hy
  · simp
  · simp

lemma Inv.step {s' : State} {a : Label} (h : Inv s) (hg : SoleMiss s a) (hs : Step s a s') :
    Inv s' := by
  cases hs with
  | hit hc hp => exact h.hit hc hp
  | miss hc hp => exact h.miss hc hp (hg hp)
  | fetchAdd hc => exact h.fetchAdd hc
  | insertPath hc => exact h.insertPath hc
  | insertIno hc => exact h.insertIno hc

lemma Inv.oneInodePerPath (h : Inv s) (hq : Quiet s) : OneInodePerPath s := by
  constructor
  · intro c d p i j hc hd
    exact Option.some.inj ((h.holds c _ hc).symm.trans (h.holds d _ hd))
  · intro p i
    refine ⟨fun hp => ?_, h.resolved p i⟩
    rcases h.resolves p i hp with hi | ⟨c, hc⟩
    · exact hi
    · exact absurd (by simp [InProgress]) (hq c _ hc)

end Step

theorem one_inode_per_path {t : Inodes} (ht : Inodes.WF t) {s : State}
    (hrun : Run Step SoleMiss (start t) s) (hq : Quiet s) : OneInodePerPath s :=
  (hrun.invariant (fun _ _ _ h hg hs => Inv.step h hg hs) (inv_start ht)).oneInodePerPath hq

/-- Lookups of two new paths overlap, and one of the first path finds it while it is being bound. The
last one is left alone. -/
theorem one_inode_per_path_of_overlapping_lookups :
    ∃ s, Run Step SoleMiss (start Inodes.new) s ∧ OneInodePerPath s ∧
      s.calls 0 = some (.done "/a".toList 3) ∧ s.calls 1 = some (.done "/b".toList 2) ∧
      s.calls 2 = some (.done "/a".toList 3) ∧ s.calls 3 = some (.done "/b".toList 2) := by
  have hoverlap : Run Step SoleMiss (start Inodes.new) _ :=
    .head (.miss (c := 0) (p := "/a".toList) rfl rfl)
      (fun _ d hd => by simp [Pending, start] at hd) <|
    .head (.miss (c := 1) (p := "/b".toList) rfl rfl)
      (fun _ d hd => by
        simp only [Pending, State.set_calls, start] at hd
        split_ifs at hd <;> simp at hd) <|
    .head (.fetchAdd (c := 1) (p := "/b".toList) rfl) trivial <|
    .head (.fetchAdd (c := 0) (p := "/a".toList) rfl) trivial <|
    .head (.insertPath (c := 0) (p := "/a".toList) (i := 3) rfl) trivial <|
    .head (.hit (c := 2) (p := "/a".toList) (i := 3) rfl rfl) (fun hnone => by simp at hnone) <|
    .head (.insertPath (c := 1) (p := "/b".toList) (i := 2) rfl) trivial <|
    .head (.insertIno (c := 1) (p := "/b".toList) (i := 2) rfl) trivial <|
    .single (.insertIno (c := 0) (p := "/a".toList) (i := 3) rfl) trivial
  have hrun := hoverlap.trans (run_alone _ (c := 3) (p := "/b".toList) rfl (fun d hd => by
    simp only [Pending, State.set_calls, start] at hd
    split_ifs at hd <;> simp at hd))
  refine ⟨_, hrun, one_inode_per_path Inodes.wf_new hrun ?_, rfl, rfl, rfl, rfl⟩
  intro c x hx
  simp only [State.set_calls, start] at hx
  split_ifs at hx
  all_goals simp [InProgress, ← Option.some.inj hx]

/-- Two lookups of one new path, the second begun before the first has bound it. -/
theorem one_inode_per_path_fails_for_two_lookups :
    ¬ ∀ s, Run Step Always (start Inodes.new) s → Quiet s → OneInodePerPath s := by
  intro h
  have hrun : Run Step Always (start Inodes.new) _ :=
    .head (.miss (c := 0) (p := "/sdcard".toList) rfl rfl) trivial <|
    .head (.miss (c := 1) (p := "/sdcard".toList) rfl rfl) trivial <|
    .head (.fetchAdd (c := 0) (p := "/sdcard".toList) rfl) trivial <|
    .head (.fetchAdd (c := 1) (p := "/sdcard".toList) rfl) trivial <|
    .head (.insertPath (c := 0) (p := "/sdcard".toList) (i := 2) rfl) trivial <|
    .head (.insertIno (c := 0) (p := "/sdcard".toList) (i := 2) rfl) trivial <|
    .head (.insertPath (c := 1) (p := "/sdcard".toList) (i := 3) rfl) trivial <|
    .single (.insertIno (c := 1) (p := "/sdcard".toList) (i := 3) rfl) trivial
  have hone := (h _ hrun ?_).1 0 1 "/sdcard".toList 2 3 rfl rfl
  · exact absurd hone (by decide)
  · intro c x hx
    simp only [State.set_calls, start] at hx
    split_ifs at hx
    · simp [InProgress, ← Option.some.inj hx]
    · simp [InProgress, ← Option.some.inj hx]

end Adbfs.Assign
