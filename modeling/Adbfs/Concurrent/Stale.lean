import Adbfs.CacheTrace
import Adbfs.Library.Runs

/-! Concurrent readers and mutators of the device around the cache: an answer is given, and entered
later; a change takes effect, and the entries it makes false are dropped later. -/

namespace Adbfs.Stale

open Library Library.Paths

inductive Mutation where
  | push (path : Text)
  | unlink (path : Text)
  | setattr (path : Text)
  | mkdir (path : Text)
  | mknod (path : Text)
  | rmdir (path : Text)
  | rename (source target : Text)

namespace Mutation

def Affects (p : Text) : Mutation → Prop
  | .push q => p = q
  | .unlink q => p = q
  | .setattr q => p = q
  | .mkdir q => p = q
  | .mknod q => p = q
  | .rmdir q => p = q
  | .rename source target =>
    (p = source ∨ (source ++ ['/']) <+: p) ∨ p = target ∨ (target ++ ['/']) <+: p

/-- The calls on the cache between the change and the reply. -/
def invalidations : Mutation → List CacheOp
  | .push q => [.invalidate q]
  | .unlink q => [.invalidate q]
  | .setattr q => [.invalidate q]
  | .mkdir q => [.invalidate q]
  | .mknod q => [.invalidate q]
  | .rmdir q => [.invalidatePrefix q]
  | .rename source target => [.invalidatePrefix source, .invalidatePrefix target]

end Mutation

/-- Answers of the device on their way into the cache, and how many changes they were given after. -/
structure Answer where
  entries : List (Text × Option FileMeta)
  given : ℕ

/-- A change that has taken effect as the device's `effect`th one, and what is still to be dropped. -/
structure Mutator where
  mutation : Mutation
  effect : ℕ
  todo : List CacheOp
  replied : Bool

/-- `history` has what the device held after each change, and `origin` after how many changes the
latest entry of a path was answered. -/
structure State where
  history : ℕ → Text → Option FileMeta
  effects : ℕ
  cache : MetadataCache
  origin : Text → ℕ
  now : ℕ
  readers : ℕ → Option Answer
  mutators : ℕ → Option Mutator

namespace State

def device (s : State) : Text → Option FileMeta := s.history s.effects

def start (device : Text → Option FileMeta) (ttl : ℕ) : State where
  history _ := device
  effects := 0
  cache := MetadataCache.new ttl
  origin _ := 0
  now := 0
  readers _ := none
  mutators _ := none

def setReader (s : State) (c : ℕ) (r : Option Answer) : State :=
  { s with readers := Function.update s.readers c r }

def setMutator (s : State) (c : ℕ) (x : Mutator) : State :=
  { s with mutators := Function.update s.mutators c (some x) }

def enter (s : State) (p : Text) (m : Option FileMeta) (given : ℕ) : State :=
  { s with
    cache := s.cache.insert p m s.now
    origin := Function.update s.origin p given }

def change (s : State) (device : Text → Option FileMeta) : State :=
  { s with
    history := Function.update s.history (s.effects + 1) device
    effects := s.effects + 1 }

end State

inductive Label where
  | stat (call : ℕ) (path : Text)
  | list (call : ℕ) (paths : List Text)
  | insert (call : ℕ)
  | finish (call : ℕ)
  | get (path : Text)
  | effect (call : ℕ)
  | invalidate (call : ℕ)
  | reply (call : ℕ)
  | tick

inductive Step (s : State) : Label → State → Prop
  | stat {c : ℕ} {p : Text} : s.readers c = none →
      Step s (.stat c p) (s.setReader c (some ⟨[(p, s.device p)], s.effects⟩))
  | list {c : ℕ} {ps : List Text} : s.readers c = none →
      Step s (.list c ps) (s.setReader c (some
        ⟨ps.filterMap fun p => (s.device p).map fun m => (p, some m), s.effects⟩))
  | insert {c k : ℕ} {p : Text} {m : Option FileMeta} {rest : List (Text × Option FileMeta)} :
      s.readers c = some ⟨(p, m) :: rest, k⟩ →
      Step s (.insert c) ((s.enter p m k).setReader c (some ⟨rest, k⟩))
  | finish {c : ℕ} : Step s (.finish c) (s.setReader c none)
  | get {p : Text} : Step s (.get p) { s with cache := (s.cache.get p s.now).2 }
  | effect {c : ℕ} {μ : Mutation} {device : Text → Option FileMeta} : s.mutators c = none →
      (∀ p, ¬ μ.Affects p → device p = s.device p) →
      Step s (.effect c)
        ((s.change device).setMutator c ⟨μ, s.effects + 1, μ.invalidations, false⟩)
  | invalidate {c : ℕ} {x : Mutator} {op : CacheOp} {rest : List CacheOp} :
      s.mutators c = some x → x.todo = op :: rest →
      Step s (.invalidate c)
        ({ s with cache := op.apply s.now s.cache }.setMutator c { x with todo := rest })
  | reply {c : ℕ} {x : Mutator} : s.mutators c = some x → x.todo = [] →
      Step s (.reply c) (s.setMutator c { x with replied := true })
  | tick : Step s .tick { s with now := s.now + 1 }

def Drops (p : Text) (op : CacheOp) : Prop :=
  ∀ (now : ℕ) (c : MetadataCache), (op.apply now c).peek p = none

def Mutator.Invalidated (x : Mutator) (p : Text) : Prop := ∀ op ∈ x.todo, ¬ Drops p op

/-- No answer that was given before a mutation is entered after it has dropped the path. -/
def Timely (s : State) : Label → Prop
  | .insert c => ∀ p m rest k, s.readers c = some ⟨(p, m) :: rest, k⟩ →
      ∀ d x, s.mutators d = some x → x.mutation.Affects p → x.Invalidated p → x.effect ≤ k
  | _ => True

/-- What the cache returns for a path was said by the device after every mutation of the path that
has replied. -/
def Fresh (s : State) : Prop :=
  ∀ p m, (s.cache.get p s.now).1 = some m →
    s.history (s.origin p) p = m ∧
      ∀ c x, s.mutators c = some x → x.replied = true → x.mutation.Affects p →
        x.effect ≤ s.origin p

def Shrinks (op : CacheOp) : Prop :=
  ∀ (now : ℕ) (c : MetadataCache) (p : Text) (m : Option FileMeta),
    (op.apply now c).peek p = some m → c.peek p = some m

structure Inv (s : State) : Prop where
  answers : ∀ c r, s.readers c = some r → r.given ≤ s.effects ∧
    ∀ e ∈ r.entries, s.history r.given e.1 = e.2
  entries : ∀ p m, s.cache.peek p = some m → s.origin p ≤ s.effects ∧
    s.history (s.origin p) p = m
  fresh : ∀ p m, s.cache.peek p = some m → ∀ c x, s.mutators c = some x →
    x.mutation.Affects p → x.Invalidated p → x.effect ≤ s.origin p
  shrinks : ∀ c x, s.mutators c = some x → ∀ op ∈ x.todo, Shrinks op
  done : ∀ c x, s.mutators c = some x → x.replied = true → x.todo = []

section Drops

variable {p : Text} {μ : Mutation}

lemma drops_invalidate (p : Text) : Drops p (.invalidate p) := by
  intro now c
  rw [CacheOp.apply, MetadataCache.peek_invalidate, if_pos rfl]

lemma drops_invalidatePrefix {q : Text} (h : p = q ∨ (q ++ ['/']) <+: p) :
    Drops p (.invalidatePrefix q) := by
  intro now c
  rw [CacheOp.apply, MetadataCache.peek_invalidatePrefix, if_pos]
  apply h.imp_right
  intro hp
  rw [MetadataCache.dirPrefix]
  split_ifs
  · exact (List.prefix_append q ['/']).trans hp
  · exact hp

lemma exists_drops (h : μ.Affects p) : ∃ op ∈ μ.invalidations, Drops p op := by
  cases μ with
  | rename source target =>
    rcases h with h | h
    · exact ⟨.invalidatePrefix source, by simp [Mutation.invalidations], drops_invalidatePrefix h⟩
    · exact ⟨.invalidatePrefix target, by simp [Mutation.invalidations], drops_invalidatePrefix h⟩
  | rmdir q =>
    exact ⟨.invalidatePrefix q, by simp [Mutation.invalidations], drops_invalidatePrefix (Or.inl h)⟩
  | _ q =>
    obtain rfl : p = q := h
    exact ⟨.invalidate p, by simp [Mutation.invalidations], drops_invalidate p⟩

lemma shrinks_invalidate (q : Text) : Shrinks (.invalidate q) := by
  intro now c p m h
  rw [CacheOp.apply, MetadataCache.peek_invalidate] at h
  split_ifs at h
  exact h

lemma shrinks_invalidatePrefix (q : Text) : Shrinks (.invalidatePrefix q) :=
  fun _ _ _ _ h => (MetadataCache.peek_invalidatePrefix_of_some h).1

lemma shrinks_invalidations : ∀ op ∈ μ.invalidations, Shrinks op := by
  cases μ with
  | rename source target =>
    simp only [Mutation.invalidations, List.mem_cons, List.not_mem_nil, or_false, forall_eq_or_imp,
      forall_eq]
    exact ⟨shrinks_invalidatePrefix source, shrinks_invalidatePrefix target⟩
  | rmdir q => simpa [Mutation.invalidations] using shrinks_invalidatePrefix q
  | _ q => simpa [Mutation.invalidations] using shrinks_invalidate q

end Drops

section Step

variable {s : State} {c : ℕ}

lemma Inv.setReader (h : Inv s) {answer : Option Answer} (ha : ∀ r, answer = some r →
    r.given ≤ s.effects ∧ ∀ e ∈ r.entries, s.history r.given e.1 = e.2) :
    Inv (s.setReader c answer) where
  answers d r hd := by
    change Function.update s.readers c answer d = some r at hd
    rw [Function.update_apply] at hd
    split_ifs at hd
    · exact ha r hd
    · exact h.answers d r hd
  entries := h.entries
  fresh := h.fresh
  shrinks := h.shrinks
  done := h.done

lemma Inv.ask (h : Inv s) {entries : List (Text × Option FileMeta)}
    (he : ∀ e ∈ entries, s.device e.1 = e.2) : Inv (s.setReader c (some ⟨entries, s.effects⟩)) := by
  apply h.setReader
  intro r hr
  rw [← Option.some.inj hr]
  exact ⟨le_rfl, he⟩

lemma Inv.shrink (h : Inv s) {cache : MetadataCache}
    (hcache : ∀ p m, cache.peek p = some m → s.cache.peek p = some m) :
    Inv { s with cache } where
  answers := h.answers
  entries p m hp := h.entries p m (hcache p m hp)
  fresh p m hp := h.fresh p m (hcache p m hp)
  shrinks := h.shrinks
  done := h.done

lemma Inv.enter (h : Inv s) {p : Text} {m : Option FileMeta} {k : ℕ} (hk : k ≤ s.effects)
    (hm : s.history k p = m) (hfresh : ∀ d x, s.mutators d = some x → x.mutation.Affects p →
      x.Invalidated p → x.effect ≤ k) : Inv (s.enter p m k) := by
  have hpeek : ∀ q e, (s.enter p m k).cache.peek q = some e →
      q = p ∧ e = m ∧ (s.enter p m k).origin q = k ∨
        s.cache.peek q = some e ∧ (s.enter p m k).origin q = s.origin q := by
    intro q e hq
    change (s.cache.insert p m s.now).peek q = some e at hq
    rw [MetadataCache.peek_insert] at hq
    by_cases hqp : q = p
    · rw [if_pos hqp, Option.some.injEq] at hq
      exact Or.inl ⟨hqp, hq.symm, by rw [hqp]; exact Function.update_self _ _ _⟩
    · rw [if_neg hqp] at hq
      exact Or.inr ⟨hq, Function.update_of_ne hqp _ _⟩
  constructor
  · exact h.answers
  · intro q e hq
    rcases hpeek q e hq with ⟨rfl, rfl, ho⟩ | ⟨hq, ho⟩
    · rw [ho]
      exact ⟨hk, hm⟩
    · rw [ho]
      exact h.entries q e hq
  · intro q e hq d x hd haffects hinvalidated
    rcases hpeek q e hq with ⟨rfl, rfl, ho⟩ | ⟨hq, ho⟩
    · rw [ho]
      exact hfresh d x hd haffects hinvalidated
    · rw [ho]
      exact h.fresh q e hq d x hd haffects hinvalidated
  · exact h.shrinks
  · exact h.done

lemma Inv.change (h : Inv s) (device : Text → Option FileMeta) : Inv (s.change device) := by
  have hpast : ∀ k, k ≤ s.effects → (s.change device).history k = s.history k := fun k hk =>
    Function.update_of_ne (by omega) _ _
  constructor
  · intro d r hd
    obtain ⟨hgiven, hentries⟩ := h.answers d r hd
    rw [hpast r.given hgiven]
    exact ⟨Nat.le_succ_of_le hgiven, hentries⟩
  · intro p m hp
    obtain ⟨horigin, hm⟩ := h.entries p m hp
    change s.origin p ≤ s.effects + 1 ∧ (s.change device).history (s.origin p) p = m
    rw [hpast _ horigin]
    exact ⟨Nat.le_succ_of_le horigin, hm⟩
  · exact h.fresh
  · exact h.shrinks
  · exact h.done

lemma Inv.setMutator (h : Inv s) {x : Mutator} (hfresh : ∀ p m, s.cache.peek p = some m →
      x.mutation.Affects p → x.Invalidated p → x.effect ≤ s.origin p)
    (hshrinks : ∀ op ∈ x.todo, Shrinks op) (hdone : x.replied = true → x.todo = []) :
    Inv (s.setMutator c x) := by
  have hcases : ∀ d y, (s.setMutator c x).mutators d = some y → y = x ∨ s.mutators d = some y := by
    intro d y hd
    change Function.update s.mutators c (some x) d = some y at hd
    rw [Function.update_apply] at hd
    split_ifs at hd
    · exact Or.inl (Option.some.inj hd).symm
    · exact Or.inr hd
  constructor
  · exact h.answers
  · exact h.entries
  · intro p m hp d y hd
    rcases hcases d y hd with rfl | hd
    · exact hfresh p m hp
    · exact h.fresh p m hp d y hd
  · intro d y hd
    rcases hcases d y hd with rfl | hd
    · exact hshrinks
    · exact h.shrinks d y hd
  · intro d y hd
    rcases hcases d y hd with rfl | hd
    · exact hdone
    · exact h.done d y hd

lemma Inv.effect (h : Inv s) (μ : Mutation) (device : Text → Option FileMeta) :
    Inv ((s.change device).setMutator c ⟨μ, s.effects + 1, μ.invalidations, false⟩) := by
  apply (h.change device).setMutator
  · intro p m _ haffects hinvalidated
    obtain ⟨op, hop, hdrops⟩ := exists_drops haffects
    exact absurd hdrops (hinvalidated op hop)
  · exact shrinks_invalidations
  · exact fun hreplied => nomatch hreplied

lemma Inv.invalidate (h : Inv s) {x : Mutator} {op : CacheOp} {rest : List CacheOp}
    (hc : s.mutators c = some x) (htodo : x.todo = op :: rest) :
    Inv ({ s with cache := op.apply s.now s.cache }.setMutator c { x with todo := rest }) := by
  have hshrinks := h.shrinks c x hc
  rw [htodo, List.forall_mem_cons] at hshrinks
  have hcache : ∀ p m, (op.apply s.now s.cache).peek p = some m → s.cache.peek p = some m :=
    fun p m => hshrinks.1 s.now s.cache p m
  apply (h.shrink hcache).setMutator
  · intro p m hp haffects hinvalidated
    refine h.fresh p m (hcache p m hp) c x hc haffects ?_
    -- the call just made has not dropped the path, whose entry is still there
    rw [Mutator.Invalidated, htodo, List.forall_mem_cons]
    refine ⟨fun hdrops => ?_, hinvalidated⟩
    have hnone := hdrops s.now s.cache
    rw [show (op.apply s.now s.cache).peek p = some m from hp] at hnone
    contradiction
  · exact hshrinks.2
  · intro hreplied
    have hnil := h.done c x hc hreplied
    rw [htodo] at hnil
    contradiction

lemma Inv.step {s' : State} {a : Label} (h : Inv s) (hg : Timely s a) (hs : Step s a s') :
    Inv s' := by
  cases hs with
  | stat hc =>
    apply h.ask
    simp
  | list hc =>
    apply h.ask
    intro e he
    obtain ⟨p, -, hp⟩ := List.mem_filterMap.mp he
    obtain ⟨m, hm, rfl⟩ := Option.map_eq_some_iff.mp hp
    exact hm
  | insert hc =>
    obtain ⟨hk, hentries⟩ := h.answers _ _ hc
    have hrest := List.forall_mem_cons.mp hentries
    refine (h.enter hk hrest.1 fun d x hd => hg _ _ _ _ hc d x hd).setReader fun r hr => ?_
    rw [← Option.some.inj hr]
    exact ⟨hk, hrest.2⟩
  | finish => exact h.setReader fun r hr => nomatch hr
  | get => exact h.shrink fun q m hq => s.cache.peek_of_peek_get hq
  | effect hc hdevice => exact h.effect _ _
  | invalidate hc htodo => exact h.invalidate hc htodo
  | @reply c x hc htodo =>
    apply h.setMutator
    · exact fun p m hp haffects hinvalidated => h.fresh p m hp c x hc haffects hinvalidated
    · exact h.shrinks c x hc
    · exact fun _ => htodo
  | tick => exact ⟨h.answers, h.entries, h.fresh, h.shrinks, h.done⟩

lemma inv_start (device : Text → Option FileMeta) (ttl : ℕ) : Inv (State.start device ttl) where
  answers c r hc := nomatch hc
  entries p m hp := by simp [State.start, MetadataCache.new, MetadataCache.peek] at hp
  fresh p m hp := by simp [State.start, MetadataCache.new, MetadataCache.peek] at hp
  shrinks c x hc := nomatch hc
  done c x hc := nomatch hc

lemma Inv.isFresh (h : Inv s) : Fresh s := by
  intro p m hget
  have hpeek : s.cache.peek p = some m := by
    rcases s.cache.get_cases p s.now with ⟨m', heq, hm'⟩ | ⟨hnone, -⟩
    · rw [heq] at hget
      rw [← hget]
      exact hm'
    · rw [hnone] at hget
      contradiction
  refine ⟨(h.entries p m hpeek).2, fun c x hc hreplied haffects => ?_⟩
  refine h.fresh p m hpeek c x hc haffects ?_
  rw [Mutator.Invalidated, h.done c x hc hreplied]
  exact fun op hop => nomatch hop

end Step

theorem no_stale_answer {device : Text → Option FileMeta} {ttl : ℕ} {s : State}
    (hrun : Run Step Timely (State.start device ttl) s) : Fresh s :=
  (hrun.invariant (fun _ _ _ h hg hs => Inv.step h hg hs) (inv_start device ttl)).isFresh

section Examples

def plainMeta (size : ℕ) : FileMeta := ⟨0o100644, 1, 98, 98, size, 0, 0, []⟩

def oneFile (p : Text) : Option FileMeta := if p = "/a".toList then some (plainMeta 1) else none

def pathA : Text := "/a".toList

lemma oneFile_of_ne {p : Text} (h : ¬ (Mutation.unlink pathA).Affects p) : none = oneFile p :=
  (if_neg h).symm

/-- The answer to a slow `ls` is entered when the file is gone and `unlink` has replied. -/
theorem no_stale_answer_fails_for_slow_stat :
    ¬ ∀ s, Run Step Always (State.start oneFile (10 ^ 9)) s → Fresh s := by
  intro h
  have hrun : Run Step Always (State.start oneFile (10 ^ 9)) _ :=
    .head (.stat (c := 0) (p := pathA) rfl) trivial <|
    .head (@Step.effect _ 0 (.unlink pathA) (fun _ => none) rfl fun _ => oneFile_of_ne) trivial <|
    .head (.invalidate (c := 0) rfl rfl) trivial <|
    .head (.reply (c := 0) rfl rfl) trivial <|
    .single (.insert (c := 0) rfl) trivial
  have hfresh := (h _ hrun pathA (some (plainMeta 1)) (by decide)).2 0 _ rfl rfl rfl
  exact absurd hfresh (by decide)

/-- A file is listed, unlinked and looked for again. -/
theorem no_stale_answer_after_unlink :
    ∃ s, Run Step Timely (State.start oneFile (10 ^ 9)) s ∧
      (s.cache.get pathA s.now).1 = some none ∧ Fresh s := by
  have hrun : Run Step Timely (State.start oneFile (10 ^ 9)) _ :=
    .head (@Step.list _ 0 [pathA] rfl) trivial <|
    .head (.insert (c := 0) rfl) (fun _ _ _ _ _ d x hd => nomatch hd) <|
    .head (@Step.effect _ 0 (.unlink pathA) (fun _ => none) rfl fun _ => oneFile_of_ne) trivial <|
    .head (.invalidate (c := 0) rfl rfl) trivial <|
    .head (.reply (c := 0) rfl rfl) trivial <|
    .head (.stat (c := 1) (p := pathA) rfl) trivial <|
    .single (.insert (c := 1) rfl) (by
      intro p m rest k hr d x hd _ _
      obtain rfl : 1 = k := congrArg Answer.given (Option.some.inj hr)
      by_cases hd0 : d = 0
      · subst hd0
        have heffect : 1 = x.effect := congrArg Mutator.effect (Option.some.inj hd)
        exact heffect.ge
      · simp [State.setMutator, State.setReader, State.enter, State.change, State.start,
          Function.update_of_ne hd0] at hd)
  exact ⟨_, hrun, by decide, no_stale_answer hrun⟩

end Examples

end Adbfs.Stale
