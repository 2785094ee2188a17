import Adbfs.Library.Action
import Adbfs.Library.Runs

/-! Computations over two kinds of state that do the same along a map of the states. -/

namespace Adbfs.Library

namespace Action

variable {σ τ σ' τ' ε δ α β : Type}

/-- From the states that meet the condition, the second computation does along `f` what the first
does, and renders its result by `g`. -/
structure Transfers (I : σ → Prop) (f : σ → τ) (g : α → Result ε β) (x : Action σ ε α)
    (y : Action τ ε β) : Prop where
  keeps : ∀ s, I s → I (x s).2
  apply : ∀ s, I s → y (f s) = ((x s).1.bind g, f (x s).2)

abbrev Alike (I : σ → Prop) (f : σ → τ) (x : Action σ ε α) (y : Action τ ε α) : Prop :=
  Transfers I f .ok x y

lemma result_bind_ok (r : Result ε α) : r.bind .ok = r := by
  cases r <;> rfl

section Rules

variable {I : σ → Prop} {f : σ → τ} {g : α → Result ε β}

lemma alike_of_apply {x : Action σ ε α} {y : Action τ ε α} (hkeeps : ∀ s, I s → I (x s).2)
    (happly : ∀ s, I s → y (f s) = ((x s).1, f (x s).2)) : Alike I f x y :=
  ⟨hkeeps, fun s hs => by rw [happly s hs, result_bind_ok]⟩

lemma Transfers.alike_apply {x : Action σ ε α} {y : Action τ ε α} (h : Alike I f x y) {s : σ}
    (hs : I s) : y (f s) = ((x s).1, f (x s).2) := by
  rw [h.apply s hs, result_bind_ok]

lemma transfers_pure {a : α} {b : β} (h : g a = .ok b) :
    Transfers I f g (pure a) (pure b) where
  keeps _ hs := hs
  apply s _ := by
    change (Except.ok b, f s) = (g a, f s)
    rw [h]

lemma transfers_pure_fail {a : α} {e : ε} (h : g a = .error (.error e)) :
    Transfers I f g (pure a) (fail e) where
  keeps _ hs := hs
  apply s _ := by
    change (Except.error (.error e), f s) = (g a, f s)
    rw [h]

lemma transfers_fail (e : ε) : Transfers I f g (fail e) (fail e) := ⟨fun _ hs => hs, fun _ _ => rfl⟩

lemma transfers_crash : Transfers I f g crash crash := ⟨fun _ hs => hs, fun _ _ => rfl⟩

lemma alike_update {u : σ → σ} {v : τ → τ} (hkeeps : ∀ s, I s → I (u s))
    (h : ∀ s, v (f s) = f (u s)) : Alike I f (update u : Action σ ε Unit) (update v) :=
  alike_of_apply hkeeps fun s _ => by simp [h]

lemma alike_lift {u : σ → α × σ} {v : τ → α × τ} (hkeeps : ∀ s, I s → I (u s).2)
    (h : ∀ s, v (f s) = ((u s).1, f (u s).2)) : Alike I f (lift u : Action σ ε α) (lift v) :=
  alike_of_apply hkeeps fun s _ => by simp [h]

lemma alike_ofOption (e : ε) (r : Option α) : Alike I f (ofOption e r) (ofOption e r) := by
  cases r with
  | none => exact transfers_fail e
  | some a => exact transfers_pure rfl

lemma alike_ofExcept (r : Except ε α) : Alike I f (ofExcept r) (ofExcept r) := by
  cases r with
  | error e => exact transfers_fail e
  | ok a => exact transfers_pure rfl

lemma alike_orCrash (r : Option α) :
    Alike I f (orCrash r : Action σ ε α) (orCrash r) := by
  cases r with
  | none => exact transfers_crash
  | some a => exact transfers_pure rfl

lemma transfers_read {k : σ → Action σ ε α} {k' : τ → Action τ ε β}
    (hk : ∀ s, I s → Transfers I f g (k s) (k' (f s))) :
    Transfers I f g (read >>= k) (read >>= k') :=
  ⟨fun s hs => (hk s hs).keeps s hs, fun s hs => (hk s hs).apply s hs⟩

lemma Transfers.bind {γ : Type} {x : Action σ ε γ} {y : Action τ ε γ} {k : γ → Action σ ε α}
    {k' : γ → Action τ ε β} (hx : Alike I f x y) (hk : ∀ c, Transfers I f g (k c) (k' c)) :
    Transfers I f g (x >>= k) (y >>= k') := by
  constructor
  · intro s hs
    have hkept := hx.keeps s hs
    cases hr : x s with
    | mk r t =>
      rw [hr] at hkept
      cases r with
      | ok c =>
        rw [bind_of_ok hr]
        exact (hk c).keeps t hkept
      | error e =>
        rw [bind_of_error hr]
        exact hkept
  · intro s hs
    have hkept := hx.keeps s hs
    have hy := hx.alike_apply hs
    cases hr : x s with
    | mk r t =>
      rw [hr] at hkept hy
      cases r with
      | ok c =>
        rw [bind_of_ok hr, bind_of_ok hy]
        exact (hk c).apply t hkept
      | error e =>
        rw [bind_of_error hr, bind_of_error hy]
        rfl

lemma Transfers.attempt {x : Action σ δ α} {y : Action τ δ α} (hx : Alike I f x y) :
    Alike I f (attempt x : Action σ ε (Except δ α)) (attempt y) := by
  have hrun : ∀ s, I s → I (Action.attempt x s : Result ε (Except δ α) × σ).2 ∧
      (Action.attempt y (f s) : Result ε (Except δ α) × τ) =
        ((Action.attempt x s : Result ε (Except δ α) × σ).1, f (Action.attempt x s :
          Result ε (Except δ α) × σ).2) := by
    intro s hs
    have hkept := hx.keeps s hs
    have hy := hx.alike_apply hs
    cases hr : x s with
    | mk r t =>
      rw [hr] at hkept hy
      cases r with
      | ok a =>
        rw [attempt_of_ok hr, attempt_of_ok hy]
        exact ⟨hkept, rfl⟩
      | error e =>
        cases e with
        | error e =>
          rw [attempt_of_error hr, attempt_of_error hy]
          exact ⟨hkept, rfl⟩
        | panic =>
          rw [attempt_of_panic hr, attempt_of_panic hy]
          exact ⟨hkept, rfl⟩
  exact alike_of_apply (fun s hs => (hrun s hs).1) fun s hs => (hrun s hs).2

lemma Transfers.mapError {x : Action σ δ α} {y : Action τ δ α} (g : δ → ε) (hx : Alike I f x y) :
    Alike I f (mapError g x) (mapError g y) := by
  have hrun : ∀ s, I s → I (Action.mapError g x s).2 ∧
      Action.mapError g y (f s) = ((Action.mapError g x s).1, f (Action.mapError g x s).2) := by
    intro s hs
    have hkept := hx.keeps s hs
    have hy := hx.alike_apply hs
    cases hr : x s with
    | mk r t =>
      rw [hr] at hkept hy
      cases r with
      | ok a =>
        rw [mapError_of_ok g hr, mapError_of_ok g hy]
        exact ⟨hkept, rfl⟩
      | error e =>
        rw [mapError_of_error g hr, mapError_of_error g hy]
        exact ⟨hkept, rfl⟩
  exact alike_of_apply (fun s hs => (hrun s hs).1) fun s hs => (hrun s hs).2

lemma alike_zoom {J : σ' → Prop} {f' : σ' → τ'} {x : Action σ' ε α} {y : Action τ' ε α}
    {get : σ → σ'} {put : σ' → σ → σ} {get' : τ → τ'} {put' : τ' → τ → τ} (hx : Alike J f' x y)
    (hJ : ∀ s, I s → J (get s)) (hI : ∀ t s, I s → I (put t s))
    (hget : ∀ s, get' (f s) = f' (get s)) (hput : ∀ t s, put' (f' t) (f s) = f (put t s)) :
    Alike I f (zoom get put x) (zoom get' put' y) := by
  apply alike_of_apply
  · exact fun s hs => hI _ s hs
  · intro s hs
    rw [zoom_apply, zoom_apply, hget, hx.alike_apply (hJ s hs), hput]

end Rules

end Action

namespace Trace

variable {σ τ α β : Type} {step : σ → α → σ → Prop} {step' : τ → β → τ → Prop} {f : σ → τ}
  {g : α → β} {s t : σ} {l : List (σ × α × σ)}

lemma map {I : σ → Prop} (h : Trace step s l t) (hs : I s)
    (hstep : ∀ s a t, I s → step s a t → I t ∧ step' (f s) (g a) (f t)) :
    Trace step' (f s) (l.map (Prod.map f (Prod.map g f))) (f t) := by
  induction h with
  | nil => exact .nil
  | cons hst _ ih =>
    obtain ⟨ht, hmapped⟩ := hstep _ _ _ hs hst
    exact .cons hmapped (ih ht)

lemma exists_of_map {I : σ → Prop} (hs : I s)
    (hstep : ∀ s b u, I s → step' (f s) b u → ∃ a t, step s a t ∧ I t ∧ g a = b ∧ f t = u)
    {l' : List (τ × β × τ)} {u : τ} (h : Trace step' (f s) l' u) :
    ∃ l t, Trace step s l t ∧ l.map (Prod.map f (Prod.map g f)) = l' ∧ f t = u := by
  generalize hr : f s = r at h
  induction h generalizing s with
  | nil => exact ⟨[], s, .nil, rfl, hr⟩
  | cons hst _ ih =>
    subst hr
    obtain ⟨a, t, hat, ht, rfl, hu⟩ := hstep _ _ _ hs hst
    obtain ⟨l, v, htrace, rfl, rfl⟩ := ih ht hu
    subst hu
    exact ⟨(s, a, t) :: l, v, .cons hat htrace, rfl, rfl⟩

end Trace

end Adbfs.Library
