import Mathlib.Tactic

/-! Computations that update a state and may stop early, with an error or with a panic. The state
reached is kept in every case, as it is when a procedure returns early. -/

namespace Adbfs.Library

inductive Abort (ε : Type) where
  | error (e : ε)
  | panic
  deriving DecidableEq, Repr

def Abort.map {ε δ : Type} (f : ε → δ) : Abort ε → Abort δ
  | .error e => .error (f e)
  | .panic => .panic

abbrev Result (ε α : Type) := Except (Abort ε) α

def Action (σ ε α : Type) := σ → Result ε α × σ

namespace Action

variable {σ τ ε δ α β : Type}

instance : Monad (Action σ ε) where
  pure a := fun s => (.ok a, s)
  bind x f := fun s =>
    match x s with
    | (.ok a, t) => f a t
    | (.error e, t) => (.error e, t)

def fail (e : ε) : Action σ ε α := fun s => (.error (.error e), s)

def crash : Action σ ε α := fun s => (.error .panic, s)

def read : Action σ ε σ := fun s => (.ok s, s)

def update (f : σ → σ) : Action σ ε Unit := fun s => (.ok (), f s)

def lift (f : σ → α × σ) : Action σ ε α := fun s => (.ok (f s).1, (f s).2)

def attempt (x : Action σ δ α) : Action σ ε (Except δ α) := fun s =>
  match x s with
  | (.ok a, t) => (.ok (.ok a), t)
  | (.error (.error e), t) => (.ok (.error e), t)
  | (.error .panic, t) => (.error .panic, t)

def mapError (f : ε → δ) (x : Action σ ε α) : Action σ δ α := fun s =>
  match x s with
  | (.ok a, t) => (.ok a, t)
  | (.error e, t) => (.error (e.map f), t)

def zoom (get : σ → τ) (put : τ → σ → σ) (x : Action τ ε α) : Action σ ε α := fun s =>
  ((x (get s)).1, put (x (get s)).2 s)

def ofExcept (r : Except ε α) : Action σ ε α := fun s =>
  match r with
  | .ok a => (.ok a, s)
  | .error e => (.error (.error e), s)

def ofOption (e : ε) (r : Option α) : Action σ ε α := fun s =>
  match r with
  | some a => (.ok a, s)
  | none => (.error (.error e), s)

def orCrash (r : Option α) : Action σ ε α := fun s =>
  match r with
  | some a => (.ok a, s)
  | none => (.error .panic, s)

@[simp] lemma pure_apply (a : α) (s : σ) : (pure a : Action σ ε α) s = (.ok a, s) := rfl

@[simp] lemma fail_apply (e : ε) (s : σ) : (fail e : Action σ ε α) s = (.error (.error e), s) := rfl

@[simp] lemma read_apply (s : σ) : (read : Action σ ε σ) s = (.ok s, s) := rfl

@[simp] lemma update_apply (f : σ → σ) (s : σ) :
    (update f : Action σ ε Unit) s = (.ok (), f s) := rfl

@[simp] lemma lift_apply (f : σ → α × σ) (s : σ) :
    (lift f : Action σ ε α) s = (.ok (f s).1, (f s).2) := rfl

@[simp] lemma ofOption_some (e : ε) (a : α) (s : σ) :
    (ofOption e (some a) : Action σ ε α) s = (.ok a, s) := rfl

@[simp] lemma ofOption_none (e : ε) (s : σ) :
    (ofOption e none : Action σ ε α) s = (.error (.error e), s) := rfl

@[simp] lemma orCrash_some (a : α) (s : σ) : (orCrash (some a) : Action σ ε α) s = (.ok a, s) := rfl

@[simp] lemma ofExcept_ok (a : α) (s : σ) :
    (ofExcept (.ok a) : Action σ ε α) s = (.ok a, s) := rfl

@[simp] lemma ofExcept_error (e : ε) (s : σ) :
    (ofExcept (.error e) : Action σ ε α) s = (.error (.error e), s) := rfl

lemma zoom_apply (get : σ → τ) (put : τ → σ → σ) (x : Action τ ε α) (s : σ) :
    zoom get put x s = ((x (get s)).1, put (x (get s)).2 s) := rfl

section Sequence

variable {x : Action σ ε α} {f : α → Action σ ε β} {s t : σ} {a : α} {e : Abort ε}

lemma bind_of_ok (h : x s = (.ok a, t)) : (x >>= f) s = f a t := by
  change (match x s with
    | (.ok a, t) => f a t
    | (.error e, t) => (.error e, t)) = _
  rw [h]

lemma bind_of_error (h : x s = (.error e, t)) : (x >>= f) s = (.error e, t) := by
  change (match x s with
    | (.ok a, t) => f a t
    | (.error e, t) => (.error e, t)) = _
  rw [h]

lemma attempt_of_ok (h : x s = (.ok a, t)) :
    (attempt x : Action σ δ (Except ε α)) s = (.ok (.ok a), t) := by
  simp only [attempt, h]

lemma attempt_of_error {e : ε} (h : x s = (.error (.error e), t)) :
    (attempt x : Action σ δ (Except ε α)) s = (.ok (.error e), t) := by
  simp only [attempt, h]

lemma attempt_of_panic (h : x s = (.error .panic, t)) :
    (attempt x : Action σ δ (Except ε α)) s = (.error .panic, t) := by
  simp only [attempt, h]

lemma mapError_of_ok (g : ε → δ) (h : x s = (.ok a, t)) : mapError g x s = (.ok a, t) := by
  simp only [mapError, h]

lemma mapError_of_error (g : ε → δ) (h : x s = (.error e, t)) :
    mapError g x s = (.error (e.map g), t) := by
  simp only [mapError, h]

@[simp] lemma bind_pure_apply (a : α) (f : α → Action σ ε β) (s : σ) :
    ((pure a : Action σ ε α) >>= f) s = f a s := rfl

@[simp] lemma bind_fail_apply (e : ε) (f : α → Action σ ε β) (s : σ) :
    ((fail e : Action σ ε α) >>= f) s = (.error (.error e), s) := rfl

@[simp] lemma bind_orCrash_some_apply (a : α) (f : α → Action σ ε β) (s : σ) :
    ((orCrash (some a) : Action σ ε α) >>= f) s = f a s := rfl

@[simp] lemma bind_orCrash_none_apply (f : α → Action σ ε β) (s : σ) :
    ((orCrash none : Action σ ε α) >>= f) s = (.error .panic, s) := rfl

@[simp] lemma bind_read_apply (f : σ → Action σ ε β) (s : σ) : (read >>= f) s = f s s := rfl

@[simp] lemma bind_update_apply (g : σ → σ) (f : Unit → Action σ ε β) (s : σ) :
    (update g >>= f) s = f () (g s) := rfl

@[simp] lemma bind_lift_apply (g : σ → α × σ) (f : α → Action σ ε β) (s : σ) :
    (lift g >>= f) s = f (g s).1 (g s).2 := rfl

end Sequence

end Action

end Adbfs.Library
