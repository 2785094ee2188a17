import Adbfs.Library.Action

/-! Postconditions of computations, one for the normal end and one for the early one, and relations
that hold between the states before and after. -/

namespace Adbfs.Library.Action

variable {σ τ ε δ α β : Type}

def Ends (x : Action σ ε α) (s : σ) (Q : α → σ → Prop) (E : Abort ε → σ → Prop) : Prop :=
  match x s with
  | (.ok a, t) => Q a t
  | (.error e, t) => E e t

section Rules

variable {x : Action σ ε α} {s : σ} {Q Q' : α → σ → Prop} {E E' : Abort ε → σ → Prop}

lemma Ends.imp (h : Ends x s Q E) (hQ : ∀ a t, Q a t → Q' a t) (hE : ∀ e t, E e t → E' e t) :
    Ends x s Q' E' := by
  unfold Ends at *
  split <;> simp_all

lemma Ends.and (h : Ends x s Q E) (h' : Ends x s Q' E') :
    Ends x s (fun a t => Q a t ∧ Q' a t) (fun e t => E e t ∧ E' e t) := by
  unfold Ends at *
  split <;> simp_all

lemma Ends.of_ok {a : α} {t : σ} (h : Ends x s Q E) (hx : x s = (.ok a, t)) : Q a t := by
  simpa only [Ends, hx] using h

lemma Ends.of_error {e : Abort ε} {t : σ} (h : Ends x s Q E) (hx : x s = (.error e, t)) :
    E e t := by
  simpa only [Ends, hx] using h

lemma ends_of_apply (hQ : ∀ a t, x s = (.ok a, t) → Q a t)
    (hE : ∀ e t, x s = (.error e, t) → E e t) :
    Ends x s Q E := by
  unfold Ends
  split
  · exact hQ _ _ (by assumption)
  · exact hE _ _ (by assumption)

lemma Ends.remember (h : Ends x s Q E) :
    Ends x s (fun a t => Q a t ∧ x s = (.ok a, t)) fun e t => E e t ∧ x s = (.error e, t) :=
  ends_of_apply (fun _ _ hx => ⟨h.of_ok hx, hx⟩) fun _ _ hx => ⟨h.of_error hx, hx⟩

@[simp] lemma ends_pure {a : α} : Ends (pure a) s Q E ↔ Q a s := Iff.rfl

@[simp] lemma ends_fail {e : ε} : Ends (fail e) s Q E ↔ E (.error e) s := Iff.rfl

@[simp] lemma ends_crash : Ends crash s Q E ↔ E .panic s := Iff.rfl

@[simp] lemma ends_read {Q : σ → σ → Prop} : Ends read s Q E ↔ Q s s := Iff.rfl

@[simp] lemma ends_update {f : σ → σ} {Q : Unit → σ → Prop} :
    Ends (update f) s Q E ↔ Q () (f s) := Iff.rfl

@[simp] lemma ends_lift {f : σ → α × σ} : Ends (lift f) s Q E ↔ Q (f s).1 (f s).2 := Iff.rfl

@[simp] lemma ends_bind {f : α → Action σ ε β} {Q : β → σ → Prop} :
    Ends (x >>= f) s Q E ↔ Ends x s (fun a t => Ends (f a) t Q E) E := by
  cases hx : x s with
  | mk r t =>
    cases r with
    | ok a => simp only [Ends, bind_of_ok hx, hx]
    | error e => simp only [Ends, bind_of_error hx, hx]

lemma ends_bind_assoc {γ : Type} {f : α → Action σ ε β} {g : β → Action σ ε γ}
    {Q : γ → σ → Prop} :
    Ends (x >>= fun a => f a >>= g) s Q E ↔ Ends ((x >>= f) >>= g) s Q E := by
  simp only [ends_bind]

lemma ends_attempt {E : Abort δ → σ → Prop} {Q : Except ε α → σ → Prop} :
    Ends (attempt x) s Q E ↔
      Ends x s (fun a t => Q (.ok a) t) fun e t =>
        match e with
        | .error e => Q (.error e) t
        | .panic => E .panic t := by
  cases hx : x s with
  | mk r t =>
    cases r with
    | ok a => simp only [Ends, attempt_of_ok hx, hx]
    | error e =>
      cases e with
      | error e => simp only [Ends, attempt_of_error hx, hx]
      | panic => simp only [Ends, attempt_of_panic hx, hx]

lemma ends_mapError {g : ε → δ} {E : Abort δ → σ → Prop} :
    Ends (mapError g x) s Q E ↔ Ends x s Q fun e t => E (e.map g) t := by
  cases hx : x s with
  | mk r t =>
    cases r with
    | ok a => simp only [Ends, mapError_of_ok g hx, hx]
    | error e => simp only [Ends, mapError_of_error g hx, hx]

lemma ends_zoom {get : σ → τ} {put : τ → σ → σ} {x : Action τ ε α} :
    Ends (zoom get put x) s Q E ↔
      Ends x (get s) (fun a t => Q a (put t s)) fun e t => E e (put t s) := by
  cases hx : x (get s) with
  | mk r t => cases r <;> simp only [Ends, zoom_apply, hx]

lemma ends_ofOption {e : ε} {r : Option α} :
    Ends (ofOption e r) s Q E ↔ (∀ a, r = some a → Q a s) ∧ (r = none → E (.error e) s) := by
  cases r <;> simp [Ends]

lemma ends_ofExcept {r : Except ε α} :
    Ends (ofExcept r) s Q E ↔
      (∀ a, r = .ok a → Q a s) ∧ ∀ e, r = .error e → E (.error e) s := by
  cases r <;> simp [Ends]

lemma ends_orCrash {r : Option α} :
    Ends (orCrash r : Action σ ε α) s Q E ↔ (∀ a, r = some a → Q a s) ∧ (r = none → E .panic s) := by
  cases r <;> simp [Ends, orCrash]

end Rules

structure Keeps (R : σ → σ → Prop) (x : Action σ ε α) : Prop where
  holds : ∀ s, R s (x s).2

section Keeps

variable {R S : σ → σ → Prop} {x : Action σ ε α} {s : σ}

lemma ends_iff {P : σ → Prop} : Ends x s (fun _ t => P t) (fun _ t => P t) ↔ P (x s).2 := by
  cases hx : x s with
  | mk r t => cases r <;> simp only [Ends, hx]

lemma Keeps.of_ends (h : ∀ s, Ends x s (fun _ t => R s t) fun _ t => R s t) : Keeps R x :=
  ⟨fun s => ends_iff.mp (h s)⟩

lemma Keeps.ends (h : Keeps R x) (s : σ) : Ends x s (fun _ t => R s t) fun _ t => R s t :=
  ends_iff.mpr (h.holds s)

lemma attempt_snd : (attempt x s : Result δ (Except ε α) × σ).2 = (x s).2 := by
  cases hx : x s with
  | mk r t =>
    cases r with
    | ok a => rw [attempt_of_ok hx]
    | error e =>
      cases e with
      | error e => rw [attempt_of_error hx]
      | panic => rw [attempt_of_panic hx]

lemma mapError_snd {g : ε → δ} : (mapError g x s).2 = (x s).2 := by
  cases hx : x s with
  | mk r t =>
    cases r with
    | ok a => rw [mapError_of_ok g hx]
    | error e => rw [mapError_of_error g hx]

lemma ends_attempt_iff {P : σ → Prop} :
    Ends (attempt x : Action σ δ (Except ε α)) s (fun _ t => P t) (fun _ t => P t) ↔
      Ends x s (fun _ t => P t) fun _ t => P t := by
  rw [ends_iff, ends_iff, attempt_snd]

lemma keeps_lift {f : σ → α × σ} (h : ∀ s, R s (f s).2) : Keeps R (lift f : Action σ ε α) := ⟨h⟩

lemma keeps_update {f : σ → σ} (h : ∀ s, R s (f s)) : Keeps R (update f : Action σ ε Unit) := ⟨h⟩

lemma Keeps.mapError {g : ε → δ} (h : Keeps R x) : Keeps R (mapError g x) :=
  .of_ends fun s => ends_mapError.mpr (h.ends s)

lemma Keeps.attempt (h : Keeps R x) : Keeps R (attempt x : Action σ δ (Except ε α)) := by
  apply Keeps.of_ends
  intro s
  apply ends_attempt.mpr
  apply (h.ends s).imp (fun _ _ ht => ht)
  intro e t ht
  cases e <;> exact ht

lemma keeps_zoom {get : σ → τ} {put : τ → σ → σ} {x : Action τ ε α}
    (h : ∀ s, R s (put (x (get s)).2 s)) : Keeps R (zoom get put x) := ⟨h⟩

section Reflexive

variable [Std.Refl R]

lemma keeps_pure (a : α) : Keeps R (pure a : Action σ ε α) := ⟨fun s => Std.Refl.refl s⟩

lemma keeps_fail (e : ε) : Keeps R (fail e : Action σ ε α) := ⟨fun s => Std.Refl.refl s⟩

lemma keeps_crash : Keeps R (crash : Action σ ε α) := ⟨fun s => Std.Refl.refl s⟩

lemma keeps_read : Keeps R (Action.read : Action σ ε σ) := ⟨fun s => Std.Refl.refl s⟩

lemma keeps_ofOption (e : ε) (r : Option α) : Keeps R (ofOption e r : Action σ ε α) := by
  cases r
  · exact keeps_fail e
  · exact keeps_pure _

lemma keeps_ofExcept (r : Except ε α) : Keeps R (ofExcept r : Action σ ε α) := by
  cases r
  · exact keeps_fail _
  · exact keeps_pure _

lemma keeps_orCrash (r : Option α) : Keeps R (orCrash r : Action σ ε α) := by
  cases r
  · exact keeps_crash
  · exact keeps_pure _

end Reflexive

lemma Ends.thenKeeps [IsTrans σ R] {f : α → Action σ ε β}
    (hx : Ends x s (fun _ t => R s t) fun _ t => R s t) (hf : ∀ a, Keeps R (f a)) :
    Ends (x >>= f) s (fun _ t => R s t) fun _ t => R s t := by
  apply ends_bind.mpr
  apply hx.imp
  · exact fun a t ht => ends_iff.mpr (IsTrans.trans _ _ _ ht ((hf a).holds t))
  · exact fun _ _ ht => ht

lemma Keeps.bind [IsTrans σ R] {f : α → Action σ ε β} (hx : Keeps R x) (hf : ∀ a, Keeps R (f a)) :
    Keeps R (x >>= f) := .of_ends fun s => (hx.ends s).thenKeeps hf

lemma Keeps.thenEnds {f : α → Action σ ε β} {Q : β → σ → Prop} {E : Abort ε → σ → Prop}
    (hx : Keeps R x) (hE : ∀ e t, R s t → E e t) (hf : ∀ a t, R s t → Ends (f a) t Q E) :
    Ends (x >>= f) s Q E :=
  ends_bind.mpr ((hx.ends s).imp hf hE)

lemma Keeps.imp (hx : Keeps R x) (hRS : ∀ s t, R s t → S s t) : Keeps S x :=
  ⟨fun s => hRS s _ (hx.holds s)⟩

lemma Keeps.comp {T : σ → σ → Prop} {f : α → Action σ ε β} (hx : Keeps R x)
    (hf : ∀ a, Keeps S (f a)) (hR : ∀ s t, R s t → T s t)
    (hRS : ∀ s t u, R s t → S t u → T s u) : Keeps T (x >>= f) := by
  apply Keeps.of_ends
  intro s
  apply ends_bind.mpr
  apply (hx.ends s).imp
  · exact fun a t ht => ends_iff.mpr (hRS s t _ ht ((hf a).holds t))
  · exact fun _ t ht => hR s t ht

/-- What follows may rely on what the result is, where the relation asks for nothing else. -/
lemma Keeps.bind_post [IsTrans σ R] {f : α → Action σ ε β} {I : σ → Prop} {P : α → Prop}
    (hI : ∀ s t, (I s → R s t) → R s t) (hx : Keeps R x)
    (hP : ∀ s, I s → Ends x s (fun a _ => P a) fun _ _ => True) (hf : ∀ a, P a → Keeps R (f a)) :
    Keeps R (x >>= f) := by
  apply Keeps.of_ends
  intro s
  apply ends_iff.mpr
  apply hI
  intro hs
  apply ends_iff.mp
  apply ends_bind.mpr
  apply ((hx.ends s).and (hP s hs)).imp
  · exact fun a t ht => ends_iff.mpr (IsTrans.trans _ _ _ ht.1 ((hf a ht.2).holds t))
  · exact fun _ _ ht => ht.1

lemma Keeps.group [IsTrans σ R] {γ : Type} {f : α → Action σ ε β} {g : β → Action σ ε γ}
    (hx : Keeps R (x >>= f)) (hg : ∀ b, Keeps R (g b)) : Keeps R (x >>= fun a => f a >>= g) :=
  .of_ends fun s => ends_bind_assoc.mpr ((hx.ends s).thenKeeps hg)

end Keeps

end Adbfs.Library.Action
