import Adbfs.Library.Outcome
import Adbfs.Library.Runs

namespace Adbfs.Library

variable {σ ε β : Type}

def Adds (journal : σ → List ε) (P : List ε → Prop) (s t : σ) : Prop :=
  ∃ es, journal t = journal s ++ es ∧ P es

section Adds

variable {journal : σ → List ε} {P Q S : List ε → Prop} {s t u : σ}

lemma Adds.of_eq (h : journal t = journal s) (hP : P []) : Adds journal P s t :=
  ⟨[], by rw [h, List.append_nil], hP⟩

lemma Adds.imp (h : Adds journal P s t) (hPQ : ∀ es, P es → Q es) : Adds journal Q s t := by
  obtain ⟨es, hes, hP⟩ := h
  exact ⟨es, hes, hPQ es hP⟩

lemma Adds.trans (h : Adds journal P s t) (h' : Adds journal Q t u)
    (hPQ : ∀ es fs, P es → Q fs → S (es ++ fs)) : Adds journal S s u := by
  obtain ⟨es, hes, hP⟩ := h
  obtain ⟨fs, hfs, hQ⟩ := h'
  exact ⟨es ++ fs, by rw [hfs, hes, List.append_assoc], hPQ es fs hP hQ⟩

lemma Trace.adds {α : Type} {step : σ → α → σ → Prop} {I : σ → Prop} (journal : σ → List ε)
    (P : σ × α × σ → List ε → Prop) {l : List (σ × α × σ)} (h : Trace step s l t) (hs : I s)
    (hstep : ∀ s a t, I s → step s a t → I t ∧ Adds journal (P (s, a, t)) s t) :
    I t ∧ ∃ parts, journal t = journal s ++ parts.flatten ∧ List.Forall₂ P l parts := by
  induction h with
  | nil => exact ⟨hs, [], by simp, .nil⟩
  | cons hst _ ih =>
    obtain ⟨ht, es, hes, hP⟩ := hstep _ _ _ hs hst
    obtain ⟨hu, parts, hparts, hall⟩ := ih ht
    exact ⟨hu, es :: parts, by rw [hparts, hes, List.flatten_cons, List.append_assoc],
      .cons hP hall⟩

end Adds

/-- The entries carry out a script: each carries out an item of it, in its order, and no item is
carried out twice. -/
abbrev CarriesOut (R : ε → β → Prop) (script : List β) (es : List ε) : Prop :=
  List.SublistForall₂ R es script

namespace CarriesOut

variable {R : ε → β → Prop} {script script' : List β} {es fs : List ε}

lemma single {e : ε} {b : β} (h : R e b) : CarriesOut R [b] [e] := .cons h .nil

lemma mono (h : CarriesOut R script es) (hscript : script.Sublist script') :
    CarriesOut R script' es := by
  rw [CarriesOut, List.sublistForall₂_iff] at *
  obtain ⟨l, hl, hsub⟩ := h
  exact ⟨l, hl, hsub.trans hscript⟩

lemma append (h : CarriesOut R script es) (h' : CarriesOut R script' fs) :
    CarriesOut R (script ++ script') (es ++ fs) := by
  induction h with
  | nil => exact h'.mono (List.sublist_append_right _ _)
  | cons hab _ ih => exact .cons hab ih
  | cons_right _ ih => exact .cons_right ih

end CarriesOut

section Blames

open Library.Action

variable {τ δ α γ : Type} {journal : σ → List β} {bad : β → Prop} {s t : σ} {x : Action σ ε α}

def Clear (journal : σ → List β) (bad : β → Prop) (s t : σ) : Prop :=
  Adds journal (fun es => ∀ e ∈ es, ¬ bad e) s t

/-- The computation panics where it enters something bad in the journal, and nowhere else. -/
def Blames (journal : σ → List β) (bad : β → Prop) (x : Action σ ε α) (s : σ) : Prop :=
  Ends x s (fun _ t => Clear journal bad s t)
    fun r t => Adds journal (fun es => r = .panic ↔ ∃ e ∈ es, bad e) s t

lemma blames_of_same (h : Ends x s (fun _ t => journal t = journal s)
    fun r t => r ≠ .panic ∧ journal t = journal s) : Blames journal bad x s := by
  apply h.imp
  · exact fun _ t ht => .of_eq ht (by simp)
  · exact fun r t ht => .of_eq ht.2 (by simpa using ht.1)

lemma blames_pure (a : α) : Blames journal bad (pure a : Action σ ε α) s :=
  blames_of_same rfl

lemma blames_fail (e : ε) : Blames journal bad (fail e : Action σ ε α) s :=
  blames_of_same ⟨by simp, rfl⟩

lemma blames_read : Blames journal bad (read : Action σ ε σ) s := blames_of_same rfl

lemma blames_lift {f : σ → α × σ} (h : journal (f s).2 = journal s) :
    Blames journal bad (lift f : Action σ ε α) s := blames_of_same h

lemma blames_update {f : σ → σ} (h : journal (f s) = journal s) :
    Blames journal bad (update f : Action σ ε Unit) s := blames_of_same h

lemma blames_ofOption (e : ε) (r : Option α) :
    Blames journal bad (ofOption e r : Action σ ε α) s := by
  cases r
  · exact blames_fail e
  · exact blames_pure _

lemma blames_ofExcept (r : Except ε α) : Blames journal bad (ofExcept r : Action σ ε α) s := by
  cases r
  · exact blames_fail _
  · exact blames_pure _

lemma Blames.bindPost {f : α → Action σ ε γ} {P : α → σ → Prop} (hx : Blames journal bad x s)
    (hP : Ends x s P fun _ _ => True) (hf : ∀ a t, P a t → Blames journal bad (f a) t) :
    Blames journal bad (x >>= f) s := by
  apply ends_bind.mpr
  apply (hx.and hP).imp
  · rintro a t ⟨hclear, hPt⟩
    apply (hf a t hPt).imp
    · intro _ u hu
      apply hclear.trans hu
      rintro es fs hes hfs e he
      exact (List.mem_append.mp he).elim (hes e) (hfs e)
    · intro r u hu
      apply hclear.trans hu
      intro es fs hes hfs
      rw [hfs]
      constructor
      · exact fun ⟨e, he, hbad⟩ => ⟨e, List.mem_append_right _ he, hbad⟩
      · rintro ⟨e, he, hbad⟩
        exact (List.mem_append.mp he).elim (fun hmem => absurd hbad (hes e hmem))
          fun hmem => ⟨e, hmem, hbad⟩
  · exact fun _ _ ht => ht.1

lemma Blames.bind {f : α → Action σ ε γ} (hx : Blames journal bad x s)
    (hf : ∀ a t, Blames journal bad (f a) t) : Blames journal bad (x >>= f) s :=
  hx.bindPost (ends_of_apply (fun _ _ _ => trivial) fun _ _ _ => trivial) fun a t _ => hf a t

lemma Blames.attempt (hx : Blames journal bad x s) :
    Blames journal bad (attempt x : Action σ δ (Except ε α)) s := by
  apply ends_attempt.mpr
  apply hx.imp
  · exact fun _ _ ht => ht
  · intro r t ht
    cases r with
    | panic => exact ht.imp fun es hes => by simpa using hes
    | error e => exact ht.imp fun es hes => by simpa using hes

lemma Blames.mapError {g : ε → δ} (hx : Blames journal bad x s) :
    Blames journal bad (mapError g x) s := by
  apply ends_mapError.mpr
  apply hx.imp
  · exact fun _ _ ht => ht
  · intro r t ht
    apply ht.imp
    cases r <;> simp [Abort.map]

lemma blames_zoom {get : σ → τ} {put : τ → σ → σ} {y : Action τ ε α} {inner : τ → List β}
    (hget : journal s = inner (get s)) (hput : ∀ t, journal (put t s) = inner t)
    (hy : Blames inner bad y (get s)) : Blames journal bad (zoom get put y) s := by
  have hadds : ∀ {P : List β → Prop} {t : τ}, Adds inner P (get s) t → Adds journal P s (put t s) :=
    fun {P t} ⟨es, hes, hP⟩ => ⟨es, by rw [hput, hget, hes], hP⟩
  apply ends_zoom.mpr
  exact hy.imp (fun _ _ ht => hadds ht) fun _ _ ht => hadds ht

end Blames

end Adbfs.Library
