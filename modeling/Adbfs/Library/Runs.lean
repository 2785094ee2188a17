import Mathlib.Tactic

namespace Adbfs.Library

inductive Run {σ α : Type} (step : σ → α → σ → Prop) (guard : σ → α → Prop)
    (s : σ) : σ → Prop
  | refl : Run step guard s s
  | tail {t u : σ} {a : α} : Run step guard s t → guard t a → step t a u → Run step guard s u

def Always {σ α : Type} (_ : σ) (_ : α) : Prop := True

namespace Run

variable {σ α : Type} {step : σ → α → σ → Prop} {guard : σ → α → Prop} {s t u : σ} {a : α}

lemma single (h : step s a t) (hg : guard s a) : Run step guard s t := .tail .refl hg h

lemma trans (h : Run step guard s t) (h' : Run step guard t u) : Run step guard s u := by
  induction h' with
  | refl => exact h
  | tail _ hg hs ih => exact .tail ih hg hs

lemma head (h : step s a t) (hg : guard s a) (h' : Run step guard t u) : Run step guard s u :=
  (single h hg).trans h'

lemma invariant {I : σ → Prop} (hstep : ∀ s a t, I s → guard s a → step s a t → I t)
    (h : Run step guard s t) (hs : I s) : I t := by
  induction h with
  | refl => exact hs
  | tail _ hg hst ih => exact hstep _ _ _ ih hg hst

end Run

inductive Trace {σ α : Type} (step : σ → α → σ → Prop) : σ → List (σ × α × σ) → σ → Prop
  | nil {s : σ} : Trace step s [] s
  | cons {s t u : σ} {a : α} {l : List (σ × α × σ)} : step s a t → Trace step t l u →
      Trace step s ((s, a, t) :: l) u

namespace Trace

variable {σ α : Type} {step : σ → α → σ → Prop} {s t u : σ} {a : α} {l : List (σ × α × σ)}

lemma invariant {I : σ → Prop} {G : σ × α × σ → Prop} (h : Trace step s l t) (hs : I s)
    (hstep : ∀ s a t, I s → step s a t → G (s, a, t) → I t) (hl : ∀ x ∈ l, G x) :
    I t ∧ ∀ x ∈ l, I x.1 ∧ step x.1 x.2.1 x.2.2 := by
  induction h with
  | nil => exact ⟨hs, by simp⟩
  | cons hst _ ih =>
    obtain ⟨hfirst, hrest⟩ := List.forall_mem_cons.mp hl
    obtain ⟨hlast, hsteps⟩ := ih (hstep _ _ _ hs hst hfirst) hrest
    exact ⟨hlast, List.forall_mem_cons.mpr ⟨⟨hs, hst⟩, hsteps⟩⟩

lemma length_le {I : σ → Prop} {measure : σ → ℕ} (h : Trace step s l t) (hs : I s)
    (hstep : ∀ s a t, I s → step s a t → I t ∧ measure t < measure s) : l.length ≤ measure s := by
  induction h with
  | nil => exact Nat.zero_le _
  | cons hst _ ih =>
    obtain ⟨ht, hlt⟩ := hstep _ _ _ hs hst
    have hrest := ih ht
    rw [List.length_cons]
    omega

lemma exists_last {I : σ → Prop} {measure : σ → ℕ} (s : σ) (hs : I s)
    (hstep : ∀ s a t, I s → step s a t → I t ∧ measure t < measure s) :
    ∃ l t, Trace step s l t ∧ I t ∧ ∀ a u, ¬ step t a u := by
  induction hm : measure s using Nat.strong_induction_on generalizing s with
  | h m ih =>
    by_cases hlast : ∀ a u, ¬ step s a u
    · exact ⟨[], s, .nil, hs, hlast⟩
    · push Not at hlast
      obtain ⟨a, u, hsu⟩ := hlast
      obtain ⟨hu, hlt⟩ := hstep s a u hs hsu
      obtain ⟨l, t, htrace, ht⟩ := ih (measure u) (hm ▸ hlt) u hu rfl
      exact ⟨_, t, .cons hsu htrace, ht⟩

end Trace

end Adbfs.Library
