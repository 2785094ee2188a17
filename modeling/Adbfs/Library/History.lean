import Mathlib.Tactic

namespace Adbfs.Library

/-- An event of the one kind has happened, and from then on only events of the other. -/
def Since {α : Type} (P Q : α → Prop) (h : List α) : Prop :=
  ∃ before a after, h = before ++ a :: after ∧ P a ∧ ∀ b ∈ after, Q b

variable {α : Type} {P Q : α → Prop} {h : List α} {a : α}

@[simp] lemma since_nil : ¬ Since P Q ([] : List α) := by
  rintro ⟨before, a, after, h, -⟩
  simp at h

lemma since_concat : Since P Q (h ++ [a]) ↔ P a ∨ Q a ∧ Since P Q h := by
  constructor
  · rintro ⟨before, b, after, heq, hb, hafter⟩
    induction after using List.reverseRecOn with
    | nil =>
      have hlast := (List.append_inj' heq rfl).2
      exact Or.inl (List.singleton_inj.mp hlast ▸ hb)
    | append_singleton rest c =>
      rw [← List.cons_append, ← List.append_assoc] at heq
      obtain ⟨hinit, hlast⟩ := List.append_inj' heq rfl
      have ha : Q a := List.singleton_inj.mp hlast ▸ hafter c (by simp)
      exact Or.inr ⟨ha, before, b, rest, hinit, hb, fun d hd => hafter d (by simp [hd])⟩
  · rintro (ha | ⟨ha, before, b, after, rfl, hb, hafter⟩)
    · exact ⟨h, a, [], rfl, ha, by simp⟩
    · refine ⟨before, b, after ++ [a], by simp, hb, fun c hc => ?_⟩
      rcases List.mem_append.mp hc with hc | hc
      · exact hafter c hc
      · rwa [List.mem_singleton.mp hc]

end Adbfs.Library
