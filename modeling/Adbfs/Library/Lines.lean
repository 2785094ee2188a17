import Adbfs.Library.Text

/-! Lines of a text that ends them with a line feed, and with any number of carriage returns before
it. -/

namespace Adbfs.Library.Text

/-- Pieces that end with a line feed, the last of them perhaps without. -/
def splitInclusive : Text → List Text
  | [] => []
  | c :: t =>
    if c = '\n' then [c] :: splitInclusive t
    else
      match splitInclusive t with
      | [] => [[c]]
      | piece :: pieces => (c :: piece) :: pieces

def stripSuffix (c : Char) (t : Text) : Option Text :=
  if t.getLast? = some c then some t.dropLast else none

def chomp (piece : Text) : Text :=
  match stripSuffix '\n' piece with
  | some line => (stripSuffix '\r' line).getD line
  | none => piece

def lines (t : Text) : List Text := (splitInclusive t).map chomp

def trimEndMatches (c : Char) (t : Text) : Text := t.rdropWhile (· == c)

def IsLine (l : Text) : Prop := '\n' ∉ l ∧ l.getLast? ≠ some '\r'

instance (l : Text) : Decidable (IsLine l) := inferInstanceAs (Decidable (_ ∧ _))

inductive Printed : List Text → Text → Prop
  | nil : Printed [] []
  | line {l t : Text} {ls : List Text} (n : ℕ) : IsLine l → Printed ls t →
      Printed (l :: ls) (l ++ (List.replicate n '\r' ++ '\n' :: t))
  | last {l : Text} (n : ℕ) : IsLine l → l ++ List.replicate n '\r' ≠ [] →
      Printed [l] (l ++ List.replicate n '\r')

variable {l t : Text} {ls : List Text} {c : Char}

lemma splitInclusive_append (hl : '\n' ∉ l) (t : Text) :
    splitInclusive (l ++ '\n' :: t) = (l ++ ['\n']) :: splitInclusive t := by
  induction l with
  | nil => simp [splitInclusive]
  | cons c l ih =>
    have hc : c ≠ '\n' := fun h => hl (by simp [h])
    have hrest := ih fun h => hl (by simp [h])
    rw [List.cons_append, splitInclusive, if_neg hc, hrest]
    rfl

lemma splitInclusive_self (hl : '\n' ∉ l) (hne : l ≠ []) : splitInclusive l = [l] := by
  induction l with
  | nil => exact absurd rfl hne
  | cons c l ih =>
    have hc : c ≠ '\n' := fun h => hl (by simp [h])
    rw [splitInclusive, if_neg hc]
    cases l with
    | nil => rfl
    | cons d l => rw [ih (fun h => hl (List.mem_cons_of_mem c h)) (by simp)]

lemma stripSuffix_concat (t : Text) (c : Char) : stripSuffix c (t ++ [c]) = some t := by
  simp [stripSuffix]

lemma trimEndMatches_concat (c : Char) (t : Text) :
    trimEndMatches c (t ++ [c]) = trimEndMatches c t := by
  simp [trimEndMatches]

lemma trimEndMatches_stripSuffix (c : Char) (t : Text) :
    trimEndMatches c ((stripSuffix c t).getD t) = trimEndMatches c t := by
  rw [stripSuffix]
  split_ifs with h
  · have hlast : t.dropLast ++ [c] = t := List.dropLast_append_getLast? c h
    rw [Option.getD_some]
    conv_rhs => rw [← hlast, trimEndMatches_concat]
  · rfl

lemma trimEndMatches_replicate (hl : l.getLast? ≠ some c) (n : ℕ) :
    trimEndMatches c (l ++ List.replicate n c) = l := by
  induction n with
  | zero =>
    rw [List.replicate_zero, List.append_nil, trimEndMatches, List.rdropWhile_eq_self_iff]
    intro hne hlast
    rw [List.getLast?_eq_some_getLast hne] at hl
    exact hl (congrArg some (by simpa using hlast))
  | succ n ih => rw [List.replicate_succ', ← List.append_assoc, trimEndMatches_concat, ih]

lemma notMem_replicate (hl : '\n' ∉ l) (n : ℕ) : '\n' ∉ l ++ List.replicate n '\r' := by
  simp [hl, List.mem_replicate]

lemma Printed.lines_eq (h : Printed ls t) : (lines t).map (trimEndMatches '\r') = ls := by
  induction h with
  | nil => rfl
  | @line l t ls n hl _ ih =>
    rw [← List.append_assoc, lines, splitInclusive_append (notMem_replicate hl.1 n)]
    rw [lines] at ih
    rw [List.map_cons, List.map_cons, ih, chomp, stripSuffix_concat]
    change trimEndMatches '\r' ((stripSuffix '\r' _).getD _) :: ls = l :: ls
    rw [trimEndMatches_stripSuffix, trimEndMatches_replicate hl.2]
  | @last l n hl hne =>
    have hstrip : stripSuffix '\n' (l ++ List.replicate n '\r') = none :=
      if_neg fun h => notMem_replicate hl.1 n (List.mem_of_getLast? h)
    rw [lines, splitInclusive_self (notMem_replicate hl.1 n) hne, List.map_singleton,
      List.map_singleton, chomp, hstrip]
    change [trimEndMatches '\r' _] = [l]
    rw [trimEndMatches_replicate hl.2]

lemma IsLine.cons (hl : IsLine l) (hc : c ≠ '\n') (hne : l ≠ [] ∨ c ≠ '\r') : IsLine (c :: l) := by
  refine ⟨by simp [hl.1, hc.symm], ?_⟩
  cases l with
  | nil => simpa using hne
  | cons d l =>
    rw [List.getLast?_cons_cons]
    exact hl.2

lemma isLine_nil : IsLine [] := ⟨by simp, by simp⟩

lemma Printed.cons (h : Printed ls t) (hc : c ≠ '\n') : ∃ ls', Printed ls' (c :: t) := by
  by_cases hcr : c = '\r'
  · subst hcr
    cases h with
    | nil => exact ⟨_, .last (l := []) 1 isLine_nil (by simp)⟩
    | @line l t ls n hl ht =>
      by_cases hne : l = []
      · subst hne
        exact ⟨_, .line (l := []) (n + 1) isLine_nil ht⟩
      · exact ⟨_, .line n (hl.cons hc (Or.inl hne)) ht⟩
    | @last l n hl _ =>
      by_cases hne : l = []
      · subst hne
        exact ⟨_, .last (l := []) (n + 1) isLine_nil (by simp)⟩
      · exact ⟨_, .last n (hl.cons hc (Or.inl hne)) (by simp)⟩
  · cases h with
    | nil => exact ⟨_, .last (l := [c]) 0 (isLine_nil.cons hc (Or.inr hcr)) (by simp)⟩
    | line n hl ht => exact ⟨_, .line n (hl.cons hc (Or.inr hcr)) ht⟩
    | last n hl _ => exact ⟨_, .last n (hl.cons hc (Or.inr hcr)) (by simp)⟩

lemma exists_printed (t : Text) : ∃ ls, Printed ls t := by
  induction t with
  | nil => exact ⟨[], .nil⟩
  | cons c t ih =>
    obtain ⟨ls, h⟩ := ih
    by_cases hc : c = '\n'
    · subst hc
      exact ⟨_, .line (l := []) 0 isLine_nil h⟩
    · exact h.cons hc

lemma lines_eq_iff : (lines t).map (trimEndMatches '\r') = ls ↔ Printed ls t := by
  constructor
  · rintro rfl
    obtain ⟨ls, h⟩ := exists_printed t
    rw [h.lines_eq]
    exact h
  · exact Printed.lines_eq

end Adbfs.Library.Text
