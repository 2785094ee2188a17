import Adbfs.Library.Text

namespace Adbfs.Library.Text

def IsWord (w : Text) : Prop := w ≠ [] ∧ ∀ c ∈ w, isWhitespace c = false

instance (w : Text) : Decidable (IsWord w) := inferInstanceAs (Decidable (_ ∧ _))

def blanks (n : ℕ) : Text := List.replicate n ' '

section Split

variable {w t : Text} {c : Char}

lemma fieldsFrom_append (hw : ∀ c ∈ w, isWhitespace c = false) (r t : Text) :
    fieldsFrom r (w ++ t) = fieldsFrom (w.reverse ++ r) t := by
  induction w generalizing r with
  | nil => rfl
  | cons c w ih =>
    have hc := hw c (by simp)
    rw [List.cons_append, fieldsFrom, if_neg (by simp [hc]), ih fun d hd => hw d (by simp [hd])]
    simp

lemma splitWhitespace_cons_blank (hc : isWhitespace c = true) :
    splitWhitespace (c :: t) = splitWhitespace t := by
  rw [splitWhitespace, fieldsFrom, if_pos hc, if_pos rfl]
  rfl

lemma splitWhitespace_word (hw : IsWord w) (hc : isWhitespace c = true) (t : Text) :
    splitWhitespace (w ++ c :: t) = w :: splitWhitespace t := by
  rw [splitWhitespace, fieldsFrom_append hw.2, fieldsFrom, if_pos hc, if_neg (by simp [hw.1])]
  simp [splitWhitespace]

lemma splitWhitespace_blanks (n : ℕ) (t : Text) :
    splitWhitespace (blanks n ++ t) = splitWhitespace t := by
  induction n with
  | zero => rfl
  | succ n ih =>
    rw [blanks, List.replicate_succ, List.cons_append, splitWhitespace_cons_blank (by decide)]
    exact ih

lemma fieldsFrom_eq_nil {r : Text} :
    fieldsFrom r t = [] ↔ r = [] ∧ ∀ c ∈ t, isWhitespace c = true := by
  induction t generalizing r with
  | nil => by_cases hr : r = [] <;> simp [fieldsFrom, hr]
  | cons c t ih =>
    rw [fieldsFrom]
    split_ifs with hc hr
    · simp [ih, hc, hr]
    · simp [hr]
    · simp [ih, hc]

lemma splitWhitespace_eq_nil : splitWhitespace t = [] ↔ ∀ c ∈ t, isWhitespace c = true := by
  rw [splitWhitespace, fieldsFrom_eq_nil]
  simp

def columns (pad : ℕ → ℕ) : List Text → Text
  | [] => []
  | w :: ws => w ++ blanks (pad 0 + 1) ++ columns (fun i => pad (i + 1)) ws

lemma splitWhitespace_columns {ws : List Text} (hws : ∀ w ∈ ws, IsWord w) (pad : ℕ → ℕ) (t : Text) :
    splitWhitespace (columns pad ws ++ t) = ws ++ splitWhitespace t := by
  induction ws generalizing pad with
  | nil => rfl
  | cons w ws ih =>
    have hblanks : blanks (pad 0 + 1) = ' ' :: blanks (pad 0) := rfl
    rw [columns, hblanks, List.append_assoc, List.append_assoc, List.cons_append,
      splitWhitespace_word (hws w (by simp)) (by decide), splitWhitespace_blanks,
      ih fun v hv => hws v (by simp [hv])]
    rfl

end Split

section Numerals

def padded (k n : ℕ) : Text := (Nat.toDigits 10 n).leftpad k '0'

lemma padded_zero (n : ℕ) : padded 0 n = Nat.toDigits 10 n := by simp [padded]

lemma isDigit_of_mem_padded {k n : ℕ} {c : Char} (h : c ∈ padded k n) : c.isDigit = true := by
  rw [padded, List.leftpad, List.mem_append, List.mem_replicate] at h
  rcases h with ⟨-, rfl⟩ | h
  · decide
  · exact Nat.isDigit_of_mem_toDigits (by decide) (by decide) h

lemma notMem_padded {c : Char} (k n : ℕ) (hc : c.isDigit = false) : c ∉ padded k n := by
  intro h
  rw [isDigit_of_mem_padded h] at hc
  contradiction

lemma padded_ne_nil (k n : ℕ) : padded k n ≠ [] := by
  simp [padded, List.leftpad, Nat.toDigits_ne_nil]

lemma isWhitespace_of_isDigit {c : Char} (h : c.isDigit = true) : isWhitespace c = false := by
  simp only [Char.isDigit, Bool.and_eq_true, decide_eq_true_eq] at h
  have hlow : 48 ≤ c.toNat := by simpa using UInt32.le_iff_toNat_le.mp h.1
  have hhigh : c.toNat ≤ 57 := by simpa using UInt32.le_iff_toNat_le.mp h.2
  simp only [isWhitespace, Bool.or_eq_false_iff, Bool.and_eq_false_iff, decide_eq_false_iff_not,
    beq_eq_false_iff_ne]
  omega

lemma isWord_padded (k n : ℕ) : IsWord (padded k n) :=
  ⟨padded_ne_nil k n, fun _ hc => isWhitespace_of_isDigit (isDigit_of_mem_padded hc)⟩

lemma parseDigits_padded (k n : ℕ) : parseDigits (padded k n) = some n := by
  have hdigits : ∀ c ∈ padded k n, c.isDigit = true := fun c hc => isDigit_of_mem_padded hc
  rw [parseDigits, if_pos ⟨padded_ne_nil k n, List.all_eq_true.mpr hdigits⟩, Option.some.injEq,
    ← Nat.ofDigitChars_eq_foldl, padded, List.leftpad, Nat.ofDigitChars_append,
    Nat.ofDigitChars_replicate_zero, Nat.mul_zero]
  exact Nat.ofDigitChars_ten_toDigits

lemma parseUnsigned_padded {w n : ℕ} (k : ℕ) (hn : n < 2 ^ w) :
    parseUnsigned w (padded k n) = some n := by
  unfold parseUnsigned
  split
  · next u heq =>
    have hplus : '+' ∈ padded k n := by rw [heq]; simp
    exact absurd (isDigit_of_mem_padded hplus) (by decide)
  · rw [parseDigits_padded, Option.filter_some, if_pos (decide_eq_true hn)]

lemma parseSigned_padded {w n : ℕ} (k : ℕ) (hn : n < 2 ^ (w - 1)) :
    parseSigned w (padded k n) = some (n : ℤ) := by
  unfold parseSigned
  split
  · next u heq =>
    have hminus : '-' ∈ padded k n := by rw [heq]; simp
    exact absurd (isDigit_of_mem_padded hminus) (by decide)
  · rw [parseUnsigned_padded k hn]
    rfl

end Numerals

end Adbfs.Library.Text
