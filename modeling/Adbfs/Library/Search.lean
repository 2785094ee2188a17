import Adbfs.Library.Paths
import Adbfs.Library.Text

namespace Adbfs.Library.Text

open Paths (isPrefixOf?_eq_some)

section BreakOn

variable {n t a b : Text}

lemma isPrefixOf?_eq_none {a b : Text} : a.isPrefixOf? b = none ↔ ¬ a <+: b := by
  constructor
  · rintro h ⟨rest, hrest⟩
    have hsome := isPrefixOf?_eq_some.mpr hrest.symm
    rw [h] at hsome
    contradiction
  · intro h
    by_contra hne
    obtain ⟨rest, hrest⟩ := Option.ne_none_iff_exists'.mp hne
    exact h ⟨rest, (isPrefixOf?_eq_some.mp hrest).symm⟩

lemma breakOn_of_prefix (c : Char) (h : n <+: c :: t) :
    ∃ rest, c :: t = n ++ rest ∧ breakOn n (c :: t) = some ([], rest) := by
  obtain ⟨rest, hrest⟩ := h
  refine ⟨rest, hrest.symm, ?_⟩
  rw [breakOn, isPrefixOf?_eq_some.mpr hrest.symm]

lemma breakOn_cons_of_not (c : Char) (h : ¬ n <+: c :: t) :
    breakOn n (c :: t) = (breakOn n t).map fun p => (c :: p.1, p.2) := by
  rw [breakOn, isPrefixOf?_eq_none.mpr h]

lemma breakOn_eq_none (hn : n ≠ []) : breakOn n t = none ↔ ¬ n <:+: t := by
  induction t with
  | nil => simp [breakOn, hn]
  | cons c t ih =>
    rw [List.infix_cons_iff]
    by_cases h : n <+: c :: t
    · obtain ⟨rest, -, heq⟩ := breakOn_of_prefix c h
      simp [heq, h]
    · rw [breakOn_cons_of_not c h, Option.map_eq_none_iff, ih]
      simp [h]

lemma breakOn_self (n b : Text) : breakOn n (n ++ b) = some ([], b) := by
  cases h : n ++ b with
  | nil =>
    obtain ⟨rfl, rfl⟩ := List.append_eq_nil_iff.mp h
    rfl
  | cons c t =>
    obtain ⟨rest, hrest, heq⟩ := breakOn_of_prefix c (h ▸ List.prefix_append n b)
    rw [← h] at hrest
    rw [heq, List.append_cancel_left hrest]

/-- The needle begins nowhere in `a`. -/
def Skips (n a t : Text) : Prop := ∀ x y, a = x ++ y → y ≠ [] → ¬ n <+: y ++ t

lemma Skips.tail {c : Char} (h : Skips n (c :: a) t) : Skips n a t :=
  fun x y hxy => h (c :: x) y (by rw [hxy, List.cons_append])

lemma breakOn_skip (h : Skips n a t) :
    breakOn n (a ++ t) = (breakOn n t).map fun p => (a ++ p.1, p.2) := by
  induction a with
  | nil => simp
  | cons c a ih =>
    have hhead : ¬ n <+: c :: (a ++ t) := h [] (c :: a) rfl (by simp)
    rw [List.cons_append, breakOn_cons_of_not c hhead, ih h.tail, Option.map_map]
    rfl

lemma skips_of_notMem {c : Char} {n' : Text} (ha : c ∉ a) : Skips (c :: n') a t := by
  rintro x y rfl hy ⟨rest, hrest⟩
  cases y with
  | nil => contradiction
  | cons d y =>
    obtain ⟨rfl, -⟩ := List.cons.inj hrest
    exact ha (by simp)

lemma breakOn_char {c : Char} (ha : c ∉ a) (b : Text) :
    breakOn [c] (a ++ c :: b) = some (a, b) := by
  have hhead : breakOn [c] (c :: b) = some ([], b) := breakOn_self [c] b
  rw [breakOn_skip (skips_of_notMem ha), hhead]
  simp

lemma skips_iff (hn : n ≠ []) : Skips n a (n ++ b) ↔ ¬ n <:+: a ++ n.dropLast := by
  have hlen : n.dropLast.length + 1 = n.length := by
    rw [List.length_dropLast]
    exact Nat.succ_pred (List.length_pos_iff.mpr hn).ne'
  have hcut : ∀ y, y ++ n.dropLast <+: y ++ (n ++ b) := fun y =>
    (List.prefix_append_right_inj y).mpr ((List.dropLast_prefix n).trans (List.prefix_append n b))
  constructor
  · rintro h ⟨u, v, huv⟩
    have hsum := congrArg List.length huv
    simp only [List.length_append] at hsum
    have hu : u <+: a := by
      apply List.prefix_of_prefix_length_le _ (List.prefix_append a n.dropLast) (by omega)
      exact ⟨n ++ v, by rw [← List.append_assoc, huv]⟩
    obtain ⟨y, rfl⟩ := hu
    have hy : y ≠ [] := by
      rintro rfl
      simp at hsum
      omega
    rw [List.append_assoc, List.append_assoc, List.append_cancel_left_eq] at huv
    exact h u y rfl hy (List.IsPrefix.trans ⟨v, huv⟩ (hcut y))
  · rintro h x y rfl hy hp
    have hshort : n <+: y ++ n.dropLast := by
      apply List.prefix_of_prefix_length_le hp (hcut y)
      have := List.length_pos_iff.mpr hy
      simp
      omega
    exact h (hshort.isInfix.trans ⟨x, [], by simp⟩)

lemma skips_of_breakOn (h : breakOn n t = some (a, b)) :
    t = a ++ (n ++ b) ∧ Skips n a (n ++ b) := by
  induction t generalizing a with
  | nil =>
    rw [breakOn] at h
    split_ifs at h with hn
    obtain ⟨rfl, rfl⟩ := Prod.mk.inj (Option.some.inj h)
    exact ⟨by simp [hn], fun x y hxy hy => absurd (List.append_eq_nil_iff.mp hxy.symm).2 hy⟩
  | cons c t ih =>
    by_cases hp : n <+: c :: t
    · obtain ⟨rest, hrest, heq⟩ := breakOn_of_prefix c hp
      rw [heq] at h
      obtain ⟨rfl, rfl⟩ := Prod.mk.inj (Option.some.inj h)
      exact ⟨hrest, fun x y hxy hy => absurd (List.append_eq_nil_iff.mp hxy.symm).2 hy⟩
    · rw [breakOn_cons_of_not c hp] at h
      obtain ⟨⟨a', b'⟩, h', heq⟩ := Option.map_eq_some_iff.mp h
      obtain ⟨rfl, rfl⟩ := Prod.mk.inj heq
      obtain ⟨rfl, hskips⟩ := ih h'
      refine ⟨rfl, fun x y hxy hy => ?_⟩
      cases x with
      | nil =>
        obtain rfl : c :: a' = y := hxy
        exact hp
      | cons d x => exact hskips x y (List.cons.inj hxy).2 hy

lemma breakOn_append (h : breakOn n t = some (a, b)) (u : Text) :
    breakOn n (t ++ u) = some (a, b ++ u) := by
  obtain ⟨rfl, hskips⟩ := skips_of_breakOn h
  have hskips' : Skips n a (n ++ (b ++ u)) := by
    rintro x y rfl hy hp
    apply hskips x y rfl hy
    apply List.prefix_of_prefix_length_le hp
    · exact ⟨u, by simp⟩
    · simp
      omega
  have hassoc : a ++ (n ++ b) ++ u = a ++ (n ++ (b ++ u)) := by simp
  rw [hassoc, breakOn_skip hskips', breakOn_self]
  simp

lemma prefix_append_cons {c : Char} (hc : c ∉ n) : n <+: a ++ c :: b ↔ n <+: a := by
  constructor
  · intro h
    have ha : a ++ [c] <+: a ++ c :: b := ⟨b, by simp⟩
    by_cases hlen : n.length ≤ a.length
    · exact List.prefix_of_prefix_length_le h (List.prefix_append a _) hlen
    · have hac : a ++ [c] <+: n := List.prefix_of_prefix_length_le ha h (by simp; omega)
      exact absurd (hac.subset (by simp)) hc
  · exact fun h => h.trans (List.prefix_append a _)

lemma infix_append_cons {c : Char} (hc : c ∉ n) : n <:+: a ++ c :: b ↔ n <:+: a ∨ n <:+: b := by
  induction a with
  | nil =>
    have hhead : n <+: [] ++ c :: b ↔ n <+: [] := prefix_append_cons hc
    rw [List.nil_append] at hhead
    rw [List.nil_append, List.infix_cons_iff, hhead, List.prefix_nil, List.infix_nil]
  | cons d a ih =>
    rw [List.cons_append, List.infix_cons_iff, List.infix_cons_iff, ih, or_assoc,
      ← List.cons_append, prefix_append_cons hc]

lemma skips_concat {c : Char} (hc : c ∉ n) (h : ¬ n <:+: a) : Skips n (a ++ [c]) t := by
  intro x y hxy hy hp
  obtain ⟨y', d, rfl⟩ := (List.eq_nil_or_concat' y).resolve_left hy
  rw [← List.append_assoc] at hxy
  obtain ⟨rfl, hd⟩ := List.append_inj' hxy rfl
  obtain rfl : c = d := by simpa using hd
  rw [List.append_assoc, List.singleton_append, prefix_append_cons hc] at hp
  exact h (hp.isInfix.trans ⟨x, [], by simp⟩)

/-- The first occurrence: the needle does not lie in what comes before and all of itself but its last
letter. -/
lemma breakOn_eq_some_iff (hn : n ≠ []) :
    breakOn n t = some (a, b) ↔ t = a ++ (n ++ b) ∧ ¬ n <:+: a ++ n.dropLast := by
  constructor
  · intro h
    obtain ⟨ht, hskips⟩ := skips_of_breakOn h
    exact ⟨ht, (skips_iff hn).mp hskips⟩
  · rintro ⟨rfl, hfirst⟩
    rw [breakOn_skip ((skips_iff hn).mpr hfirst), breakOn_self]
    simp

end BreakOn

section Slices

lemma byteLen_cons (c : Char) (t : Text) : byteLen (c :: t) = c.utf8Size + byteLen t := by
  simp [byteLen]

lemma byteLen_append (a b : Text) : byteLen (a ++ b) = byteLen a + byteLen b := by
  simp [byteLen]

lemma sliceFrom_byteLen (a t : Text) : sliceFrom (byteLen a) (a ++ t) = some t := by
  induction a with
  | nil => simp [byteLen, sliceFrom]
  | cons c a ih =>
    have hpos := Char.utf8Size_pos c
    obtain ⟨k, hk⟩ := Nat.exists_eq_succ_of_ne_zero hpos.ne'
    rw [byteLen_cons, hk, Nat.succ_add, List.cons_append, sliceFrom, if_pos (by omega), ← ih]
    congr 1
    omega

lemma bytes_append (a b : Text) : bytes (a ++ b) = bytes a ++ bytes b := by
  simp [bytes]

end Slices

section Suffix

variable {p t u : Text} {c : Char}

lemma suffix_append_cons (hp : c ∉ p) : p <:+ u ++ c :: t ↔ p <:+ t := by
  constructor
  · intro h
    have ht : t <:+ u ++ c :: t := ⟨u ++ [c], by simp⟩
    by_cases hlen : p.length ≤ t.length
    · exact List.suffix_of_suffix_length_le h ht hlen
    · have hct : c :: t <:+ p := List.suffix_of_suffix_length_le ⟨u, rfl⟩ h (by simp; omega)
      exact absurd (hct.subset (by simp)) hp
  · intro h
    exact h.trans ⟨u ++ [c], by simp⟩

end Suffix

end Adbfs.Library.Text
