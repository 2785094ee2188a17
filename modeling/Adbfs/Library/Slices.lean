import Adbfs.Library.Search

namespace Adbfs.Library.Text

variable {t a b u : Text} {c : Char} {n k : ℕ}

def sliceTo : ℕ → Text → Option Text
  | 0, _ => some []
  | _ + 1, [] => none
  | n + 1, c :: t =>
    if c.utf8Size ≤ n + 1 then (sliceTo (n + 1 - c.utf8Size) t).map (c :: ·) else none

def slice (start stop : ℕ) (t : Text) : Option Text :=
  if start ≤ stop then (t.sliceFrom start).bind (sliceTo (stop - start)) else none

def find (needle t : Text) : Option ℕ := (breakOn needle t).map fun p => p.1.byteLen

def rfind (c : Char) : Text → Option ℕ
  | [] => none
  | d :: t =>
    match rfind c t with
    | some k => some (d.utf8Size + k)
    | none => if d = c then some 0 else none

def IsCharBoundary (n : ℕ) (t : Text) : Prop := ∃ a b, t = a ++ b ∧ a.byteLen = n

lemma byteLen_pos (h : t ≠ []) : 0 < byteLen t := by
  obtain ⟨c, u, rfl⟩ := List.exists_cons_of_ne_nil h
  have hpos := Char.utf8Size_pos c
  rw [byteLen_cons]
  omega

lemma sliceFrom_eq_some_iff : sliceFrom n t = some b ↔ ∃ a, t = a ++ b ∧ byteLen a = n := by
  constructor
  · intro h
    induction t generalizing n with
    | nil =>
      cases n with
      | zero => exact ⟨[], Option.some.inj h, rfl⟩
      | succ n => simp [sliceFrom] at h
    | cons c t ih =>
      cases n with
      | zero => exact ⟨[], Option.some.inj h, rfl⟩
      | succ n =>
        rw [sliceFrom] at h
        split_ifs at h with hfits
        obtain ⟨a, rfl, ha⟩ := ih h
        refine ⟨c :: a, rfl, ?_⟩
        rw [byteLen_cons, ha]
        omega
  · rintro ⟨a, rfl, rfl⟩
    exact sliceFrom_byteLen a b

lemma sliceFrom_ne_none_iff : sliceFrom n t ≠ none ↔ IsCharBoundary n t := by
  rw [Option.ne_none_iff_exists']
  constructor
  · rintro ⟨b, hb⟩
    obtain ⟨a, ha⟩ := sliceFrom_eq_some_iff.mp hb
    exact ⟨a, b, ha⟩
  · rintro ⟨a, b, hab⟩
    exact ⟨b, sliceFrom_eq_some_iff.mpr ⟨a, hab⟩⟩

lemma sliceTo_byteLen (a b : Text) : sliceTo (byteLen a) (a ++ b) = some a := by
  induction a with
  | nil => rw [byteLen, List.map_nil, List.sum_nil, sliceTo]
  | cons c a ih =>
    have hpos := Char.utf8Size_pos c
    obtain ⟨k, hk⟩ := Nat.exists_eq_succ_of_ne_zero hpos.ne'
    have hrest : k + byteLen a + 1 - c.utf8Size = byteLen a := by omega
    rw [byteLen_cons, hk, Nat.succ_add, List.cons_append, sliceTo, if_pos (by omega), hrest, ih]
    rfl

lemma slice_byteLen (a b u : Text) :
    slice (byteLen a) (byteLen (a ++ b)) (a ++ (b ++ u)) = some b := by
  rw [slice, byteLen_append, if_pos (Nat.le_add_right _ _), sliceFrom_byteLen, Option.bind_some,
    Nat.add_sub_cancel_left, sliceTo_byteLen]

lemma isCharBoundary_append (a : Text) : IsCharBoundary (byteLen a + k) (a ++ t) ↔
    IsCharBoundary k t := by
  constructor
  · rintro ⟨x, y, hxy, hx⟩
    rcases List.append_eq_append_iff.mp hxy with ⟨z, rfl, rfl⟩ | ⟨z, rfl, rfl⟩
    · rw [byteLen_append] at hx
      exact ⟨z, y, rfl, by omega⟩
    · rw [byteLen_append] at hx
      obtain rfl : z = [] := by
        by_contra hz
        have := byteLen_pos hz
        omega
      exact ⟨[], _, rfl, by rw [byteLen, List.map_nil, List.sum_nil] at *; omega⟩
  · rintro ⟨x, y, rfl, rfl⟩
    exact ⟨a ++ x, y, by rw [List.append_assoc], byteLen_append a x⟩

lemma rfind_of_notMem (h : c ∉ t) : rfind c t = none := by
  induction t with
  | nil => rfl
  | cons d t ih =>
    rw [List.mem_cons, not_or] at h
    rw [rfind, ih h.2]
    exact if_neg (Ne.symm h.1)

lemma rfind_append (a : Text) (h : c ∉ b) : rfind c (a ++ c :: b) = some (byteLen a) := by
  induction a with
  | nil =>
    rw [List.nil_append, rfind, rfind_of_notMem h]
    exact if_pos rfl
  | cons d a ih => rw [List.cons_append, rfind, ih, byteLen_cons]

lemma exists_last (h : c ∈ t) : ∃ a b, t = a ++ c :: b ∧ c ∉ b := by
  induction t with
  | nil => simp at h
  | cons d t ih =>
    by_cases ht : c ∈ t
    · obtain ⟨a, b, rfl, hb⟩ := ih ht
      exact ⟨d :: a, b, rfl, hb⟩
    · obtain rfl := (List.mem_cons.mp h).resolve_right ht
      exact ⟨[], t, rfl, ht⟩

end Adbfs.Library.Text
