import Mathlib.Data.List.Infix
import Mathlib.Tactic

/-! A list that is read page by page. Each element is delivered with the offset at which to go on
behind it. -/

namespace Adbfs.Library.Paging

variable {α : Type} {xs : List α} {es : List (α × ℕ)} {offset room : ℕ}

def page (xs : List α) (offset room : ℕ) : List (α × ℕ) := ((xs.zipIdx 1).drop offset).take room

/-- Where to go on: behind the last element delivered. -/
def resume (es : List (α × ℕ)) : ℕ := (es.getLast?.map Prod.snd).getD 0

/-- What has been delivered by calls that each go on where the one before has stopped. -/
inductive Pages (xs : List α) : List (α × ℕ) → Prop
  | start : Pages xs []
  | next {es : List (α × ℕ)} (room : ℕ) : Pages xs es →
      Pages xs (es ++ page xs (resume es) room)

lemma map_fst_page (xs : List α) (offset room : ℕ) :
    (page xs offset room).map Prod.fst = (xs.drop offset).take room := by
  rw [page, List.map_take, List.map_drop, List.zipIdx_map_fst]

lemma resume_take (xs : List α) {n : ℕ} (hn : n ≤ xs.length) :
    resume ((xs.zipIdx 1).take n) = n := by
  cases n with
  | zero => rfl
  | succ n =>
    have hlt : n < (xs.zipIdx 1).length := by
      rw [List.length_zipIdx]
      exact hn
    rw [resume, List.getLast?_take, if_neg (Nat.succ_ne_zero n)]
    simp [List.getElem?_eq_getElem hlt, Nat.add_comm]

lemma take_append_page (xs : List α) (n room : ℕ) :
    (xs.zipIdx 1).take n ++ page xs n room = (xs.zipIdx 1).take (n + room) := by
  rw [page, List.take_add]

lemma Pages.eq_take (h : Pages xs es) : ∃ n ≤ xs.length, es = (xs.zipIdx 1).take n := by
  induction h with
  | start => exact ⟨0, Nat.zero_le _, rfl⟩
  | next room _ ih =>
    obtain ⟨n, hn, rfl⟩ := ih
    rw [resume_take xs hn, take_append_page]
    refine ⟨min (n + room) xs.length, min_le_right _ _, ?_⟩
    rw [← List.length_zipIdx (i := 1), List.take_eq_take_min]

lemma Pages.delivers_front (h : Pages xs es) : es.map Prod.fst <+: xs := by
  obtain ⟨n, -, rfl⟩ := h.eq_take
  rw [List.map_take, List.zipIdx_map_fst]
  exact List.take_prefix _ _

lemma Pages.complete (h : Pages xs es) (hroom : 0 < room)
    (hnone : page xs (resume es) room = []) : es.map Prod.fst = xs := by
  obtain ⟨n, hn, rfl⟩ := h.eq_take
  rw [resume_take xs hn, page, List.take_eq_nil_iff, List.drop_eq_nil_iff,
    List.length_zipIdx] at hnone
  have hall : xs.length ≤ n := hnone.resolve_left hroom.ne'
  rw [List.map_take, List.zipIdx_map_fst, List.take_of_length_le hall]

lemma Pages.resume_behind (h : Pages xs es) {a : α} (hmem : (a, offset) ∈ es) (room : ℕ) :
    ∃ before behind, xs = before ++ a :: behind ∧ before.length + 1 = offset ∧
      (page xs offset room).map Prod.fst = behind.take room := by
  obtain ⟨n, -, rfl⟩ := h.eq_take
  obtain ⟨i, hi, hget⟩ := List.mem_iff_getElem.mp (List.mem_of_mem_take hmem)
  rw [List.length_zipIdx] at hi
  rw [List.getElem_zipIdx, Prod.mk.injEq] at hget
  obtain ⟨rfl, rfl⟩ := hget
  refine ⟨xs.take i, xs.drop (i + 1), ?_, ?_, ?_⟩
  · rw [List.getElem_cons_drop, List.take_append_drop]
  · rw [List.length_take, min_eq_left hi.le, Nat.add_comm]
  · rw [map_fst_page, Nat.add_comm]

end Adbfs.Library.Paging
