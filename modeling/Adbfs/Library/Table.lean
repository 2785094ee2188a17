import Mathlib.Data.List.AList
import Mathlib.Tactic

namespace Adbfs.Library

abbrev Table (α β : Type) := AList fun _ : α => β

structure IterOrder (γ : Type) where
  visit : List γ → List γ
  perm : ∀ l, (visit l).Perm l

def IterOrder.stored (γ : Type) : IterOrder γ := ⟨id, fun _ => .refl _⟩

namespace Table

variable {α β : Type} [DecidableEq α]

def retain (p : α → β → Bool) (m : Table α β) : Table α β where
  entries := m.entries.filter fun e => p e.1 e.2
  nodupKeys := List.Nodup.sublist (List.filter_sublist.map _) m.nodupKeys

lemma lookup_eq_some_iff (m : Table α β) (a : α) (b : β) :
    m.lookup a = some b ↔ ⟨a, b⟩ ∈ m.entries := by
  rw [← Option.mem_def, AList.mem_lookup_iff]

lemma lookup_retain (p : α → β → Bool) (m : Table α β) (a : α) :
    (retain p m).lookup a = (m.lookup a).filter (p a) := by
  ext b
  rw [lookup_eq_some_iff, Option.filter_eq_some_iff, lookup_eq_some_iff]
  simp [retain]

lemma lookup_insert_eq (m : Table α β) (a c : α) (b : β) :
    (m.insert a b).lookup c = if c = a then some b else m.lookup c := by
  split_ifs with h
  · rw [h, AList.lookup_insert]
  · exact AList.lookup_insert_ne h

lemma lookup_erase_eq (m : Table α β) (a c : α) :
    (m.erase a).lookup c = if c = a then none else m.lookup c := by
  split_ifs with h
  · rw [h, AList.lookup_erase]
  · exact AList.lookup_erase_ne h

def count (p : β → Bool) (m : Table α β) : ℕ := m.entries.countP fun e => p e.2

omit [DecidableEq α] in
@[simp] lemma count_empty (p : β → Bool) : count p (∅ : Table α β) = 0 := rfl

lemma count_insert (p : β → Bool) {m : Table α β} {a : α} (b : β) (h : m.lookup a = none) :
    count p (m.insert a b) = count p m + if p b then 1 else 0 := by
  rw [count, AList.entries_insert_of_notMem (AList.lookup_eq_none.mp h), List.countP_cons]
  rfl

lemma count_erase (p : β → Bool) {m : Table α β} {a : α} {b : β} (h : m.lookup a = some b) :
    count p m = count p (m.erase a) + if p b then 1 else 0 := by
  have hmem : a ∈ m.entries.keys :=
    AList.mem_keys.mp (AList.lookup_isSome.mp (by rw [h]; rfl))
  obtain ⟨c, l, r, -, hentries, herase⟩ := List.exists_of_kerase hmem
  have hc : c = b := by
    have hin : (⟨a, c⟩ : Sigma fun _ : α => β) ∈ m.entries := by rw [hentries]; simp
    exact Option.some.inj (((lookup_eq_some_iff m a c).mpr hin).symm.trans h)
  change m.entries.countP _ = (List.kerase a m.entries).countP _ + _
  rw [herase, hentries, hc, List.countP_append, List.countP_append, List.countP_cons,
    Nat.add_assoc]

lemma count_replace (p : β → Bool) {m : Table α β} {a : α} {b : β} (c : β)
    (h : m.lookup a = some b) :
    count p (m.insert a c) + (if p b then 1 else 0) = count p m + if p c then 1 else 0 := by
  have hinsert : count p (m.insert a c) = count p (m.erase a) + if p c then 1 else 0 := by
    change List.countP _ (List.kinsert a c m.entries) = List.countP _ (List.kerase a m.entries) + _
    rw [List.kinsert_def, List.countP_cons]
  rw [hinsert, count_erase p h]
  omega

lemma count_eq_zero (p : β → Bool) {m : Table α β} :
    count p m = 0 ↔ ∀ a b, m.lookup a = some b → p b = false := by
  simp only [count, List.countP_eq_zero, lookup_eq_some_iff, Sigma.forall]
  exact ⟨fun h a b hb => by simpa using h a b hb, fun h a b hb => by simpa using h a b hb⟩

lemma count_pos (p : β → Bool) {m : Table α β} {a : α} {b : β} (h : m.lookup a = some b)
    (hp : p b = true) : 0 < count p m := by
  rw [count_erase p h, hp]
  simp

lemma count_le_count (p q : β → Bool) {m : Table α β}
    (h : ∀ a b, m.lookup a = some b → p b = true → q b = true) : count p m ≤ count q m := by
  apply List.countP_mono_left
  intro e he hp
  exact h e.1 e.2 ((lookup_eq_some_iff m e.1 e.2).mpr he) hp

def total (f : β → ℕ) (m : Table α β) : ℕ := (m.entries.map fun e => f e.2).sum

lemma total_erase (f : β → ℕ) {m : Table α β} {a : α} {b : β} (h : m.lookup a = some b) :
    total f m = total f (m.erase a) + f b := by
  have hmem : a ∈ m.entries.keys :=
    AList.mem_keys.mp (AList.lookup_isSome.mp (by rw [h]; rfl))
  obtain ⟨c, l, r, -, hentries, herase⟩ := List.exists_of_kerase hmem
  have hc : c = b := by
    have hin : (⟨a, c⟩ : Sigma fun _ : α => β) ∈ m.entries := by rw [hentries]; simp
    exact Option.some.inj (((lookup_eq_some_iff m a c).mpr hin).symm.trans h)
  change (m.entries.map _).sum = (List.map _ (List.kerase a m.entries)).sum + _
  rw [herase, hentries, hc]
  simp only [List.map_append, List.map_cons, List.sum_append, List.sum_cons]
  omega

lemma total_replace (f : β → ℕ) {m : Table α β} {a : α} {b : β} (c : β)
    (h : m.lookup a = some b) : total f (m.insert a c) + f b = total f m + f c := by
  have hinsert : total f (m.insert a c) = total f (m.erase a) + f c := by
    change (List.map _ (List.kinsert a c m.entries)).sum = (List.map _ (List.kerase a m.entries)).sum + _
    rw [List.kinsert_def, List.map_cons, List.sum_cons, Nat.add_comm]
  rw [hinsert, total_erase f h]
  omega

lemma total_congr {f g : β → ℕ} {m : Table α β} (h : ∀ a b, m.lookup a = some b → f b = g b) :
    total f m = total g m := by
  apply congrArg List.sum
  apply List.map_congr_left
  exact fun e he => h e.1 e.2 ((lookup_eq_some_iff m e.1 e.2).mpr he)

omit [DecidableEq α] in
lemma total_le {f : β → ℕ} (n : ℕ) (m : Table α β) (h : ∀ b, f b ≤ n) :
    total f m ≤ n * count (fun _ => true) m := by
  rw [total, count, List.countP_true, Nat.mul_comm, ← smul_eq_mul]
  have hle := List.sum_le_card_nsmul (m.entries.map fun e => f e.2) n fun x hx => by
    obtain ⟨e, -, rfl⟩ := List.mem_map.mp hx
    exact h e.2
  simpa using hle

end Table

end Adbfs.Library
