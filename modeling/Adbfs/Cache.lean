import Adbfs.Library.Table
import Adbfs.Parse

namespace Adbfs

open Library

structure CacheEntry where
  fileMeta : Option FileMeta
  insertedAt : ℕ

structure MetadataCache where
  entries : Table Text CacheEntry
  ttl : ℕ

namespace MetadataCache

def new (ttl : ℕ) : MetadataCache := ⟨∅, ttl⟩

def get (path : Text) (now : ℕ) (c : MetadataCache) :
    Option (Option FileMeta) × MetadataCache :=
  match c.entries.lookup path with
  | none => (none, c)
  | some entry =>
    if c.ttl < now - entry.insertedAt then (none, { c with entries := c.entries.erase path })
    else (some entry.fileMeta, c)

def insert (path : Text) (fileMeta : Option FileMeta) (now : ℕ) (c : MetadataCache) :
    MetadataCache :=
  { c with entries := c.entries.insert path ⟨fileMeta, now⟩ }

def invalidate (path : Text) (c : MetadataCache) : MetadataCache :=
  { c with entries := c.entries.erase path }

def dirPrefix (path : Text) : Text := if ['/'] <:+ path then path else path ++ ['/']

def invalidatePrefix (path : Text) (c : MetadataCache) : MetadataCache :=
  { c with
    entries := c.entries.retain fun key _ => decide (key ≠ path ∧ ¬ dirPrefix path <+: key) }

def peek (c : MetadataCache) (path : Text) : Option (Option FileMeta) :=
  (c.entries.lookup path).map CacheEntry.fileMeta

lemma peek_insert (c : MetadataCache) (p q : Text) (m : Option FileMeta) (now : ℕ) :
    (c.insert p m now).peek q = if q = p then some m else c.peek q := by
  simp only [peek, insert, Table.lookup_insert_eq]
  split_ifs <;> rfl

lemma peek_invalidate (c : MetadataCache) (p q : Text) :
    (c.invalidate p).peek q = if q = p then none else c.peek q := by
  simp only [peek, invalidate, Table.lookup_erase_eq]
  split_ifs <;> rfl

lemma peek_invalidate_of_some {c : MetadataCache} {p q : Text} {e : Option FileMeta}
    (he : (c.invalidate p).peek q = some e) : c.peek q = some e ∧ q ≠ p := by
  rw [peek_invalidate] at he
  split_ifs at he with hq
  exact ⟨he, hq⟩

lemma peek_invalidatePrefix (c : MetadataCache) (p q : Text) :
    (c.invalidatePrefix p).peek q =
      if q = p ∨ dirPrefix p <+: q then none else c.peek q := by
  have hkeep : (q ≠ p ∧ ¬ dirPrefix p <+: q) ↔ ¬ (q = p ∨ dirPrefix p <+: q) := not_or.symm
  simp only [peek, invalidatePrefix, Table.lookup_retain, hkeep]
  split_ifs with hq
  · cases c.entries.lookup q <;> simp [hq]
  · cases c.entries.lookup q <;> simp [hq]

lemma peek_invalidatePrefix_of_some {c : MetadataCache} {p q : Text} {e : Option FileMeta}
    (he : (c.invalidatePrefix p).peek q = some e) :
    c.peek q = some e ∧ q ≠ p ∧ ¬ dirPrefix p <+: q := by
  rw [MetadataCache.peek_invalidatePrefix] at he
  split_ifs at he with hq
  push Not at hq
  exact ⟨he, hq⟩

lemma get_cases (c : MetadataCache) (p : Text) (now : ℕ) :
    (∃ m, c.get p now = (some m, c) ∧ c.peek p = some m) ∨
      ((c.get p now).1 = none ∧
        ((c.get p now).2 = c ∨ (c.get p now).2 = c.invalidate p)) := by
  unfold get peek
  cases hl : c.entries.lookup p with
  | none => exact Or.inr ⟨rfl, Or.inl rfl⟩
  | some entry =>
    by_cases hage : c.ttl < now - entry.insertedAt
    · simp only [if_pos hage]
      exact Or.inr ⟨trivial, Or.inr rfl⟩
    · simp only [if_neg hage]
      exact Or.inl ⟨entry.fileMeta, rfl, rfl⟩

lemma get_of_some {c : MetadataCache} {p : Text} {now : ℕ} {m : Option FileMeta}
    (h : (c.get p now).1 = some m) :
    ∃ e, c.entries.lookup p = some e ∧ e.fileMeta = m ∧ now - e.insertedAt ≤ c.ttl := by
  unfold get at h
  cases hl : c.entries.lookup p with
  | none => simp [hl] at h
  | some e =>
    by_cases hage : c.ttl < now - e.insertedAt
    · simp [hl, hage] at h
    · simp only [hl, if_neg hage, Option.some.injEq] at h
      exact ⟨e, rfl, h, Nat.le_of_not_lt hage⟩

lemma peek_of_peek_get (c : MetadataCache) {p q : Text} {now : ℕ} {m : Option FileMeta}
    (h : (c.get p now).2.peek q = some m) : c.peek q = some m := by
  rcases c.get_cases p now with ⟨m', heq, -⟩ | ⟨-, heq | heq⟩
  · rwa [heq] at h
  · rwa [heq] at h
  · rw [heq, peek_invalidate] at h
    split_ifs at h
    exact h

end MetadataCache

end Adbfs
