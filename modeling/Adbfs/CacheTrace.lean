import Adbfs.Cache
import Adbfs.Library.History
import Adbfs.Library.Paths

namespace Adbfs

open Library Library.Paths

inductive CacheOp where
  | insert (path : Text) (fileMeta : Option FileMeta)
  | get (path : Text)
  | invalidate (path : Text)
  | invalidatePrefix (path : Text)

namespace CacheOp

def path : CacheOp → Text
  | .insert p _ => p
  | .get p => p
  | .invalidate p => p
  | .invalidatePrefix p => p

def apply (now : ℕ) : CacheOp → MetadataCache → MetadataCache
  | .insert p m, c => c.insert p m now
  | .get p, c => (c.get p now).2
  | .invalidate p, c => c.invalidate p
  | .invalidatePrefix p, c => c.invalidatePrefix p

/-- The path is the other one or, component by component, an ancestor of it. -/
def Covers (q p : Text) : Prop :=
  ∃ a b, Names a ∧ Names b ∧ q = render a ∧ p = render b ∧ a <+: b

def Ends (p : Text) : CacheOp → Prop
  | .insert q _ => q = p
  | .get _ => False
  | .invalidate q => q = p
  | .invalidatePrefix q => Covers q p

end CacheOp

abbrev CacheTrace := List (ℕ × CacheOp)

namespace CacheTrace

def run (trace : CacheTrace) (c : MetadataCache) : MetadataCache :=
  trace.foldl (fun c e => e.2.apply e.1 c) c

def Latest (trace : CacheTrace) (p : Text) (m : Option FileMeta) (t : ℕ) : Prop :=
  Since (fun e => e = (t, .insert p m)) (fun e => ¬ e.2.Ends p) trace

variable {trace : CacheTrace} {p : Text} {m : Option FileMeta} {t ttl now : ℕ}

lemma run_concat (e : ℕ × CacheOp) (c : MetadataCache) :
    run (trace ++ [e]) c = e.2.apply e.1 (run trace c) := by
  rw [run, List.foldl_concat]
  rfl

lemma dirPrefix_root : MetadataCache.dirPrefix ['/'] = ['/'] := if_pos (List.suffix_refl _)

lemma not_slash_suffix_render {a : List Text} (ha : Names a) (hne : a ≠ []) :
    ¬ ['/'] <:+ render a := by
  obtain ⟨b, n, rfl⟩ := List.eq_nil_or_concat a |>.resolve_left hne
  rw [List.concat_eq_append, render_concat]
  have hn := ha n (by simp)
  intro h
  have hshort : ['/'] <:+ n := by
    apply List.suffix_of_suffix_length_le h
    · exact ⟨join b ++ ['/'], by simp⟩
    · exact List.length_pos_iff.mpr hn.1
  exact hn.2 (hshort.subset (by simp))

/-- The test on the text, for the root with its own slash, is the test on the components. -/
lemma covered_iff {q p : Text} (hq : Canonical q) (hp : Canonical p) :
    (p = q ∨ MetadataCache.dirPrefix q <+: p) ↔ CacheOp.Covers q p := by
  obtain ⟨a, ha, rfl⟩ := hq
  obtain ⟨b, hb, rfl⟩ := hp
  have hcovers : CacheOp.Covers (render a) (render b) ↔ a <+: b := by
    constructor
    · rintro ⟨a', b', ha', hb', heqa, heqb, hpre⟩
      rwa [render_injective ha ha' heqa, render_injective hb hb' heqb]
    · exact fun h => ⟨a, b, ha, hb, rfl, rfl, h⟩
  rw [hcovers]
  by_cases hne : a = []
  · subst hne
    have hroot : MetadataCache.dirPrefix (render []) <+: render b := by
      rw [render, dirPrefix_root]
      cases b with
      | nil => exact List.prefix_refl _
      | cons c b => exact ⟨c ++ join b, by simp [render, join_cons]⟩
    simp [hroot]
  · rw [MetadataCache.dirPrefix, if_neg (not_slash_suffix_render ha hne)]
    constructor
    · rintro (heq | ⟨rest, hrest⟩)
      · rw [render_injective hb ha heq]
      · rw [List.append_assoc, List.singleton_append] at hrest
        obtain ⟨s, -, rfl, -⟩ := (stripDir_render ha hne hb rest).mp hrest.symm
        exact List.prefix_append _ _
    · rintro ⟨s, rfl⟩
      by_cases hs : s = []
      · exact Or.inl (by rw [hs, List.append_nil])
      · exact Or.inr ⟨tail s, by rw [List.append_assoc, List.singleton_append, render_append hne hs]⟩

lemma lookup_apply (op : CacheOp) (c : MetadataCache) (hop : Canonical op.path) (hp : Canonical p) :
    (op.apply now c).entries.lookup p = c.entries.lookup p ∧ ¬ op.Ends p ∨
    (∃ m, op = .insert p m ∧ (op.apply now c).entries.lookup p = some ⟨m, now⟩) ∨
    (op.apply now c).entries.lookup p = none ∧
      (op.Ends p ∧ (∀ m, op ≠ .insert p m) ∨
        ¬ op.Ends p ∧ ∃ e, c.entries.lookup p = some e ∧ c.ttl < now - e.insertedAt) := by
  cases op with
  | insert q m =>
    simp only [CacheOp.apply, MetadataCache.insert, Table.lookup_insert_eq]
    by_cases hpq : p = q
    · subst hpq
      exact Or.inr (Or.inl ⟨m, rfl, if_pos rfl⟩)
    · exact Or.inl ⟨if_neg hpq, fun h => hpq h.symm⟩
  | get q =>
    simp only [CacheOp.apply, MetadataCache.get]
    cases hl : c.entries.lookup q with
    | none => exact Or.inl ⟨rfl, fun h => h⟩
    | some e =>
      dsimp only
      split_ifs with hage
      · rw [Table.lookup_erase_eq]
        by_cases hpq : p = q
        · subst hpq
          exact Or.inr (Or.inr ⟨if_pos rfl, Or.inr ⟨fun h => h, e, hl, hage⟩⟩)
        · exact Or.inl ⟨if_neg hpq, fun h => h⟩
      · exact Or.inl ⟨rfl, fun h => h⟩
  | invalidate q =>
    simp only [CacheOp.apply, MetadataCache.invalidate, Table.lookup_erase_eq]
    by_cases hpq : p = q
    · exact Or.inr (Or.inr ⟨if_pos hpq, Or.inl ⟨hpq.symm, by simp⟩⟩)
    · exact Or.inl ⟨if_neg hpq, fun h => hpq h.symm⟩
  | invalidatePrefix q =>
    have hcov := covered_iff hop hp
    simp only [CacheOp.path] at hcov
    simp only [CacheOp.apply, MetadataCache.invalidatePrefix, Table.lookup_retain]
    by_cases hc : CacheOp.Covers q p
    · refine Or.inr (Or.inr ⟨?_, Or.inl ⟨hc, by simp⟩⟩)
      rw [Option.filter_eq_none_iff]
      intro e _
      rcases hcov.mpr hc with h | h <;> simp [h]
    · refine Or.inl ⟨?_, hc⟩
      have hkeep : p ≠ q ∧ ¬ MetadataCache.dirPrefix q <+: p := by
        rw [← not_or, hcov]
        exact hc
      cases c.entries.lookup p <;> simp [hkeep]

lemma ttl_apply (op : CacheOp) (c : MetadataCache) : (op.apply now c).ttl = c.ttl := by
  cases op with
  | get q =>
    simp only [CacheOp.apply, MetadataCache.get]
    split
    · rfl
    · split_ifs <;> rfl
  | _ => rfl

/-- The table holds what the history says, except that what was found too old is gone. -/
structure Records (trace : CacheTrace) (c : MetadataCache) : Prop where
  known : ∀ p, Canonical p → ∀ e, c.entries.lookup p = some e →
    trace.Latest p e.fileMeta e.insertedAt
  lost : ∀ p, Canonical p → ∀ m t, trace.Latest p m t →
    c.entries.lookup p = some ⟨m, t⟩ ∨ ∃ e ∈ trace, c.ttl < e.1 - t

lemma records_new (ttl : ℕ) : Records [] (MetadataCache.new ttl) where
  known p _ e he := by simp [MetadataCache.new] at he
  lost p _ m t h := absurd h since_nil

lemma latest_concat {e : ℕ × CacheOp} :
    Latest (trace ++ [e]) p m t ↔ e = (t, .insert p m) ∨ ¬ e.2.Ends p ∧ trace.Latest p m t :=
  since_concat

lemma Records.apply {c : MetadataCache} (h : Records trace c) (op : CacheOp)
    (hop : Canonical op.path) : Records (trace ++ [(now, op)]) (op.apply now c) where
  known p hp e he := by
    rw [latest_concat]
    rcases @lookup_apply p now op c hop hp with ⟨heq, hkeep⟩ | ⟨m, rfl, heq⟩ | ⟨heq, -⟩
    · exact Or.inr ⟨hkeep, h.known p hp e (heq ▸ he)⟩
    · rw [heq] at he
      exact Or.inl (by rw [← Option.some.inj he])
    · simp [heq] at he
  lost p hp m t ht := by
    rw [ttl_apply]
    rcases latest_concat.mp ht with heq | ⟨hkeep, hlatest⟩
    · obtain ⟨rfl, rfl⟩ := Prod.mk.inj heq
      left
      simp only [CacheOp.apply, MetadataCache.insert, Table.lookup_insert_eq, if_pos]
    · rcases h.lost p hp m t hlatest with hlookup | ⟨e, he, hage⟩
      · rcases @lookup_apply p now op c hop hp with ⟨heq, -⟩ | ⟨m', rfl, -⟩ | ⟨-, ⟨hends, -⟩ | ⟨-, e, he, hage⟩⟩
        · exact Or.inl (heq.trans hlookup)
        · exact absurd rfl hkeep
        · exact absurd hends hkeep
        · rw [hlookup, Option.some.injEq] at he
          subst he
          exact Or.inr ⟨(now, op), by simp, hage⟩
      · exact Or.inr ⟨e, by simp [he], hage⟩

lemma records_run (trace : CacheTrace) (ttl : ℕ) (hcanon : ∀ e ∈ trace, Canonical e.2.path) :
    Records trace (trace.run (MetadataCache.new ttl)) ∧
      (trace.run (MetadataCache.new ttl)).ttl = ttl := by
  induction trace using List.reverseRecOn with
  | nil => exact ⟨records_new ttl, rfl⟩
  | append_singleton trace e ih =>
    obtain ⟨hrecords, httl⟩ := ih fun d hd => hcanon d (by simp [hd])
    rw [run_concat, ttl_apply]
    exact ⟨hrecords.apply e.2 (hcanon e (by simp)), httl⟩

lemma get_eq_some_iff {c : MetadataCache} :
    (c.get p now).1 = some m ↔
      ∃ t, c.entries.lookup p = some ⟨m, t⟩ ∧ now - t ≤ c.ttl := by
  unfold MetadataCache.get
  cases hl : c.entries.lookup p with
  | none => simp
  | some e =>
    obtain ⟨m', t⟩ := e
    dsimp only
    split_ifs with hage
    · simp only [Option.some.injEq, CacheEntry.mk.injEq]
      constructor
      · simp
      · rintro ⟨t', ⟨-, rfl⟩, hle⟩
        omega
    · simp only [Option.some.injEq, CacheEntry.mk.injEq]
      constructor
      · rintro rfl
        exact ⟨t, ⟨rfl, rfl⟩, by omega⟩
      · rintro ⟨t', ⟨rfl, -⟩, -⟩
        rfl

/-- Calls with the clock running: an answer is the value of the latest insert, not too old and
neither replaced nor invalidated since. -/
theorem get_run_eq_some_iff (ttl : ℕ) (hcanon : ∀ e ∈ trace, Canonical e.2.path)
    (hclock : (trace.map Prod.fst ++ [now]).Pairwise (· ≤ ·)) (hp : Canonical p) :
    ((trace.run (MetadataCache.new ttl)).get p now).1 = some m ↔
      ∃ before t after, trace = before ++ (t, .insert p m) :: after ∧ now - t ≤ ttl ∧
        ∀ e ∈ after, (∀ m', e.2 ≠ .insert p m') ∧ e.2 ≠ .invalidate p ∧
          ∀ q, e.2 = .invalidatePrefix q → ¬ CacheOp.Covers q p := by
  obtain ⟨hrecords, httl⟩ := records_run trace ttl hcanon
  have hpast : ∀ e ∈ trace, e.1 ≤ now := by
    intro e he
    exact (List.pairwise_append.mp hclock).2.2 e.1 (List.mem_map_of_mem he) now (by simp)
  have hkeep : ∀ op : CacheOp, ¬ op.Ends p ↔ (∀ m', op ≠ .insert p m') ∧ op ≠ .invalidate p ∧
      ∀ q, op = .invalidatePrefix q → ¬ CacheOp.Covers q p := by
    intro op
    cases op <;> simp [CacheOp.Ends]
  rw [get_eq_some_iff, httl]
  constructor
  · rintro ⟨t, hlookup, hage⟩
    obtain ⟨before, e, after, htrace, rfl, hafter⟩ := hrecords.known p hp _ hlookup
    exact ⟨before, t, after, htrace, hage, fun e he => (hkeep e.2).mp (hafter e he)⟩
  · rintro ⟨before, t, after, htrace, hage, hafter⟩
    have hlatest : trace.Latest p m t :=
      ⟨before, _, after, htrace, rfl, fun e he => (hkeep e.2).mpr (hafter e he)⟩
    rcases hrecords.lost p hp m t hlatest with hlookup | ⟨e, he, hold⟩
    · exact ⟨t, hlookup, hage⟩
    · have := hpast e he
      omega

/-- An entry is dropped with the directory above it, and one of a similar name is not. -/
theorem get_run_eq_some_iff_below_directory :
    let trace : CacheTrace := [(0, .insert "/a/b".toList none), (1, .insert "/ab".toList none),
      (2, .get "/ab".toList), (2, .invalidatePrefix "/a".toList)]
    ((trace.run (MetadataCache.new 10)).get "/ab".toList 5).1 = some none ∧
      ((trace.run (MetadataCache.new 10)).get "/a/b".toList 5).1 ≠ some none := by
  intro trace
  have hab : Canonical "/ab".toList := ⟨["ab".toList], by decide, by decide⟩
  have ha : Canonical "/a".toList := ⟨["a".toList], by decide, by decide⟩
  have ha_b : Canonical "/a/b".toList := ⟨["a".toList, "b".toList], by decide, by decide⟩
  have hcanon : ∀ e ∈ trace, Canonical e.2.path := by
    simp only [trace, List.mem_cons, List.not_mem_nil, or_false]
    rintro e (rfl | rfl | rfl | rfl)
    · exact ha_b
    · exact hab
    · exact hab
    · exact ha
  constructor
  · refine (get_run_eq_some_iff 10 hcanon (by decide) hab).mpr ⟨[(0, .insert "/a/b".toList none)], 1,
      [(2, .get "/ab".toList), (2, .invalidatePrefix "/a".toList)], rfl, by decide, ?_⟩
    intro e he
    simp only [List.mem_cons, List.not_mem_nil, or_false] at he
    rcases he with rfl | rfl
    · simp
    · simp only [ne_eq, reduceCtorEq, not_false_eq_true, implies_true, CacheOp.invalidatePrefix.injEq,
        true_and]
      rintro q rfl hcov
      have := (covered_iff ha hab).mpr hcov
      revert this
      decide
  · decide

end CacheTrace

end Adbfs
