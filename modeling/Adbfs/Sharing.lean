import Adbfs.Handlers
import Adbfs.Library.Outcome

/-! Open files that share local copies. Beneath the tables is a map from handles to inodes and, for
each inode that is open, one copy. -/

namespace Adbfs

open Library Library.Action

structure Copy where
  bytes : Option Bytes
  dirty : Bool

structure Shared where
  handles : ℕ → Option ℕ
  copies : ℕ → Option Copy

namespace Shared

def put (s : Shared) (i : ℕ) (c : Copy) : Shared :=
  { s with copies := Function.update s.copies i (some c) }

def attach (s : Shared) (fh i : ℕ) : Shared :=
  { s with handles := Function.update s.handles fh (some i) }

def detach (s : Shared) (fh : ℕ) : Shared := { s with handles := Function.update s.handles fh none }

open Classical in
/-- The copy goes with the last handle on it. -/
noncomputable def drop (s : Shared) (i : ℕ) : Shared :=
  if ∃ fh, s.handles fh = some i then s
  else { s with copies := Function.update s.copies i none }

lemma drop_of_used {s : Shared} {i fh : ℕ} (h : s.handles fh = some i) : s.drop i = s :=
  if_pos ⟨fh, h⟩

lemma drop_of_unused {s : Shared} {i : ℕ} (h : ∀ fh, s.handles fh ≠ some i) :
    s.drop i = { s with copies := Function.update s.copies i none } :=
  if_neg fun ⟨fh, hfh⟩ => h fh hfh

@[simp] lemma handles_drop (s : Shared) (i : ℕ) : (s.drop i).handles = s.handles := by
  rw [drop]
  split_ifs <;> rfl

lemma copies_drop_of_ne (s : Shared) {i j : ℕ} (h : j ≠ i) : (s.drop i).copies j = s.copies j := by
  rw [drop]
  split_ifs
  · rfl
  · exact Function.update_of_ne h _ _

lemma put_self {s : Shared} {i : ℕ} {c : Copy} (h : s.copies i = some c) : s.put i c = s := by
  rw [put, ← h, Function.update_eq_self]

@[simp] lemma put_put (s : Shared) (i : ℕ) (c d : Copy) : (s.put i c).put i d = s.put i d := by
  simp [put]

end Shared

namespace Files

def copyOf (t : Files) (i : ℕ) : Option Copy :=
  (t.openCopies.lookup i).map fun id => ⟨t.tmpDir i, (t.heap id).dirty⟩

def shared (t : Files) : Shared where
  handles fh := (t.openFiles.lookup fh).map OpenFile.ino
  copies := t.copyOf

def more (id : ℕ) (spare : ℕ → ℕ) : ℕ → ℕ := Function.update spare id (spare id + 1)

@[simp] lemma more_self (id : ℕ) (spare : ℕ → ℕ) : more id spare id = spare id + 1 :=
  Function.update_self _ _ _

lemma more_of_ne {k id : ℕ} (h : k ≠ id) (spare : ℕ → ℕ) : more id spare k = spare k :=
  Function.update_of_ne h _ _

/-- A copy has the references of its handles and spare ones: that of a request in progress, and those
left behind by requests that panicked. -/
structure WiredAt (t : Files) (spare : ℕ → ℕ) (i id : ℕ) : Prop where
  known : id < t.nextCopy
  path : (t.heap id).path = i
  pulled : (t.heap id).pulled = true
  kept : (t.heap id).evicted = false
  refs : (t.heap id).refs = t.openFiles.count (fun o => o.copy = id) + spare id
  used : 0 < (t.heap id).refs

/-- The table of copies lists those with a reference, each named after its inode; every handle has
the copy of its inode. -/
structure Wired (spare : ℕ → ℕ) (t : Files) : Prop where
  copies : ∀ i id, t.openCopies.lookup i = some id → t.WiredAt spare i id
  handles : ∀ fh o, t.openFiles.lookup fh = some o → t.openCopies.lookup o.ino = some o.copy
  spared : ∀ id, t.nextCopy ≤ id → spare id = 0

variable {t t' : Files} {spare spare' : ℕ → ℕ} {i id : ℕ}

lemma wired_new : Wired 0 Files.new where
  copies i id h := by simp [Files.new] at h
  handles fh o h := by simp [Files.new] at h
  spared _ _ := rfl

lemma Wired.copyOf_eq (h : t.Wired spare) (hi : t.openCopies.lookup i = some id) :
    t.copyOf i = some ⟨t.contents id, (t.heap id).dirty⟩ := by
  rw [copyOf, hi, contents, (h.copies i id hi).path]
  rfl

lemma Wired.id_inj (h : t.Wired spare) {j : ℕ} (hi : t.openCopies.lookup i = some id)
    (hj : t.openCopies.lookup j = some id) : j = i := by
  rw [← (h.copies i id hi).path, ← (h.copies j id hj).path]

lemma Wired.change (h : t.Wired spare) (hfiles : t'.openFiles = t.openFiles)
    (hopen : ∀ j, j ≠ i → t'.openCopies.lookup j = t.openCopies.lookup j)
    (hheap : ∀ j id, j ≠ i → t.openCopies.lookup j = some id → t'.heap id = t.heap id)
    (hnext : t.nextCopy ≤ t'.nextCopy)
    (hspare : ∀ j id, j ≠ i → t.openCopies.lookup j = some id → spare' id = spare id)
    (hspared : ∀ id, t'.nextCopy ≤ id → spare' id = 0)
    (hself : ∀ id, t'.openCopies.lookup i = some id → t'.WiredAt spare' i id)
    (hused : ∀ fh o, t.openFiles.lookup fh = some o → o.ino = i →
      t'.openCopies.lookup i = some o.copy) : t'.Wired spare' where
  copies j id hj := by
    by_cases hji : j = i
    · subst hji
      exact hself id hj
    · rw [hopen j hji] at hj
      have hw := h.copies j id hj
      have heq := hheap j id hji hj
      exact ⟨hw.known.trans_le hnext, heq ▸ hw.path, heq ▸ hw.pulled, heq ▸ hw.kept,
        by rw [heq, hfiles, hspare j id hji hj, hw.refs], heq ▸ hw.used⟩
  handles fh o ho := by
    rw [hfiles] at ho
    by_cases hoi : o.ino = i
    · rw [hoi]
      exact hused fh o ho hoi
    · rw [hopen _ hoi]
      exact h.handles fh o ho
  spared := hspared

lemma shared_change (hfiles : t'.openFiles = t.openFiles)
    (hopen : ∀ j, j ≠ i → t'.openCopies.lookup j = t.openCopies.lookup j)
    (hheap : ∀ j id, j ≠ i → t.openCopies.lookup j = some id → t'.heap id = t.heap id)
    (htmp : ∀ j, j ≠ i → t'.tmpDir j = t.tmpDir j) {s : Shared}
    (hhandles : s.handles = t.shared.handles)
    (hcopies : ∀ j, j ≠ i → s.copies j = t.shared.copies j) (hself : s.copies i = t'.copyOf i) :
    t'.shared = s := by
  have hc : t'.copyOf = s.copies := by
    funext j
    by_cases hji : j = i
    · rw [hji, hself]
    · rw [hcopies j hji]
      change t'.copyOf j = t.copyOf j
      rw [copyOf, copyOf, hopen j hji, htmp j hji]
      cases hj : t.openCopies.lookup j with
      | none => rfl
      | some id => simp only [Option.map_some, hheap j id hji hj]
  have hh : (fun fh => (t'.openFiles.lookup fh).map OpenFile.ino) = s.handles := by
    rw [hhandles, hfiles]
    rfl
  rw [shared, hc, hh]

section Edit

structure Edits (i id : ℕ) (t t' : Files) : Prop where
  files : t'.openFiles = t.openFiles
  opened : t'.openCopies = t.openCopies
  next : t'.nextCopy = t.nextCopy
  heap : ∀ k, k ≠ id → t'.heap k = t.heap k
  tmp : ∀ j, j ≠ i → t'.tmpDir j = t.tmpDir j

lemma Edits.heap_of_ne (he : Edits i id t t') (h : t.Wired spare)
    (hi : t.openCopies.lookup i = some id) (j k : ℕ) (hj : j ≠ i)
    (hk : t.openCopies.lookup j = some k) : t'.heap k = t.heap k := by
  apply he.heap
  rintro rfl
  exact hj (h.id_inj hi hk)

lemma Edits.wired (he : Edits i id t t') (h : t.Wired spare) (hi : t.openCopies.lookup i = some id)
    (hpath : (t'.heap id).path = (t.heap id).path) (hpulled : (t'.heap id).pulled = true)
    (hkept : (t'.heap id).evicted = (t.heap id).evicted)
    (hspare : ∀ k, k ≠ id → spare' k = spare k)
    (hrefs : (t'.heap id).refs + spare id = (t.heap id).refs + spare' id)
    (hused : 0 < (t'.heap id).refs) : t'.Wired spare' := by
  have hw := h.copies i id hi
  apply h.change (i := i) he.files (fun _ _ => by rw [he.opened]) (he.heap_of_ne h hi)
    he.next.ge
  · intro j k hj hk
    apply hspare
    rintro rfl
    exact hj (h.id_inj hi hk)
  · intro k hk
    rw [he.next] at hk
    have hk' : k ≠ id := (hw.known.trans_le hk).ne'
    rw [hspare k hk', h.spared k hk]
  · intro k hk
    rw [he.opened, hi, Option.some.injEq] at hk
    subst hk
    have hcount := hw.refs
    rw [← he.files] at hcount
    exact ⟨he.next ▸ hw.known, hpath.trans hw.path, hpulled, hkept.trans hw.kept, by omega, hused⟩
  · intro fh o ho hoi
    rw [he.opened, ← hoi]
    exact h.handles fh o ho

lemma Edits.shared (he : Edits i id t t') (h : t.Wired spare)
    (hi : t.openCopies.lookup i = some id) :
    t'.shared = t.shared.put i ⟨t'.tmpDir i, (t'.heap id).dirty⟩ := by
  refine shared_change (i := i) he.files (fun _ _ => by rw [he.opened]) (he.heap_of_ne h hi) he.tmp
    rfl ?_ ?_
  · exact fun j hj => Function.update_of_ne hj _ _
  · rw [copyOf, he.opened, hi]
    exact Function.update_self _ _ _

lemma edits_setCopy (i : ℕ) (f : LocalCopy → LocalCopy) : Edits i id t (t.setCopy id f) where
  files := rfl
  opened := rfl
  next := rfl
  heap _ hk := Function.update_of_ne hk _ _
  tmp _ _ := rfl

lemma edits_setLocal (id : ℕ) (c : Option Bytes) : Edits i id t (t.setLocal i c) where
  files := rfl
  opened := rfl
  next := rfl
  heap _ _ := rfl
  tmp _ hj := Function.update_of_ne hj _ _

lemma Edits.trans {t'' : Files} (he : Edits i id t t') (he' : Edits i id t' t'') :
    Edits i id t t'' where
  files := he'.files.trans he.files
  opened := he'.opened.trans he.opened
  next := he'.next.trans he.next
  heap k hk := (he'.heap k hk).trans (he.heap k hk)
  tmp j hj := (he'.tmp j hj).trans (he.tmp j hj)

end Edit

section Operations

def hold (id : ℕ) (t : Files) : Files :=
  t.setCopy id fun copy => { copy with pulled := true, refs := copy.refs + 1 }

@[simp] lemma heap_setCopy (f : LocalCopy → LocalCopy) :
    (t.setCopy id f).heap id = f (t.heap id) := Function.update_self _ _ _

lemma Wired.hold (h : t.Wired spare) (hi : t.openCopies.lookup i = some id) :
    (t.hold id).Wired (more id spare) ∧ (t.hold id).shared = t.shared := by
  rw [Files.hold]
  constructor
  · apply (edits_setCopy i _).wired h hi
    · rw [heap_setCopy]
    · rw [heap_setCopy]
    · rw [heap_setCopy]
    · exact fun k hk => more_of_ne hk spare
    · rw [heap_setCopy, more_self]
      exact Nat.add_right_comm _ _ _
    · rw [heap_setCopy]
      exact Nat.succ_pos _
  · refine ((edits_setCopy i _).shared h hi).trans (Shared.put_self ?_)
    change t.copyOf i = _
    rw [copyOf, hi, heap_setCopy]
    rfl

lemma Wired.setLocal (h : t.Wired spare) (hi : t.openCopies.lookup i = some id)
    (c : Option Bytes) : (t.setLocal i c).Wired spare ∧
      (t.setLocal i c).shared = t.shared.put i ⟨c, (t.heap id).dirty⟩ := by
  have hw := h.copies i id hi
  constructor
  · exact (edits_setLocal id c).wired h hi rfl hw.pulled rfl (fun _ _ => rfl)
      (by simp [Files.setLocal]) hw.used
  · rw [(edits_setLocal id c).shared h hi]
    simp [Files.setLocal]

lemma Wired.setDirty (h : t.Wired spare) (hi : t.openCopies.lookup i = some id) (dirty : Bool) :
    (t.setDirty id dirty).Wired spare ∧
      (t.setDirty id dirty).shared = t.shared.put i ⟨t.contents id, dirty⟩ := by
  have hw := h.copies i id hi
  rw [Files.setDirty]
  constructor
  · apply (edits_setCopy i _).wired h hi
    · rw [heap_setCopy]
    · rw [heap_setCopy]
      exact hw.pulled
    · rw [heap_setCopy]
    · exact fun _ _ => rfl
    · rw [heap_setCopy]
    · rw [heap_setCopy]
      exact hw.used
  · rw [(edits_setCopy i _).shared h hi, heap_setCopy, contents, hw.path]
    rfl

lemma Wired.fresh (h : t.Wired spare) (hi : t.openCopies.lookup i = none) {c : LocalCopy}
    (hc : c.path = i ∧ c.pulled = true ∧ c.evicted = false ∧ c.refs = 1)
    (hfiles : t'.openFiles = t.openFiles)
    (hopen : t'.openCopies = t.openCopies.insert i t.nextCopy)
    (hheap : t'.heap = Function.update t.heap t.nextCopy c) (hnext : t'.nextCopy = t.nextCopy + 1)
    (htmp : ∀ j, j ≠ i → t'.tmpDir j = t.tmpDir j) :
    t'.Wired (more t.nextCopy spare) ∧ t'.openCopies.lookup i = some t.nextCopy ∧
      t'.shared = t.shared.put i ⟨t'.tmpDir i, c.dirty⟩ := by
  have hnew : ∀ j k, t.openCopies.lookup j = some k → k ≠ t.nextCopy :=
    fun j k hk => ((h.copies j k hk).known).ne
  have hlookup : t'.openCopies.lookup i = some t.nextCopy := by
    rw [hopen, AList.lookup_insert]
  have hother : ∀ j, j ≠ i → t'.openCopies.lookup j = t.openCopies.lookup j := fun j hj => by
    rw [hopen, AList.lookup_insert_ne hj]
  have hsame : ∀ j k, j ≠ i → t.openCopies.lookup j = some k → t'.heap k = t.heap k :=
    fun j k _ hk => by rw [hheap, Function.update_of_ne (hnew j k hk)]
  have hself : t'.heap t.nextCopy = c := by rw [hheap, Function.update_self]
  refine ⟨?_, hlookup, ?_⟩
  · apply h.change hfiles hother hsame (by omega)
    · exact fun j k _ hk => more_of_ne (hnew j k hk) spare
    · intro k hk
      rw [more_of_ne (by omega), h.spared k (by omega)]
    · intro k hk
      obtain rfl : t.nextCopy = k := Option.some.inj (hlookup.symm.trans hk)
      have hzero : t.openFiles.count (fun o => o.copy = t.nextCopy) = 0 := by
        apply (Table.count_eq_zero _).mpr
        intro fh o ho
        exact decide_eq_false (hnew _ _ (h.handles fh o ho))
      refine ⟨by omega, by rw [hself, hc.1], by rw [hself, hc.2.1], by rw [hself, hc.2.2.1], ?_, ?_⟩
      · rw [hself, hc.2.2.2, hfiles, hzero, more_self, h.spared _ le_rfl]
      · rw [hself, hc.2.2.2]
        exact Nat.one_pos
    · intro fh o ho hoi
      have := h.handles fh o ho
      rw [hoi, hi] at this
      simp at this
  · refine shared_change (i := i) hfiles hother hsame htmp rfl ?_ ?_
    · exact fun j hj => Function.update_of_ne hj _ _
    · rw [copyOf, hlookup, Option.map_some, hself]
      exact Function.update_self _ _ _

lemma Wired.scrap (h : t.Wired spare) (hi : t.openCopies.lookup i = none)
    (hfiles : t'.openFiles = t.openFiles) (hopen : ∀ j, t'.openCopies.lookup j = t.openCopies.lookup j)
    (hheap : ∀ k, k ≠ t.nextCopy → t'.heap k = t.heap k) (hnext : t.nextCopy ≤ t'.nextCopy)
    (htmp : ∀ j, j ≠ i → t'.tmpDir j = t.tmpDir j) :
    t'.Wired spare ∧ t'.shared = t.shared := by
  have hsame : ∀ j k, j ≠ i → t.openCopies.lookup j = some k → t'.heap k = t.heap k :=
    fun j k _ hk => hheap k ((h.copies j k hk).known).ne
  constructor
  · apply h.change hfiles (fun j _ => hopen j) hsame hnext (fun _ _ _ _ => rfl)
      fun id hid => h.spared id (hnext.trans hid)
    · intro k hk
      rw [hopen, hi] at hk
      simp at hk
    · intro fh o ho hoi
      have := h.handles fh o ho
      rw [hoi, hi] at this
      simp at this
  · refine shared_change (i := i) hfiles (fun j _ => hopen j) hsame htmp rfl (fun _ _ => rfl) ?_
    change t.copyOf i = _
    rw [copyOf, copyOf, hopen, hi]
    rfl

lemma Wired.attach (h : t.Wired (more id spare)) (hi : t.openCopies.lookup i = some id) {fh : ℕ}
    (hfh : t.openFiles.lookup fh = none) :
    let t' := { t with openFiles := t.openFiles.insert fh ⟨i, id⟩ }
    t'.Wired spare ∧ t'.shared = t.shared.attach fh i := by
  intro t'
  constructor
  · constructor
    · intro j k hk
      have hw := h.copies j k hk
      refine ⟨hw.known, hw.path, hw.pulled, hw.kept, ?_, hw.used⟩
      have hcount : t'.openFiles.count (fun o => o.copy = k) = _ := Table.count_insert _ _ hfh
      rw [hcount, show (t'.heap k).refs = (t.heap k).refs from rfl, hw.refs]
      by_cases hk : id = k
      · subst hk
        simp [Nat.add_right_comm, Nat.add_assoc]
      · simp [hk, more_of_ne (Ne.symm hk)]
    · intro g o ho
      change (t.openFiles.insert fh ⟨i, id⟩).lookup g = some o at ho
      rw [Table.lookup_insert_eq] at ho
      split_ifs at ho
      · rw [← Option.some.inj ho]
        exact hi
      · exact h.handles g o ho
    · intro k hk
      have hne : k ≠ id := (((h.copies i id hi).known).trans_le hk).ne'
      rw [← h.spared k hk, more_of_ne hne]
  · have hh : (fun g => (t'.openFiles.lookup g).map OpenFile.ino) =
        Function.update t.shared.handles fh (some i) := by
      funext g
      change ((t.openFiles.insert fh ⟨i, id⟩).lookup g).map OpenFile.ino = _
      rw [Table.lookup_insert_eq, Function.update_apply]
      split_ifs <;> rfl
    rw [Shared.attach, ← hh]
    rfl

lemma Wired.detach (h : t.Wired spare) {fh : ℕ} (hfh : t.openFiles.lookup fh = some ⟨i, id⟩) :
    let t' := { t with openFiles := t.openFiles.erase fh }
    t'.Wired (more id spare) ∧ t'.openCopies.lookup i = some id ∧ t'.shared = t.shared.detach fh := by
  intro t'
  refine ⟨?_, h.handles fh _ hfh, ?_⟩
  · constructor
    · intro j k hk
      have hw := h.copies j k hk
      refine ⟨hw.known, hw.path, hw.pulled, hw.kept, ?_, hw.used⟩
      have hcount := Table.count_erase (fun o : OpenFile => decide (o.copy = k)) hfh
      rw [show (t'.heap k).refs = (t.heap k).refs from rfl, hw.refs, hcount]
      by_cases hk : id = k
      · subst hk
        simp [t', Nat.add_right_comm, Nat.add_assoc]
      · simp [t', hk, more_of_ne (Ne.symm hk)]
    · intro g o ho
      change (t.openFiles.erase fh).lookup g = some o at ho
      rw [Table.lookup_erase_eq] at ho
      split_ifs at ho
      exact h.handles g o ho
    · intro k hk
      have hne : k ≠ id := (((h.copies i id (h.handles fh _ hfh)).known).trans_le hk).ne'
      rw [more_of_ne hne, h.spared k hk]
  · have hh : (fun g => (t'.openFiles.lookup g).map OpenFile.ino) =
        Function.update t.shared.handles fh none := by
      funext g
      change ((t.openFiles.erase fh).lookup g).map OpenFile.ino = _
      rw [Table.lookup_erase_eq, Function.update_apply]
      split_ifs <;> rfl
    rw [Shared.detach, ← hh]
    rfl

lemma Wired.copy_iff (h : t.Wired spare) (hi : t.openCopies.lookup i = some id) {fh : ℕ}
    {o : OpenFile} (ho : t.openFiles.lookup fh = some o) : o.copy = id ↔ o.ino = i := by
  have hcopy := h.handles fh o ho
  constructor
  · rintro rfl
    exact h.id_inj hi hcopy
  · rintro rfl
    exact Option.some.inj (hcopy.symm.trans hi)

lemma Wired.count_eq_zero (h : t.Wired spare) (hi : t.openCopies.lookup i = some id) :
    t.openFiles.count (fun o => o.copy = id) = 0 ↔ ∀ fh, t.shared.handles fh ≠ some i := by
  rw [Table.count_eq_zero]
  constructor
  · intro hcount fh hfh
    obtain ⟨o, ho, hoi⟩ := Option.map_eq_some_iff.mp hfh
    have := hcount fh o ho
    rw [decide_eq_false_iff_not, h.copy_iff hi ho] at this
    exact this hoi
  · intro hnone fh o ho
    rw [decide_eq_false_iff_not, h.copy_iff hi ho]
    intro hoi
    apply hnone fh
    change (t.openFiles.lookup fh).map OpenFile.ino = some i
    rw [ho, ← hoi]
    rfl

lemma Wired.refs_pos (h : t.Wired spare) (hi : t.openCopies.lookup i = some id) :
    (t.heap id).refs ≠ 0 := (h.copies i id hi).used.ne'

section Release

structure Gone (i id : ℕ) (t t' : Files) : Prop where
  files : t'.openFiles = t.openFiles
  opened : t'.openCopies = t.openCopies.erase i
  next : t'.nextCopy = t.nextCopy
  heap : ∀ k, k ≠ id → t'.heap k = t.heap k
  tmp : ∀ j, j ≠ i → t'.tmpDir j = t.tmpDir j

lemma Gone.wired (hg : Gone i id t t') (h : t.Wired (more id spare))
    (hi : t.openCopies.lookup i = some id) (hunused : ∀ fh, t.shared.handles fh ≠ some i) :
    t'.Wired spare ∧ t'.shared = t.shared.drop i := by
  have hother : ∀ j, j ≠ i → t'.openCopies.lookup j = t.openCopies.lookup j := fun j hj => by
    rw [hg.opened, AList.lookup_erase_ne hj]
  have hne : ∀ j k, j ≠ i → t.openCopies.lookup j = some k → k ≠ id := by
    rintro j k hj hk rfl
    exact hj (h.id_inj hi hk)
  have hsame : ∀ j k, j ≠ i → t.openCopies.lookup j = some k → t'.heap k = t.heap k :=
    fun j k hj hk => hg.heap k (hne j k hj hk)
  have hgone : t'.openCopies.lookup i = none := by rw [hg.opened, AList.lookup_erase]
  constructor
  · apply h.change hg.files hother hsame hg.next.ge
    · exact fun j k hj hk => (more_of_ne (hne j k hj hk) spare).symm
    · intro k hk
      rw [hg.next] at hk
      rw [← h.spared k hk, more_of_ne ((h.copies i id hi).known.trans_le hk).ne']
    · intro k hk
      rw [hgone] at hk
      simp at hk
    · intro fh o ho hoi
      refine absurd ?_ (hunused fh)
      change (t.openFiles.lookup fh).map OpenFile.ino = some i
      rw [ho, ← hoi]
      rfl
  · rw [Shared.drop_of_unused hunused]
    refine shared_change (i := i) hg.files hother hsame hg.tmp rfl ?_ ?_
    · exact fun j hj => Function.update_of_ne hj _ _
    · rw [copyOf, hgone]
      exact Function.update_self _ _ _

lemma evict_of_lookup (hi : t.openCopies.lookup i = some id) :
    t.evict i id = { t.setCopy id fun copy => { copy with evicted := true } with
      openCopies := t.openCopies.erase i } := by
  have hin : (t.setCopy id fun copy => { copy with evicted := true }).openCopies.lookup i =
      some id := hi
  rw [evict, removeCopy, if_pos hin]
  rfl

lemma gone_releaseCopy (h : t.Wired spare) (hi : t.openCopies.lookup i = some id)
    (hrefs : (t.heap id).refs - 1 = 0) (remove : Bool) : Gone i id t (t.releaseCopy remove i id) := by
  rw [Files.releaseCopy]
  generalize hlowered : (t.setCopy id fun copy => { copy with refs := copy.refs - 1 }) = t₁
  have hedit : Edits i id t t₁ := hlowered ▸ edits_setCopy i _
  have hself : t₁.heap id = { t.heap id with refs := (t.heap id).refs - 1 } := by
    rw [← hlowered, heap_setCopy]
  have hi₁ : t₁.openCopies.lookup i = some id := by rw [hedit.opened, hi]
  have hgone : Gone i id t (t₁.evict i id) := by
    rw [evict_of_lookup hi₁]
    exact ⟨hedit.files, congrArg (AList.erase i) hedit.opened, hedit.next,
      fun k hk => (Function.update_of_ne hk _ _).trans (hedit.heap k hk), hedit.tmp⟩
  have hpath : ((t₁.evict i id).heap id).path = i := by
    rw [evict_of_lookup hi₁]
    have hmarked : (t₁.setCopy id fun copy => { copy with evicted := true }).heap id = _ :=
      heap_setCopy _
    refine (congrArg LocalCopy.path hmarked).trans ?_
    rw [hself]
    exact (h.copies i id hi).path
  have hzero : (t₁.heap id).refs = 0 := by
    rw [hself]
    exact hrefs
  dsimp only
  rw [if_pos hzero, hpath]
  split_ifs
  · exact ⟨hgone.files, hgone.opened, hgone.next, hgone.heap,
      fun j hj => (Function.update_of_ne hj _ _).trans (hgone.tmp j hj)⟩
  · exact hgone

lemma releaseCopy_of_used (hrefs : (t.heap id).refs - 1 ≠ 0) (remove : Bool) :
    t.releaseCopy remove i id = t.setCopy id fun copy => { copy with refs := copy.refs - 1 } := by
  have hzero : ((t.setCopy id fun copy => { copy with refs := copy.refs - 1 }).heap id).refs ≠ 0 := by
    rw [heap_setCopy]
    exact hrefs
  rw [Files.releaseCopy]
  exact if_neg hzero

lemma Wired.release (h : t.Wired (more id spare)) (hi : t.openCopies.lookup i = some id)
    (remove : Bool) : (t.releaseCopy remove i id).Wired spare ∧
      ((t.releaseCopy remove i id).shared = t.shared.drop i ∨
        spare id ≠ 0 ∧ (t.releaseCopy remove i id).shared = t.shared) := by
  have hw := h.copies i id hi
  have hrefs : (t.heap id).refs - 1 = t.openFiles.count (fun o => o.copy = id) + spare id := by
    rw [hw.refs, more_self]
    rfl
  have hcount := h.count_eq_zero hi
  by_cases hzero : (t.heap id).refs - 1 = 0
  · have hunused := hcount.mp (by omega)
    obtain ⟨hwired, hshared⟩ := (gone_releaseCopy h hi hzero remove).wired h hi hunused
    exact ⟨hwired, Or.inl hshared⟩
  · rw [releaseCopy_of_used hzero]
    have hsame : (t.setCopy id fun copy => { copy with refs := copy.refs - 1 }).shared = t.shared := by
      refine ((edits_setCopy i _).shared h hi).trans (Shared.put_self ?_)
      change t.copyOf i = _
      rw [copyOf, hi, heap_setCopy]
      rfl
    constructor
    · apply (edits_setCopy i _).wired h hi
      · rw [heap_setCopy]
      · rw [heap_setCopy]
        exact hw.pulled
      · rw [heap_setCopy]
      · exact fun k hk => (more_of_ne hk spare).symm
      · rw [heap_setCopy, more_self]
        dsimp only
        omega
      · rw [heap_setCopy]
        exact Nat.pos_of_ne_zero hzero
    · rw [hsame]
      by_cases hspare : spare id = 0
      · have hused : ∃ fh, t.shared.handles fh = some i := by
          by_contra hnone
          push Not at hnone
          have := hcount.mpr hnone
          omega
        obtain ⟨fh, hfh⟩ := hused
        exact Or.inl (Shared.drop_of_used hfh).symm
      · exact Or.inr ⟨hspare, rfl⟩

end Release

end Operations

end Files

end Adbfs
