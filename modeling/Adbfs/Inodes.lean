import Adbfs.Library.Paths
import Adbfs.Library.Table

namespace Adbfs

open Library Library.Paths

abbrev InoEntry := Σ _ : Text, ℕ

structure Inodes where
  pathToIno : Table Text ℕ
  inoToPath : Table ℕ Text
  nextIno : ℕ

namespace Inodes

def rootIno : ℕ := 1

def new : Inodes where
  pathToIno := AList.singleton ['/'] rootIno
  inoToPath := AList.singleton rootIno ['/']
  nextIno := rootIno + 1

def getPath (t : Inodes) (ino : ℕ) : Option Text := t.inoToPath.lookup ino

def getOrAssignIno (path : Text) (t : Inodes) : ℕ × Inodes :=
  match t.pathToIno.lookup path with
  | some ino => (ino, t)
  | none =>
    let ino := t.nextIno
    (ino, ⟨t.pathToIno.insert path ino, t.inoToPath.insert ino path, t.nextIno + 1⟩)

def newPath (source target old : Text) : Text :=
  match (source ++ ['/']).isPrefixOf? old with
  | some rest => target ++ '/' :: rest
  | none => target

def rekeyOne (source target : Text) (t : Inodes) (e : InoEntry) : Inodes :=
  let new := newPath source target e.1
  let paths := t.pathToIno.erase e.1
  match paths.lookup new with
  | some replaced =>
    { t with
      pathToIno := (paths.erase new).insert new e.2
      inoToPath := (t.inoToPath.erase replaced).insert e.2 new }
  | none =>
    { t with
      pathToIno := paths.insert new e.2
      inoToPath := t.inoToPath.insert e.2 new }

def rekeyPaths (order : IterOrder InoEntry) (source target : Text) (t : Inodes) : Inodes :=
  let moved := (order.visit t.pathToIno.entries).filter fun e =>
    e.1 = source ∨ (source ++ ['/']) <+: e.1
  moved.foldl (rekeyOne source target) t

/-- The tables are inverse to each other and hold canonical paths and numbers already handed out. -/
structure WF (t : Inodes) : Prop where
  inverse : ∀ p i, t.pathToIno.lookup p = some i ↔ t.inoToPath.lookup i = some p
  root : t.inoToPath.lookup rootIno = some ['/']
  bounded : ∀ i p, t.inoToPath.lookup i = some p → i < t.nextIno
  canonical : ∀ i p, t.inoToPath.lookup i = some p → Canonical p

lemma wf_new : WF new where
  inverse p i := by
    simp only [new, Table.lookup_eq_some_iff, AList.singleton_entries, List.mem_singleton,
      Sigma.mk.injEq, heq_eq_eq]
    exact and_comm
  root := rfl
  bounded i p h := by
    simp only [new, Table.lookup_eq_some_iff, AList.singleton_entries, List.mem_singleton,
      Sigma.mk.injEq, heq_eq_eq] at h
    simp [new, h.1]
  canonical i p h := by
    simp only [new, Table.lookup_eq_some_iff, AList.singleton_entries, List.mem_singleton,
      Sigma.mk.injEq, heq_eq_eq] at h
    exact ⟨[], by simp [Names], h.2⟩

lemma getOrAssignIno_of_some {t : Inodes} {path : Text} {ino : ℕ}
    (h : t.pathToIno.lookup path = some ino) : getOrAssignIno path t = (ino, t) := by
  simp [getOrAssignIno, h]

lemma getOrAssignIno_of_none {t : Inodes} {path : Text} (h : t.pathToIno.lookup path = none) :
    getOrAssignIno path t =
      (t.nextIno, ⟨t.pathToIno.insert path t.nextIno, t.inoToPath.insert t.nextIno path,
        t.nextIno + 1⟩) := by
  simp [getOrAssignIno, h]

lemma WF.unassigned {t : Inodes} (h : WF t) : t.inoToPath.lookup t.nextIno = none := by
  by_contra hne
  obtain ⟨p, hp⟩ := Option.ne_none_iff_exists'.mp hne
  exact lt_irrefl _ (h.bounded _ _ hp)

lemma WF.getOrAssignIno {t : Inodes} (h : WF t) {path : Text} (hp : Canonical path) :
    WF (getOrAssignIno path t).2 := by
  cases hl : t.pathToIno.lookup path with
  | some ino => rwa [getOrAssignIno_of_some hl]
  | none =>
    rw [getOrAssignIno_of_none hl]
    constructor
    · intro p i
      simp only [Table.lookup_insert_eq]
      by_cases hp' : p = path <;> by_cases hi : i = t.nextIno
      · simp only [hp', hi, if_pos]
      · subst hp'
        have hne : t.inoToPath.lookup i ≠ some p := by
          rw [Ne, ← h.inverse, hl]
          simp
        simp only [if_pos, if_neg hi, hne, iff_false, Option.some.injEq]
        exact Ne.symm hi
      · subst hi
        have hne : t.pathToIno.lookup p ≠ some t.nextIno := by
          rw [Ne, h.inverse, h.unassigned]
          simp
        simp only [if_pos, if_neg hp', hne, false_iff, Option.some.injEq]
        exact Ne.symm hp'
      · rw [if_neg hp', if_neg hi]
        exact h.inverse p i
    · simp only [Table.lookup_insert_eq]
      rw [if_neg (Nat.ne_of_lt (h.bounded _ _ h.root)), h.root]
    · intro i p
      simp only [Table.lookup_insert_eq]
      split_ifs with h1
      · intro _
        omega
      · intro hi
        exact Nat.lt_succ_of_lt (h.bounded i p hi)
    · intro i p
      simp only [Table.lookup_insert_eq]
      split_ifs with h1
      · intro hi
        exact Option.some.inj hi ▸ hp
      · exact h.canonical i p

section Rekey

variable {source target : Text}

lemma rekeyOne_pathToIno {t : Inodes} {e : InoEntry} (p : Text) :
    (rekeyOne source target t e).pathToIno.lookup p =
      if p = newPath source target e.1 then some e.2
      else if p = e.1 then none else t.pathToIno.lookup p := by
  unfold rekeyOne
  dsimp only
  split
  · simp only [Table.lookup_insert_eq, Table.lookup_erase_eq]
    split_ifs <;> rfl
  · simp only [Table.lookup_insert_eq, Table.lookup_erase_eq]

lemma rekeyOne_inoToPath {t : Inodes} {e : InoEntry} (hne : newPath source target e.1 ≠ e.1)
    (j : ℕ) :
    (rekeyOne source target t e).inoToPath.lookup j =
      if j = e.2 then some (newPath source target e.1)
      else if t.pathToIno.lookup (newPath source target e.1) = some j then none
      else t.inoToPath.lookup j := by
  unfold rekeyOne
  dsimp only
  rw [Table.lookup_erase_eq, if_neg hne]
  cases hl : t.pathToIno.lookup (newPath source target e.1) with
  | none => simp [Table.lookup_insert_eq]
  | some replaced =>
    simp only [Table.lookup_insert_eq, Table.lookup_erase_eq, Option.some.injEq,
      eq_comm (a := replaced)]

structure Batch (new : Text → Text) (l : List InoEntry) (t : Inodes) : Prop where
  nodup : l.Nodup
  target_inj : ∀ e ∈ l, ∀ e' ∈ l, new e.1 = new e'.1 → e = e'
  ino_inj : ∀ e ∈ l, ∀ e' ∈ l, e.2 = e'.2 → e = e'
  clear : ∀ e ∈ l, ∀ e' ∈ l, new e.1 ≠ e'.1
  sole : ∀ e ∈ l, ∀ p, t.pathToIno.lookup p = some e.2 → p = e.1

structure Rekeyed (new : Text → Text) (l : List InoEntry) (t u : Inodes) : Prop where
  path_new : ∀ e ∈ l, u.pathToIno.lookup (new e.1) = some e.2
  path_old : ∀ e ∈ l, u.pathToIno.lookup e.1 = none
  path_other : ∀ p, (∀ e ∈ l, p ≠ e.1 ∧ p ≠ new e.1) →
    u.pathToIno.lookup p = t.pathToIno.lookup p
  ino_new : ∀ e ∈ l, u.inoToPath.lookup e.2 = some (new e.1)
  ino_gone : ∀ j, (∀ e ∈ l, j ≠ e.2) → ∀ e ∈ l, t.pathToIno.lookup (new e.1) = some j →
    u.inoToPath.lookup j = none
  ino_other : ∀ j, (∀ e ∈ l, j ≠ e.2 ∧ t.pathToIno.lookup (new e.1) ≠ some j) →
    u.inoToPath.lookup j = t.inoToPath.lookup j
  next : u.nextIno = t.nextIno

lemma rekeyOne_nextIno (t : Inodes) (e : InoEntry) :
    (rekeyOne source target t e).nextIno = t.nextIno := by
  unfold rekeyOne
  dsimp only
  split <;> rfl

lemma Batch.tail {e : InoEntry} {l : List InoEntry} {t : Inodes}
    (h : Batch (newPath source target) (e :: l) t) :
    Batch (newPath source target) l (rekeyOne source target t e) where
  nodup := h.nodup.of_cons
  target_inj a ha b hb := h.target_inj a (List.mem_cons_of_mem _ ha) b (List.mem_cons_of_mem _ hb)
  ino_inj a ha b hb := h.ino_inj a (List.mem_cons_of_mem _ ha) b (List.mem_cons_of_mem _ hb)
  clear a ha b hb := h.clear a (List.mem_cons_of_mem _ ha) b (List.mem_cons_of_mem _ hb)
  sole a ha p hp := by
    rw [rekeyOne_pathToIno] at hp
    split_ifs at hp with h1 h2
    · have hae : e = a := h.ino_inj e (by simp) a (List.mem_cons_of_mem _ ha) (Option.some.inj hp)
      exact absurd (hae ▸ ha) (List.nodup_cons.mp h.nodup).1
    · exact h.sole a (List.mem_cons_of_mem _ ha) p hp

lemma foldl_rekeyOne {l : List InoEntry} {t : Inodes} (h : Batch (newPath source target) l t) :
    Rekeyed (newPath source target) l t (l.foldl (rekeyOne source target) t) := by
  induction l generalizing t with
  | nil =>
    constructor <;> simp
  | cons e l ih =>
    have hr := ih h.tail
    have hself : newPath source target e.1 ≠ e.1 := h.clear e (by simp) e (by simp)
    have hmem : ∀ a ∈ l, a ∈ e :: l := fun a ha => List.mem_cons_of_mem _ ha
    have hnot : ∀ a ∈ l, a ≠ e := fun a ha hae =>
      (List.nodup_cons.mp h.nodup).1 (hae ▸ ha)
    rw [List.foldl_cons]
    constructor
    · intro a ha
      rcases List.mem_cons.mp ha with rfl | ha
      · rw [hr.path_other, rekeyOne_pathToIno, if_pos rfl]
        exact fun b hb => ⟨h.clear a (by simp) b (hmem b hb),
          fun heq => hnot b hb (h.target_inj a (by simp) b (hmem b hb) heq).symm⟩
      · exact hr.path_new a ha
    · intro a ha
      rcases List.mem_cons.mp ha with rfl | ha
      · by_cases hk : ∃ b ∈ l, a.1 = b.1
        · obtain ⟨b, hb, hab⟩ := hk
          rw [hab]
          exact hr.path_old b hb
        · push Not at hk
          rw [hr.path_other, rekeyOne_pathToIno, if_neg hself.symm, if_pos rfl]
          exact fun b hb => ⟨hk b hb, (h.clear b (hmem b hb) a (by simp)).symm⟩
      · exact hr.path_old a ha
    · intro p hp
      rw [hr.path_other p (fun a ha => hp a (hmem a ha)), rekeyOne_pathToIno,
        if_neg (hp e (by simp)).2, if_neg (hp e (by simp)).1]
    · intro a ha
      rcases List.mem_cons.mp ha with rfl | ha
      · rw [hr.ino_other, rekeyOne_inoToPath hself, if_pos rfl]
        intro b hb
        have hne : a.2 ≠ b.2 := fun heq =>
          hnot b hb (h.ino_inj a (by simp) b (hmem b hb) heq).symm
        refine ⟨hne, ?_⟩
        rw [rekeyOne_pathToIno]
        split_ifs with h1 h2
        · exact absurd (h.target_inj b (hmem b hb) a (by simp) h1) (hnot b hb)
        · simp
        · exact fun hl => h2 (h.sole a (by simp) _ hl)
      · exact hr.ino_new a ha
    · intro j hj a ha hl
      have hje : j ≠ e.2 := hj e (by simp)
      rcases List.mem_cons.mp ha with rfl | ha
      · by_cases hk : ∃ b ∈ l,
            (rekeyOne source target t a).pathToIno.lookup (newPath source target b.1) = some j
        · obtain ⟨b, hb, hlb⟩ := hk
          exact hr.ino_gone j (fun c hc => hj c (hmem c hc)) b hb hlb
        · push Not at hk
          rw [hr.ino_other j (fun b hb => ⟨hj b (hmem b hb), hk b hb⟩),
            rekeyOne_inoToPath hself, if_neg hje, if_pos hl]
      · apply hr.ino_gone j (fun c hc => hj c (hmem c hc)) a ha
        rw [rekeyOne_pathToIno, if_neg, if_neg (h.clear a (hmem a ha) e (by simp)), hl]
        exact fun heq => hnot a ha (h.target_inj a (hmem a ha) e (by simp) heq)
    · intro j hj
      have hje := hj e (by simp)
      rw [hr.ino_other j, rekeyOne_inoToPath hself, if_neg hje.1, if_neg hje.2]
      intro a ha
      refine ⟨(hj a (hmem a ha)).1, ?_⟩
      rw [rekeyOne_pathToIno]
      split_ifs with h1 h2
      · exact fun heq => hje.1 (Option.some.inj heq).symm
      · simp
      · exact (hj a (hmem a ha)).2
    · rw [hr.next, rekeyOne_nextIno]

lemma newPath_self : newPath source target source = target := by
  have hlen : (source ++ ['/']).isPrefixOf? source = none := by
    by_contra hne
    obtain ⟨t, ht⟩ := Option.ne_none_iff_exists'.mp hne
    have := congrArg List.length (isPrefixOf?_eq_some.mp ht)
    simp at this
  simp [newPath, hlen]

lemma rebase_eq_some_iff (p r : Text) :
    rebase source target p = some r ↔
      (p = source ∨ (source ++ ['/']) <+: p) ∧ newPath source target p = r := by
  unfold rebase
  split_ifs with h
  · rw [h, newPath_self]
    simp
  · unfold newPath
    cases hl : (source ++ ['/']).isPrefixOf? p with
    | some rest =>
      have hp : (source ++ ['/']) <+: p := ⟨rest, (isPrefixOf?_eq_some.mp hl).symm⟩
      simp [hp]
    | none =>
      have hp : ¬ (source ++ ['/']) <+: p := by
        rintro ⟨rest, rfl⟩
        rw [isPrefixOf?_eq_some.mpr rfl] at hl
        simp at hl
      simp [h, hp]

def movedEntries (order : IterOrder InoEntry) (source : Text) (t : Inodes) : List InoEntry :=
  (order.visit t.pathToIno.entries).filter fun e => e.1 = source ∨ (source ++ ['/']) <+: e.1

variable {t : Inodes} {f g : List Text} (order : IterOrder InoEntry)

lemma mem_movedEntries (e : InoEntry) :
    e ∈ movedEntries order source t ↔
      t.pathToIno.lookup e.1 = some e.2 ∧ (e.1 = source ∨ (source ++ ['/']) <+: e.1) := by
  rw [movedEntries, List.mem_filter, (order.perm _).mem_iff, Table.lookup_eq_some_iff]
  simp

lemma WF.canonical_path (h : WF t) {p : Text} {i : ℕ} (hl : t.pathToIno.lookup p = some i) :
    Canonical p :=
  h.canonical i p ((h.inverse p i).mp hl)

lemma WF.path_unique (h : WF t) {p q : Text} {i : ℕ} (hp : t.pathToIno.lookup p = some i)
    (hq : t.pathToIno.lookup q = some i) : p = q := by
  rw [h.inverse] at hp hq
  exact Option.some.inj (hp.symm.trans hq)

lemma WF.moved_suffix (h : WF t) (hf : Names f) (ha : Apart f g) {e : InoEntry}
    (he : e ∈ movedEntries order (render f) t) :
    ∃ s, Names s ∧ e.1 = render (f ++ s) ∧
      newPath (render f) (render g) e.1 = render (g ++ s) := by
  obtain ⟨hl, hm⟩ := (mem_movedEntries order e).mp he
  obtain ⟨q, hq, heq⟩ := h.canonical_path hl
  have hr := (rebase_eq_some_iff e.1 (newPath (render f) (render g) e.1)).mpr ⟨hm, rfl⟩
  rw [heq, rebase_render hf ha.ne_nil ha.symm.ne_nil hq] at hr
  obtain ⟨s, rfl, hs⟩ := hr
  exact ⟨s, hq.right, heq, by rw [heq, hs]⟩

lemma mem_movedEntries_render (hf : Names f) (ha : Apart f g) {s : List Text} (hs : Names s)
    {i : ℕ} (hl : t.pathToIno.lookup (render (f ++ s)) = some i) :
    ⟨render (f ++ s), i⟩ ∈ movedEntries order (render f) t ∧
      newPath (render f) (render g) (render (f ++ s)) = render (g ++ s) := by
  have hr := (rebase_render hf ha.ne_nil ha.symm.ne_nil (hf.append hs) (render (g ++ s))).mpr
    ⟨s, rfl, rfl⟩
  obtain ⟨hm, hn⟩ := (rebase_eq_some_iff _ _).mp hr
  exact ⟨(mem_movedEntries order _).mpr ⟨hl, hm⟩, hn⟩

lemma WF.batch (h : WF t) (hf : Names f) (hg : Names g) (ha : Apart f g) :
    Batch (newPath (render f) (render g)) (movedEntries order (render f) t) t where
  nodup := by
    refine List.Nodup.filter _ ((order.perm _).nodup_iff.mpr ?_)
    exact List.Nodup.of_map _ t.pathToIno.nodupKeys
  target_inj e he e' he' heq := by
    obtain ⟨s, hs, h1, h2⟩ := h.moved_suffix (g := g) order hf ha he
    obtain ⟨s', hs', h1', h2'⟩ := h.moved_suffix (g := g) order hf ha he'
    rw [h2, h2'] at heq
    have hss := List.append_cancel_left
      (render_injective (hg.append hs) (hg.append hs') heq)
    have hl := ((mem_movedEntries order e).mp he).1
    have hl' := ((mem_movedEntries order e').mp he').1
    rw [h1, hss] at hl
    rw [h1', hl, Option.some.injEq] at hl'
    exact Sigma.ext (by rw [h1, h1', hss]) (heq_of_eq hl')
  ino_inj e he e' he' heq := by
    have hl := ((mem_movedEntries order e).mp he).1
    have hl' := ((mem_movedEntries order e').mp he').1
    rw [heq] at hl
    exact Sigma.ext (h.path_unique hl hl') (heq_of_eq heq)
  clear e he e' he' heq := by
    obtain ⟨s, hs, -, h2⟩ := h.moved_suffix (g := g) order hf ha he
    obtain ⟨s', hs', h1', -⟩ := h.moved_suffix (g := g) order hf ha he'
    rw [h2, h1'] at heq
    exact ha.symm.append_ne s s' (render_injective (hg.append hs) (hf.append hs') heq)
  sole e he p hp := h.path_unique hp ((mem_movedEntries order e).mp he).1

lemma WF.rekeyed (h : WF t) (hf : Names f) (hg : Names g) (ha : Apart f g) :
    Rekeyed (newPath (render f) (render g)) (movedEntries order (render f) t) t
      (rekeyPaths order (render f) (render g) t) :=
  foldl_rekeyOne (h.batch order hf hg ha)

variable {order}

lemma WF.rekeyPaths_moved (h : WF t) (hf : Names f) (hg : Names g) (ha : Apart f g)
    {s : List Text} (hs : Names s) {i : ℕ} (hi : t.getPath i = some (render (f ++ s))) :
    (rekeyPaths order (render f) (render g) t).getPath i = some (render (g ++ s)) := by
  obtain ⟨hm, hn⟩ := mem_movedEntries_render (g := g) order hf ha hs ((h.inverse _ _).mpr hi)
  rw [← hn]
  exact (h.rekeyed order hf hg ha).ino_new _ hm

lemma WF.rekeyPaths_replaced (h : WF t) (hf : Names f) (hg : Names g) (ha : Apart f g)
    {s : List Text} (hs : Names s) {i : ℕ} (hi : t.getPath i = some (render (g ++ s)))
    (hsource : t.pathToIno.lookup (render (f ++ s)) ≠ none) :
    (rekeyPaths order (render f) (render g) t).getPath i = none := by
  obtain ⟨j, hj⟩ := Option.ne_none_iff_exists'.mp hsource
  obtain ⟨hm, hn⟩ := mem_movedEntries_render (g := g) order hf ha hs hj
  refine (h.rekeyed order hf hg ha).ino_gone i ?_ _ hm ?_
  · intro e he hie
    obtain ⟨s', hs', h1, -⟩ := h.moved_suffix (g := g) order hf ha he
    have hl := ((mem_movedEntries order e).mp he).1
    rw [← hie, h.inverse, h1] at hl
    have heq := Option.some.inj (hl.symm.trans hi)
    exact ha.append_ne s' s (render_injective (hf.append hs') (hg.append hs) heq)
  · rw [hn, h.inverse]
    exact hi

lemma WF.rekeyPaths_other (h : WF t) (hf : Names f) (hg : Names g) (ha : Apart f g) {i : ℕ}
    (hsource : ∀ s, Names s → t.getPath i ≠ some (render (f ++ s)))
    (htarget : ∀ s, Names s → t.getPath i = some (render (g ++ s)) →
      t.pathToIno.lookup (render (f ++ s)) = none) :
    (rekeyPaths order (render f) (render g) t).getPath i = t.getPath i := by
  refine (h.rekeyed order hf hg ha).ino_other i ?_
  intro e he
  obtain ⟨s, hs, h1, h2⟩ := h.moved_suffix (g := g) order hf ha he
  have hl := ((mem_movedEntries order e).mp he).1
  constructor
  · rintro rfl
    refine hsource s hs ?_
    rw [← h1]
    exact (h.inverse _ _).mp hl
  · intro hi
    rw [h2, h.inverse] at hi
    rw [h1, htarget s hs hi] at hl
    simp at hl

lemma WF.rekeyPaths_movePath (h : WF t) (hf : Names f) (hg : Names g) (ha : Apart f g) {i : ℕ}
    {p : Text} (hi : t.getPath i = some p) (hout : rebase (render g) (render f) p = none) :
    (rekeyPaths order (render f) (render g) t).getPath i =
      some (movePath (render f) (render g) p) := by
  obtain ⟨cs, hcs, rfl⟩ := h.canonical i p hi
  cases hr : rebase (render f) (render g) (render cs) with
  | some r =>
    obtain ⟨s, rfl, rfl⟩ := (rebase_render hf ha.ne_nil ha.symm.ne_nil hcs r).mp hr
    rw [movePath, hr]
    exact h.rekeyPaths_moved hf hg ha hcs.right hi
  | none =>
    rw [movePath_of_none hr, ← hi]
    apply h.rekeyPaths_other hf hg ha
    · intro s hs heq
      have hcs' := render_injective hcs (hf.append hs) (Option.some.inj (hi.symm.trans heq))
      have hin := (rebase_render hf ha.ne_nil ha.symm.ne_nil hcs (render (g ++ s))).mpr
        ⟨s, hcs', rfl⟩
      rw [hr] at hin
      contradiction
    · intro s hs heq
      have hcs' := render_injective hcs (hg.append hs) (Option.some.inj (hi.symm.trans heq))
      have hin := (rebase_render hg ha.symm.ne_nil ha.ne_nil hcs (render (f ++ s))).mpr
        ⟨s, hcs', rfl⟩
      rw [hout] at hin
      contradiction

lemma WF.rekeyPaths_vacated (h : WF t) (hf : Names f) (hg : Names g) (ha : Apart f g)
    {s : List Text} (hs : Names s) :
    (rekeyPaths order (render f) (render g) t).pathToIno.lookup (render (f ++ s)) = none := by
  have hr := h.rekeyed order hf hg ha
  cases hl : t.pathToIno.lookup (render (f ++ s)) with
  | some i => exact hr.path_old _ (mem_movedEntries_render (g := g) order hf ha hs hl).1
  | none =>
    rw [hr.path_other, hl]
    intro e he
    obtain ⟨s', hs', h1, h2⟩ := h.moved_suffix (g := g) order hf ha he
    constructor
    · intro heq
      have he' := ((mem_movedEntries order e).mp he).1
      rw [← heq, hl] at he'
      simp at he'
    · intro heq
      rw [h2] at heq
      exact ha.append_ne s s' (render_injective (hf.append hs) (hg.append hs') heq)

section Fields

variable {new : Text → Text} {l : List InoEntry} {u : Inodes} {p : Text} {i : ℕ}

lemma Rekeyed.path_cases (hr : Rekeyed new l t u) (hp : u.pathToIno.lookup p = some i) :
    (∃ e ∈ l, i = e.2 ∧ p = new e.1) ∨
      (∀ e ∈ l, p ≠ e.1 ∧ p ≠ new e.1) ∧ t.pathToIno.lookup p = some i := by
  by_cases hq : ∃ e ∈ l, p = e.1 ∨ p = new e.1
  · obtain ⟨e, he, rfl | rfl⟩ := hq
    · rw [hr.path_old e he] at hp
      simp at hp
    · rw [hr.path_new e he, Option.some.injEq] at hp
      exact Or.inl ⟨e, he, hp.symm, rfl⟩
  · push Not at hq
    rw [hr.path_other p hq] at hp
    exact Or.inr ⟨hq, hp⟩

lemma Rekeyed.ino_cases (hr : Rekeyed new l t u) (hi : u.inoToPath.lookup i = some p) :
    (∃ e ∈ l, i = e.2 ∧ p = new e.1) ∨
      (∀ e ∈ l, i ≠ e.2 ∧ t.pathToIno.lookup (new e.1) ≠ some i) ∧
        t.inoToPath.lookup i = some p := by
  by_cases hmoved : ∃ e ∈ l, i = e.2
  · obtain ⟨e, he, rfl⟩ := hmoved
    rw [hr.ino_new e he, Option.some.injEq] at hi
    exact Or.inl ⟨e, he, rfl, hi.symm⟩
  · push Not at hmoved
    have hkept : ∀ e ∈ l, t.pathToIno.lookup (new e.1) ≠ some i := by
      intro e he hn
      rw [hr.ino_gone i hmoved e he hn] at hi
      simp at hi
    have hother : ∀ e ∈ l, i ≠ e.2 ∧ t.pathToIno.lookup (new e.1) ≠ some i :=
      fun e he => ⟨hmoved e he, hkept e he⟩
    rw [hr.ino_other i hother] at hi
    exact Or.inr ⟨hother, hi⟩

lemma Rekeyed.inverse (hr : Rekeyed new l t u) (hb : Batch new l t) (h : WF t)
    (hlookup : ∀ e ∈ l, t.pathToIno.lookup e.1 = some e.2) :
    u.pathToIno.lookup p = some i ↔ u.inoToPath.lookup i = some p := by
  constructor
  · intro hp
    rcases hr.path_cases hp with ⟨e, he, rfl, rfl⟩ | ⟨hq, hp⟩
    · exact hr.ino_new e he
    · rw [hr.ino_other i, (h.inverse p i).mp hp]
      intro e he
      constructor
      · rintro rfl
        exact (hq e he).1 (hb.sole e he p hp)
      · exact fun hn => (hq e he).2 (h.path_unique hp hn)
  · intro hi
    rcases hr.ino_cases hi with ⟨e, he, rfl, rfl⟩ | ⟨hq, hi⟩
    · exact hr.path_new e he
    · have hp := (h.inverse p i).mpr hi
      rw [hr.path_other p, hp]
      intro e he
      constructor
      · rintro rfl
        exact (hq e he).1 (Option.some.inj (hp.symm.trans (hlookup e he)))
      · rintro rfl
        exact (hq e he).2 hp

lemma Rekeyed.bounded (hr : Rekeyed new l t u) (h : WF t)
    (hlookup : ∀ e ∈ l, t.pathToIno.lookup e.1 = some e.2) (hi : u.inoToPath.lookup i = some p) :
    i < u.nextIno := by
  rw [hr.next]
  rcases hr.ino_cases hi with ⟨e, he, rfl, -⟩ | ⟨-, hi⟩
  · exact h.bounded _ _ ((h.inverse _ _).mp (hlookup e he))
  · exact h.bounded i p hi

lemma Rekeyed.canonical (hr : Rekeyed new l t u) (h : WF t) (hnew : ∀ e ∈ l, Canonical (new e.1))
    (hi : u.inoToPath.lookup i = some p) : Canonical p := by
  rcases hr.ino_cases hi with ⟨e, he, -, rfl⟩ | ⟨-, hi⟩
  · exact hnew e he
  · exact h.canonical i p hi

lemma WF.rekeyPaths_root (h : WF t) (hf : Names f) (hg : Names g) (ha : Apart f g) :
    (rekeyPaths order (render f) (render g) t).getPath rootIno = some ['/'] := by
  have hnil : ∀ {d s : List Text}, Names d → Names s →
      t.getPath rootIno = some (render (d ++ s)) → d = [] := by
    intro d s hd hs heq
    have hroot := render_injective (a := []) (by simp [Names]) (hd.append hs)
      (Option.some.inj (h.root.symm.trans heq))
    exact (List.append_eq_nil_iff.mp hroot.symm).1
  rw [h.rekeyPaths_other hf hg ha, getPath, h.root]
  · exact fun s hs heq => ha.ne_nil (hnil hf hs heq)
  · exact fun s hs heq => absurd (hnil hg hs heq) ha.symm.ne_nil

end Fields

lemma WF.rekeyPaths (h : WF t) (hf : Names f) (hg : Names g) (ha : Apart f g) :
    WF (rekeyPaths order (render f) (render g) t) where
  inverse p i := (h.rekeyed order hf hg ha).inverse (h.batch order hf hg ha) h
    fun e he => ((mem_movedEntries order e).mp he).1
  root := h.rekeyPaths_root hf hg ha
  bounded i p hi := (h.rekeyed order hf hg ha).bounded h
    (fun e he => ((mem_movedEntries order e).mp he).1) hi
  canonical i p hi := by
    refine (h.rekeyed order hf hg ha).canonical h ?_ hi
    intro e he
    obtain ⟨s, hs, -, h2⟩ := h.moved_suffix (g := g) order hf ha he
    exact ⟨g ++ s, hg.append hs, h2⟩

end Rekey

/-- Every path in the table leads to an inode that leads back to it, even where paths are renamed
that a device should refuse. -/
structure Anchored (t : Inodes) : Prop where
  back : ∀ p i, t.pathToIno.lookup p = some i → t.inoToPath.lookup i = some p
  bounded : ∀ p i, t.pathToIno.lookup p = some i → i < t.nextIno

section Anchored

variable {source target : Text} {t : Inodes}

lemma anchored_new : Anchored new where
  back p i := (wf_new.inverse p i).mp
  bounded p i hp := wf_new.bounded i p ((wf_new.inverse p i).mp hp)

lemma Anchored.getOrAssignIno (h : Anchored t) (path : Text) :
    Anchored (t.getOrAssignIno path).2 := by
  cases hl : t.pathToIno.lookup path with
  | some i => rwa [getOrAssignIno_of_some hl]
  | none =>
    rw [getOrAssignIno_of_none hl]
    constructor
    · intro p i hp
      simp only [Table.lookup_insert_eq] at hp ⊢
      split_ifs at hp with heq
      · rw [if_pos (Option.some.inj hp).symm, heq]
      · rw [if_neg (h.bounded p i hp).ne, h.back p i hp]
    · intro p i hp
      simp only [Table.lookup_insert_eq] at hp ⊢
      split_ifs at hp with heq
      · have hnew := Option.some.inj hp
        omega
      · exact Nat.lt_succ_of_lt (h.bounded p i hp)

lemma Anchored.getPath_assigned (h : Anchored t) (path : Text) :
    (t.getOrAssignIno path).2.getPath (t.getOrAssignIno path).1 = some path := by
  cases hl : t.pathToIno.lookup path with
  | some i =>
    rw [getOrAssignIno_of_some hl]
    exact h.back path i hl
  | none =>
    rw [getOrAssignIno_of_none hl]
    exact AList.lookup_insert _

lemma Anchored.back_rekeyOne {e : InoEntry} (h : Anchored t) {p : Text} {i : ℕ}
    (hsole : ∀ p, t.pathToIno.lookup p = some e.2 → p = e.1)
    (hp : (rekeyOne source target t e).pathToIno.lookup p = some i) :
    (rekeyOne source target t e).inoToPath.lookup i = some p := by
  have hi := hp
  rw [rekeyOne_pathToIno] at hi
  unfold rekeyOne
  dsimp only
  split_ifs at hi with hnew hold
  · rw [← Option.some.inj hi, hnew]
    split <;> exact AList.lookup_insert _
  · have hother : i ≠ e.2 := fun heq => hold (hsole p (heq ▸ hi))
    split
    · next replaced hreplaced =>
      rw [Table.lookup_erase_eq] at hreplaced
      split_ifs at hreplaced
      have hne : i ≠ replaced := by
        rintro rfl
        exact hnew (Option.some.inj ((h.back _ _ hi).symm.trans (h.back _ _ hreplaced)))
      simp only [Table.lookup_insert_eq, Table.lookup_erase_eq]
      rw [if_neg hother, if_neg hne, h.back p i hi]
    · simp only [Table.lookup_insert_eq]
      rw [if_neg hother, h.back p i hi]

lemma Anchored.foldl_rekeyOne {l : List InoEntry} (h : Anchored t)
    (hl : ∀ e ∈ l, e.2 < t.nextIno ∧ ∀ p, t.pathToIno.lookup p = some e.2 → p = e.1)
    (hnodup : (l.map Sigma.snd).Nodup) : Anchored (l.foldl (rekeyOne source target) t) := by
  induction l generalizing t with
  | nil => exact h
  | cons e l ih =>
    obtain ⟨hbound, hsole⟩ := hl e (by simp)
    rw [List.map_cons, List.nodup_cons] at hnodup
    refine ih ⟨fun p i hp => h.back_rekeyOne hsole hp, fun p i hp => ?_⟩ (fun a ha => ?_) hnodup.2
    · rw [rekeyOne_nextIno]
      rw [rekeyOne_pathToIno] at hp
      split_ifs at hp
      · exact Option.some.inj hp ▸ hbound
      · exact h.bounded p i hp
    · rw [rekeyOne_nextIno]
      obtain ⟨hbound', hsole'⟩ := hl a (by simp [ha])
      refine ⟨hbound', fun p hp => ?_⟩
      rw [rekeyOne_pathToIno] at hp
      split_ifs at hp
      · exact absurd (List.mem_map.mpr ⟨a, ha, (Option.some.inj hp).symm⟩) hnodup.1
      · exact hsole' p hp

lemma Anchored.rekeyPaths (h : Anchored t) (order : IterOrder InoEntry) (source target : Text) :
    Anchored (rekeyPaths order source target t) := by
  have hlookup : ∀ e ∈ movedEntries order source t, t.pathToIno.lookup e.1 = some e.2 :=
    fun e he => ((mem_movedEntries order e).mp he).1
  have hsole : ∀ e ∈ movedEntries order source t, ∀ p,
      t.pathToIno.lookup p = some e.2 → p = e.1 := fun e he p hp =>
    Option.some.inj ((h.back p _ hp).symm.trans (h.back _ _ (hlookup e he)))
  refine h.foldl_rekeyOne (fun e he => ⟨h.bounded _ _ (hlookup e he), hsole e he⟩) ?_
  refine List.Nodup.map_on (fun e he e' he' heq => ?_) ?_
  · have hpath := hsole e' he' e.1 (heq ▸ hlookup e he)
    exact Sigma.ext hpath (heq_of_eq heq)
  · refine List.Nodup.filter _ ((order.perm _).nodup_iff.mpr ?_)
    exact List.Nodup.of_map _ t.pathToIno.nodupKeys

end Anchored

inductive Reachable : Inodes → Prop
  | new : Reachable new
  | assign {t : Inodes} {p : Text} : Reachable t → Canonical p →
      Reachable (getOrAssignIno p t).2
  | rekey {t : Inodes} {f g : List Text} (order : IterOrder InoEntry) : Reachable t → Names f →
      Names g → Apart f g → Reachable (rekeyPaths order (render f) (render g) t)

lemma Reachable.wf {t : Inodes} (h : Reachable t) : WF t := by
  induction h with
  | new => exact wf_new
  | assign _ hp ih => exact ih.getOrAssignIno hp
  | rekey order _ hf hg ha ih => exact ih.rekeyPaths hf hg ha

theorem reachable_inverse_and_rename_exact {t : Inodes} (h : Reachable t) :
    ((∀ p i, t.pathToIno.lookup p = some i ↔ t.getPath i = some p) ∧
      t.getPath rootIno = some ['/'] ∧ ∀ i p, t.getPath i = some p → i < t.nextIno) ∧
    ∀ (order : IterOrder InoEntry) (f g : List Text), Names f → Names g → Apart f g →
      let u := rekeyPaths order (render f) (render g) t
      (∀ s i, Names s → t.getPath i = some (render (f ++ s)) →
        u.getPath i = some (render (g ++ s))) ∧
      (∀ s i, Names s → t.getPath i = some (render (g ++ s)) →
        t.pathToIno.lookup (render (f ++ s)) ≠ none → u.getPath i = none) ∧
      (∀ s, Names s → u.pathToIno.lookup (render (f ++ s)) = none) ∧
      (∀ i, (∀ s, Names s → t.getPath i ≠ some (render (f ++ s))) →
        (∀ s, Names s → t.getPath i = some (render (g ++ s)) →
          t.pathToIno.lookup (render (f ++ s)) = none) →
        u.getPath i = t.getPath i) := by
  have hwf := h.wf
  refine ⟨⟨hwf.inverse, hwf.root, hwf.bounded⟩, ?_⟩
  intro order f g hf hg ha
  refine ⟨?_, ?_, ?_, ?_⟩
  · intro s i hs hi
    exact hwf.rekeyPaths_moved hf hg ha hs hi
  · intro s i hs hi hsource
    exact hwf.rekeyPaths_replaced hf hg ha hs hi hsource
  · intro s hs
    exact hwf.rekeyPaths_vacated hf hg ha hs
  · intro i hsource htarget
    exact hwf.rekeyPaths_other hf hg ha hsource htarget

theorem reachable_inverse_and_rename_exact_sdcard :
    let dir := ["sdcard".toList, "dir".toList]
    let moved := ["sdcard".toList, "moved".toList]
    let t := (getOrAssignIno "/sdcard/dirt".toList (getOrAssignIno "/sdcard/dir/f".toList new).2).2
    let u := rekeyPaths (IterOrder.stored _) (render dir) (render moved) t
    u.getPath 2 = some "/sdcard/moved/f".toList ∧
      u.pathToIno.lookup "/sdcard/dir/f".toList = none ∧ t.getPath 3 = some "/sdcard/dirt".toList := by
  intro dir moved t u
  have ht : Reachable t :=
    .assign (.assign .new ⟨["sdcard".toList, "dir".toList, "f".toList], by decide, by decide⟩)
      ⟨["sdcard".toList, "dirt".toList], by decide, by decide⟩
  have h := (reachable_inverse_and_rename_exact ht).2 (IterOrder.stored _) dir moved (by decide)
    (by decide) (by unfold Apart; decide)
  exact ⟨h.1 ["f".toList] 2 (by decide) (by decide), h.2.2.1 ["f".toList] (by decide), by decide⟩

end Inodes

end Adbfs
