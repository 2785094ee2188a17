import Adbfs.Library.Text

/-! Absolute paths as component lists and as text. A prefix test on the text that ends at a slash is
the component-wise test. -/

namespace Adbfs.Library.Paths

def IsName (n : Text) : Prop := n ≠ [] ∧ '/' ∉ n

instance (n : Text) : Decidable (IsName n) := inferInstanceAs (Decidable (_ ∧ _))

def Names (cs : List Text) : Prop := ∀ c ∈ cs, IsName c

instance (cs : List Text) : Decidable (Names cs) := inferInstanceAs (Decidable (∀ c ∈ cs, _))

def join (cs : List Text) : Text := cs.flatMap fun c => '/' :: c

def render : List Text → Text
  | [] => ['/']
  | c :: cs => join (c :: cs)

def Canonical (p : Text) : Prop := ∃ cs, Names cs ∧ p = render cs

lemma Canonical.slash_mem {p : Text} (h : Canonical p) : '/' ∈ p := by
  obtain ⟨cs, -, rfl⟩ := h
  cases cs <;> simp [render, join]

def Boundary (t : Text) : Prop := t = [] ∨ ∃ u, t = '/' :: u

@[simp] lemma join_nil : join [] = [] := rfl

lemma join_cons (c : Text) (cs : List Text) : join (c :: cs) = '/' :: (c ++ join cs) := by
  simp [join]

lemma join_append (a b : List Text) : join (a ++ b) = join a ++ join b := by
  simp [join]

lemma render_eq_join {cs : List Text} (h : cs ≠ []) : render cs = join cs := by
  cases cs with
  | nil => exact absurd rfl h
  | cons c cs => rfl

lemma Names.append {a b : List Text} (ha : Names a) (hb : Names b) : Names (a ++ b) := by
  intro c hc
  rcases List.mem_append.mp hc with h | h
  · exact ha c h
  · exact hb c h

lemma Names.left {a b : List Text} (h : Names (a ++ b)) : Names a :=
  fun c hc => h c (List.mem_append_left _ hc)

lemma Names.right {a b : List Text} (h : Names (a ++ b)) : Names b :=
  fun c hc => h c (List.mem_append_right _ hc)

lemma Names.singleton {n : Text} (h : IsName n) : Names [n] := by
  intro c hc
  rw [List.mem_singleton.mp hc]
  exact h

lemma boundary_join (cs : List Text) : Boundary (join cs) := by
  cases cs with
  | nil => exact Or.inl rfl
  | cons c cs => exact Or.inr ⟨_, join_cons c cs⟩

lemma Boundary.append {t u : Text} (ht : Boundary t) (hu : Boundary u) : Boundary (t ++ u) := by
  rcases ht with rfl | ⟨v, rfl⟩
  · exact hu
  · exact Or.inr ⟨v ++ u, rfl⟩

lemma takeWhile_name {n t : Text} (hn : '/' ∉ n) (ht : Boundary t) :
    (n ++ t).takeWhile (· ≠ '/') = n := by
  induction n with
  | nil =>
    rcases ht with rfl | ⟨u, rfl⟩
    · rfl
    · simp
  | cons c n ih =>
    have hc : c ≠ '/' := fun h => hn (by simp [h])
    have hrest : '/' ∉ n := fun h => hn (List.mem_cons_of_mem _ h)
    simpa [List.takeWhile_cons, hc] using ih hrest

lemma name_append_inj {m n t u : Text} (hm : '/' ∉ m) (hn : '/' ∉ n) (ht : Boundary t)
    (hu : Boundary u) (h : m ++ t = n ++ u) : m = n ∧ t = u := by
  have heq : m = n := by
    rw [← takeWhile_name hm ht, h, takeWhile_name hn hu]
  subst heq
  exact ⟨rfl, List.append_cancel_left h⟩

lemma join_eq_append {a b : List Text} (ha : Names a) (hb : Names b) {t : Text} (ht : Boundary t)
    (h : join b = join a ++ t) : ∃ s, b = a ++ s ∧ t = join s := by
  induction a generalizing b with
  | nil => exact ⟨b, rfl, h.symm⟩
  | cons c a ih =>
    cases b with
    | nil => simp [join_cons] at h
    | cons d b =>
      simp only [join_cons, List.cons_append, List.append_assoc, List.cons.injEq, true_and] at h
      obtain ⟨rfl, hrest⟩ := name_append_inj (hb d (by simp)).2 (ha c (by simp)).2
        (boundary_join b) ((boundary_join a).append ht) h
      obtain ⟨s, rfl, hs⟩ := ih (fun x hx => ha x (List.mem_cons_of_mem _ hx))
        (fun x hx => hb x (List.mem_cons_of_mem _ hx)) hrest
      exact ⟨s, rfl, hs⟩

lemma join_eq_nil {cs : List Text} : join cs = [] ↔ cs = [] := by
  cases cs with
  | nil => simp
  | cons c cs => simp [join_cons]

lemma join_injective {a b : List Text} (ha : Names a) (hb : Names b) (h : join a = join b) :
    a = b := by
  obtain ⟨s, rfl, hs⟩ := join_eq_append ha hb (Or.inl rfl) (by rw [h, List.append_nil])
  rw [eq_comm, join_eq_nil] at hs
  rw [hs, List.append_nil]

lemma slash_ne_join {cs : List Text} (h : Names cs) : ['/'] ≠ join cs := by
  cases cs with
  | nil => simp
  | cons c cs =>
    have hc := (h c (by simp)).1
    simp [join_cons, hc]

lemma render_injective {a b : List Text} (ha : Names a) (hb : Names b)
    (h : render a = render b) : a = b := by
  cases a with
  | nil =>
    cases b with
    | nil => rfl
    | cons d b => exact absurd h (slash_ne_join hb)
  | cons c a =>
    cases b with
    | nil => exact absurd h.symm (slash_ne_join ha)
    | cons d b => exact join_injective ha hb h

def tail : List Text → Text
  | [] => []
  | n :: s => n ++ join s

lemma join_append_cons (a : List Text) {s : List Text} (hs : s ≠ []) :
    join (a ++ s) = join a ++ '/' :: tail s := by
  cases s with
  | nil => exact absurd rfl hs
  | cons n s => rw [join_append, join_cons, tail]

lemma stripDir_join {a b : List Text} (ha : Names a) (hb : Names b) (rest : Text) :
    join b = join a ++ '/' :: rest ↔ ∃ s, s ≠ [] ∧ b = a ++ s ∧ rest = tail s := by
  constructor
  · intro h
    obtain ⟨s, rfl, hs⟩ := join_eq_append ha hb (Or.inr ⟨rest, rfl⟩) h
    cases s with
    | nil => simp at hs
    | cons n s =>
      rw [join_cons, List.cons.injEq] at hs
      exact ⟨n :: s, by simp, rfl, hs.2⟩
  · rintro ⟨s, hs, rfl, rfl⟩
    exact join_append_cons a hs

lemma stripDir_render {a b : List Text} (ha : Names a) (ha' : a ≠ []) (hb : Names b) (rest : Text) :
    render b = render a ++ '/' :: rest ↔ ∃ s, s ≠ [] ∧ b = a ++ s ∧ rest = tail s := by
  rw [render_eq_join ha']
  cases b with
  | nil =>
    have hlen : (render [] : Text) ≠ join a ++ '/' :: rest := by
      cases a with
      | nil => exact absurd rfl ha'
      | cons c a => simp [render, join_cons]
    constructor
    · exact fun h => absurd h hlen
    · rintro ⟨s, hs, h, -⟩
      exact absurd h.symm (by simp [ha'])
  | cons d b => exact stripDir_join ha hb rest

lemma render_append {a s : List Text} (ha : a ≠ []) (hs : s ≠ []) :
    render (a ++ s) = render a ++ '/' :: tail s := by
  rw [render_eq_join ha, render_eq_join (by simp [ha]), join_append_cons a hs]

/-- Where `p` lies once the object at `source` has moved to `target`; `none` for a path that does
not move. -/
def rebase (source target p : Text) : Option Text :=
  if p = source then some target
  else ((source ++ ['/']).isPrefixOf? p).map fun rest => target ++ '/' :: rest

lemma isPrefixOf?_eq_some {a b t : Text} : a.isPrefixOf? b = some t ↔ b = a ++ t := by
  induction a generalizing b with
  | nil => simp [List.isPrefixOf?, eq_comm]
  | cons c a ih =>
    cases b with
    | nil => simp [List.isPrefixOf?]
    | cons d b =>
      by_cases h : c = d
      · simp [List.isPrefixOf?, h, ih]
      · simp [List.isPrefixOf?, h, Ne.symm h]

lemma rebase_comm {source target p q : Text} (h : rebase target source p = some q) :
    rebase source target q = some p := by
  unfold rebase at h
  split_ifs at h with hp
  · rw [← Option.some.inj h, rebase, if_pos rfl, hp]
  · obtain ⟨rest, hrest, rfl⟩ := Option.map_eq_some_iff.mp h
    have hne : source ++ '/' :: rest ≠ source := by simp
    have hback : (source ++ ['/']).isPrefixOf? (source ++ '/' :: rest) = some rest :=
      isPrefixOf?_eq_some.mpr (by simp)
    rw [rebase, if_neg hne, hback, isPrefixOf?_eq_some.mp hrest]
    simp

section Rebase

variable {f g : List Text}

lemma rebase_render (hf : Names f) (hf' : f ≠ []) (hg' : g ≠ []) {q : List Text} (hq : Names q)
    (r : Text) :
    rebase (render f) (render g) (render q) = some r ↔ ∃ s, q = f ++ s ∧ r = render (g ++ s) := by
  unfold rebase
  split_ifs with h
  · obtain rfl := render_injective hq hf h
    constructor
    · intro hr
      exact ⟨[], by simp, by simpa using hr.symm⟩
    · rintro ⟨s, hs, rfl⟩
      obtain rfl : s = [] := by simpa using hs
      simp
  · rw [Option.map_eq_some_iff]
    constructor
    · rintro ⟨rest, hrest, rfl⟩
      rw [isPrefixOf?_eq_some, List.append_assoc, List.singleton_append] at hrest
      obtain ⟨s, hs, rfl, rfl⟩ := (stripDir_render hf hf' hq rest).mp hrest
      exact ⟨s, rfl, (render_append hg' hs).symm⟩
    · rintro ⟨s, rfl, rfl⟩
      have hs : s ≠ [] := fun hs => h (by rw [hs, List.append_nil])
      refine ⟨tail s, ?_, (render_append hg' hs).symm⟩
      rw [isPrefixOf?_eq_some, List.append_assoc, List.singleton_append]
      exact render_append hf' hs

def Apart (f g : List Text) : Prop := ¬ f <+: g ∧ ¬ g <+: f

lemma Apart.symm (h : Apart f g) : Apart g f := ⟨h.2, h.1⟩

lemma Apart.ne_nil (h : Apart f g) : f ≠ [] := fun hf => h.1 (hf ▸ List.nil_prefix)

lemma Apart.append_ne (h : Apart f g) (s t : List Text) : f ++ s ≠ g ++ t := by
  intro heq
  rcases List.prefix_or_prefix_of_prefix (List.prefix_append f s)
    (heq ▸ List.prefix_append g t) with hp | hp
  · exact h.1 hp
  · exact h.2 hp

/-- What lies at a path once the object at `source`, with all below it, has moved to `target`. -/
def moveTree {α : Type} (source target : Text) (tree : Text → Option α) (p : Text) : Option α :=
  match rebase target source p with
  | some q => tree q
  | none => if (rebase source target p).isSome then none else tree p

def movePath (source target p : Text) : Text := (rebase source target p).getD p

lemma movePath_of_none {source target p : Text} (h : rebase source target p = none) :
    movePath source target p = p := by
  rw [movePath, h]
  rfl

variable {α : Type} {tree : Text → Option α} {p : Text}

lemma movePath_canonical (hf : Names f) (hg : Names g) (ha : Apart f g) (hp : Canonical p) :
    Canonical (movePath (render f) (render g) p) := by
  unfold movePath
  cases hr : rebase (render f) (render g) p with
  | none => exact hp
  | some r =>
    obtain ⟨q, hq, rfl⟩ := hp
    obtain ⟨t, rfl, rfl⟩ := (rebase_render hf ha.ne_nil ha.symm.ne_nil hq r).mp hr
    exact ⟨g ++ t, hg.append hq.right, rfl⟩

/-- Unless the path is at or below the target, its file is found where the path has moved. -/
lemma moveTree_movePath (hf : Names f) (hg : Names g) (ha : Apart f g) (hp : Canonical p)
    (hout : rebase (render g) (render f) p = none) :
    moveTree (render f) (render g) tree (movePath (render f) (render g) p) = tree p := by
  unfold movePath
  cases hr : rebase (render f) (render g) p with
  | none => simp [moveTree, hout, hr]
  | some r =>
    obtain ⟨q, hq, rfl⟩ := hp
    obtain ⟨t, rfl, rfl⟩ := (rebase_render hf ha.ne_nil ha.symm.ne_nil hq r).mp hr
    have hback : rebase (render g) (render f) (render (g ++ t)) = some (render (f ++ t)) :=
      (rebase_render hg ha.symm.ne_nil ha.ne_nil (hg.append hq.right) _).mpr ⟨t, rfl, rfl⟩
    simp [moveTree, hback]

lemma moveTree_target (hg : Names g) (ha : Apart f g) {s : List Text}
    (hs : Names s) :
    moveTree (render f) (render g) tree (render (g ++ s)) = tree (render (f ++ s)) := by
  have hback : rebase (render g) (render f) (render (g ++ s)) = some (render (f ++ s)) :=
    (rebase_render hg ha.symm.ne_nil ha.ne_nil (hg.append hs) _).mpr ⟨s, rfl, rfl⟩
  rw [moveTree, hback]

lemma moveTree_source (hf : Names f) (hg : Names g) (ha : Apart f g) {s : List Text}
    (hs : Names s) : moveTree (render f) (render g) tree (render (f ++ s)) = none := by
  have hgone : rebase (render f) (render g) (render (f ++ s)) = some (render (g ++ s)) :=
    (rebase_render hf ha.ne_nil ha.symm.ne_nil (hf.append hs) _).mpr ⟨s, rfl, rfl⟩
  have hout : rebase (render g) (render f) (render (f ++ s)) = none := by
    by_contra hne
    obtain ⟨r, hr⟩ := Option.ne_none_iff_exists'.mp hne
    obtain ⟨t, ht, -⟩ :=
      (rebase_render hg ha.symm.ne_nil ha.ne_nil (hf.append hs) r).mp hr
    exact ha.append_ne s t ht
  rw [moveTree, hout, hgone]
  rfl

lemma apart_of_rebase (hf : Names f) (hg : Names g) (hf' : f ≠ []) (hg' : g ≠ [])
    (h : rebase (render f) (render f) (render g) = none)
    (h' : rebase (render g) (render g) (render f) = none) : Apart f g := by
  constructor
  · rintro ⟨s, rfl⟩
    have hr := (rebase_render hf hf' hf' hg (render (f ++ s))).mpr ⟨s, rfl, rfl⟩
    rw [h] at hr
    contradiction
  · rintro ⟨s, rfl⟩
    have hr := (rebase_render hg hg' hg' hf (render (g ++ s))).mpr ⟨s, rfl, rfl⟩
    rw [h'] at hr
    contradiction

end Rebase

section Untouched

variable {α : Type} {source target p : Text} {tree : Text → Option α}

lemma rebase_eq_none (h : p ≠ source) (h' : ¬ (source ++ ['/']) <+: p) :
    rebase source target p = none := by
  rw [rebase, if_neg h, Option.map_eq_none_iff]
  by_contra hne
  obtain ⟨t, ht⟩ := Option.ne_none_iff_exists'.mp hne
  exact h' ⟨t, (isPrefixOf?_eq_some.mp ht).symm⟩

lemma moveTree_apart {k : List Text} (hf : Names f) (hk : Names k) (ha : Apart f k)
    (hgf : Apart g f) (hgk : Apart g k) (hg : Names g) {s : List Text} (hs : Names s) :
    moveTree (render f) (render k) tree (render (g ++ s)) = tree (render (g ++ s)) := by
  have hnone : ∀ {a b : List Text}, Names a → a ≠ [] → b ≠ [] → Apart g a →
      rebase (render a) (render b) (render (g ++ s)) = none := by
    intro a b hna hane hbne haa
    by_contra hne
    obtain ⟨r, hr⟩ := Option.ne_none_iff_exists'.mp hne
    obtain ⟨t, ht, -⟩ := (rebase_render hna hane hbne (hg.append hs) r).mp hr
    exact haa.append_ne s t ht
  rw [moveTree, hnone hk ha.symm.ne_nil ha.ne_nil hgk, hnone hf ha.ne_nil ha.symm.ne_nil hgf]
  rfl

lemma moveTree_other (hs : p ≠ source) (hs' : ¬ (source ++ ['/']) <+: p) (ht : p ≠ target)
    (ht' : ¬ (target ++ ['/']) <+: p) : moveTree source target tree p = tree p := by
  rw [moveTree, rebase_eq_none ht ht', rebase_eq_none hs hs']
  rfl

end Untouched

section Parent

def baseName (p : Text) : Text := p.rtakeWhile (· ≠ '/')

def parentOf (p : Text) : Text :=
  let dir := (p.rdropWhile (· ≠ '/')).dropLast
  if dir = [] then ['/'] else dir

variable {cs : List Text} {n : Text}

lemma render_concat : render (cs ++ [n]) = join cs ++ '/' :: n := by
  rw [render_eq_join (by simp), join_append]
  simp [join]

lemma baseName_concat (hn : IsName n) : baseName (render (cs ++ [n])) = n := by
  rw [render_concat, baseName, List.rtakeWhile, List.reverse_append, List.reverse_cons,
    List.append_assoc, List.singleton_append, List.takeWhile_append_of_pos]
  · simp
  · intro c hc
    simp only [decide_eq_true_eq]
    rintro rfl
    exact hn.2 (List.mem_reverse.mp hc)

lemma parentOf_concat (hn : IsName n) : parentOf (render (cs ++ [n])) = render cs := by
  have hdir : (render (cs ++ [n])).rdropWhile (· ≠ '/') = join cs ++ ['/'] := by
    rw [render_concat, List.rdropWhile, List.reverse_append, List.reverse_cons, List.append_assoc,
      List.dropWhile_append_of_pos]
    · simp
    · intro c hc
      simp only [decide_eq_true_eq]
      rintro rfl
      exact hn.2 (List.mem_reverse.mp hc)
  unfold parentOf
  rw [hdir, List.dropLast_concat]
  cases cs with
  | nil => rfl
  | cons c cs => rw [if_neg (by simp [join_cons]), render_eq_join (by simp)]

end Parent

end Adbfs.Library.Paths
