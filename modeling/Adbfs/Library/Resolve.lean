import Adbfs.Library.Paths

namespace Adbfs.Library.Paths

/-- A component that leads into a directory or to a file, if it is not the two dots. -/
def Named (c : Text) : Prop := c ≠ [] ∧ c ≠ ['.']

instance : DecidablePred Named := fun c => inferInstanceAs (Decidable (c ≠ [] ∧ c ≠ ['.']))

/-- There is no way up from the root. -/
def walkStep (dir : List Text) (c : Text) : Option (List Text) :=
  if ¬ Named c then some dir
  else if c = ['.', '.'] then if dir = [] then none else some dir.dropLast
  else some (dir ++ [c])

def walk (dir : List Text) (t : Text) : Option (List Text) := (t.splitOn '/').foldlM walkStep dir

/-- No component of the path leads upwards. -/
def Forward (t : Text) : Prop := ∀ c ∈ t.splitOn '/', c ≠ ['.', '.']

instance (t : Text) : Decidable (Forward t) := inferInstanceAs (Decidable (∀ c ∈ _, _))

def named (t : Text) : List Text := (t.splitOn '/').filter Named

variable {dir : List Text} {a b t : Text}

lemma splitOn_slash (a b : Text) : (a ++ '/' :: b).splitOn '/' = a.splitOn '/' ++ b.splitOn '/' :=
  List.splitOn_append_cons_self a b

lemma slash_notMem_splitOn {c : Text} (hc : c ∈ t.splitOn '/') : '/' ∉ c := by
  induction t generalizing c with
  | nil =>
    rw [List.splitOn_nil, List.mem_singleton] at hc
    simp [hc]
  | cons x t ih =>
    rw [List.splitOn_cons_eq_if_modifyHead] at hc
    split_ifs at hc with hx
    · rcases List.mem_cons.mp hc with rfl | hc
      · simp
      · exact ih hc
    · cases hsplit : t.splitOn '/' with
      | nil => simp [hsplit] at hc
      | cons d ds =>
        rw [hsplit, List.modifyHead_cons] at hc
        rcases List.mem_cons.mp hc with rfl | hc
        · have hd : '/' ∉ d := ih (by simp [hsplit])
          exact List.not_mem_cons_of_ne_of_not_mem (fun heq => hx (beq_iff_eq.mpr heq.symm)) hd
        · exact ih (by simp [hsplit, hc])

lemma walk_slash (dir : List Text) (a b : Text) :
    walk dir (a ++ '/' :: b) = (walk dir a).bind fun d => walk d b := by
  rw [walk, splitOn_slash, List.foldlM_append]
  rfl

lemma named_slash (a b : Text) : named (a ++ '/' :: b) = named a ++ named b := by
  rw [named, splitOn_slash, List.filter_append]
  rfl

lemma forward_slash : Forward (a ++ '/' :: b) ↔ Forward a ∧ Forward b := by
  simp only [Forward, splitOn_slash, List.mem_append, or_imp, forall_and]

lemma walk_component (dir : List Text) {c : Text} (hc : '/' ∉ c) :
    walk dir c = walkStep dir c := by
  rw [walk, List.splitOn_eq_singleton hc]
  exact bind_pure _

lemma walkStep_forward {c : Text} (hc : c ≠ ['.', '.']) :
    walkStep dir c = some (dir ++ [c].filter Named) := by
  rw [walkStep, if_neg hc]
  by_cases hnamed : Named c <;> simp [hnamed]

lemma walk_forward (h : Forward t) (dir : List Text) : walk dir t = some (dir ++ named t) := by
  rw [Forward] at h
  rw [walk, named]
  generalize t.splitOn '/' = cs at h
  induction cs generalizing dir with
  | nil => simp
  | cons c cs ih =>
    rw [List.foldlM_cons, walkStep_forward (h c (by simp)), Option.bind_eq_bind, Option.bind_some,
      ih _ fun c hc => h c (by simp [hc]), List.append_assoc, ← List.filter_append]
    rfl

lemma walk_up (dir : List Text) (c t : Text) : walk (dir ++ [c]) ("../".toList ++ t) = walk dir t := by
  have hstep : walkStep (dir ++ [c]) ['.', '.'] = some dir := by
    rw [walkStep, if_neg (by decide), if_pos rfl, if_neg (by simp), List.dropLast_concat]
  have hcut : "../".toList ++ t = ['.', '.'] ++ '/' :: t := rfl
  rw [hcut, walk_slash, walk_component _ (by decide), hstep]
  rfl

lemma walk_ups (dir : List Text) (t : Text) :
    walk dir ((List.replicate dir.length "../".toList).flatten ++ t) = walk [] t := by
  induction dir using List.reverseRecOn with
  | nil => rfl
  | append_singleton dir c ih =>
    rw [List.length_append, List.length_singleton, List.replicate_succ, List.flatten_cons,
      List.append_assoc, walk_up, ih]

lemma dropWhile_slash (t : Text) : ∃ n, t = List.replicate n '/' ++ t.dropWhile (· == '/') := by
  refine ⟨(t.takeWhile (· == '/')).length, ?_⟩
  have hfront : ∀ c ∈ t.takeWhile (· == '/'), c = '/' := by
    intro c hc
    simpa using List.mem_takeWhile_imp hc
  rw [← List.eq_replicate_iff.mpr ⟨rfl, hfront⟩, List.takeWhile_append_dropWhile]

lemma forward_trim (h : Forward t) : Forward (t.dropWhile (· == '/')) ∧
    named (t.dropWhile (· == '/')) = named t := by
  obtain ⟨n, hn⟩ := dropWhile_slash t
  generalize t.dropWhile (· == '/') = u at hn
  subst hn
  induction n with
  | zero => exact ⟨h, rfl⟩
  | succ n ih =>
    have hcut : List.replicate (n + 1) '/' ++ u = [] ++ '/' :: (List.replicate n '/' ++ u) := by
      rw [List.replicate_succ]
      rfl
    rw [hcut] at h ⊢
    obtain ⟨hforward, hnamed⟩ := ih (forward_slash.mp h).2
    exact ⟨hforward, by rw [hnamed, named_slash]; rfl⟩

/-- A component that ends in a blank is no way back. -/
lemma walk_blank_ne_nil {d e : List Text} {x : Text} (h : walk d (x ++ [' ']) = some e) : e ≠ [] := by
  by_cases hx : '/' ∈ x
  · obtain ⟨a, b, hcut, -⟩ := List.eq_append_cons_of_mem hx
    have hshorter : b.length < x.length := by
      rw [hcut, List.length_append, List.length_cons]
      omega
    rw [hcut, List.append_assoc, List.cons_append, walk_slash] at h
    obtain ⟨d', -, hd⟩ := Option.bind_eq_some_iff.mp h
    exact walk_blank_ne_nil hd
  · have hlast : ∀ c ≠ ' ', ∀ u, x ++ [' '] ≠ u ++ [c] := by
      intro c hc u heq
      exact hc (List.singleton_injective (List.append_inj' heq rfl).2).symm
    have hnamed : Named (x ++ [' ']) := ⟨by simp, hlast '.' (by decide) []⟩
    have hdots : x ++ [' '] ≠ ['.', '.'] := hlast '.' (by decide) ['.']
    rw [walk_component _ (by simpa using hx), walkStep, if_neg (not_not_intro hnamed),
      if_neg hdots] at h
    rw [← Option.some.inj h]
    simp
termination_by x.length

lemma length_walk_blank {x : Text} {e : List Text} (ht : Forward t)
    (h : walk dir (x ++ ' ' :: '/' :: t) = some e) : (named t).length < e.length := by
  have hcut : x ++ ' ' :: '/' :: t = (x ++ [' ']) ++ '/' :: t := by simp
  rw [hcut, walk_slash] at h
  obtain ⟨d, hd, hwalk⟩ := Option.bind_eq_some_iff.mp h
  rw [walk_forward ht] at hwalk
  have hpos := List.length_pos_iff.mpr (walk_blank_ne_nil hd)
  rw [← Option.some.inj hwalk, List.length_append]
  omega

section Rendered

variable {cs : List Text}

lemma count_slash_render (hcs : Names cs) (hne : cs ≠ []) : (render cs).count '/' = cs.length := by
  rw [render_eq_join hne]
  clear hne
  induction cs with
  | nil => rfl
  | cons c cs ih =>
    have hc : '/' ∉ c := (hcs c (by simp)).2
    have hnames : Names cs := fun d hd => hcs d (by simp [hd])
    rw [join_cons, List.count_cons_self, List.count_append, List.count_eq_zero.mpr hc, ih hnames]
    simp

end Rendered

end Adbfs.Library.Paths
