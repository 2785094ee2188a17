import Adbfs.Library.Resolve
import Adbfs.Listing
import Adbfs.Mock

namespace Adbfs

open Library Library.Text Library.Paths

/-- The text is a relative one and leads from the directory to where the target leads from the root
of the device. -/
def LeadsTo (dir : List Text) (r target : Text) : Prop :=
  r ≠ [] ∧ ¬ ['/'] <+: r ∧ ∃ dest, walk [] target = some dest ∧ walk dir r = some dest

section Rewriting

variable {dir : List Text} {t r x : Text}

lemma relativize_absolute (h : ['/'] <+: t) (k : ℕ) :
    relativize k t = some (upwards k ++ t.dropWhile (· == '/')) := by
  have hne : t ≠ [] := by
    rintro rfl
    simp at h
  rw [relativize, if_neg hne, if_pos h]

lemma walk_relativize (hforward : Forward t) :
    walk dir (upwards (dir.length + 1) ++ t.dropWhile (· == '/')) = walk [] t := by
  obtain ⟨htrim, hnamed⟩ := forward_trim hforward
  rw [upwards, Nat.add_sub_cancel, walk_ups, walk_forward htrim, walk_forward hforward, hnamed]

lemma upwards_append_eq_nil :
    upwards (dir.length + 1) ++ t.dropWhile (· == '/') = [] ↔ dir = [] ∧ ∀ c ∈ t, c = '/' := by
  rw [List.append_eq_nil_iff, List.dropWhile_eq_nil_iff, upwards, Nat.add_sub_cancel]
  cases dir <;> simp [List.replicate_succ]

lemma not_absolute_upwards (k : ℕ) : ¬ ['/'] <+: upwards k ++ t.dropWhile (· == '/') := by
  rw [upwards]
  cases k - 1 with
  | zero =>
    intro h
    obtain ⟨u, hu⟩ : ∃ u, t.dropWhile (· == '/') = '/' :: u := by
      obtain ⟨u, hu⟩ := h
      exact ⟨u, hu.symm⟩
    have hhead := List.head_dropWhile_not (· == '/') (by rw [hu]; simp : t.dropWhile (· == '/') ≠ [])
    simp [hu] at hhead
  | succ n => simp [List.replicate_succ]

lemma leadsTo_relativize (habsolute : ['/'] <+: t) (hforward : Forward t) :
    (∃ r, relativize (dir.length + 1) t = some r ∧ LeadsTo dir r t) ↔
      (dir = [] → ∃ c ∈ t, c ≠ '/') := by
  have hleads : (dir = [] → ∃ c ∈ t, c ≠ '/') ↔
      upwards (dir.length + 1) ++ t.dropWhile (· == '/') ≠ [] := by
    rw [Ne, upwards_append_eq_nil]
    push Not
    rfl
  rw [relativize_absolute habsolute, hleads]
  constructor
  · rintro ⟨r, hr, hne, -⟩
    exact Option.some.inj hr ▸ hne
  · intro hne
    exact ⟨_, rfl, hne, not_absolute_upwards _, _, walk_forward hforward [],
      (walk_relativize hforward).trans (walk_forward hforward [])⟩

lemma dropWhile_blank (x t : Text) :
    ∃ y, (x ++ ' ' :: t).dropWhile (· == '/') = y ++ ' ' :: t := by
  have hstop : (' ' :: t).dropWhile (· == '/') = ' ' :: t := List.dropWhile_cons_of_neg (by decide)
  rw [List.dropWhile_append, hstop]
  split_ifs
  · exact ⟨[], rfl⟩
  · exact ⟨_, rfl⟩

lemma not_leadsTo_of_blank (habsolute : ['/'] <+: t) (hforward : Forward t) {k : ℕ}
    (hr : relativize k (x ++ ' ' :: t) = some r) : ¬ LeadsTo dir r t := by
  obtain ⟨u, rfl⟩ := habsolute
  have hu : Forward u := (forward_slash (a := []).mp hforward).2
  obtain ⟨y, rfl⟩ : ∃ y, r = y ++ ' ' :: '/' :: u := by
    rw [relativize, if_neg (by simp)] at hr
    split_ifs at hr
    · obtain ⟨y, hy⟩ := dropWhile_blank x ('/' :: u)
      exact ⟨upwards k ++ y, by rw [← Option.some.inj hr, List.append_assoc, ← hy]; rfl⟩
    · exact ⟨x, (Option.some.inj hr).symm⟩
  rintro ⟨-, -, dest, hdest, hwalk⟩
  have hdeep := length_walk_blank hu hwalk
  rw [walk_forward hforward] at hdest
  obtain rfl := Option.some.inj hdest
  have hnamed : named ('/' :: u) = named u := named_slash [] u
  rw [List.nil_append] at hdeep
  exact hdeep.ne (congrArg List.length hnamed.symm)

end Rewriting

section Arrow

variable {q pre t : Text}

lemma arrow_suffix_concat {c : Char} : arrow <:+ q ++ [c] ↔ arrow.dropLast <:+ q ∧ c = ' ' := by
  have harrow : arrow = arrow.dropLast ++ [' '] := rfl
  constructor
  · rintro ⟨u, hu⟩
    rw [harrow, ← List.append_assoc] at hu
    obtain ⟨hfront, hend⟩ := List.append_inj' hu rfl
    exact ⟨⟨u, hfront⟩, (List.singleton_injective hend).symm⟩
  · rintro ⟨⟨u, rfl⟩, rfl⟩
    exact ⟨u, by rw [List.append_assoc, ← harrow]⟩

lemma infix_arrow_end : arrow <:+: q ++ arrow.dropLast ↔ arrow <:+: q ∨ arrow.dropLast <:+ q := by
  have hcut : q ++ arrow.dropLast = ((q ++ [' ']) ++ ['-']) ++ ['>'] := by simp [arrow]
  rw [hcut, List.infix_concat_iff, List.infix_concat_iff, List.infix_concat_iff]
  simp only [arrow_suffix_concat, (by decide : ('>' = ' ') = False),
    (by decide : ('-' = ' ') = False), and_false, and_true, false_or]
  exact or_comm

lemma breakOn_earlier (h : arrow <:+: pre ++ arrow.dropLast) (t : Text) :
    ∃ a x, breakOn arrow (pre ++ (arrow ++ t)) = some (a, x ++ ' ' :: t) := by
  obtain ⟨⟨a, x⟩, hbreak⟩ :=
    Option.ne_none_iff_exists'.mp (mt (breakOn_eq_none (by decide)).mp (not_not_intro h))
  refine ⟨a, x, ?_⟩
  rw [← breakOn_append hbreak, List.append_assoc]
  rfl

end Arrow

variable {τ : Type} {dir : List Text} {name columns t r path raw : Text}

lemma resolveSymlink_eq_ok (s : DeviceOps τ) :
    (resolveSymlink path raw : OpsM τ Text) s = (.ok r, s) ↔
      ((breakOn arrow raw).bind fun p => relativize (path.count '/') p.2) = some r := by
  rw [← parseSymlinkTarget_eq, resolveSymlink]
  cases parseSymlinkTarget raw (path.count '/') <;> simp

/-- A rewritten link leads to its target exactly where the first arrow of the line is the one before
the target, and the link does not lead from the root directory to itself. -/
theorem resolveSymlink_leads_iff (hnames : Names (dir ++ [name])) (habsolute : ['/'] <+: t)
    (hforward : Forward t) (hpath : ¬ arrow <:+: render (dir ++ [name])) (s : DeviceOps τ) :
    (∃ r, (resolveSymlink (render (dir ++ [name]))
        (columns ++ ' ' :: (render (dir ++ [name]) ++ (arrow ++ t))) : OpsM τ Text) s = (.ok r, s) ∧
          LeadsTo dir r t) ↔
      ¬ arrow <:+: columns ++ [' '] ∧ ¬ " ->".toList <:+ render (dir ++ [name]) ∧
        (dir = [] → ∃ c ∈ t, c ≠ '/') := by
  have hcount : (render (dir ++ [name])).count '/' = dir.length + 1 := by
    rw [count_slash_render hnames (by simp), List.length_append, List.length_singleton]
  obtain ⟨p, hp⟩ : ∃ p, render (dir ++ [name]) = '/' :: p := by
    rw [render_concat]
    cases dir with
    | nil => exact ⟨name, rfl⟩
    | cons c dir => exact ⟨_, by rw [join_cons, List.cons_append]⟩
  have hline : columns ++ ' ' :: (render (dir ++ [name]) ++ (arrow ++ t)) =
      (columns ++ ' ' :: render (dir ++ [name])) ++ (arrow ++ t) := by simp
  have hfirst : arrow <:+: columns ++ ' ' :: render (dir ++ [name]) ++ arrow.dropLast ↔
      arrow <:+: columns ++ [' '] ∨ " ->".toList <:+ render (dir ++ [name]) := by
    have hcut : columns ++ ' ' :: render (dir ++ [name]) ++ arrow.dropLast =
        (columns ++ [' ']) ++ '/' :: (p ++ arrow.dropLast) := by simp [hp]
    have hend := suffix_append_cons (u := []) (t := p) (by decide : '/' ∉ " ->".toList)
    have hrest : ¬ arrow <:+: p := fun h => hpath (hp ▸ List.infix_cons h)
    rw [hcut, infix_append_cons (by decide), infix_arrow_end, or_iff_right hrest, hp]
    exact or_congr_right hend.symm
  simp only [resolveSymlink_eq_ok, hcount, hline]
  rw [← and_assoc, ← not_or, ← hfirst]
  by_cases hearlier : arrow <:+: columns ++ ' ' :: render (dir ++ [name]) ++ arrow.dropLast
  · obtain ⟨a, x, hbreak⟩ := breakOn_earlier hearlier t
    refine iff_of_false ?_ fun h => h.1 hearlier
    rintro ⟨r, hr, hleads⟩
    rw [hbreak, Option.bind_some] at hr
    exact not_leadsTo_of_blank habsolute hforward hr hleads
  · have hbreak := breakOn_eq_some_iff (b := t) (by decide : arrow ≠ []) |>.mpr ⟨rfl, hearlier⟩
    rw [hbreak, and_iff_right hearlier]
    exact leadsTo_relativize habsolute hforward

section Examples

def quietOps : DeviceOps MockAdb := ⟨MockAdb.new [], true, false⟩

/-- A link in the root directory that leads to the root is left without a text. -/
theorem resolveSymlink_leads_iff_fails_for_root :
    Names ["self".toList] ∧ Forward ['/'] ∧ ¬ arrow <:+: "/self".toList ∧
      (resolveSymlink "/self".toList "lrwxrwxrwx 1 root root 1 1970-01-01 00:00 /self -> /".toList :
        OpsM MockAdb Text) quietOps = (.ok [], quietOps) ∧ ¬ LeadsTo [] [] ['/'] := by
  refine ⟨Names.singleton (by decide), by decide, by decide, rfl, fun h => h.1 rfl⟩

theorem resolveSymlink_leads_iff_of_deep_link :
    ∃ r, (resolveSymlink "/a/b".toList
        "lrwxrwxrwx 1 root root 6 1970-01-01 00:00 /a/b -> /x/./y".toList : OpsM MockAdb Text) quietOps =
          (.ok r, quietOps) ∧ LeadsTo ["a".toList] r "/x/./y".toList := by
  have hnames : Names (["a".toList] ++ ["b".toList]) := by
    intro c hc
    simp only [List.mem_append, List.mem_singleton] at hc
    rcases hc with rfl | rfl <;> exact ⟨by decide, by decide⟩
  exact (@resolveSymlink_leads_iff MockAdb ["a".toList] "b".toList
    "lrwxrwxrwx 1 root root 6 1970-01-01 00:00".toList "/x/./y".toList hnames (by decide) (by decide)
    (by decide) quietOps).mpr ⟨by decide, by decide, by decide⟩

end Examples

end Adbfs
