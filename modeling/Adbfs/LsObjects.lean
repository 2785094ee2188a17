import Adbfs.Library.Search
import Adbfs.LsFormat

/-! The line of a file in a listing, and what is read in it. -/

namespace Adbfs

open Library Library.Text Library.Paths

namespace Columns

variable {c : Columns} (pad : ℕ → ℕ) (shown : Text)

/-- The tables of accounts have their fields parted by colons. -/
def Plain (c : Columns) : Prop := ':' ∉ c.owner ∧ ':' ∉ c.group

lemma notMem_columns {d : Char} (hd : d ≠ ' ') {ws : List Text} (hws : ∀ w ∈ ws, d ∉ w)
    (pad : ℕ → ℕ) : d ∉ columns pad ws := by
  induction ws generalizing pad with
  | nil => simp [columns]
  | cons w ws ih =>
    rw [columns, List.mem_append, List.mem_append]
    rintro ((h | h) | h)
    · exact hws w (by simp) h
    · exact hd (List.eq_of_mem_replicate h)
    · exact ih (fun v hv => hws v (by simp [hv])) _ h

lemma colon_notMem_front (hplain : c.Plain) : ∀ w ∈ c.front, ':' ∉ w := by
  have hnum : ∀ k n, ':' ∉ (padded k n : List Char) := fun k n =>
    notMem_padded k n (by decide)
  have hmode : ':' ∉ modeText c.kind c.perm := fun h =>
    (by decide : ':' ∉ modeLetters) (modeText_subset _ _ h)
  intro w hw
  simp only [front, List.mem_cons, List.mem_append, Option.mem_toList, Option.map_eq_some_iff,
    List.not_mem_nil, or_false] at hw
  rcases hw with rfl | ⟨n, -, rfl⟩ | rfl | rfl | hw | rfl
  · exact hmode
  · exact hnum _ _
  · exact hplain.1
  · exact hplain.2
  · cases hext : c.extent with
    | absent => simp [hext, Extent.words] at hw
    | size n =>
      simp only [hext, Extent.words, List.mem_singleton] at hw
      exact hw ▸ hnum _ _
    | numbers major minor =>
      simp only [hext, Extent.words, List.mem_cons, List.not_mem_nil, or_false] at hw
      rcases hw with rfl | rfl
      · simp [hnum]
      · exact hnum _ _
  · simp [Stamp.date, hnum]

def upToHour (c : Columns) (pad : ℕ → ℕ) : Text := columns pad c.front ++ padded 2 c.stamp.hour

lemma colon_notMem_upToHour (hplain : c.Plain) : ':' ∉ c.upToHour pad := by
  rw [upToHour, List.mem_append, not_or]
  exact ⟨notMem_columns (by decide) (colon_notMem_front hplain) pad,
    notMem_padded _ _ (by decide)⟩

lemma minutes_digits (s : Stamp) :
    ∃ x y : Char, padded 2 s.min = [x, y] ∧ x.isDigit = true ∧ y.isDigit = true := by
  have hlen : (padded 2 s.min).length = 2 := by
    have hmin := s.min_lt
    have hshort : (Nat.toDigits 10 s.min).length ≤ 2 :=
      (Nat.length_toDigits_le_iff (by decide) (by decide)).mpr (by omega)
    rw [padded, List.length_leftpad]
    omega
  obtain ⟨x, y, hxy⟩ := List.length_eq_two.mp hlen
  have hdigit : ∀ d ∈ padded 2 s.min, d.isDigit = true := fun d hd => isDigit_of_mem_padded hd
  rw [hxy] at hdigit
  exact ⟨x, y, hxy, hdigit x (by simp), hdigit y (by simp)⟩

lemma utf8Size_digit {d : Char} (h : d.isDigit = true) : d.utf8Size = 1 := by
  rw [Char.utf8Size_eq_one_iff]
  simp only [Char.isDigit, Bool.and_eq_true, decide_eq_true_eq] at h
  exact UInt32.le_trans h.2 (by decide)

/-- A line has one colon before the name, and four bytes from there to the name. -/
lemma line_eq (c : Columns) : ∃ x y : Char, x.isDigit = true ∧ y.isDigit = true ∧
    c.line pad shown = c.upToHour pad ++ ':' :: ([x, y, ' '] ++ shown) := by
  obtain ⟨x, y, hmin, hx, hy⟩ := minutes_digits c.stamp
  refine ⟨x, y, hx, hy, ?_⟩
  simp [line, upToHour, Stamp.time, hmin]

lemma line_cut (c : Columns) (pad : ℕ → ℕ) : ∃ start d, Char.isDigit d = true ∧
    ∀ shown, c.line pad shown = start ++ d :: ' ' :: shown := by
  obtain ⟨x, y, hmin, -, hy⟩ := minutes_digits c.stamp
  refine ⟨columns pad c.front ++ (padded 2 c.stamp.hour ++ [':', x]), y, hy, fun shown => ?_⟩
  simp [line, Stamp.time, hmin]

def namePart (shown : Text) : Text :=
  match breakOn arrow shown with
  | some (name, _) => name
  | none => shown

lemma namePart_append {name target : Text} :
    namePart (name ++ (arrow ++ target)) = name ↔ ¬ arrow <:+: name ++ arrow.dropLast := by
  have harrow : arrow ≠ [] := by decide
  have hfirst := @breakOn_eq_some_iff arrow (name ++ (arrow ++ target)) name target harrow
  rw [namePart]
  cases hbreak : breakOn arrow (name ++ (arrow ++ target)) with
  | none => exact absurd (List.infix_append' _ _ _) ((breakOn_eq_none harrow).mp hbreak)
  | some p =>
    obtain ⟨a, b⟩ := p
    simp only
    rw [hbreak] at hfirst
    constructor
    · rintro rfl
      have hcut := (skips_of_breakOn hbreak).1
      rw [List.append_cancel_left_eq, List.append_cancel_left_eq] at hcut
      exact (hfirst.mp (by rw [hcut])).2
    · intro hno
      exact (Prod.mk.inj (Option.some.inj (hfirst.mpr ⟨rfl, hno⟩))).1

lemma namePart_self {name : Text} : namePart name = name ↔ ¬ arrow <:+: name := by
  rw [← breakOn_eq_none (by decide), namePart]
  cases hbreak : breakOn arrow name with
  | none => simp
  | some p =>
    obtain ⟨hcut, -⟩ := skips_of_breakOn hbreak
    have hlen := congrArg List.length hcut
    simp only [List.length_append] at hlen
    simp only [reduceCtorEq, iff_false]
    intro heq
    rw [heq] at hlen
    exact absurd hlen (by simp [arrow])

lemma namePart_self_prefix {name : Text} : namePart name <+: name := by
  rw [namePart]
  cases hbreak : breakOn arrow name with
  | none => exact List.prefix_rfl
  | some p => exact ⟨_, (skips_of_breakOn hbreak).1.symm⟩

lemma namePart_append_prefix {name target : Text} :
    namePart (name ++ (arrow ++ target)) <+: name := by
  rw [namePart]
  cases hbreak : breakOn arrow (name ++ (arrow ++ target)) with
  | none => exact absurd (List.infix_append' _ _ _) ((breakOn_eq_none (by decide)).mp hbreak)
  | some p =>
    obtain ⟨hcut, hskips⟩ := skips_of_breakOn hbreak
    rcases List.append_eq_append_iff.mp hcut with ⟨y, hname, hrest⟩ | ⟨y, hname, -⟩
    · -- an arrow stands right behind the name, which is before what was found first
      by_cases hy : y = []
      · exact ⟨[], by simp [hname, hy]⟩
      · exact absurd ⟨target, hrest⟩ (hskips name y hname hy)
    · exact ⟨y, hname.symm⟩

lemma extractFilename_line (hplain : c.Plain) : extractFilename (c.line pad shown) =
    some (if namePart shown = [] then none else some (namePart shown)) := by
  obtain ⟨x, y, hx, hy, hline⟩ := c.line_eq pad shown
  have hcolon := colon_notMem_upToHour pad hplain
  have hsplit : c.line pad shown = (c.upToHour pad ++ [':', x, y, ' ']) ++ shown := by
    rw [hline]
    simp
  have hlen : byteLen (c.upToHour pad ++ [':', x, y, ' ']) = byteLen (c.upToHour pad) + 4 := by
    rw [byteLen_append]
    simp [byteLen, utf8Size_digit hx, utf8Size_digit hy]
    rfl
  have hslice := sliceFrom_byteLen (c.upToHour pad ++ [':', x, y, ' ']) shown
  have hlong : ¬ byteLen (c.line pad shown) < byteLen (c.upToHour pad) + 4 := by
    rw [hsplit, byteLen_append, hlen]
    omega
  rw [← hsplit, hlen] at hslice
  have hbreak : breakOn [':'] (c.line pad shown) = some (c.upToHour pad, [x, y, ' '] ++ shown) := by
    rw [hline, breakOn_char hcolon]
  rw [extractFilename, hbreak]
  simp only
  rw [if_neg hlong, hslice]
  rfl

/-- Only the name can keep a line from being decoded, where there are no more columns than these. -/
lemma parseLsLine_narrow [Libc] (hext : c.extent = .absent)
    (hshown : ∀ x ∈ shown, isWhitespace x = true) : parseLsLine (c.line pad shown) = some none := by
  have hfits := c.fits
  rw [hext] at hfits
  have hsplit := c.splitWhitespace_line pad shown
  have hfront : c.front = [modeText c.kind c.perm, c.owner, c.group, c.stamp.date] := by
    simp [front, hfits.1, hext, Extent.words]
  rw [splitWhitespace_eq_nil.mpr hshown, hfront] at hsplit
  rw [parseLsLine, hsplit]
  rfl

def Wide (c : Columns) (shown : Text) : Prop :=
  c.extent = .absent → ∃ x ∈ shown, isWhitespace x = false

instance : Decidable (c.Wide shown) := inferInstanceAs (Decidable (_ → _))

lemma parseLsLine_of_not_wide [Libc] (h : ¬ c.Wide shown) :
    parseLsLine (c.line pad shown) = some none := by
  have hext : c.extent = .absent := by
    by_contra hext
    exact h fun habsent => absurd habsent hext
  apply parseLsLine_narrow pad shown hext
  intro x hx
  by_contra hblank
  exact h fun _ => ⟨x, hx, by simpa using hblank⟩

lemma parseLsLine_eq_some_some [Libc] {m : FileMeta}
    (hrange : -2 ^ 63 ≤ Libc.mktime c.stamp.tm ∧ Libc.mktime c.stamp.tm < 2 ^ 63) :
    parseLsLine (c.line pad shown) = some (some m) ↔ c.Wide shown ∧ 0 ≤ Libc.mktime c.stamp.tm ∧
      m = c.fileMeta (Libc.mktime c.stamp.tm * 10 ^ 9) (c.line pad shown) := by
  by_cases hwide : c.Wide shown
  · have hwords : c.extent = .absent → splitWhitespace shown ≠ [] := by
      intro hext hnil
      obtain ⟨x, hx, hblank⟩ := hwide hext
      rw [splitWhitespace_eq_nil.mp hnil x hx] at hblank
      contradiction
    rw [c.parseLsLine_line pad hwords, c.stamp.parseDatetime_stamp]
    by_cases htime : 0 ≤ Libc.mktime c.stamp.tm
    · rw [if_neg (by omega), epochPlus_of_nonneg htime hrange.2]
      simp [hwide, htime, eq_comm]
    · split_ifs
      · simp [htime]
      · rw [epochPlus_of_neg (by omega) hrange.1]
        simp [htime]
  · simp [parseLsLine_of_not_wide pad shown hwide, hwide]

lemma line_eq_modeText_append (c : Columns) :
    ∃ t, c.line pad shown = modeText c.kind c.perm ++ t := by
  rw [line, front, columns]
  exact ⟨_, by rw [List.append_assoc, List.append_assoc]⟩

lemma byteLen_line : ¬ byteLen (c.line pad shown) < 3 := by
  obtain ⟨t, ht⟩ := c.line_eq_modeText_append pad shown
  have hsize : ∀ d ∈ modeLetters, d.utf8Size = 1 := by decide
  have hlen : byteLen (modeText c.kind c.perm) = 10 := by
    rw [byteLen, List.map_eq_replicate_iff.mpr
      fun d hd => hsize d (modeText_subset _ _ hd)]
    simp [modeText]
  rw [ht, byteLen_append, hlen]
  omega

lemma isValidLsOutput_append {x : Text} (hx : 2 ≤ x.bytes.length) (t : Text) :
    isValidLsOutput (x ++ t) = isValidLsOutput x := by
  obtain ⟨a, b, w, hbytes⟩ : ∃ a b w, x.bytes = a :: b :: w := by
    match x.bytes, hx with
    | a :: b :: w, _ => exact ⟨a, b, w, rfl⟩
  rw [isValidLsOutput, isValidLsOutput, bytes_append, hbytes]
  rfl

lemma isValidLsOutput_line : isValidLsOutput (c.line pad shown) = true := by
  obtain ⟨t, ht⟩ := c.line_eq_modeText_append pad shown
  have hlen : 2 ≤ (modeText c.kind c.perm).bytes.length := by
    rw [bytes_modeText]
    simp [modeText]
  rw [ht, isValidLsOutput_append hlen, isValidLsOutput_modeText]

end Columns

def SameMeta (a b : FileMeta) : Prop := { a with rawLine := b.rawLine } = b

instance (a b : FileMeta) : Decidable (SameMeta a b) := inferInstanceAs (Decidable (_ = _))

lemma parseLsLine_of_listLine [Libc] {line name : Text} {m : FileMeta}
    (h : listLine line = some (some (name, some m))) : parseLsLine line = some (some m) := by
  rw [listLine] at h
  by_cases hshort : line.byteLen < 3
  · simp [hshort] at h
  · rw [if_neg hshort] at h
    by_cases hvalid : (!isValidLsOutput line) = true
    · rw [if_pos hvalid] at h
      split_ifs at h
      · obtain ⟨n, -, hn⟩ := Option.map_eq_some_iff.mp (Option.some.inj h)
        simp at hn
      · simp at h
    · rw [if_neg hvalid] at h
      obtain ⟨found, hname, h⟩ := Option.bind_eq_some_iff.mp h
      cases found with
      | none => simp at h
      | some n =>
        obtain ⟨parsed, hparse, h⟩ := Option.bind_eq_some_iff.mp h
        simp only [Option.some.injEq, Prod.mk.injEq] at h
        rw [hparse, h.2]

structure LsObject where
  columns : Columns
  name : Text
  target : Text
  name_ok : IsName name
  plain : columns.Plain

namespace LsObject

variable (o : LsObject) (pad : ℕ → ℕ) (dir : Text)

def suffix : Text := if o.columns.kind = .symlink then arrow ++ o.target else []

def shown : Text := o.name ++ o.suffix

def listed : Text := o.columns.line pad o.shown

def stated : Text := o.columns.line pad (childText dir o.name ++ o.suffix)

/-- The first arrow after the name is the one that leads to a target. -/
def Unambiguous : Prop :=
  ¬ arrow <:+: o.name ++ (if o.columns.kind = .symlink then arrow.dropLast else [])

instance : Decidable o.Unambiguous := inferInstanceAs (Decidable (¬ _))

def SeemsDenied : Prop := permissionErrSuffix <:+ o.shown

instance : Decidable o.SeemsDenied := inferInstanceAs (Decidable (_ <:+ _))

variable {o pad dir}

lemma namePart_shown : Columns.namePart o.shown = o.name ↔ o.Unambiguous := by
  rw [Unambiguous, shown, suffix]
  split_ifs
  · exact Columns.namePart_append
  · rw [List.append_nil]
    exact Columns.namePart_self

def baseOf (dir : Text) : Text := if dir = ['/'] then [] else dir

lemma childText_append (dir name t : Text) :
    childText dir name ++ t = baseOf dir ++ '/' :: (name ++ t) := by
  rw [childText, baseOf]
  split_ifs <;> simp

lemma seemsDenied_stated : permissionErrSuffix <:+ o.stated pad dir ↔ o.SeemsDenied := by
  obtain ⟨start, d, -, hline⟩ := o.columns.line_cut pad
  have hcut : o.stated pad dir = (start ++ d :: ' ' :: baseOf dir) ++ '/' :: o.shown := by
    rw [stated, childText_append, hline, shown]
    simp
  rw [hcut, suffix_append_cons (by decide), SeemsDenied]

lemma wide_stated : o.columns.Wide (childText dir o.name ++ o.suffix) := by
  intro
  refine ⟨'/', ?_, by decide⟩
  rw [childText_append]
  simp

lemma namePart_prefix : Columns.namePart o.shown <+: o.name := by
  rw [shown, suffix]
  split_ifs
  · exact Columns.namePart_append_prefix
  · rw [List.append_nil]
    exact Columns.namePart_self_prefix

lemma listLine_listed_eq [Libc] : listLine (o.listed pad) =
    if Columns.namePart o.shown = [] then some none
    else (parseLsLine (o.listed pad)).map fun m => some (Columns.namePart o.shown, m) := by
  rw [listLine, listed, if_neg (Columns.byteLen_line pad o.shown), Columns.isValidLsOutput_line,
    Columns.extractFilename_line pad o.shown o.plain]
  simp only [Bool.not_true, Bool.false_eq_true, if_false, Option.bind_eq_bind, Option.bind_some]
  by_cases hnil : Columns.namePart o.shown = []
  · simp [hnil]
  · rw [if_neg hnil, if_neg hnil]
    cases parseLsLine (o.columns.line pad o.shown) <;> rfl

lemma listLine_listed [Libc] {m : FileMeta} :
    listLine (o.listed pad) = some (some (o.name, some m)) ↔
      o.Unambiguous ∧ parseLsLine (o.listed pad) = some (some m) := by
  rw [listLine_listed_eq, ← namePart_shown]
  by_cases hnil : Columns.namePart o.shown = []
  · simp [hnil, o.name_ok.1.symm]
  · rw [if_neg hnil]
    cases parseLsLine (o.listed pad) <;> simp

end LsObject

end Adbfs
