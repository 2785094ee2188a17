import Adbfs.LsObjects
import Adbfs.Missing

namespace Adbfs

open Library Library.Text Library.Paths

section Target

def upwards (k : ℕ) : Text := (List.replicate (k - 1) "../".toList).flatten

def relativize (numSlashesInPath : ℕ) (target : Text) : Option Text :=
  if target = [] then none
  else if ['/'] <+: target then some (upwards numSlashesInPath ++ target.dropWhile (· == '/'))
  else some target

lemma parseSymlinkTarget_eq (line : Text) (k : ℕ) :
    parseSymlinkTarget line k = (breakOn arrow line).bind fun p => relativize k p.2 := by
  rw [parseSymlinkTarget]
  cases breakOn arrow line <;> rfl

variable {k : ℕ} {x t u : Text}

lemma dropWhile_slash_append {c : Char} (hc : c ≠ '/') (hx : c ∈ x) (t : Text) :
    (x ++ t).dropWhile (· == '/') = x.dropWhile (· == '/') ++ t ∧
      c ∈ x.dropWhile (· == '/') := by
  induction x with
  | nil => simp at hx
  | cons d x ih =>
    by_cases hd : d = '/'
    · subst hd
      have hx' : c ∈ x := by simpa [hc] using hx
      simpa using ih hx'
    · simpa [hd] using hx

lemma relativize_append_ne {c : Char} (hc : c ≠ '/') (hx : c ∈ x) (hlen : t.length ≠ u.length) :
    relativize k (x ++ t) ≠ relativize k (x ++ u) := by
  have hne : ∀ t, x ++ t ≠ [] := by
    intro t h
    rw [(List.append_eq_nil_iff.mp h).1] at hx
    simp at hx
  have hslash : ∀ t, ['/'] <+: x ++ t ↔ ['/'] <+: x := by
    intro t
    cases x with
    | nil => simp at hx
    | cons d x => simp
  intro heq
  apply hlen
  rw [relativize, relativize, if_neg (hne t), if_neg (hne u)] at heq
  simp only [hslash] at heq
  split_ifs at heq
  · rw [(dropWhile_slash_append hc hx t).1, (dropWhile_slash_append hc hx u).1] at heq
    exact congrArg List.length (by simpa using heq)
  · exact congrArg List.length (by simpa using heq)

lemma length_relativize {r : Text} (h : relativize k t = some r) :
    r.length ≤ (upwards k).length + t.length := by
  have hle : (t.dropWhile (· == '/')).length ≤ t.length := (List.dropWhile_sublist _).length_le
  rw [relativize] at h
  split_ifs at h
  · rw [← Option.some.inj h, List.length_append]
    exact Nat.add_le_add_left hle _
  · rw [← Option.some.inj h]
    exact Nat.le_add_left _ _

lemma relativize_ne_of_blank (hx : ' ' ∈ x) : relativize k (x ++ t) ≠ relativize k t := by
  have hdots : ' ' ∉ upwards k := by
    simp only [upwards, List.mem_flatten, List.mem_replicate, not_exists, not_and]
    rintro w ⟨-, rfl⟩
    decide
  have hne : x ++ t ≠ [] := by
    rintro h
    rw [(List.append_eq_nil_iff.mp h).1] at hx
    simp at hx
  intro heq
  by_cases hs : ['/'] <+: x ++ t
  · obtain ⟨hdrop, hin⟩ := dropWhile_slash_append (by decide) hx t
    have hleft : relativize k (x ++ t) = some (upwards k ++ (x.dropWhile (· == '/') ++ t)) := by
      rw [relativize, if_neg hne, if_pos hs, hdrop]
    have hlen := length_relativize (heq.symm.trans hleft)
    have hpos := List.length_pos_of_mem hin
    simp only [List.length_append] at hlen
    omega
  · rw [relativize, if_neg hne, if_neg hs, relativize] at heq
    split_ifs at heq with hnil ht
    · -- only what leads upwards can stand before the end that both have in common
      obtain ⟨z, hz⟩ : ∃ z, z ++ t.dropWhile (· == '/') = t := ⟨_, List.takeWhile_append_dropWhile⟩
      have hcut : (x ++ z) ++ t.dropWhile (· == '/') = upwards k ++ t.dropWhile (· == '/') := by
        rw [List.append_assoc, hz]
        exact Option.some.inj heq
      rw [← List.append_cancel_right hcut] at hdots
      exact hdots (List.mem_append_left z hx)
    · rw [Option.some.injEq, List.append_left_eq_self] at heq
      rw [heq] at hx
      simp at hx

lemma relativize_ne_none (hx : x ≠ []) : relativize k x ≠ none := by
  rw [relativize, if_neg hx]
  split_ifs <;> simp

lemma parseSymlinkTarget_skip (h : Skips arrow x t) (k : ℕ) :
    parseSymlinkTarget (x ++ t) k = parseSymlinkTarget t k := by
  rw [parseSymlinkTarget_eq, parseSymlinkTarget_eq, breakOn_skip h]
  cases breakOn arrow t <;> rfl

lemma parseSymlinkTarget_append {a b : Text} (h : breakOn arrow x = some (a, b)) (t : Text)
    (k : ℕ) :
    parseSymlinkTarget (x ++ t) k = relativize k (b ++ t) := by
  rw [parseSymlinkTarget_eq, breakOn_append h]
  rfl

lemma exists_of_breakOn_blank {a r : Text} (h : breakOn arrow (' ' :: u) = some (a, r)) :
    ∃ y, u = y ++ r ∧ ' ' ∈ y := by
  obtain ⟨hcut, -⟩ := skips_of_breakOn h
  cases a with
  | nil => exact ⟨"-> ".toList, (List.cons.inj hcut).2, by decide⟩
  | cons d a => exact ⟨a ++ arrow, by simpa using (List.cons.inj hcut).2, by simp [arrow]⟩

lemma parseSymlinkTarget_blank (k : ℕ) :
    parseSymlinkTarget (' ' :: u) k = parseSymlinkTarget u k ↔
      ("-> ".toList <+: u → u = "-> ".toList) := by
  have harrow : arrow = ' ' :: "-> ".toList := rfl
  by_cases hp : "-> ".toList <+: u
  · obtain ⟨r, rfl⟩ := hp
    have hleft : parseSymlinkTarget (' ' :: ("-> ".toList ++ r)) k = relativize k r := by
      rw [parseSymlinkTarget_eq, ← List.cons_append, ← harrow, breakOn_self]
      rfl
    rw [hleft, parseSymlinkTarget_eq]
    cases hbreak : breakOn arrow ("-> ".toList ++ r) with
    | none =>
      by_cases hr : r = []
      · simp [hr, relativize]
      · simpa [hr] using relativize_ne_none hr
    | some p =>
      obtain ⟨a, b⟩ := p
      obtain ⟨hcut, -⟩ := skips_of_breakOn hbreak
      have hlen : 3 ≤ (a ++ " ->".toList).length := by simp
      have hr : r = ((a ++ " ->".toList).drop 3 ++ [' ']) ++ b := by
        rw [List.append_assoc, ← List.drop_append_of_le_length hlen]
        have hcut' : "-> ".toList ++ r = a ++ " ->".toList ++ ([' '] ++ b) := by simpa [arrow] using hcut
        exact congrArg (List.drop 3) hcut'
      have hne : relativize k r ≠ relativize k b := hr ▸ relativize_ne_of_blank (by simp)
      have hr' : r ≠ [] := by simp [hr]
      simpa [hr'] using hne
  · have hhead : Skips arrow [' '] u := by
      intro x y hxy hy hprefix
      obtain ⟨rfl, rfl⟩ : x = [] ∧ y = [' '] := by
        simpa [hy, eq_comm] using List.append_eq_singleton_iff.mp hxy.symm
      exact hp ((List.cons_prefix_cons.mp hprefix).2)
    have hskip := parseSymlinkTarget_skip hhead k
    exact iff_of_true hskip fun h => absurd h hp

lemma targets_agree {start base : Text} {d : Char} (hd : d.isDigit = true) (k : ℕ) :
    parseSymlinkTarget (start ++ d :: ' ' :: u) k =
        parseSymlinkTarget (start ++ d :: ' ' :: (base ++ '/' :: u)) k ↔
      ¬ arrow <:+: start ++ d :: ' ' :: base ∧ ("-> ".toList <+: u → u = "-> ".toList) := by
  have hdarrow : d ∉ arrow := by
    intro h
    have hnone : ∀ c ∈ arrow, c.isDigit = false := by decide
    rw [hnone d h] at hd
    contradiction
  have hends : ∀ t, start ++ d :: t = (start ++ [d]) ++ t := fun t => by simp
  rw [infix_append_cons hdarrow, not_or]
  by_cases hstart : arrow <:+: start
  · obtain ⟨⟨a, b⟩, hbreak⟩ :=
      Option.ne_none_iff_exists'.mp (mt (breakOn_eq_none (by decide)).mp (not_not_intro hstart))
    have hne := @relativize_append_ne k (b ++ [d]) (' ' :: u) (' ' :: (base ++ '/' :: u)) d
      (by rintro rfl; simp at hd) (by simp) (by simp; omega)
    rw [List.append_assoc, List.append_assoc] at hne
    rw [parseSymlinkTarget_append hbreak, parseSymlinkTarget_append hbreak]
    exact iff_of_false hne fun h => h.1.1 hstart
  · have hskip : ∀ t, parseSymlinkTarget (start ++ d :: t) k = parseSymlinkTarget t k := fun t => by
      rw [hends, parseSymlinkTarget_skip (skips_concat hdarrow hstart)]
    rw [hskip, hskip]
    by_cases hbase : arrow <:+: ' ' :: base
    · obtain ⟨⟨a, b⟩, hbreak⟩ :=
        Option.ne_none_iff_exists'.mp (mt (breakOn_eq_none (by decide)).mp (not_not_intro hbase))
      rw [← List.cons_append, parseSymlinkTarget_append hbreak, parseSymlinkTarget_eq]
      refine iff_of_false ?_ fun h => h.1.2 hbase
      cases hbreak' : breakOn arrow (' ' :: u) with
      | none => exact (relativize_ne_none (by simp)).symm
      | some p =>
        obtain ⟨y, hy, hblank⟩ := exists_of_breakOn_blank hbreak'
        have hne := @relativize_ne_of_blank k (b ++ '/' :: y) p.2 (by simp [hblank])
        rw [List.append_assoc, List.cons_append, ← hy] at hne
        exact hne.symm
    · have hskip' : Skips arrow (' ' :: base ++ ['/']) u := skips_concat (by decide) hbase
      have hcut : ' ' :: (base ++ '/' :: u) = (' ' :: base ++ ['/']) ++ u := by simp
      rw [hcut, parseSymlinkTarget_skip hskip', parseSymlinkTarget_blank]
      simp [hstart, hbase]

end Target

namespace LsObject

variable (o : LsObject) (pad : ℕ → ℕ) (dir : Text)

/-- No arrow stands before the name, nor at the blank before it. -/
def NoEarlierArrow : Prop :=
  ¬ arrow <:+: o.columns.line pad dir ∧ ("-> ".toList <+: o.shown → o.shown = "-> ".toList)

instance : Decidable (o.NoEarlierArrow pad dir) := inferInstanceAs (Decidable (_ ∧ _))

variable {o pad dir}

lemma targets_agree_iff (k : ℕ) :
    parseSymlinkTarget (o.listed pad) k = parseSymlinkTarget (o.stated pad dir) k ↔
      o.NoEarlierArrow pad dir := by
  obtain ⟨start, d, hd, hline⟩ := o.columns.line_cut pad
  have hdir : arrow <:+: o.columns.line pad dir ↔ arrow <:+: start ++ d :: ' ' :: baseOf dir := by
    rw [hline, baseOf]
    split_ifs with hroot
    · have hcut : start ++ d :: ' ' :: ['/'] = (start ++ d :: ' ' :: []) ++ '/' :: [] := by simp
      rw [hroot, hcut, infix_append_cons (by decide)]
      simp [arrow]
    · exact Iff.rfl
  rw [NoEarlierArrow, hdir, listed, stated, childText_append, hline, hline]
  exact targets_agree hd k

end LsObject

section Answers

variable {τ : Type} [AdbDevice τ] [Libc] {path line : Text} {m : FileMeta}

lemma listLines_append (before after : List Text) :
    listLines (before ++ after) =
      (listLines before).bind fun entries => (listLines after).map fun more => entries ++ more := by
  induction before with
  | nil =>
    rw [List.nil_append, listLines]
    cases listLines after <;> rfl
  | cons line before ih =>
    rw [List.cons_append, listLines, listLines, ih]
    cases listLine line <;> cases listLines before <;> cases listLines after <;> simp

omit [AdbDevice τ] in
lemma decodeMetadata_ok {s : DeviceOps τ} {rest : List Text} :
    (decodeMetadata path (line :: rest) s).1 = .ok m ↔
      ¬ permissionErrSuffix <:+ line ∧ parseLsLine line = some (some m) := by
  rw [decodeMetadata]
  by_cases hdenied : permissionErrSuffix <:+ line
  · simp [hdenied]
  · rw [if_neg hdenied]
    cases parseLsLine line with
    | none => simp [hdenied]
    | some r => cases r <;> simp [hdenied]

omit [AdbDevice τ] [Libc] in
lemma resolveSymlink_eq_iff {raw raw' : Text} (s : DeviceOps τ) :
    (resolveSymlink path raw : OpsM τ Text) = resolveSymlink path raw' ↔
      parseSymlinkTarget raw (path.count '/') = parseSymlinkTarget raw' (path.count '/') := by
  constructor
  · intro h
    have hs := congrArg Prod.fst (congrFun h s)
    simp only [resolveSymlink] at hs
    cases h1 : parseSymlinkTarget raw (path.count '/') <;>
      cases h2 : parseSymlinkTarget raw' (path.count '/') <;> simp_all
  · intro h
    rw [resolveSymlink, resolveSymlink, h]

end Answers

namespace LsObject

variable {τ : Type} [AdbDevice τ] [Libc] {o : LsObject} {pad : ℕ → ℕ} {dir : Text}

/-- What a listing has at the file's place, between what it has before and after, and what there is
to be found out about the file alone. -/
structure Agree (τ : Type) (o : LsObject) (dir : Text)
    (before after : List (Text × Option FileMeta))
    (listing : Result DeviceError (List (Text × Option FileMeta)))
    (stat : Result DeviceError FileMeta) : Prop where
  both : (∃ m, listing = .ok (before ++ (o.name, some m) :: after)) ↔ ∃ m, stat = .ok m
  same : ∀ m m', listing = .ok (before ++ (o.name, some m) :: after) → stat = .ok m' →
    SameMeta m m' ∧ (resolveSymlink (childText dir o.name) m.rawLine : OpsM τ Text) =
      resolveSymlink (childText dir o.name) m'.rawLine

variable {before after : List Text} {entries more : List (Text × Option FileMeta)}
  {s t : DeviceOps τ} {adb adb' : τ} {output : ShellOutput}

lemma listDir_listed {m : FileMeta}
    (hlist : AdbDevice.shell (lsDirCmd dir) s.adb = (.ok (before ++ o.listed pad :: after), adb))
    (hbefore : listLines before = some entries) (hafter : listLines after = some more) :
    (listDir dir s).1 = .ok (entries ++ (o.name, some m) :: more) ↔
      listLine (o.listed pad) = some (some (o.name, some m)) := by
  have hlines : listLines (before ++ o.listed pad :: after) =
      (listLine (o.listed pad)).map fun entry => entries ++ (entry.toList ++ more) := by
    rw [listLines_append, hbefore, listLines, hafter]
    cases listLine (o.listed pad) <;> rfl
  have htransport : DeviceOps.transport (AdbDevice.shell (lsDirCmd dir)) s =
      (.ok (before ++ o.listed pad :: after), { s with adb }) := by
    rw [DeviceOps.transport, Action.zoom_apply, Action.mapError_of_ok _ hlist]
  rw [listDir, Action.bind_of_ok htransport, hlines]
  rcases listLine (o.listed pad) with _ | _ | e
  · simp [Action.orCrash]
  · simp
  · simp

lemma getMetadata_stated {m : FileMeta}
    (hstat : AdbDevice.shellWithStderr (lsMetadataCmd (childText dir o.name)) t.adb =
      (.ok output, adb')) (houtput : output.stdout = [o.stated pad dir]) :
    (getMetadata (childText dir o.name) t).1 = .ok m ↔
      ¬ o.SeemsDenied ∧ parseLsLine (o.stated pad dir) = some (some m) := by
  rw [getMetadata_of_answer hstat, metadataLines, houtput, if_neg (by simp), decodeMetadata_ok,
    seemsDenied_stated]

theorem listing_agrees_with_stat
    (hrange : -2 ^ 63 ≤ Libc.mktime o.columns.stamp.tm ∧ Libc.mktime o.columns.stamp.tm < 2 ^ 63)
    (hlist : AdbDevice.shell (lsDirCmd dir) s.adb = (.ok (before ++ o.listed pad :: after), adb))
    (hbefore : listLines before = some entries) (hafter : listLines after = some more)
    (hstat : AdbDevice.shellWithStderr (lsMetadataCmd (childText dir o.name)) t.adb =
      (.ok output, adb')) (houtput : output.stdout = [o.stated pad dir]) :
    Agree τ o dir entries more (listDir dir s).1 (getMetadata (childText dir o.name) t).1 ↔
      Libc.mktime o.columns.stamp.tm < 0 ∨
      o.SeemsDenied ∧ ¬ (o.Unambiguous ∧ o.columns.Wide o.shown) ∨
      ¬ o.SeemsDenied ∧ o.Unambiguous ∧ o.columns.Wide o.shown ∧ o.NoEarlierArrow pad dir := by
  have hlisted : ∀ m, (listDir dir s).1 = .ok (entries ++ (o.name, some m) :: more) ↔
      o.Unambiguous ∧ parseLsLine (o.listed pad) = some (some m) := fun m =>
    (listDir_listed hlist hbefore hafter).trans listLine_listed
  have hstated := fun m => @getMetadata_stated τ _ _ o pad dir t adb' output m hstat houtput
  have hcolumns := fun shown m => @Columns.parseLsLine_eq_some_some o.columns pad shown _ m hrange
  have hresolve : ∀ {raw raw'}, raw = o.listed pad → raw' = o.stated pad dir →
      ((resolveSymlink (childText dir o.name) raw : OpsM τ Text) =
        resolveSymlink (childText dir o.name) raw' ↔ o.NoEarlierArrow pad dir) := by
    rintro raw raw' rfl rfl
    rw [resolveSymlink_eq_iff s, targets_agree_iff]
  simp only [listed, stated, hcolumns, wide_stated, true_and] at hlisted hstated
  constructor
  · rintro ⟨hboth, hsame⟩
    simp only [hlisted, hstated] at hboth hsame
    by_cases htime : 0 ≤ Libc.mktime o.columns.stamp.tm
    · have hboth' : (o.Unambiguous ∧ o.columns.Wide o.shown) ↔ ¬ o.SeemsDenied := by
        simpa [htime] using hboth
      by_cases hdenied : o.SeemsDenied
      · exact Or.inr (Or.inl ⟨hdenied, mt hboth'.mp (not_not_intro hdenied)⟩)
      · obtain ⟨hname, hwide⟩ := hboth'.mpr hdenied
        have hsame' := hsame _ _ ⟨hname, hwide, htime, rfl⟩ ⟨hdenied, htime, rfl⟩
        exact Or.inr (Or.inr ⟨hdenied, hname, hwide, (hresolve rfl rfl).mp hsame'.2⟩)
    · exact Or.inl (by omega)
  · intro h
    constructor
    · simp only [hlisted, hstated]
      rcases h with htime | ⟨hdenied, hnot⟩ | ⟨hdenied, hname, hwide, -⟩
      · simp [Int.not_le.mpr htime]
      · have hleft : ∀ P : Prop, ¬ (o.Unambiguous ∧ o.columns.Wide o.shown ∧ P) :=
          fun P h => hnot ⟨h.1, h.2.1⟩
        simp [hleft, hdenied]
      · simp [hdenied, hname, hwide]
    · intro m m' hm hm'
      obtain ⟨hname, hwide, htime, rfl⟩ := (hlisted m).mp hm
      obtain ⟨hdenied, -, rfl⟩ := (hstated m').mp hm'
      rcases h with hearly | ⟨h, -⟩ | ⟨-, -, -, hclear⟩
      · omega
      · contradiction
      · exact ⟨rfl, (hresolve rfl rfl).mpr hclear⟩

end LsObject

section Examples

attribute [local instance] plainLibc

lemma five_fits : (Extent.size 5).Fits .regularFile (some 1) := ⟨by decide, rfl⟩

def rootFile : Columns where
  kind := .regularFile
  perm := 0o644
  nlink := some 1
  owner := "root".toList
  group := "root".toList
  extent := .size 5
  stamp := epochStamp
  perm_lt := rootPerm_lt
  nlink_range := one_in_range
  owner_word := isWord_root
  group_word := isWord_root
  owner_not_count := root_not_count
  fits := five_fits

def namedFile (name : Text) (name_ok : IsName name) : LsObject where
  columns := rootFile
  name
  target := []
  name_ok
  plain := ⟨by decide, by decide⟩

def seemingDenial : LsObject := namedFile "x: Permission denied".toList (by decide)

example : seemingDenial.listed (fun _ => 0) =
    "-rw-r--r-- 1 root root 5 1970-01-01 00:00 x: Permission denied".toList := by decide

def listedFs (o : LsObject) : AdbFs MockAdb := mockFs (MockAdb.new [MockAdb.out [o.listed fun _ => 0]])

def statedFs (o : LsObject) : AdbFs MockAdb :=
  mockFs (MockAdb.new [MockAdb.out [o.stated (fun _ => 0) "/d".toList]])

theorem listing_agrees_with_stat_fails_for_seeming_denial :
    ¬ seemingDenial.Agree MockAdb "/d".toList [] []
      (listDir "/d".toList (listedFs seemingDenial).ops).1
      (getMetadata "/d/x: Permission denied".toList (statedFs seemingDenial).ops).1 := by
  intro h
  have hlisting : (listDir "/d".toList (listedFs seemingDenial).ops).1 = .ok [(seemingDenial.name,
      some (rootFile.fileMeta 0 (seemingDenial.listed fun _ => 0)))] := by decide
  have hstat : (getMetadata "/d/x: Permission denied".toList (statedFs seemingDenial).ops).1 =
      .error (.error (.permissionDenied "/d/x: Permission denied".toList)) := by decide
  obtain ⟨m, hm⟩ := h.both.mp ⟨_, hlisting⟩
  rw [hstat] at hm
  contradiction

theorem listing_agrees_with_stat_of_plain_name :
    (namedFile "f".toList (by decide)).Agree MockAdb "/d".toList [] []
      (listDir "/d".toList (listedFs (namedFile "f".toList (by decide))).ops).1
      (getMetadata "/d/f".toList (statedFs (namedFile "f".toList (by decide))).ops).1 :=
  (@LsObject.listing_agrees_with_stat MockAdb _ _ (namedFile "f".toList (by decide)) (fun _ => 0)
    "/d".toList [] [] [] [] _ _ _ _ ⟨[_], [], 0⟩ (by decide) rfl rfl rfl rfl rfl).mpr
    (by decide)

end Examples

end Adbfs
