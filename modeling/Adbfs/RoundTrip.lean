import Adbfs.Listing

namespace Adbfs

open Library Library.Text Library.Paths

inductive ListingLine where
  | object (o : LsObject) (pad : ℕ → ℕ)
  | denied (name : Text) (name_ok : IsName name)
  | total (n : ℕ)
  | blank (t : Text) (blank : ∀ c ∈ t, isWhitespace c = true)

namespace ListingLine

def refusal : Text := "failed: Permission denied".toList

def quotedIn (dir name : Text) : Text := "lstat ".toList ++ quote :: (dir ++ '/' :: name)

def text (dir : Text) : ListingLine → Text
  | object o pad => o.listed pad
  | denied name _ => quotedIn dir name ++ ([quote, ' '] ++ refusal)
  | total n => "total ".toList ++ decimal n
  | blank t _ => t

def expected [Libc] : ListingLine → Option (Text × Option FileMeta)
  | object o pad => some (o.name, some
      (o.columns.fileMeta (Libc.mktime o.columns.stamp.tm * 10 ^ 9) (o.listed pad)))
  | denied name _ => some (name, none)
  | total _ => none
  | blank _ _ => none

/-- The marks that end a name are not found within it. -/
def Sound [Libc] (dir : Text) : ListingLine → Prop
  | object o _ => o.Unambiguous ∧ o.columns.Wide o.shown ∧ 0 ≤ Libc.mktime o.columns.stamp.tm
  | denied name _ => ¬ [quote, ' '] <:+: quote :: (dir ++ '/' :: name)
  | total _ => True
  | blank _ _ => True

instance [Libc] (dir : Text) : DecidablePred (Sound dir)
  | object _ _ => inferInstanceAs (Decidable (_ ∧ _ ∧ _))
  | denied _ _ => inferInstanceAs (Decidable (¬ _))
  | total _ => .isTrue trivial
  | blank _ _ => .isTrue trivial

section Denied

variable {dir name : Text}

lemma rtakeWhile_append {x z : Text} (hz : '/' ∉ z) :
    (x ++ z).rtakeWhile (· ≠ '/') = x.rtakeWhile (· ≠ '/') ++ z := by
  rw [List.rtakeWhile, List.reverse_append, List.takeWhile_append_of_pos]
  · simp [List.rtakeWhile]
  · intro c hc
    simp only [decide_eq_true_eq]
    rintro rfl
    exact hz (List.mem_reverse.mp hc)

lemma quotedIn_eq : quotedIn dir name = "lstat ".toList ++ quote :: (dir ++ '/' :: name) :=
  Eq.refl _

lemma rtakeWhile_quotedIn (hname : '/' ∉ name) :
    (quotedIn dir name).rtakeWhile (· ≠ '/') = name := by
  have hcut : quotedIn dir name = ("lstat ".toList ++ quote :: dir ++ ['/']) ++ name := by
    simp only [quotedIn_eq, List.append_assoc, List.cons_append, List.nil_append]
  rw [hcut, rtakeWhile_append hname]
  simp [List.rtakeWhile]

lemma infix_quotedIn : [quote, ' '] <:+: quotedIn dir name ++ [quote] ↔
    [quote, ' '] <:+: quote :: (dir ++ '/' :: name) := by
  have hlast : ¬ [quote, ' '] <:+ quotedIn dir name ++ [quote] := by
    intro h
    have hend := List.suffix_append (quotedIn dir name) [quote]
    have hquote : [quote] <:+ [quote, ' '] := List.suffix_of_suffix_length_le hend h (by simp)
    exact absurd hquote (by decide)
  rw [List.infix_concat_iff, or_iff_right hlast, quotedIn_eq]
  simp [List.infix_cons_iff, quote]

lemma extractNameFromPermError_denied (hname : IsName name) :
    extractNameFromPermError
        (quotedIn dir name ++ ([quote, ' '] ++ refusal)) = some name ↔
      ¬ [quote, ' '] <:+: quote :: (dir ++ '/' :: name) := by
  have hmarks : [quote, ' '] ≠ [] := by simp
  have hend : '/' ∉ [quote, ' '] ++ refusal := by decide
  rw [← infix_quotedIn, extractNameFromPermError]
  constructor
  · intro h hearly
    obtain ⟨⟨a, b⟩, hbreak⟩ :=
      Option.ne_none_iff_exists'.mp (mt (breakOn_eq_none hmarks).mp (not_not_intro hearly))
    have hline : quotedIn dir name ++ ([quote, ' '] ++ refusal) =
        (quotedIn dir name ++ [quote]) ++ ' ' :: refusal := by simp
    -- the name that is read ends before the one that was meant
    obtain ⟨z, hz, hquoted⟩ : ∃ z, z ≠ [] ∧ quotedIn dir name = a ++ z := by
      have hcut := (skips_of_breakOn hbreak).1
      have hlen := congrArg List.length hcut
      simp only [List.length_append, List.length_cons, List.length_nil] at hlen
      have ha : a <+: quotedIn dir name :=
        List.prefix_of_prefix_length_le ⟨_, hcut.symm⟩ (List.prefix_append _ _) (by omega)
      obtain ⟨z, hz⟩ := ha
      refine ⟨z, ?_, hz.symm⟩
      rintro rfl
      rw [List.append_nil] at hz
      simp [hz] at hlen
      omega
    rw [hline, breakOn_append hbreak] at h
    simp only [Option.ite_none_right_eq_some, Option.some.injEq] at h
    obtain ⟨⟨-, hafter⟩, hread⟩ := h
    have hz' : '/' ∉ z := by
      rw [hquoted, List.append_assoc, List.append_assoc, List.drop_left] at hafter
      exact fun hmem => hafter (List.mem_append_left _ hmem)
    have hmeant := @rtakeWhile_quotedIn dir name hname.2
    rw [hquoted, rtakeWhile_append hz', hread, List.append_right_eq_self] at hmeant
    exact hz hmeant
  · intro hfirst
    have hbreak : breakOn [quote, ' '] (quotedIn dir name ++ ([quote, ' '] ++ refusal)) =
        some (quotedIn dir name, refusal) := by
      rw [breakOn_eq_some_iff hmarks]
      exact ⟨Eq.refl _, hfirst⟩
    have hslash : '/' ∈ quotedIn dir name :=
      List.mem_append_right _ (List.mem_cons_of_mem _ (by simp))
    rw [hbreak]
    simp only [List.drop_left]
    rw [if_pos ⟨hslash, hend⟩, rtakeWhile_quotedIn hname.2]

end Denied

lemma listLine_denied [Libc] {dir name : Text} :
    listLine (quotedIn dir name ++ ([quote, ' '] ++ refusal)) =
      some ((extractNameFromPermError (quotedIn dir name ++ ([quote, ' '] ++ refusal))).map
        fun name => (name, none)) := by
  have hend : permissionErrSuffix <:+ [quote, ' '] ++ refusal := by decide
  have hsuffix := hend.trans (List.suffix_append (quotedIn dir name) _)
  have hlen : ¬ byteLen (quotedIn dir name ++ ([quote, ' '] ++ refusal)) < 3 := by
    have hclosing : byteLen ([quote, ' '] ++ refusal) = 27 := by decide
    rw [byteLen_append, hclosing]
    omega
  have hinvalid : isValidLsOutput (quotedIn dir name ++ ([quote, ' '] ++ refusal)) = false := by
    have hstart : isValidLsOutput "lstat ".toList = false := by decide
    rw [quotedIn_eq, List.append_assoc, Columns.isValidLsOutput_append (by decide), hstart]
  rw [listLine, if_neg hlen, hinvalid]
  simp only [Bool.not_false, if_true, if_pos hsuffix]

lemma listLine_ignored [Libc] {t : Text} (hinvalid : isValidLsOutput t = false)
    (hsuffix : ¬ permissionErrSuffix <:+ t) : listLine t = some none := by
  rw [listLine, hinvalid]
  simp [hsuffix]

lemma listLine_total [Libc] (n : ℕ) : listLine ("total ".toList ++ decimal n) = some none := by
  have hinvalid : isValidLsOutput ("total ".toList ++ decimal n) = false := by
    have hstart : isValidLsOutput "total ".toList = false := by decide
    rw [Columns.isValidLsOutput_append (by decide), hstart]
  have hsuffix : ¬ permissionErrSuffix <:+ "total ".toList ++ decimal n := by
    intro h
    have hcolon : ':' ∈ "total ".toList ++ decimal n := h.subset (by decide)
    rcases List.mem_append.mp hcolon with hmem | hmem
    · exact absurd hmem (by decide)
    · exact absurd (Nat.isDigit_of_mem_toDigits (by decide) (by decide) hmem) (by decide)
  exact listLine_ignored hinvalid hsuffix

def whitespaceCodes : List ℕ :=
  [9, 10, 11, 12, 13, 0x20, 0x85, 0xA0, 0x1680, 0x2000, 0x2001, 0x2002, 0x2003, 0x2004, 0x2005,
    0x2006, 0x2007, 0x2008, 0x2009, 0x200A, 0x2028, 0x2029, 0x202F, 0x205F, 0x3000]

lemma encoding_of_isWhitespace {c : Char} (hc : isWhitespace c = true) :
    ∀ b ∈ String.utf8EncodeChar c, b ≠ 'r'.toUInt8 ∧ b ≠ '-'.toUInt8 := by
  have hlist : c.toNat ∈ whitespaceCodes := by
    simp only [isWhitespace, Bool.or_eq_true, Bool.and_eq_true, decide_eq_true_eq, beq_iff_eq] at hc
    simp only [whitespaceCodes, List.mem_cons, List.not_mem_nil, or_false]
    omega
  have hbytes : ∀ n ∈ whitespaceCodes, 'r'.toUInt8 ∉ String.utf8EncodeChar (Char.ofNat n) ∧
      '-'.toUInt8 ∉ String.utf8EncodeChar (Char.ofNat n) := by decide
  obtain ⟨hr, hdash⟩ := hbytes _ hlist
  rw [Char.ofNat_toNat] at hr hdash
  exact fun b hb => ⟨fun h => hr (h ▸ hb), fun h => hdash (h ▸ hb)⟩

lemma isValidLsOutput_blank {t : Text} (ht : ∀ c ∈ t, isWhitespace c = true) :
    isValidLsOutput t = false := by
  have hbytes : ∀ b ∈ t.bytes, b ≠ 'r'.toUInt8 ∧ b ≠ '-'.toUInt8 := by
    intro b hb
    obtain ⟨c, hc, hb⟩ := List.mem_flatMap.mp hb
    exact encoding_of_isWhitespace (ht c hc) b hb
  rw [isValidLsOutput]
  rcases hb : t.bytes with _ | ⟨b0, _ | ⟨b1, w⟩⟩
  · rfl
  · rfl
  · rw [hb] at hbytes
    have hb1 := hbytes b1 (by simp)
    simp [hb1]

lemma listLine_blank [Libc] {t : Text} (ht : ∀ c ∈ t, isWhitespace c = true) :
    listLine t = some none := by
  apply listLine_ignored (isValidLsOutput_blank ht)
  intro h
  exact absurd (ht ':' (h.subset (by decide))) (by decide)

variable [Libc] {dir : Text}

lemma listLine_text
    (hrange : ∀ tm, -2 ^ 63 ≤ Libc.mktime tm ∧ Libc.mktime tm < 2 ^ 63) (l : ListingLine) :
    listLine (l.text dir) = some l.expected ↔ l.Sound dir := by
  cases l with
  | object o pad =>
    change listLine (o.listed pad) = some (some (o.name, some _)) ↔ _
    rw [LsObject.listLine_listed, LsObject.listed,
      Columns.parseLsLine_eq_some_some _ _ (hrange o.columns.stamp.tm)]
    simp [Sound]
  | denied name name_ok =>
    change listLine (quotedIn dir name ++ ([quote, ' '] ++ refusal)) = some (some (name, none)) ↔ _
    rw [listLine_denied, Sound, ← extractNameFromPermError_denied name_ok]
    simp
  | total n => exact iff_of_true (listLine_total n) trivial
  | blank t ht => exact iff_of_true (listLine_blank ht) trivial

lemma length_listLine_text {l : ListingLine} {entry : Option (Text × Option FileMeta)}
    (h : listLine (l.text dir) = some entry) : entry.toList.length ≤ l.expected.toList.length := by
  have hone : entry.toList.length ≤ 1 := by cases entry <;> simp
  cases l with
  | object o pad => exact hone
  | denied name name_ok => exact hone
  | total n =>
    rw [← Option.some.inj ((listLine_total n).symm.trans h)]
    simp
  | blank t ht =>
    rw [← Option.some.inj ((listLine_blank ht).symm.trans h)]
    simp

lemma filterMap_expected (l : ListingLine) (lines : List ListingLine) :
    (l :: lines).filterMap expected = l.expected.toList ++ lines.filterMap expected := by
  rw [List.filterMap_cons]
  cases l.expected <;> rfl

lemma length_listLines_text {lines : List ListingLine} {entries : List (Text × Option FileMeta)}
    (h : listLines (lines.map (text dir)) = some entries) :
    entries.length ≤ (lines.filterMap expected).length := by
  induction lines generalizing entries with
  | nil =>
    obtain rfl : [] = entries := Option.some.inj h
    exact Nat.zero_le _
  | cons l lines ih =>
    obtain ⟨entry, rest, hentry, hrest, rfl⟩ := listLines_cons.mp h
    rw [filterMap_expected, List.length_append, List.length_append]
    exact Nat.add_le_add (length_listLine_text hentry) (ih hrest)

/-- No line stands for more entries than it should, so none makes up for another. -/
lemma listLines_text (hrange : ∀ tm, -2 ^ 63 ≤ Libc.mktime tm ∧ Libc.mktime tm < 2 ^ 63)
    (lines : List ListingLine) : listLines (lines.map (text dir)) = some (lines.filterMap expected) ↔
      ∀ l ∈ lines, l.Sound dir := by
  induction lines with
  | nil => simp [listLines]
  | cons l lines ih =>
    rw [List.forall_mem_cons, ← ih, ← listLine_text hrange, filterMap_expected, List.map_cons,
      listLines_cons]
    constructor
    · rintro ⟨entry, rest, hentry, hrest, hsame⟩
      have hlen := length_listLine_text hentry
      have hlens := length_listLines_text hrest
      have hsum := congrArg List.length hsame
      rw [List.length_append, List.length_append] at hsum
      obtain ⟨hhead, htail⟩ := List.append_inj hsame (by omega)
      have hhead' : entry = l.expected := by
        simpa using congrArg List.head? hhead
      exact ⟨hhead' ▸ hentry, htail ▸ hrest⟩
    · rintro ⟨hentry, hrest⟩
      exact ⟨_, _, hentry, hrest, rfl⟩

end ListingLine

theorem listDir_round_trip {τ : Type} [AdbDevice τ] [Libc] {dir : Text} {lines : List ListingLine}
    {s : DeviceOps τ} {adb : τ}
    (hrange : ∀ tm, -2 ^ 63 ≤ Libc.mktime tm ∧ Libc.mktime tm < 2 ^ 63)
    (hlist : AdbDevice.shell (lsDirCmd dir) s.adb =
      (.ok (lines.map (ListingLine.text dir)), adb)) :
    (listDir dir s).1 = .ok (lines.filterMap ListingLine.expected) ↔
      ∀ l ∈ lines, l.Sound dir := by
  have htransport : DeviceOps.transport (AdbDevice.shell (lsDirCmd dir)) s =
      (.ok (lines.map (ListingLine.text dir)), { s with adb }) := by
    rw [DeviceOps.transport, Action.zoom_apply, Action.mapError_of_ok _ hlist]
  rw [listDir, Action.bind_of_ok htransport, ← ListingLine.listLines_text hrange]
  cases listLines (lines.map (ListingLine.text dir)) <;> simp [Action.orCrash]

section Examples

attribute [local instance] plainLibc

def listingFs (lines : List ListingLine) : AdbFs MockAdb :=
  mockFs (MockAdb.new [MockAdb.out (lines.map (ListingLine.text "/d".toList))])

def arrowLines : List ListingLine :=
  [.total 8, .object (namedFile "a -> b".toList (by decide)) fun _ => 0]

/-- The file is listed under the name of another. -/
theorem listDir_round_trip_fails_for_arrow :
    (listDir "/d".toList (listingFs arrowLines).ops).1 ≠
      .ok (arrowLines.filterMap ListingLine.expected) := by
  decide

def plainLines : List ListingLine :=
  [.total 8, .object (namedFile " a: b ".toList (by decide)) fun _ => 3, .blank " ".toList (by decide),
    .denied "efs".toList (by decide)]

example : (plainLines.map (ListingLine.text "/d".toList)).getLast? =
    some ("lstat ".toList ++ quote :: "/d/efs".toList ++ quote ::
      " failed: Permission denied".toList) := by decide

theorem listDir_round_trip_of_plain_names :
    (listDir "/d".toList (listingFs plainLines).ops).1 =
      .ok (plainLines.filterMap ListingLine.expected) :=
  (@listDir_round_trip MockAdb _ _ "/d".toList plainLines _ _
    (fun _ => (by decide : (-2 ^ 63 : ℤ) ≤ 0 ∧ (0 : ℤ) < 2 ^ 63)) rfl).mpr (by decide)

end Examples

end Adbfs
