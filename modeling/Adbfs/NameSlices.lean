import Adbfs.FailedListings
import Adbfs.Library.Slices

namespace Adbfs

open Library Library.Text Library.Action

namespace Sliced

def extractFilename (line : Text) : Checked (Option Text) :=
  match find [':'] line with
  | none => some none
  | some colonPos =>
    let nameStart := colonPos + 4
    if line.byteLen < nameStart then some none
    else do
      let name ← line.sliceFrom nameStart
      let name ← match find arrow name with
        | some pos => sliceTo pos name
        | none => some name
      some (if name = [] then none else some name)

def extractNameFromPermError (line : Text) : Checked (Option Text) :=
  match rfind '/' line, find [quote, ' '] line with
  | some lastSlash, some stop =>
    if lastSlash < stop then (slice (lastSlash + 1) stop line).map some else some none
  | _, _ => some none

lemma extractFilename_eq (line : Text) : extractFilename line = Adbfs.extractFilename line := by
  rw [extractFilename, Adbfs.extractFilename, find]
  cases breakOn [':'] line with
  | none => rfl
  | some p =>
    simp only [Option.map_some]
    split_ifs with hshort
    · rfl
    · congr 1
      funext name
      rw [find]
      cases hbreak : breakOn arrow name with
      | none => rfl
      | some q =>
        have hname := (skips_of_breakOn hbreak).1
        have hcut := sliceTo_byteLen q.1 (arrow ++ q.2)
        rw [← hname] at hcut
        simp only [Option.map_some, hcut]
        rfl

lemma byteLen_lt_iff {a b u v : Text} {c : Char} (h : a ++ c :: u = b ++ v) :
    byteLen a < byteLen b ↔ ∃ z, b = a ++ c :: z ∧ u = z ++ v := by
  constructor
  · intro hlt
    rcases List.append_eq_append_iff.mp h with ⟨y, rfl, hy⟩ | ⟨y, rfl, hy⟩
    · cases y with
      | nil => simp at hlt
      | cons d z =>
        obtain ⟨rfl, hu⟩ := List.cons.inj hy
        exact ⟨z, rfl, hu⟩
    · rw [byteLen_append] at hlt
      omega
  · rintro ⟨z, rfl, -⟩
    have hpos := Char.utf8Size_pos c
    rw [byteLen_append, byteLen_cons]
    omega

/-- A slash is one byte, so the name behind it starts at a character. -/
lemma extractNameFromPermError_eq (line : Text) :
    extractNameFromPermError line = some (Adbfs.extractNameFromPermError line) := by
  rw [extractNameFromPermError, Adbfs.extractNameFromPermError, find]
  cases hbreak : breakOn [quote, ' '] line with
  | none => cases rfind '/' line <;> rfl
  | some p =>
    obtain ⟨before, rest⟩ := p
    obtain ⟨hline, -⟩ := skips_of_breakOn hbreak
    have hdrop : line.drop before.length = [quote, ' '] ++ rest := by rw [hline, List.drop_left]
    simp only [Option.map_some, hdrop]
    by_cases hslash : '/' ∈ line
    · obtain ⟨a, b, hlast, hb⟩ := exists_last hslash
      have hrfind : rfind '/' line = some (byteLen a) := by rw [hlast, rfind_append a hb]
      have hguard := byteLen_lt_iff (hlast.symm.trans hline)
      rw [hrfind]
      by_cases hlt : byteLen a < byteLen before
      · obtain ⟨name, rfl, hrest⟩ := hguard.mp hlt
        have hname : '/' ∉ name := fun h => hb (hrest ▸ List.mem_append_left _ h)
        have hafter : '/' ∉ [quote, ' '] ++ rest := fun h => hb (hrest ▸ List.mem_append_right _ h)
        have hstart : byteLen (a ++ ['/']) = byteLen a + 1 := byteLen_append a ['/']
        have hslice := slice_byteLen (a ++ ['/']) name ([quote, ' '] ++ rest)
        have hwhole : a ++ ['/'] ++ (name ++ ([quote, ' '] ++ rest)) = line := by
          rw [hline]
          simp only [List.append_assoc, List.cons_append, List.nil_append]
        have hbefore : a ++ ['/'] ++ name = a ++ '/' :: name := List.append_assoc a ['/'] name
        have hread : (a ++ '/' :: name).rtakeWhile (· ≠ '/') = name := by
          rw [← hbefore, ListingLine.rtakeWhile_append hname, List.rtakeWhile_concat_neg]
          · rfl
          · simp
        rw [hwhole, hstart, hbefore] at hslice
        rw [if_pos ⟨by simp, hafter⟩, hread]
        simp only [if_pos hlt, hslice, Option.map_some]
      · have hback : ¬ ('/' ∈ before ∧ '/' ∉ [quote, ' '] ++ rest) := by
          rintro ⟨hmem, hafter⟩
          obtain ⟨x, z, rfl, hz⟩ := exists_last hmem
          have hcut : line = x ++ '/' :: (z ++ ([quote, ' '] ++ rest)) := by
            rw [hline, List.append_assoc, List.cons_append]
          have hlast' : rfind '/' line = some (byteLen x) := by
            rw [hcut]
            exact rfind_append x fun h => (List.mem_append.mp h).elim hz hafter
          -- the last slash of what stands before the quote is the last one of the line
          have hsame : byteLen a = byteLen x := Option.some.inj (hrfind.symm.trans hlast')
          have hshort := (byteLen_lt_iff (hcut.symm.trans hline)).mpr ⟨z, rfl, rfl⟩
          exact hlt (hsame ▸ hshort)
        rw [if_neg hback]
        simp only [if_neg hlt]
    · have hbefore : '/' ∉ before := fun h => hslash (hline ▸ List.mem_append_left _ h)
      rw [rfind_of_notMem hslash]
      exact congrArg some (if_neg fun h => hbefore h.1).symm

end Sliced

/-- The slices that name the entry of a line are in range and at characters' bounds. -/
def ExtractsName (line : Text) : Prop :=
  (isValidLsOutput line = true → Sliced.extractFilename line ≠ none) ∧
    (isValidLsOutput line = false → Sliced.extractNameFromPermError line ≠ none)

/-- The first colon of the line has less than three bytes behind it, or the third ends a
character. -/
def ColonFits (line : Text) : Prop :=
  ∀ before after, line = before ++ ':' :: after → ':' ∉ before →
    byteLen after < 3 ∨ IsCharBoundary 3 after

section Lines

variable {line before after : Text}

lemma byteLen_colon (before after : Text) :
    byteLen (before ++ ':' :: after) = byteLen before + 1 + byteLen after := by
  have hcolon : Char.utf8Size ':' = 1 := rfl
  rw [byteLen_append, byteLen_cons, hcolon, Nat.add_assoc]

lemma extractFilename_colon (hcolon : ':' ∉ before) :
    extractFilename (before ++ ':' :: after) = none ↔
      ¬ (byteLen after < 3 ∨ IsCharBoundary 3 after) := by
  have hstart : byteLen before + 4 = byteLen (before ++ [':']) + 3 := by
    rw [byteLen_append]
    rfl
  have hsplit : before ++ ':' :: after = (before ++ [':']) ++ after := by simp
  have hslice : (before ++ ':' :: after).sliceFrom (byteLen before + 4) = none ↔
      ¬ IsCharBoundary 3 after := by
    rw [← not_iff_not, not_not, ← isCharBoundary_append (before ++ [':']), ← hstart, ← hsplit]
    exact sliceFrom_ne_none_iff
  rw [extractFilename, breakOn_char hcolon, not_or]
  simp only [byteLen_colon]
  split_ifs with hshort
  · have hfew : byteLen after < 3 := by omega
    simp [hfew]
  · have hmany : ¬ byteLen after < 3 := by omega
    cases hname : sliceFrom (byteLen before + 4) (before ++ ':' :: after) with
    | none => simp [hmany, hslice.mp hname]
    | some name =>
      have hends : IsCharBoundary 3 after := not_not.mp (mt hslice.mpr (by simp [hname]))
      simp [hends]

lemma extractFilename_ne_none_iff : extractFilename line ≠ none ↔ ColonFits line := by
  constructor
  · rintro h before after rfl hcolon
    exact not_not.mp (mt (extractFilename_colon hcolon).mpr h)
  · intro hfits
    cases hbreak : breakOn [':'] line with
    | none => simp [extractFilename, hbreak]
    | some p =>
      obtain ⟨before, after⟩ := p
      obtain ⟨rfl, hfirst⟩ := (breakOn_eq_some_iff (by simp)).mp hbreak
      have hcolon : ':' ∉ before := by
        intro hmem
        obtain ⟨x, y, rfl⟩ := List.append_of_mem hmem
        exact hfirst ⟨x, y, by simp⟩
      exact mt (extractFilename_colon hcolon).mp (not_not.mpr (hfits before after rfl hcolon))

/-- Names are extracted where they are extracted from the lines taken for output: a denial's slice
cannot fail. -/
lemma extractsName_iff :
    ExtractsName line ↔ (isValidLsOutput line = true → ColonFits line) := by
  rw [ExtractsName, Sliced.extractFilename_eq, Sliced.extractNameFromPermError_eq,
    extractFilename_ne_none_iff]
  simp

lemma listLine_eq_none [Libc] (h : ¬ ExtractsName line) : listLine line = none := by
  have hvalid : isValidLsOutput line = true ∧ ¬ ColonFits line := by
    rwa [extractsName_iff, Classical.not_imp] at h
  have hname : extractFilename line = none := not_not.mp (mt extractFilename_ne_none_iff.mp hvalid.2)
  have hlong : ¬ byteLen line < 3 := by
    obtain ⟨before, after, rfl, -, hbad⟩ : ∃ before after, line = before ++ ':' :: after ∧
        ':' ∉ before ∧ ¬ (byteLen after < 3 ∨ IsCharBoundary 3 after) := by
      simpa only [ColonFits, not_forall, exists_prop] using hvalid.2
    have hmany := (not_or.mp hbad).1
    rw [byteLen_colon]
    omega
  rw [listLine, if_neg hlong, hvalid.1, hname]
  rfl

lemma listLines_eq_none [Libc] {lines : List Text} (hline : line ∈ lines)
    (h : ¬ ExtractsName line) : listLines lines = none := by
  rw [Option.eq_none_iff_forall_ne_some]
  intro entries hentries
  induction lines generalizing entries with
  | nil => simp at hline
  | cons l lines ih =>
    obtain ⟨entry, rest, hentry, hrest, -⟩ := listLines_cons.mp hentries
    rcases List.mem_cons.mp hline with rfl | hmem
    · simp [listLine_eq_none h] at hentry
    · exact ih hmem rest hrest

end Lines

/-- Names are sliced well if and only if every line that passes for output leaves three bytes of
whole characters behind its first colon; a listing with another line makes the handler panic, after
which the FUSE library answers with `EIO`. -/
theorem names_are_sliced_iff {τ : Type} [AdbDevice τ] [Libc] (lines : List Text) :
    ((∀ line ∈ lines, ExtractsName line) ↔
      ∀ line ∈ lines, isValidLsOutput line = true → ColonFits line) ∧
    ∀ (path : Text) (s : DeviceOps τ) (adb : τ),
      AdbDevice.shell (lsDirCmd path) s.adb = (.ok lines, adb) →
      (∃ line ∈ lines, ¬ ExtractsName line) → (listDir path s).1 = .error .panic := by
  refine ⟨forall₂_congr fun line _ => extractsName_iff, ?_⟩
  rintro path s adb hanswer ⟨line, hline, hbad⟩
  rw [listDir_of_answer hanswer, listLines_eq_none hline hbad]
  rfl

section Examples

attribute [local instance] plainLibc

/-- What a shell set to Portuguese prints for a file that it cannot open. -/
def accentedMessage : Text := "Erro: não foi possível abrir".toList

def accentedListingFs : AdbFs MockAdb := mockFs (MockAdb.new [MockAdb.out [accentedMessage]])

theorem names_are_sliced_iff_of_accented_message :
    ¬ ExtractsName accentedMessage ∧
      (listDir "/".toList accentedListingFs.ops).1 = .error .panic := by
  have hbad : ¬ ExtractsName accentedMessage := fun h => h.1 (by decide) (by decide)
  exact ⟨hbad, (names_are_sliced_iff [accentedMessage]).2 "/".toList accentedListingFs.ops _ rfl
    ⟨_, List.mem_singleton_self _, hbad⟩⟩

/-- The slice starts inside the letter with the tilde. The handler panics, and the reply that it drops
answers with EIO. -/
theorem names_are_sliced_fails_for_accented_message :
    isValidLsOutput accentedMessage = true ∧ Sliced.extractFilename accentedMessage = none ∧
      (AdbFs.serve (plainHost 0 0 0) (.opendir 1) accentedListingFs).1 = none :=
  ⟨by decide, by decide, by decide +kernel⟩

end Examples

end Adbfs
