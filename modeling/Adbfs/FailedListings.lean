import Adbfs.RoundTrip
import Adbfs.Upkeep

/-! What becomes of a listing that failed, on devices where the message comes as a line. -/

namespace Adbfs

open Library Library.Text Library.Action

namespace ListingLine

def IsEntry : ListingLine → Prop
  | object _ _ => True
  | denied _ _ => True
  | total _ => False
  | blank _ _ => False

end ListingLine

/-- No line of a listing: neither an entry nor a denial, and neither the header nor blank. -/
def IsMessage (line : Text) : Prop := ∀ dir (l : ListingLine), line ≠ l.text dir

def IsFailure (lines : List Text) : Prop :=
  (∃ line ∈ lines, IsMessage line) ∧ ∀ dir (l : ListingLine), l.IsEntry → l.text dir ∉ lines

def Ignored (line : Text) : Prop :=
  isValidLsOutput line = false ∧
    (permissionErrSuffix <:+ line → extractNameFromPermError line = none)

instance (line : Text) : Decidable (Ignored line) := inferInstanceAs (Decidable (_ ∧ (_ → _)))

section Lines

variable [Libc] {lines : List Text}

lemma listLine_of_ignored {line : Text} (h : Ignored line) : listLine line = some none := by
  by_cases hsuffix : permissionErrSuffix <:+ line
  · rw [listLine, h.1]
    simp [hsuffix, h.2 hsuffix]
  · exact ListingLine.listLine_ignored h.1 hsuffix

lemma listLines_of_ignored (h : ∀ line ∈ lines, Ignored line) : listLines lines = some [] := by
  induction lines with
  | nil => rfl
  | cons line lines ih =>
    rw [listLines_cons]
    exact ⟨none, [], listLine_of_ignored (h line (by simp)), ih fun l hl => h l (by simp [hl]), rfl⟩

end Lines

/-- The exit code tells nothing where something was printed. -/
lemma shellLines_of_isFailure {output : ShellOutput} (hfailure : IsFailure output.stdout) :
    AdbCli.shellLines output = .ok output.stdout := by
  obtain ⟨⟨line, hline, -⟩, -⟩ := hfailure
  have hsome : ¬ (output.stdout = [] ∧ output.exitCode ≠ 0) := by
    rintro ⟨hnil, -⟩
    simp [hnil] at hline
  rw [AdbCli.shellLines, if_neg hsome]

section Opening

variable {τ : Type} {h : Host} {path : Text} {w : AdbFs τ}

lemma listEntries_succeeds (entries : List (Text × Option FileMeta)) (w : AdbFs τ) :
    Ends (listEntries h path entries) w (fun _ _ => True) fun _ _ => False := by
  induction entries generalizing w with
  | nil => trivial
  | cons entry entries ih =>
    apply ends_bind.mpr
    have hentry : Ends (listEntry h path entry : FsM τ Errno _) w (fun _ _ => True)
        fun _ _ => False := by
      rw [listEntry]
      split_ifs
      · trivial
      · obtain ⟨name, _ | m⟩ := entry <;> trivial
    apply hentry.imp
    · intro first t _
      apply ends_bind.mpr
      exact (ih t).imp (fun _ _ _ => trivial) fun _ _ => id
    · exact fun _ _ => id

variable [AdbDevice τ] [Libc] {output : ShellOutput} {adb : τ} {ino : ℕ}

lemma listDir_of_answer {s : DeviceOps τ} {lines : List Text}
    (hanswer : AdbDevice.shell (lsDirCmd path) s.adb = (.ok lines, adb)) :
    listDir path s = Action.orCrash (listLines lines) { s with adb } := by
  rw [listDir]
  apply bind_of_ok
  rw [DeviceOps.transport, zoom_apply, mapError_of_ok _ hanswer]

lemma opendir_of_answer {lines : List Text} (hpath : w.inodes.getPath ino = some path)
    (hanswer : AdbDevice.shell (lsDirCmd path) w.ops.adb = (.ok lines, adb)) :
    Ends (AdbFs.opendir h ino) w
      (fun reply t => ∃ fh children, reply = .opened fh FopenFlags.none ∧
        t.openDirs.lookup fh =
          some (⟨ino, .directory, ['.']⟩ :: ⟨ino, .directory, ['.', '.']⟩ :: children) ∧
        (listLines lines = some [] → children = []))
      fun e _ => e = .panic ∧ listLines lines = none := by
  refine ends_getPath.mpr ⟨fun p hp => ?_, fun hnone => by simp [hpath] at hnone⟩
  obtain rfl : path = p := Option.some.inj (hpath.symm.trans hp)
  apply ends_bind.mpr
  apply ends_device.mpr
  rw [Ends, listDir_of_answer hanswer]
  cases hlines : listLines lines with
  | none => exact ⟨rfl, rfl⟩
  | some entries =>
    change Ends (listEntries h path entries >>= _) _ _ _
    have hchildren : Ends (listEntries h path entries) (w.setOps { w.ops with adb })
        (fun children _ => entries = [] → children = []) fun _ _ => False := by
      cases entries with
      | nil => exact fun _ => rfl
      | cons entry entries =>
        apply (listEntries_succeeds (entry :: entries) _).imp
        · exact fun _ _ _ hnil => absurd hnil (by simp)
        · exact fun _ _ => id
    apply ends_bind.mpr
    apply hchildren.imp
    · intro children t hnone
      refine ⟨_, children, rfl, AList.lookup_insert _, ?_⟩
      exact fun hempty => hnone (Option.some.inj hempty)
    · exact fun _ _ => False.elim

/-- Whatever the message and the exit code, neither the listing nor the `opendir` replies an error (a
line on which the handler panics leaves it to the FUSE library to answer with `EIO`); and where no
line is taken for a file, what is opened is an empty directory. -/
theorem failed_listing_is_no_error
    (hanswer : AdbDevice.shell (lsDirCmd path) w.ops.adb =
      Action.ofExcept (AdbCli.shellLines output) adb)
    (hfailure : IsFailure output.stdout) (hpath : w.inodes.getPath ino = some path) :
    (∀ e, (listDir path w.ops).1 ≠ .error (.error e)) ∧
      (∀ e, (AdbFs.serve h (.opendir ino) w).1 ≠ some (.error e)) ∧
      ((∀ line ∈ output.stdout, Ignored line) → (listDir path w.ops).1 = .ok [] ∧
        ∃ fh w', AdbFs.serve h (.opendir ino) w = (some (.opened fh FopenFlags.none), w') ∧
          w'.openDirs.lookup fh =
            some [⟨ino, .directory, ['.']⟩, ⟨ino, .directory, ['.', '.']⟩]) := by
  rw [shellLines_of_isFailure hfailure, ofExcept_ok] at hanswer
  have hlist := listDir_of_answer hanswer
  have hopen := opendir_of_answer (h := h) hpath hanswer
  refine ⟨fun e he => ?_, fun e he => ?_, fun hignored => ?_⟩
  · rw [hlist] at he
    cases hlines : listLines output.stdout <;> simp [hlines, Action.orCrash] at he
  · rcases hresult : AdbFs.opendir h ino w with ⟨e' | reply, w'⟩
    · obtain ⟨rfl, -⟩ := hopen.of_error hresult
      have hhandle : AdbFs.handle h (.opendir ino) w = _ := hresult
      simp [AdbFs.serve, hhandle] at he
    · obtain ⟨fh, children, rfl, -⟩ := hopen.of_ok hresult
      have hhandle : AdbFs.handle h (.opendir ino) w = _ := hresult
      simp [AdbFs.serve, hhandle] at he
  · have hlines := listLines_of_ignored hignored
    rw [hlines] at hlist
    refine ⟨by rw [hlist]; rfl, ?_⟩
    rcases hresult : AdbFs.opendir h ino w with ⟨e | reply, w'⟩
    · obtain ⟨-, hnone⟩ := hopen.of_error hresult
      simp [hlines] at hnone
    · obtain ⟨fh, children, rfl, hdir, hempty⟩ := hopen.of_ok hresult
      refine ⟨fh, w', ?_, by rw [hdir, hempty hlines]⟩
      have hhandle : AdbFs.handle h (.opendir ino) w = _ := hresult
      rw [AdbFs.serve, hhandle]

end Opening

section Examples

attribute [local instance] plainLibc

/-- What an old `ls` prints for a directory that is not there. -/
def opendirFailed : Text := "opendir failed, No such file or directory".toList

def failedOutput : ShellOutput := ⟨[opendirFailed], [], 0⟩

def failedFs : AdbFs MockAdb := mockFs (MockAdb.new [.ok failedOutput])

lemma isMessage_opendirFailed : IsMessage opendirFailed := by
  rintro dir (⟨o, pad⟩ | ⟨name, hname⟩ | n | ⟨t, ht⟩) heq
  · have hvalid := o.columns.isValidLsOutput_line pad o.shown
    have hsame : o.columns.line pad o.shown = opendirFailed := heq.symm
    rw [hsame] at hvalid
    exact absurd hvalid (by decide)
  · exact absurd (congrArg List.head? heq) (by decide : some 'o' ≠ some 'l')
  · exact absurd (congrArg List.head? heq) (by decide : some 'o' ≠ some 't')
  · have hblank : ∀ c ∈ opendirFailed, isWhitespace c = true := by
      rw [heq]
      exact ht
    exact absurd (hblank 'o' (by decide)) (by decide)

lemma isFailure_failedOutput : IsFailure failedOutput.stdout := by
  refine ⟨⟨_, List.mem_singleton_self _, isMessage_opendirFailed⟩, fun dir l _ hl => ?_⟩
  exact isMessage_opendirFailed dir l (List.mem_singleton.mp hl).symm

/-- The message is dropped. -/
theorem failed_listing_is_no_error_fails_for_opendir :
    IsFailure failedOutput.stdout ∧ AdbCli.shellLines failedOutput = .ok failedOutput.stdout ∧
      (listDir "/".toList failedFs.ops).1 = .ok [] ∧
      (AdbFs.serve (plainHost 0 0 0) (.opendir 1) failedFs).1 = some (.opened 1 FopenFlags.none) :=
  ⟨isFailure_failedOutput, by decide, by decide, by decide +kernel⟩

theorem failed_listing_is_no_error_of_opendir :
    (AdbFs.serve (plainHost 0 0 0) (.opendir 1) failedFs).1 ≠ some (.error .enoent) ∧
      (listDir "/".toList failedFs.ops).1 = .ok [] := by
  have hlisting := @failed_listing_is_no_error MockAdb (plainHost 0 0 0) "/".toList failedFs _ _
    failedOutput _ 1 rfl isFailure_failedOutput (by decide)
  exact ⟨hlisting.2.1 .enoent, (hlisting.2.2 (by decide)).1⟩

end Examples

end Adbfs
