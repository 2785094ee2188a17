import Adbfs.Library.Outcome
import Adbfs.Library.Search
import Adbfs.Mock

namespace Adbfs

open Library Library.Text Library.Action

section Silence

/-- The command printed only blank lines, on either stream. -/
def PrintsNothing (output : ShellOutput) : Prop :=
  ∀ line ∈ output.stderr ++ output.stdout, ∀ c ∈ line, isWhitespace c = true

def Silent (output : ShellOutput) : Prop := PrintsNothing output ∧ output.exitCode = 0

lemma trim_eq_nil {t : Text} : trim t = [] ↔ ∀ c ∈ t, isWhitespace c = true := by
  rw [trim, List.rdropWhile_eq_nil_iff]
  constructor
  · intro h
    rw [← List.dropWhile_eq_nil_iff]
    cases hd : t.dropWhile isWhitespace with
    | nil => rfl
    | cons c u =>
      rw [hd] at h
      have hhead := List.head_dropWhile_not isWhitespace (by rw [hd]; simp : t.dropWhile isWhitespace ≠ [])
      simp only [hd, List.head_cons] at hhead
      exact absurd (h c (by simp)) (by simp [hhead])
  · exact fun h c hc => h c ((List.dropWhile_suffix _).subset hc)

lemma firstMessage_eq_none {output : ShellOutput} :
    firstMessage output = none ↔ PrintsNothing output := by
  simp only [firstMessage, PrintsNothing, List.find?_eq_none, List.forall_mem_map, ne_eq, decide_not,
    Bool.not_eq_true', decide_eq_false_iff_not, not_not, trim_eq_nil]

end Silence

/-- The operations that change something on the device by a command. A touch without a time sends
none. -/
inductive Mutation where
  | mkdir (path : Text)
  | rm (path : Text)
  | rmdir (path : Text)
  | mv (source target : Text)
  | touch (path : Text) (atime mtime : Option SystemTime) (timed : atime ≠ none ∨ mtime ≠ none)

namespace Mutation

def perform {τ : Type} [AdbDevice τ] : Mutation → OpsM τ Unit
  | .mkdir path => Adbfs.mkdir path
  | .rm path => Adbfs.rm path
  | .rmdir path => Adbfs.rmdir path
  | .mv source target => Adbfs.mv source target
  | .touch path atime mtime _ => Adbfs.touch path atime mtime

def IsTouch : Mutation → Prop
  | .touch _ _ _ _ => True
  | _ => False

end Mutation

section Answers

def answering (outputs : List ShellOutput) (gnu : Bool) : DeviceOps MockAdb :=
  ⟨MockAdb.new (outputs.map .ok), gnu, false⟩

def silence : ShellOutput := ⟨[], [], 0⟩

def nextAnswer (outputs : List ShellOutput) : ShellOutput := outputs.headD silence

def lastAnswer (outputs : List ShellOutput) (d : MockAdb) : ShellOutput :=
  outputs.getD (d.commands.length - 1) silence

/-- Success is reported exactly where the last command was silent, and an error everywhere else. -/
def Reports (m : Mutation) (outputs : List ShellOutput) (gnu : Bool) : Prop :=
  let (result, s) := m.perform (answering outputs gnu)
  (Silent (lastAnswer outputs s.adb) → result = .ok ()) ∧
    (¬ Silent (lastAnswer outputs s.adb) → ∃ e, result = .error (.error e))

def asked (cmd : Text) (outputs : List ShellOutput) (s : DeviceOps MockAdb) : DeviceOps MockAdb :=
  { s with adb := { s.adb with
      responses := outputs.tail.map .ok
      commands := s.adb.commands ++ [cmd] } }

variable {outputs : List ShellOutput} {s : DeviceOps MockAdb} {cmd : Text}
  {Q : Unit → DeviceOps MockAdb → Prop} {E : Abort DeviceError → DeviceOps MockAdb → Prop}

lemma shellWithStderr_mock (hs : s.adb.responses = outputs.map .ok) :
    DeviceOps.transport (AdbDevice.shellWithStderr cmd) s =
      (.ok (nextAnswer outputs), asked cmd outputs s) := by
  cases outputs with
  | nil =>
    have hnone : s.adb.responses = [] := hs
    simp [DeviceOps.transport, zoom_apply, Action.mapError, AdbDevice.shellWithStderr,
      MockAdb.answer, MockAdb.next, hnone, MockAdb.out, asked, nextAnswer, silence]
  | cons output outputs =>
    have hsome : s.adb.responses = .ok output :: outputs.map .ok := hs
    simp [DeviceOps.transport, zoom_apply, Action.mapError, AdbDevice.shellWithStderr,
      MockAdb.answer, MockAdb.next, hsome, asked, nextAnswer]

lemma ends_ask {f : ShellOutput → OpsM MockAdb Unit} (hs : s.adb.responses = outputs.map .ok) :
    Ends (DeviceOps.transport (AdbDevice.shellWithStderr cmd) >>= f) s Q E ↔
      Ends (f (nextAnswer outputs)) (asked cmd outputs s) Q E := by
  simp only [Ends, bind_of_ok (shellWithStderr_mock hs)]

lemma runMutation_reports (hs : s.adb.responses = outputs.map .ok) :
    Ends (runMutation cmd) s (fun _ t => Silent (nextAnswer outputs) ∧ t = asked cmd outputs s)
      fun e t => (∃ d, e = .error d) ∧ ¬ Silent (nextAnswer outputs) ∧
        t = asked cmd outputs s := by
  apply (ends_ask hs).mpr
  rw [Silent, ← firstMessage_eq_none]
  cases hmessage : firstMessage (nextAnswer outputs) with
  | some message => exact ⟨⟨_, rfl⟩, by simp, rfl⟩
  | none =>
    dsimp only
    split_ifs with hexit
    · exact ⟨⟨_, rfl⟩, fun hsilent => hexit hsilent.2, rfl⟩
    · exact ⟨⟨rfl, not_not.mp hexit⟩, rfl⟩

def rejectsDate (output : ShellOutput) : Bool :=
  match firstMessage output with
  | some message =>
    decide (touchToyboxErrPrefix <+: message ∨ touchBusyboxErrPrefix <+: message)
  | none => false

section Touch

variable {gnu : Bool} {path : Text} {atime mtime : Option SystemTime} {retry : OpsM MockAdb Unit}

def touchText (path : Text) (atime mtime : Option SystemTime) (gnu : Bool) : Text :=
  List.intercalate " && ".toList (touchParts path atime mtime gnu)

lemma touchParts_ne_nil (timed : atime ≠ none ∨ mtime ≠ none) :
    touchParts path atime mtime gnu ≠ [] := by
  rcases timed with h | h
  · obtain ⟨time, rfl⟩ := Option.ne_none_iff_exists'.mp h
    simp [touchParts]
  · obtain ⟨time, rfl⟩ := Option.ne_none_iff_exists'.mp h
    simp [touchParts]

/-- The exit code plays no part. -/
lemma touchRound_final (hs : s.adb.responses = outputs.map .ok) (hrescan : s.rescan = false)
    (timed : atime ≠ none ∨ mtime ≠ none)
    (hfinal : gnu = false ∨ rejectsDate (nextAnswer outputs) = false) :
    Ends (touchRound gnu path atime mtime retry) s
      (fun _ t => PrintsNothing (nextAnswer outputs) ∧
        t = asked (touchText path atime mtime gnu) outputs s)
      fun e t => ¬ PrintsNothing (nextAnswer outputs) ∧
        t = asked (touchText path atime mtime gnu) outputs s ∧ ∃ d, e = .error d := by
  rw [touchRound, if_neg (touchParts_ne_nil timed)]
  apply (ends_ask hs).mpr
  rw [← firstMessage_eq_none]
  cases hmessage : firstMessage (nextAnswer outputs) with
  | none =>
    dsimp only
    rw [whenRescan]
    apply ends_bind.mpr
    apply ends_read.mpr
    rw [if_neg (by simp [asked, hrescan])]
    exact ⟨rfl, rfl⟩
  | some message =>
    dsimp only
    split_ifs with hdate hmode
    · exact ⟨by simp, rfl, _, rfl⟩
    · have hrejected : rejectsDate (nextAnswer outputs) = true := by
        rw [rejectsDate, hmessage]
        exact decide_eq_true hdate
      simp [hrejected] at hfinal
      simp [hfinal] at hmode
    · exact ⟨by simp, rfl, _, rfl⟩

lemma touchRound_again (hs : s.adb.responses = outputs.map .ok)
    (timed : atime ≠ none ∨ mtime ≠ none) (hrejects : rejectsDate (nextAnswer outputs) = true) :
    touchRound true path atime mtime retry s =
      retry { asked (touchText path atime mtime true) outputs s with touchGnuMode := false } := by
  rw [touchRound, if_neg (touchParts_ne_nil timed)]
  refine (bind_of_ok (shellWithStderr_mock hs)).trans ?_
  rw [rejectsDate] at hrejects
  cases hmessage : firstMessage (nextAnswer outputs) with
  | none => simp [hmessage] at hrejects
  | some message =>
    rw [hmessage] at hrejects
    dsimp only
    rw [if_pos (of_decide_eq_true hrejects)]
    rfl

end Touch

namespace Mutation

/-- The answer that decides: a touch whose date is rejected is asked again in the older dialect. -/
def finalAnswer (outputs : List ShellOutput) (gnu : Bool) : Mutation → ShellOutput
  | .touch _ _ _ _ =>
    if gnu && rejectsDate (nextAnswer outputs) then nextAnswer outputs.tail
    else nextAnswer outputs
  | _ => nextAnswer outputs

end Mutation

lemma lastAnswer_one (cmd : Text) (outputs : List ShellOutput) (gnu : Bool) :
    lastAnswer outputs (asked cmd outputs (answering outputs gnu)).adb = nextAnswer outputs := by
  cases outputs <;> rfl

lemma reports_of_runMutation {m : Mutation} {cmd : Text} (outputs : List ShellOutput) (gnu : Bool)
    (hm : m.perform (answering outputs gnu) = runMutation cmd (answering outputs gnu)) :
    Reports m outputs gnu := by
  have hends := @runMutation_reports outputs (answering outputs gnu) cmd rfl
  rw [Reports, hm]
  rcases hresult : runMutation cmd (answering outputs gnu) with ⟨r, t⟩
  cases r with
  | ok u =>
    obtain ⟨hsilent, rfl⟩ := hends.of_ok hresult
    simp [lastAnswer_one, hsilent]
  | error e =>
    obtain ⟨⟨d, rfl⟩, hnot, rfl⟩ := hends.of_error hresult
    simp [lastAnswer_one, hnot]

lemma runMutation_whenRescan (cmd : Text) (x : OpsM MockAdb Unit) (outputs : List ShellOutput)
    (gnu : Bool) : (runMutation cmd >>= fun _ => whenRescan x) (answering outputs gnu) =
      runMutation cmd (answering outputs gnu) := by
  have hends := @runMutation_reports outputs (answering outputs gnu) cmd rfl
  rcases hresult : runMutation cmd (answering outputs gnu) with ⟨r, t⟩
  cases r with
  | ok u =>
    obtain ⟨-, rfl⟩ := hends.of_ok hresult
    exact bind_of_ok hresult
  | error e => exact bind_of_error hresult

lemma lastAnswer_two (cmd cmd' : Text) (outputs : List ShellOutput) (gnu : Bool) :
    lastAnswer outputs (asked cmd' outputs.tail
      { asked cmd outputs (answering outputs gnu) with touchGnuMode := false }).adb =
        nextAnswer outputs.tail := by
  cases outputs with
  | nil => rfl
  | cons output outputs => cases outputs <;> rfl

lemma touch_reports {path : Text} {atime mtime : Option SystemTime}
    (timed : atime ≠ none ∨ mtime ≠ none) (outputs : List ShellOutput) (gnu : Bool) :
    let final := Mutation.finalAnswer outputs gnu (.touch path atime mtime timed)
    Ends (touch path atime mtime) (answering outputs gnu)
      (fun _ t => PrintsNothing final ∧ lastAnswer outputs t.adb = final)
      fun e t => ¬ PrintsNothing final ∧ lastAnswer outputs t.adb = final ∧ ∃ d, e = .error d := by
  intro final
  apply ends_bind.mpr
  apply ends_read.mpr
  change Ends (touchRound gnu path atime mtime _) _ _ _
  by_cases hagain : gnu = true ∧ rejectsDate (nextAnswer outputs) = true
  · obtain ⟨rfl, hrejects⟩ := hagain
    have hfinal : final = nextAnswer outputs.tail := by simp [final, Mutation.finalAnswer, hrejects]
    rw [hfinal]
    let s := { asked (touchText path atime mtime true) outputs (answering outputs true) with
      touchGnuMode := false }
    have hround : Ends (touchRound false path atime mtime (Action.fail .notSupported)) s _ _ :=
      touchRound_final (show s.adb.responses = outputs.tail.map .ok from rfl) rfl timed (Or.inl rfl)
    rw [Ends, touchRound_again rfl timed hrejects]
    apply hround.imp
    · rintro _ _ ⟨hnothing, rfl⟩
      exact ⟨hnothing, lastAnswer_two _ _ _ _⟩
    · rintro e _ ⟨hsome, rfl, herror⟩
      exact ⟨hsome, lastAnswer_two _ _ _ _, herror⟩
  · have hfinal : final = nextAnswer outputs := by
      simp only [final, Mutation.finalAnswer, Bool.and_eq_true, if_neg hagain]
    rw [hfinal]
    have honce : gnu = false ∨ rejectsDate (nextAnswer outputs) = false := by
      simpa [Classical.or_iff_not_imp_left] using hagain
    apply (touchRound_final rfl rfl timed honce).imp
    · rintro _ _ ⟨hnothing, rfl⟩
      exact ⟨hnothing, lastAnswer_one _ _ _⟩
    · rintro e _ ⟨hsome, rfl, herror⟩
      exact ⟨hsome, lastAnswer_one _ _ _, herror⟩

lemma reports_touch_iff {path : Text} {atime mtime : Option SystemTime}
    (timed : atime ≠ none ∨ mtime ≠ none) (outputs : List ShellOutput) (gnu : Bool) :
    let final := Mutation.finalAnswer outputs gnu (.touch path atime mtime timed)
    Reports (.touch path atime mtime timed) outputs gnu ↔
      (PrintsNothing final → final.exitCode = 0) := by
  intro final
  have hends := @touch_reports path atime mtime timed outputs gnu
  rcases hresult : (Mutation.touch path atime mtime timed).perform (answering outputs gnu) with ⟨r, t⟩
  rw [Reports, hresult]
  cases r with
  | ok u =>
    obtain ⟨hnothing, hlast⟩ := hends.of_ok hresult
    dsimp only
    rw [hlast, Silent]
    constructor
    · rintro ⟨-, herror⟩ -
      by_contra hexit
      obtain ⟨e, he⟩ := herror fun hsilent => hexit hsilent.2
      simp at he
    · intro hexit
      exact ⟨fun _ => rfl, fun hnot => absurd ⟨hnothing, hexit hnothing⟩ hnot⟩
  | error e =>
    obtain ⟨hsome, hlast, d, rfl⟩ := hends.of_error hresult
    dsimp only
    rw [hlast, Silent]
    exact iff_of_true ⟨fun hsilent => absurd hsilent.1 hsome, fun _ => ⟨d, rfl⟩⟩
      fun hnothing => absurd hnothing hsome

/-- Every answer is reported as it is meant, but a touch that fails without a word. -/
theorem reports_iff (m : Mutation) (outputs : List ShellOutput) (gnu : Bool) :
    Reports m outputs gnu ↔
      (m.IsTouch → PrintsNothing (m.finalAnswer outputs gnu) →
        (m.finalAnswer outputs gnu).exitCode = 0) := by
  cases m with
  | mkdir path => exact iff_of_true (reports_of_runMutation outputs gnu rfl) False.elim
  | rm path =>
    have hrm := runMutation_whenRescan (rmCmd path) (rescanFile path) outputs gnu
    exact iff_of_true (reports_of_runMutation outputs gnu hrm) False.elim
  | rmdir path =>
    have hrmdir := runMutation_whenRescan (rmdirCmd path) (rescanDirRemoved path) outputs gnu
    exact iff_of_true (reports_of_runMutation outputs gnu hrmdir) False.elim
  | mv source target =>
    have hmv := runMutation_whenRescan (mvCmd source target)
      (do rescanFile source; rescanFile target) outputs gnu
    exact iff_of_true (reports_of_runMutation outputs gnu hmv) False.elim
  | touch path atime mtime timed =>
    exact (reports_touch_iff timed outputs gnu).trans ⟨fun h _ => h, fun h => h trivial⟩

theorem reports_iff_fails_for_mute_touch :
    (touch "/a".toList none (some 0) (answering [⟨[], [], 1⟩] true)).1 = .ok () ∧
      ¬ Reports (.touch "/a".toList none (some 0) (Or.inr (by simp))) [⟨[], [], 1⟩] true := by
  have hok : (touch "/a".toList none (some 0) (answering [⟨[], [], 1⟩] true)).1 = .ok () := by decide
  refine ⟨hok, ?_⟩
  rintro ⟨-, herror⟩
  obtain ⟨e, he⟩ := herror fun hsilent => absurd hsilent.2 (by decide)
  exact absurd (hok.symm.trans he) (by simp)

end Answers

section Errnos

/-- A mark that no text of the table contains, and blanks. -/
def IsSeparator (sep : Text) : Prop :=
  ∃ mark blanks, sep = mark :: blanks ∧ (∀ e ∈ errnoTable, mark.toLower ∉ e.1) ∧
    ∀ c ∈ blanks, c = ' '

lemma errnoTable_distinct : errnoTable.Pairwise fun d e => d.2 ≠ e.2 := by decide

lemma errnoTable_apart : errnoTable.Pairwise fun d e => ¬ d.1 <:+: e.1 := by decide

lemma errnoTable_starts : ∀ e ∈ errnoTable, e.1.head? ≠ some ' ' ∧ e.1 ≠ [] := by decide

lemma toAsciiLowercase_append (a b : Text) :
    toAsciiLowercase (a ++ b) = toAsciiLowercase a ++ toAsciiLowercase b := List.map_append

variable {before after : List (Text × Errno)} {entry : Text × Errno} {head sep tail : Text}

lemma errnoForMessage_iff (htable : errnoTable = before ++ entry :: after) {message : Text}
    (hoccurs : entry.1 <:+: message.toAsciiLowercase) :
    errnoForMessage message = entry.2 ↔
      ∀ e ∈ before, ¬ e.1 <:+: message.toAsciiLowercase := by
  have hdistinct := errnoTable_distinct
  rw [htable, List.pairwise_append] at hdistinct
  rw [errnoForMessage, htable, List.find?_append]
  cases hfirst : before.find? fun e => decide (e.1 <:+: message.toAsciiLowercase) with
  | none =>
    rw [List.find?_eq_none] at hfirst
    have hentry : (entry :: after).find? (fun e => decide (e.1 <:+: message.toAsciiLowercase)) =
        some entry := List.find?_cons_of_pos (decide_eq_true hoccurs)
    rw [Option.none_or, hentry]
    exact iff_of_true rfl fun e he => by simpa using hfirst e he
  | some e =>
    have hmem := List.mem_of_find?_eq_some hfirst
    have hfound : e.1 <:+: toAsciiLowercase message := by simpa using List.find?_some hfirst
    rw [Option.some_or]
    refine iff_of_false ?_ fun hnone => hnone e hmem hfound
    exact hdistinct.2.2 e hmem entry (by simp)

lemma infix_blanks_append {needle text blanks : Text} (hneedle : needle.head? ≠ some ' ')
    (hne : needle ≠ []) (hblanks : ∀ c ∈ blanks, c = ' ') :
    needle <:+: blanks ++ text ↔ needle <:+: text := by
  induction blanks with
  | nil => rfl
  | cons c blanks ih =>
    obtain rfl := hblanks c (by simp)
    have hhead : ¬ needle <+: ' ' :: (blanks ++ text) := by
      rintro ⟨rest, hrest⟩
      cases needle with
      | nil => exact hne rfl
      | cons d needle =>
        obtain ⟨rfl, -⟩ := List.cons.inj hrest
        exact hneedle rfl
    rw [List.cons_append, List.infix_cons_iff, ih fun c hc => hblanks c (by simp [hc])]
    exact or_iff_right hhead

/-- Behind a separator nothing but the tail itself is found in the tail. -/
lemma earlier_infix_iff (htable : errnoTable = before ++ entry :: after) (hsep : IsSeparator sep)
    (htail : tail.toAsciiLowercase = entry.1) {e : Text × Errno} (he : e ∈ before) :
    e.1 <:+: (head ++ sep ++ tail).toAsciiLowercase ↔ e.1 <:+: head.toAsciiLowercase := by
  obtain ⟨mark, blanks, rfl, hmark, hblanks⟩ := hsep
  have hmem : e ∈ errnoTable := by simp [htable, he]
  have hapart := errnoTable_apart
  rw [htable, List.pairwise_append] at hapart
  have hlower : ∀ c ∈ toAsciiLowercase blanks, c = ' ' := by
    intro c hc
    obtain ⟨d, hd, rfl⟩ := List.mem_map.mp hc
    rw [hblanks d hd]
    rfl
  obtain ⟨hstart, hne⟩ := errnoTable_starts e hmem
  have hbehind : ¬ e.1 <:+: toAsciiLowercase blanks ++ entry.1 := by
    rw [infix_blanks_append hstart hne hlower]
    exact hapart.2.2 e he entry (by simp)
  have htext : (head ++ mark :: blanks ++ tail).toAsciiLowercase =
      head.toAsciiLowercase ++ mark.toLower :: (toAsciiLowercase blanks ++ entry.1) := by
    rw [toAsciiLowercase_append, toAsciiLowercase_append, htail, List.append_assoc]
    rfl
  rw [htext, infix_append_cons (hmark e hmem)]
  exact or_iff_left hbehind

/-- The tail decides where no text that stands before it in the table occurs in the message; behind
a separator, where none occurs in what comes before. -/
theorem errnoForMessage_tail_iff (htable : errnoTable = before ++ entry :: after)
    (htail : tail.toAsciiLowercase = entry.1) :
    (errnoForMessage (head ++ sep ++ tail) = entry.2 ↔
        ∀ e ∈ before, ¬ e.1 <:+: (head ++ sep ++ tail).toAsciiLowercase) ∧
      (IsSeparator sep → (errnoForMessage (head ++ sep ++ tail) = entry.2 ↔
        ∀ e ∈ before, ¬ e.1 <:+: head.toAsciiLowercase)) := by
  have hoccurs : entry.1 <:+: (head ++ sep ++ tail).toAsciiLowercase := by
    rw [toAsciiLowercase_append, htail]
    exact (List.suffix_append _ _).isInfix
  refine ⟨errnoForMessage_iff htable hoccurs, fun hsep => ?_⟩
  rw [errnoForMessage_iff htable hoccurs]
  exact forall₂_congr fun e he => not_congr (earlier_infix_iff htable hsep htail he)

theorem errnoForMessage_tail_iff_fails_for_path :
    (toAsciiLowercase "No such file or directory".toList, .enoent) ∈ errnoTable ∧
      IsSeparator ": ".toList ∧ errnoForMessage ("rm: /sdcard/permission denied".toList ++ ": ".toList ++
        "No such file or directory".toList) = .eacces :=
  ⟨by decide, ⟨':', [' '], by decide, by decide, by decide⟩, by decide⟩

theorem errnoForMessage_tail_iff_of_harmless_path :
    errnoForMessage ("rm: /sdcard/is a directory".toList ++ ": ".toList ++
      "No such file or directory".toList) = .enoent := by
  have htable : errnoTable = errnoTable.take 2 ++
      ("no such file or directory".toList, .enoent) :: errnoTable.drop 3 := by decide
  have hsep : IsSeparator ": ".toList := ⟨':', [' '], by decide, by decide, by decide⟩
  exact ((errnoForMessage_tail_iff htable (by decide)).2 hsep).mpr (by decide)

end Errnos

end Adbfs
