import Adbfs.Commands
import Adbfs.Library.Calendar
import Adbfs.Mutations

namespace Adbfs

open Library Library.Text Library.Shell Library.Calendar Library.Action

inductive TimeField where
  | atime
  | mtime
  deriving DecidableEq

/-- The time is in nanoseconds since the epoch. -/
structure TouchOrder where
  path : Text
  field : TimeField
  time : ℤ
  deriving DecidableEq

def TouchOrder.wholeSecond (o : TouchOrder) : TouchOrder := { o with time := o.time / 10 ^ 9 * 10 ^ 9 }

section Reading

/-- `@s.n` is `s.n` seconds after the epoch. -/
def readStamp : Text → Option ℕ
  | '@' :: t =>
    match t.splitOn '.' with
    | [seconds, fraction] => do
      some (10 ^ 9 * (← parseDigits seconds) + 10 ^ (9 - fraction.length) * (← parseDigits fraction))
    | _ => none
  | _ => none

def dateOutput (command : Text) : Option Text :=
  match command.splitOn ' ' with
  | [name, flags, stamp, format] =>
    if name = "date".toList ∧ flags = "-ud".toList ∧ format = "+%Y-%m-%dT%H:%M:%S".toList then
      (readStamp stamp).map fun t => secondText (t / 10 ^ 9)
    else none
  | _ => none

variable (zone : ℤ → ℤ)

/-- A date without a zone is read as local time: `zone` takes the second that would be meant in
universal time to the one that is meant where the device is. -/
def wordTime : Word → Option ℤ
  | [.substitution command] =>
    ((dateOutput command).bind readSecond).map fun s => zone s * 10 ^ 9
  | w => ((wordText w).bind readStamp).map fun t => (t : ℤ)

def touchOrder : List Word → Option TouchOrder
  | [name, flag, d, time, path] =>
    if name = literal "touch".toList ∧ d = literal "-d".toList then do
      let field ←
        if flag = literal "-a".toList then some TimeField.atime
        else if flag = literal "-m".toList then some TimeField.mtime else none
      some ⟨← wordText path, field, ← wordTime zone time⟩
    else none
  | _ => none

def touchOrders : List (List Word) → Option (List TouchOrder)
  | [] => some []
  | words :: rest => (touchOrder zone words).bind fun o => (touchOrders rest).map fun os => o :: os

/-- The times that a command asks a device to store, if it is a `touch`. -/
def told (cmd : Text) : Option (List TouchOrder) := (commands cmd).bind (touchOrders zone)

/-- The `touch` that was sent last decides: one before it was rejected. -/
def lastTold (cmds : List Text) : List TouchOrder := ((cmds.filterMap (told zone)).getLast?).getD []

/-- What a device takes a requested time for. -/
def heard (gnu : Bool) (time : SystemTime) : ℤ :=
  if gnu then (time.toNat : ℤ) else zone (time.toNat / 10 ^ 9 : ℕ) * 10 ^ 9

/-- What it should take it for: in the older dialect, the whole second. -/
def wanted (gnu : Bool) (time : SystemTime) : ℤ := if gnu then time else time / 10 ^ 9 * 10 ^ 9

def orders (path : Text) (f : SystemTime → ℤ) (atime mtime : Option SystemTime) : List TouchOrder :=
  (atime.map fun t => ⟨path, .atime, f t⟩).toList ++ (mtime.map fun t => ⟨path, .mtime, f t⟩).toList

variable {path : Text} {atime mtime : Option SystemTime} {gnu : Bool} {f g : SystemTime → ℤ}

lemma orders_eq_iff : orders path f atime mtime = orders path g atime mtime ↔
    ∀ t, atime = some t ∨ mtime = some t → f t = g t := by
  cases atime <;> cases mtime <;> simp [orders, or_imp, forall_and]

lemma wholeSecond_orders : (orders path f atime mtime).map TouchOrder.wholeSecond =
    orders path (fun t => f t / 10 ^ 9 * 10 ^ 9) atime mtime := by
  cases atime <;> cases mtime <;> rfl

lemma readStamp_touchStamp (time : SystemTime) : readStamp (touchStamp time) = some time.toNat := by
  have hlen : (padded 9 (time.toNat % 10 ^ 9)).length = 9 := by
    have hlt : time.toNat % 10 ^ 9 < 10 ^ 9 := Nat.mod_lt _ (by positivity)
    have hshort := (Nat.length_toDigits_le_iff (b := 10) (k := 9) (by decide) (by decide)).mpr hlt
    rw [padded, List.length_leftpad]
    omega
  have hcut : touchStamp time =
      '@' :: (padded 0 (time.toNat / 10 ^ 9) ++ '.' :: padded 9 (time.toNat % 10 ^ 9)) := by
    rw [padded_zero]
    rfl
  rw [hcut, readStamp, List.splitOn_append_cons_self_of_not_mem (notMem_padded _ _ (by decide)),
    List.splitOn_eq_singleton (notMem_padded _ _ (by decide))]
  simp only [parseDigits_padded, hlen, Option.bind_eq_bind, Option.bind_some, Option.some.injEq]
  omega

lemma dateOutput_touchStamp (time : SystemTime) :
    dateOutput ("date -ud ".toList ++ touchStamp time ++ " +%Y-%m-%dT%H:%M:%S".toList) =
      some (secondText (time.toNat / 10 ^ 9)) := by
  have hstamp : ' ' ∉ touchStamp time := fun h => (isBare_of_mem_touchStamp time h).2.2.2.2.1 rfl
  have hcut : "date -ud ".toList ++ touchStamp time ++ " +%Y-%m-%dT%H:%M:%S".toList =
      "date".toList ++ ' ' :: ("-ud".toList ++ ' ' :: (touchStamp time ++ ' ' ::
        "+%Y-%m-%dT%H:%M:%S".toList)) := by simp
  rw [hcut, dateOutput, List.splitOn_append_cons_self_of_not_mem (by decide),
    List.splitOn_append_cons_self_of_not_mem (by decide),
    List.splitOn_append_cons_self_of_not_mem hstamp, List.splitOn_eq_singleton (by decide)]
  simp [readStamp_touchStamp]

lemma wordTime_touchTimeWord (time : SystemTime) :
    wordTime zone (touchTimeWord time gnu) = some (heard zone gnu time) := by
  cases gnu with
  | true =>
    have hliteral : ∀ t : Text, wordTime zone (literal t) = (readStamp t).map fun n => (n : ℤ) := by
      intro t
      have hplain : wordTime zone (literal t) =
          ((wordText (literal t)).bind readStamp).map fun n => (n : ℤ) := by
        cases t <;> rfl
      rw [hplain, wordText_literal, Option.bind_some]
    rw [touchTimeWord, if_pos rfl, hliteral, readStamp_touchStamp]
    rfl
  | false =>
    rw [touchTimeWord, if_neg (by decide), wordTime, dateOutput_touchStamp, Option.bind_some,
      readSecond_secondText]
    rfl

lemma touchOrder_touchWords (time : SystemTime) :
    touchOrder zone (touchWords path time gnu "-a".toList) =
        some ⟨path, .atime, heard zone gnu time⟩ ∧
      touchOrder zone (touchWords path time gnu "-m".toList) =
        some ⟨path, .mtime, heard zone gnu time⟩ := by
  simp only [touchWords, touchOrder, literal_inj, and_self, if_true, wordText_literal,
    wordTime_touchTimeWord]
  exact ⟨rfl, rfl⟩

lemma told_touchText (timed : atime ≠ none ∨ mtime ≠ none) :
    told zone (touchText path atime mtime gnu) = some (orders path (heard zone gnu) atime mtime) := by
  rw [told, touchText, commands_touch path gnu (touchParts_ne_nil timed), Option.bind_some,
    touchCommands, orders]
  cases atime <;> cases mtime <;>
    simp only [Option.map_none, Option.map_some, Option.toList_none, Option.toList_some,
      List.append_nil, List.nil_append, List.cons_append, touchOrders, touchOrder_touchWords,
      Option.bind_some]

lemma told_rescanFileCmd : told zone (rescanFileCmd path) = none := by
  rw [told, commands_rescanFileCmd]
  rfl

end Reading

section Sending

variable {zone : ℤ → ℤ} {path : Text} {atime mtime : Option SystemTime} {gnu : Bool}
  {s : DeviceOps MockAdb} {retry : OpsM MockAdb Unit}

/-- The last `touch` that was sent is one for these times, in the dialect that is now in use. -/
def LastSent (path : Text) (atime mtime : Option SystemTime) (zone : ℤ → ℤ)
    (s : DeviceOps MockAdb) : Prop :=
  ∃ before rest, s.adb.commands = before ++ touchText path atime mtime s.touchGnuMode :: rest ∧
    ∀ cmd ∈ rest, told zone cmd = none

lemma ends_mockCommand {α : Type} (f : ShellOutput → α) (cmd : Text) (s : DeviceOps MockAdb) :
    Ends (DeviceOps.transport (MockAdb.answer f cmd)) s
      (fun _ t => t.adb.commands = s.adb.commands ++ [cmd] ∧ t.touchGnuMode = s.touchGnuMode)
      fun _ _ => True := by
  apply ends_zoom.mpr
  apply ends_mapError.mpr
  have hnext : (MockAdb.next cmd s.adb).2.commands = s.adb.commands ++ [cmd] := by
    rw [MockAdb.next]
    cases s.adb.responses <;> rfl
  rw [Ends, MockAdb.answer]
  cases (MockAdb.next cmd s.adb).1
  · trivial
  · exact ⟨hnext, rfl⟩

lemma touchRound_sent (timed : atime ≠ none ∨ mtime ≠ none) (hmode : s.touchGnuMode = gnu)
    (hretry : gnu = true → ∀ t : DeviceOps MockAdb, t.touchGnuMode = false →
      Ends retry t (fun _ => LastSent path atime mtime zone) fun _ _ => True) :
    Ends (touchRound gnu path atime mtime retry) s (fun _ => LastSent path atime mtime zone)
      fun _ _ => True := by
  rw [touchRound, if_neg (touchParts_ne_nil timed)]
  apply ends_bind.mpr
  apply (ends_mockCommand id _ s).imp
  · rintro output t ⟨hcommands, hgnu⟩
    have htext : t.adb.commands = s.adb.commands ++ [touchText path atime mtime t.touchGnuMode] := by
      rw [hcommands, hgnu, hmode]
      rfl
    cases firstMessage output with
    | none =>
      apply ends_bind.mpr
      apply ends_read.mpr
      split_ifs
      · apply ends_bind.mpr
        apply (ends_mockCommand ShellOutput.stdout (rescanFileCmd path) t).imp
        · rintro lines u ⟨hlog, hsame⟩
          refine ⟨s.adb.commands, [rescanFileCmd path], ?_, ?_⟩
          · rw [hlog, htext, hsame]
            simp
          · intro cmd hcmd
            rw [List.mem_singleton.mp hcmd]
            exact told_rescanFileCmd zone
        · exact fun _ _ => id
      · exact ⟨s.adb.commands, [], htext, by simp⟩
    | some message =>
      dsimp only
      split_ifs with hdate hold
      · trivial
      · apply ends_bind.mpr
        apply ends_update.mpr
        have hnew : gnu = true := by simpa using hold
        exact hretry hnew _ rfl
      · trivial
  · exact fun _ _ => id

lemma touch_sent (timed : atime ≠ none ∨ mtime ≠ none) (s : DeviceOps MockAdb) :
    Ends (touch path atime mtime) s (fun _ => LastSent path atime mtime zone) fun _ _ => True := by
  apply ends_bind.mpr
  apply ends_read.mpr
  refine touchRound_sent timed rfl fun _ t ht => ?_
  exact touchRound_sent timed ht fun hgnu => by simp at hgnu

lemma LastSent.orders (timed : atime ≠ none ∨ mtime ≠ none)
    (h : LastSent path atime mtime zone s) :
    lastTold zone s.adb.commands = orders path (heard zone s.touchGnuMode) atime mtime := by
  obtain ⟨before, rest, hlog, hrest⟩ := h
  have hnone : rest.filterMap (told zone) = [] := List.filterMap_eq_nil_iff.mpr hrest
  rw [lastTold, hlog, List.filterMap_append, List.filterMap_cons_some (told_touchText zone timed),
    hnone, List.getLast?_concat]
  rfl

end Sending

section Instants

variable (zone : ℤ → ℤ) (path : Text) (atime mtime : Option SystemTime)

/-- The device was last told the requested times, as exactly as the dialect in use can tell them, and
would be told the same seconds in the other. -/
def AsksForTimes (s : DeviceOps MockAdb) : Prop :=
  lastTold zone s.adb.commands = orders path (wanted s.touchGnuMode) atime mtime ∧
    told zone (touchText path atime mtime false) =
      (told zone (touchText path atime mtime true)).map (List.map TouchOrder.wholeSecond)

variable {zone path atime mtime} {gnu : Bool} {t : SystemTime}

lemma same_second_iff : heard zone false t = heard zone true t / 10 ^ 9 * 10 ^ 9 ↔
    zone (t.toNat / 10 ^ 9 : ℕ) = (t.toNat / 10 ^ 9 : ℕ) := by
  have hdiv : (t.toNat : ℤ) / 10 ^ 9 = (t.toNat / 10 ^ 9 : ℕ) := by norm_cast
  rw [heard, heard, if_neg (by decide), if_pos rfl, hdiv]
  exact mul_left_inj' (by norm_num)

lemma clamp_second_eq_iff (z : ℤ) :
    ((z.toNat / 10 ^ 9 : ℕ) : ℤ) * 10 ^ 9 = z / 10 ^ 9 * 10 ^ 9 ↔ 0 ≤ z := by omega

lemma heard_eq_wanted_iff (hsame : zone (t.toNat / 10 ^ 9 : ℕ) = (t.toNat / 10 ^ 9 : ℕ)) :
    heard zone gnu t = wanted gnu t ↔ 0 ≤ t := by
  cases gnu with
  | true => exact Int.natCast_toNat_eq_self
  | false =>
    rw [heard, wanted, if_neg (by decide), if_neg (by decide), hsame]
    exact clamp_second_eq_iff t

lemma zone_iff (h : 0 ≤ t) : zone (t.toNat / 10 ^ 9 : ℕ) = (t.toNat / 10 ^ 9 : ℕ) ↔
    zone (t / 10 ^ 9) = t / 10 ^ 9 := by
  have hdiv : ((t.toNat / 10 ^ 9 : ℕ) : ℤ) = t / 10 ^ 9 := by
    push_cast
    rw [Int.toNat_of_nonneg h]
  rw [hdiv]

/-- The instants that are asked for are the ones requested exactly where these are not before the
epoch and the device's clocks show universal time at their seconds. -/
theorem touch_asks_for_times_iff {responses : List (Except AdbError ShellOutput)} {gnu rescan : Bool}
    {s : DeviceOps MockAdb}
    (hok : touch path atime mtime ⟨MockAdb.new responses, gnu, rescan⟩ = (.ok (), s)) :
    AsksForTimes zone path atime mtime s ↔
      ∀ t, atime = some t ∨ mtime = some t → 0 ≤ t ∧ zone (t / 10 ^ 9) = t / 10 ^ 9 := by
  by_cases timed : atime ≠ none ∨ mtime ≠ none
  · have hsent : LastSent path atime mtime zone s := (touch_sent timed _).of_ok hok
    have hlast := hsent.orders timed
    rw [AsksForTimes, hlast, told_touchText zone timed, told_touchText zone timed, Option.map_some,
      Option.some_inj, wholeSecond_orders, orders_eq_iff, orders_eq_iff, ← forall₂_and]
    refine forall₂_congr fun t _ => ?_
    rw [same_second_iff]
    constructor
    · rintro ⟨hwanted, hsame⟩
      have hpos := (heard_eq_wanted_iff hsame).mp hwanted
      exact ⟨hpos, (zone_iff hpos).mp hsame⟩
    · rintro ⟨hpos, hzone⟩
      have hsame := (zone_iff hpos).mpr hzone
      exact ⟨(heard_eq_wanted_iff hsame).mpr hpos, hsame⟩
  · push Not at timed
    obtain ⟨rfl, rfl⟩ := timed
    obtain ⟨-, rfl⟩ := Prod.mk.inj hok
    refine iff_of_true ⟨rfl, rfl⟩ fun t ht => by simp at ht

end Instants

section Examples

/-- A device one hour ahead of universal time, in the older dialect, is told the hour before. -/
theorem touch_asks_for_times_iff_fails_an_hour_ahead :
    let run := touch "/a".toList none (some (86400 * 10 ^ 9)) ⟨MockAdb.new [], false, false⟩
    run.1 = .ok () ∧ lastTold (fun s => s - 3600) run.2.adb.commands =
        [⟨"/a".toList, .mtime, (86400 - 3600) * 10 ^ 9⟩] ∧
      ¬ AsksForTimes (fun s => s - 3600) "/a".toList none (some (86400 * 10 ^ 9)) run.2 := by
  intro run
  have hlast : lastTold (fun s => s - 3600) run.2.adb.commands =
      [⟨"/a".toList, .mtime, (86400 - 3600) * 10 ^ 9⟩] := by decide +kernel
  refine ⟨by decide +kernel, hlast, fun h => ?_⟩
  have hwanted := hlast.symm.trans h.1
  exact absurd hwanted (by decide +kernel)

theorem touch_asks_for_times_iff_in_new_dialect :
    AsksForTimes id "/a".toList (some 1) (some (86400 * 10 ^ 9))
      (touch "/a".toList (some 1) (some (86400 * 10 ^ 9)) ⟨MockAdb.new [], true, false⟩).2 := by
  have hok : touch "/a".toList (some 1) (some (86400 * 10 ^ 9)) ⟨MockAdb.new [], true, false⟩ =
    (.ok (), (touch "/a".toList (some 1) (some (86400 * 10 ^ 9)) ⟨MockAdb.new [], true, false⟩).2) :=
    Prod.ext (by decide +kernel) rfl
  refine (touch_asks_for_times_iff hok).mpr ?_
  rintro t (h | h)
  · exact Option.some.inj h ▸ by decide
  · exact Option.some.inj h ▸ by decide

end Examples

end Adbfs
