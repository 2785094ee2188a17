import Adbfs.Library.Lines
import Adbfs.Library.Utf8
import Adbfs.Presentation

/-! The transport that runs the `adb` program, and reads what it prints. -/

namespace Adbfs

open Library Library.Action

/-- What a program printed, and its exit code where no signal ended it. -/
structure Output where
  stdout : Bytes
  stderr : Bytes
  code : Option ℤ

/-- An argument; the path of the local file of a transfer stands for itself. -/
inductive Arg where
  | word (text : Text)
  | file

/-- The `adb` program. It is given what the local file of a transfer holds and says what the file
holds afterwards; the error is that of starting it. -/
class AdbProgram (π : Type) where
  output : List Arg → Option Bytes → π → (Except ℕ Output × Option Bytes) × π

structure AdbCli (π : Type) where
  serial : Option Text
  adb : π

def Output.success (output : Output) : Prop := output.code = some 0

instance (output : Output) : Decidable output.success := inferInstanceAs (Decidable (_ = _))

def Output.exitCode (output : Output) : ℤ := output.code.getD (-1)

def Output.transferred (output : Output) : Except AdbError Unit :=
  if output.success then .ok ()
  else .error (.commandFailed output.exitCode (Text.fromUtf8Lossy output.stderr))

def toLines (bytes : Bytes) : List Text :=
  (Text.lines (Text.fromUtf8Lossy bytes)).map (Text.trimEndMatches '\r')

namespace AdbCli

variable {π : Type} [AdbProgram π]

def arguments (serial : Option Text) (args : List Arg) : List Arg :=
  match serial with
  | some s => .word "-s".toList :: .word s :: args
  | none => args

def run (args : List Arg) (here : Option Bytes) (cli : AdbCli π) :
    (Except AdbError Output × Option Bytes) × AdbCli π :=
  let answer := AdbProgram.output (arguments cli.serial args) here cli.adb
  ((answer.1.1.mapError AdbError.io, answer.1.2), { cli with adb := answer.2 })

def runShell (command : Text) : Action (AdbCli π) AdbError Output := fun cli =>
  let answer := run [.word "shell".toList, .word command] none cli
  (answer.1.1.mapError .error, answer.2)

def transfer (verb : Text) (source target : Arg) (here : Option Bytes) (cli : AdbCli π) :
    (Except AdbError Unit × Option Bytes) × AdbCli π :=
  let answer := run [.word verb, source, target] here cli
  ((answer.1.1.bind Output.transferred, answer.1.2), answer.2)

def shell (command : Text) : Action (AdbCli π) AdbError (List Text) := do
  let output ← runShell command
  let lines := toLines output.stdout
  if lines = [] ∧ ¬ output.success then Action.fail .deviceNotFound else pure lines

def shellWithStderr (command : Text) : Action (AdbCli π) AdbError ShellOutput := do
  let output ← runShell command
  pure ⟨toLines output.stdout, toLines output.stderr, output.exitCode⟩

def push (contents : Option Bytes) (remote : Text) : Action (AdbCli π) AdbError Unit := fun cli =>
  let answer := transfer "push".toList .file (.word remote) contents cli
  (answer.1.1.mapError .error, answer.2)

instance : AdbDevice (AdbCli π) where
  shell := shell
  shellWithStderr := shellWithStderr
  pull remote here := transfer "pull".toList (.word remote) .file here
  push _ contents remote := push contents remote
  syncDevice := do
    let _ ← shell "sync".toList
    pure ()

end AdbCli

/-- The bytes print the same lines, ended perhaps in different ways. -/
def Reprints (bytes bytes' : Bytes) : Prop :=
  ∃ ls, Text.Printed ls (Text.fromUtf8Lossy bytes) ∧ Text.Printed ls (Text.fromUtf8Lossy bytes')

lemma toLines_eq_iff (bytes : Bytes) (ls : List Text) :
    toLines bytes = ls ↔ Text.Printed ls (Text.fromUtf8Lossy bytes) := Text.lines_eq_iff

lemma reprints_iff {bytes bytes' : Bytes} : Reprints bytes bytes' ↔ toLines bytes' = toLines bytes := by
  constructor
  · rintro ⟨ls, h, h'⟩
    rw [(toLines_eq_iff bytes ls).mpr h, (toLines_eq_iff bytes' ls).mpr h']
  · intro h
    exact ⟨toLines bytes, (toLines_eq_iff bytes _).mp rfl, (toLines_eq_iff bytes' _).mp h⟩

def Output.ending (output : Output) : Bytes × Option ℤ := (output.stderr, output.code)

lemma transferred_eq {o o' : Output} (h : o'.ending = o.ending) : o'.transferred = o.transferred := by
  rcases o with ⟨stdout, stderr, code⟩
  rcases o' with ⟨stdout', stderr', code'⟩
  obtain ⟨rfl, rfl⟩ := Prod.mk.inj h
  rfl

inductive SameAnswer : Except ℕ Output → Except ℕ Output → Prop
  | ok {o o' : Output} : Reprints o.stdout o'.stdout → Reprints o.stderr o'.stderr →
      o'.code = o.code → SameAnswer (.ok o) (.ok o')
  | error (e : ℕ) : SameAnswer (.error e) (.error e)

/-- Two programs, the states of the first mapped to those of the second: their shells print the same
lines, and their transfers end alike. -/
structure ProgramMap (π π' : Type) [AdbProgram π] [AdbProgram π'] where
  toFun : π → π'
  shell : ∀ (serial : Option Text) (command : Text) (d : π),
    let args := AdbCli.arguments serial [.word "shell".toList, .word command]
    SameAnswer (AdbProgram.output args none d).1.1 (AdbProgram.output args none (toFun d)).1.1 ∧
      (AdbProgram.output args none (toFun d)).2 = toFun (AdbProgram.output args none d).2
  transfer : ∀ (serial : Option Text) (verb : Text) (source target : Arg) (here : Option Bytes)
    (d : π), let args := AdbCli.arguments serial [.word verb, source, target]
    (AdbProgram.output args here (toFun d)).1.1.map Output.ending =
        (AdbProgram.output args here d).1.1.map Output.ending ∧
      (AdbProgram.output args here (toFun d)).1.2 = (AdbProgram.output args here d).1.2 ∧
        (AdbProgram.output args here (toFun d)).2 = toFun (AdbProgram.output args here d).2

section Runs

variable {π π' : Type} [AdbProgram π] [AdbProgram π'] (φ : ProgramMap π π')

def AdbCli.map (cli : AdbCli π) : AdbCli π' := ⟨cli.serial, φ.toFun cli.adb⟩

lemma transfer_map (verb : Text) (source target : Arg) (here : Option Bytes) (cli : AdbCli π) :
    AdbCli.transfer verb source target here (cli.map φ) =
      ((AdbCli.transfer verb source target here cli).1,
        (AdbCli.transfer verb source target here cli).2.map φ) := by
  obtain ⟨hending, hfile, hstate⟩ := φ.transfer cli.serial verb source target here cli.adb
  simp only [AdbCli.transfer, AdbCli.run, AdbCli.map, hfile, hstate]
  rcases hd : (AdbProgram.output (AdbCli.arguments cli.serial [.word verb, source, target]) here
    cli.adb).1.1 with e | o
  · rw [hd] at hending
    cases hd' : (AdbProgram.output (AdbCli.arguments cli.serial [.word verb, source, target]) here
      (φ.toFun cli.adb)).1.1 with
    | error e' =>
      rw [hd'] at hending
      obtain rfl : e' = e := Except.error.inj hending
      rfl
    | ok o' =>
      rw [hd'] at hending
      cases hending
  · rw [hd] at hending
    cases hd' : (AdbProgram.output (AdbCli.arguments cli.serial [.word verb, source, target]) here
      (φ.toFun cli.adb)).1.1 with
    | error e' =>
      rw [hd'] at hending
      cases hending
    | ok o' =>
      rw [hd'] at hending
      simp only [Except.mapError, Except.bind, transferred_eq (Except.ok.inj hending)]

lemma runShell_map (command : Text) (cli : AdbCli π) :
    (∃ o o' cli', AdbCli.runShell command cli = (.ok o, cli') ∧
      AdbCli.runShell command (cli.map φ) = (.ok o', cli'.map φ) ∧
        toLines o'.stdout = toLines o.stdout ∧ toLines o'.stderr = toLines o.stderr ∧
          o'.code = o.code) ∨
      ∃ e cli', AdbCli.runShell command cli = (.error e, cli') ∧
        AdbCli.runShell command (cli.map φ) = (.error e, cli'.map φ) := by
  obtain ⟨hanswer, hstate⟩ := φ.shell cli.serial command cli.adb
  rcases hd : AdbProgram.output
    (AdbCli.arguments cli.serial [.word "shell".toList, .word command]) none cli.adb with ⟨⟨r, f⟩, d⟩
  rcases hd' : AdbProgram.output
    (AdbCli.arguments cli.serial [.word "shell".toList, .word command]) none (φ.toFun cli.adb) with
    ⟨⟨r', f'⟩, d'⟩
  simp only [hd, hd'] at hanswer hstate
  have hrun : AdbCli.runShell command cli =
      ((r.mapError AdbError.io).mapError .error, { cli with adb := d }) := by
    simp only [AdbCli.runShell, AdbCli.run, hd]
  have hrun' : AdbCli.runShell command (cli.map φ) =
      ((r'.mapError AdbError.io).mapError .error, ({ cli with adb := d } : AdbCli π).map φ) := by
    simp only [AdbCli.runShell, AdbCli.run, AdbCli.map, hd', hstate]
  rw [hrun, hrun']
  cases hanswer with
  | ok hout herr hcode =>
    exact Or.inl ⟨_, _, _, rfl, rfl, reprints_iff.mp hout, reprints_iff.mp herr, hcode⟩
  | error e => exact Or.inr ⟨_, _, rfl, rfl⟩

lemma alike_shell (command : Text) :
    Alike (fun _ => True) (AdbCli.map φ) (AdbCli.shell command) (AdbCli.shell command) := by
  apply alike_of_apply (fun _ _ => trivial)
  intro cli _
  rcases runShell_map φ command cli with ⟨o, o', u, hrun, hrun', hout, -, hcode⟩ | ⟨e, u, hrun, hrun'⟩
  · rw [AdbCli.shell, bind_of_ok hrun', AdbCli.shell, bind_of_ok hrun]
    have hsuccess : o'.success ↔ o.success := by rw [Output.success, Output.success, hcode]
    simp only [hout, hsuccess]
    split_ifs <;> rfl
  · rw [AdbCli.shell, bind_of_error hrun', AdbCli.shell, bind_of_error hrun]

lemma alike_shellWithStderr (command : Text) : Alike (fun _ => True) (AdbCli.map φ)
    (AdbCli.shellWithStderr command) (AdbCli.shellWithStderr command) := by
  apply alike_of_apply (fun _ _ => trivial)
  intro cli _
  rcases runShell_map φ command cli with ⟨o, o', u, hrun, hrun', hout, herr, hcode⟩ |
    ⟨e, u, hrun, hrun'⟩
  · rw [AdbCli.shellWithStderr, bind_of_ok hrun', AdbCli.shellWithStderr, bind_of_ok hrun]
    simp only [hout, herr, Output.exitCode, hcode, pure_apply]
  · rw [AdbCli.shellWithStderr, bind_of_error hrun', AdbCli.shellWithStderr,
      bind_of_error hrun]

def ProgramMap.deviceMap : DeviceMap (AdbCli π) (AdbCli π') where
  toFun := AdbCli.map φ
  shell := alike_shell φ
  shellWithStderr := alike_shellWithStderr φ
  pull remote here cli := transfer_map φ _ _ _ here cli
  push here contents remote := alike_of_apply (fun _ _ => trivial) fun cli _ => by
    change AdbCli.push contents remote (cli.map φ) = _
    rw [AdbCli.push, transfer_map]
    rfl
  syncDevice := (alike_shell φ _).bind fun _ => transfers_pure rfl

/-- Over every run: two `adb` programs that print the same lines serve alike, whatever ends their
lines. -/
theorem line_endings_are_ignored [Libc] (ops : DeviceOps (AdbCli π)) (cacheTtl : ℕ)
    (opts : FsOptions) (l' : List (AdbFs (AdbCli π') × Call × AdbFs (AdbCli π')))
    (w' : AdbFs (AdbCli π')) :
    Trace Serves (AdbFs.new (ops.map φ.deviceMap) cacheTtl opts) l' w' ↔
      ∃ l w, Trace Serves (AdbFs.new ops cacheTtl opts) l w ∧
        l' = l.map (fun x => (x.1.remount φ.deviceMap opts, x.2.1, x.2.2.remount φ.deviceMap opts)) ∧
        w' = w.remount φ.deviceMap opts := by
  have hruns : Trace Serves (AdbFs.new (ops.map φ.deviceMap) cacheTtl opts) l' w' ↔ _ :=
    (renders_refl opts).runs φ.deviceMap ops cacheTtl
  have hcall : ∀ c : Call, c.rendered id = c := fun c => by simp [Call.rendered]
  have hmap : ∀ l : List (AdbFs (AdbCli π) × Call × AdbFs (AdbCli π)),
      l.map (Prod.map (AdbFs.remount φ.deviceMap opts)
        (Prod.map (Call.rendered id) (AdbFs.remount φ.deviceMap opts))) =
      l.map fun x => (x.1.remount φ.deviceMap opts, x.2.1, x.2.2.remount φ.deviceMap opts) :=
    fun l => List.map_congr_left fun x _ => by simp [Prod.map, hcall]
  constructor
  · intro htrace
    obtain ⟨l, w, htrace₀, hl, hw⟩ := hruns.mp htrace
    exact ⟨l, w, htrace₀, hl.symm.trans (hmap l), hw.symm⟩
  · rintro ⟨l, w, htrace, rfl, rfl⟩
    exact hruns.mpr ⟨l, w, htrace, hmap l, rfl⟩

end Runs

/-! A program whose answers are written down, and that ends each line with some carriage returns and
a line feed. -/

structure Console where
  returns : ℕ
  answers : List (List { l : Text // Text.IsLine l } × ℤ)

def printLines (returns : ℕ) : List Text → Text
  | [] => []
  | l :: ls => l ++ (List.replicate returns '\r' ++ '\n' :: printLines returns ls)

lemma printed_printLines (returns : ℕ) (ls : List { l : Text // Text.IsLine l }) :
    Text.Printed (ls.map Subtype.val) (printLines returns (ls.map Subtype.val)) := by
  induction ls with
  | nil => exact .nil
  | cons l ls ih => exact .line returns l.2 ih

lemma reprints_printLines (returns returns' : ℕ) (ls : List { l : Text // Text.IsLine l }) :
    Reprints (printLines returns (ls.map Subtype.val)).bytes
      (printLines returns' (ls.map Subtype.val)).bytes := by
  refine ⟨ls.map Subtype.val, ?_, ?_⟩ <;> rw [Text.fromUtf8Lossy_bytes]
  exacts [printed_printLines returns ls, printed_printLines returns' ls]

instance : AdbProgram Console where
  output _ here d :=
    match d.answers with
    | [] => ((.ok ⟨[], [], some 0⟩, here), d)
    | (ls, code) :: answers =>
      ((.ok ⟨(printLines d.returns (ls.map Subtype.val)).bytes, [], some code⟩, here),
        { d with answers })

def Console.withReturns (returns : ℕ) : ProgramMap Console Console where
  toFun d := { d with returns }
  shell serial command d := by
    rcases d with ⟨n, - | ⟨⟨ls, code⟩, answers⟩⟩
    · exact ⟨.ok (reprints_iff.mpr rfl) (reprints_iff.mpr rfl) rfl, rfl⟩
    · exact ⟨.ok (reprints_printLines n returns ls) (reprints_iff.mpr rfl) rfl, rfl⟩
  transfer serial verb source target here d := by
    rcases d with ⟨n, - | ⟨⟨ls, code⟩, answers⟩⟩
    · exact ⟨rfl, rfl, rfl⟩
    · exact ⟨rfl, rfl, rfl⟩

section Plain

attribute [local instance] plainLibc

def consoleOps (returns : ℕ) : DeviceOps (AdbCli Console) :=
  ⟨⟨none, returns, [([⟨"-rw-r--r-- 1 root root 1 2024-01-01 00:00 a".toList, by decide⟩], 0)]⟩,
    true, false⟩

lemma serves_serve {τ : Type} [AdbDevice τ] [Libc] (h : Host) (request : Request) (w : AdbFs τ) :
    Serves w ⟨request, h, (AdbFs.serve h request w).1⟩ (AdbFs.serve h request w).2 := rfl

/-- A listing whose lines end with two carriage returns each is answered as if they had none. -/
theorem line_endings_are_ignored_of_listing :
    ∃ w, Serves (AdbFs.new (consoleOps 2) 0 {}) ⟨.opendir 1, plainHost 0 0 0,
      (AdbFs.serve (plainHost 0 0 0) (.opendir 1) (AdbFs.new (consoleOps 0) 0 {})).1⟩ w := by
  have hserves := serves_serve (plainHost 0 0 0) (.opendir 1) (AdbFs.new (consoleOps 0) 0 {})
  have hprinted := (line_endings_are_ignored (Console.withReturns 2) (consoleOps 0) 0 {} _ _).mpr
    ⟨_, _, .cons hserves .nil, rfl, rfl⟩
  cases hprinted with
  | cons hserves _ => exact ⟨_, hserves⟩

end Plain

end Adbfs
