import Adbfs.Commands
import Adbfs.LsObjects

/-! A device that keeps a tree of files. What the device is free to choose, the metadata it gives a
file and the commands that fail among them, it takes from a plan. -/

namespace Adbfs

open Library Library.Paths

section Tree

variable [Libc]

/-- What `ls -l` tells of a file, whatever path it prints it under. -/
structure LsEntry where
  columns : Columns
  pad : ℕ → ℕ
  target : Text
  plain : columns.Plain
  dated : 0 ≤ Libc.mktime columns.stamp.tm ∧ Libc.mktime columns.stamp.tm < 2 ^ 63

namespace LsEntry

variable (e : LsEntry) (p : Text)

def object {name : Text} (h : IsName name) : LsObject := ⟨e.columns, name, e.target, h, e.plain⟩

def suffix : Text := if e.columns.kind = .symlink then arrow ++ e.target else []

def line : Text := e.columns.line e.pad (p ++ e.suffix)

def fileMeta : FileMeta := e.columns.fileMeta (Libc.mktime e.columns.stamp.tm * 10 ^ 9) []

def link : Option Text := if e.columns.kind = .symlink then some e.target else none

lemma line_eq_listed {name : Text} (h : IsName name) : e.line name = (e.object h).listed e.pad := rfl

variable {e p}

lemma parseLsLine_line : parseLsLine (e.line p) =
    some (if e.columns.Wide (p ++ e.suffix) then some { e.fileMeta with rawLine := e.line p }
      else none) := by
  have hparse := @Columns.parseLsLine_eq_some_some e.columns e.pad (p ++ e.suffix) _
    { e.fileMeta with rawLine := e.line p } (by have := e.dated; omega)
  by_cases hwide : e.columns.Wide (p ++ e.suffix)
  · rw [if_pos hwide]
    exact hparse.mpr ⟨hwide, e.dated.1, rfl⟩
  · rw [if_neg hwide]
    exact Columns.parseLsLine_of_not_wide e.pad (p ++ e.suffix) hwide

lemma decodes (hp : '/' ∈ p) :
    parseLsLine (e.line p) = some (some { e.fileMeta with rawLine := e.line p }) := by
  have hwide : e.columns.Wide (p ++ e.suffix) := fun _ => ⟨'/', List.mem_append_left _ hp, by decide⟩
  rw [parseLsLine_line, if_pos hwide]

end LsEntry

/-- A file that can be read has contents. -/
structure Node where
  entry : LsEntry
  data : Option Bytes
  sized : ∀ d, data = some d →
    entry.columns.kind = .regularFile ∧ entry.columns.extent = .size d.length

namespace Node

def isDir (n : Node) : Bool := n.entry.columns.kind = .directory

variable {n : Node} {d : Bytes}

lemma size_eq (h : n.data = some d) : n.entry.fileMeta.size = d.length := by
  obtain ⟨hkind, hsize⟩ := n.sized d h
  simp [LsEntry.fileMeta, Columns.fileMeta, Columns.size, hkind, hsize]

lemma suffix_line (h : n.data = some d) (p : Text) : p <:+ n.entry.line p := by
  have hregular : n.entry.suffix = [] := by
    rw [LsEntry.suffix, (n.sized d h).1, if_neg (by decide)]
  rw [LsEntry.line, hregular, List.append_nil, Columns.line]
  exact ⟨Text.columns n.entry.pad n.entry.columns.front ++ (n.entry.columns.stamp.time ++ [' ']),
    by simp⟩

end Node

abbrev Tree := Text → Option Node

inductive Failure where
  | transport (e : AdbError)
  | message (lines : List Text) (exitCode : ℤ)

/-- It tells no metadata, and what it is that was denied has a name. -/
def IsRemark (line : Text) : Prop :=
  (∀ m, parseLsLine line ≠ some (some m)) ∧ ∀ e, listLine line = some (some e) → IsName e.1

/-- What a listing prints: the line of a file, or a remark. -/
inductive LsItem where
  | file (name : Text)
  | remark (line : Text) (h : IsRemark line)

structure Fate where
  node : Node
  listing : List LsItem
  lines : List Text
  torn : Option Bytes
  fails : Bool
  failure : Failure
  lands : Bool

structure Phone where
  tree : Tree
  plan : ℕ → Fate
  commands : ℕ
  failures : ℕ
  v2 : Bool

end Tree

namespace Phone

variable [Libc]

def isDir (tree : Tree) (p : Text) : Bool :=
  match tree p with
  | some n => n.isDir
  | none => false

def listedNode (tree : Tree) (dir name : Text) : Option Node :=
  if name = ['.'] then tree dir
  else if name = ['.', '.'] then tree (parentOf dir)
  else tree (childText dir name)

def listedLine (tree : Tree) (dir : Text) : LsItem → Option Text
  | .file name =>
    if IsName name then (listedNode tree dir name).map fun n => n.entry.line name else none
  | .remark line _ => some line

/-- Down to the file that the components lead to, or to the first link on the way, with what it
leads to and what remains. -/
def descend (tree : Tree) (dir : Text) : List Text → Option (Text × Option (Text × List Text))
  | [] => some (dir, none)
  | c :: cs =>
    if c = [] ∨ c = ['.'] then descend tree dir cs
    else if c = ['.', '.'] then descend tree (parentOf dir) cs
    else
      match tree (childText dir c) with
      | none => none
      | some n =>
        match n.entry.link with
        | some target => some (dir, some (target, cs))
        | none =>
          if n.isDir then descend tree (childText dir c) cs
          else if cs = [] then some (childText dir c, none) else none

/-- Where a link in a directory leads, so many links at most. -/
def follow (tree : Tree) : ℕ → Text → Text → List Text → Option Text
  | 0, _, _, _ => none
  | links + 1, dir, target, rest =>
    let start := if ['/'] <+: target then ['/'] else dir
    match descend tree start (target.splitOn '/' ++ rest) with
    | none => none
    | some (p, none) => some p
    | some (dir, some (target, rest)) => follow tree links dir target rest

/-- The directory that is at the path, or that a link there leads to. -/
def dirAt (tree : Tree) (p : Text) : Option Text :=
  if isDir tree p then some p
  else
    (((tree p).bind fun n => n.entry.link).bind fun target =>
      follow tree 40 (parentOf p) target []).filter fun dir => isDir tree dir

def missing (p : Text) : Failure :=
  .message ["ls: ".toList ++ p ++ ": No such file or directory".toList] 1

/-- `mv` puts the source into the target where that is a directory or a link to one. -/
def mvTarget (tree : Tree) (source target : Text) : Text :=
  match dirAt tree target with
  | some dir => childText dir (baseName source)
  | none => target

/-- The output of a command and the tree it leaves; `none` where the device refuses it. -/
def perform (tree : Tree) (fate : Fate) :
    Command → Option (Except Failure (List Text) × Tree)
  | .stat p =>
    -- every path the program has is absolute
    if '/' ∈ p then
      match tree p with
      | some n => some (.ok [n.entry.line p], tree)
      | none => some (.error (missing p), tree)
    else none
  | .list p =>
    -- the kernel opens no other file with `opendir`
    if isDir tree p then some (.ok (fate.listing.filterMap (listedLine tree p)), tree) else none
  | .mkdir p =>
    if tree p = none ∧ isDir tree (parentOf p) ∧ fate.node.isDir then
      some (.ok [], Function.update tree p (some fate.node))
    else none
  | .rm p =>
    if tree p ≠ none ∧ isDir tree p = false then some (.ok [], Function.update tree p none) else none
  | .rmdir p => if isDir tree p then some (.ok [], Function.update tree p none) else none
  | .mv source target =>
    let target := mvTarget tree source target
    if tree source ≠ none ∧ isDir tree (parentOf target) ∧ isDir tree target = false ∧
        (isDir tree source → tree target = none) ∧ rebase source source target = none ∧
        rebase target target source = none then
      some (.ok [], moveTree source target tree)
    else none
  | .touch p =>
    if isDir tree (parentOf p) ∧ fate.node.data = ((tree p).map Node.data).getD (some []) ∧
        fate.node.isDir = isDir tree p then
      some (.ok [], Function.update tree p (some fate.node))
    else none
  | .broadcast => some (.ok fate.lines, tree)
  | .sync => some (.ok fate.lines, tree)

def fits (tree : Tree) (p : Text) : Bool := isDir tree (parentOf p) && !isDir tree p

def failed (fate : Fate) (tree : Tree) (d : Phone) : Except Failure (List Text) × Phone :=
  (.error fate.failure,
    { d with tree, commands := d.commands + 1, failures := d.failures + 1 })

/-- A command that fails may have taken effect. -/
def run (c : Command) (d : Phone) : Except Failure (List Text) × Phone :=
  let fate := d.plan d.commands
  let performed := perform d.tree fate c
  if fate.fails then
    failed fate (if fate.lands then (performed.map Prod.snd).getD d.tree else d.tree) d
  else
    match performed with
    | some (answer, tree) => (answer, { d with tree, commands := d.commands + 1 })
    | none => failed fate d.tree d

def runAll : List Command → Phone → Except Failure (List Text) × Phone
  | [], d => (.ok [], d)
  | c :: cs, d =>
    match run c d with
    | (.error e, d) => (.error e, d)
    | (.ok lines, d) => ((runAll cs d).1.map fun more => lines ++ more, (runAll cs d).2)

def answer (v2 : Bool) : Except Failure (List Text) → Except AdbError ShellOutput
  | .ok lines => .ok ⟨lines, [], 0⟩
  | .error (.transport e) => .error e
  | .error (.message lines exitCode) =>
    .ok (if v2 then ⟨[], lines, exitCode⟩ else ⟨lines, [], 0⟩)

def shellWithStderr (cmd : Text) (d : Phone) : Except AdbError ShellOutput × Phone :=
  match readCommands cmd with
  | some cs => (answer d.v2 (runAll cs d).1, (runAll cs d).2)
  | none => (.ok ⟨[], ["sh: syntax error".toList], 2⟩, { d with failures := d.failures + 1 })

def shell (cmd : Text) (d : Phone) : Except AdbError (List Text) × Phone :=
  ((shellWithStderr cmd d).1.bind AdbCli.shellLines, (shellWithStderr cmd d).2)

/-- A transfer that fails tells so by its exit code. -/
def failedTransfer (fate : Fate) : AdbError :=
  match fate.failure with
  | .transport e => e
  | .message lines exitCode => .commandFailed exitCode lines.flatten

def pull (p : Text) (here : Option Bytes) (d : Phone) :
    (Except AdbError Unit × Option Bytes) × Phone :=
  let fate := d.plan d.commands
  if fate.fails then
    ((.error (failedTransfer fate), fate.torn),
      { d with commands := d.commands + 1, failures := d.failures + 1 })
  else
    match (d.tree p).bind Node.data with
    | some contents => ((.ok (), some contents), { d with commands := d.commands + 1 })
    | none =>
      ((.error (failedTransfer fate), here),
        { d with commands := d.commands + 1, failures := d.failures + 1 })

/-- A push that fails may leave some file at the path. -/
def push (here : LocalPath) (contents : Option Bytes) (p : Text) (d : Phone) :
    Except AdbError Unit × Phone :=
  let fate := d.plan d.commands
  let put := Function.update d.tree p (some fate.node)
  let possible := fits d.tree p && !fate.node.isDir && (contents.isSome || here == .scratch)
  if !fate.fails && possible && fate.node.data == contents then
    (.ok (), { d with tree := put, commands := d.commands + 1 })
  else
    (.error (failedTransfer fate),
      { d with
        tree := if fate.lands && possible then put else d.tree
        commands := d.commands + 1
        failures := d.failures + 1 })

def asAction {α : Type} (f : Phone → Except AdbError α × Phone) :
    Action Phone AdbError α := fun d =>
  (match (f d).1 with
    | .ok a => .ok a
    | .error e => .error (.error e), (f d).2)

instance : AdbDevice Phone where
  shell cmd := asAction (shell cmd)
  shellWithStderr cmd := asAction (shellWithStderr cmd)
  pull := pull
  push here contents p := asAction (push here contents p)
  syncDevice := do
    let _ ← asAction (shell "sync".toList)
    pure ()

end Phone

/-! Files of the root account, listed in the format with a link count. -/

section Plain

attribute [local instance] plainLibc

lemma root_plain : ':' ∉ "root".toList := by decide

lemma plain_dated : 0 ≤ Libc.mktime epochStamp.tm ∧ Libc.mktime epochStamp.tm < 2 ^ 63 := by decide

def plainEntry (kind : FileType) (hkind : kind.isDevice = false) (size : ℕ) (hsize : size < 2 ^ 64)
    (target : Text) : LsEntry where
  columns := rootColumns kind hkind size hsize
  pad _ := 0
  target
  plain := ⟨root_plain, root_plain⟩
  dated := plain_dated

lemma directory_plain : FileType.directory.isDevice = false := rfl

lemma symlink_plain : FileType.symlink.isDevice = false := rfl

lemma regularFile_plain : FileType.regularFile.isDevice = false := rfl

lemma zero_size : 0 < 2 ^ 64 := by decide

def dirNode : Node where
  entry := plainEntry .directory directory_plain 0 zero_size []
  data := none
  sized _ h := nomatch h

def linkNode (target : Text) : Node where
  entry := plainEntry .symlink symlink_plain 0 zero_size target
  data := none
  sized _ h := nomatch h

def fileNode (contents : Bytes) (hsize : contents.length < 2 ^ 64) : Node where
  entry := plainEntry .regularFile regularFile_plain contents.length hsize []
  data := some contents
  sized d h := by
    obtain rfl := Option.some.inj h
    exact ⟨rfl, rfl⟩

def emptyNode : Node := fileNode [] zero_size

lemma byte_size (b : UInt8) : [b].length < 2 ^ 64 := by simp

def byteNode (b : UInt8) : Node := fileNode [b] (byte_size b)

example : (linkNode "/d".toList).entry.line "/a".toList =
    "lrw-r--r-- 1 root root 0 1970-01-01 00:00 /a -> /d".toList := by decide

def plainFate (node : Node) : Fate := ⟨node, [], [], none, false, .message [] 1, false⟩

/-- No command fails, and every file made is as the list says. -/
def plainPhone (files : List (Text × Node)) (made : List Node) : Phone where
  tree p := if p = ['/'] then some dirNode else (files.find? fun f => f.1 == p).map Prod.snd
  plan n := plainFate (made.getD n dirNode)
  commands := 0
  failures := 0
  v2 := true

lemma plainPhone_holds {files : List (Text × Node)} {made : List Node} {p : Text}
    (h : (plainPhone files made).tree p ≠ none) : p = ['/'] ∨ ∃ f ∈ files, f.1 = p := by
  by_cases hroot : p = ['/']
  · exact Or.inl hroot
  · refine Or.inr ?_
    simp only [plainPhone, if_neg hroot, ne_eq, Option.map_eq_none_iff, List.find?_eq_none] at h
    push Not at h
    obtain ⟨f, hf, heq⟩ := h
    exact ⟨f, hf, by simpa using heq⟩

/-- `mv` follows a link to a directory, and one link to another. -/
example : Phone.mvTarget (plainPhone [("/a".toList, dirNode), ("/d".toList, dirNode),
    ("/d/e".toList, linkNode "../d/./".toList), ("/l".toList, linkNode "d/e".toList)] []).tree
    "/a".toList "/l".toList = "/d/a".toList := by decide

end Plain

end Adbfs
