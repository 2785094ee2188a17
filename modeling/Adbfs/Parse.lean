import Adbfs.Library.Text

namespace Adbfs

open Library

/-- `none` is a panic. -/
abbrev Checked (α : Type) := Option α

abbrev SystemTime := ℤ

structure FileMeta where
  mode : ℕ
  nlink : ℕ
  uid : ℕ
  gid : ℕ
  size : ℕ
  rdev : ℕ
  mtime : SystemTime
  rawLine : Text
  deriving DecidableEq

structure Tm where
  year : ℤ
  mon : ℤ
  mday : ℤ
  hour : ℤ
  min : ℤ
  sec : ℤ
  isdst : ℤ

/-- The host's libc, and whether the program is built with overflow checks; a release build is
not. -/
class Libc where
  mktime : Tm → ℤ
  getpwnam : Text → Option ℕ
  getgrnam : Text → Option ℕ
  overflowChecks : Bool

def S_IFMT : ℕ := 0o170000
def S_IFSOCK : ℕ := 0o140000
def S_IFLNK : ℕ := 0o120000
def S_IFREG : ℕ := 0o100000
def S_IFBLK : ℕ := 0o060000
def S_IFDIR : ℕ := 0o040000
def S_IFCHR : ℕ := 0o020000
def S_IFIFO : ℕ := 0o010000

def typeBits (b : UInt8) : ℕ :=
  if b = 's'.toUInt8 then S_IFSOCK
  else if b = 'l'.toUInt8 then S_IFLNK
  else if b = '-'.toUInt8 then S_IFREG
  else if b = 'd'.toUInt8 then S_IFDIR
  else if b = 'b'.toUInt8 then S_IFBLK
  else if b = 'c'.toUInt8 then S_IFCHR
  else if b = 'p'.toUInt8 then S_IFIFO
  else 0

def flagBits (c : Char) (bit : ℕ) (b : UInt8) : ℕ := if b = c.toUInt8 then bit else 0

def executeBits (both alone : Char) (execute special : ℕ) (b : UInt8) : ℕ :=
  if b = 'x'.toUInt8 then execute
  else if b = both.toUInt8 then special ||| execute
  else if b = alone.toUInt8 then special
  else 0

def parseModeString (s : Text) : ℕ :=
  match s.bytes with
  | b0 :: b1 :: b2 :: b3 :: b4 :: b5 :: b6 :: b7 :: b8 :: b9 :: _ =>
    typeBits b0
      ||| flagBits 'r' 0o400 b1 ||| flagBits 'w' 0o200 b2 ||| executeBits 's' 'S' 0o100 0o4000 b3
      ||| flagBits 'r' 0o040 b4 ||| flagBits 'w' 0o020 b5 ||| executeBits 's' 'S' 0o010 0o2000 b6
      ||| flagBits 'r' 0o004 b7 ||| flagBits 'w' 0o002 b8 ||| executeBits 't' 'T' 0o001 0o1000 b9
  | _ => 0

def isValidLsOutput (line : Text) : Bool :=
  match line.bytes with
  | b0 :: b1 :: _ => !(b0 == '/'.toUInt8) && (b1 == 'r'.toUInt8 || b1 == '-'.toUInt8)
  | _ => false

def resolveId (table : Text → Option ℕ) (name : Text) : ℕ :=
  if Char.ofNat 0 ∈ name then 98 else (table name).getD 98

def resolveUid [Libc] (name : Text) : ℕ := resolveId Libc.getpwnam name

def resolveGid [Libc] (name : Text) : ℕ := resolveId Libc.getgrnam name

/-- Without overflow checks, arithmetic wraps around. -/
def arithI32 [Libc] (n : ℤ) : Checked ℤ :=
  if -2 ^ 31 ≤ n ∧ n < 2 ^ 31 then some n
  else if Libc.overflowChecks then none
  else some (n.bmod (2 ^ 32))

def arithU64 [Libc] (n : ℕ) : Checked ℕ :=
  if n < 2 ^ 64 then some n
  else if Libc.overflowChecks then none
  else some (n % 2 ^ 64)

def epochPlus (secs : ℕ) : Checked SystemTime :=
  if secs < 2 ^ 63 then some ((secs : ℤ) * 10 ^ 9) else none

def parseDatetime [Libc] (dateStr timeStr : Text) : Checked (Option SystemTime) :=
  match dateStr.splitOn '-', timeStr.splitOn ':' with
  | y :: mo :: d :: _, h :: mi :: _ =>
    match Text.parseSigned 32 y, Text.parseSigned 32 mo, Text.parseSigned 32 d,
      Text.parseSigned 32 h, Text.parseSigned 32 mi with
    | some year, some mon, some mday, some hour, some min => do
      let tmYear ← arithI32 (year - 1900)
      let tmMon ← arithI32 (mon - 1)
      let epochSecs := Libc.mktime ⟨tmYear, tmMon, mday, hour, min, 0, -1⟩
      if epochSecs = -1 then some none
      else (epochPlus (epochSecs % 2 ^ 64).toNat).map some
    | _, _, _, _, _ => some none
  | _, _ => some none

/-- Size, device number and index of the date column, by file type; `o` is one where the line has
a link count and zero where it has none. -/
def typeColumns [Libc] (mode o : ℕ) (fields : List Text) : Checked (Option (ℕ × ℕ × ℕ)) :=
  let fileType := mode &&& S_IFMT
  if fileType = S_IFBLK ∨ fileType = S_IFCHR then
    match fields[o + 3]?, fields[o + 4]? with
    | some majorStr, some minorStr => do
      let major := (Text.parseUnsigned 64 (majorStr.rdropWhile (· == ','))).getD 0
      let minor := (Text.parseUnsigned 64 minorStr).getD 0
      let high ← arithU64 (major * 256)
      let rdev ← arithU64 (high + minor)
      some (some (0, rdev, o + 5))
    | _, _ => some none
  else if fileType = S_IFREG then
    some (fields[o + 3]?.map fun f => ((Text.parseUnsigned 64 f).getD 0, 0, o + 4))
  else
    -- directories, links, sockets and pipes may or may not print a size; a date always has a '-'
    some (fields[o + 3]?.map fun candidate =>
      (0, 0, if '-' ∈ candidate then o + 3 else o + 4))

def nlinkColumn (field : Text) : ℕ × ℕ :=
  match Text.parseUnsigned 32 field with
  | some n => if 0 < n then (n, 1) else (1, 0)
  | none => (1, 0)

def parseLsLine [Libc] (line : Text) : Checked (Option FileMeta) :=
  match line.splitWhitespace with
  | f0 :: f1 :: f2 :: f3 :: f4 :: f5 :: more =>
    let fields := f0 :: f1 :: f2 :: f3 :: f4 :: f5 :: more
    if !isValidLsOutput f0 then some none
    else
      let mode := parseModeString f0
      let (nlink, o) := nlinkColumn f1
      match fields[o + 1]?, fields[o + 2]? with
      | some uidField, some gidField => do
        let uid := resolveUid uidField
        let gid := resolveGid gidField
        match ← typeColumns mode o fields with
        | some (size, rdev, dateIdx) =>
          match fields[dateIdx]?, fields[dateIdx + 1]? with
          | some dateStr, some timeStr => do
            let mtime ← parseDatetime dateStr timeStr
            some (mtime.map fun t => ⟨mode, nlink, uid, gid, size, rdev, t, line⟩)
          | _, _ => some none
        | none => some none
      | _, _ => some none
  | _ => some none

def arrow : Text := " -> ".toList

def extractFilename (line : Text) : Checked (Option Text) :=
  match Text.breakOn [':'] line with
  | none => some none
  | some (before, _) =>
    let nameStart := before.byteLen + 4
    if line.byteLen < nameStart then some none
    else do
      let name ← line.sliceFrom nameStart
      let name := match Text.breakOn arrow name with
        | some (n, _) => n
        | none => name
      some (if name = [] then none else some name)

def parseSymlinkTarget (lsLine : Text) (numSlashesInPath : ℕ) : Option Text :=
  match Text.breakOn arrow lsLine with
  | none => none
  | some (_, target) =>
    if target = [] then none
    else if ['/'] <+: target then
      let trimmed := target.dropWhile (· == '/')
      some ((List.replicate (numSlashesInPath - 1) "../".toList).flatten ++ trimmed)
    else some target

end Adbfs
