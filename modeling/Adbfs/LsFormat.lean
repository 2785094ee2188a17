import Adbfs.Fs
import Adbfs.Library.Words

/-! The lines that `ls -l` prints, in the format with a link count and in the older one without. -/

namespace Adbfs

open Library Library.Text

def FileType.letter : FileType → Char
  | .namedPipe => 'p'
  | .charDevice => 'c'
  | .blockDevice => 'b'
  | .directory => 'd'
  | .regularFile => '-'
  | .symlink => 'l'
  | .socket => 's'

def FileType.bits : FileType → ℕ
  | .namedPipe => S_IFIFO
  | .charDevice => S_IFCHR
  | .blockDevice => S_IFBLK
  | .directory => S_IFDIR
  | .regularFile => S_IFREG
  | .symlink => S_IFLNK
  | .socket => S_IFSOCK

def FileType.isDevice : FileType → Bool
  | .charDevice => true
  | .blockDevice => true
  | _ => false

section Mode

def permLetter (c : Char) (allowed : Bool) : Char := if allowed then c else '-'

def executeLetter (both alone : Char) (execute special : Bool) : Char :=
  if execute then if special then both else 'x' else if special then alone else '-'

def modeText (kind : FileType) (perm : ℕ) : Text :=
  [kind.letter,
    permLetter 'r' (perm.testBit 8), permLetter 'w' (perm.testBit 7),
    executeLetter 's' 'S' (perm.testBit 6) (perm.testBit 11),
    permLetter 'r' (perm.testBit 5), permLetter 'w' (perm.testBit 4),
    executeLetter 's' 'S' (perm.testBit 3) (perm.testBit 10),
    permLetter 'r' (perm.testBit 2), permLetter 'w' (perm.testBit 1),
    executeLetter 't' 'T' (perm.testBit 0) (perm.testBit 9)]

variable (kind : FileType) {perm : ℕ}

def bit (i : ℕ) (b : Bool) : ℕ := if b then 2 ^ i else 0

lemma typeBits_letter : typeBits kind.letter.toUInt8 = kind.bits := by cases kind <;> rfl

lemma flagBits_permLetter (c : Char) (i : ℕ) (b : Bool) (hc : '-'.toUInt8 ≠ c.toUInt8) :
    flagBits c (2 ^ i) (permLetter c b).toUInt8 = bit i b := by
  cases b <;> simp [flagBits, permLetter, bit, hc]

lemma executeBits_executeLetter {both alone : Char} (i j : ℕ) (execute special : Bool)
    (hletters : (both, alone) = ('s', 'S') ∨ (both, alone) = ('t', 'T')) :
    executeBits both alone (2 ^ i) (2 ^ j) (executeLetter both alone execute special).toUInt8 =
      bit j special ||| bit i execute := by
  rcases hletters with h | h <;> obtain ⟨rfl, rfl⟩ := Prod.mk.inj h <;>
    cases execute <;> cases special <;> simp +decide [executeBits, bit]

lemma bytes_of_ascii {t : Text} (ht : ∀ c ∈ t, c.toNat < 128) : t.bytes = t.map Char.toUInt8 := by
  induction t with
  | nil => rfl
  | cons c t ih =>
    have hval : c.val.toNat ≤ 127 := Nat.le_of_lt_succ (ht c (by simp))
    have hrest := ih fun d hd => ht d (by simp [hd])
    rw [Text.bytes] at hrest ⊢
    rw [List.flatMap_cons, hrest, String.utf8EncodeChar, if_pos hval]
    rfl

def modeLetters : Text := "rwxsStT-ldbcp".toList

lemma modeText_subset (kind : FileType) (perm : ℕ) : modeText kind perm ⊆ modeLetters := by
  have hperm : ∀ c b, c ∈ modeLetters → permLetter c b ∈ modeLetters := by
    intro c b hc
    cases b
    · exact (by decide : '-' ∈ modeLetters)
    · exact hc
  have hexecute : ∀ both alone execute special, both ∈ modeLetters → alone ∈ modeLetters →
      executeLetter both alone execute special ∈ modeLetters := by
    intro both alone execute special hboth halone
    cases execute <;> cases special
    · exact (by decide : '-' ∈ modeLetters)
    · exact halone
    · exact (by decide : 'x' ∈ modeLetters)
    · exact hboth
  have hkind : kind.letter ∈ modeLetters := by cases kind <;> decide
  simp only [modeText, List.cons_subset]
  exact ⟨hkind, hperm _ _ (by decide), hperm _ _ (by decide), hexecute _ _ _ _ (by decide) (by decide),
    hperm _ _ (by decide), hperm _ _ (by decide), hexecute _ _ _ _ (by decide) (by decide),
    hperm _ _ (by decide), hperm _ _ (by decide), hexecute _ _ _ _ (by decide) (by decide), by simp⟩

lemma bytes_modeText : (modeText kind perm).bytes = (modeText kind perm).map Char.toUInt8 := by
  apply bytes_of_ascii
  have hascii : ∀ c ∈ modeLetters, c.toNat < 128 := by decide
  exact fun c hc => hascii c (modeText_subset kind perm hc)

lemma perm_eq_bits (hperm : perm < 2 ^ 12) :
    bit 8 (perm.testBit 8) ||| bit 7 (perm.testBit 7) |||
      (bit 11 (perm.testBit 11) ||| bit 6 (perm.testBit 6)) |||
      bit 5 (perm.testBit 5) ||| bit 4 (perm.testBit 4) |||
      (bit 10 (perm.testBit 10) ||| bit 3 (perm.testBit 3)) |||
      bit 2 (perm.testBit 2) ||| bit 1 (perm.testBit 1) |||
      (bit 9 (perm.testBit 9) ||| bit 0 (perm.testBit 0)) = perm := by
  have hbit : ∀ i j b, (bit i b).testBit j = (b && decide (i = j)) := by
    intro i j b
    cases b
    · simp [bit]
    · simp [bit, Nat.testBit_two_pow]
  apply Nat.eq_of_testBit_eq
  intro j
  simp only [Nat.testBit_or, hbit]
  by_cases hj : j < 12
  · interval_cases j <;> simp
  · have hhigh : perm.testBit j = false :=
      Nat.testBit_lt_two_pow (hperm.trans_le (Nat.pow_le_pow_right (by decide) (by omega)))
    rw [hhigh]
    simp
    omega

lemma parseModeString_modeText (hperm : perm < 2 ^ 12) :
    parseModeString (modeText kind perm) = kind.bits ||| perm := by
  have hperm' := perm_eq_bits hperm
  have h8 := flagBits_permLetter 'r' 8 (perm.testBit 8) (by decide)
  have h7 := flagBits_permLetter 'w' 7 (perm.testBit 7) (by decide)
  have h6 := executeBits_executeLetter 6 11 (perm.testBit 6) (perm.testBit 11) (Or.inl rfl)
  have h5 := flagBits_permLetter 'r' 5 (perm.testBit 5) (by decide)
  have h4 := flagBits_permLetter 'w' 4 (perm.testBit 4) (by decide)
  have h3 := executeBits_executeLetter 3 10 (perm.testBit 3) (perm.testBit 10) (Or.inl rfl)
  have h2 := flagBits_permLetter 'r' 2 (perm.testBit 2) (by decide)
  have h1 := flagBits_permLetter 'w' 1 (perm.testBit 1) (by decide)
  have h0 := executeBits_executeLetter 0 9 (perm.testBit 0) (perm.testBit 9) (Or.inr rfl)
  rw [parseModeString, bytes_modeText, modeText]
  simp only [List.map_cons, List.map_nil, typeBits_letter]
  norm_num only at h8 h7 h6 h5 h4 h3 h2 h1 h0
  rw [h8, h7, h6, h5, h4, h3, h2, h1, h0]
  simp only [Nat.or_assoc] at hperm' ⊢
  rw [hperm']

lemma mode_and_ifmt (hperm : perm < 2 ^ 12) : (kind.bits ||| perm) &&& S_IFMT = kind.bits := by
  have hlow : perm &&& S_IFMT = 0 := by
    apply Nat.eq_of_testBit_eq
    intro j
    rw [Nat.testBit_and, Nat.zero_testBit]
    by_cases hj : j < 12
    · have hmask : S_IFMT.testBit j = false := by interval_cases j <;> decide
      rw [hmask, Bool.and_false]
    · rw [Nat.testBit_lt_two_pow (hperm.trans_le (Nat.pow_le_pow_right (by decide) (by omega))),
        Bool.false_and]
  have hkind : kind.bits &&& S_IFMT = kind.bits := by cases kind <;> decide
  rw [Nat.and_or_distrib_right, hlow, hkind, Nat.or_zero]

lemma isValidLsOutput_modeText : isValidLsOutput (modeText kind perm) = true := by
  rw [isValidLsOutput, bytes_modeText, modeText]
  simp only [List.map_cons]
  cases kind <;> cases perm.testBit 8 <;> decide

end Mode

structure Stamp where
  year : ℕ
  mon : ℕ
  mday : ℕ
  hour : ℕ
  min : ℕ
  year_lt : year < 2 ^ 31
  mon_range : 1 ≤ mon ∧ mon ≤ 12
  mday_range : 1 ≤ mday ∧ mday ≤ 31
  hour_lt : hour < 24
  min_lt : min < 60

namespace Stamp

def date (s : Stamp) : Text := padded 4 s.year ++ '-' :: (padded 2 s.mon ++ '-' :: padded 2 s.mday)

def time (s : Stamp) : Text := padded 2 s.hour ++ ':' :: padded 2 s.min

def tm (s : Stamp) : Tm := ⟨s.year - 1900, s.mon - 1, s.mday, s.hour, s.min, 0, -1⟩

lemma splitOn_date (s : Stamp) :
    s.date.splitOn '-' = [padded 4 s.year, padded 2 s.mon, padded 2 s.mday] := by
  rw [date, List.splitOn_append_cons_self_of_not_mem (notMem_padded _ _ (by decide)),
    List.splitOn_append_cons_self_of_not_mem (notMem_padded _ _ (by decide)),
    List.splitOn_eq_singleton (notMem_padded _ _ (by decide))]

lemma splitOn_time (s : Stamp) : s.time.splitOn ':' = [padded 2 s.hour, padded 2 s.min] := by
  rw [time, List.splitOn_append_cons_self_of_not_mem (notMem_padded _ _ (by decide)),
    List.splitOn_eq_singleton (notMem_padded _ _ (by decide))]

lemma isWord_append {w v : Text} (hw : IsWord w) (hv : ∀ c ∈ v, isWhitespace c = false) :
    IsWord (w ++ v) := by
  refine ⟨by simp [hw.1], fun c hc => ?_⟩
  rcases List.mem_append.mp hc with h | h
  · exact hw.2 c h
  · exact hv c h

lemma isWord_date (s : Stamp) : IsWord s.date := by
  apply isWord_append (isWord_padded _ _)
  intro c hc
  rcases List.mem_cons.mp hc with rfl | hc
  · decide
  · rcases List.mem_append.mp hc with hc | hc
    · exact (isWord_padded _ _).2 c hc
    · rcases List.mem_cons.mp hc with rfl | hc
      · decide
      · exact (isWord_padded _ _).2 c hc

lemma isWord_time (s : Stamp) : IsWord s.time := by
  apply isWord_append (isWord_padded _ _)
  intro c hc
  rcases List.mem_cons.mp hc with rfl | hc
  · decide
  · exact (isWord_padded _ _).2 c hc

/-- All that `mktime` is asked and all that becomes of its answer. -/
lemma parseDatetime_stamp [Libc] (s : Stamp) : parseDatetime s.date s.time =
    if Libc.mktime s.tm = -1 then some none
    else (epochPlus (Libc.mktime s.tm % 2 ^ 64).toNat).map some := by
  have hyear := s.year_lt
  have hmon := s.mon_range
  have hmday := s.mday_range
  have hhour := s.hour_lt
  have hmin := s.min_lt
  have htm : arithI32 (s.year - 1900) = some (s.year - 1900 : ℤ) := if_pos (by omega)
  have htm' : arithI32 (s.mon - 1) = some (s.mon - 1 : ℤ) := if_pos (by omega)
  rw [parseDatetime, splitOn_date, splitOn_time]
  simp only
  rw [parseSigned_padded 4 hyear, parseSigned_padded 2 (by omega), parseSigned_padded 2 (by omega),
    parseSigned_padded 2 (by omega), parseSigned_padded 2 (by omega)]
  simp only [htm, htm', tm, Option.bind_eq_bind, Option.bind_some]
  rfl

end Stamp

/-- What a line has between the group and the date. -/
inductive Extent where
  | size (n : ℕ)
  | numbers (major minor : ℕ)
  | absent
  deriving DecidableEq

def Extent.words : Extent → List Text
  | .size n => [padded 0 n]
  | .numbers major minor => [padded 0 major ++ [','], padded 0 minor]
  | .absent => []

/-- Only in the older format, and only for what has no size of its own, is there nothing. -/
def Extent.Fits (kind : FileType) (nlink : Option ℕ) : Extent → Prop
  | .size n => n < 2 ^ 64 ∧ kind.isDevice = false
  | .numbers major minor => major < 2 ^ 32 ∧ minor < 2 ^ 32 ∧ kind.isDevice = true
  | .absent => nlink = none ∧ kind ≠ .regularFile ∧ kind.isDevice = false

def IsPositiveNumeral (t : Text) : Prop := ∃ w n, 0 < n ∧ parseUnsigned w t = some n

structure Columns where
  kind : FileType
  perm : ℕ
  nlink : Option ℕ
  owner : Text
  group : Text
  extent : Extent
  stamp : Stamp
  perm_lt : perm < 2 ^ 12
  nlink_range : ∀ n, nlink = some n → 0 < n ∧ n < 2 ^ 32
  owner_word : IsWord owner
  group_word : IsWord group
  owner_not_count : nlink = none → ¬ IsPositiveNumeral owner
  fits : extent.Fits kind nlink

namespace Columns

variable (c : Columns)

/-- All columns but the time, which a single blank parts from the name. -/
def front : List Text :=
  modeText c.kind c.perm :: ((c.nlink.map (padded 0)).toList ++
    c.owner :: c.group :: (c.extent.words ++ [c.stamp.date]))

def line (pad : ℕ → ℕ) (name : Text) : Text :=
  columns pad c.front ++ (c.stamp.time ++ ' ' :: name)

def size : ℕ :=
  match c.extent with
  | .size n => if c.kind = .regularFile then n else 0
  | _ => 0

def rdev : ℕ :=
  match c.extent with
  | .numbers major minor => major * 256 + minor
  | _ => 0

def fileMeta [Libc] (mtime : SystemTime) (rawLine : Text) : FileMeta where
  mode := c.kind.bits ||| c.perm
  nlink := c.nlink.getD 1
  uid := resolveUid c.owner
  gid := resolveGid c.group
  size := c.size
  rdev := c.rdev
  mtime
  rawLine

lemma isWord_modeText (kind : FileType) (perm : ℕ) : IsWord (modeText kind perm) := by
  have hletters : ∀ d ∈ modeLetters, isWhitespace d = false := by decide
  exact ⟨by simp [modeText], fun d hd => hletters d (modeText_subset kind perm hd)⟩

lemma isWord_extent {w : Text} (hw : w ∈ c.extent.words) : IsWord w := by
  cases hext : c.extent with
  | absent => simp [hext, Extent.words] at hw
  | size n =>
    simp only [hext, Extent.words, List.mem_singleton] at hw
    exact hw ▸ isWord_padded _ _
  | numbers major minor =>
    simp only [hext, Extent.words, List.mem_cons, List.not_mem_nil, or_false] at hw
    rcases hw with rfl | rfl
    · exact Stamp.isWord_append (isWord_padded _ _) (by decide)
    · exact isWord_padded _ _

lemma isWord_front {w : Text} (hw : w ∈ c.front) : IsWord w := by
  simp only [front, List.mem_cons, List.mem_append, Option.mem_toList, Option.map_eq_some_iff,
    List.not_mem_nil, or_false] at hw
  rcases hw with rfl | ⟨n, -, rfl⟩ | rfl | rfl | hw | rfl
  · exact isWord_modeText _ _
  · exact isWord_padded _ _
  · exact c.owner_word
  · exact c.group_word
  · exact c.isWord_extent hw
  · exact c.stamp.isWord_date

lemma splitWhitespace_line (pad : ℕ → ℕ) (name : Text) :
    splitWhitespace (c.line pad name) = c.front ++ c.stamp.time :: splitWhitespace name := by
  rw [line, splitWhitespace_columns (fun w hw => c.isWord_front hw),
    splitWhitespace_word c.stamp.isWord_time (by decide)]

lemma rdropWhile_comma (n : ℕ) : (padded 0 n ++ [',']).rdropWhile (· == ',') = padded 0 n := by
  rw [List.rdropWhile_concat_pos _ _ _ (by decide), List.rdropWhile_eq_self_iff]
  intro hne hlast
  have hmem := List.getLast_mem hne
  rw [beq_iff_eq.mp hlast] at hmem
  exact notMem_padded 0 n (by decide) hmem

lemma typeColumns_of_extent [Libc] {fields before after : List Text} {o : ℕ}
    (hfields : fields = before ++ (c.extent.words ++ c.stamp.date :: after))
    (hbefore : before.length = o + 3) :
    typeColumns (c.kind.bits ||| c.perm) o fields =
      some (some (c.size, c.rdev, o + 3 + c.extent.words.length)) := by
  have hfits := c.fits
  have hget : ∀ i, fields[o + 3 + i]? = (c.extent.words ++ c.stamp.date :: after)[i]? := by
    intro i
    rw [hfields, ← hbefore, List.getElem?_append_right (by omega)]
    congr 1
    omega
  have hget0 := hget 0
  have hget1 := hget 1
  rw [Nat.add_zero] at hget0
  have hdash : '-' ∈ c.stamp.date := by simp [Stamp.date]
  unfold typeColumns
  rw [mode_and_ifmt c.kind c.perm_lt]
  dsimp only
  cases hext : c.extent with
  | size n =>
    rw [hext] at hfits hget0
    simp only [Extent.words, List.cons_append, List.getElem?_cons_zero] at hget0
    have hnodash : '-' ∉ padded 0 n := notMem_padded _ _ (by decide)
    rw [hget0]
    cases hkind : c.kind <;> simp [hkind, Extent.Fits, FileType.isDevice] at hfits <;>
      simp +decide [size, rdev, hext, hkind, hnodash, Extent.words, parseUnsigned_padded 0, hfits]
  | numbers major minor =>
    rw [hext] at hfits hget0 hget1
    simp only [Extent.words, List.cons_append, List.getElem?_cons_zero, List.getElem?_cons_succ]
      at hget0 hget1
    obtain ⟨hmajor, hminor, hkind⟩ := hfits
    have hdevice : c.kind.bits = S_IFBLK ∨ c.kind.bits = S_IFCHR := by
      cases hk : c.kind <;> simp [hk, FileType.isDevice] at hkind
      · exact Or.inr rfl
      · exact Or.inl rfl
    have hparse := @parseUnsigned_padded 64 major 0 (hmajor.trans (by decide))
    have hparse' := @parseUnsigned_padded 64 minor 0 (hminor.trans (by decide))
    rw [if_pos hdevice, hget0, show o + 4 = o + 3 + 1 from rfl, hget1]
    simp only [rdropWhile_comma, hparse, hparse', Option.getD_some, arithU64]
    rw [if_pos (by omega)]
    simp only [Option.bind_eq_bind, Option.bind_some]
    rw [if_pos (by omega)]
    simp [size, rdev, hext, Extent.words]
  | absent =>
    rw [hext] at hfits hget0
    simp only [Extent.words, List.nil_append, List.getElem?_cons_zero] at hget0
    rw [hget0]
    cases hkind : c.kind <;> simp [hkind, Extent.Fits, FileType.isDevice] at hfits <;>
      simp +decide [size, rdev, hext, hdash, Extent.words]

lemma parseLsLine_of_columns [Libc] {line f0 f1 uidField gidField dateStr timeStr : Text}
    {rest : List Text} {nlink o size rdev i : ℕ} (hsplit : line.splitWhitespace = f0 :: f1 :: rest)
    (hlen : 4 ≤ rest.length) (hvalid : isValidLsOutput f0 = true)
    (hcount : nlinkColumn f1 = (nlink, o)) (huid : (f0 :: f1 :: rest)[o + 1]? = some uidField)
    (hgid : (f0 :: f1 :: rest)[o + 2]? = some gidField)
    (htype : typeColumns (parseModeString f0) o (f0 :: f1 :: rest) = some (some (size, rdev, i)))
    (hdate : (f0 :: f1 :: rest)[i]? = some dateStr)
    (htime : (f0 :: f1 :: rest)[i + 1]? = some timeStr) :
    parseLsLine line = (parseDatetime dateStr timeStr).map fun r => r.map fun t =>
      ⟨parseModeString f0, nlink, resolveUid uidField, resolveGid gidField, size, rdev, t, line⟩ := by
  obtain ⟨f2, f3, f4, f5, more, rfl⟩ : ∃ f2 f3 f4 f5 more, rest = f2 :: f3 :: f4 :: f5 :: more := by
    match rest, hlen with
    | f2 :: f3 :: f4 :: f5 :: more, _ => exact ⟨f2, f3, f4, f5, more, rfl⟩
  rw [parseLsLine, hsplit]
  simp only [hvalid, hcount, huid, hgid, htype, hdate, htime, Bool.not_true, Bool.false_eq_true,
    if_false, Option.bind_eq_bind, Option.bind_some, Option.map_eq_bind]
  rfl

lemma nlinkColumn_owner (h : c.nlink = none) : nlinkColumn c.owner = (1, 0) := by
  rw [nlinkColumn]
  cases hparse : parseUnsigned 32 c.owner with
  | none => rfl
  | some n =>
    dsimp only
    rw [if_neg fun hpos => c.owner_not_count h ⟨32, n, hpos, hparse⟩]

lemma nlinkColumn_padded {n : ℕ} (h : c.nlink = some n) : nlinkColumn (padded 0 n) = (n, 1) := by
  obtain ⟨hpos, hlt⟩ := c.nlink_range n h
  rw [nlinkColumn, parseUnsigned_padded 0 hlt]
  dsimp only
  rw [if_pos hpos]

lemma getElem_stamp {fields before after : List Text} {o : ℕ}
    (hfields : fields = before ++ (c.extent.words ++ c.stamp.date :: c.stamp.time :: after))
    (hbefore : before.length = o + 3) :
    fields[o + 3 + c.extent.words.length]? = some c.stamp.date ∧
      fields[o + 3 + c.extent.words.length + 1]? = some c.stamp.time := by
  have hget : ∀ i, fields[o + 3 + c.extent.words.length + i]? =
      (c.stamp.date :: c.stamp.time :: after)[i]? := by
    intro i
    rw [hfields, ← List.append_assoc, List.getElem?_append_right (by simp [hbefore])]
    congr 1
    simp [hbefore]
  exact ⟨hget 0, hget 1⟩

lemma parseLsLine_line [Libc] (pad : ℕ → ℕ) {name : Text}
    (hname : c.extent = .absent → splitWhitespace name ≠ []) :
    parseLsLine (c.line pad name) = (parseDatetime c.stamp.date c.stamp.time).map fun r =>
      r.map fun t => c.fileMeta t (c.line pad name) := by
  have hsplit := c.splitWhitespace_line pad name
  have hmode := parseModeString_modeText c.kind c.perm_lt
  have hvalid := @isValidLsOutput_modeText c.kind c.perm
  have hwords : 1 ≤ c.extent.words.length + (splitWhitespace name).length := by
    cases hext : c.extent with
    | absent => exact Nat.le_add_left_of_le (List.length_pos_iff.mpr (hname hext))
    | size n => simp [Extent.words]
    | numbers major minor => exact Nat.le_add_right_of_le (Nat.le_succ 1)
  cases hnlink : c.nlink with
  | none =>
    have hfields : c.front ++ c.stamp.time :: splitWhitespace name =
        [modeText c.kind c.perm, c.owner, c.group] ++
          (c.extent.words ++ c.stamp.date :: c.stamp.time :: splitWhitespace name) := by
      simp [front, hnlink]
    have htype := c.typeColumns_of_extent hfields (o := 0) rfl
    obtain ⟨hdate, htime⟩ := c.getElem_stamp hfields (o := 0) rfl
    rw [hfields] at hsplit htype hdate htime
    rw [← hmode] at htype
    rw [parseLsLine_of_columns hsplit (by simp; omega) hvalid (c.nlinkColumn_owner hnlink) rfl rfl
      htype hdate htime, hmode]
    simp only [fileMeta, hnlink, Option.getD_none]
  | some n =>
    have hfields : c.front ++ c.stamp.time :: splitWhitespace name =
        [modeText c.kind c.perm, padded 0 n, c.owner, c.group] ++
          (c.extent.words ++ c.stamp.date :: c.stamp.time :: splitWhitespace name) := by
      simp [front, hnlink]
    have htype := c.typeColumns_of_extent hfields (o := 1) rfl
    obtain ⟨hdate, htime⟩ := c.getElem_stamp hfields (o := 1) rfl
    rw [hfields] at hsplit htype hdate htime
    rw [← hmode] at htype
    rw [parseLsLine_of_columns hsplit (by simp; omega) hvalid (c.nlinkColumn_padded hnlink) rfl rfl
      htype hdate htime, hmode]
    simp only [fileMeta, hnlink, Option.getD_some]

lemma epochPlus_of_nonneg {t : ℤ} (h : 0 ≤ t) (h' : t < 2 ^ 63) :
    epochPlus (t % 2 ^ 64).toNat = some (t * 10 ^ 9) := by
  have hmod : t % 2 ^ 64 = t := Int.emod_eq_of_lt h (h'.trans (by norm_num))
  have hcast : (t.toNat : ℤ) = t := Int.toNat_of_nonneg h
  rw [hmod, epochPlus, if_pos (by omega), hcast]

/-- A second count below zero is taken for one beyond what a time can hold. -/
lemma epochPlus_of_neg {t : ℤ} (h : t < 0) (h' : -2 ^ 63 ≤ t) :
    epochPlus (t % 2 ^ 64).toNat = none := by
  have hmod : t % 2 ^ 64 = t + 2 ^ 64 := by omega
  rw [hmod, epochPlus, if_neg (by omega)]

variable {name : Text}

lemma splitWhitespace_ne_nil (hname : ∃ x ∈ name, isWhitespace x = false) :
    splitWhitespace name ≠ [] := by
  obtain ⟨x, hx, hblank⟩ := hname
  rw [Ne, splitWhitespace_eq_nil]
  intro hall
  rw [hall x hx] at hblank
  contradiction

theorem parseLsLine_renders [Libc] (pad : ℕ → ℕ) (hname : ∃ x ∈ name, isWhitespace x = false)
    (htime : 0 ≤ Libc.mktime c.stamp.tm) (hrange : Libc.mktime c.stamp.tm < 2 ^ 63) :
    parseLsLine (c.line pad name) =
      some (some (c.fileMeta (Libc.mktime c.stamp.tm * 10 ^ 9) (c.line pad name))) := by
  rw [c.parseLsLine_line pad fun _ => splitWhitespace_ne_nil hname, c.stamp.parseDatetime_stamp, if_neg (by omega),
    epochPlus_of_nonneg htime hrange]
  rfl

/-- Unless `mktime` fails, a line is decoded, with its time, exactly when the time is not before the
epoch; otherwise the thread panics. -/
theorem parseLsLine_line_isSome_iff [Libc] (pad : ℕ → ℕ)
    (hname : ∃ x ∈ name, isWhitespace x = false)
    (hfound : Libc.mktime c.stamp.tm ≠ -1)
    (hrange : -2 ^ 63 ≤ Libc.mktime c.stamp.tm ∧ Libc.mktime c.stamp.tm < 2 ^ 63) :
    (∃ m, parseLsLine (c.line pad name) = some (some m) ∧
        m.mtime = Libc.mktime c.stamp.tm * 10 ^ 9) ↔
      0 ≤ Libc.mktime c.stamp.tm := by
  rw [c.parseLsLine_line pad fun _ => splitWhitespace_ne_nil hname, c.stamp.parseDatetime_stamp, if_neg hfound]
  by_cases htime : 0 ≤ Libc.mktime c.stamp.tm
  · rw [epochPlus_of_nonneg htime hrange.2]
    exact ⟨fun _ => htime, fun _ => ⟨_, rfl, rfl⟩⟩
  · rw [epochPlus_of_neg (by omega) hrange.1]
    simp [htime]

end Columns

section Examples

def epochStamp : Stamp where
  year := 1970
  mon := 1
  mday := 1
  hour := 0
  min := 0
  year_lt := by decide
  mon_range := by decide
  mday_range := by decide
  hour_lt := by decide
  min_lt := by decide

lemma not_isPositiveNumeral_root : ¬ IsPositiveNumeral "root".toList := by
  rintro ⟨w, n, -, h⟩
  have hnone : parseDigits "root".toList = none := by decide
  have hplus : parseUnsigned w "root".toList = (parseDigits "root".toList).filter (· < 2 ^ w) := rfl
  rw [hplus, hnone] at h
  simp at h

lemma isWord_root : IsWord "root".toList := by decide

lemma one_in_range : ∀ n, some 1 = some n → 0 < n ∧ n < 2 ^ 32 := by
  intro n h
  obtain rfl := Option.some.inj h
  decide

lemma rootPerm_lt : 0o644 < 2 ^ 12 := by decide

lemma root_not_count (h : some 1 = none) : ¬ IsPositiveNumeral "root".toList :=
  absurd h (Option.some_ne_none 1)

def rootColumns (kind : FileType) (hkind : kind.isDevice = false) (size : ℕ)
    (hsize : size < 2 ^ 64) : Columns where
  kind
  perm := 0o644
  nlink := some 1
  owner := "root".toList
  group := "root".toList
  extent := .size size
  stamp := epochStamp
  perm_lt := rootPerm_lt
  nlink_range := one_in_range
  owner_word := isWord_root
  group_word := isWord_root
  owner_not_count := root_not_count
  fits := ⟨hsize, hkind⟩

def rootDirectory : Columns where
  kind := .directory
  perm := 0o755
  nlink := none
  owner := "root".toList
  group := "root".toList
  extent := .absent
  stamp := epochStamp
  perm_lt := by decide
  nlink_range _ h := nomatch h
  owner_word := by decide
  group_word := by decide
  owner_not_count _ := not_isPositiveNumeral_root
  fits := ⟨rfl, by decide, rfl⟩

example : rootDirectory.line (fun _ => 0) "acct".toList =
    "drwxr-xr-x root root 1970-01-01 00:00 acct".toList := by decide

@[reducible] def fixedLibc (seconds : ℤ) : Libc :=
  ⟨fun _ => seconds, fun _ => none, fun _ => none, false⟩

@[reducible] def plainLibc : Libc := fixedLibc 0

theorem parseLsLine_renders_rootDirectory :
    @parseLsLine (fixedLibc 60) "drwxr-xr-x root root 1970-01-01 00:00 acct".toList =
      some (some ⟨0o40755, 1, 98, 98, 0, 0, 60 * 10 ^ 9,
        "drwxr-xr-x root root 1970-01-01 00:00 acct".toList⟩) :=
  @Columns.parseLsLine_renders rootDirectory _ (fixedLibc 60)
    (fun _ => 0) ⟨'a', by decide, by decide⟩
    (by decide) (by decide)

theorem parseLsLine_line_isSome_iff_rootDirectory :
    ∃ m, @parseLsLine (fixedLibc 60) "drwxr-xr-x root root 1970-01-01 00:00 acct".toList =
      some (some m) ∧ m.mtime = 60 * 10 ^ 9 :=
  (@Columns.parseLsLine_line_isSome_iff rootDirectory "acct".toList (fixedLibc 60) (fun _ => 0)
    ⟨'a', by decide, by decide⟩ (by decide) (by decide)).mpr (by decide)

/-- One hour to the east of Greenwich the same line is a panic. -/
theorem parseLsLine_line_isSome_iff_fails_before_epoch :
    (fixedLibc (-3600)).mktime rootDirectory.stamp.tm ≠ -1 ∧
      @parseLsLine (fixedLibc (-3600)) (rootDirectory.line (fun _ => 0) "acct".toList) = none := by
  decide

end Examples

end Adbfs
