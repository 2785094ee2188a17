import Mathlib.Data.List.DropRight
import Mathlib.Tactic

/-! Text as a list of characters, with the byte view that slices and kernel names need. -/

namespace Adbfs.Library

abbrev Text := List Char
abbrev Bytes := List UInt8

/-- To be tried before the search through all characters. -/
instance (priority := high) decidableForallMem {l : Text} {p : Char → Prop} [DecidablePred p] :
    Decidable (∀ c ∈ l, p c) := List.decidableBAll p l

namespace Text

def bytes (t : Text) : Bytes := t.flatMap String.utf8EncodeChar

def byteLen (t : Text) : ℕ := (t.map Char.utf8Size).sum

def sliceFrom : ℕ → Text → Option Text
  | 0, t => some t
  | _ + 1, [] => none
  | n + 1, c :: t => if c.utf8Size ≤ n + 1 then sliceFrom (n + 1 - c.utf8Size) t else none

def isWhitespace (c : Char) : Bool :=
  let n := c.toNat
  (9 ≤ n && n ≤ 13) || n == 0x20 || n == 0x85 || n == 0xA0 || n == 0x1680 ||
    (0x2000 ≤ n && n ≤ 0x200A) || n == 0x2028 || n == 0x2029 || n == 0x202F || n == 0x205F ||
    n == 0x3000

def fieldsFrom (w : Text) : Text → List Text
  | [] => if w = [] then [] else [w.reverse]
  | c :: t =>
    if isWhitespace c then
      if w = [] then fieldsFrom [] t else w.reverse :: fieldsFrom [] t
    else fieldsFrom (c :: w) t

def splitWhitespace (t : Text) : List Text := fieldsFrom [] t

def trim (t : Text) : Text := (t.dropWhile isWhitespace).rdropWhile isWhitespace

def breakOn (needle : Text) : Text → Option (Text × Text)
  | [] => if needle = [] then some ([], []) else none
  | c :: t =>
    match needle.isPrefixOf? (c :: t) with
    | some rest => some ([], rest)
    | none => (breakOn needle t).map fun p => (c :: p.1, p.2)

def toAsciiLowercase (t : Text) : Text := t.map Char.toLower

def parseDigits (t : Text) : Option ℕ :=
  if t ≠ [] ∧ t.all Char.isDigit then
    some (t.foldl (fun n c => 10 * n + (c.toNat - '0'.toNat)) 0)
  else none

def parseUnsigned (w : ℕ) (t : Text) : Option ℕ :=
  (parseDigits (match t with | '+' :: u => u | u => u)).filter (· < 2 ^ w)

def parseSigned (w : ℕ) (t : Text) : Option ℤ :=
  match t with
  | '-' :: u => ((parseDigits u).filter (· ≤ 2 ^ (w - 1))).map fun n => -(n : ℤ)
  | u => ((parseUnsigned (w - 1) u)).map fun n => (n : ℤ)

def isContinuation (b : UInt8) : Bool := 0x80 ≤ b && b ≤ 0xBF

def secondInRange (b c : UInt8) : Bool :=
  if b = 0xE0 then 0xA0 ≤ c && c ≤ 0xBF
  else if b = 0xED then 0x80 ≤ c && c ≤ 0x9F
  else if b = 0xF0 then 0x90 ≤ c && c ≤ 0xBF
  else if b = 0xF4 then 0x80 ≤ c && c ≤ 0x8F
  else isContinuation c

def payload (b : UInt8) : ℕ := b.toNat % 64

def replacement : Char := Char.ofNat 0xFFFD

def fromUtf8Lossy : Bytes → Text
  | [] => []
  | b :: t =>
    if b < 0x80 then Char.ofNat b.toNat :: fromUtf8Lossy t
    else if 0xC2 ≤ b ∧ b ≤ 0xDF then
      match t with
      | c :: u =>
        if isContinuation c then
          Char.ofNat (b.toNat % 32 * 64 + payload c) :: fromUtf8Lossy u
        else replacement :: fromUtf8Lossy (c :: u)
      | [] => [replacement]
    else if 0xE0 ≤ b ∧ b ≤ 0xF4 then
      match t with
      | c :: u =>
        if secondInRange b c then
          match u with
          | d :: v =>
            if isContinuation d then
              if b < 0xF0 then
                Char.ofNat ((b.toNat % 16 * 64 + payload c) * 64 + payload d) :: fromUtf8Lossy v
              else
                match v with
                | e :: x =>
                  if isContinuation e then
                    Char.ofNat (((b.toNat % 8 * 64 + payload c) * 64 + payload d) * 64 + payload e)
                      :: fromUtf8Lossy x
                  else replacement :: fromUtf8Lossy (e :: x)
                | [] => [replacement]
            else replacement :: fromUtf8Lossy (d :: v)
          | [] => [replacement]
        else replacement :: fromUtf8Lossy (c :: u)
      | [] => [replacement]
    else replacement :: fromUtf8Lossy t

lemma ofNat_ne_slash {n : ℕ} (h : n ≠ 47) : Char.ofNat n ≠ '/' := by
  intro heq
  by_cases hv : n.isValidChar
  · have hself : (Char.ofNat n).toNat = n := by
      rw [Char.ofNat, dif_pos hv]
      rfl
    rw [heq] at hself
    exact h hself.symm
  · have hself : (Char.ofNat n).toNat = 0 := by
      rw [Char.ofNat, dif_neg hv]
      rfl
    rw [heq] at hself
    exact absurd hself (by decide)

lemma ascii_ne_slash {b : UInt8} (h : '/'.toUInt8 ≠ b) : Char.ofNat b.toNat ≠ '/' := by
  apply ofNat_ne_slash
  intro hb
  exact h (UInt8.toNat_inj.mp hb.symm)

lemma two_ne_slash {b : UInt8} (c : UInt8) (h : 0xC2 ≤ b ∧ b ≤ 0xDF) :
    Char.ofNat (b.toNat % 32 * 64 + payload c) ≠ '/' := by
  apply ofNat_ne_slash
  simp only [UInt8.le_iff_toNat_le, UInt8.reduceToNat] at h
  omega

lemma three_ne_slash {b c : UInt8} (d : UInt8) (h : 0xE0 ≤ b ∧ b ≤ 0xF4) (hb : b < 0xF0)
    (hc : secondInRange b c = true) :
    Char.ofNat ((b.toNat % 16 * 64 + payload c) * 64 + payload d) ≠ '/' := by
  apply ofNat_ne_slash
  simp only [UInt8.le_iff_toNat_le, UInt8.lt_iff_toNat_lt, UInt8.reduceToNat] at h hb
  by_cases he : b.toNat = 0xE0
  · obtain rfl : b = 0xE0 := UInt8.toNat_inj.mp he
    simp [secondInRange, UInt8.le_iff_toNat_le] at hc
    have hp : 32 ≤ payload c := by simp only [payload]; omega
    omega
  · omega

lemma four_ne_slash {b c : UInt8} (d e : UInt8) (h : 0xE0 ≤ b ∧ b ≤ 0xF4) (hb : ¬ b < 0xF0)
    (hc : secondInRange b c = true) :
    Char.ofNat (((b.toNat % 8 * 64 + payload c) * 64 + payload d) * 64 + payload e) ≠ '/' := by
  apply ofNat_ne_slash
  simp only [UInt8.le_iff_toNat_le, UInt8.lt_iff_toNat_lt, UInt8.reduceToNat] at h hb
  by_cases he : b.toNat = 0xF0
  · obtain rfl : b = 0xF0 := UInt8.toNat_inj.mp he
    simp [secondInRange, UInt8.le_iff_toNat_le] at hc
    have hp : 16 ≤ payload c := by simp only [payload]; omega
    omega
  · omega

lemma replacement_ne_slash : replacement ≠ '/' := by decide

lemma slash_notMem_cons {c : Char} {t : Text} (hc : c ≠ '/') (ht : '/' ∉ t) : '/' ∉ c :: t := by
  intro h
  rcases List.mem_cons.mp h with h | h
  · exact hc h.symm
  · exact ht h

lemma slash_notMem_fromUtf8Lossy (b : Bytes) (h : '/'.toUInt8 ∉ b) : '/' ∉ fromUtf8Lossy b := by
  have hrest : ∀ (b : UInt8) (t : Bytes), '/'.toUInt8 ∉ b :: t → '/'.toUInt8 ∉ t :=
    fun _ _ h ht => h (List.mem_cons_of_mem _ ht)
  fun_induction fromUtf8Lossy b with
  | case1 => simp
  | case2 b t _ ih =>
    exact slash_notMem_cons (ascii_ne_slash (List.ne_of_not_mem_cons h)) (ih (hrest _ _ h))
  | case3 b _ hb c u _ ih =>
    exact slash_notMem_cons (two_ne_slash c hb) (ih (hrest _ _ (hrest _ _ h)))
  | case6 b _ _ hb c hc d u _ hlt ih =>
    apply slash_notMem_cons (three_ne_slash d hb hlt hc)
    exact ih (hrest _ _ (hrest _ _ (hrest _ _ h)))
  | case7 b _ _ hb c hc d _ hlt e u _ ih =>
    apply slash_notMem_cons (four_ne_slash d e hb hlt hc)
    exact ih (hrest _ _ (hrest _ _ (hrest _ _ (hrest _ _ h))))
  | case4 b _ _ c u _ ih => exact slash_notMem_cons replacement_ne_slash (ih (hrest _ _ h))
  | case8 b _ _ _ c _ d _ _ e u _ ih =>
    apply slash_notMem_cons replacement_ne_slash
    exact ih (hrest _ _ (hrest _ _ (hrest _ _ h)))
  | case10 b _ _ _ c _ d u _ ih =>
    exact slash_notMem_cons replacement_ne_slash (ih (hrest _ _ (hrest _ _ h)))
  | case12 b _ _ _ c u _ ih => exact slash_notMem_cons replacement_ne_slash (ih (hrest _ _ h))
  | case14 b t _ _ _ ih => exact slash_notMem_cons replacement_ne_slash (ih (hrest _ _ h))
  | _ => exact slash_notMem_cons replacement_ne_slash (by simp)

lemma fromUtf8Lossy_ne_nil {b : Bytes} (h : b ≠ []) : fromUtf8Lossy b ≠ [] := by
  rw [Ne, ← List.length_eq_zero_iff]
  fun_cases fromUtf8Lossy b <;> simp_all

end Text

end Adbfs.Library
