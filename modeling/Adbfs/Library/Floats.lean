import Adbfs.Library.Rounding
import Adbfs.Library.Words

/-! Numbers of the binary64 format by their values, and the numerals that are read as such numbers or
as integers. -/

namespace Adbfs.Library

def binary64 : BinaryFormat := ⟨53, -1074, 1024⟩

/-- The two zeros are one here. -/
inductive F64 where
  | finite (value : ℚ)
  | infinite (negative : Bool)
  | nan

def F64.ofMagnitude (negative : Bool) (q : ℚ) : F64 :=
  match binary64.round q with
  | some x => .finite (if negative then -x else x)
  | none => .infinite negative

namespace Text

def splitSign : Text → Bool × Text
  | '-' :: t => (true, t)
  | '+' :: t => (false, t)
  | t => (false, t)

def parseExponent : Text → Option ℤ
  | [] => some 0
  | c :: t =>
    if c = 'e' ∨ c = 'E' then
      (parseDigits (splitSign t).2).map fun n => if (splitSign t).1 then -(n : ℤ) else n
    else none

def splitFraction : Text → Text × Text
  | '.' :: t => t.span Char.isDigit
  | t => ([], t)

def parseDecimal (t : Text) : Option ℚ := do
  let (whole, rest) := t.span Char.isDigit
  let (fraction, rest) := splitFraction rest
  let n ← parseDigits (whole ++ fraction)
  let e ← parseExponent rest
  some ((n : ℚ) * 10 ^ (e - fraction.length))

def parseF64 (t : Text) : Option F64 :=
  let (negative, u) := splitSign t
  match parseDecimal u with
  | some q => some (.ofMagnitude negative q)
  | none =>
    let name := toAsciiLowercase u
    if name = "nan".toList then some .nan
    else if name = "inf".toList ∨ name = "infinity".toList then some (.infinite negative)
    else none

def toDigit (radix : ℕ) (c : Char) : Option ℕ :=
  let digit :=
    if c.isDigit then c.toNat - '0'.toNat
    else if c.isAlpha then c.toLower.toNat - 'a'.toNat + 10
    else radix
  if digit < radix then some digit else none

def digitsValue (radix : ℕ) (t : Text) : Option ℕ :=
  if t = [] then none
  else (t.mapM (toDigit radix)).map fun ds => ds.foldl (fun n d => radix * n + d) 0

def fromStrRadix (w radix : ℕ) (t : Text) : Option ℕ :=
  (digitsValue radix (match t with | '+' :: u => u | u => u)).filter (· < 2 ^ w)

lemma parseDigits_eq_some {t : Text} {n : ℕ} : parseDigits t = some n ↔
    t ≠ [] ∧ (∀ c ∈ t, c.isDigit = true) ∧ Nat.ofDigitChars 10 t 0 = n := by
  rw [parseDigits, ← List.all_eq_true, ← and_assoc, Nat.ofDigitChars_eq_foldl]
  split_ifs with h
  · rw [Option.some.injEq, and_iff_right h]
  · exact iff_of_false (by simp) fun hn => h hn.1

lemma parseDecimal_nonneg {t : Text} {q : ℚ} (h : parseDecimal t = some q) : 0 ≤ q := by
  simp only [parseDecimal, Option.bind_eq_bind, Option.bind_eq_some_iff, Option.some.injEq] at h
  obtain ⟨n, -, e, -, rfl⟩ := h
  positivity

lemma splitSign_of_parseDecimal {t : Text} {q : ℚ} (h : parseDecimal t = some q) :
    splitSign t = (false, t) := by
  unfold splitSign
  split
  · contradiction
  · contradiction
  · rfl

lemma parseF64_of_parseDecimal {t : Text} {q : ℚ} (h : parseDecimal t = some q) :
    parseF64 t = some (F64.ofMagnitude false q) := by
  simp only [parseF64, splitSign_of_parseDecimal h, h]

lemma span_digits {whole : Text} (rest : Text) (hwhole : ∀ c ∈ whole, c.isDigit = true)
    (hrest : ∀ c ∈ rest.head?, c.isDigit = false) :
    (whole ++ rest).span Char.isDigit = (whole, rest) := by
  have hdrop : rest.dropWhile Char.isDigit = rest := by
    cases rest with
    | nil => rfl
    | cons c rest => rw [List.dropWhile_cons_of_neg (by simp [hrest c rfl])]
  have htake : rest.takeWhile Char.isDigit = [] := by
    cases rest with
    | nil => rfl
    | cons c rest => rw [List.takeWhile_cons_of_neg (by simp [hrest c rfl])]
  rw [List.span_eq_takeWhile_dropWhile, List.takeWhile_append_of_pos hwhole,
    List.dropWhile_append_of_pos hwhole, hdrop, htake, List.append_nil]

lemma parseDecimal_point {whole fraction : Text} {n : ℕ}
    (h : parseDigits (whole ++ fraction) = some n) :
    parseDecimal (whole ++ '.' :: fraction) = some ((n : ℚ) / 10 ^ fraction.length) := by
  obtain ⟨-, hdigits, -⟩ := parseDigits_eq_some.mp h
  have hwhole := span_digits ('.' :: fraction)
    (fun c hc => hdigits c (List.mem_append_left _ hc)) (by simp)
  have hfraction := span_digits [] (fun c hc => hdigits c (List.mem_append_right whole hc))
    (by simp)
  rw [List.append_nil] at hfraction
  simp only [parseDecimal, hwhole, splitFraction, hfraction, h, parseExponent, Option.bind_eq_bind,
    Option.bind_some, zero_sub, zpow_neg, zpow_natCast, div_eq_mul_inv]

lemma parseDigits_append {whole fraction : Text} {a b : ℕ} (ha : parseDigits whole = some a)
    (hb : parseDigits fraction = some b) :
    parseDigits (whole ++ fraction) = some (10 ^ fraction.length * a + b) := by
  obtain ⟨hne, hwhole, rfl⟩ := parseDigits_eq_some.mp ha
  obtain ⟨-, hfraction, rfl⟩ := parseDigits_eq_some.mp hb
  refine parseDigits_eq_some.mpr ⟨by simp [hne], ?_, ?_⟩
  · simp only [List.mem_append]
    rintro c (hc | hc)
    exacts [hwhole c hc, hfraction c hc]
  · rw [Nat.ofDigitChars_append, Nat.ofDigitChars_eq_ofDigitChars_zero]

lemma length_padded {k n : ℕ} (hk : 0 < k) (hn : n < 10 ^ k) : (padded k n).length = k := by
  have hshort := (Nat.length_toDigits_le_iff (by decide) hk).mpr hn
  rw [padded, List.length_leftpad]
  omega

lemma parseDecimal_padded {k : ℕ} (hk : 0 < k) (n : ℕ) :
    parseDecimal (padded 0 (n / 10 ^ k) ++ '.' :: padded k (n % 10 ^ k)) = some ((n : ℚ) / 10 ^ k) := by
  have hlen := length_padded hk (Nat.mod_lt n (by positivity : 0 < 10 ^ k))
  have hdigits := parseDigits_append (parseDigits_padded 0 (n / 10 ^ k))
    (parseDigits_padded k (n % 10 ^ k))
  rw [hlen, Nat.div_add_mod] at hdigits
  rw [parseDecimal_point hdigits, hlen]

lemma toDigit_digitChar {radix d : ℕ} (hd : d < radix) (hradix : radix ≤ 16) :
    toDigit radix d.digitChar = some d := by
  have hvalue : ∀ d < 16, (if d.digitChar.isDigit then d.digitChar.toNat - '0'.toNat
      else if d.digitChar.isAlpha then d.digitChar.toLower.toNat - 'a'.toNat + 10 else radix) = d := by
    intro d hd
    interval_cases d <;> rfl
  simp only [toDigit, hvalue d (hd.trans_le hradix), if_pos hd]

lemma mapM_toDigits {radix : ℕ} (hradix : 1 < radix) (hle : radix ≤ 16) (n : ℕ) :
    ((Nat.toDigits radix n).mapM (toDigit radix)).map
      (fun ds => ds.foldl (fun n d => radix * n + d) 0) = some n := by
  induction n using Nat.strong_induction_on with
  | _ n ih =>
    rw [Nat.toDigits_eq_if hradix]
    split_ifs with hn
    · simp [toDigit_digitChar hn hle]
    · have hpos : 0 < n := by omega
      have hprefix := ih (n / radix) (Nat.div_lt_self hpos hradix)
      have hlast := toDigit_digitChar (Nat.mod_lt n (by omega : 0 < radix)) hle
      cases hmap : (Nat.toDigits radix (n / radix)).mapM (toDigit radix) with
      | none =>
        rw [hmap] at hprefix
        contradiction
      | some ds =>
        rw [hmap, Option.map_some, Option.some.injEq] at hprefix
        simp [List.mapM_append, hmap, hlast, List.foldl_append, hprefix, Nat.div_add_mod]

lemma fromStrRadix_toDigits {w radix n : ℕ} (hradix : 1 < radix) (hle : radix ≤ 10)
    (hn : n < 2 ^ w) : fromStrRadix w radix (Nat.toDigits radix n) = some n := by
  have hplus : ∀ u, Nat.toDigits radix n ≠ '+' :: u := by
    intro u h
    have hdigit := Nat.isDigit_of_mem_toDigits (c := '+') (b := radix) (n := n) (by omega) hle
      (by rw [h]; simp)
    exact absurd hdigit (by decide)
  unfold fromStrRadix
  split
  · next u heq => exact absurd heq (hplus u)
  · rw [digitsValue, if_neg Nat.toDigits_ne_nil, mapM_toDigits hradix (by omega), Option.filter_some,
      if_pos (decide_eq_true hn)]

end Text

end Adbfs.Library
