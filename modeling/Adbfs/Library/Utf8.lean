import Adbfs.Library.Text

namespace Adbfs.Library.Text

section Bytes

variable {n : ℕ} {k : UInt8}

lemma toNat_byte (h : n < 256) : (UInt8.ofNat n).toNat = n := by
  rw [UInt8.toNat_ofNat']
  exact Nat.mod_eq_of_lt h

lemma byte_le (h : n < 256) : UInt8.ofNat n ≤ k ↔ n ≤ k.toNat := by
  rw [UInt8.le_iff_toNat_le, toNat_byte h]

lemma le_byte (h : n < 256) : k ≤ UInt8.ofNat n ↔ k.toNat ≤ n := by
  rw [UInt8.le_iff_toNat_le, toNat_byte h]

lemma byte_lt (h : n < 256) : UInt8.ofNat n < k ↔ n < k.toNat := by
  rw [UInt8.lt_iff_toNat_lt, toNat_byte h]

lemma byte_eq (h : n < 256) : UInt8.ofNat n = k ↔ n = k.toNat := by
  rw [← UInt8.toNat_inj, toNat_byte h]

lemma payload_byte (h : n < 256) : payload (UInt8.ofNat n) = n % 64 := by
  rw [payload, toNat_byte h]

lemma isContinuation_byte (h : n < 256) :
    isContinuation (UInt8.ofNat n) = true ↔ 128 ≤ n ∧ n ≤ 191 := by
  simp only [isContinuation, Bool.and_eq_true, decide_eq_true_eq, le_byte h, byte_le h,
    UInt8.reduceToNat]

lemma secondInRange_byte {m : ℕ} (hm : m < 256) (h : n < 256) (hlow : 128 ≤ n) (hhigh : n ≤ 191)
    (hE0 : m = 0xE0 → 0xA0 ≤ n) (hED : m = 0xED → n ≤ 0x9F) (hF0 : m = 0xF0 → 0x90 ≤ n)
    (hF4 : m = 0xF4 → n ≤ 0x8F) : secondInRange (UInt8.ofNat m) (UInt8.ofNat n) = true := by
  rw [secondInRange]
  simp only [byte_eq hm, UInt8.reduceToNat]
  split_ifs with h1 h2 h3 h4
  · simpa only [Bool.and_eq_true, decide_eq_true_eq, le_byte h, byte_le h] using ⟨hE0 h1, hhigh⟩
  · simpa only [Bool.and_eq_true, decide_eq_true_eq, le_byte h, byte_le h] using ⟨hlow, hED h2⟩
  · simpa only [Bool.and_eq_true, decide_eq_true_eq, le_byte h, byte_le h] using ⟨hF0 h3, hhigh⟩
  · simpa only [Bool.and_eq_true, decide_eq_true_eq, le_byte h, byte_le h] using ⟨hlow, hF4 h4⟩
  · exact (isContinuation_byte h).mpr ⟨hlow, hhigh⟩

end Bytes

section Sequences

variable {a b c d : ℕ} {t : Bytes}

lemma fromUtf8Lossy_one (ha : a < 128) :
    fromUtf8Lossy (UInt8.ofNat a :: t) = Char.ofNat a :: fromUtf8Lossy t := by
  have hb : a < 256 := by omega
  rw [fromUtf8Lossy.eq_def]
  simp only [byte_lt hb, UInt8.reduceToNat, if_pos ha, toNat_byte hb]

lemma fromUtf8Lossy_two (ha : 0xC2 ≤ a ∧ a ≤ 0xDF) (hb : 128 ≤ b ∧ b ≤ 191) :
    fromUtf8Lossy (UInt8.ofNat a :: UInt8.ofNat b :: t) =
      Char.ofNat (a % 32 * 64 + b % 64) :: fromUtf8Lossy t := by
  have ha' : a < 256 := by omega
  have hb' : b < 256 := by omega
  have hascii : ¬ a < 128 := by omega
  rw [fromUtf8Lossy.eq_def]
  simp only [byte_lt ha', byte_le ha', le_byte ha', UInt8.reduceToNat, if_neg hascii, if_pos ha,
    (isContinuation_byte hb').mpr hb, if_true, payload_byte hb', toNat_byte ha']

lemma fromUtf8Lossy_three (ha : 0xE0 ≤ a ∧ a < 0xF0)
    (hb : secondInRange (UInt8.ofNat a) (UInt8.ofNat b) = true) (hb' : b < 256)
    (hc : 128 ≤ c ∧ c ≤ 191) :
    fromUtf8Lossy (UInt8.ofNat a :: UInt8.ofNat b :: UInt8.ofNat c :: t) =
      Char.ofNat ((a % 16 * 64 + b % 64) * 64 + c % 64) :: fromUtf8Lossy t := by
  have ha' : a < 256 := by omega
  have hc' : c < 256 := by omega
  have hascii : ¬ a < 128 := by omega
  have htwo : ¬ (194 ≤ a ∧ a ≤ 223) := by omega
  have hmore : 224 ≤ a ∧ a ≤ 244 := by omega
  rw [fromUtf8Lossy.eq_def]
  simp only [byte_lt ha', byte_le ha', le_byte ha', UInt8.reduceToNat, if_neg hascii, if_neg htwo,
    if_pos hmore, hb, if_true, (isContinuation_byte hc').mpr hc, if_pos ha.2, payload_byte hb',
    payload_byte hc', toNat_byte ha']

lemma fromUtf8Lossy_four (ha : 0xF0 ≤ a ∧ a ≤ 0xF4)
    (hb : secondInRange (UInt8.ofNat a) (UInt8.ofNat b) = true) (hb' : b < 256)
    (hc : 128 ≤ c ∧ c ≤ 191) (hd : 128 ≤ d ∧ d ≤ 191) :
    fromUtf8Lossy (UInt8.ofNat a :: UInt8.ofNat b :: UInt8.ofNat c :: UInt8.ofNat d :: t) =
      Char.ofNat (((a % 8 * 64 + b % 64) * 64 + c % 64) * 64 + d % 64) :: fromUtf8Lossy t := by
  have ha' : a < 256 := by omega
  have hc' : c < 256 := by omega
  have hd' : d < 256 := by omega
  have hascii : ¬ a < 128 := by omega
  have htwo : ¬ (194 ≤ a ∧ a ≤ 223) := by omega
  have hmore : 224 ≤ a ∧ a ≤ 244 := by omega
  have hfour : ¬ a < 240 := by omega
  rw [fromUtf8Lossy.eq_def]
  simp only [byte_lt ha', byte_le ha', le_byte ha', UInt8.reduceToNat, if_neg hascii, if_neg htwo,
    if_pos hmore, hb, if_true, (isContinuation_byte hc').mpr hc, if_neg hfour,
    (isContinuation_byte hd').mpr hd, payload_byte hb', payload_byte hc', payload_byte hd',
    toNat_byte ha']

end Sequences

lemma fromUtf8Lossy_encodeChar (c : Char) (rest : Bytes) :
    fromUtf8Lossy (String.utf8EncodeChar c ++ rest) = c :: fromUtf8Lossy rest := by
  have hvalid : c.val.toNat < 0xD800 ∨ 0xDFFF < c.val.toNat ∧ c.val.toNat < 0x110000 := c.valid
  have hchar : ∀ n, n = c.val.toNat → Char.ofNat n = c := by
    intro n hn
    rw [hn]
    exact Char.ofNat_toNat c
  rw [String.utf8EncodeChar]
  generalize c.val.toNat = v at hvalid hchar
  split_ifs with h1 h2 h3
  · have hone := fromUtf8Lossy_one (t := rest) (Nat.lt_succ_of_le h1)
    rw [List.singleton_append]
    exact hone.trans (by rw [hchar v rfl])
  · have hlead : 0xC2 ≤ v / 64 % 32 + 192 ∧ v / 64 % 32 + 192 ≤ 0xDF := by omega
    have htail : 128 ≤ v % 64 + 128 ∧ v % 64 + 128 ≤ 191 := by omega
    exact (fromUtf8Lossy_two (t := rest) hlead htail).trans (by rw [hchar _ (by omega)])
  · have hlead : 0xE0 ≤ v / 4096 % 16 + 224 ∧ v / 4096 % 16 + 224 < 0xF0 := by omega
    have htail : 128 ≤ v % 64 + 128 ∧ v % 64 + 128 ≤ 191 := by omega
    have hsecond : secondInRange (UInt8.ofNat (v / 4096 % 16 + 224))
        (UInt8.ofNat (v / 64 % 64 + 128)) = true := by
      apply secondInRange_byte <;> omega
    exact (fromUtf8Lossy_three (t := rest) hlead hsecond (by omega) htail).trans
      (by rw [hchar _ (by omega)])
  · have hlead : 0xF0 ≤ v / 262144 % 8 + 240 ∧ v / 262144 % 8 + 240 ≤ 0xF4 := by omega
    have hthird : 128 ≤ v / 64 % 64 + 128 ∧ v / 64 % 64 + 128 ≤ 191 := by omega
    have htail : 128 ≤ v % 64 + 128 ∧ v % 64 + 128 ≤ 191 := by omega
    have hsecond : secondInRange (UInt8.ofNat (v / 262144 % 8 + 240))
        (UInt8.ofNat (v / 4096 % 64 + 128)) = true := by
      apply secondInRange_byte <;> omega
    exact (fromUtf8Lossy_four (t := rest) hlead hsecond (by omega) hthird htail).trans
      (by rw [hchar _ (by omega)])

lemma fromUtf8Lossy_bytes (t : Text) : fromUtf8Lossy t.bytes = t := by
  induction t with
  | nil => rfl
  | cons c t ih =>
    change fromUtf8Lossy (String.utf8EncodeChar c ++ bytes t) = _
    rw [fromUtf8Lossy_encodeChar, ih]

end Adbfs.Library.Text
