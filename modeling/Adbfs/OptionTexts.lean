import Adbfs.MountOptions

namespace Adbfs

open Library

section Seconds

lemma readSeconds_of_numeral {t : Text} {q : ℚ} {k : ℕ} (h : Text.parseDecimal t = some q)
    (hq : q < 2 ^ k) (hk : k < 64) :
    ∃ ns : ℕ, readSeconds t = some ns ∧ 2 * |(ns : ℚ) - q * 10 ^ 9| ≤ 1 + 2 ^ (k - 53 : ℤ) * 10 ^ 9 := by
  have hnonneg := Text.parseDecimal_nonneg h
  have hzpow : q < 2 ^ (k : ℤ) := by rwa [zpow_natCast]
  have hround : binary64.round q = some (binary64.nearest q) :=
    binary64.round_eq_some hnonneg hzpow (by simp [binary64]; omega) (by simp [binary64]; omega)
  have hlt : binary64.nearest q < 2 ^ 64 := by
    have hlt := binary64.nearest_lt hnonneg hzpow (by simp [binary64]; omega)
    calc binary64.nearest q < 2 ^ ((k : ℤ) + 1) := hlt
      _ ≤ 2 ^ (64 : ℤ) := zpow_le_zpow_right₀ one_le_two (by omega)
      _ = 2 ^ 64 := by norm_num
  have hpos := binary64.nearest_nonneg hnonneg
  have herror := binary64.two_mul_abs_roundEven_nearest_mul_sub_le (d := 10 ^ 9) (by norm_num)
    hnonneg hzpow (by simp [binary64]; omega)
  have hns : 0 ≤ roundEven (binary64.nearest q * 10 ^ 9) := roundEven_nonneg (by positivity)
  refine ⟨(roundEven (binary64.nearest q * 10 ^ 9)).toNat, ?_, ?_⟩
  · rw [readSeconds, Text.parseF64_of_parseDecimal h, Option.bind_some, F64.ofMagnitude, hround]
    exact if_pos ⟨hpos, hlt⟩
  · rw [← Int.cast_natCast, Int.toNat_of_nonneg hns]
    exact herror

lemma readSeconds_exact {t : Text} {ns : ℕ} (h : Text.parseDecimal t = some ((ns : ℚ) / 10 ^ 9))
    (hns : ns < 2 ^ 23 * 10 ^ 9) : readSeconds t = some ns := by
  have hq : (ns : ℚ) / 10 ^ 9 < 2 ^ 23 := by
    rw [div_lt_iff₀ (by positivity)]
    exact_mod_cast hns
  obtain ⟨ns', hread, herror⟩ := readSeconds_of_numeral h hq (by norm_num)
  rw [hread, Option.some.injEq]
  rw [div_mul_cancel₀ _ (by norm_num)] at herror
  have hdist : |(((ns' : ℤ) : ℚ)) - ((ns : ℤ) : ℚ)| < 1 := by
    push_cast
    norm_num at herror ⊢
    linarith
  exact_mod_cast eq_of_abs_sub_lt_one hdist

/-- A timeout is read through binary64, and comes out as the numeral says to about the precision of
that format: to the nanosecond below `2 ^ 23` seconds. -/
theorem seconds_of_numeral (key : Text) {value : Text} {q : ℚ} {k : ℕ}
    (h : Text.parseDecimal value = some q) (hq : q < 2 ^ k) (hk : k < 64) :
    ∃ ns : ℕ, seconds key value = .ok ns ∧
      2 * |(ns : ℚ) - q * 10 ^ 9| ≤ 1 + 2 ^ (k - 53 : ℤ) * 10 ^ 9 ∧
        (k ≤ 23 → ∀ m : ℕ, q * 10 ^ 9 = m → ns = m) := by
  obtain ⟨ns, hread, herror⟩ := readSeconds_of_numeral h hq hk
  refine ⟨ns, by rw [seconds_eq, hread, orInvalid], herror, ?_⟩
  intro hk m hm
  have hq' : q = (m : ℚ) / 10 ^ 9 := by rw [← hm, mul_div_cancel_right₀ _ (by norm_num)]
  have hm' : m < 2 ^ 23 * 10 ^ 9 := by
    have hlt : (m : ℚ) < 2 ^ 23 * 10 ^ 9 := by
      rw [← hm]
      gcongr
      exact hq.trans_le (pow_le_pow_right₀ one_le_two hk)
    exact_mod_cast hlt
  have hexact := readSeconds_exact (hq' ▸ h) hm'
  rw [hread, Option.some.injEq] at hexact
  exact hexact

theorem seconds_of_numeral_of_largest : seconds "attr_timeout".toList "8388607.999999999".toList =
    .ok 8388607999999999 := by
  have hdigits : Text.parseDigits ("8388607".toList ++ "999999999".toList) =
      some 8388607999999999 := by decide
  have hnumeral := Text.parseDecimal_point hdigits
  have hlen : "999999999".toList.length = 9 := by decide
  rw [hlen] at hnumeral
  obtain ⟨ns, hns, -, hexact⟩ :=
    seconds_of_numeral "attr_timeout".toList (k := 23) hnumeral (by norm_num) (by norm_num)
  rw [← hexact le_rfl 8388607999999999 (by norm_num)]
  exact hns

end Seconds

section RoundTrip

def secondsText (ns : ℕ) : Text :=
  Text.padded 0 (ns / 10 ^ 9) ++ '.' :: Text.padded 9 (ns % 10 ^ 9)

def OptionKey.printed (fs : MountOptions) : OptionKey → Option Text
  | entryTimeout => some (secondsText fs.entryTimeout)
  | attrTimeout => some (secondsText fs.attrTimeout)
  | negativeTimeout => some (secondsText fs.negativeTimeout)
  | uid => fs.uid.map (Nat.toDigits 10)
  | gid => fs.gid.map (Nat.toDigits 10)
  | umask => fs.umask.map (Nat.toDigits 8)

def OptionFlag.isSet (fs : MountOptions) : OptionFlag → Bool
  | directIo => fs.directIo
  | kernelCache => fs.kernelCache
  | debug => fs.debug

namespace MountOptions

def texts (fs : MountOptions) : List Text :=
  OptionKey.all.filterMap (fun key => (key.printed fs).map key.text) ++
    (OptionFlag.all.filter (OptionFlag.isSet fs)).map OptionFlag.name

/-- What the fields can hold, and the timeouts that binary64 keeps to the nanosecond. -/
structure Printable (fs : MountOptions) : Prop where
  entryTimeout : fs.entryTimeout < 2 ^ 23 * 10 ^ 9
  attrTimeout : fs.attrTimeout < 2 ^ 23 * 10 ^ 9
  negativeTimeout : fs.negativeTimeout < 2 ^ 23 * 10 ^ 9
  uid : ∀ n ∈ fs.uid, n < 2 ^ 32
  gid : ∀ n ∈ fs.gid, n < 2 ^ 32
  umask : ∀ n ∈ fs.umask, n < 2 ^ 32

variable {fs : MountOptions} {options : List Text}

lemma readSeconds_secondsText {ns : ℕ} (hns : ns < 2 ^ 23 * 10 ^ 9) :
    readSeconds (secondsText ns) = some ns :=
  readSeconds_exact (Text.parseDecimal_padded (by decide) ns) hns

def value (fs : MountOptions) : OptionKey → Option ℕ
  | .entryTimeout => some fs.entryTimeout
  | .attrTimeout => some fs.attrTimeout
  | .negativeTimeout => some fs.negativeTimeout
  | .uid => fs.uid
  | .gid => fs.gid
  | .umask => fs.umask

lemma Printable.read_printed (hfs : fs.Printable) (key : OptionKey) :
    (key.printed fs).map key.read = (value fs key).map some := by
  have hradix : ∀ {radix : ℕ} {o : Option ℕ}, 1 < radix → radix ≤ 10 → (∀ n ∈ o, n < 2 ^ 32) →
      (o.map (Nat.toDigits radix)).map (Text.fromStrRadix 32 radix) = o.map some := by
    rintro radix (- | n) hradix hle ho
    · rfl
    · exact congrArg some (Text.fromStrRadix_toDigits hradix hle (ho n rfl))
  cases key with
  | entryTimeout => exact congrArg some (readSeconds_secondsText hfs.entryTimeout)
  | attrTimeout => exact congrArg some (readSeconds_secondsText hfs.attrTimeout)
  | negativeTimeout => exact congrArg some (readSeconds_secondsText hfs.negativeTimeout)
  | uid => exact hradix (by decide) (by decide) hfs.uid
  | gid => exact hradix (by decide) (by decide) hfs.gid
  | umask => exact hradix (by decide) (by decide) hfs.umask

lemma mem_texts {opt : Text} : opt ∈ fs.texts ↔
    (∃ (key : OptionKey) (v : Text), key.printed fs = some v ∧ opt = key.text v) ∨
      ∃ flag : OptionFlag, flag.isSet fs = true ∧ opt = flag.name := by
  simp only [texts, List.mem_append, List.mem_filterMap, Option.map_eq_some_iff, List.mem_map,
    List.mem_filter]
  constructor
  · rintro (⟨key, -, v, hv, rfl⟩ | ⟨flag, ⟨-, hset⟩, rfl⟩)
    exacts [Or.inl ⟨key, v, hv, rfl⟩, Or.inr ⟨flag, hset, rfl⟩]
  · rintro (⟨key, v, hv, rfl⟩ | ⟨flag, hset, rfl⟩)
    exacts [Or.inl ⟨key, key.mem_all, v, hv, rfl⟩, Or.inr ⟨flag, ⟨flag.mem_all, hset⟩, rfl⟩]

lemma valueOf_texts (fs : MountOptions) (key : OptionKey) :
    fs.texts.filterMap key.valueOf = (key.printed fs).toList := by
  have hflags : ((OptionFlag.all.filter (OptionFlag.isSet fs)).map OptionFlag.name).filterMap
      key.valueOf = [] := by
    rw [List.filterMap_eq_nil_iff]
    intro opt hopt
    obtain ⟨flag, -, rfl⟩ := List.mem_map.mp hopt
    exact valueOf_flag key flag
  have hself : ∀ key' : OptionKey, ((key'.printed fs).map key'.text).bind key.valueOf =
      if key' = key then key.printed fs else none := by
    intro key'
    split_ifs with hkey
    · subst hkey
      cases key'.printed fs with
      | none => rfl
      | some v => exact key'.valueOf_text v
    · cases key'.printed fs with
      | none => rfl
      | some v => exact key'.valueOf_text_of_ne (Ne.symm hkey) v
  rw [texts, List.filterMap_append, hflags, List.append_nil, List.filterMap_filterMap]
  simp only [hself]
  cases key <;> cases OptionKey.printed fs _ <;> rfl

lemma latest_filter (key : OptionKey) (options : List Text) :
    key.latest (options.filter recognised) = key.latest options := by
  rw [OptionKey.latest, OptionKey.latest, List.filterMap_filter]
  congr 2
  apply List.filterMap_congr
  intro opt _
  cases hrec : recognised opt with
  | false => exact ((recognised_eq_false.mp hrec).2 key).symm
  | true => rfl

lemma recognised_name (flag : OptionFlag) : recognised flag.name = true :=
  recognised_iff.mpr (Or.inl ⟨flag, rfl⟩)

lemma Printable.read_ne_none (hfs : fs.Printable) {key : OptionKey} {v : Text}
    (hv : key.printed fs = some v) : key.read v ≠ none := by
  have hread := hfs.read_printed key
  rw [hv] at hread
  cases hvalue : value fs key with
  | none =>
    rw [hvalue] at hread
    contradiction
  | some n =>
    rw [hvalue, Option.map_some, Option.map_some, Option.some.injEq] at hread
    simp [hread]

/-- Options written out, in any order and with any others between them, are read back. -/
theorem options_round_trip (hfs : fs.Printable) (h : (options.filter recognised).Perm fs.texts) :
    split options = .ok (fs, leftover options) := by
  have hread : options.findSome? misread = none := by
    rw [List.findSome?_eq_none_iff]
    intro opt hopt
    rw [misread_eq_none]
    rintro key v rfl
    have htext : key.text v ∈ fs.texts :=
      h.mem_iff.mp (List.mem_filter.mpr ⟨hopt, recognised_iff.mpr (Or.inr ⟨key, v, rfl⟩)⟩)
    have hmem : v ∈ fs.texts.filterMap key.valueOf :=
      List.mem_filterMap.mpr ⟨_, htext, key.valueOf_text v⟩
    rw [valueOf_texts, Option.mem_toList] at hmem
    exact hfs.read_ne_none hmem
  have hlatest : ∀ key : OptionKey, key.latest options = value fs key := by
    intro key
    have hperm := h.filterMap key.valueOf
    have hprinted := hfs.read_printed key
    rw [valueOf_texts] at hperm
    rw [← latest_filter, OptionKey.latest]
    cases hv : key.printed fs with
    | none =>
      rw [hv, Option.toList_none, List.perm_nil] at hperm
      rw [hperm]
      cases hvalue : value fs key with
      | none => rfl
      | some n => simp [hv, hvalue] at hprinted
    | some v =>
      rw [hv, Option.toList_some, List.perm_singleton] at hperm
      rw [hperm]
      cases hvalue : value fs key with
      | none => simp [hv, hvalue] at hprinted
      | some n => simpa [hv, hvalue] using hprinted
  have hgiven : ∀ flag : OptionFlag, flag.given options = flag.isSet fs := by
    intro flag
    rw [Bool.eq_iff_iff, OptionFlag.given, List.contains_iff_mem]
    have hmem : flag.name ∈ options ↔ flag.name ∈ fs.texts := by
      rw [← h.mem_iff, List.mem_filter, recognised_name]
      simp
    rw [hmem, mem_texts]
    constructor
    · rintro (⟨key, v, -, hname⟩ | ⟨flag', hset, hname⟩)
      · exact absurd hname (name_ne_text key flag v)
      · rwa [OptionFlag.name_injective flag flag.mem_all flag' flag'.mem_all hname]
    · exact fun hset => Or.inr ⟨flag, hset, rfl⟩
  rw [split_eq, hread, Option.elim_none]
  simp only [settled, hlatest, hgiven]
  rfl

/-- The options of a user and a mask, in another order and among options of the mount. -/
theorem options_round_trip_of_mixed :
    split ["allow_other".toList, "umask=22".toList, "direct_io".toList,
      "negative_timeout=0.000000000".toList, "ro".toList, "attr_timeout=1.000000000".toList,
      "uid=1000".toList, "entry_timeout=0.250000000".toList] =
    .ok ({ entryTimeout := 250000000, uid := some 1000, umask := some 18, directIo := true },
      leftover ["allow_other".toList, "umask=22".toList, "direct_io".toList,
        "negative_timeout=0.000000000".toList, "ro".toList, "attr_timeout=1.000000000".toList,
        "uid=1000".toList, "entry_timeout=0.250000000".toList]) :=
  options_round_trip ⟨by decide, by decide, by decide, by simp, by simp, by simp⟩ (by decide +kernel)

end MountOptions

end RoundTrip

end Adbfs
