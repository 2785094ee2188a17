import Adbfs.LsFormat

namespace Adbfs

open Library Library.Text

def linuxMajor (rdev : ℕ) : ℕ := rdev / 2 ^ 8 % 2 ^ 12

def linuxMinor (rdev : ℕ) : ℕ := rdev / 2 ^ 20 % 2 ^ 12 * 2 ^ 8 + rdev % 2 ^ 8

def DecodesTo (rdev major minor : ℕ) : Prop := linuxMajor rdev = major ∧ linuxMinor rdev = minor

instance (rdev major minor : ℕ) : Decidable (DecodesTo rdev major minor) :=
  inferInstanceAs (Decidable (_ ∧ _))

lemma DecodesTo.unique {rdev major minor major' minor' : ℕ} (h : DecodesTo rdev major minor)
    (h' : DecodesTo rdev major' minor') : major = major' ∧ minor = minor' :=
  ⟨h.1.symm.trans h'.1, h.2.symm.trans h'.2⟩

lemma decodesTo_iff {major minor : ℕ} (hmajor : major < 2 ^ 12) (hminor : minor < 2 ^ 20) :
    DecodesTo (major * 256 + minor) major minor ↔ minor < 2 ^ 8 := by
  have hshift : (major * 256 + minor) / 2 ^ 8 = major + minor / 2 ^ 8 := by omega
  rw [DecodesTo, linuxMajor, linuxMinor, hshift]
  constructor
  · rintro ⟨hhigh, -⟩
    have hcarry : minor / 2 ^ 8 < 2 ^ 12 := by omega
    have hnone : minor / 2 ^ 8 = 0 := by omega
    omega
  · intro hsmall
    have hcarry : minor / 2 ^ 8 = 0 := by omega
    have hlow : (major * 256 + minor) / 2 ^ 20 = 0 := by omega
    have hrest : (major * 256 + minor) % 2 ^ 8 = minor := by omega
    exact ⟨by rw [hcarry]; omega, by rw [hlow, hrest]; omega⟩

namespace Columns

variable {c c' : Columns} {pad pad' : ℕ → ℕ} {name name' : Text} {major minor major' minor' : ℕ}

lemma rdev_of_numbers [Libc] {m : FileMeta} (hext : c.extent = .numbers major minor)
    (hm : parseLsLine (c.line pad name) = some (some m)) : m.rdev = major * 256 + minor := by
  rw [c.parseLsLine_line pad fun habsent => by simp [hext] at habsent] at hm
  obtain ⟨r, -, hr⟩ := Option.map_eq_some_iff.mp hm
  obtain ⟨t, -, rfl⟩ := Option.map_eq_some_iff.mp hr
  simp only [fileMeta, rdev, hext]

/-- Narrowing to 32 bits loses nothing of a pair in the kernel's range. -/
lemma attr_rdev_of_numbers [Libc] {m : FileMeta} (opts : FsOptions) (ino : ℕ)
    (hext : c.extent = .numbers major minor) (hmajor : major < 2 ^ 12) (hminor : minor < 2 ^ 20)
    (hm : parseLsLine (c.line pad name) = some (some m)) :
    (opts.metaToAttr ino m).rdev = major * 256 + minor := by
  change m.rdev % 2 ^ 32 = _
  rw [rdev_of_numbers hext hm]
  exact Nat.mod_eq_of_lt (by omega)

/-- A pair survives the trip exactly when its minor number has eight bits, and such pairs are not
confused. -/
theorem attr_rdev_decodes_iff [Libc] {m : FileMeta} (opts : FsOptions) (ino : ℕ)
    (hext : c.extent = .numbers major minor) (hmajor : major < 2 ^ 12) (hminor : minor < 2 ^ 20)
    (hm : parseLsLine (c.line pad name) = some (some m)) :
    (DecodesTo (opts.metaToAttr ino m).rdev major minor ↔ minor < 2 ^ 8) ∧
      ∀ m' ino', c'.extent = .numbers major' minor' → major' < 2 ^ 12 → minor' < 2 ^ 8 →
        minor < 2 ^ 8 → parseLsLine (c'.line pad' name') = some (some m') →
        (opts.metaToAttr ino' m').rdev = (opts.metaToAttr ino m).rdev →
        major' = major ∧ minor' = minor := by
  have hrdev := attr_rdev_of_numbers opts ino hext hmajor hminor hm
  refine ⟨hrdev ▸ decodesTo_iff hmajor hminor, ?_⟩
  intro m' ino' hext' hmajor' hsmall' hsmall hm' heq
  have hminor' : minor' < 2 ^ 20 := by omega
  have hrdev' := attr_rdev_of_numbers opts ino' hext' hmajor' hminor' hm'
  have hdecodes := (decodesTo_iff hmajor hminor).mpr hsmall
  have hdecodes' := (decodesTo_iff hmajor' hminor').mpr hsmall'
  rw [← hrdev', heq, hrdev] at hdecodes'
  exact hdecodes'.unique hdecodes

end Columns

section Examples

def blockDevice (major minor : ℕ) (hmajor : major < 2 ^ 32) (hminor : minor < 2 ^ 32) : Columns where
  kind := .blockDevice
  perm := 0o600
  nlink := some 1
  owner := "root".toList
  group := "root".toList
  extent := .numbers major minor
  stamp := epochStamp
  perm_lt := by decide
  nlink_range n h := by
    obtain rfl := Option.some.inj h
    decide
  owner_word := isWord_root
  group_word := isWord_root
  owner_not_count h := nomatch h
  fits := ⟨hmajor, hminor, rfl⟩

def blockMeta (rdev : ℕ) (rawLine : Text) : FileMeta :=
  ⟨0o60600, 1, 98, 98, 0, rdev, 60 * 10 ^ 9, rawLine⟩

theorem attr_rdev_decodes_iff_fails_for_loop_256 :
    @parseLsLine (fixedLibc 60) "brw------- 1 root root 7, 256 1970-01-01 00:00 loop256".toList =
        some (some (blockMeta 2048 "brw------- 1 root root 7, 256 1970-01-01 00:00 loop256".toList)) ∧
      (FsOptions.metaToAttr {} 5 (blockMeta 2048 [])).rdev = 2048 ∧
      ¬ DecodesTo 2048 7 256 ∧ DecodesTo 2048 8 0 := by
  decide

theorem attr_rdev_decodes_iff_of_loop_3 :
    DecodesTo (FsOptions.metaToAttr {} 5 (blockMeta 1795
      "brw------- 1 root root 7, 3 1970-01-01 00:00 loop3".toList)).rdev 7 3 :=
  (@Columns.attr_rdev_decodes_iff (blockDevice 7 3 (by decide) (by decide))
    (blockDevice 7 3 (by decide) (by decide)) (fun _ => 0) (fun _ => 0) "loop3".toList
    "loop3".toList 7 3 7 3 (fixedLibc 60) _ {} 5 rfl (by decide) (by decide) (by decide)).1.mpr
    (by decide)

end Examples

end Adbfs
