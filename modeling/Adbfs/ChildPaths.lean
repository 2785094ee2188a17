import Adbfs.Handlers
import Adbfs.Library.Utf8

/-! Which names the kernel can pass without two of them meaning one file. -/

namespace Adbfs

open Library Library.Text Library.Paths

/-- The bytes of a name in a directory, the two dots included; they need not be UTF-8. -/
def IsByteName (name : Bytes) : Prop := name ≠ [] ∧ '/'.toUInt8 ∉ name ∧ 0 ∉ name

instance (name : Bytes) : Decidable (IsByteName name) := inferInstanceAs (Decidable (_ ∧ _))

variable {p q : Text} {m n : Bytes}

lemma IsByteName.isName (h : IsByteName m) : IsName (fromUtf8Lossy m) :=
  ⟨fromUtf8Lossy_ne_nil h.1, slash_notMem_fromUtf8Lossy m h.2.1⟩

lemma childText_injective (hp : Canonical p) (hq : Canonical q) {s t : Text} (hs : IsName s)
    (ht : IsName t) (h : childText p s = childText q t) : p = q ∧ s = t := by
  obtain ⟨cs, hcs, rfl⟩ := hp
  obtain ⟨ds, hds, rfl⟩ := hq
  rw [childText_render hcs, childText_render hds] at h
  have hsplit := render_injective (hcs.append (Names.singleton hs))
    (hds.append (Names.singleton ht)) h
  obtain ⟨rfl, hname⟩ := List.append_inj' hsplit rfl
  exact ⟨rfl, List.head_eq_of_cons_eq hname⟩

/-- A path determines the parent and what is left of the name after the lossy reading; of a name
that is UTF-8, that is all of it. -/
theorem childPath_eq_iff (hp : Canonical p) (hq : Canonical q) (hm : IsByteName m)
    (hn : IsByteName n) :
    (childPath p m = childPath q n ↔ p = q ∧ fromUtf8Lossy m = fromUtf8Lossy n) ∧
      ∀ s t : Text, m = s.bytes → n = t.bytes → (p, m) ≠ (q, n) →
        childPath p m ≠ childPath q n := by
  have hiff : childPath p m = childPath q n ↔ p = q ∧ fromUtf8Lossy m = fromUtf8Lossy n := by
    constructor
    · exact childText_injective hp hq hm.isName hn.isName
    · rintro ⟨rfl, hname⟩
      rw [childPath, childPath, hname]
  refine ⟨hiff, ?_⟩
  rintro s t rfl rfl hne heq
  obtain ⟨rfl, hname⟩ := hiff.mp heq
  rw [fromUtf8Lossy_bytes, fromUtf8Lossy_bytes] at hname
  exact hne (by rw [hname])

theorem childPath_eq_iff_fails_for_latin :
    Canonical ['/'] ∧ IsByteName [0xE9] ∧ IsByteName [0xE8] ∧
      childPath ['/'] [0xE9] = childPath ['/'] [0xE8] :=
  ⟨⟨[], fun _ h => absurd h (by simp), rfl⟩, by decide, by decide, by decide⟩

theorem childPath_eq_iff_of_letters : childPath ['/'] [97] ≠ childPath ['/'] [98] := by
  have hroot : Canonical ['/'] := ⟨[], fun _ h => absurd h (by simp), rfl⟩
  exact (childPath_eq_iff hroot hroot (m := [97]) (n := [98]) (by decide) (by decide)).2 ['a'] ['b']
    (by decide) (by decide) (by decide)

end Adbfs
