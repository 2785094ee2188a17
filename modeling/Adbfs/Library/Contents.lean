import Adbfs.Library.Text

namespace Adbfs.Library

namespace Contents

def readAt (offset size : ℕ) (f : Bytes) : Bytes := (f.drop offset).take size

/-- A write past the end fills the gap with zeros; a write of nothing changes nothing. -/
def writeAt (offset : ℕ) (data f : Bytes) : Bytes :=
  if data = [] then f
  else f.take offset ++ List.replicate (offset - f.length) 0 ++ data ++ f.drop (offset + data.length)

def setLen (n : ℕ) (f : Bytes) : Bytes := f.take n ++ List.replicate (n - f.length) 0

lemma length_setLen (n : ℕ) (f : Bytes) : (setLen n f).length = n := by
  simp only [setLen, List.length_append, List.length_take, List.length_replicate]
  omega

lemma setLen_zero (f : Bytes) : setLen 0 f = [] := by
  simp [setLen]

lemma setLen_eq_self {n : ℕ} {f : Bytes} : setLen n f = f ↔ f.length = n := by
  constructor
  · intro h
    rw [← h, length_setLen]
  · rintro rfl
    simp [setLen]

lemma readAt_ext {f g : Bytes} (h : ∀ offset size, readAt offset size f = readAt offset size g) :
    f = g := by
  have hall := h 0 (max f.length g.length)
  rwa [readAt, readAt, List.drop_zero, List.drop_zero, List.take_of_length_le (le_max_left _ _),
    List.take_of_length_le (le_max_right _ _)] at hall

end Contents

end Adbfs.Library
