import Adbfs.Renames

namespace Adbfs

open Library Library.Action Library.Paths

def renameNoreplace : ℕ := 1

def renameExchange : ℕ := 2

section Flags

variable [Libc] {w w' : PhoneFs}

/-- The inodes of what lay at or below `g` are dropped, where something moves over them. -/
def Replaced (f g : List Text) (w w' : PhoneFs) : Prop :=
  ∀ s i, Names s → w.inodes.getPath i = some (render (g ++ s)) →
    w.inodes.pathToIno.lookup (render (f ++ s)) ≠ none → w'.inodes.getPath i = none

lemma rename_replies_ok (h : Host) (parent newparent : ℕ) (name newname : Bytes) (w : PhoneFs) :
    Ends (AdbFs.rename h parent name newparent newname) w (fun reply _ => reply = .ok)
      fun _ _ => True := by
  apply ends_bind.mpr
  refine ends_of_apply (fun source u _ => ?_) fun _ _ _ => trivial
  apply ends_bind.mpr
  refine ends_of_apply (fun target u _ => ?_) fun _ _ _ => trivial
  apply ends_bind.mpr
  exact ends_of_apply (fun _ _ _ => rfl) fun _ _ _ => trivial

end Flags

section Examples

attribute [local instance] plainLibc

def twoFiles : List (Text × Node) := [("/a".toList, byteNode 7), ("/b".toList, byteNode 9)]

def renameABWith (flags : ℕ) : Request := .rename 1 nameA 1 nameB flags

def bothFs : PhoneFs :=
  (AdbFs.serve (plainHost 0 0 0) (.lookup 1 nameB) (lookupA twoFiles).2).2

lemma served_bothFs : Served bothFs := (served_lookupA twoFiles).serve _ _ trivial

end Examples

end Adbfs
