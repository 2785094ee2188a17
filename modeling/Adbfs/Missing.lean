import Adbfs.Handlers
import Adbfs.Library.Outcome
import Adbfs.LsFormat
import Adbfs.Mock

namespace Adbfs

open Library Library.Action

def missingMessage : Text := "No such file or directory".toList

def SaysMissing (output : ShellOutput) : Prop :=
  ∃ line ∈ output.stdout ++ output.stderr, missingMessage <:+: line

/-- The first line is no line at all, a denial, or something that `parseLsLine` does not reject. -/
def Understood [Libc] : List Text → Prop
  | [] => True
  | first :: _ => permissionErrSuffix <:+ first ∨ parseLsLine first ≠ some none

section Answer

variable {τ : Type} [AdbDevice τ] [Libc] {path : Text} {output : ShellOutput} {s : DeviceOps τ}
  {adb : τ}

lemma getMetadata_of_answer
    (h : AdbDevice.shellWithStderr (lsMetadataCmd path) s.adb = (.ok output, adb)) :
    getMetadata path s = decodeMetadata path (metadataLines output) { s with adb } := by
  rw [getMetadata]
  apply bind_of_ok
  rw [DeviceOps.transport, zoom_apply, mapError_of_ok _ h]

omit [AdbDevice τ] in
lemma decodeMetadata_notFound {lines : List Text} :
    (∃ p, (decodeMetadata path lines s).1 = .error (.error (.notFound p))) ↔
      ¬ Understood lines := by
  cases lines with
  | nil => simp [decodeMetadata, Understood]
  | cons first rest =>
    rw [decodeMetadata, Understood]
    by_cases hdenied : permissionErrSuffix <:+ first
    · simp [hdenied]
    · rw [if_neg hdenied]
      cases parseLsLine first with
      | none => simp [hdenied]
      | some r => cases r <;> simp [hdenied]

lemma onDevice_getMetadata_answers (w : AdbFs τ) :
    Ends (onDevice (getMetadata path)) w (fun _ t => t.cache = w.cache)
      fun e t => t.cache = w.cache ∧ (getMetadata path w.ops).1 = .error e := by
  apply ends_zoom.mpr
  apply ends_of_apply
  · exact fun _ _ _ => rfl
  · exact fun _ _ h => ⟨rfl, congrArg Prod.fst h⟩

lemma fetchMeta_ends (h : Host) (w : AdbFs τ) :
    Ends (fetchMeta h path) w
      (fun _ t => ∀ q, t.cache.peek q = some none → w.cache.peek q = some none)
      fun _ t => t.cache = (w.cache.get path h.now).2 ∨
        ∃ p, (getMetadata path w.ops).1 = .error (.error (.notFound p)) := by
  apply ends_bind.mpr
  apply ends_lift.mpr
  rcases (w.cache.get path h.now).1 with _ | _ | m
  · apply ends_bind.mpr
    apply ends_attempt.mpr
    apply (onDevice_getMetadata_answers _).imp
    · intro m t ht
      apply ends_bind.mpr
      apply ends_update.mpr
      intro q hq
      change (t.cache.insert path (some m) h.now).peek q = some none at hq
      rw [MetadataCache.peek_insert, ht] at hq
      split_ifs at hq with heq
      · simp at hq
      · exact w.cache.peek_of_peek_get hq
    · rintro (e | _) t ⟨hcache, hmeta⟩
      · cases e with
        | notFound p => exact Or.inr ⟨p, hmeta⟩
        | _ => exact Or.inl hcache
      · exact Or.inl hcache
  · exact Or.inl rfl
  · exact fun q hq => w.cache.peek_of_peek_get hq

/-- The path is not reported as missing, nor entered as such, and an error leaves the cache as looking
up the path has left it. -/
def NotMissing (path : Text) (w : AdbFs τ) : Prop :=
  (∀ p, (getMetadata path w.ops).1 ≠ .error (.error (.notFound p))) ∧
    ∀ h : Host, (∀ q, (fetchMeta h path w).2.cache.peek q = some none →
        w.cache.peek q = some none) ∧
      ∀ e, (fetchMeta h path w).1 = .error e →
        (fetchMeta h path w).2.cache = (w.cache.get path h.now).2

/-- A text that is no denial and that `parseLsLine` rejects is taken for a missing file, whatever it
says. -/
theorem not_missing_iff {w : AdbFs τ}
    (hanswer : AdbDevice.shellWithStderr (lsMetadataCmd path) w.ops.adb = (.ok output, adb)) :
    (¬ SaysMissing output → NotMissing path w) ↔
      SaysMissing output ∨ Understood (metadataLines output) := by
  have hmeta := getMetadata_of_answer hanswer
  have hmissing := @decodeMetadata_notFound τ _ path { w.ops with adb } (metadataLines output)
  rw [← hmeta] at hmissing
  constructor
  · intro h
    by_contra hnot
    push Not at hnot
    obtain ⟨p, hp⟩ := hmissing.mpr hnot.2
    exact (h hnot.1).1 p hp
  · rintro (hsaid | hunderstood) hnot
    · contradiction
    · have hno : ∀ p, (getMetadata path w.ops).1 ≠ .error (.error (.notFound p)) :=
        fun p hp => hmissing.mp ⟨p, hp⟩ hunderstood
      refine ⟨hno, fun h => ?_⟩
      have hfetch := @fetchMeta_ends τ _ _ path h w
      rcases hresult : fetchMeta h path w with ⟨e | m, t⟩
      · rcases hfetch.of_error hresult with hcache | ⟨p, hp⟩
        · refine ⟨fun q hq => ?_, fun _ _ => hcache⟩
          rw [hcache] at hq
          exact w.cache.peek_of_peek_get hq
        · exact absurd hp (hno p)
      · exact ⟨hfetch.of_ok hresult, fun e he => nomatch he⟩

end Answer

section Examples

attribute [local instance] plainLibc

def offlineFs : AdbFs MockAdb :=
  mockFs (MockAdb.new (List.replicate 2 (MockAdb.failed 1 ["error: device offline".toList])))

theorem not_missing_iff_fails_when_offline :
    ¬ SaysMissing ⟨[], ["error: device offline".toList], 1⟩ ∧
      (getMetadata "/a".toList offlineFs.ops).1 = .error (.error (.notFound "/a".toList)) ∧
      (fetchMeta (plainHost 0 0 0) "/a".toList offlineFs).2.cache.peek "/a".toList = some none := by
  refine ⟨?_, by decide, by decide⟩
  rintro ⟨line, hline, hsub⟩
  obtain rfl : line = "error: device offline".toList := by simpa using hline
  exact absurd hsub (by decide)

theorem not_missing_iff_denied :
    NotMissing "/a".toList (mockFs (MockAdb.new [MockAdb.out ["/a: Permission denied".toList]])) := by
  let output : ShellOutput := ⟨["/a: Permission denied".toList], [], 0⟩
  refine (@not_missing_iff MockAdb _ _ "/a".toList output _ _ rfl).mpr
    (Or.inr (Or.inl (by decide))) ?_
  rintro ⟨line, hline, hsub⟩
  obtain rfl : line = "/a: Permission denied".toList := by simpa [output] using hline
  exact absurd hsub (by decide)

end Examples

end Adbfs
