import Adbfs.Library.Floats
import Adbfs.Library.Search
import Adbfs.Options

/-! The `-o` options that the filesystem keeps for itself. -/

namespace Adbfs

open Library

/-- With the switch that only the start of the program reads. -/
structure MountOptions extends FsOptions where
  debug : Bool := false

structure OptionError where
  key : Text
  value : Text

def OptionError.message (e : OptionError) : Text :=
  "invalid mount option -o ".toList ++ e.key ++ '=' :: e.value

def invalid (key value : Text) : OptionError := ⟨key, value⟩

def orInvalid {α : Type} (key value : Text) : Option α → Except OptionError α
  | some a => .ok a
  | none => .error (invalid key value)

/-- Nanoseconds, rounded to even; a duration has fewer than `2 ^ 64` seconds. -/
def tryFromSecsF64 : F64 → Option ℕ
  | .finite secs => if 0 ≤ secs ∧ secs < 2 ^ 64 then some (roundEven (secs * 10 ^ 9)).toNat else none
  | .infinite _ => none
  | .nan => none

def seconds (key value : Text) : Except OptionError ℕ := do
  let secs ← orInvalid key value (Text.parseF64 value)
  orInvalid key value (tryFromSecsF64 secs)

def number (key value : Text) (radix : ℕ) : Except OptionError ℕ :=
  orInvalid key value (Text.fromStrRadix 32 radix value)

namespace MountOptions

/-- Whether the option was recognised, and the options with it applied. -/
def consume (opt : Text) (fs : MountOptions) : Except OptionError (Bool × MountOptions) :=
  match Text.breakOn ['='] opt with
  | some (key, v) =>
    if key = "entry_timeout".toList then do
      pure (true, { fs with entryTimeout := ← seconds key v })
    else if key = "attr_timeout".toList then do
      pure (true, { fs with attrTimeout := ← seconds key v })
    else if key = "negative_timeout".toList then do
      pure (true, { fs with negativeTimeout := ← seconds key v })
    else if key = "uid".toList then do
      pure (true, { fs with uid := some (← number key v 10) })
    else if key = "gid".toList then do
      pure (true, { fs with gid := some (← number key v 10) })
    else if key = "umask".toList then do
      pure (true, { fs with umask := some (← number key v 8) })
    else pure (false, fs)
  | none =>
    if opt = "direct_io".toList then pure (true, { fs with directIo := true })
    else if opt = "kernel_cache".toList then pure (true, { fs with kernelCache := true })
    else if opt = "debug".toList then pure (true, { fs with debug := true })
    else pure (false, fs)

def splitStep (acc : MountOptions × List Text) (opt : Text) :
    Except OptionError (MountOptions × List Text) := do
  let (recognised, fs) ← acc.1.consume opt
  pure (fs, if recognised then acc.2 else acc.2 ++ [opt])

def split (options : List Text) : Except OptionError (MountOptions × List Text) :=
  options.foldlM splitStep ({}, [])

end MountOptions

/-! What the options come to, read off the whole list. -/

inductive OptionKey where
  | entryTimeout | attrTimeout | negativeTimeout | uid | gid | umask
  deriving DecidableEq

inductive OptionFlag where
  | directIo | kernelCache | debug
  deriving DecidableEq

def readSeconds (value : Text) : Option ℕ := (Text.parseF64 value).bind tryFromSecsF64

namespace OptionKey

def all : List OptionKey := [entryTimeout, attrTimeout, negativeTimeout, uid, gid, umask]

def name : OptionKey → Text
  | entryTimeout => "entry_timeout".toList
  | attrTimeout => "attr_timeout".toList
  | negativeTimeout => "negative_timeout".toList
  | uid => "uid".toList
  | gid => "gid".toList
  | umask => "umask".toList

def read : OptionKey → Text → Option ℕ
  | entryTimeout | attrTimeout | negativeTimeout => readSeconds
  | uid | gid => Text.fromStrRadix 32 10
  | umask => Text.fromStrRadix 32 8

def set (n : ℕ) (fs : MountOptions) : OptionKey → MountOptions
  | entryTimeout => { fs with entryTimeout := n }
  | attrTimeout => { fs with attrTimeout := n }
  | negativeTimeout => { fs with negativeTimeout := n }
  | uid => { fs with uid := some n }
  | gid => { fs with gid := some n }
  | umask => { fs with umask := some n }

def text (key : OptionKey) (value : Text) : Text := key.name ++ '=' :: value

def valueOf (key : OptionKey) (opt : Text) : Option Text := (key.name ++ ['=']).isPrefixOf? opt

def latest (key : OptionKey) (options : List Text) : Option ℕ :=
  (options.filterMap key.valueOf).getLast?.bind key.read

end OptionKey

namespace OptionFlag

def all : List OptionFlag := [directIo, kernelCache, debug]

def name : OptionFlag → Text
  | directIo => "direct_io".toList
  | kernelCache => "kernel_cache".toList
  | debug => "debug".toList

def set (fs : MountOptions) : OptionFlag → MountOptions
  | directIo => { fs with directIo := true }
  | kernelCache => { fs with kernelCache := true }
  | debug => { fs with debug := true }

def given (flag : OptionFlag) (options : List Text) : Bool := options.contains flag.name

end OptionFlag

namespace MountOptions

def recognised (opt : Text) : Bool :=
  OptionFlag.all.any (fun flag => flag.name == opt) ||
    OptionKey.all.any fun key => (key.valueOf opt).isSome

def misread (opt : Text) : Option OptionError :=
  OptionKey.all.findSome? fun key =>
    (key.valueOf opt).bind fun v => if key.read v = none then some (invalid key.name v) else none

def settled (options : List Text) : MountOptions where
  entryTimeout := (OptionKey.entryTimeout.latest options).getD (10 ^ 9)
  attrTimeout := (OptionKey.attrTimeout.latest options).getD (10 ^ 9)
  negativeTimeout := (OptionKey.negativeTimeout.latest options).getD 0
  uid := OptionKey.uid.latest options
  gid := OptionKey.gid.latest options
  umask := OptionKey.umask.latest options
  directIo := OptionFlag.directIo.given options
  kernelCache := OptionFlag.kernelCache.given options
  debug := OptionFlag.debug.given options

end MountOptions

lemma seconds_eq (key value : Text) : seconds key value = orInvalid key value (readSeconds value) := by
  rw [seconds, readSeconds]
  cases Text.parseF64 value <;> rfl

namespace OptionKey

variable {key key' : OptionKey} {opt v : Text}

lemma mem_all (key : OptionKey) : key ∈ all := by cases key <;> decide

lemma name_injective : ∀ key ∈ all, ∀ key' ∈ all, key.name = key'.name → key = key' := by decide

lemma name_plain : ∀ key ∈ all, '=' ∉ key.name := by decide

lemma breakOn_text (key : OptionKey) (v : Text) :
    Text.breakOn ['='] (key.text v) = some (key.name, v) :=
  Text.breakOn_char (name_plain key key.mem_all) v

lemma valueOf_eq_some : key.valueOf opt = some v ↔ opt = key.text v := by
  rw [valueOf, List.isPrefixOf?_eq_some_iff_append_eq, List.append_assoc, List.singleton_append, text,
    eq_comm]

@[simp] lemma valueOf_text (key : OptionKey) (v : Text) : key.valueOf (key.text v) = some v :=
  valueOf_eq_some.mpr rfl

lemma valueOf_text_of_ne (h : key' ≠ key) (v : Text) : key'.valueOf (key.text v) = none := by
  rw [Option.eq_none_iff_forall_ne_some]
  intro u hu
  have hbreak := congrArg (Text.breakOn ['=']) (valueOf_eq_some.mp hu)
  rw [breakOn_text, breakOn_text, Option.some.injEq, Prod.mk.injEq] at hbreak
  exact h (name_injective key' key'.mem_all key key.mem_all hbreak.1.symm)

lemma latest_concat (key : OptionKey) (options : List Text) (opt : Text) :
    key.latest (options ++ [opt]) = (key.valueOf opt).elim (key.latest options) key.read := by
  rw [latest, List.filterMap_append]
  cases h : key.valueOf opt with
  | none => simp [h, latest]
  | some v => simp [h]

lemma latest_concat_of_none (h : key.valueOf opt = none) (options : List Text) :
    key.latest (options ++ [opt]) = key.latest options := by
  rw [latest_concat, h, Option.elim_none]

end OptionKey

namespace OptionFlag

variable {flag flag' : OptionFlag} {opt : Text}

lemma mem_all (flag : OptionFlag) : flag ∈ all := by cases flag <;> decide

lemma name_injective : ∀ flag ∈ all, ∀ flag' ∈ all, flag.name = flag'.name → flag = flag' := by decide

lemma name_plain : ∀ flag ∈ all, '=' ∉ flag.name := by decide

lemma given_concat (flag : OptionFlag) (options : List Text) (opt : Text) :
    flag.given (options ++ [opt]) = (flag.given options || flag.name == opt) := by
  rw [given, List.contains_append, given, List.contains_cons, List.contains_nil, Bool.or_false]

end OptionFlag

namespace MountOptions

variable {opt v : Text} {options : List Text}

lemma valueOf_flag (key : OptionKey) (flag : OptionFlag) : key.valueOf flag.name = none := by
  rw [Option.eq_none_iff_forall_ne_some]
  intro v hv
  have hplain := OptionFlag.name_plain flag flag.mem_all
  rw [OptionKey.valueOf_eq_some.mp hv, OptionKey.text] at hplain
  simp at hplain

lemma name_ne_text (key : OptionKey) (flag : OptionFlag) (v : Text) : flag.name ≠ key.text v := by
  intro h
  have hvalue := valueOf_flag key flag
  rw [h, OptionKey.valueOf_text] at hvalue
  contradiction

lemma consume_text (key : OptionKey) (v : Text) (fs : MountOptions) :
    consume (key.text v) fs =
      (orInvalid key.name v (key.read v)).map fun n => (true, key.set n fs) := by
  rw [consume, key.breakOn_text]
  cases key with
  | entryTimeout =>
    refine (if_pos rfl).trans ?_
    rw [seconds_eq, OptionKey.read]
    cases readSeconds v <;> rfl
  | attrTimeout =>
    refine (if_neg (by decide)).trans ((if_pos rfl).trans ?_)
    rw [seconds_eq, OptionKey.read]
    cases readSeconds v <;> rfl
  | negativeTimeout =>
    refine (if_neg (by decide)).trans ((if_neg (by decide)).trans ((if_pos rfl).trans ?_))
    rw [seconds_eq, OptionKey.read]
    cases readSeconds v <;> rfl
  | uid =>
    refine (if_neg (by decide)).trans ((if_neg (by decide)).trans ((if_neg (by decide)).trans ((if_pos rfl).trans ?_)))
    rw [number, OptionKey.read]
    cases Text.fromStrRadix 32 10 v <;> rfl
  | gid =>
    refine (if_neg (by decide)).trans ((if_neg (by decide)).trans ((if_neg (by decide)).trans ((if_neg (by decide)).trans ((if_pos rfl).trans ?_))))
    rw [number, OptionKey.read]
    cases Text.fromStrRadix 32 10 v <;> rfl
  | umask =>
    refine (if_neg (by decide)).trans ((if_neg (by decide)).trans ((if_neg (by decide)).trans ((if_neg (by decide)).trans ((if_neg (by decide)).trans ((if_pos rfl).trans ?_)))))
    rw [number, OptionKey.read]
    cases Text.fromStrRadix 32 8 v <;> rfl

lemma consume_flag (flag : OptionFlag) (fs : MountOptions) :
    consume flag.name fs = .ok (true, flag.set fs) := by
  have hbreak : Text.breakOn ['='] flag.name = none := by cases flag <;> decide
  rw [consume, hbreak]
  cases flag with
  | directIo => exact if_pos rfl
  | kernelCache => exact (if_neg (by decide)).trans (if_pos rfl)
  | debug => exact (if_neg (by decide)).trans ((if_neg (by decide)).trans (if_pos rfl))

lemma recognised_iff :
    recognised opt = true ↔ (∃ flag : OptionFlag, opt = flag.name) ∨
      ∃ (key : OptionKey) (v : Text), opt = key.text v := by
  simp only [recognised, Bool.or_eq_true, List.any_eq_true, beq_iff_eq, Option.isSome_iff_exists,
    OptionKey.valueOf_eq_some]
  constructor
  · rintro (⟨flag, -, rfl⟩ | ⟨key, -, v, rfl⟩)
    · exact Or.inl ⟨flag, rfl⟩
    · exact Or.inr ⟨key, v, rfl⟩
  · rintro (⟨flag, rfl⟩ | ⟨key, v, rfl⟩)
    · exact Or.inl ⟨flag, flag.mem_all, rfl⟩
    · exact Or.inr ⟨key, key.mem_all, v, rfl⟩

lemma recognised_eq_false : recognised opt = false ↔
    (∀ flag : OptionFlag, flag.name ≠ opt) ∧ ∀ key : OptionKey, key.valueOf opt = none := by
  rw [recognised, Bool.or_eq_false_iff, List.any_eq_false, List.any_eq_false]
  simp only [beq_iff_eq, Bool.not_eq_true, Option.isSome_eq_false_iff, Option.isNone_iff_eq_none]
  constructor
  · rintro ⟨hflag, hkey⟩
    exact ⟨fun flag => hflag flag flag.mem_all, fun key => hkey key key.mem_all⟩
  · rintro ⟨hflag, hkey⟩
    exact ⟨fun flag _ => hflag flag, fun key _ => hkey key⟩

lemma consume_other (h : recognised opt = false) (fs : MountOptions) :
    consume opt fs = .ok (false, fs) := by
  obtain ⟨hflag, hkey⟩ := recognised_eq_false.mp h
  rw [consume]
  cases hbreak : Text.breakOn ['='] opt with
  | none =>
    exact (if_neg (hflag .directIo).symm).trans ((if_neg (hflag .kernelCache).symm).trans
      (if_neg (hflag .debug).symm))
  | some p =>
    obtain ⟨k, v⟩ := p
    have hname : ∀ key : OptionKey, k ≠ key.name := by
      rintro key rfl
      have hopt : opt = key.text v := by
        rw [((Text.breakOn_eq_some_iff (by simp)).mp hbreak).1]
        rfl
      have hvalue := hkey key
      rw [OptionKey.valueOf_eq_some.mpr hopt] at hvalue
      contradiction
    exact (if_neg (hname .entryTimeout)).trans ((if_neg (hname .attrTimeout)).trans
      ((if_neg (hname .negativeTimeout)).trans ((if_neg (hname .uid)).trans
        ((if_neg (hname .gid)).trans (if_neg (hname .umask))))))

lemma misread_text (key : OptionKey) (v : Text) :
    misread (key.text v) = if key.read v = none then some (invalid key.name v) else none := by
  have hother : ∀ key' : OptionKey, key' ≠ key → key'.valueOf (key.text v) = none :=
    fun key' hne => key.valueOf_text_of_ne hne v
  by_cases hread : key.read v = none
  · rw [if_pos hread]
    cases key <;> simp [misread, OptionKey.all, hother, hread]
  · rw [if_neg hread]
    cases key <;> simp [misread, OptionKey.all, hother, hread]

lemma misread_of_valueOf (h : ∀ key : OptionKey, key.valueOf opt = none) : misread opt = none := by
  simp only [misread, h, Option.bind_none, List.findSome?_eq_none_iff, implies_true]

lemma settled_text {n : ℕ} (key : OptionKey) (hread : key.read v = some n) (options : List Text) :
    settled (options ++ [key.text v]) = key.set n (settled options) := by
  have hother : ∀ key' : OptionKey, key' ≠ key →
      key'.latest (options ++ [key.text v]) = key'.latest options :=
    fun key' hne => OptionKey.latest_concat_of_none (key.valueOf_text_of_ne hne v) options
  have hself : key.latest (options ++ [key.text v]) = some n := by
    rw [OptionKey.latest_concat, OptionKey.valueOf_text, Option.elim_some, hread]
  have hflag : ∀ flag : OptionFlag, flag.given (options ++ [key.text v]) = flag.given options := by
    intro flag
    rw [OptionFlag.given_concat, beq_eq_false_iff_ne.mpr (name_ne_text key flag v), Bool.or_false]
  cases key <;> simp [settled, OptionKey.set, hother, hself, hflag]

lemma settled_flag (flag : OptionFlag) (options : List Text) :
    settled (options ++ [flag.name]) = flag.set (settled options) := by
  have hkey : ∀ key : OptionKey, key.latest (options ++ [flag.name]) = key.latest options :=
    fun key => OptionKey.latest_concat_of_none (valueOf_flag key flag) options
  have hself : flag.given (options ++ [flag.name]) = true := by
    rw [OptionFlag.given_concat, beq_self_eq_true, Bool.or_true]
  have hother : ∀ flag' : OptionFlag, flag' ≠ flag →
      flag'.given (options ++ [flag.name]) = flag'.given options := by
    intro flag' hne
    have hname : flag'.name ≠ flag.name := fun h =>
      hne (OptionFlag.name_injective flag' flag'.mem_all flag flag.mem_all h)
    rw [OptionFlag.given_concat, beq_eq_false_iff_ne.mpr hname, Bool.or_false]
  cases flag <;> simp [settled, OptionFlag.set, hkey, hself, hother]

lemma settled_other (h : recognised opt = false) (options : List Text) :
    settled (options ++ [opt]) = settled options := by
  obtain ⟨hflag, hkey⟩ := recognised_eq_false.mp h
  have hgiven : ∀ flag : OptionFlag, flag.given (options ++ [opt]) = flag.given options := by
    intro flag
    rw [OptionFlag.given_concat, beq_eq_false_iff_ne.mpr (hflag flag), Bool.or_false]
  have hlatest : ∀ key : OptionKey, key.latest (options ++ [opt]) = key.latest options :=
    fun key => OptionKey.latest_concat_of_none (hkey key) options
  simp only [settled, hlatest, hgiven]

def leftover (options : List Text) : List Text := options.filter fun opt => !recognised opt

lemma splitStep_settled (options : List Text) (opt : Text) :
    splitStep (settled options, leftover options) opt =
      (misread opt).elim (.ok (settled (options ++ [opt]), leftover (options ++ [opt]))) .error := by
  rw [leftover, leftover, List.filter_append]
  cases hrec : recognised opt with
  | false =>
    rw [splitStep, consume_other hrec, misread_of_valueOf (recognised_eq_false.mp hrec).2,
      settled_other hrec]
    simp [hrec]
  | true =>
    have hfilter : [opt].filter (fun opt => !recognised opt) = [] := by simp [hrec]
    rw [hfilter, List.append_nil]
    rcases recognised_iff.mp hrec with ⟨flag, rfl⟩ | ⟨key, v, rfl⟩
    · rw [splitStep, consume_flag, misread_of_valueOf fun key => valueOf_flag key flag, settled_flag]
      rfl
    · rw [splitStep, consume_text, misread_text]
      cases hread : key.read v with
      | none => rfl
      | some n =>
        rw [settled_text key hread, if_neg (by simp)]
        rfl

lemma split_eq (options : List Text) : split options =
    (options.findSome? misread).elim (.ok (settled options, leftover options)) .error := by
  induction options using List.reverseRecOn with
  | nil => rfl
  | append_singleton options opt ih =>
    rw [split] at ih ⊢
    rw [List.foldlM_append, ih, List.findSome?_append]
    cases options.findSome? misread with
    | none =>
      rw [Option.elim_none, Option.none_or, List.findSome?_singleton, ← splitStep_settled]
      change List.foldlM splitStep (settled options, leftover options) [opt] = _
      rw [List.foldlM_cons]
      cases splitStep (settled options, leftover options) opt <;> rfl
    | some e => rfl

lemma misread_eq_some {e : OptionError} : misread opt = some e ↔
    ∃ (key : OptionKey) (v : Text), opt = key.text v ∧ key.read v = none ∧ e = invalid key.name v := by
  constructor
  · intro h
    cases hrec : recognised opt with
    | false =>
      rw [misread_of_valueOf (recognised_eq_false.mp hrec).2] at h
      contradiction
    | true =>
      rcases recognised_iff.mp hrec with ⟨flag, rfl⟩ | ⟨key, v, rfl⟩
      · rw [misread_of_valueOf fun key => valueOf_flag key flag] at h
        contradiction
      · rw [misread_text] at h
        split_ifs at h with hread
        exact ⟨key, v, rfl, hread, (Option.some.inj h).symm⟩
  · rintro ⟨key, v, rfl, hread, rfl⟩
    rw [misread_text, if_pos hread]

lemma misread_eq_none : misread opt = none ↔
    ∀ (key : OptionKey) (v : Text), opt = key.text v → key.read v ≠ none := by
  rw [Option.eq_none_iff_forall_ne_some]
  constructor
  · intro h key v hopt hread
    exact h _ (misread_eq_some.mpr ⟨key, v, hopt, hread, rfl⟩)
  · intro h e he
    obtain ⟨key, v, hopt, hread, -⟩ := misread_eq_some.mp he
    exact h key v hopt hread

lemma message_invalid (key : OptionKey) (v : Text) :
    (invalid key.name v).message = "invalid mount option -o ".toList ++ key.text v :=
  List.append_assoc _ key.name _

/-- When every value can be read, the last one of each key counts and what is not the filesystem's is
kept in order; otherwise the first one that cannot be read is the error, quoted as it was given. -/
theorem split_reads_options (options : List Text) :
    (∀ fs mount, split options = .ok (fs, mount) ↔
      (∀ (key : OptionKey) (v : Text), key.text v ∈ options → key.read v ≠ none) ∧
        fs = settled options ∧ mount = leftover options) ∧
      ∀ e, split options = .error e ↔ ∃ before key v after,
        options = before ++ OptionKey.text key v :: after ∧ key.read v = none ∧
          e = invalid key.name v ∧ e.message = "invalid mount option -o ".toList ++ key.text v ∧
            ∀ (key' : OptionKey) (v' : Text), key'.text v' ∈ before → key'.read v' ≠ none := by
  have hlegible : ∀ l : List Text, (∀ opt ∈ l, misread opt = none) ↔
      ∀ (key : OptionKey) (v : Text), key.text v ∈ l → key.read v ≠ none := by
    intro l
    simp only [misread_eq_none]
    exact ⟨fun h key v hmem => h _ hmem key v rfl, fun h opt hmem key v hopt => h key v (hopt ▸ hmem)⟩
  rw [split_eq]
  constructor
  · intro fs mount
    rw [← hlegible, ← List.findSome?_eq_none_iff]
    cases options.findSome? misread <;> simp [eq_comm]
  · intro e
    have hfirst : (options.findSome? misread).elim (.ok (settled options, leftover options)) .error =
        (.error e : Except OptionError _) ↔ options.findSome? misread = some e := by
      cases options.findSome? misread <;> simp
    rw [hfirst, List.findSome?_eq_some_iff]
    constructor
    · rintro ⟨before, opt, after, rfl, hopt, hbefore⟩
      obtain ⟨key, v, rfl, hread, rfl⟩ := misread_eq_some.mp hopt
      exact ⟨before, key, v, after, rfl, hread, rfl, message_invalid key v,
        (hlegible before).mp hbefore⟩
    · rintro ⟨before, key, v, after, rfl, hread, rfl, -, hbefore⟩
      exact ⟨before, _, after, rfl, misread_eq_some.mpr ⟨key, v, rfl, hread, rfl⟩,
        (hlegible before).mpr hbefore⟩

end MountOptions

end Adbfs
