import Adbfs.Library.Shell
import Adbfs.Ops

namespace Adbfs

open Library Library.Shell

inductive Command where
  | stat (path : Text)
  | list (path : Text)
  | mkdir (path : Text)
  | rm (path : Text)
  | rmdir (path : Text)
  | mv (source target : Text)
  | touch (path : Text)
  | broadcast
  | sync
  deriving DecidableEq

def wordText : Word → Option Text
  | [] => some []
  | .char c :: w => (wordText w).map fun t => c :: t
  | .substitution _ :: _ => none

@[simp] def Command.ofPath (name path : Word) : Option Command :=
  (wordText path).bind fun p =>
    if name = literal "mkdir".toList then some (.mkdir p)
    else if name = literal "rm".toList then some (.rm p)
    else if name = literal "rmdir".toList then some (.rmdir p)
    else none

/-- The time a `touch` sets does not matter to what is modelled of a device. -/
@[simp] def Command.ofWords : List Word → Option Command
  | [name] => if name = literal "sync".toList then some .sync else none
  | [name, path] => Command.ofPath name path
  | [name, source, target] =>
    if name = literal "mv".toList then
      (wordText source).bind fun s => (wordText target).map fun t => .mv s t
    else none
  | [name, l, a, path] =>
    if name = literal "ls".toList ∧ l = literal "-l".toList ∧ a = literal "-a".toList then
      (wordText path).map .list
    else none
  | [name, w1, w2, w3, path] =>
    if name = literal "ls".toList ∧ w1 = literal "-l".toList ∧ w2 = literal "-a".toList ∧
        w3 = literal "-d".toList then (wordText path).map .stat
    else if name = literal "touch".toList ∧ w2 = literal "-d".toList then
      (wordText path).map .touch
    else none
  | [name, w1, _, _, _, _] =>
    if name = literal "am".toList ∧ w1 = literal "broadcast".toList then some .broadcast else none
  | _ => none

def ofWordLists : List (List Word) → Option (List Command)
  | [] => some []
  | words :: rest =>
    (Command.ofWords words).bind fun command =>
      (ofWordLists rest).map fun commands => command :: commands

def readCommands (t : Text) : Option (List Command) := (commands t).bind ofWordLists

@[simp] lemma wordText_literal (t : Text) : wordText (literal t) = some t := by
  induction t with
  | nil => rfl
  | cons c t ih => simpa [literal, wordText] using ih

lemma literal_inj {t u : Text} : literal t = literal u ↔ t = u :=
  ⟨fun h => Option.some.inj (by rw [← wordText_literal, h, wordText_literal]), fun h => h ▸ rfl⟩

section Lex

lemma lex_escapePath (path rest : Text) (w : Word) :
    lex .quoted (some w) (shellEscapePath path ++ rest) =
      lex .quoted (some ((literal path).reverse ++ w)) rest := by
  induction path generalizing w with
  | nil => rfl
  | cons c path ih =>
    have hstep : lex .quoted (some w) (shellEscapePath (c :: path) ++ rest) =
        lex .quoted (some (.char c :: w)) (shellEscapePath path ++ rest) := by
      by_cases hc : c = quote
      · subst hc
        rfl
      · have hkept : shellEscapePath (c :: path) = c :: shellEscapePath path := by
          simp [shellEscapePath, hc]
        rw [hkept, List.cons_append, lex_quoted_of_ne hc]
        rfl
    rw [hstep, ih]
    simp [literal]

lemma lex_quotedPath (start path rest : Text) (hs : singleQuote ∉ start) :
    lex .plain none (quoted start path ++ rest) =
      lex .plain (some (literal (start ++ path)).reverse) rest := by
  have hopen : lex .plain none (quoted start path ++ rest) =
      lex .quoted (some []) (start ++ (shellEscapePath path ++ singleQuote :: rest)) := by
    simp only [quoted, List.cons_append, List.append_assoc]
    rfl
  rw [hopen, lex_quoted _ _ _ hs, foldl_add]
  have hclose : ∀ w : Word, lex .quoted (some w) (shellEscapePath path ++ singleQuote :: rest) =
      lex .plain (some ((literal path).reverse ++ w)) rest := by
    intro w
    rw [lex_escapePath]
    rfl
  split_ifs with h
  · rw [hclose, h]
    simp
  · rw [hclose]
    simp [literal]

lemma lex_word (w rest : Text) (hw : ∀ c ∈ w, IsBare c) (hne : w ≠ []) :
    lex .plain none (w ++ ' ' :: rest) =
      (lex .plain none rest).map fun tokens => .word (literal w) :: tokens := by
  rw [lex_bare _ _ _ hw, foldl_add, if_neg hne, lex_plain_blank]
  simp [finish]

lemma lex_words (ws : List Text) (rest : Text) (hws : ∀ w ∈ ws, w ≠ [] ∧ ∀ c ∈ w, IsBare c) :
    lex .plain none (ws.flatMap (fun w => w ++ [' ']) ++ rest) =
      (lex .plain none rest).map fun tokens => ws.map (fun w => .word (literal w)) ++ tokens := by
  induction ws with
  | nil => simp
  | cons w ws ih =>
    obtain ⟨hne, hw⟩ := hws w (by simp)
    rw [List.flatMap_cons, List.append_assoc, List.append_assoc, List.singleton_append,
      lex_word _ _ hw hne, ih fun v hv => hws v (List.mem_cons_of_mem _ hv), Option.map_map]
    rfl

lemma lex_lastPath (start path : Text) (hs : singleQuote ∉ start) :
    lex .plain none (quoted start path) = some [.word (literal (start ++ path))] := by
  have h := lex_quotedPath start path [] hs
  rw [List.append_nil] at h
  rw [h, lex_plain_nil]
  simp [finish]

lemma lex_path (path rest : Text) :
    lex .plain none (quoted [] path ++ ' ' :: rest) =
      (lex .plain none rest).map fun tokens => .word (literal path) :: tokens := by
  rw [lex_quotedPath _ _ _ (by simp), lex_plain_blank]
  simp [finish]

end Lex

section Read

lemma splitCommands_words (words : List Word) : splitCommands (words.map .word) = [words] := by
  induction words with
  | nil => rfl
  | cons w words ih => simp [splitCommands, ih]

lemma commands_wordsPath (ws : List Text) (start path : Text)
    (hws : ∀ w ∈ ws, w ≠ [] ∧ ∀ c ∈ w, IsBare c) (hs : singleQuote ∉ start) :
    commands (ws.flatMap (fun w => w ++ [' ']) ++ quoted start path) =
      some [ws.map literal ++ [literal (start ++ path)]] := by
  have htokens : tokens (ws.flatMap (fun w => w ++ [' ']) ++ quoted start path) =
      some ((ws.map literal ++ [literal (start ++ path)]).map .word) := by
    rw [tokens, lex_words _ _ hws, lex_lastPath _ _ hs]
    simp
  rw [commands, htokens, Option.map_some, splitCommands_words]

lemma readCommands_sync : readCommands "sync".toList = some [.sync] := by decide

section Paths

variable (path : Text)

lemma commands_mkdirCmd :
    commands (mkdirCmd path) = some [[literal "mkdir".toList, literal path]] :=
  commands_wordsPath ["mkdir".toList] [] path (by decide) (by simp)

lemma commands_rmCmd : commands (rmCmd path) = some [[literal "rm".toList, literal path]] :=
  commands_wordsPath ["rm".toList] [] path (by decide) (by simp)

lemma commands_rmdirCmd :
    commands (rmdirCmd path) = some [[literal "rmdir".toList, literal path]] :=
  commands_wordsPath ["rmdir".toList] [] path (by decide) (by simp)

lemma commands_lsMetadataCmd : commands (lsMetadataCmd path) =
    some [[literal "ls".toList, literal "-l".toList, literal "-a".toList, literal "-d".toList,
      literal path]] :=
  commands_wordsPath ["ls".toList, "-l".toList, "-a".toList, "-d".toList] [] path (by decide)
    (by simp)

lemma commands_lsDirCmd : commands (lsDirCmd path) =
    some [[literal "ls".toList, literal "-l".toList, literal "-a".toList, literal path]] :=
  commands_wordsPath ["ls".toList, "-l".toList, "-a".toList] [] path (by decide) (by simp)

lemma commands_rescanFileCmd : commands (rescanFileCmd path) =
    some [[literal "am".toList, literal "broadcast".toList, literal "-a".toList,
      literal "android.intent.action.MEDIA_SCANNER_SCAN_FILE".toList, literal "-d".toList,
      literal ("file://".toList ++ path)]] :=
  commands_wordsPath ["am".toList, "broadcast".toList, "-a".toList,
    "android.intent.action.MEDIA_SCANNER_SCAN_FILE".toList, "-d".toList] "file://".toList path
    (by decide) (by decide)

lemma commands_rescanDirRemovedCmd : commands (rescanDirRemovedCmd path) =
    some [[literal "am".toList, literal "broadcast".toList, literal "-a".toList,
      literal "android.intent.action.MEDIA_UNMOUNTED".toList, literal "-d".toList,
      literal ("file://".toList ++ path)]] :=
  commands_wordsPath ["am".toList, "broadcast".toList, "-a".toList,
    "android.intent.action.MEDIA_UNMOUNTED".toList, "-d".toList] "file://".toList path
    (by decide) (by decide)

lemma commands_mvCmd (target : Text) : commands (mvCmd path target) =
    some [[literal "mv".toList, literal path, literal target]] := by
  have htokens : tokens (mvCmd path target) =
      some ([literal "mv".toList, literal path, literal target].map .word) := by
    change lex .plain none ("mv".toList ++ ' ' :: (quoted [] path ++ ' ' :: quoted [] target)) = _
    rw [lex_word _ _ (by decide) (by decide), lex_path, lex_lastPath _ _ (by simp)]
    simp
  rw [commands, htokens, Option.map_some, splitCommands_words]

lemma readCommands_of_words {t : Text} {words : List Word} {c : Command}
    (ht : commands t = some [words]) (hc : Command.ofWords words = some c) :
    readCommands t = some [c] := by
  rw [readCommands, ht, Option.bind_some, ofWordLists, hc]
  rfl

lemma readCommands_mkdirCmd : readCommands (mkdirCmd path) = some [.mkdir path] := by
  apply readCommands_of_words (commands_mkdirCmd path)
  simp

lemma readCommands_rmCmd : readCommands (rmCmd path) = some [.rm path] := by
  apply readCommands_of_words (commands_rmCmd path)
  simp [literal_inj]

lemma readCommands_rmdirCmd : readCommands (rmdirCmd path) = some [.rmdir path] := by
  apply readCommands_of_words (commands_rmdirCmd path)
  simp [literal_inj]

lemma readCommands_lsMetadataCmd : readCommands (lsMetadataCmd path) = some [.stat path] := by
  apply readCommands_of_words (commands_lsMetadataCmd path)
  simp

lemma readCommands_lsDirCmd : readCommands (lsDirCmd path) = some [.list path] := by
  apply readCommands_of_words (commands_lsDirCmd path)
  simp

lemma readCommands_rescanFileCmd : readCommands (rescanFileCmd path) = some [.broadcast] := by
  apply readCommands_of_words (commands_rescanFileCmd path)
  simp

lemma readCommands_rescanDirRemovedCmd :
    readCommands (rescanDirRemovedCmd path) = some [.broadcast] := by
  apply readCommands_of_words (commands_rescanDirRemovedCmd path)
  simp

lemma readCommands_mvCmd (target : Text) :
    readCommands (mvCmd path target) = some [.mv path target] := by
  apply readCommands_of_words (commands_mvCmd path target)
  simp

end Paths

section Touch

variable (path : Text) (time : SystemTime) (gnu : Bool)

lemma isBare_of_isDigit {c : Char} (h : c.isDigit) : IsBare c := by
  have hne : ∀ d : Char, d.isDigit = false → c ≠ d := fun d hd hcd => by simp [← hcd, h] at hd
  refine ⟨hne _ (by decide), hne _ (by decide), hne _ (by decide), hne _ (by decide),
    hne _ (by decide), hne _ (by decide), ?_⟩
  have hspecial : ∀ d, isSpecial d = true → d.isDigit = false := by
    simp only [isSpecial, decide_eq_true_eq]
    decide
  by_contra hs
  exact hne c (hspecial c (by simpa using hs)) rfl

lemma isDigit_of_mem_decimal {n : ℕ} {c : Char} (h : c ∈ decimal n) : c.isDigit :=
  Nat.isDigit_of_mem_toDigits (by decide) (by decide) h

def touchStamp : Text :=
  '@' :: (decimal (time.toNat / 10 ^ 9) ++ '.' :: (decimal (time.toNat % 10 ^ 9)).leftpad 9 '0')

lemma isBare_of_mem_touchStamp {c : Char} (h : c ∈ touchStamp time) : IsBare c := by
  simp only [touchStamp, List.leftpad, List.mem_cons, List.mem_append, List.mem_replicate] at h
  rcases h with rfl | h | rfl | ⟨-, rfl⟩ | h
  · decide
  · exact isBare_of_isDigit (isDigit_of_mem_decimal h)
  · decide
  · decide
  · exact isBare_of_isDigit (isDigit_of_mem_decimal h)

/-- The time of a `touch`; in the older dialect what `date` prints. -/
def touchTimeWord : Word :=
  if gnu then literal (touchStamp time)
  else [.substitution ("date -ud ".toList ++ touchStamp time ++ " +%Y-%m-%dT%H:%M:%S".toList)]

lemma lex_touchTime (rest : Text) :
    lex .plain none (formatTouchTime time gnu ++ ' ' :: rest) =
      (lex .plain none rest).map fun tokens => .word (touchTimeWord time gnu) :: tokens := by
  cases gnu with
  | true =>
    exact lex_word (touchStamp time) rest (fun c hc => isBare_of_mem_touchStamp time hc)
      (by simp [touchStamp])
  | false =>
    have hstamp : backQuote ∉ touchStamp time ∧ '\\' ∉ touchStamp time :=
      ⟨fun h => (isBare_of_mem_touchStamp time h).2.2.1 rfl,
        fun h => (isBare_of_mem_touchStamp time h).2.1 rfl⟩
    let inner := "date -ud ".toList ++ touchStamp time ++ " +%Y-%m-%dT%H:%M:%S".toList
    have hinner : backQuote ∉ inner ∧ '\\' ∉ inner := by
      simp only [inner, List.mem_append, hstamp]
      decide
    have hshape : formatTouchTime time false ++ ' ' :: rest =
        backQuote :: (inner ++ backQuote :: ' ' :: rest) := by
      change "`date -ud ".toList ++ touchStamp time ++ " +%Y-%m-%dT%H:%M:%S`".toList ++ ' ' :: rest = _
      simp [inner, backQuote]
    rw [hshape, lex_plain_backQuote, lex_substituting _ _ _ _ hinner.1 hinner.2,
      lex_substituting_backQuote, lex_plain_blank]
    simp [finish, add, touchTimeWord, inner]

def touchWords (flag : Text) : List Word :=
  [literal "touch".toList, literal flag, literal "-d".toList, touchTimeWord time gnu, literal path]

def touchCommands (atime mtime : Option SystemTime) : List (List Word) :=
  (atime.map fun t => touchWords path t gnu "-a".toList).toList ++
    (mtime.map fun t => touchWords path t gnu "-m".toList).toList

lemma touch_shape (flag stamp path rest : Text) :
    "touch ".toList ++ flag ++ " -d ".toList ++ stamp ++ ' ' :: quoted [] path ++ rest =
      ["touch".toList, flag, "-d".toList].flatMap (fun w => w ++ [' ']) ++
        (stamp ++ ' ' :: (quoted [] path ++ rest)) := by
  simp

lemma lex_touchPart (flag rest : Text) (hflag : flag ≠ [] ∧ ∀ c ∈ flag, IsBare c) :
    lex .plain none (touchPart flag path gnu time ++ rest) =
      (lex .plain (some (literal path).reverse) rest).map fun tokens =>
        [.word (literal "touch".toList), .word (literal flag), .word (literal "-d".toList),
          .word (touchTimeWord time gnu)] ++ tokens := by
  have hshape : touchPart flag path gnu time ++ rest =
      ["touch".toList, flag, "-d".toList].flatMap (fun w => w ++ [' ']) ++
        (formatTouchTime time gnu ++ ' ' :: (quoted [] path ++ rest)) :=
    touch_shape flag (formatTouchTime time gnu) path rest
  have hwords : ∀ v ∈ ["touch".toList, flag, "-d".toList], v ≠ [] ∧ ∀ c ∈ v, IsBare c := by
    intro v hv
    simp only [List.mem_cons, List.not_mem_nil, or_false] at hv
    rcases hv with rfl | rfl | rfl
    · decide
    · exact hflag
    · decide
  rw [hshape, lex_words _ _ hwords, lex_touchTime, lex_quotedPath [] path rest (by simp),
    Option.map_map]
  rfl

lemma tokens_touchPart (flag : Text) (hflag : flag ≠ [] ∧ ∀ c ∈ flag, IsBare c) :
    tokens (touchPart flag path gnu time) = some ((touchWords path time gnu flag).map .word) := by
  rw [tokens, ← List.append_nil (touchPart _ _ _ _), lex_touchPart path time gnu flag [] hflag]
  simp [finish, touchWords]

lemma commands_touch {atime mtime : Option SystemTime}
    (h : touchParts path atime mtime gnu ≠ []) :
    commands (List.intercalate " && ".toList (touchParts path atime mtime gnu)) =
      some (touchCommands path gnu atime mtime) := by
  have hone : ∀ time flag, (flag ≠ [] ∧ ∀ c ∈ flag, IsBare c) →
      commands (touchPart flag path gnu time) = some [touchWords path time gnu flag] := by
    intro time flag hflag
    rw [commands, tokens_touchPart path time gnu flag hflag, Option.map_some, splitCommands_words]
  rw [touchParts] at h ⊢
  rw [touchCommands]
  cases atime with
  | none =>
    cases mtime with
    | none => simp at h
    | some mt => simpa [List.intercalate] using hone mt "-m".toList (by decide)
  | some at' =>
    cases mtime with
    | none => simpa [List.intercalate] using hone at' "-a".toList (by decide)
    | some mt =>
      have hand : ∀ word t, lex .plain (some word) (" && ".toList ++ t) =
          (lex .plain none t).map fun tokens => [.word word.reverse, .andThen] ++ tokens := by
        intro word t
        change lex .plain (some word) (' ' :: '&' :: '&' :: ' ' :: t) = _
        simp [lex_plain_blank, lex_plain_andThen, finish]
        rfl
      have hsecond : lex .plain none (touchPart "-m".toList path gnu mt) =
          some ((touchWords path mt gnu "-m".toList).map .word) :=
        tokens_touchPart path mt gnu "-m".toList (by decide)
      have htokens : tokens (touchPart "-a".toList path gnu at' ++
            (" && ".toList ++ touchPart "-m".toList path gnu mt)) =
          some ((touchWords path at' gnu "-a".toList).map .word ++
            .andThen :: (touchWords path mt gnu "-m".toList).map .word) := by
        rw [tokens, lex_touchPart path at' gnu "-a".toList _ (by decide), hand, hsecond]
        simp [touchWords]
      have hjoin : List.intercalate " && ".toList
            ((Option.map (touchPart "-a".toList path gnu) (some at')).toList ++
              (Option.map (touchPart "-m".toList path gnu) (some mt)).toList) =
          touchPart "-a".toList path gnu at' ++
            (" && ".toList ++ touchPart "-m".toList path gnu mt) := by
        simp [List.intercalate]
      rw [commands, hjoin, htokens]
      simp [splitCommands, touchWords]

lemma ofWordLists_replicate {l : List (List Word)} {c : Command}
    (h : ∀ words ∈ l, Command.ofWords words = some c) :
    ofWordLists l = some (List.replicate l.length c) := by
  induction l with
  | nil => rfl
  | cons words l ih =>
    rw [ofWordLists, h words (by simp), ih fun v hv => h v (List.mem_cons_of_mem _ hv)]
    rfl

lemma readCommands_touch {atime mtime : Option SystemTime}
    (h : touchParts path atime mtime gnu ≠ []) :
    readCommands (List.intercalate " && ".toList (touchParts path atime mtime gnu)) =
      some (List.replicate (touchParts path atime mtime gnu).length (.touch path)) := by
  have hlen : (touchParts path atime mtime gnu).length =
      (touchCommands path gnu atime mtime).length := by
    cases atime <;> cases mtime <;> rfl
  rw [readCommands, commands_touch path gnu h, hlen]
  apply ofWordLists_replicate
  intro words hwords
  simp only [touchCommands, List.mem_append, Option.mem_toList,
    Option.map_eq_some_iff] at hwords
  rcases hwords with ⟨t, -, rfl⟩ | ⟨t, -, rfl⟩
  · simp [touchWords, literal_inj]
  · simp [touchWords, literal_inj]

end Touch

end Read

section Sent

inductive Sent where
  | getMetadata (path : Text)
  | listDir (path : Text)
  | touch (path : Text) (atime mtime : Option SystemTime) (gnu : Bool)
  | mkdir (path : Text)
  | rm (path : Text)
  | rmdir (path : Text)
  | mv (source target : Text)
  | rescanFile (path : Text)
  | rescanDirRemoved (path : Text)

/-- The text sent for a command; a `touch` without a time is not sent. -/
def Sent.text : Sent → Option Text
  | .getMetadata path => some (lsMetadataCmd path)
  | .listDir path => some (lsDirCmd path)
  | .touch path atime mtime gnu =>
    let parts := touchParts path atime mtime gnu
    if parts = [] then none else some (List.intercalate " && ".toList parts)
  | .mkdir path => some (mkdirCmd path)
  | .rm path => some (rmCmd path)
  | .rmdir path => some (rmdirCmd path)
  | .mv source target => some (mvCmd source target)
  | .rescanFile path => some (rescanFileCmd path)
  | .rescanDirRemoved path => some (rescanDirRemovedCmd path)

/-- What is meant: fixed words, and every path as one word, character by character. -/
def Sent.words : Sent → List (List Word)
  | .getMetadata path =>
    [["ls", "-l", "-a", "-d"].map (literal ·.toList) ++ [literal path]]
  | .listDir path => [["ls", "-l", "-a"].map (literal ·.toList) ++ [literal path]]
  | .touch path atime mtime gnu => touchCommands path gnu atime mtime
  | .mkdir path => [[literal "mkdir".toList, literal path]]
  | .rm path => [[literal "rm".toList, literal path]]
  | .rmdir path => [[literal "rmdir".toList, literal path]]
  | .mv source target => [[literal "mv".toList, literal source, literal target]]
  | .rescanFile path =>
    [["am", "broadcast", "-a", "android.intent.action.MEDIA_SCANNER_SCAN_FILE", "-d"].map
      (literal ·.toList) ++ [literal ("file://".toList ++ path)]]
  | .rescanDirRemoved path =>
    [["am", "broadcast", "-a", "android.intent.action.MEDIA_UNMOUNTED", "-d"].map
      (literal ·.toList) ++ [literal ("file://".toList ++ path)]]

lemma commands_text {c : Sent} {t : Text} (h : c.text = some t) : commands t = some c.words := by
  cases c with
  | touch path atime mtime gnu =>
    simp only [Sent.text] at h
    split_ifs at h with hparts
    rw [← Option.some.inj h]
    exact commands_touch path gnu hparts
  | getMetadata path => exact Option.some.inj h ▸ commands_lsMetadataCmd path
  | listDir path => exact Option.some.inj h ▸ commands_lsDirCmd path
  | mkdir path => exact Option.some.inj h ▸ commands_mkdirCmd path
  | rm path => exact Option.some.inj h ▸ commands_rmCmd path
  | rmdir path => exact Option.some.inj h ▸ commands_rmdirCmd path
  | mv source target => exact Option.some.inj h ▸ commands_mvCmd source target
  | rescanFile path => exact Option.some.inj h ▸ commands_rescanFileCmd path
  | rescanDirRemoved path => exact Option.some.inj h ▸ commands_rescanDirRemovedCmd path

end Sent

end Adbfs
