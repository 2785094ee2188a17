import Adbfs.Library.Text

/-! The words of a shell command: quoting, substitution by backquotes and the operator for a second
command. Text that needs more of the shell's grammar is not read. -/

namespace Adbfs.Library.Shell

inductive Piece where
  | char (c : Char)
  | substitution (command : Text)
  deriving DecidableEq

abbrev Word := List Piece

inductive Token where
  | word (w : Word)
  | andThen
  deriving DecidableEq

def literal (t : Text) : Word := t.map .char

def singleQuote : Char := Char.ofNat 39

def backQuote : Char := Char.ofNat 96

def isSpecial (c : Char) : Bool :=
  c ∈ ['|', ';', '<', '>', '(', ')', '$', '"', '*', '?', '[', '#', '~', '\n']

inductive Mode where
  | plain
  | quoted
  | escaped
  | substituting (reversed : Text)
  | ampersand

/-- The word being read is kept in reverse; between words there is none. -/
def finish (word : Option Word) : List Token := (word.map fun w => .word w.reverse).toList

def add (p : Piece) (word : Option Word) : Option Word := some (p :: word.getD [])

def lex : Mode → Option Word → Text → Option (List Token)
  | .plain, word, [] => some (finish word)
  | _, _, [] => none
  | .plain, word, c :: t =>
    if c = singleQuote then lex .quoted (some (word.getD [])) t
    else if c = '\\' then lex .escaped word t
    else if c = backQuote then lex (.substituting []) word t
    else if c = '&' then (lex .ampersand none t).map fun tokens => finish word ++ tokens
    else if c = ' ' ∨ c = '\t' then (lex .plain none t).map fun tokens => finish word ++ tokens
    else if isSpecial c then none
    else lex .plain (add (.char c) word) t
  | .quoted, word, c :: t =>
    if c = singleQuote then lex .plain word t else lex .quoted (add (.char c) word) t
  | .escaped, word, c :: t => lex .plain (add (.char c) word) t
  | .substituting r, word, c :: t =>
    if c = backQuote then lex .plain (add (.substitution r.reverse) word) t
    else if c = '\\' then none
    else lex (.substituting (c :: r)) word t
  | .ampersand, word, c :: t =>
    if c = '&' then (lex .plain word t).map fun tokens => .andThen :: tokens else none

def tokens (t : Text) : Option (List Token) := lex .plain none t

def splitCommands : List Token → List (List Word)
  | [] => [[]]
  | .andThen :: rest => [] :: splitCommands rest
  | .word w :: rest =>
    match splitCommands rest with
    | [] => [[w]]
    | command :: commands => (w :: command) :: commands

def commands (t : Text) : Option (List (List Word)) := (tokens t).map splitCommands

def IsBare (c : Char) : Prop :=
  c ≠ singleQuote ∧ c ≠ '\\' ∧ c ≠ backQuote ∧ c ≠ '&' ∧ c ≠ ' ' ∧ c ≠ '\t' ∧ isSpecial c = false

instance : DecidablePred IsBare := fun _ => inferInstanceAs (Decidable (_ ∧ _))

section Steps

variable {word : Option Word} {c : Char} {t : Text}

@[simp] lemma lex_plain_nil : lex .plain word [] = some (finish word) := rfl

lemma lex_plain_of_isBare (hc : IsBare c) :
    lex .plain word (c :: t) = lex .plain (add (.char c) word) t := by
  obtain ⟨h1, h2, h3, h4, h5, h6, h7⟩ := hc
  have hblank : ¬ (c = ' ' ∨ c = '\t') := not_or.mpr ⟨h5, h6⟩
  have hspecial : ¬ isSpecial c = true := Bool.eq_false_iff.mp h7
  exact (if_neg h1).trans ((if_neg h2).trans ((if_neg h3).trans ((if_neg h4).trans
    ((if_neg hblank).trans (if_neg hspecial)))))

lemma lex_plain_blank :
    lex .plain word (' ' :: t) = (lex .plain none t).map fun tokens => finish word ++ tokens := rfl

lemma lex_plain_andThen : lex .plain word ('&' :: '&' :: t) =
    (lex .plain none t).map fun tokens => finish word ++ .andThen :: tokens := by
  change ((lex .plain none t).map fun tokens => .andThen :: tokens).map _ = _
  rw [Option.map_map]
  rfl

lemma lex_plain_backQuote :
    lex .plain word (backQuote :: t) = lex (.substituting []) word t := rfl

lemma lex_quoted_of_ne (hc : c ≠ singleQuote) :
    lex .quoted word (c :: t) = lex .quoted (add (.char c) word) t := if_neg hc

lemma lex_substituting_of_ne {r : Text} (hc : c ≠ backQuote) (hc' : c ≠ '\\') :
    lex (.substituting r) word (c :: t) = lex (.substituting (c :: r)) word t :=
  (if_neg hc).trans (if_neg hc')

lemma lex_substituting_backQuote {r : Text} : lex (.substituting r) word (backQuote :: t) =
    lex .plain (add (.substitution r.reverse) word) t := rfl

end Steps

lemma lex_quoted (p rest : Text) (word : Option Word) (hp : singleQuote ∉ p) :
    lex .quoted word (p ++ rest) = lex .quoted (p.foldl (fun w c => add (.char c) w) word) rest := by
  induction p generalizing word with
  | nil => rfl
  | cons c p ih =>
    have hc : c ≠ singleQuote := fun h => hp (by simp [h])
    rw [List.cons_append, lex_quoted_of_ne hc, ih _ fun h => hp (List.mem_cons_of_mem _ h)]
    rfl

lemma lex_bare (p rest : Text) (word : Option Word) (hp : ∀ c ∈ p, IsBare c) :
    lex .plain word (p ++ rest) = lex .plain (p.foldl (fun w c => add (.char c) w) word) rest := by
  induction p generalizing word with
  | nil => rfl
  | cons c p ih =>
    rw [List.cons_append, lex_plain_of_isBare (hp c (by simp)),
      ih _ fun d hd => hp d (List.mem_cons_of_mem _ hd)]
    rfl

lemma lex_substituting (p rest : Text) (r : Text) (word : Option Word) (hp : backQuote ∉ p)
    (hp' : '\\' ∉ p) :
    lex (.substituting r) word (p ++ rest) = lex (.substituting (p.reverse ++ r)) word rest := by
  induction p generalizing r with
  | nil => rfl
  | cons c p ih =>
    have hc : c ≠ backQuote := fun h => hp (by simp [h])
    have hc' : c ≠ '\\' := fun h => hp' (by simp [h])
    rw [List.cons_append, lex_substituting_of_ne hc hc',
      ih _ (fun h => hp (List.mem_cons_of_mem _ h)) fun h => hp' (List.mem_cons_of_mem _ h)]
    simp

lemma foldl_add (p : Text) (word : Option Word) :
    p.foldl (fun w c => add (.char c) w) word =
      if p = [] then word else some ((literal p).reverse ++ word.getD []) := by
  induction p generalizing word with
  | nil => rfl
  | cons c p ih =>
    rw [List.foldl_cons, ih]
    split_ifs with h1 h2 h3
    · simp at h2
    · simp [h1, add, literal]
    · simp at h3
    · simp [add, literal]

end Adbfs.Library.Shell
