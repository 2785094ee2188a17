import Adbfs.Library.Runs
import Adbfs.Library.Table

/-! Concurrent calls of `acquire_copy` and `release_copy`, with the copy's mutex explicit. -/

namespace Adbfs.Copies

open Library

inductive CopyInit where
  | pull
  | empty
  deriving DecidableEq

structure Copy where
  ino : ℕ
  refs : ℕ
  pulled : Bool
  evicted : Bool
  lock : Option ℕ

def Copy.new (ino : ℕ) : Copy := ⟨ino, 0, false, false, none⟩

inductive Client where
  | acquires (ino : ℕ) (init : CopyInit)
  | waits (ino : ℕ) (init : CopyInit) (copy : ℕ)
  | checks (ino : ℕ) (init : CopyInit) (copy : ℕ)
  | populated (ino copy : ℕ)
  | failed (ino copy : ℕ)
  | deletes (ino copy : ℕ)
  | removes (ino copy : ℕ)
  | leaves (ino copy : ℕ)
  | holds (ino copy : ℕ)
  | releases (ino copy : ℕ)
  | drops (ino copy : ℕ)
  deriving DecidableEq

namespace Client

def locks : Client → Option ℕ
  | checks _ _ c | populated _ c | failed _ c | deletes _ c | removes _ c | leaves _ c
  | drops _ c => some c
  | acquires _ _ | waits _ _ _ | holds _ _ | releases _ _ => none

/-- The copy on which the client has an acquired reference it has not yet dropped. -/
def owns : Client → Option ℕ
  | holds _ c | releases _ c | drops _ c => some c
  | _ => none

/-- The copy that the client may still turn out to acquire. -/
def tries : Client → Option ℕ
  | waits _ _ c | checks _ _ c | populated _ c | failed _ c => some c
  | _ => none

def clears : Client → Option ℕ
  | deletes _ c | removes _ c => some c
  | _ => none

end Client

structure State where
  openCopies : ℕ → Option ℕ
  copies : ℕ → Option Copy
  nextCopy : ℕ
  present : ℕ → Bool
  clients : Table ℕ Client

def start : State where
  openCopies _ := none
  copies _ := none
  nextCopy := 0
  present _ := false
  clients := ∅

@[simps] def State.goto (s : State) (k : ℕ) (x : Client) : State :=
  { s with clients := s.clients.insert k x }

@[simps] def State.setCopy (s : State) (c : ℕ) (x : Copy) : State :=
  { s with copies := Function.update s.copies c (some x) }

@[simps] def State.setPresent (s : State) (ino : ℕ) (b : Bool) : State :=
  { s with present := Function.update s.present ino b }

/-- `Populates init pulled before after ok`: presence of the local file before and after. -/
inductive Populates : CopyInit → Bool → Bool → Bool → Bool → Prop
  | create {pulled before : Bool} : Populates .empty pulled before true true
  | createFails {pulled before : Bool} : Populates .empty pulled before before false
  | pull {before : Bool} : Populates .pull false before true true
  | pullFails {before after : Bool} : Populates .pull false before after false
  | shared {before : Bool} : Populates .pull true before before true

inductive Label where
  | pulls (ino copy : ℕ)
  | deletes (ino copy : ℕ)
  | other

def fileLabel (init : CopyInit) (pulled : Bool) (ino copy : ℕ) : Label :=
  if init = .pull ∧ pulled = false then .pulls ino copy else .other

inductive Step (s : State) : Label → State → Prop
  | acquire {k i : ℕ} {init : CopyInit} : s.clients.lookup k = none →
      Step s .other (s.goto k (.acquires i init))
  | entry {k i c : ℕ} {init : CopyInit} : s.clients.lookup k = some (.acquires i init) →
      s.openCopies i = some c → Step s .other (s.goto k (.waits i init c))
  | insert {k i : ℕ} {init : CopyInit} : s.clients.lookup k = some (.acquires i init) →
      s.openCopies i = none →
      Step s .other ({ s.setCopy s.nextCopy (.new i) with
        openCopies := Function.update s.openCopies i (some s.nextCopy)
        nextCopy := s.nextCopy + 1 }.goto k (.waits i init s.nextCopy))
  | lock {k i c : ℕ} {init : CopyInit} {x : Copy} :
      s.clients.lookup k = some (.waits i init c) → s.copies c = some x → x.lock = none →
      Step s .other ((s.setCopy c { x with lock := some k }).goto k (.checks i init c))
  | retry {k i c : ℕ} {init : CopyInit} {x : Copy} :
      s.clients.lookup k = some (.checks i init c) → s.copies c = some x → x.evicted = true →
      Step s .other ((s.setCopy c { x with lock := none }).goto k (.acquires i init))
  | populate {k i c : ℕ} {init : CopyInit} {x : Copy} {after : Bool} :
      s.clients.lookup k = some (.checks i init c) → s.copies c = some x → x.evicted = false →
      Populates init x.pulled (s.present i) after true →
      Step s (fileLabel init x.pulled i c) ((s.setPresent i after).goto k (.populated i c))
  | populateFails {k i c : ℕ} {init : CopyInit} {x : Copy} {after : Bool} :
      s.clients.lookup k = some (.checks i init c) → s.copies c = some x → x.evicted = false →
      Populates init x.pulled (s.present i) after false →
      Step s (fileLabel init x.pulled i c) ((s.setPresent i after).goto k (.failed i c))
  | acquired {k i c : ℕ} {x : Copy} :
      s.clients.lookup k = some (.populated i c) → s.copies c = some x →
      Step s .other ((s.setCopy c
        { x with pulled := true, refs := x.refs + 1, lock := none }).goto k (.holds i c))
  | evict {k i c : ℕ} {x : Copy} :
      s.clients.lookup k = some (.failed i c) → s.copies c = some x → x.refs = 0 →
      Step s .other ((s.setCopy c { x with evicted := true }).goto k (.removes i c))
  | keep {k i c : ℕ} {x : Copy} :
      s.clients.lookup k = some (.failed i c) → s.copies c = some x → x.refs ≠ 0 →
      Step s .other (s.goto k (.leaves i c))
  | release {k i c : ℕ} : s.clients.lookup k = some (.holds i c) →
      Step s .other (s.goto k (.releases i c))
  | lockRelease {k i c : ℕ} {x : Copy} :
      s.clients.lookup k = some (.releases i c) → s.copies c = some x → x.lock = none →
      Step s .other ((s.setCopy c { x with lock := some k }).goto k (.drops i c))
  | drop {k i c : ℕ} {x : Copy} :
      s.clients.lookup k = some (.drops i c) → s.copies c = some x → x.refs - 1 ≠ 0 →
      Step s .other ((s.setCopy c { x with refs := x.refs - 1 }).goto k (.leaves i c))
  | dropLast {k i c : ℕ} {x : Copy} :
      s.clients.lookup k = some (.drops i c) → s.copies c = some x → x.refs - 1 = 0 →
      Step s .other ((s.setCopy c
        { x with refs := x.refs - 1, evicted := true }).goto k (.deletes i c))
  | delete {k i c : ℕ} : s.clients.lookup k = some (.deletes i c) →
      Step s (.deletes i c) ((s.setPresent i false).goto k (.removes i c))
  | remove {k i c : ℕ} : s.clients.lookup k = some (.removes i c) →
      Step s .other ({ s with
        openCopies := if s.openCopies i = some c then Function.update s.openCopies i none
          else s.openCopies }.goto k (.leaves i c))
  | leave {k i c : ℕ} {x : Copy} :
      s.clients.lookup k = some (.leaves i c) → s.copies c = some x →
      Step s .other { s.setCopy c { x with lock := none } with clients := s.clients.erase k }

def outstanding (clients : Table ℕ Client) (c : ℕ) : ℕ :=
  clients.count fun x => decide (x.owns = some c)

namespace Client

def copy : Client → Option ℕ
  | acquires _ _ => none
  | waits _ _ c | checks _ _ c | populated _ c | failed _ c | deletes _ c | removes _ c
  | leaves _ c | holds _ c | releases _ c | drops _ c => some c

def ino : Client → ℕ
  | acquires i _ | waits i _ _ | checks i _ _ | populated i _ | failed i _ | deletes i _
  | removes i _ | leaves i _ | holds i _ | releases i _ | drops i _ => i

def knows : Client → Option Bool
  | populated _ _ | failed _ _ => some false
  | deletes _ _ | removes _ _ => some true
  | _ => none

end Client

structure CopyOk (s : State) (c : ℕ) (x : Copy) : Prop where
  fresh : c < s.nextCopy
  refs : x.refs = outstanding s.clients c
  gone : x.evicted = true → x.refs = 0
  mapped : x.evicted = false → s.openCopies x.ino = some c
  pulled : x.evicted = false → (x.pulled = true ↔ 0 < x.refs)
  present : x.evicted = false → x.pulled = true → s.present x.ino = true
  locked : ∀ k, x.lock = some k ↔ ∃ y, s.clients.lookup k = some y ∧ y.locks = some c
  tried : x.evicted = false → x.refs = 0 → ∃ k y, s.clients.lookup k = some y ∧ y.tries = some c

structure ClientOk (s : State) (y : Client) (c : ℕ) : Prop where
  copy : ∃ x, s.copies c = some x ∧ x.ino = y.ino ∧ ∀ b, y.knows = some b → x.evicted = b
  filled : ∀ i, y = .populated i c → s.present i = true
  mapped : y.clears = some c → s.openCopies y.ino = some c

structure Inv (s : State) : Prop where
  copies : ∀ c x, s.copies c = some x → CopyOk s c x
  clients : ∀ k y c, s.clients.lookup k = some y → y.copy = some c → ClientOk s y c
  map : ∀ i c, s.openCopies i = some c → ∃ x, s.copies c = some x ∧ x.ino = i ∧
    (x.evicted = true → ∃ k y, s.clients.lookup k = some y ∧ y.clears = some c)

lemma outstanding_insert {m : Table ℕ Client} {k : ℕ} {y : Client} (x : Client)
    (h : m.lookup k = some y) (c : ℕ) :
    outstanding (m.insert k x) c + (if y.owns = some c then 1 else 0) =
      outstanding m c + if x.owns = some c then 1 else 0 := by
  simpa only [outstanding, decide_eq_true_eq] using
    Table.count_replace (fun x => decide (x.owns = some c)) x h

section Invariant

variable {s s' : State} {k i c : ℕ} {init : CopyInit} {x x' : Copy} {y z : Client}

attribute [local simp] Table.lookup_insert_eq Function.update_apply

lemma inv_start : Inv start := by
  constructor <;> simp [start]

lemma Inv.lock_eq (h : Inv s) (hk : s.clients.lookup k = some y)
    (hc : s.copies c = some x) (hy : y.locks = some c) : x.lock = some k :=
  ((h.copies c x hc).locked k).mpr ⟨y, hk, hy⟩

lemma Inv.exclusive (h : Inv s) (hk : s.clients.lookup k = some y)
    (hc : s.copies c = some x) (hy : y.locks = some c) {l : ℕ}
    (hl : s.clients.lookup l = some z) (hz : z.locks = some c) : l = k :=
  Option.some.inj ((h.lock_eq hl hc hz).symm.trans (h.lock_eq hk hc hy))

lemma Inv.ino_eq (h : Inv s) (hk : s.clients.lookup k = some y)
    (hc : s.copies c = some x) (hy : y.copy = some c) : x.ino = y.ino := by
  obtain ⟨z, hz, hino, -⟩ := (h.clients k y c hk hy).copy
  rw [← hino, Option.some.inj (hc.symm.trans hz)]

lemma Inv.evicted_eq (h : Inv s) (hk : s.clients.lookup k = some y)
    (hc : s.copies c = some x) (hy : y.copy = some c) {b : Bool}
    (hb : y.knows = some b) : x.evicted = b := by
  obtain ⟨z, hz, -, hknows⟩ := (h.clients k y c hk hy).copy
  rw [Option.some.inj (hc.symm.trans hz)]
  exact hknows b hb

namespace Client

lemma copy_of_locks (h : y.locks = some c) : y.copy = some c := by
  cases y <;> simp_all [locks, copy]

lemma copy_of_owns (h : y.owns = some c) : y.copy = some c := by
  cases y <;> simp_all [owns, copy]

lemma copy_of_tries (h : y.tries = some c) : y.copy = some c := by
  cases y <;> simp_all [tries, copy]

lemma locks_of_clears (h : y.clears = some c) : y.locks = some c := by
  cases y <;> simp_all [clears, locks]

lemma knows_of_not_locks (h : y.locks ≠ some c) (hy : y.copy = some c) : y.knows = none := by
  cases y <;> simp_all [locks, copy, knows]

lemma clears_of_not_locks (h : y.locks ≠ some c) : y.clears ≠ some c :=
  fun hy => h (locks_of_clears hy)

end Client

/-- Only the client inside the critical section knows whether its copy is evicted. -/
lemma Inv.bystander (h : Inv s) (hk : s.clients.lookup k = some y)
    (hc : s.copies c = some x) (hy : y.locks = some c) {l : ℕ}
    (hl : s.clients.lookup l = some z) (hne : l ≠ k)
    (hz : z.copy = some c) : z.knows = none ∧ z.clears ≠ some c := by
  have hlocks : z.locks ≠ some c := fun h' => hne (h.exclusive hk hc hy hl h')
  exact ⟨Client.knows_of_not_locks hlocks hz, Client.clears_of_not_locks hlocks⟩

lemma Inv.copies_of_client (h : Inv s) (hk : s.clients.lookup k = some y)
    (hy : y.copy = some c) : ∃ x, s.copies c = some x := by
  obtain ⟨x, hx, -⟩ := (h.clients k y c hk hy).copy
  exact ⟨x, hx⟩

lemma clientOk_of_idle (hc : s.copies c = some x) (hino : x.ino = z.ino) (hknows : z.knows = none)
    (hclears : z.clears ≠ some c) : ClientOk s z c where
  copy := ⟨x, hc, hino, by simp [hknows]⟩
  filled j hj := by
    rw [hj] at hknows
    contradiction
  mapped hz := absurd hz hclears

/-- What client `k` does concerns the copy `c` alone. -/
structure Turn (s s' : State) (k c : ℕ) : Prop where
  others : ∀ l, l ≠ k → s'.clients.lookup l = s.clients.lookup l
  before : ∀ y, s.clients.lookup k = some y → ∀ d, y.copy = some d → d = c
  after : ∀ y, s'.clients.lookup k = some y → ∀ d, y.copy = some d → d = c
  counts : ∀ d, d ≠ c → outstanding s'.clients d = outstanding s.clients d
  copies : ∀ d, d ≠ c → s'.copies d = s.copies d
  next : s.nextCopy ≤ s'.nextCopy
  mapped : ∀ j d, d ≠ c → (s'.openCopies j = some d ↔ s.openCopies j = some d)
  present : ∀ j d, d ≠ c → s.openCopies j = some d → s'.present j = s.present j

lemma Turn.client_iff (ht : Turn s s' k c) {d : ℕ} (hd : d ≠ c) {P : Client → Prop}
    (hP : ∀ y, P y → y.copy = some d) (l : ℕ) :
    (∃ y, s'.clients.lookup l = some y ∧ P y) ↔ ∃ y, s.clients.lookup l = some y ∧ P y := by
  by_cases hl : l = k
  · subst hl
    constructor
    · rintro ⟨y, hy, hp⟩
      exact absurd (ht.after y hy d (hP y hp)) hd
    · rintro ⟨y, hy, hp⟩
      exact absurd (ht.before y hy d (hP y hp)) hd
  · rw [ht.others l hl]

lemma Turn.copyOk (ht : Turn s s' k c) {d : ℕ} (hd : d ≠ c) (hx : CopyOk s d x) :
    CopyOk s' d x where
  fresh := hx.fresh.trans_le ht.next
  refs := hx.refs.trans (ht.counts d hd).symm
  gone := hx.gone
  mapped hlive := (ht.mapped _ d hd).mpr (hx.mapped hlive)
  pulled := hx.pulled
  present hlive hp := (ht.present _ d hd (hx.mapped hlive)).trans (hx.present hlive hp)
  locked l := (hx.locked l).trans (ht.client_iff hd (fun _ => Client.copy_of_locks) l).symm
  tried hlive hr := by
    obtain ⟨l, y, hy⟩ := hx.tried hlive hr
    exact ⟨l, (ht.client_iff hd (fun _ => Client.copy_of_tries) l).mpr ⟨y, hy⟩⟩

lemma Turn.clientOk (ht : Turn s s' k c) (h : Inv s) {d : ℕ} (hd : d ≠ c)
    (hy : ClientOk s y d) : ClientOk s' y d where
  copy := by
    rw [ht.copies d hd]
    exact hy.copy
  filled j hj := by
    obtain ⟨x, hx, hino, hknows⟩ := hy.copy
    have hmap := (h.copies d x hx).mapped (hknows false (by rw [hj]; rfl))
    rw [hino, hj] at hmap
    exact (ht.present j d hd hmap).trans (hy.filled j hj)
  mapped hclears := (ht.mapped _ d hd).mpr (hy.mapped hclears)

lemma Inv.turn (h : Inv s) (ht : Turn s s' k c)
    (hcopy : ∀ x, s'.copies c = some x → CopyOk s' c x)
    (hclients : ∀ l y, s'.clients.lookup l = some y → y.copy = some c → ClientOk s' y c)
    (hmap : ∀ i, s'.openCopies i = some c → ∃ x, s'.copies c = some x ∧ x.ino = i ∧
      (x.evicted = true → ∃ k y, s'.clients.lookup k = some y ∧ y.clears = some c)) : Inv s' where
  copies d x hx := by
    by_cases hd : d = c
    · subst hd
      exact hcopy x hx
    · rw [ht.copies d hd] at hx
      exact ht.copyOk hd (h.copies d x hx)
  clients l y d hl hy := by
    by_cases hd : d = c
    · subst hd
      exact hclients l y hl hy
    · by_cases hlk : l = k
      · subst hlk
        exact absurd (ht.after y hl d hy) hd
      · rw [ht.others l hlk] at hl
        exact ht.clientOk h hd (h.clients l y d hl hy)
  map j d hj := by
    by_cases hd : d = c
    · subst hd
      exact hmap j hj
    · obtain ⟨x, hx, hino, hclears⟩ := h.map j d ((ht.mapped j d hd).mp hj)
      refine ⟨x, (ht.copies d hd).trans hx, hino, fun he => ?_⟩
      obtain ⟨l, y, hy⟩ := hclears he
      exact ⟨l, (ht.client_iff hd (fun y hy => Client.copy_of_locks (Client.locks_of_clears hy))
        l).mpr ⟨y, hy⟩⟩

/-- Client `k` goes on from `y` to `z`, and leaves the copy `c` as `x'`. -/
structure Moves (s s' : State) (k c : ℕ) (y z : Client) (x' : Copy) : Prop where
  client : s.clients.lookup k = some y
  clients : s'.clients = s.clients.insert k z
  before : ∀ d, y.copy = some d → d = c
  after : ∀ d, z.copy = some d → d = c
  copies : s'.copies = Function.update s.copies c (some x')
  next : s'.nextCopy = s.nextCopy
  mapped : ∀ j d, d ≠ c → (s'.openCopies j = some d ↔ s.openCopies j = some d)
  present : ∀ j, s.openCopies j ≠ some c → s'.present j = s.present j

lemma Moves.self (hm : Moves s s' k c y z x') : s'.clients.lookup k = some z := by
  rw [hm.clients]
  simp

lemma Moves.others (hm : Moves s s' k c y z x') {l : ℕ} (hl : l ≠ k) :
    s'.clients.lookup l = s.clients.lookup l := by
  rw [hm.clients]
  simp [hl]

lemma Moves.copy (hm : Moves s s' k c y z x') : s'.copies c = some x' := by
  rw [hm.copies]
  simp

lemma Moves.count (hm : Moves s s' k c y z x') : outstanding s'.clients c +
    (if y.owns = some c then 1 else 0) =
      outstanding s.clients c + if z.owns = some c then 1 else 0 := by
  rw [hm.clients]
  exact outstanding_insert z hm.client c

lemma Moves.turn (hm : Moves s s' k c y z x') : Turn s s' k c where
  others _ hl := hm.others hl
  before w hw := by
    obtain rfl := Option.some.inj (hm.client.symm.trans hw)
    exact hm.before
  after w hw := by
    obtain rfl := Option.some.inj (hm.self.symm.trans hw)
    exact hm.after
  counts d hd := by
    have hcount := outstanding_insert z hm.client d
    rw [if_neg fun hy => hd (hm.before d (Client.copy_of_owns hy)),
      if_neg fun hz => hd (hm.after d (Client.copy_of_owns hz)), ← hm.clients] at hcount
    exact hcount
  copies d hd := by
    rw [hm.copies]
    exact Function.update_of_ne hd _ _
  next := hm.next.ge
  mapped := hm.mapped
  present j d hd hj := hm.present j fun hj' => hd (Option.some.inj (hj.symm.trans hj'))

lemma Moves.locked (hm : Moves s s' k c y z x') (hx : CopyOk s c x)
    (hothers : ∀ l, l ≠ k → (x'.lock = some l ↔ x.lock = some l))
    (hself : x'.lock = some k ↔ z.locks = some c) (l : ℕ) :
    x'.lock = some l ↔ ∃ y, s'.clients.lookup l = some y ∧ y.locks = some c := by
  by_cases hl : l = k
  · subst hl
    rw [hm.self, hself]
    simp
  · rw [hothers l hl, hx.locked l, hm.others hl]

lemma Moves.tried (hm : Moves s s' k c y z x')
    (hyz : y.tries = some c → z.tries = some c)
    (h : ∃ l w, s.clients.lookup l = some w ∧ w.tries = some c) :
    ∃ l w, s'.clients.lookup l = some w ∧ w.tries = some c := by
  obtain ⟨l, w, hl, hw⟩ := h
  by_cases hlk : l = k
  · subst hlk
    obtain rfl := Option.some.inj (hm.client.symm.trans hl)
    exact ⟨l, z, hm.self, hyz hw⟩
  · exact ⟨l, w, (hm.others hlk).trans hl, hw⟩

lemma Inv.inside (h : Inv s) (hm : Moves s s' k c y z x') (hy : y.locks = some c)
    (hc : s.copies c = some x) (hino : x'.ino = x.ino)
    (hmapped : ∀ j, s'.openCopies j = some c → s.openCopies j = some c)
    (hok : CopyOk s' c x') (hself : z.copy = some c → ClientOk s' z c)
    (hclears : s'.openCopies x.ino = some c → x'.evicted = true → z.clears = some c) :
    Inv s' := by
  apply h.turn hm.turn
  · intro w hw
    obtain rfl := Option.some.inj (hm.copy.symm.trans hw)
    exact hok
  · intro l w hl hw
    by_cases hlk : l = k
    · subst hlk
      obtain rfl := Option.some.inj (hm.self.symm.trans hl)
      exact hself hw
    · rw [hm.others hlk] at hl
      obtain ⟨hknows, hclears⟩ := h.bystander hm.client hc hy hl hlk hw
      exact clientOk_of_idle hm.copy (hino.trans (h.ino_eq hl hc hw)) hknows hclears
  · intro j hj
    obtain ⟨w, hw, hinow, -⟩ := h.map j c (hmapped j hj)
    obtain rfl := Option.some.inj (hc.symm.trans hw)
    exact ⟨x', hm.copy, hino.trans hinow, fun he => ⟨k, z, hm.self, hclears (hinow ▸ hj) he⟩⟩

lemma Inv.outside (h : Inv s) {lock : Option ℕ}
    (hm : Moves s s' k c y z { x with lock }) (hc : s.copies c = some x)
    (hopen : s'.openCopies = s.openCopies) (hpresent : s'.present = s.present)
    (hy : y.clears ≠ some c) (howns : y.owns = some c ↔ z.owns = some c)
    (htries : y.tries = some c → z.tries = some c)
    (hothers : ∀ l, l ≠ k → (lock = some l ↔ x.lock = some l))
    (hlock : lock = some k ↔ z.locks = some c)
    (hz : z.copy = some c → x.ino = z.ino ∧ z.knows = none ∧ z.clears ≠ some c) : Inv s' := by
  have hx := h.copies c x hc
  apply h.turn hm.turn
  · intro w hw
    obtain rfl := Option.some.inj (hm.copy.symm.trans hw)
    refine ⟨hm.next ▸ hx.fresh, ?_, hx.gone, hopen ▸ hx.mapped, hx.pulled, hpresent ▸ hx.present,
      hm.locked hx hothers hlock, fun hlive hr => hm.tried htries (hx.tried hlive hr)⟩
    have hcount := hm.count
    simp only [howns] at hcount
    exact hx.refs.trans (Nat.add_right_cancel hcount).symm
  · intro l w hl hw
    by_cases hlk : l = k
    · subst hlk
      obtain rfl := Option.some.inj (hm.self.symm.trans hl)
      obtain ⟨hino, hknows, hclears⟩ := hz hw
      exact clientOk_of_idle hm.copy hino hknows hclears
    · rw [hm.others hlk] at hl
      obtain ⟨⟨w', hw', hino, hknows⟩, hfilled, hmapped⟩ := h.clients l w c hl hw
      obtain rfl := Option.some.inj (hc.symm.trans hw')
      exact ⟨⟨_, hm.copy, hino, hknows⟩, hpresent ▸ hfilled, hopen ▸ hmapped⟩
  · intro j hj
    rw [hopen] at hj
    obtain ⟨w, hw, hino, hclears⟩ := h.map j c hj
    obtain rfl := Option.some.inj (hc.symm.trans hw)
    refine ⟨_, hm.copy, hino, fun he => ?_⟩
    obtain ⟨l, v, hl, hv⟩ := hclears he
    have hlk : l ≠ k := by
      rintro rfl
      obtain rfl := Option.some.inj (hm.client.symm.trans hl)
      exact hy hv
    exact ⟨l, v, (hm.others hlk).trans hl, hv⟩

lemma moves_setCopy (hk : s.clients.lookup k = some y) (hbefore : ∀ d, y.copy = some d → d = c)
    (hafter : ∀ d, z.copy = some d → d = c) :
    Moves s ((s.setCopy c x').goto k z) k c y z x' :=
  ⟨hk, rfl, hbefore, hafter, rfl, rfl, fun _ _ _ => Iff.rfl, fun _ _ => rfl⟩

lemma update_copies (hc : s.copies c = some x) : s.copies = Function.update s.copies c (some x) := by
  rw [← hc, Function.update_eq_self]

lemma moves_goto (hk : s.clients.lookup k = some y) (hbefore : ∀ d, y.copy = some d → d = c)
    (hafter : ∀ d, z.copy = some d → d = c) (hc : s.copies c = some x) :
    Moves s (s.goto k z) k c y z x :=
  ⟨hk, rfl, hbefore, hafter, update_copies hc, rfl, fun _ _ _ => Iff.rfl, fun _ _ => rfl⟩

lemma moves_setPresent (b : Bool) (hk : s.clients.lookup k = some y)
    (hbefore : ∀ d, y.copy = some d → d = c) (hafter : ∀ d, z.copy = some d → d = c)
    (hc : s.copies c = some x) (hi : s.openCopies i = some c) :
    Moves s ((s.setPresent i b).goto k z) k c y z x := by
  refine ⟨hk, rfl, hbefore, hafter, update_copies hc, rfl, fun _ _ _ => Iff.rfl, fun j hj => ?_⟩
  have hji : j ≠ i := by
    rintro rfl
    exact hj hi
  simp [hji]

lemma eq_of_some {d : ℕ} (h : some c = some d) : d = c := (Option.some.inj h).symm

lemma Inv.unborn (h : Inv s) : s.copies s.nextCopy = none := by
  by_contra hne
  obtain ⟨x, hx⟩ := Option.ne_none_iff_exists'.mp hne
  exact lt_irrefl _ (h.copies _ x hx).fresh

lemma Inv.copy_ne_next (h : Inv s) (hk : s.clients.lookup k = some y) : y.copy ≠ some s.nextCopy := by
  intro hy
  obtain ⟨x, hx⟩ := h.copies_of_client hk hy
  simp [h.unborn] at hx

lemma Inv.openCopies_ne_next (h : Inv s) : s.openCopies i ≠ some s.nextCopy := by
  intro hi
  obtain ⟨x, hx, -⟩ := h.map i _ hi
  simp [h.unborn] at hx

lemma Inv.acquire (h : Inv s) (hk : s.clients.lookup k = none) :
    Inv (s.goto k (.acquires i init)) := by
  have hturn : Turn s (s.goto k (.acquires i init)) k s.nextCopy := by
    refine ⟨fun l hl => by simp [hl], fun y hy => by simp [hk] at hy, fun y hy d hd => ?_,
      fun d _ => ?_, fun _ _ => rfl, le_rfl, fun _ _ _ => Iff.rfl, fun _ _ _ _ => rfl⟩
    · obtain rfl : Client.acquires i init = y := by simpa using hy
      simp [Client.copy] at hd
    · simp [outstanding, Table.count_insert _ _ hk, Client.owns]
  apply h.turn hturn
  · exact fun x hx => absurd hx (by simp [h.unborn])
  · intro l y hl hy
    by_cases hlk : l = k
    · subst hlk
      obtain rfl : Client.acquires i init = y := by simpa using hl
      simp [Client.copy] at hy
    · exact absurd hy (h.copy_ne_next ((hturn.others l hlk).symm.trans hl))
  · exact fun j hj => absurd hj h.openCopies_ne_next

lemma Inv.entry (h : Inv s) (hk : s.clients.lookup k = some (.acquires i init))
    (hi : s.openCopies i = some c) : Inv (s.goto k (.waits i init c)) := by
  obtain ⟨x, hc, hino, -⟩ := h.map i c hi
  have hm : Moves s (s.goto k (.waits i init c)) k c _ _ { x with lock := x.lock } :=
    moves_goto hk (fun _ hd => nomatch hd) (fun _ => eq_of_some) hc
  apply h.outside hm hc rfl rfl (by simp [Client.clears]) (by simp [Client.owns])
    (by simp [Client.tries]) (fun _ _ => Iff.rfl)
  · rw [(h.copies c x hc).locked k]
    simp [hk, Client.locks]
  · exact fun _ => ⟨hino, rfl, by simp [Client.clears]⟩

lemma Inv.insert (h : Inv s) (hk : s.clients.lookup k = some (.acquires i init))
    (hi : s.openCopies i = none) :
    Inv ({ s.setCopy s.nextCopy (.new i) with
        openCopies := Function.update s.openCopies i (some s.nextCopy)
        nextCopy := s.nextCopy + 1 }.goto k (.waits i init s.nextCopy)) := by
  generalize ht : ({ s.setCopy s.nextCopy (.new i) with
        openCopies := Function.update s.openCopies i (some s.nextCopy)
        nextCopy := s.nextCopy + 1 }.goto k (.waits i init s.nextCopy)) = t
  have hclients : t.clients = s.clients.insert k (.waits i init s.nextCopy) := by rw [← ht]; rfl
  have hself : t.clients.lookup k = some (.waits i init s.nextCopy) := by simp [hclients]
  have hopen : ∀ j, t.openCopies j = if j = i then some s.nextCopy else s.openCopies j := by
    simp [← ht]
  have hcopy : t.copies s.nextCopy = some (.new i) := by simp [← ht]
  have hcount := outstanding_insert (.waits i init s.nextCopy) hk
  rw [← hclients] at hcount
  have hturn : Turn s t k s.nextCopy := by
    refine ⟨fun l hl => by simp [hclients, hl], fun y hy d hd => ?_, fun y hy d hd => ?_,
      fun d _ => ?_, fun d hd => by simp [← ht, hd], by simp [← ht], fun j d hd => ?_,
      fun _ _ _ _ => by simp [← ht]⟩
    · obtain rfl := Option.some.inj (hk.symm.trans hy)
      simp [Client.copy] at hd
    · obtain rfl := Option.some.inj (hself.symm.trans hy)
      exact eq_of_some hd
    · simpa [Client.owns] using hcount d
    · rw [hopen]
      split_ifs with hj
      · simp [hj, hi, hd.symm]
      · rfl
  have hlocks : ∀ l y, t.clients.lookup l = some y → y.locks ≠ some s.nextCopy := by
    intro l y hl hy
    by_cases hlk : l = k
    · subst hlk
      obtain rfl := Option.some.inj (hself.symm.trans hl)
      simp [Client.locks] at hy
    · exact h.copy_ne_next ((hturn.others l hlk).symm.trans hl) (Client.copy_of_locks hy)
  have hzero : outstanding t.clients s.nextCopy = 0 := by
    refine (Table.count_eq_zero _).mpr fun l y hl => decide_eq_false fun hy => ?_
    by_cases hlk : l = k
    · subst hlk
      obtain rfl := Option.some.inj (hself.symm.trans hl)
      simp [Client.owns] at hy
    · exact h.copy_ne_next ((hturn.others l hlk).symm.trans hl) (Client.copy_of_owns hy)
  apply h.turn hturn
  · intro x hx
    obtain rfl := Option.some.inj (hcopy.symm.trans hx)
    refine ⟨by simp [← ht], hzero.symm, fun _ => rfl, fun _ => by simp [hopen, Copy.new],
      fun _ => by simp [Copy.new], by simp [Copy.new], fun l => ?_, fun _ _ => ⟨k, _, hself, rfl⟩⟩
    simp only [Copy.new, reduceCtorEq, false_iff, not_exists, not_and]
    exact hlocks l
  · intro l y hl hy
    by_cases hlk : l = k
    · subst hlk
      obtain rfl := Option.some.inj (hself.symm.trans hl)
      exact clientOk_of_idle hcopy rfl rfl (by simp [Client.clears])
    · exact absurd hy (h.copy_ne_next ((hturn.others l hlk).symm.trans hl))
  · intro j hj
    rw [hopen] at hj
    split_ifs at hj with hji
    · exact ⟨_, hcopy, hji.symm, by simp [Copy.new]⟩
    · exact absurd hj h.openCopies_ne_next

lemma Inv.lock (h : Inv s) (hk : s.clients.lookup k = some (.waits i init c))
    (hc : s.copies c = some x) (hl : x.lock = none) :
    Inv ((s.setCopy c { x with lock := some k }).goto k (.checks i init c)) := by
  have hino := h.ino_eq hk hc rfl
  have hm : Moves s _ k c _ (.checks i init c) { x with lock := some k } :=
    moves_setCopy hk (fun _ => eq_of_some) fun _ => eq_of_some
  apply h.outside hm hc rfl rfl
    (by simp [Client.clears]) (by simp [Client.owns]) (by simp [Client.tries])
  · exact fun l hlk => by simp [hl, hlk.symm]
  · simp [Client.locks]
  · exact fun _ => ⟨hino, rfl, by simp [Client.clears]⟩

lemma Inv.release (h : Inv s) (hk : s.clients.lookup k = some (.holds i c)) :
    Inv (s.goto k (.releases i c)) := by
  obtain ⟨x, hc⟩ := h.copies_of_client hk rfl
  have hino : x.ino = i := h.ino_eq hk hc rfl
  have hm : Moves s (s.goto k (.releases i c)) k c _ _ { x with lock := x.lock } :=
    moves_goto hk (fun _ => eq_of_some) (fun _ => eq_of_some) hc
  apply h.outside hm hc rfl rfl (by simp [Client.clears]) (by simp [Client.owns])
    (by simp [Client.tries]) (fun _ _ => Iff.rfl)
  · rw [(h.copies c x hc).locked k]
    simp [hk, Client.locks]
  · exact fun _ => ⟨hino, rfl, by simp [Client.clears]⟩

lemma Inv.lockRelease (h : Inv s) (hk : s.clients.lookup k = some (.releases i c))
    (hc : s.copies c = some x) (hl : x.lock = none) :
    Inv ((s.setCopy c { x with lock := some k }).goto k (.drops i c)) := by
  have hino := h.ino_eq hk hc rfl
  have hm : Moves s _ k c _ (.drops i c) { x with lock := some k } :=
    moves_setCopy hk (fun _ => eq_of_some) fun _ => eq_of_some
  apply h.outside hm hc rfl rfl
    (by simp [Client.clears]) (by simp [Client.owns]) (by simp [Client.tries])
  · exact fun l hlk => by simp [hl, hlk.symm]
  · simp [Client.locks]
  · exact fun _ => ⟨hino, rfl, by simp [Client.clears]⟩

lemma Moves.gone (hm : Moves s s' k c y z x') (hx : CopyOk s c x) (he : x'.evicted = true)
    (hr : x'.refs = 0) (hrefs : x.refs + (if z.owns = some c then 1 else 0) =
      x'.refs + if y.owns = some c then 1 else 0)
    (hothers : ∀ l, l ≠ k → (x'.lock = some l ↔ x.lock = some l))
    (hself : x'.lock = some k ↔ z.locks = some c) : CopyOk s' c x' where
  fresh := hm.next ▸ hx.fresh
  refs := by
    have hcount := hm.count
    rw [← hx.refs, hrefs] at hcount
    exact (Nat.add_right_cancel hcount).symm
  gone _ := hr
  mapped hlive := absurd (he.symm.trans hlive) (by simp)
  pulled hlive := absurd (he.symm.trans hlive) (by simp)
  present hlive := absurd (he.symm.trans hlive) (by simp)
  locked := hm.locked hx hothers hself
  tried hlive := absurd (he.symm.trans hlive) (by simp)

lemma Inv.retry (h : Inv s) (hk : s.clients.lookup k = some (.checks i init c))
    (hc : s.copies c = some x) (he : x.evicted = true) :
    Inv ((s.setCopy c { x with lock := none }).goto k (.acquires i init)) := by
  have hm : Moves s _ k c _ (.acquires i init) { x with lock := none } :=
    moves_setCopy hk (fun _ => eq_of_some) fun _ hd => nomatch hd
  have hx := h.copies c x hc
  have hlock := h.lock_eq hk hc rfl
  refine h.inside hm rfl hc rfl (fun _ hj => hj) ?_ (fun hz => nomatch hz) fun hmap _ => ?_
  · exact hm.gone hx he (hx.gone he) rfl (fun l hl => by simp [hlock, hl.symm])
      (by simp [Client.locks])
  · -- whoever clears the copy would be inside its critical section with `k`
    obtain ⟨w, hw, -, hclears⟩ := h.map _ c hmap
    obtain rfl := Option.some.inj (hc.symm.trans hw)
    obtain ⟨l, v, hl, hv⟩ := hclears he
    obtain rfl := h.exclusive hk hc rfl hl (Client.locks_of_clears hv)
    obtain rfl := Option.some.inj (hk.symm.trans hl)
    simp [Client.clears] at hv

/-- A copy that stays in use is mapped, and its file is there once it has been pulled. -/
lemma Moves.live (hm : Moves s s' k c y z x') (hx : CopyOk s c x) (he : x'.evicted = x.evicted)
    (hmap : x.evicted = false → s'.openCopies x'.ino = some c)
    (hrefs : x.refs + (if z.owns = some c then 1 else 0) =
      x'.refs + if y.owns = some c then 1 else 0)
    (hgone : x.evicted = true → x'.refs = 0)
    (hpulled : x.evicted = false → (x'.pulled = true ↔ 0 < x'.refs))
    (hpresent : x.evicted = false → x'.pulled = true → s'.present x'.ino = true)
    (hothers : ∀ l, l ≠ k → (x'.lock = some l ↔ x.lock = some l))
    (hself : x'.lock = some k ↔ z.locks = some c)
    (htried : x.evicted = false → x'.refs = 0 → z.tries = some c) : CopyOk s' c x' where
  fresh := hm.next ▸ hx.fresh
  refs := by
    have hcount := hm.count
    rw [← hx.refs, hrefs] at hcount
    exact (Nat.add_right_cancel hcount).symm
  gone hgone' := hgone (he ▸ hgone')
  mapped hlive := hmap (he ▸ hlive)
  pulled hlive := hpulled (he ▸ hlive)
  present hlive := hpresent (he ▸ hlive)
  locked := hm.locked hx hothers hself
  tried hlive hr := ⟨k, z, hm.self, htried (he ▸ hlive) hr⟩

lemma Inv.populate (h : Inv s) (hk : s.clients.lookup k = some (.checks i init c))
    (hc : s.copies c = some x) (he : x.evicted = false) {after : Bool}
    (hp : Populates init x.pulled (s.present i) after true) :
    Inv ((s.setPresent i after).goto k (.populated i c)) := by
  have hx := h.copies c x hc
  have hlock := h.lock_eq hk hc rfl
  have hino : x.ino = i := h.ino_eq hk hc rfl
  have hmap := hx.mapped he
  rw [hino] at hmap
  have hafter : after = true := by
    have hpresent := hx.present he
    rw [hino] at hpresent
    generalize x.pulled = b at hp hpresent
    cases hp with
    | create => rfl
    | pull => rfl
    | shared => exact hpresent rfl
  have hm : Moves s _ k c _ (.populated i c) x :=
    moves_setPresent after hk (fun _ => eq_of_some) (fun _ => eq_of_some) hc hmap
  refine h.inside hm rfl hc rfl (fun _ hj => hj) ?_ (fun _ => ?_) fun _ hgone => ?_
  · refine hm.live hx rfl (fun _ => hino ▸ hmap) rfl hx.gone hx.pulled (fun _ _ => ?_)
      (fun _ _ => Iff.rfl) (by simp [hlock, Client.locks]) fun _ _ => rfl
    simp [hino, hafter]
  · refine ⟨⟨x, hm.copy, hino, by simp [Client.knows, he]⟩, fun j hj => ?_, by simp [Client.clears]⟩
    obtain rfl := (Client.populated.inj hj).1
    simp [hafter]
  · exact absurd (he.symm.trans hgone) (by simp)

lemma Inv.populateFails (h : Inv s) (hk : s.clients.lookup k = some (.checks i init c))
    (hc : s.copies c = some x) (he : x.evicted = false) {after : Bool}
    (hp : Populates init x.pulled (s.present i) after false) :
    Inv ((s.setPresent i after).goto k (.failed i c)) := by
  have hx := h.copies c x hc
  have hlock := h.lock_eq hk hc rfl
  have hino : x.ino = i := h.ino_eq hk hc rfl
  have hmap := hx.mapped he
  rw [hino] at hmap
  have hafter : x.pulled = true → after = s.present i := by
    generalize x.pulled = b at hp
    cases hp <;> simp
  have hm : Moves s _ k c _ (.failed i c) x :=
    moves_setPresent after hk (fun _ => eq_of_some) (fun _ => eq_of_some) hc hmap
  refine h.inside hm rfl hc rfl (fun _ hj => hj) ?_ (fun _ => ?_) fun _ hgone => ?_
  · refine hm.live hx rfl (fun _ => hino ▸ hmap) rfl hx.gone hx.pulled (fun _ hpulled => ?_)
      (fun _ _ => Iff.rfl) (by simp [hlock, Client.locks]) fun _ _ => rfl
    have hpresent := hx.present he hpulled
    rw [hino] at hpresent
    simp [hino, hafter hpulled, hpresent]
  · exact ⟨⟨x, hm.copy, hino, by simp [Client.knows, he]⟩, by simp,
      by simp [Client.clears]⟩
  · exact absurd (he.symm.trans hgone) (by simp)

lemma Inv.acquired (h : Inv s) (hk : s.clients.lookup k = some (.populated i c))
    (hc : s.copies c = some x) : Inv ((s.setCopy c
        { x with pulled := true, refs := x.refs + 1, lock := none }).goto k (.holds i c)) := by
  have hx := h.copies c x hc
  have hlock := h.lock_eq hk hc rfl
  have hino : x.ino = i := h.ino_eq hk hc rfl
  have hlive : x.evicted = false := h.evicted_eq hk hc rfl rfl
  have hm : Moves s _ k c _ (.holds i c) { x with pulled := true, refs := x.refs + 1, lock := none } :=
    moves_setCopy hk (fun _ => eq_of_some) fun _ => eq_of_some
  refine h.inside hm rfl hc rfl (fun _ hj => hj) ?_ (fun _ => ?_) fun _ hgone => ?_
  · refine hm.live hx rfl hx.mapped ?_ (fun hgone => absurd (hlive.symm.trans hgone) (by simp))
      (fun _ => by simp) (fun _ _ => ?_) (fun l hl => by simp [hlock, hl.symm])
      (by simp [Client.locks]) fun _ hr => absurd hr (Nat.succ_ne_zero _)
    · simp [Client.owns]
    · exact hino ▸ (h.clients k _ c hk rfl).filled i rfl
  · exact clientOk_of_idle hm.copy hino rfl (by simp [Client.clears])
  · exact absurd (hlive.symm.trans hgone) (by simp)

lemma Inv.evict (h : Inv s) (hk : s.clients.lookup k = some (.failed i c))
    (hc : s.copies c = some x) (h0 : x.refs = 0) :
    Inv ((s.setCopy c { x with evicted := true }).goto k (.removes i c)) := by
  have hx := h.copies c x hc
  have hlock := h.lock_eq hk hc rfl
  have hino : x.ino = i := h.ino_eq hk hc rfl
  have hmap := hx.mapped (h.evicted_eq hk hc rfl rfl)
  have hm : Moves s _ k c _ (.removes i c) { x with evicted := true } :=
    moves_setCopy hk (fun _ => eq_of_some) fun _ => eq_of_some
  refine h.inside hm rfl hc rfl (fun _ hj => hj) ?_ (fun _ => ?_) fun _ _ => rfl
  · exact hm.gone hx rfl h0 rfl (fun _ _ => Iff.rfl) (by simp [hlock, Client.locks])
  · exact ⟨⟨_, hm.copy, hino, by simp [Client.knows]⟩, by simp, fun _ => hino ▸ hmap⟩

lemma Inv.keep (h : Inv s) (hk : s.clients.lookup k = some (.failed i c)) (hc : s.copies c = some x)
    (h0 : x.refs ≠ 0) : Inv (s.goto k (.leaves i c)) := by
  have hx := h.copies c x hc
  have hino : x.ino = i := h.ino_eq hk hc rfl
  have hlock := h.lock_eq hk hc rfl
  have hlive : x.evicted = false := h.evicted_eq hk hc rfl rfl
  have hm : Moves s _ k c _ (.leaves i c) x :=
    moves_goto hk (fun _ => eq_of_some) (fun _ => eq_of_some) hc
  refine h.inside hm rfl hc rfl (fun _ hj => hj) ?_ (fun _ => ?_) fun _ hgone => ?_
  · exact hm.live hx rfl hx.mapped rfl hx.gone hx.pulled hx.present (fun _ _ => Iff.rfl)
      (by simp [hlock, Client.locks]) fun _ hr => absurd hr h0
  · exact clientOk_of_idle hm.copy hino rfl (by simp [Client.clears])
  · exact absurd (hlive.symm.trans hgone) (by simp)

lemma Inv.refs_pos (h : Inv s) (hk : s.clients.lookup k = some y)
    (hc : s.copies c = some x) (hy : y.owns = some c) : 0 < x.refs := by
  rw [(h.copies c x hc).refs]
  exact Table.count_pos _ hk (by simpa using hy)

lemma Inv.not_evicted (h : Inv s) (hc : s.copies c = some x) (hr : 0 < x.refs) :
    x.evicted = false := by
  by_contra he
  have := (h.copies c x hc).gone (by simpa using he)
  omega

lemma Inv.drop (h : Inv s) (hk : s.clients.lookup k = some (.drops i c)) (hc : s.copies c = some x)
    (h0 : x.refs - 1 ≠ 0) :
    Inv ((s.setCopy c { x with refs := x.refs - 1 }).goto k (.leaves i c)) := by
  have hx := h.copies c x hc
  have hino : x.ino = i := h.ino_eq hk hc rfl
  have hlock := h.lock_eq hk hc rfl
  have hpos := h.refs_pos hk hc rfl
  have hlive := h.not_evicted hc hpos
  have hm : Moves s _ k c _ (.leaves i c) { x with refs := x.refs - 1 } :=
    moves_setCopy hk (fun _ => eq_of_some) fun _ => eq_of_some
  refine h.inside hm rfl hc rfl (fun _ hj => hj) ?_ (fun _ => ?_) fun _ hgone => ?_
  · refine hm.live hx rfl hx.mapped ?_ (fun hgone => absurd (hlive.symm.trans hgone) (by simp))
      (fun _ => ?_) hx.present (fun _ _ => Iff.rfl) (by simp [hlock, Client.locks])
      fun _ hr => absurd hr h0
    · simp only [Client.owns, reduceCtorEq, if_false, if_true]
      omega
    · exact (hx.pulled hlive).trans ⟨fun _ => Nat.pos_of_ne_zero h0, fun _ => hpos⟩
  · exact clientOk_of_idle hm.copy hino rfl (by simp [Client.clears])
  · exact absurd (hlive.symm.trans hgone) (by simp)

lemma Inv.dropLast (h : Inv s) (hk : s.clients.lookup k = some (.drops i c))
    (hc : s.copies c = some x) (h0 : x.refs - 1 = 0) :
    Inv ((s.setCopy c { x with refs := x.refs - 1, evicted := true }).goto k (.deletes i c)) := by
  have hx := h.copies c x hc
  have hlock := h.lock_eq hk hc rfl
  have hino : x.ino = i := h.ino_eq hk hc rfl
  have hpos := h.refs_pos hk hc rfl
  have hmap := hx.mapped (h.not_evicted hc hpos)
  have hm : Moves s _ k c _ (.deletes i c) { x with refs := x.refs - 1, evicted := true } :=
    moves_setCopy hk (fun _ => eq_of_some) fun _ => eq_of_some
  refine h.inside hm rfl hc rfl (fun _ hj => hj) ?_ (fun _ => ?_) fun _ _ => rfl
  · refine hm.gone hx rfl h0 ?_ (fun _ _ => Iff.rfl) (by simp [hlock, Client.locks])
    simp only [Client.owns, reduceCtorEq, if_false, if_true]
    omega
  · exact ⟨⟨_, hm.copy, hino, by simp [Client.knows]⟩, by simp, fun _ => hino ▸ hmap⟩

lemma Inv.delete (h : Inv s) (hk : s.clients.lookup k = some (.deletes i c)) :
    Inv ((s.setPresent i false).goto k (.removes i c)) := by
  obtain ⟨x, hc⟩ := h.copies_of_client hk rfl
  have hx := h.copies c x hc
  have hgone : x.evicted = true := h.evicted_eq hk hc rfl rfl
  have hino : x.ino = i := h.ino_eq hk hc rfl
  have hlock := h.lock_eq hk hc rfl
  have hmap := (h.clients k _ c hk rfl).mapped rfl
  have hm : Moves s _ k c _ (.removes i c) x :=
    moves_setPresent false hk (fun _ => eq_of_some) (fun _ => eq_of_some) hc hmap
  refine h.inside hm rfl hc rfl (fun _ hj => hj) ?_ (fun _ => ?_) fun _ _ => rfl
  · exact hm.gone hx hgone (hx.gone hgone) rfl (fun _ _ => Iff.rfl) (by simp [hlock, Client.locks])
  · exact ⟨⟨x, hm.copy, hino, by simp [Client.knows, hgone]⟩, by simp, fun _ => hmap⟩

lemma Inv.remove (h : Inv s) (hk : s.clients.lookup k = some (.removes i c)) :
    Inv ({ s with
        openCopies := if s.openCopies i = some c then Function.update s.openCopies i none
          else s.openCopies }.goto k (.leaves i c)) := by
  obtain ⟨x, hc⟩ := h.copies_of_client hk rfl
  have hx := h.copies c x hc
  have hgone : x.evicted = true := h.evicted_eq hk hc rfl rfl
  have hino : x.ino = i := h.ino_eq hk hc rfl
  have hlock := h.lock_eq hk hc rfl
  have hmap : s.openCopies i = some c := (h.clients k _ c hk rfl).mapped rfl
  rw [if_pos hmap]
  have hopen : ∀ j d, Function.update s.openCopies i none j = some d →
      j ≠ i ∧ s.openCopies j = some d := by
    intro j d hj
    by_cases hji : j = i
    · simp [hji] at hj
    · exact ⟨hji, by simpa [hji] using hj⟩
  have hm : Moves s ({ s with openCopies := Function.update s.openCopies i none }.goto k
      (.leaves i c)) k c (.removes i c) (.leaves i c) x := by
    refine ⟨hk, rfl, fun _ => eq_of_some, fun _ => eq_of_some, update_copies hc, rfl,
      fun j d hd => ⟨fun hj => (hopen j d hj).2, fun hj => ?_⟩, fun _ _ => rfl⟩
    have hji : j ≠ i := by
      rintro rfl
      exact hd (Option.some.inj (hj.symm.trans hmap))
    simpa [hji] using hj
  refine h.inside hm rfl hc rfl (fun j hj => (hopen j c hj).2) ?_ (fun _ => ?_) fun hj _ => ?_
  · exact hm.gone hx hgone (hx.gone hgone) rfl (fun _ _ => Iff.rfl) (by simp [hlock, Client.locks])
  · exact clientOk_of_idle hm.copy hino rfl (by simp [Client.clears])
  · exact absurd hino (hopen _ c hj).1

lemma Inv.leave (h : Inv s) (hk : s.clients.lookup k = some (.leaves i c))
    (hc : s.copies c = some x) :
    Inv { s.setCopy c { x with lock := none } with clients := s.clients.erase k } := by
  have hx := h.copies c x hc
  have hlock := h.lock_eq hk hc rfl
  have hcount : ∀ d, outstanding (s.clients.erase k) d = outstanding s.clients d := by
    intro d
    simp [outstanding, Table.count_erase _ hk, Client.owns]
  have hlook : ∀ l y, (s.clients.erase k).lookup l = some y →
      l ≠ k ∧ s.clients.lookup l = some y := by
    intro l y hl
    rw [Table.lookup_erase_eq] at hl
    split_ifs at hl with hlk
    exact ⟨hlk, hl⟩
  have hother : ∀ l, l ≠ k → (s.clients.erase k).lookup l = s.clients.lookup l := by
    intro l hl
    rw [Table.lookup_erase_eq, if_neg hl]
  have hcopy : (s.setCopy c { x with lock := none }).copies c = some { x with lock := none } :=
    Function.update_self _ _ _
  have hself : (s.clients.erase k).lookup k = none := by rw [Table.lookup_erase_eq, if_pos rfl]
  -- `k` leaves without anything that another client could miss
  have hstays : ∀ l y, s.clients.lookup l = some y → y ≠ .leaves i c →
      (s.clients.erase k).lookup l = some y := by
    intro l y hl hy
    rwa [hother]
    rintro rfl
    exact hy (Option.some.inj (hl.symm.trans hk))
  have hturn : Turn s { s.setCopy c { x with lock := none } with clients := s.clients.erase k }
      k c := by
    refine ⟨hother, fun y hy => ?_, fun y hy => absurd hy (by simp [hself]), fun d _ => hcount d,
      fun d hd => by simp [hd], le_rfl, fun _ _ _ => Iff.rfl, fun _ _ _ _ => rfl⟩
    obtain rfl := Option.some.inj (hk.symm.trans hy)
    exact fun _ => eq_of_some
  apply h.turn hturn
  · intro w hw
    obtain rfl : { x with lock := none } = w := by simpa using hw
    refine ⟨hx.fresh, hx.refs.trans (hcount c).symm, hx.gone, hx.mapped, hx.pulled, hx.present,
      fun l => ?_, fun hlive hr => ?_⟩
    · simp only [reduceCtorEq, false_iff, not_exists, not_and]
      intro y hl hy
      obtain ⟨hlk, hl⟩ := hlook l y hl
      exact hlk (h.exclusive hk hc rfl hl hy)
    · obtain ⟨l, y, hl, hy⟩ := hx.tried hlive hr
      exact ⟨l, y, hstays l y hl (by rintro rfl; simp [Client.tries] at hy), hy⟩
  · intro l y hl hy
    obtain ⟨hlk, hl⟩ := hlook l y hl
    obtain ⟨hknows, hclears⟩ := h.bystander hk hc rfl hl hlk hy
    have hino : x.ino = y.ino := h.ino_eq hl hc hy
    exact clientOk_of_idle hcopy hino hknows hclears
  · intro j hj
    obtain ⟨w, hw, hino, hclears⟩ := h.map j c hj
    obtain rfl := Option.some.inj (hc.symm.trans hw)
    refine ⟨_, hcopy, hino, fun he => ?_⟩
    obtain ⟨l, y, hl, hy⟩ := hclears he
    exact ⟨l, y, hstays l y hl (by rintro rfl; simp [Client.clears] at hy), hy⟩

lemma Inv.step {s' : State} {a : Label} (h : Inv s) (hs : Step s a s') : Inv s' := by
  cases hs with
  | acquire hk => exact h.acquire hk
  | entry hk hc => exact h.entry hk hc
  | insert hk hc => exact h.insert hk hc
  | lock hk hc hl => exact h.lock hk hc hl
  | retry hk hc he => exact h.retry hk hc he
  | populate hk hc he hp => exact h.populate hk hc he hp
  | populateFails hk hc he hp => exact h.populateFails hk hc he hp
  | acquired hk hc => exact h.acquired hk hc
  | evict hk hc hr => exact h.evict hk hc hr
  | keep hk hc hr => exact h.keep hk hc hr
  | release hk => exact h.release hk
  | lockRelease hk hc hl => exact h.lockRelease hk hc hl
  | drop hk hc hr => exact h.drop hk hc hr
  | dropLast hk hc hr => exact h.dropLast hk hc hr
  | delete hk => exact h.delete hk
  | remove hk => exact h.remove hk
  | leave hk hc => exact h.leave hk hc

lemma Inv.stays_out {s' : State} {a : Label} (h : Inv s) (hs : Step s a s') (hc : s.copies c ≠ none)
    (hi : s.openCopies i ≠ some c) : s'.copies c ≠ none ∧ s'.openCopies i ≠ some c := by
  have hunborn := h.unborn
  cases hs <;> simp <;> grind

end Invariant

def Quiet (s : State) : Prop := ∀ k y, s.clients.lookup k = some y → ∃ i c, y = .holds i c

structure Protocol (s : State) : Prop where
  refs : ∀ c x, s.copies c = some x → x.refs = outstanding s.clients c
  refs_pos : ∀ k i c x, s.clients.lookup k = some (.drops i c) → s.copies c = some x → 0 < x.refs
  sole : ∀ c d x y, s.copies c = some x → s.copies d = some y → x.ino = y.ino →
    x.evicted = false → y.evicted = false → c = d
  mapped : ∀ c x, s.copies c = some x → 0 < x.refs →
    x.evicted = false ∧ s.openCopies x.ino = some c
  present : ∀ c x, s.copies c = some x → 0 < x.refs → s.present x.ino = true
  untouched : ∀ a s' i c, Step s a s' → a = .pulls i c ∨ a = .deletes i c →
    ∀ d y, s.copies d = some y → y.ino = i → y.refs = 0
  unmapped : ∀ c x, s.copies c = some x → x.evicted = true → x.lock = none →
    s.openCopies x.ino ≠ some c
  met_once : ∀ k i init c x, s.clients.lookup k = some (.checks i init c) →
    s.copies c = some x → x.evicted = true → ∀ t, Run Step Always s t → t.openCopies i ≠ some c
  quiet : Quiet s → ∀ i, s.openCopies i ≠ none ↔ ∃ k c, s.clients.lookup k = some (.holds i c)

section Protocol

variable {s : State} {k i c : ℕ} {x : Copy}

lemma Inv.live (h : Inv s) (hc : s.copies c = some x)
    (hr : 0 < x.refs) : x.evicted = false ∧ s.openCopies x.ino = some c := by
  have hlive : x.evicted = false := by
    by_contra he
    have := (h.copies c x hc).gone (by simpa using he)
    omega
  exact ⟨hlive, (h.copies c x hc).mapped hlive⟩

lemma Inv.sole_live (h : Inv s) (hmap : s.openCopies i = some c) {d : ℕ} {y : Copy}
    (hd : s.copies d = some y) (hy : y.ino = i) (hr : 0 < y.refs) : d = c := by
  have hmapped := (h.live hd hr).2
  rw [hy, hmap] at hmapped
  exact (Option.some.inj hmapped).symm

lemma Inv.untouched (h : Inv s) {a : Label} {s' : State} (hs : Step s a s')
    (ha : a = .pulls i c ∨ a = .deletes i c) {d : ℕ} {y : Copy} (hd : s.copies d = some y)
    (hy : y.ino = i) : y.refs = 0 := by
  by_contra hr
  have hfill : ∀ k j e init x, s.clients.lookup k = some (.checks j init e) → s.copies e = some x →
      x.evicted = false → fileLabel init x.pulled j e ≠ .pulls i c := by
    intro k j e init x hk he hlive hl
    unfold fileLabel at hl
    split_ifs at hl with hcond
    obtain ⟨rfl, rfl⟩ : j = i ∧ e = c := by simpa using hl
    have hino : x.ino = j := h.ino_eq hk he rfl
    have hmap := (h.copies e x he).mapped hlive
    rw [hino] at hmap
    obtain rfl := h.sole_live hmap hd hy (by omega)
    obtain rfl := Option.some.inj (hd.symm.trans he)
    have hpulled := ((h.copies d y hd).pulled hlive).mpr (by omega)
    simp [hpulled] at hcond
  cases hs with
  | populate hk hc he hp =>
    rcases ha with ha | ha
    · exact hfill _ _ _ _ _ hk hc he ha
    · unfold fileLabel at ha
      split_ifs at ha
  | populateFails hk hc he hp =>
    rcases ha with ha | ha
    · exact hfill _ _ _ _ _ hk hc he ha
    · unfold fileLabel at ha
      split_ifs at ha
  | delete hk =>
    obtain ⟨rfl, rfl⟩ := by simpa using ha
    obtain ⟨x, hx⟩ := h.copies_of_client hk rfl
    obtain rfl := h.sole_live ((h.clients _ _ _ hk rfl).mapped rfl) hd hy (by omega)
    have hgone := h.evicted_eq hk hd rfl rfl
    exact hr ((h.copies _ y hd).gone hgone)
  | _ => simp at ha

lemma Inv.unmapped (h : Inv s) (hc : s.copies c = some x) (he : x.evicted = true)
    (hclears : ∀ k y, s.clients.lookup k = some y → y.clears ≠ some c) :
    s.openCopies i ≠ some c := by
  intro hmap
  obtain ⟨z, hz, -, hz'⟩ := h.map _ _ hmap
  obtain rfl := Option.some.inj (hc.symm.trans hz)
  obtain ⟨k, y, hk, hy⟩ := hz' he
  exact hclears k y hk hy

lemma Inv.met_once (h : Inv s) {init : CopyInit} (hk : s.clients.lookup k = some (.checks i init c))
    (hc : s.copies c = some x) (he : x.evicted = true) {t : State}
    (hrun : Run Step Always s t) : t.openCopies i ≠ some c := by
  have hmap : s.openCopies i ≠ some c := by
    refine h.unmapped hc he ?_
    intro l y hl hy
    obtain rfl := h.exclusive hk hc rfl hl (Client.locks_of_clears hy)
    obtain rfl := Option.some.inj (hk.symm.trans hl)
    simp [Client.clears] at hy
  have hinv := hrun.invariant
    (I := fun t => Inv t ∧ t.copies c ≠ none ∧ t.openCopies i ≠ some c)
    (fun _ _ _ hI _ hs => ⟨hI.1.step hs, hI.1.stays_out hs hI.2.1 hI.2.2⟩)
    ⟨h, by simp [hc], hmap⟩
  exact hinv.2.2

lemma exists_owner (hr : 0 < outstanding s.clients c) :
    ∃ k y, s.clients.lookup k = some y ∧ y.owns = some c := by
  by_contra hnone
  push Not at hnone
  have hzero : outstanding s.clients c = 0 :=
    (Table.count_eq_zero _).mpr fun k y hk => by simpa using hnone k y hk
  omega

lemma Inv.quiet (h : Inv s)
    (hq : Quiet s) : s.openCopies i ≠ none ↔ ∃ k c, s.clients.lookup k = some (.holds i c) := by
  constructor
  · intro hmap
    obtain ⟨c, hc⟩ := Option.ne_none_iff_exists'.mp hmap
    obtain ⟨x, hx, hino, hclears⟩ := h.map i c hc
    have hlive : x.evicted = false := by
      by_contra he
      obtain ⟨k, y, hk, hy⟩ := hclears (by simpa using he)
      obtain ⟨j, d, rfl⟩ := hq k y hk
      simp [Client.clears] at hy
    have hr : 0 < x.refs := by
      by_contra hr
      obtain ⟨k, y, hk, hy⟩ := (h.copies c x hx).tried hlive (by omega)
      obtain ⟨j, d, rfl⟩ := hq k y hk
      simp [Client.tries] at hy
    rw [(h.copies c x hx).refs] at hr
    obtain ⟨k, y, hk, hy⟩ := exists_owner hr
    obtain ⟨j, d, rfl⟩ := hq k y hk
    obtain rfl : d = c := by simpa [Client.owns] using hy
    have hj : x.ino = j := h.ino_eq hk hx rfl
    exact ⟨k, d, by rw [hk, ← hj, hino]⟩
  · rintro ⟨k, c, hk⟩
    obtain ⟨x, hx⟩ := h.copies_of_client hk rfl
    have hino : x.ino = i := h.ino_eq hk hx rfl
    have hmap := (h.live hx (h.refs_pos hk hx rfl)).2
    rw [hino] at hmap
    simp [hmap]

lemma Inv.protocol (h : Inv s) : Protocol s where
  refs c x hc := (h.copies c x hc).refs
  refs_pos k i c x hk hc := h.refs_pos hk hc rfl
  sole c d x y hc hd hino hx hy := by
    have hcmap := (h.copies c x hc).mapped hx
    have hdmap := (h.copies d y hd).mapped hy
    rw [hino, hdmap] at hcmap
    exact (Option.some.inj hcmap).symm
  mapped c x hc hr := h.live hc hr
  present c x hc hr := by
    have hlive := (h.live hc hr).1
    exact (h.copies c x hc).present hlive (((h.copies c x hc).pulled hlive).mpr hr)
  untouched a s' i c hs ha d y hd hy := h.untouched hs ha hd hy
  unmapped c x hc he hl := by
    refine h.unmapped hc he ?_
    intro k y hk hy
    have hlock := h.lock_eq hk hc (Client.locks_of_clears hy)
    simp [hl] at hlock
  met_once k i init c x hk hc he t hrun := h.met_once hk hc he hrun
  quiet hq i := h.quiet hq

end Protocol

theorem reference_protocol {s : State} (hrun : Run Step Always start s) : Protocol s :=
  (hrun.invariant (fun _ _ _ h _ hs => Inv.step h hs) inv_start).protocol

/-- Two opens of one inode, the second begun before the first has pulled. -/
theorem reference_protocol_of_overlapping_opens :
    ∃ s, Run Step Always start s ∧ Protocol s ∧ s.present 7 = true ∧
      (s.copies 0).map Copy.refs = some 2 := by
  have hrun : Run Step Always start _ :=
    .head (@Step.acquire _ 0 7 .pull rfl) trivial <|
    .head (@Step.acquire _ 1 7 .pull rfl) trivial <|
    .head (.insert (k := 0) rfl rfl) trivial <|
    .head (.entry (k := 1) (c := 0) rfl rfl) trivial <|
    .head (.lock (k := 0) rfl rfl rfl) trivial <|
    .head (.populate (k := 0) rfl rfl rfl .pull) trivial <|
    .head (.acquired (k := 0) rfl rfl) trivial <|
    .head (.lock (k := 1) rfl rfl rfl) trivial <|
    .head (.populate (k := 1) rfl rfl rfl .shared) trivial <|
    .single (.acquired (k := 1) rfl rfl) trivial
  exact ⟨_, hrun, reference_protocol hrun, rfl, rfl⟩

end Adbfs.Copies
