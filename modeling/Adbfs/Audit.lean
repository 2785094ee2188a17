import Adbfs.InodeSteps
import Adbfs.Library.Journal

/-! A device that records what it is asked, and what the requests ask of it. -/

namespace Adbfs

open Library Library.Action Library.Shell

inductive Exchange where
  | shell (command : Text) (answer : Result AdbError (List Text))
  | shellWithStderr (command : Text) (answer : Result AdbError ShellOutput)
  | pull (remote : Text) (here : Option Bytes) (answer : Except AdbError Unit × Option Bytes)
  | push (here : LocalPath) (contents : Option Bytes) (remote : Text) (answer : Result AdbError Unit)
  | sync (answer : Result AdbError Unit)

structure Audited (τ : Type) where
  device : τ
  log : List Exchange

namespace Audited

variable {τ α : Type}

def note (f : Result AdbError α → Exchange) (x : Action τ AdbError α) :
    Action (Audited τ) AdbError α := fun s =>
  ((x s.device).1, ⟨(x s.device).2, s.log ++ [f (x s.device).1]⟩)

instance [AdbDevice τ] : AdbDevice (Audited τ) where
  shell command := note (.shell command) (AdbDevice.shell command)
  shellWithStderr command := note (.shellWithStderr command) (AdbDevice.shellWithStderr command)
  pull remote here s :=
    let answer := AdbDevice.pull remote here s.device
    (answer.1, ⟨answer.2, s.log ++ [.pull remote here answer.1]⟩)
  push here contents remote :=
    note (.push here contents remote) (AdbDevice.push here contents remote)
  syncDevice := note .sync AdbDevice.syncDevice

end Audited

inductive Order where
  | run (command : Sent)
  | pull (remote : Text)
  | push (here : LocalPath) (remote : Text)
  | sync

def Exchange.Obeys : Exchange → Order → Prop
  | .shell text _, .run command => command.text = some text ∧ commands text = some command.words
  | .shellWithStderr text _, .run command =>
    command.text = some text ∧ commands text = some command.words
  | .pull remote _ _, .pull path => remote = path
  | .push here _ remote _, .push copy path => here = copy ∧ remote = path
  | .sync _, .sync => True
  | _, _ => False

/-- What was asked carries out the orders; broadcasts are sent as the option says. -/
def Asks {τ : Type} (rescan : Bool) (orders : List Order) (s t : DeviceOps (Audited τ)) : Prop :=
  s.rescan = rescan →
    t.rescan = rescan ∧ Adds (fun s => s.adb.log) (CarriesOut Exchange.Obeys orders) s t

/-- The command is the first that is asked for; what is asked after it carries out the orders. -/
def Opens {τ : Type} (rescan : Bool) (command : Sent) (orders : List Order)
    (s t : DeviceOps (Audited τ)) : Prop :=
  s.rescan = rescan → t.rescan = rescan ∧ Adds (fun s => s.adb.log) (fun es => ∃ e rest,
    es = e :: rest ∧ e.Obeys (.run command) ∧ CarriesOut Exchange.Obeys orders rest) s t

section Operations

variable {τ α β : Type} {b : Bool} {orders orders' : List Order} {s t u : DeviceOps (Audited τ)}

lemma Asks.refl (b : Bool) (orders : List Order) (s : DeviceOps (Audited τ)) : Asks b orders s s :=
  fun hs => ⟨hs, .of_eq rfl .nil⟩

lemma Asks.mono (h : Asks b orders s t) (hsub : orders.Sublist orders') : Asks b orders' s t :=
  fun hs => ⟨(h hs).1, (h hs).2.imp fun _ hes => hes.mono hsub⟩

lemma Asks.trans (h : Asks b orders s t) (h' : Asks b orders' t u) :
    Asks b (orders ++ orders') s u := fun hs =>
  ⟨(h' (h hs).1).1, (h hs).2.trans (h' (h hs).1).2 fun _ _ => .append⟩

lemma Asks.then {x : OpsM (Audited τ) α} {f : α → OpsM (Audited τ) β} (hx : Keeps (Asks b orders) x)
    (hf : ∀ a, Keeps (Asks b orders') (f a)) : Keeps (Asks b (orders ++ orders')) (x >>= f) :=
  hx.comp hf (fun _ _ h => h.mono (List.sublist_append_left _ _)) fun _ _ _ h h' => h.trans h'

lemma Asks.cons {x : OpsM (Audited τ) α} {f : α → OpsM (Audited τ) β} {order : Order}
    (hx : Keeps (Asks b [order]) x) (hf : ∀ a, Keeps (Asks b orders) (f a)) :
    Keeps (Asks b (order :: orders)) (x >>= f) := Asks.then hx hf

lemma Asks.last {x : OpsM (Audited τ) α} {f : α → OpsM (Audited τ) β}
    (hx : Keeps (Asks b orders) x) (hf : ∀ a, Keeps (Asks b []) (f a)) :
    Keeps (Asks b orders) (x >>= f) := by
  have hseq := Asks.then hx hf
  rwa [List.append_nil] at hseq

lemma asks_same {x : OpsM (Audited τ) α} (hx : ∀ s, (x s).2.adb = s.adb ∧ (x s).2.rescan = s.rescan) :
    Keeps (Asks b orders) x :=
  ⟨fun s hs => ⟨(hx s).2.trans hs, .of_eq (congrArg Audited.log (hx s).1) .nil⟩⟩

lemma asks_fail (e : DeviceError) : Keeps (Asks b orders) (fail e : OpsM (Audited τ) α) :=
  asks_same fun _ => ⟨rfl, rfl⟩

lemma asks_pure (a : α) : Keeps (Asks b orders) (pure a : OpsM (Audited τ) α) :=
  asks_same fun _ => ⟨rfl, rfl⟩

lemma asks_ofOption (e : DeviceError) (r : Option α) :
    Keeps (Asks b orders) (ofOption e r : OpsM (Audited τ) α) := by
  cases r
  · exact asks_fail e
  · exact asks_pure _

lemma asks_orCrash (r : Option α) :
    Keeps (Asks b orders) (orCrash r : OpsM (Audited τ) α) := by
  cases r <;> exact asks_same fun _ => ⟨rfl, rfl⟩

lemma asks_transport {order : Order} {f : Result AdbError α → Exchange} {x : Action τ AdbError α}
    (hf : ∀ r, (f r).Obeys order) :
    Keeps (Asks b [order]) (DeviceOps.transport (Audited.note f x)) := by
  refine keeps_zoom fun s hs => ⟨hs, [f (x s.adb.device).1], ?_, .single (hf _)⟩
  cases hx : x s.adb.device with
  | mk r d => cases r <;> simp [mapError, Audited.note, hx]

section Opens

variable {command : Sent}

lemma Opens.asks (h : Opens b command orders s t) : Asks b (.run command :: orders) s t := by
  intro hs
  refine ⟨(h hs).1, (h hs).2.imp ?_⟩
  rintro _ ⟨e, rest, rfl, he, hrest⟩
  exact .cons he hrest

lemma Opens.mono (h : Opens b command orders s t) (hsub : orders.Sublist orders') :
    Opens b command orders' s t := by
  intro hs
  refine ⟨(h hs).1, (h hs).2.imp ?_⟩
  rintro _ ⟨e, rest, rfl, he, hrest⟩
  exact ⟨e, rest, rfl, he, hrest.mono hsub⟩

lemma Opens.then {x : OpsM (Audited τ) α} {f : α → OpsM (Audited τ) β}
    (hx : Keeps (Opens b command orders) x) (hf : ∀ a, Keeps (Asks b orders') (f a)) :
    Keeps (Opens b command (orders ++ orders')) (x >>= f) := by
  refine hx.comp hf (fun _ _ h => h.mono (List.sublist_append_left _ _)) ?_
  intro s t u h h' hs
  refine ⟨(h' (h hs).1).1, (h hs).2.trans (h' (h hs).1).2 ?_⟩
  rintro _ fs ⟨e, rest, rfl, he, hrest⟩ hfs
  exact ⟨e, rest ++ fs, rfl, he, hrest.append hfs⟩

lemma opens_transport {f : Result AdbError α → Exchange} {x : Action τ AdbError α}
    (hf : ∀ r, (f r).Obeys (.run command)) :
    Keeps (Opens b command []) (DeviceOps.transport (Audited.note f x)) := by
  refine keeps_zoom fun s hs => ⟨hs, [f (x s.adb.device).1], ?_, _, [], rfl, hf _, .nil⟩
  cases hx : x s.adb.device with
  | mk r d => cases r <;> simp [mapError, Audited.note, hx]

end Opens

variable [AdbDevice τ] {p cmd : Text} {command : Sent}

lemma opens_shell (hcmd : command.text = some cmd) :
    Keeps (Opens b command [])
      (DeviceOps.transport (AdbDevice.shell cmd) : OpsM (Audited τ) (List Text)) :=
  opens_transport (f := .shell cmd) fun _ => ⟨hcmd, commands_text hcmd⟩

lemma opens_shellWithStderr (hcmd : command.text = some cmd) :
    Keeps (Opens b command [])
      (DeviceOps.transport (AdbDevice.shellWithStderr cmd) : OpsM (Audited τ) ShellOutput) :=
  opens_transport (f := .shellWithStderr cmd) fun _ => ⟨hcmd, commands_text hcmd⟩

lemma asks_pushAndSync (here : LocalPath) (contents : Option Bytes) (p : Text) :
    Keeps (Asks b [.push here p, .sync])
      (pushAndSync here contents p : OpsM (Audited τ) Unit) :=
  Asks.cons
    (asks_transport (f := .push here contents p) fun _ => ⟨rfl, rfl⟩) fun _ =>
      asks_transport (f := .sync) fun _ => trivial

lemma opens_runMutation (hcmd : command.text = some cmd) :
    Keeps (Opens b command []) (runMutation cmd : OpsM (Audited τ) Unit) := by
  apply Opens.then (opens_shellWithStderr hcmd)
  intro output
  split
  · exact asks_fail _
  · split_ifs
    · exact asks_fail _
    · exact asks_pure _

lemma opens_rescanFile (p : Text) :
    Keeps (Opens b (.rescanFile p) []) (rescanFile p : OpsM (Audited τ) Unit) :=
  Opens.then (opens_shell rfl) fun _ => asks_pure _

lemma asks_rescanFile (p : Text) :
    Keeps (Asks b [.run (.rescanFile p)]) (rescanFile p : OpsM (Audited τ) Unit) :=
  (opens_rescanFile p).imp fun _ _ h => h.asks

lemma opens_rescanDirRemoved (p : Text) :
    Keeps (Opens b (.rescanDirRemoved p) []) (rescanDirRemoved p : OpsM (Audited τ) Unit) :=
  Opens.then (opens_shell rfl) fun _ => asks_pure _

lemma asks_rescanDirRemoved (p : Text) :
    Keeps (Asks b [.run (.rescanDirRemoved p)]) (rescanDirRemoved p : OpsM (Audited τ) Unit) :=
  (opens_rescanDirRemoved p).imp fun _ _ h => h.asks

def ifRescan (rescan : Bool) (orders : List Order) : List Order := if rescan then orders else []

omit [AdbDevice τ] in
lemma asks_whenRescan {x : OpsM (Audited τ) Unit} (hx : Keeps (Asks b orders) x) :
    Keeps (Asks b (ifRescan b orders)) (whenRescan x) := by
  constructor
  intro s hs
  change _ ∧ Adds _ _ s ((if s.rescan then x else pure ()) s).2
  change ((if s.rescan then x else pure ()) s).2.rescan = b ∧ _
  rw [hs]
  cases b with
  | true => exact hx.holds s hs
  | false => exact Asks.refl _ _ s hs

lemma opens_mkdir (p : Text) : Keeps (Opens b (.mkdir p) []) (mkdir p : OpsM (Audited τ) Unit) :=
  opens_runMutation rfl

lemma asks_mkdir (p : Text) :
    Keeps (Asks b [.run (.mkdir p)]) (mkdir p : OpsM (Audited τ) Unit) :=
  (opens_mkdir p).imp fun _ _ h => h.asks

lemma opens_rm (p : Text) : Keeps (Opens b (.rm p) (ifRescan b [.run (.rescanFile p)]))
    (rm p : OpsM (Audited τ) Unit) :=
  Opens.then (opens_runMutation rfl) fun _ => asks_whenRescan (asks_rescanFile p)

lemma asks_rm (p : Text) : Keeps (Asks b (.run (.rm p) :: ifRescan b [.run (.rescanFile p)]))
    (rm p : OpsM (Audited τ) Unit) :=
  (opens_rm p).imp fun _ _ h => h.asks

lemma opens_rmdir (p : Text) :
    Keeps (Opens b (.rmdir p) (ifRescan b [.run (.rescanDirRemoved p)]))
      (rmdir p : OpsM (Audited τ) Unit) :=
  Opens.then (opens_runMutation rfl) fun _ => asks_whenRescan (asks_rescanDirRemoved p)

lemma asks_rmdir (p : Text) :
    Keeps (Asks b (.run (.rmdir p) :: ifRescan b [.run (.rescanDirRemoved p)]))
      (rmdir p : OpsM (Audited τ) Unit) :=
  (opens_rmdir p).imp fun _ _ h => h.asks

lemma opens_mv (p q : Text) :
    Keeps (Opens b (.mv p q) (ifRescan b [.run (.rescanFile p), .run (.rescanFile q)]))
      (mv p q : OpsM (Audited τ) Unit) :=
  Opens.then (opens_runMutation rfl) fun _ =>
    asks_whenRescan (Asks.then (asks_rescanFile p) fun _ => asks_rescanFile q)

lemma asks_mv (p q : Text) :
    Keeps (Asks b (.run (.mv p q) :: ifRescan b [.run (.rescanFile p), .run (.rescanFile q)]))
      (mv p q : OpsM (Audited τ) Unit) :=
  (opens_mv p q).imp fun _ _ h => h.asks

section Touch

variable {gnu : Bool} {atime mtime : Option SystemTime}

lemma opens_touchRound {retry : OpsM (Audited τ) Unit}
    (hparts : touchParts p atime mtime gnu ≠ [])
    (hsub : (ifRescan b [.run (.rescanFile p)]).Sublist orders)
    (hretry : gnu = true → Keeps (Asks b orders) retry) :
    Keeps (Opens b (.touch p atime mtime gnu) orders) (touchRound gnu p atime mtime retry) := by
  rw [touchRound, if_neg hparts]
  apply Opens.then (opens_shellWithStderr (by rw [Sent.text, if_neg hparts]))
  intro output
  split
  · split_ifs with _ hgnu
    · exact asks_fail _
    · have hmode : Keeps (Asks b []) (update fun s => { s with touchGnuMode := false } :
          OpsM (Audited τ) Unit) := asks_same fun _ => ⟨rfl, rfl⟩
      exact Asks.then hmode fun _ => hretry (by simpa using hgnu)
    · exact asks_fail _
  · exact (asks_whenRescan (asks_rescanFile p)).imp fun _ _ h => h.mono hsub

/-- A device that refuses the new dialect is asked once more, in the old one. -/
def touchFollow (rescan gnu : Bool) (p : Text) (atime mtime : Option SystemTime) : List Order :=
  (if gnu then [.run (.touch p atime mtime false)] else []) ++
    ifRescan rescan [.run (.rescanFile p)]

lemma opens_touch (p : Text) (hparts : touchParts p atime mtime gnu ≠ [])
    {s : DeviceOps (Audited τ)} (hgnu : s.touchGnuMode = gnu) :
    Opens b (.touch p atime mtime gnu) (touchFollow b gnu p atime mtime) s
      ((touch p atime mtime : OpsM (Audited τ) Unit) s).2 := by
  have hold : ∀ retry : OpsM (Audited τ) Unit, touchParts p atime mtime false ≠ [] →
      Keeps (Opens b (.touch p atime mtime false) (ifRescan b [.run (.rescanFile p)]))
        (touchRound false p atime mtime retry) :=
    fun retry hparts => opens_touchRound hparts (List.Sublist.refl _) (by simp)
  change Opens _ _ _ s (touchRound s.touchGnuMode p atime mtime
    (touchRound false p atime mtime (fail .notSupported)) s).2
  rw [hgnu]
  cases gnu with
  | true =>
    have hparts' : touchParts p atime mtime false ≠ [] := by
      cases atime <;> cases mtime <;> simp_all [touchParts]
    exact (opens_touchRound hparts (List.sublist_cons_self _ _) fun _ =>
      (hold _ hparts').imp fun _ _ h => h.asks).holds s
  | false => exact (hold _ hparts).holds s

/-- The old dialect is spoken at most once, after the new one. -/
def timesOrders (rescan : Bool) (p : Text) (atime mtime : Option SystemTime) : List Order :=
  if atime = none ∧ mtime = none then []
  else .run (.touch p atime mtime true) :: .run (.touch p atime mtime false) ::
    ifRescan rescan [.run (.rescanFile p)]

lemma asks_touch (p : Text) (htimes : ¬ (atime = none ∧ mtime = none)) :
    Keeps (Asks b (timesOrders b p atime mtime)) (touch p atime mtime : OpsM (Audited τ) Unit) := by
  have hparts : ∀ gnu, touchParts p atime mtime gnu ≠ [] := by
    cases atime <;> cases mtime <;> simp_all [touchParts]
  rw [timesOrders, if_neg htimes]
  constructor
  intro s
  have hopens := opens_touch (b := b) p (hparts s.touchGnuMode) (s := s) rfl
  cases hgnu : s.touchGnuMode with
  | true =>
    rw [hgnu] at hopens
    exact hopens.asks
  | false =>
    rw [hgnu] at hopens
    exact hopens.asks.mono (List.sublist_cons_self _ _)

end Touch

variable [Libc]

lemma opens_getMetadata (p : Text) :
    Keeps (Opens b (.getMetadata p) []) (getMetadata p : OpsM (Audited τ) FileMeta) := by
  apply Opens.then (opens_shellWithStderr rfl)
  intro output
  cases metadataLines output with
  | nil => exact asks_fail _
  | cons first rest =>
    rw [decodeMetadata]
    split_ifs
    · exact asks_fail _
    · exact Asks.last (asks_orCrash _) fun _ => asks_ofOption _ _

lemma asks_getMetadata (p : Text) :
    Keeps (Asks b [.run (.getMetadata p)]) (getMetadata p : OpsM (Audited τ) FileMeta) :=
  (opens_getMetadata p).imp fun _ _ h => h.asks

omit [Libc] [AdbDevice τ] in
lemma asks_resolveSymlink (p line : Text) :
    Keeps (Asks b []) (resolveSymlink p line : OpsM (Audited τ) Text) := asks_ofOption _ _

lemma opens_listDir (p : Text) :
    Keeps (Opens b (.listDir p) [])
      (listDir p : OpsM (Audited τ) (List (Text × Option FileMeta))) :=
  Opens.then (opens_shell rfl) fun _ => asks_orCrash _

lemma asks_listDir (p : Text) :
    Keeps (Asks b [.run (.listDir p)])
      (listDir p : OpsM (Audited τ) (List (Text × Option FileMeta))) :=
  (opens_listDir p).imp fun _ _ h => h.asks

section Sent

def operation : Sent → OpsM (Audited τ) Unit
  | .getMetadata path => do
    let _ ← getMetadata path
    pure ()
  | .listDir path => do
    let _ ← listDir path
    pure ()
  | .touch path atime mtime _ => touch path atime mtime
  | .mkdir path => mkdir path
  | .rm path => rm path
  | .rmdir path => rmdir path
  | .mv source target => mv source target
  | .rescanFile path => rescanFile path
  | .rescanDirRemoved path => rescanDirRemoved path

/-- A `touch` is sent in the dialect that is believed to be spoken. -/
def Sent.Spoken : Sent → DeviceOps (Audited τ) → Prop
  | .touch _ _ _ gnu, s => s.touchGnuMode = gnu
  | _, _ => True

def Sent.follow (rescan : Bool) : Sent → List Order
  | .touch path atime mtime gnu => touchFollow rescan gnu path atime mtime
  | .rm path => ifRescan rescan [.run (.rescanFile path)]
  | .rmdir path => ifRescan rescan [.run (.rescanDirRemoved path)]
  | .mv source target => ifRescan rescan [.run (.rescanFile source), .run (.rescanFile target)]
  | .getMetadata _ | .listDir _ | .mkdir _ | .rescanFile _ | .rescanDirRemoved _ => []

lemma opens_operation {command : Sent} (hcmd : command.text = some cmd)
    {s : DeviceOps (Audited τ)} (hspoken : command.Spoken s) :
    Opens b command (command.follow b) s (operation command s).2 := by
  cases command with
  | getMetadata path => exact (Opens.then (opens_getMetadata path) fun _ => asks_pure _).holds s
  | listDir path => exact (Opens.then (opens_listDir path) fun _ => asks_pure _).holds s
  | touch path atime mtime gnu =>
    have hparts : touchParts path atime mtime gnu ≠ [] := by
      rintro hnone
      rw [Sent.text, if_pos hnone] at hcmd
      simp at hcmd
    exact opens_touch path hparts hspoken
  | mkdir path => exact (opens_mkdir path).holds s
  | rm path => exact (opens_rm path).holds s
  | rmdir path => exact (opens_rmdir path).holds s
  | mv source target => exact (opens_mv source target).holds s
  | rescanFile path => exact (opens_rescanFile path).holds s
  | rescanDirRemoved path => exact (opens_rescanDirRemoved path).holds s

/-- The operation sends this text first, and after it only others that a shell reads so too. -/
theorem commands_sent {command : Sent} {t : Text} (h : command.text = some t) :
    commands t = some command.words ∧
      ∀ s : DeviceOps (Audited τ), command.Spoken s →
        Opens s.rescan command (command.follow s.rescan) s (operation command s).2 :=
  ⟨commands_text h, fun _ hspoken => opens_operation h hspoken⟩

end Sent

end Operations

section Hostile

attribute [local instance] plainLibc

/-- A path that closes the quotes, opens a substitution and asks for a second command. -/
theorem commands_sent_hostile :
    let path := '/' :: quote :: "; rm -rf /; `reboot` && $(id) ".toList ++ [quote, '\n']
    let s : DeviceOps (Audited Phone) := ⟨⟨plainPhone twoFiles [], []⟩, true, false⟩
    commands (mvCmd path ['/']) = some [[literal "mv".toList, literal path, literal ['/']]] ∧
      Opens false (.mv path ['/']) [] s (mv path ['/'] s).2 := by
  intro path s
  have hsent := @commands_sent Phone _ _ (.mv path ['/']) _ rfl
  exact ⟨hsent.1, hsent.2 s trivial⟩

end Hostile

section Requests

variable {τ α β : Type} {b : Bool} {orders orders' : List Order} {w w' w'' : AdbFs (Audited τ)}

def AdbFs.Asks (rescan : Bool) (orders : List Order) (w w' : AdbFs (Audited τ)) : Prop :=
  Adbfs.Asks rescan orders w.ops w'.ops

lemma SameOps.asks (h : SameOps w w') : AdbFs.Asks b orders w w' := by
  rw [AdbFs.Asks, h]
  exact Asks.refl b orders _

section Sequence

variable {ε : Type} {x : FsM (Audited τ) ε α} {f : α → FsM (Audited τ) ε β}

lemma AdbFs.Asks.then (hx : Keeps (AdbFs.Asks b orders) x)
    (hf : ∀ a, Keeps (AdbFs.Asks b orders') (f a)) :
    Keeps (AdbFs.Asks b (orders ++ orders')) (x >>= f) :=
  hx.comp hf (fun _ _ h => Adbfs.Asks.mono h (List.sublist_append_left _ _))
    fun _ _ _ h h' => Adbfs.Asks.trans h h'

lemma AdbFs.Asks.cons {order : Order} (hx : Keeps (AdbFs.Asks b [order]) x)
    (hf : ∀ a, Keeps (AdbFs.Asks b orders) (f a)) :
    Keeps (AdbFs.Asks b (order :: orders)) (x >>= f) := AdbFs.Asks.then hx hf

lemma SameOps.thenAsks (hx : Keeps SameOps x) (hf : ∀ a, Keeps (AdbFs.Asks b orders) (f a)) :
    Keeps (AdbFs.Asks b orders) (x >>= f) := by
  have hnone : Keeps (AdbFs.Asks b []) x := hx.imp fun _ _ h => h.asks
  exact AdbFs.Asks.then hnone hf

lemma AdbFs.Asks.thenSame (hx : Keeps (AdbFs.Asks b orders) x) (hf : ∀ a, Keeps SameOps (f a)) :
    Keeps (AdbFs.Asks b orders) (x >>= f) := by
  have hnone : ∀ a, Keeps (AdbFs.Asks b []) (f a) := fun a => (hf a).imp fun _ _ h => h.asks
  have hseq := AdbFs.Asks.then hx hnone
  rwa [List.append_nil] at hseq

lemma asks_onDevice {x : OpsM (Audited τ) α} (hx : Keeps (Adbfs.Asks b orders) x) :
    Keeps (AdbFs.Asks b orders) (onDevice x) := keeps_zoom fun w => hx.holds w.ops

lemma asks_device {x : OpsM (Audited τ) α} (hx : Keeps (Adbfs.Asks b orders) x) :
    Keeps (AdbFs.Asks b orders) (device x) := (asks_onDevice hx).mapError

end Sequence

variable [AdbDevice τ] (h : Host)

variable [Libc]

lemma asks_fetchMeta (p : Text) :
    Keeps (AdbFs.Asks b [.run (.getMetadata p)])
      (fetchMeta h p : FsM (Audited τ) DeviceError FileMeta) := by
  refine SameOps.thenAsks (keeps_lift ?_) ?_
  · exact fun _ => rfl
  rintro (_ | _ | m)
  · apply AdbFs.Asks.thenSame (asks_onDevice (asks_getMetadata p)).attempt
    rintro (e | m)
    · cases e with
      | notFound q => exact (sameOps_setCache _).bind fun _ => keeps_fail _
      | _ => exact keeps_fail _
    · exact (sameOps_setCache _).bind fun _ => keeps_pure _
  · exact (keeps_fail _ : Keeps SameOps _).imp fun _ _ h => h.asks
  · exact (keeps_pure _ : Keeps SameOps _).imp fun _ _ h => h.asks

lemma asks_newEntry (p : Text) (f : FileMeta → ℕ → AdbFs (Audited τ) → Reply) :
    Keeps (AdbFs.Asks b [.run (.getMetadata p)])
      (device (getMetadata p) >>= fun m => getOrAssignIno p >>= fun ino =>
        cacheInsert p (some m) h.now >>= fun _ => read >>= fun w => pure (f m ino w) :
          FsM (Audited τ) Errno Reply) :=
  AdbFs.Asks.thenSame (asks_device (asks_getMetadata p)) fun _ =>
    (sameOps_getOrAssignIno p).bind fun _ => (sameOps_setCache _).bind fun _ =>
      keeps_read.bind fun _ => keeps_pure _

end Requests

section Scripts

variable {τ : Type}

def AdbFs.onPath (w : AdbFs τ) (ino : ℕ) (f : Text → List Order) : List Order :=
  (w.inodes.getPath ino).elim [] f

def AdbFs.metaOrders (w : AdbFs τ) (h : Host) (p : Text) : List Order :=
  if (w.cache.get p h.now).1.isSome then [] else [.run (.getMetadata p)]

/-- A file is pulled where it has no copy yet, and no contents are given. -/
def AdbFs.copyOrders (w : AdbFs τ) (ino : ℕ) (p : Text) : CopyInit → List Order
  | .pull => if (w.shared.copies ino).isSome then [] else [.pull p]
  | .empty => []

def storeOrders (ino : ℕ) (p : Text) : List Order := [.push (.copy ino) p, .sync]

def AdbFs.flushOrders (w : AdbFs τ) (ino : ℕ) : List Order :=
  (w.shared.copies ino).elim [] fun c => if c.dirty then w.onPath ino (storeOrders ino) else []

def AdbFs.resizeOrders (w : AdbFs τ) (ino : ℕ) (p : Text) : Option ℕ → List Order
  | none => []
  | some n => w.copyOrders ino p (if n = 0 then .empty else .pull) ++ storeOrders ino p

def AdbFs.script (w : AdbFs τ) (h : Host) : Request → List Order
  | .getattr ino | .readlink ino => w.onPath ino (w.metaOrders h)
  | .lookup parent name => w.onPath parent fun dir => w.metaOrders h (childPath dir name)
  | .opendir ino => w.onPath ino fun p => [.run (.listDir p)]
  | .open ino => w.onPath ino fun p => w.copyOrders ino p .pull
  | .flush fh => (w.shared.handles fh).elim [] w.flushOrders
  | .mkdir parent name => w.onPath parent fun dir =>
    [.run (.mkdir (childPath dir name)), .run (.getMetadata (childPath dir name))]
  | .unlink parent name => w.onPath parent fun dir => .run (.rm (childPath dir name)) ::
    ifRescan w.ops.rescan [.run (.rescanFile (childPath dir name))]
  | .rmdir parent name => w.onPath parent fun dir => .run (.rmdir (childPath dir name)) ::
    ifRescan w.ops.rescan [.run (.rescanDirRemoved (childPath dir name))]
  | .rename parent name newparent newname _ =>
    w.onPath parent fun dir => w.onPath newparent fun newdir =>
      .run (.mv (childPath dir name) (childPath newdir newname)) :: ifRescan w.ops.rescan
        [.run (.rescanFile (childPath dir name)), .run (.rescanFile (childPath newdir newname))]
  | .setattr ino size atime mtime _ => w.onPath ino fun p => w.resizeOrders ino p size ++
    (timesOrders w.ops.rescan p (atime.map (resolveTime h)) (mtime.map (resolveTime h)) ++
      [.run (.getMetadata p)])
  | .create parent name => w.onPath parent fun dir =>
    storeOrders (w.inodes.getOrAssignIno (childPath dir name)).1 (childPath dir name) ++
      [.run (.getMetadata (childPath dir name))]
  | .mknod parent name _ => w.onPath parent fun dir =>
    [.push .scratch (childPath dir name), .sync, .run (.getMetadata (childPath dir name))]
  | .readdir _ _ | .releasedir _ | .read _ _ _ | .write _ _ _ | .release _ | .access _ => []

end Scripts

section Scripted

variable {τ : Type} [AdbDevice τ] {h : Host} {b : Bool} {i fh : ℕ} {p : Text}
  {w w' : AdbFs (Audited τ)} {spare : ℕ → ℕ} {c : Copy} {init : CopyInit}

omit [AdbDevice τ] in
lemma asks_onPath {orders : Text → List Order} {f : Text → FsM (Audited τ) Errno Reply}
    (hf : ∀ p, w.inodes.getPath i = some p → AdbFs.Asks b (orders p) w (f p w).2) :
    AdbFs.Asks b (w.onPath i orders) w ((getPath i >>= f) w).2 := by
  apply ends_iff.mp
  apply ends_getPath.mpr
  constructor
  · intro p hp
    rw [AdbFs.onPath, hp]
    exact ends_iff.mpr (hf p hp)
  · exact fun _ => SameOps.asks rfl

omit [AdbDevice τ] in
lemma AdbFs.Asks.sameAfter {α β ε : Type} {orders : List Order} {x : FsM (Audited τ) ε α}
    {f : α → FsM (Audited τ) ε β} (hx : AdbFs.Asks b orders w (x w).2)
    (hf : ∀ a, Keeps SameOps (f a)) : AdbFs.Asks b orders w ((x >>= f) w).2 := by
  apply ends_iff.mp
  apply ends_bind.mpr
  apply (ends_iff.mpr hx).imp
  · intro a u hu
    have hsame : SameOps u (f a u).2 := (hf a).holds u
    apply ends_iff.mpr
    rw [AdbFs.Asks, hsame]
    exact hu
  · exact fun _ _ hu => hu

lemma asks_of_pushAndSync {here : LocalPath} {contents : Option Bytes} {s t : DeviceOps (Audited τ)}
    {r : Result DeviceError Unit} (hpush : pushAndSync here contents p s = (r, t)) :
    Asks b [.push here p, .sync] s t := by
  have hasks := (asks_pushAndSync (b := b) here contents p).holds s
  rwa [hpush] at hasks

lemma Unsent.asks {f : Option Bytes} {r : Abort Errno} (hunsent : Unsent i f w r w') :
    AdbFs.Asks b (w.onPath i (storeOrders i)) w w' := by
  cases hunsent with
  | nowhere _ _ hops => exact SameOps.asks hops
  | refused hpath hsent _ =>
    rw [AdbFs.onPath, hpath]
    exact asks_of_pushAndSync hsent

lemma pulled_asks (hnew : w.shared.copies i = none)
    (hops : w'.ops = { w.ops with adb := (w.pulled p i).2 }) :
    AdbFs.Asks b (w.copyOrders i p .pull) w w' := by
  rw [AdbFs.copyOrders, hnew, AdbFs.Asks, hops]
  exact fun hs => ⟨hs, [_], rfl, .single rfl⟩

lemma Acquires.asks (hacquires : Acquires h p i w w' init c) :
    AdbFs.Asks b (w.copyOrders i p init) w w' := by
  cases hacquires with
  | empty _ hops => exact SameOps.asks hops
  | live _ hops => exact SameOps.asks hops
  | pull hnew _ hops => exact pulled_asks hnew hops

lemma Refuses.asks (hrefuses : Refuses h p i w w' init) :
    AdbFs.Asks b (w.copyOrders i p init) w w' := by
  cases hrefuses with
  | empty _ hops => exact SameOps.asks hops
  | pull hnew _ hops => exact pulled_asks hnew hops

lemma flush_asks (hw : w.Wired spare) :
    AdbFs.Asks b ((w.shared.handles fh).elim [] w.flushOrders) w (AdbFs.flush fh w).2 := by
  apply ends_iff.mp
  apply (flush_ends hw).imp
  · rintro _ w' ⟨-, i, id, c, hfh, -, hc, hdone⟩
    rw [hfh, Option.elim_some, AdbFs.flushOrders, hc, Option.elim_some]
    cases hdone with
    | clean _ heq => exact SameOps.asks (congrArg AdbFs.ops heq)
    | sent hdirty hpath hsent _ =>
      rw [if_pos hdirty, AdbFs.onPath, hpath]
      exact asks_of_pushAndSync hsent
  · rintro _ w' (rfl | ⟨i, id, c, hfh, -, hc, hfailed⟩)
    · exact SameOps.asks rfl
    · rw [hfh, Option.elim_some, AdbFs.flushOrders, hc, Option.elim_some, if_pos hfailed.dirty]
      exact hfailed.unsent.asks

lemma truncate_asks (n : ℕ) (hw : w.Wired spare) (hp : w.inodes.getPath i = some p) :
    AdbFs.Asks b (w.resizeOrders i p (some n)) w (truncate h i p n w).2 := by
  have hstore : ∀ v : AdbFs (Audited τ), v.inodes = w.inodes →
      v.onPath i (storeOrders i) = storeOrders i p := fun v hv => by
    rw [AdbFs.onPath, hv, hp]
    rfl
  apply ends_iff.mp
  apply (truncate_cases h n hw).imp
  · rintro _ w' ⟨c, w₁, path, hacquires, hpath, hsent, -⟩
    obtain rfl := Option.some.inj (hp.symm.trans hpath)
    exact Asks.trans hacquires.asks (asks_of_pushAndSync hsent)
  · rintro e w' (⟨-, -, hrefuses⟩ | ⟨c, w₁, hacquires, hinodes, -, -, hunsent⟩)
    · exact Asks.mono hrefuses.asks (List.sublist_append_left _ _)
    · apply Asks.trans hacquires.asks
      rw [← hstore w₁ hinodes]
      split_ifs at hunsent
      · exact hunsent.asks
      · exact SameOps.asks hunsent

lemma open_asks (hw : w.Wired spare) :
    AdbFs.Asks b (w.onPath i fun p => w.copyOrders i p .pull) w (AdbFs.open h i w).2 := by
  refine asks_onPath fun p _ => AdbFs.Asks.sameAfter ?_ fun id => ?_
  · apply ends_iff.mp
    apply (acquireCopy_ends hw i p .pull).imp
    · rintro _ w' ⟨c, -, hacquires⟩
      exact hacquires.asks
    · rintro _ w' ⟨-, -, hrefuses⟩
      exact hrefuses.asks
  · apply (keeps_outcome _).attempt.bind
    rintro (e | _)
    · exact (sameOps_releaseCopy _ _).bind fun _ => keeps_fail _
    · exact (sameOps_addHandle i id).bind fun _ => keeps_read.bind fun _ => keeps_pure _

variable [Libc]

lemma create_asks {parent : ℕ} {dir : Text} (name : Bytes) (hw : w.Wired spare)
    (hback : w.inodes.Anchored) (hdir : w.inodes.getPath parent = some dir) :
    AdbFs.Asks b (storeOrders (w.inodes.getOrAssignIno (childPath dir name)).1
      (childPath dir name) ++ [.run (.getMetadata (childPath dir name))]) w
      (AdbFs.create h parent name w).2 := by
  have hpath := hback.getPath_assigned (childPath dir name)
  have hstore : (w.assigned (childPath dir name)).onPath
      (w.inodes.getOrAssignIno (childPath dir name)).1
      (storeOrders (w.inodes.getOrAssignIno (childPath dir name)).1) =
      storeOrders (w.inodes.getOrAssignIno (childPath dir name)).1 (childPath dir name) := by
    rw [AdbFs.onPath]
    change Option.elim ((w.inodes.getOrAssignIno _).2.getPath _) _ _ = _
    rw [hpath]
    rfl
  have hasked : ∀ {s t : DeviceOps (Audited τ)} {r : Result DeviceError FileMeta},
      getMetadata (childPath dir name) s = (r, t) →
        Asks b [.run (.getMetadata (childPath dir name))] s t := by
    intro s t r hask
    have hasks := (asks_getMetadata (b := b) (childPath dir name)).holds s
    rwa [hask] at hasks
  apply ends_iff.mp
  apply (create_ends h name hw hdir rfl rfl).imp
  · rintro _ w' ⟨-, -, path, s, m, hp, hsent, hask⟩
    obtain rfl := Option.some.inj (hpath.symm.trans hp)
    exact Asks.trans (asks_of_pushAndSync hsent) (hasked hask)
  · rintro e w' (⟨-, -, -, hops⟩ | ⟨-, huncreated, -⟩)
    · exact SameOps.asks hops
    · cases huncreated with
      | unopened _ _ hops => exact SameOps.asks hops
      | unsent hunsent =>
        rw [← hstore]
        exact Asks.mono (s := w.ops) hunsent.asks (List.sublist_append_left _ _)
      | unknown _ hp hsent hask _ =>
        obtain rfl := Option.some.inj (hpath.symm.trans hp)
        exact Asks.trans (asks_of_pushAndSync hsent) (hasked hask)

lemma setattr_asks (size : Option ℕ) (atime mtime : Option TimeOrNow) (hw : w.Wired spare)
    (hp : w.inodes.getPath i = some p) :
    AdbFs.Asks b (w.resizeOrders i p size ++ (timesOrders b p (atime.map (resolveTime h))
      (mtime.map (resolveTime h)) ++ [.run (.getMetadata p)])) w
      (AdbFs.setattr h i size atime mtime w).2 := by
  have htouch : Keeps (AdbFs.Asks b (timesOrders b p (atime.map (resolveTime h))
      (mtime.map (resolveTime h)))) (touchTimes h p atime mtime : FsM (Audited τ) Errno Unit) := by
    rw [touchTimes]
    split_ifs with htimes
    · exact (keeps_pure _ : Keeps SameOps _).imp fun _ _ h => h.asks
    · exact AdbFs.Asks.thenSame (asks_device (asks_touch p htimes)) fun _ => sameOps_setCache _
  have hrest := AdbFs.Asks.then htouch fun _ : Unit => AdbFs.Asks.thenSame
    (asks_device (asks_getMetadata p)) fun m => (sameOps_setCache (MetadataCache.insert p (some m)
      h.now)).bind fun _ => keeps_read.bind fun w : AdbFs (Audited τ) => keeps_pure
        (Reply.attr w.opts.attrTimeout (w.opts.metaToAttr i m))
  have hget : (getPath i : FsM (Audited τ) Errno Text) w = (.ok p, w) := by simp [getPath, hp]
  rw [AdbFs.setattr, bind_of_ok hget]
  cases size with
  | none => exact hrest.holds w
  | some n =>
    apply ends_iff.mp
    apply ends_bind.mpr
    have hresize := truncate_asks (b := b) (h := h) n hw hp
    apply (ends_iff.mpr hresize).imp
    · exact fun _ u hu => ends_iff.mpr (Asks.trans hu (hrest.holds u))
    · exact fun _ u hu => Asks.mono hu (List.sublist_append_left _ _)

lemma fetchMeta_asks (p : Text) :
    AdbFs.Asks b (w.metaOrders h p) w (fetchMeta h p w : Result DeviceError FileMeta × _).2 := by
  rw [AdbFs.metaOrders]
  cases hget : (w.cache.get p h.now).1 with
  | none => exact (asks_fetchMeta h p).holds w
  | some known =>
    apply ends_iff.mp
    apply ends_bind.mpr
    apply ends_lift.mpr
    rw [hget]
    cases known with
    | none => exact SameOps.asks rfl
    | some m => exact SameOps.asks rfl

lemma lookup_asks (parent : ℕ) (name : Bytes) :
    AdbFs.Asks b (w.onPath parent fun dir => w.metaOrders h (childPath dir name)) w
      (AdbFs.lookup h parent name w).2 := by
  refine asks_onPath fun dir _ => ?_
  apply ends_iff.mp
  apply ends_bind.mpr
  apply ends_read.mpr
  apply ends_iff.mpr
  apply AdbFs.Asks.sameAfter
  · rw [attempt_snd]
    exact fetchMeta_asks _
  rintro (e | m)
  · cases e with
    | notFound q =>
      dsimp only
      split_ifs
      · exact keeps_pure _
      · exact keeps_fail _
    | _ => exact keeps_fail _
  · exact (sameOps_getOrAssignIno _).bind fun _ => keeps_pure _

lemma opendir_asks (i : ℕ) :
    AdbFs.Asks b (w.onPath i fun p => [.run (.listDir p)]) w (AdbFs.opendir h i w).2 := by
  refine asks_onPath fun p _ => Keeps.holds ?_ w
  apply AdbFs.Asks.thenSame (asks_device (asks_listDir p))
  intro entries
  exact (sameOps_listEntries p entries).bind fun _ => sameOps_takeFh.bind fun _ =>
    Keeps.bind (R := SameOps) (keeps_update fun _ => rfl) fun _ => keeps_pure _

omit [Libc] in
lemma rename_asks (parent : ℕ) (name : Bytes) (newparent : ℕ) (newname : Bytes) :
    AdbFs.Asks b (w.onPath parent fun dir => w.onPath newparent fun newdir =>
        .run (.mv (childPath dir name) (childPath newdir newname)) :: ifRescan b
          [.run (.rescanFile (childPath dir name)), .run (.rescanFile (childPath newdir newname))])
      w (AdbFs.rename h parent name newparent newname w).2 := by
  refine asks_onPath fun dir _ => asks_onPath fun newdir _ => Keeps.holds ?_ w
  apply AdbFs.Asks.thenSame (asks_device (asks_mv _ _))
  intro _
  have hrekey : ∀ f, Keeps SameOps (update (AdbFs.setInodes f) : FsM (Audited τ) Errno Unit) :=
    fun f => keeps_update fun _ => rfl
  exact (hrekey _).bind fun _ => (sameOps_setCache _).bind fun _ => (sameOps_setCache _).bind
    fun _ => keeps_pure _

lemma mknod_asks (parent : ℕ) (name : Bytes) (mode : ℕ) :
    AdbFs.Asks b (w.onPath parent fun dir =>
        [.push .scratch (childPath dir name), .sync, .run (.getMetadata (childPath dir name))])
      w (AdbFs.mknod h parent name mode w).2 := by
  refine asks_onPath fun dir _ => Keeps.holds ?_ w
  have hpushed := AdbFs.Asks.then
    (asks_device (asks_pushAndSync (b := b) .scratch (nodeContents mode) (childPath dir name)))
      fun _ => SameOps.thenAsks (sameOps_setCache (MetadataCache.invalidate (childPath dir name)))
        fun _ => asks_newEntry h (childPath dir name) fun m ino (v : AdbFs (Audited τ)) =>
          .entry v.opts.entryTimeout (v.opts.metaToAttr ino m) 0
  exact SameOps.thenAsks (keeps_outcome _) fun _ => SameOps.thenAsks (keeps_outcome _) fun _ =>
    hpushed

lemma handle_asks (request : Request) (hw : w.Wired spare) (hback : w.inodes.Anchored) :
    AdbFs.Asks w.ops.rescan (w.script h request) w (AdbFs.handle h request w).2 := by
  have hsame : ∀ {x : FsM (Audited τ) Errno Reply}, Keeps SameOps x →
      AdbFs.Asks w.ops.rescan [] w (x w).2 := fun hx => SameOps.asks (hx.holds w)
  cases request with
  | getattr ino =>
    refine asks_onPath fun p _ => AdbFs.Asks.sameAfter ?_ fun _ =>
      keeps_read.bind fun _ => keeps_pure _
    rw [mapError_snd]
    exact fetchMeta_asks p
  | lookup parent name => exact lookup_asks parent name
  | opendir ino => exact opendir_asks ino
  | readdir fh offset => exact hsame (keeps_readdir h fh offset)
  | releasedir fh => exact SameOps.asks rfl
  | «open» ino => exact open_asks hw
  | read fh offset size => exact hsame (keeps_readFile h fh offset size)
  | write fh offset data => exact hsame (sameOps_write offset data)
  | flush fh => exact flush_asks hw
  | release fh => exact hsame sameOps_release
  | access ino => exact hsame (keeps_pure _)
  | mkdir parent name =>
    refine asks_onPath fun dir _ => Keeps.holds ?_ w
    exact AdbFs.Asks.cons (asks_device (asks_mkdir _)) fun _ =>
      SameOps.thenAsks (sameOps_setCache _) fun _ => asks_newEntry h _ _
  | unlink parent name =>
    refine asks_onPath fun dir _ => Keeps.holds ?_ w
    exact AdbFs.Asks.thenSame (asks_device (asks_rm _)) fun _ => (sameOps_setCache _).bind fun _ =>
      keeps_pure _
  | rmdir parent name =>
    refine asks_onPath fun dir _ => Keeps.holds ?_ w
    exact AdbFs.Asks.thenSame (asks_device (asks_rmdir _)) fun _ =>
      (sameOps_setCache _).bind fun _ => keeps_pure _
  | rename parent name newparent newname flags => exact rename_asks parent name newparent newname
  | setattr ino size atime mtime fh =>
    cases hp : w.inodes.getPath ino with
    | none =>
      have hget : (getPath ino : FsM (Audited τ) Errno Text) w = (.error (.error .enoent), w) := by
        simp [getPath, hp]
      rw [AdbFs.handle, AdbFs.setattr, bind_of_error hget]
      exact SameOps.asks rfl
    | some p =>
      rw [AdbFs.script, AdbFs.onPath, hp]
      exact setattr_asks size atime mtime hw hp
  | readlink ino =>
    refine asks_onPath fun p _ => AdbFs.Asks.sameAfter ?_ fun m => ?_
    · rw [mapError_snd]
      exact fetchMeta_asks p
    · have hresolve : Keeps SameOps (device (resolveSymlink p m.rawLine) : FsM (Audited τ) Errno Text) := by
        rw [resolveSymlink]
        cases parseSymlinkTarget m.rawLine (p.count '/') <;> exact ⟨fun _ => rfl⟩
      exact hresolve.bind fun _ => keeps_pure _
  | create parent name =>
    cases hdir : w.inodes.getPath parent with
    | none =>
      rw [AdbFs.handle, create_of_orphan h name hdir]
      exact SameOps.asks rfl
    | some dir =>
      rw [AdbFs.script, AdbFs.onPath, hdir]
      exact create_asks name hw hback hdir
  | mknod parent name mode => exact mknod_asks parent name mode

end Scripted

section Runs

variable {τ : Type} [AdbDevice τ] [Libc] {ops : DeviceOps (Audited τ)} {cacheTtl : ℕ}
  {opts : FsOptions} {w w' : AdbFs (Audited τ)} {call : Call}

lemma serves_asks (hw : w.Linked) (hback : w.inodes.Anchored) (hserves : Serves w call w') :
    AdbFs.Asks w.ops.rescan (w.script call.host call.request) w w' := by
  obtain ⟨spare, hwired⟩ := hw
  have hasks := handle_asks (h := call.host) call.request hwired hback
  rwa [← serve_snd, hserves] at hasks

lemma serves_anchored (hback : w.inodes.Anchored) (hserves : Serves w call w') :
    w'.inodes.Anchored := by
  have hsteps := steps_handle call.host call.request w
  rw [← serve_snd, hserves] at hsteps
  exact (hback.steps hsteps).1

def Scripted (rescan : Bool) (call : AdbFs (Audited τ) × Call × AdbFs (Audited τ))
    (asked : List Exchange) : Prop :=
  call.1.ops.rescan = rescan ∧
    CarriesOut Exchange.Obeys (call.1.script call.2.1.host call.2.1.request) asked

/-- Over any run, on any device: what is asked while a request is served carries out the script of
the request, with the option of the mount for the broadcasts. -/
theorem requests_carry_out_scripts {calls : List (AdbFs (Audited τ) × Call × AdbFs (Audited τ))}
    (hrun : Trace Serves (AdbFs.new ops cacheTtl opts) calls w) :
    ∃ asked : List (List Exchange), w.ops.adb.log = ops.adb.log ++ asked.flatten ∧
      List.Forall₂ (Scripted ops.rescan) calls asked := by
  have hstart : (AdbFs.new ops cacheTtl opts).ops.rescan = ops.rescan ∧
      (AdbFs.new ops cacheTtl opts).Linked ∧ (AdbFs.new ops cacheTtl opts).inodes.Anchored :=
    ⟨rfl, linked_of_run .refl, Inodes.anchored_new⟩
  have hkeeps := hrun.adds (fun w => w.ops.adb.log) (Scripted ops.rescan)
    (I := fun w => w.ops.rescan = ops.rescan ∧ w.Linked ∧ w.inodes.Anchored) hstart
  refine (hkeeps ?_).2
  rintro s call t ⟨hs, hlinked, hback⟩ hserves
  obtain ⟨ht, es, hes, hcarries⟩ := serves_asks hlinked hback hserves rfl
  exact ⟨⟨ht.trans hs, (serves_othersKept hlinked hserves).linked, serves_anchored hback hserves⟩,
    es, hes, hs, hcarries⟩

end Runs

section Plain

attribute [local instance] plainLibc

def auditedFs : AdbFs (Audited Phone) :=
  AdbFs.new ⟨⟨plainPhone twoFiles [], []⟩, true, true⟩ (10 ^ 9) {}

def auditedLookup : Option Reply × AdbFs (Audited Phone) :=
  AdbFs.serve (plainHost 0 0 0) (.lookup 1 nameA) auditedFs

def auditedRename : Option Reply × AdbFs (Audited Phone) :=
  AdbFs.serve (plainHost 0 0 0) renameAB auditedLookup.2

def auditedCalls : List (AdbFs (Audited Phone) × Call × AdbFs (Audited Phone)) :=
  [(auditedFs, ⟨.lookup 1 nameA, plainHost 0 0 0, auditedLookup.1⟩, auditedLookup.2),
    (auditedLookup.2, ⟨renameAB, plainHost 0 0 0, auditedRename.1⟩, auditedRename.2)]

set_option maxRecDepth 8000 in
/-- Of the four commands that are asked of the device, two are broadcasts. -/
theorem requests_carry_out_scripts_of_rename :
    auditedRename.1 = some .ok ∧ auditedRename.2.ops.adb.log.length = 4 ∧
      ∃ asked : List (List Exchange), auditedRename.2.ops.adb.log = [] ++ asked.flatten ∧
        List.Forall₂ (Scripted true) auditedCalls asked := by
  have hrun : Trace Serves auditedFs auditedCalls auditedRename.2 := .cons rfl (.cons rfl .nil)
  exact ⟨by decide, by decide, requests_carry_out_scripts hrun⟩

end Plain

end Adbfs
