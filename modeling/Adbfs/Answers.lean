import Adbfs.Audit

/-! What a reply about a file rests on: an answer of the device that is recent enough. -/

namespace Adbfs

open Library Library.Action

section Operations

variable {τ α : Type} {s : DeviceOps (Audited τ)}

lemma ends_note {f : Result AdbError α → Exchange} {x : Action τ AdbError α}
    {Q : α → DeviceOps (Audited τ) → Prop} {E : Abort DeviceError → DeviceOps (Audited τ) → Prop} :
    Ends (DeviceOps.transport (Audited.note f x)) s Q E ↔ Ends x s.adb.device
      (fun a d => Q a { s with adb := ⟨d, s.adb.log ++ [f (.ok a)]⟩ })
      fun e d => E (e.map .adb) { s with adb := ⟨d, s.adb.log ++ [f (.error e)]⟩ } := by
  rw [DeviceOps.transport, ends_zoom, ends_mapError]
  cases hx : x s.adb.device with
  | mk r d => cases r <;> simp only [Ends, Audited.note, hx]

lemma adds_of_asks {x : OpsM (Audited τ) α} {orders : Bool → List Order}
    (hx : ∀ b, Keeps (Asks b (orders b)) x) : Keeps (Adds (fun s => s.adb.log) fun _ => True) x :=
  ⟨fun s => ((hx s.rescan).holds s rfl).2.imp fun _ _ => trivial⟩

end Operations

section Says

variable [Libc]

/-- The answer says this of the path: the metadata of the file, or that there is none. -/
def Exchange.Says (p : Text) (m : Option FileMeta) : Exchange → Prop
  | .shellWithStderr command (.ok output) => command = lsMetadataCmd p ∧
    ∃ line rest, metadataLines output = line :: rest ∧ ¬ permissionErrSuffix <:+ line ∧
      parseLsLine line = some m
  | .shell command (.ok lines) => ∃ dir name, command = lsDirCmd dir ∧ isDots name = false ∧
    p = childText dir name ∧ m ≠ none ∧ ∃ line ∈ lines, listLine line = some (some (name, m))
  | _ => False

variable {τ : Type} {s : DeviceOps (Audited τ)} {p : Text}

lemma decodeMetadata_heard {output : ShellOutput} {lines : List Text}
    (hlines : metadataLines output = lines) :
    Ends (decodeMetadata p lines) s
      (fun m t => t = s ∧ (Exchange.shellWithStderr (lsMetadataCmd p) (.ok output)).Says p (some m))
      fun r t => t = s ∧ (r.map DeviceError.toErrno = .error .enoent →
        (Exchange.shellWithStderr (lsMetadataCmd p) (.ok output)).Says p none) := by
  cases lines with
  | nil => exact ⟨rfl, fun hr => by cases hr⟩
  | cons line rest =>
    rw [decodeMetadata]
    split_ifs with hdenied
    · exact ⟨rfl, fun hr => by cases hr⟩
    · apply ends_bind.mpr
      apply ends_orCrash.mpr
      refine ⟨fun parsed hparsed => ?_, fun _ => ⟨rfl, fun hr => by cases hr⟩⟩
      have hheard : (Exchange.shellWithStderr (lsMetadataCmd p) (.ok output)).Says p parsed :=
        ⟨rfl, line, rest, hlines, hdenied, hparsed⟩
      apply ends_ofOption.mpr
      exact ⟨fun m hm => ⟨rfl, hm ▸ hheard⟩, fun hm => ⟨rfl, fun _ => hm ▸ hheard⟩⟩

variable [AdbDevice τ]

lemma getMetadata_heard (p : Text) (s : DeviceOps (Audited τ)) :
    Ends (getMetadata p) s
      (fun m t => Adds (fun s => s.adb.log) (fun es => ∃ e ∈ es, e.Says p (some m)) s t)
      fun r t => Adds (fun s => s.adb.log) (fun es =>
        r.map DeviceError.toErrno = .error .enoent → ∃ e ∈ es, e.Says p none) s t := by
  apply ends_bind.mpr
  apply ends_note.mpr
  apply ends_of_apply
  · intro output d _
    apply (decodeMetadata_heard rfl).imp
    · rintro m t ⟨rfl, hheard⟩
      exact ⟨[_], rfl, _, List.mem_singleton_self _, hheard⟩
    · rintro r t ⟨rfl, hheard⟩
      exact ⟨[_], rfl, fun hr => ⟨_, List.mem_singleton_self _, hheard hr⟩⟩
  · intro e d _
    exact ⟨[_], rfl, fun hr => by cases e <;> cases hr⟩

lemma listDir_heard (dir : Text) (s : DeviceOps (Audited τ)) :
    Ends (listDir dir) s
      (fun entries t => ∃ e, t.adb.log = s.adb.log ++ [e] ∧ ∀ name m, (name, some m) ∈ entries →
        isDots name = false → e.Says (childText dir name) (some m))
      fun _ t => Adds (fun s => s.adb.log) (fun _ => True) s t := by
  apply ends_bind.mpr
  apply ends_note.mpr
  apply ends_of_apply
  · intro lines d _
    apply ends_orCrash.mpr
    refine ⟨fun entries hentries => ⟨_, rfl, fun name m hmem hdots => ?_⟩, fun _ => ?_⟩
    · exact ⟨dir, name, rfl, hdots, rfl, by simp, mem_listLines hentries hmem⟩
    · exact ⟨[_], rfl, trivial⟩
  · exact fun e d _ => ⟨[_], rfl, trivial⟩

end Says

section Learns

variable [Libc] {τ : Type} {w u w' : AdbFs (Audited τ)} {now : ℕ} {p : Text} {m : Option FileMeta}

def AdbFs.log (w : AdbFs (Audited τ)) : List Exchange := w.ops.adb.log

/-- The cache is told nothing but what the device says meanwhile. -/
def Learns (now : ℕ) (w w' : AdbFs (Audited τ)) : Prop :=
  w'.cache.ttl = w.cache.ttl ∧ Adds AdbFs.log (fun es => ∀ p e,
    w'.cache.entries.lookup p = some e → w.cache.entries.lookup p = some e ∨
      e.insertedAt = now ∧ ∃ x ∈ es, x.Says p e.fileMeta) w w'

def Said (p : Text) (m : Option FileMeta) (w w' : AdbFs (Audited τ)) : Prop :=
  Adds AdbFs.log (fun es => ∃ x ∈ es, x.Says p m) w w'

/-- The device says so now, or has said so within the time to live. -/
def Grounded (now : ℕ) (p : Text) (m : Option FileMeta) (w w' : AdbFs (Audited τ)) : Prop :=
  Said p m w w' ∨ ∃ e, w.cache.entries.lookup p = some e ∧ e.fileMeta = m ∧
    now - e.insertedAt ≤ w.cache.ttl

lemma learns_of_cache (hcache : w'.cache = w.cache) (hlog : Adds AdbFs.log (fun _ => True) w w') :
    Learns now w w' := by
  refine ⟨by rw [hcache], hlog.imp fun es _ p e he => Or.inl ?_⟩
  rwa [hcache] at he

lemma learns_of_fewer (hlog : w'.log = w.log) (httl : w'.cache.ttl = w.cache.ttl)
    (hfewer : ∀ p e, w'.cache.entries.lookup p = some e → w.cache.entries.lookup p = some e) :
    Learns now w w' := ⟨httl, .of_eq hlog fun p e he => Or.inl (hfewer p e he)⟩

lemma Learns.trans (h : Learns now w u) (h' : Learns now u w') : Learns now w w' := by
  refine ⟨h'.1.trans h.1, h.2.trans h'.2 fun es fs hes hfs p e he => ?_⟩
  rcases hfs p e he with he | ⟨hnow, x, hx, hheard⟩
  · rcases hes p e he with he | ⟨hnow, x, hx, hheard⟩
    · exact Or.inl he
    · exact Or.inr ⟨hnow, x, List.mem_append_left _ hx, hheard⟩
  · exact Or.inr ⟨hnow, x, List.mem_append_right _ hx, hheard⟩

instance : Std.Refl (@Learns _ τ now) := ⟨fun _ => learns_of_cache rfl (.of_eq rfl trivial)⟩

instance : IsTrans (AdbFs (Audited τ)) (Learns now) := ⟨fun _ _ _ => Learns.trans⟩

instance [AdbDevice τ] : Frame (@Learns _ τ now) where
  same w w' hops hcache _ := learns_of_cache hcache (.of_eq (by rw [AdbFs.log, hops]; rfl) trivial)
  pull p here w w' hops hcache _ := learns_of_cache hcache ⟨[_], by rw [AdbFs.log, hops]; rfl, trivial⟩

lemma Said.trans (h : Said p m w u) (h' : Learns now u w') : Said p m w w' :=
  Adds.trans h h'.2 fun _ _ ⟨x, hx, hheard⟩ _ => ⟨x, List.mem_append_left _ hx, hheard⟩

lemma Learns.said (h : Learns now w u) (h' : Said p m u w') : Said p m w w' :=
  Adds.trans h.2 h' fun _ _ _ ⟨x, hx, hheard⟩ => ⟨x, List.mem_append_right _ hx, hheard⟩

lemma Grounded.trans (h : Grounded now p m w u) (h' : Learns now u w') : Grounded now p m w w' :=
  h.imp_left fun hsaid => hsaid.trans h'

lemma Learns.insert (h : Learns now w w') (hsaid : Said p m w w') :
    Learns now w (w'.setCache (MetadataCache.insert p m now)) := by
  obtain ⟨es, hes, x, hx, hheard⟩ := hsaid
  obtain ⟨httl, fs, hfs, hentries⟩ := h
  obtain rfl : es = fs := List.append_cancel_left (hes.symm.trans hfs)
  refine ⟨httl, es, hes, fun q e he => ?_⟩
  change (w'.cache.entries.insert p ⟨m, now⟩).lookup q = some e at he
  rw [Table.lookup_insert_eq] at he
  split_ifs at he with hq
  · obtain rfl := Option.some.inj he
    exact Or.inr ⟨rfl, x, hx, hq ▸ hheard⟩
  · exact hentries q e he

lemma learns_get (p : Text) (at' : ℕ) (w : AdbFs (Audited τ)) :
    Learns now w (w.setCache fun c => (c.get p at').2) := by
  have hlog : (w.setCache fun c => (c.get p at').2).log = w.log := rfl
  apply learns_of_fewer hlog
  · change (w.cache.get p at').2.ttl = w.cache.ttl
    rcases w.cache.get_cases p at' with ⟨_, heq, -⟩ | ⟨-, heq | heq⟩ <;> rw [heq]
    rfl
  · intro q e he
    change (w.cache.get p at').2.entries.lookup q = some e at he
    rcases w.cache.get_cases p at' with ⟨_, heq, -⟩ | ⟨-, heq | heq⟩
    · rwa [heq] at he
    · rwa [heq] at he
    · rw [heq, MetadataCache.invalidate, Table.lookup_erase_eq] at he
      split_ifs at he
      exact he

lemma learns_invalidate (p : Text) (w : AdbFs (Audited τ)) :
    Learns now w (w.setCache (MetadataCache.invalidate p)) := by
  have hlog : (w.setCache (MetadataCache.invalidate p)).log = w.log := rfl
  refine learns_of_fewer hlog rfl fun q e he => ?_
  change (w.cache.entries.erase p).lookup q = some e at he
  rw [Table.lookup_erase_eq] at he
  split_ifs at he
  exact he

lemma learns_invalidatePrefix (p : Text) (w : AdbFs (Audited τ)) :
    Learns now w (w.setCache (MetadataCache.invalidatePrefix p)) := by
  have hlog : (w.setCache (MetadataCache.invalidatePrefix p)).log = w.log := rfl
  refine learns_of_fewer hlog rfl fun q e he => ?_
  change (Table.retain _ w.cache.entries).lookup q = some e at he
  rw [Table.lookup_retain, Option.filter_eq_some_iff] at he
  exact he.1

end Learns

section Procedures

variable [Libc] {τ α : Type} [AdbDevice τ] {w u w' : AdbFs (Audited τ)} {p : Text} {now : ℕ}
  (h : Host)

omit [AdbDevice τ] in
lemma learns_onDevice {x : OpsM (Audited τ) α} (hx : Keeps (Adds (fun s => s.adb.log) fun _ => True) x) :
    Keeps (Learns now) (onDevice x) :=
  keeps_zoom fun w => learns_of_cache rfl (hx.holds w.ops)

omit [AdbDevice τ] in
lemma learns_setInodes (f : Inodes → Inodes) :
    Keeps (Learns now) (update (AdbFs.setInodes f) : FsM (Audited τ) Errno Unit) :=
  keeps_update fun _ => learns_of_cache rfl (.of_eq rfl trivial)

omit [AdbDevice τ] in
lemma learns_device {x : OpsM (Audited τ) α} {orders : Bool → List Order}
    (hx : ∀ b, Keeps (Asks b (orders b)) x) : Keeps (Learns now) (device x) :=
  (learns_onDevice (adds_of_asks hx)).mapError

lemma onDevice_getMetadata_heard (p : Text) (w : AdbFs (Audited τ)) :
    Ends (onDevice (getMetadata p)) w
      (fun m w' => Learns now w w' ∧ Said p (some m) w w')
      fun r w' => Learns now w w' ∧
        (r.map DeviceError.toErrno = .error .enoent → Said p none w w') := by
  apply ends_onDevice.mpr
  apply (getMetadata_heard p w.ops).imp
  · exact fun m s hs => ⟨learns_of_cache rfl (hs.imp fun _ _ => trivial), hs⟩
  · exact fun r s hs => ⟨learns_of_cache rfl (hs.imp fun _ _ => trivial),
      fun hr => hs.imp fun _ hes => hes hr⟩

lemma fetchMeta_grounded (p : Text) (w : AdbFs (Audited τ)) :
    Ends (fetchMeta h p) w
      (fun m w' => Learns h.now w w' ∧ Grounded h.now p (some m) w w')
      fun r w' => Learns h.now w w' ∧
        (r.map DeviceError.toErrno = .error .enoent → Grounded h.now p none w w') := by
  have hget : Learns h.now w (w.setCache fun c => (c.get p h.now).2) := learns_get p h.now w
  apply ends_bind.mpr
  apply ends_lift.mpr
  cases hhit : (w.cache.get p h.now).1 with
  | some known =>
    have hground : ∀ w', Grounded h.now p known w w' :=
      fun _ => Or.inr (MetadataCache.get_of_some hhit)
    cases known with
    | none => exact ⟨hget, fun _ => hground _⟩
    | some m => exact ⟨hget, hground _⟩
  | none =>
    apply ends_bind.mpr
    apply ends_attempt.mpr
    apply (onDevice_getMetadata_heard p _).imp
    · rintro m u ⟨hlearns, hsaid⟩
      have hsaid' : Said p (some m) w u := hget.said hsaid
      exact ⟨(hget.trans hlearns).insert hsaid', Or.inl hsaid'⟩
    · rintro (e | _) u ⟨hlearns, hsaid⟩
      · have hlearnt := hget.trans hlearns
        cases e with
        | notFound q =>
          have hsaid' : Said p none w u := hget.said (hsaid rfl)
          exact ⟨hlearnt.insert hsaid', fun _ => Or.inl hsaid'⟩
        | _ => exact ⟨hlearnt, fun hr => Or.inl (hget.said (hsaid hr))⟩
      · exact ⟨hget.trans hlearns, fun hr => nomatch hr⟩

lemma learns_pushIfDirty (i id : ℕ) :
    Keeps (Learns now) (pushIfDirty i id : FsM (Audited τ) Errno Unit) := by
  apply keeps_read.bind
  intro w
  split_ifs
  · apply (keeps_onFiles _).bind
    intro _
    split
    · exact (keeps_onFiles _).bind fun _ => keeps_fail _
    · apply (learns_device fun b => asks_pushAndSync _ _ _).attempt.bind
      rintro (e | _)
      · exact (keeps_onFiles _).bind fun _ => keeps_fail _
      · exact keeps_update (learns_invalidate _)
  · exact keeps_pure _

lemma learns_touchTimes (p : Text) (atime mtime : Option TimeOrNow) :
    Keeps (Learns now) (touchTimes h p atime mtime : FsM (Audited τ) Errno Unit) := by
  rw [touchTimes]
  split_ifs with htimes
  · exact keeps_pure _
  · exact (learns_device fun b => asks_touch p htimes).bind fun _ => keeps_update (learns_invalidate _)

lemma newEntry_heard (p : Text) (f : FileMeta → ℕ → AdbFs (Audited τ) → Reply) (hu : Learns h.now w u) :
    Ends (device (getMetadata p) >>= fun m => getOrAssignIno p >>= fun ino =>
        cacheInsert p (some m) h.now >>= fun _ => read >>= fun w => pure (f m ino w)) u
      (fun reply w' => Learns h.now w w' ∧ ∃ m ino, reply = f m ino w' ∧ Said p (some m) w w')
      fun _ w' => Learns h.now w w' := by
  apply ends_bind.mpr
  apply ends_mapError.mpr
  apply (onDevice_getMetadata_heard p u).imp
  · rintro m v ⟨hlearns, hsaid⟩
    have hassigned : Learns h.now v (v.setInodes fun t => (t.getOrAssignIno p).2) :=
      learns_of_cache rfl (.of_eq rfl trivial)
    have hsaid' : Said p (some m) w v := hu.said hsaid
    have hlearnt := ((hu.trans hlearns).trans hassigned).insert hsaid'
    exact ⟨hlearnt, m, _, rfl, hsaid'⟩
  · exact fun _ v hv => hu.trans hv.1

end Procedures

section Listings

variable [Libc] {τ : Type} {w u w' : AdbFs (Audited τ)} {now : ℕ} {x : Exchange} {dir : Text}

def LearnsFrom (x : Exchange) (now : ℕ) (w w' : AdbFs (Audited τ)) : Prop :=
  w'.log = w.log ∧ w'.cache.ttl = w.cache.ttl ∧ ∀ p e, w'.cache.entries.lookup p = some e →
    w.cache.entries.lookup p = some e ∨ e.insertedAt = now ∧ x.Says p e.fileMeta

instance : Std.Refl (@LearnsFrom _ τ x now) := ⟨fun _ => ⟨rfl, rfl, fun _ _ => Or.inl⟩⟩

instance : IsTrans (AdbFs (Audited τ)) (LearnsFrom x now) where
  trans _ _ _ h h' := ⟨h'.1.trans h.1, h'.2.1.trans h.2.1, fun p e he =>
    (h'.2.2 p e he).elim (h.2.2 p e) Or.inr⟩

lemma learnsFrom_listEntries {h : Host} (entries : List (Text × Option FileMeta))
    (hheard : ∀ name m, (name, some m) ∈ entries → isDots name = false →
      x.Says (childText dir name) (some m)) :
    Keeps (LearnsFrom x h.now) (listEntries h dir entries : FsM (Audited τ) Errno (List DirEntry)) := by
  have hassign : ∀ p, Keeps (LearnsFrom x h.now) (getOrAssignIno p : FsM (Audited τ) Errno ℕ) :=
    fun p => keeps_lift fun _ => ⟨rfl, rfl, fun _ _ => Or.inl⟩
  induction entries with
  | nil => exact keeps_pure _
  | cons entry entries ih =>
    obtain ⟨name, known⟩ := entry
    have hentry : Keeps (LearnsFrom x h.now)
        (listEntry h dir (name, known) : FsM (Audited τ) Errno (List DirEntry)) := by
      rw [listEntry]
      split_ifs with hdots
      · exact keeps_pure _
      · apply (hassign _).bind
        intro ino
        refine Keeps.bind ?_ fun _ => keeps_pure _
        cases known with
        | none => exact keeps_pure _
        | some m =>
          refine keeps_update fun v => ⟨rfl, rfl, fun p e he => ?_⟩
          change (v.cache.entries.insert (childText dir name) ⟨some m, h.now⟩).lookup p = some e at he
          rw [Table.lookup_insert_eq] at he
          split_ifs at he with hp
          · obtain rfl := Option.some.inj he
            exact Or.inr ⟨rfl, hp ▸ hheard name m (by simp) (by simpa using hdots)⟩
          · exact Or.inl he
    apply hentry.bind
    intro _
    exact (ih fun name m hmem => hheard name m (by simp [hmem])).bind fun _ => keeps_pure _

variable [AdbDevice τ] (h : Host)

lemma learns_opendir (ino : ℕ) :
    Keeps (Learns h.now) (AdbFs.opendir h ino : FsM (Audited τ) Errno Reply) := by
  apply (keeps_getPath ino).bind
  intro dir
  have hlisted : Keeps (Learns h.now) (device (listDir dir) >>= fun entries =>
      listEntries h dir entries : FsM (Audited τ) Errno (List DirEntry)) := by
    constructor
    intro w
    apply ends_iff.mp
    apply ends_bind.mpr
    apply ends_device.mpr
    apply (listDir_heard dir w.ops).imp
    · rintro entries s ⟨x, hlog, hheard⟩
      apply ends_iff.mpr
      obtain ⟨hsame, httl, hentries⟩ :=
        (learnsFrom_listEntries (h := h) entries hheard).holds (w.setOps s)
      refine ⟨httl, [x], hsame.trans hlog, fun p e he => ?_⟩
      rcases hentries p e he with hold | ⟨hnow, hx⟩
      · exact Or.inl hold
      · exact Or.inr ⟨hnow, x, List.mem_singleton_self _, hx⟩
    · exact fun _ s hs => learns_of_cache rfl hs
  refine Keeps.group hlisted fun children => ?_
  apply keeps_takeFh.bind
  intro fh
  exact Keeps.bind (R := Learns h.now) (keeps_update fun _ => learns_of_cache rfl
    (.of_eq rfl trivial)) fun _ => keeps_pure _

end Listings

def Reply.attributes : Reply → Option FileAttr
  | .attr _ a | .entry _ a _ | .created _ a _ _ _ => some a
  | _ => none

def AdbFs.subject {τ : Type} (w : AdbFs τ) : Request → Option Text
  | .getattr ino | .setattr ino _ _ _ _ => w.inodes.getPath ino
  | .lookup parent name | .mkdir parent name | .create parent name | .mknod parent name _ =>
    (w.inodes.getPath parent).map fun dir => childPath dir name
  | _ => none

def Request.recalls : Request → Bool
  | .getattr _ | .lookup _ _ => true
  | _ => false

section Requests

variable [Libc] {τ : Type} {w u w' : AdbFs (Audited τ)} {now : ℕ}

def Basis (request : Request) (now : ℕ) (p : Text) (m : Option FileMeta) (w w' : AdbFs (Audited τ)) :
    Prop := Said p m w w' ∨ request.recalls = true ∧ Grounded now p m w w'

/-- The attributes are those of a file, or stand for a missing one, as the request is told; so is
that there is no file. -/
structure Rests (request : Request) (now : ℕ) (w : AdbFs (Audited τ)) (reply : Reply)
    (w' : AdbFs (Audited τ)) : Prop where
  attributes : ∀ p a, w.subject request = some p → reply.attributes = some a →
    (∃ ino m, a = w'.opts.metaToAttr ino m ∧ Basis request now p (some m) w w') ∨
      a = NEGATIVE_ENTRY ∧ Basis request now p none w w'
  missing : ∀ p, w.subject request = some p → request.recalls = true → reply = .error .enoent →
    Basis request now p none w w'

lemma rests_error {request : Request} (hrequest : request.recalls = false) (e : Errno) :
    Rests request now w (.error e) w' :=
  ⟨fun _ _ _ ha => (nomatch ha), fun _ _ hr => by simp [hrequest] at hr⟩

variable [AdbDevice τ] (h : Host)

def Comes (request : Request) (w : AdbFs (Audited τ)) : Prop :=
  Ends (AdbFs.handle h request) w
    (fun reply w' => Learns h.now w w' ∧ Rests request h.now w reply w')
    fun r w' => Learns h.now w w' ∧ ∀ e, r = .error e → Rests request h.now w (.error e) w'

lemma comes_of_keeps {request : Request} (hsubject : ∀ w : AdbFs (Audited τ), w.subject request = none)
    (hkeeps : Keeps (Learns h.now) (AdbFs.handle h request : FsM (Audited τ) Errno Reply)) :
    Comes h request w := by
  have hrests : ∀ reply w', Rests request h.now w reply w' := by
    intro reply w'
    constructor
    · exact fun p a hp => by simp [hsubject] at hp
    · exact fun p hp => by simp [hsubject] at hp
  apply (hkeeps.ends w).imp
  · exact fun _ _ hlearns => ⟨hlearns, hrests _ _⟩
  · exact fun _ _ hlearns => ⟨hlearns, fun _ _ => hrests _ _⟩

lemma getattr_comes (ino : ℕ) : Comes h (.getattr ino) w := by
  apply ends_getPath.mpr
  constructor
  · intro p hp
    apply ends_bind.mpr
    apply ends_mapError.mpr
    apply (fetchMeta_grounded h p w).imp
    · rintro m w' ⟨hlearns, hground⟩
      refine ⟨hlearns, fun q a hq ha => ?_, fun _ _ _ hr => nomatch hr⟩
      obtain rfl := Option.some.inj (hp.symm.trans hq)
      obtain rfl := Option.some.inj ha
      exact Or.inl ⟨ino, m, rfl, Or.inr ⟨rfl, hground⟩⟩
    · rintro r w' ⟨hlearns, hground⟩
      refine ⟨hlearns, fun e hr => ⟨fun _ _ _ ha => (nomatch ha), fun q hq _ he => ?_⟩⟩
      obtain rfl := Option.some.inj (hp.symm.trans hq)
      obtain rfl := Reply.error.inj he
      exact Or.inr ⟨rfl, hground hr⟩
  · intro hp
    refine ⟨Std.Refl.refl w, fun e _ => ⟨fun q _ hq => ?_, fun q hq => ?_⟩⟩
    · exact absurd (hp.symm.trans hq) (by simp)
    · exact absurd (hp.symm.trans hq) (by simp)

omit [Libc] [AdbDevice τ] in
lemma subject_of_path {request : Request} {parent : ℕ} {name : Bytes} {dir p : Text}
    (hsubject : w.subject request = (w.inodes.getPath parent).map fun dir => childPath dir name)
    (hdir : w.inodes.getPath parent = some dir) (hp : w.subject request = some p) :
    p = childPath dir name := by
  rw [hsubject, hdir] at hp
  exact (Option.some.inj hp).symm

omit [AdbDevice τ] in
lemma rests_of_said {request : Request} {p : Text} {m : FileMeta} {reply : Reply} {ino : ℕ}
    (hrequest : request.recalls = false) (hsubject : ∀ q, w.subject request = some q → q = p)
    (hreply : reply.attributes = some (w'.opts.metaToAttr ino m)) (hsaid : Said p (some m) w w') :
    Rests request h.now w reply w' := by
  constructor
  · intro q a hq ha
    obtain rfl := hsubject q hq
    obtain rfl := Option.some.inj (hreply.symm.trans ha)
    exact Or.inl ⟨ino, m, rfl, Or.inl hsaid⟩
  · exact fun q _ hr => by simp [hrequest] at hr

instance : Indifferent fun w w' : AdbFs (Audited τ) => w'.opts = w.opts where
  refl _ := rfl
  trans _ _ _ h h' := h'.trans h
  ops _ _ := rfl
  cache _ _ := rfl
  assign _ _ := rfl

lemma lookup_comes (parent : ℕ) (name : KernelName) : Comes h (.lookup parent name) w := by
  apply ends_getPath.mpr
  constructor
  swap
  · intro hdir
    refine ⟨Std.Refl.refl w, fun e _ => ⟨fun q _ hq => ?_, fun q hq => ?_⟩⟩
    · simp [AdbFs.subject, hdir] at hq
    · simp [AdbFs.subject, hdir] at hq
  intro dir hdir
  have hsubject : ∀ q, w.subject (.lookup parent name) = some q → q = childPath dir name :=
    fun q => subject_of_path rfl hdir
  have hopts : Keeps (fun u u' => u'.opts = u.opts)
      (fetchMeta h (childPath dir name) : FsM (Audited τ) DeviceError FileMeta) :=
    keeps_fetchMeta h _
  apply ends_bind.mpr
  apply ends_read.mpr
  apply ends_bind.mpr
  apply ends_attempt.mpr
  apply ((fetchMeta_grounded h (childPath dir name) w).and (hopts.ends w)).imp
  · rintro m u ⟨⟨hlearns, hground⟩, hopts⟩
    have hassigned : Learns h.now u (u.setInodes fun t => (t.getOrAssignIno (childPath dir name)).2) :=
      learns_of_cache rfl (.of_eq rfl trivial)
    refine ⟨hlearns.trans hassigned, fun q a hq ha => ?_, fun _ _ _ hr => nomatch hr⟩
    obtain rfl := hsubject q hq
    have hreply : a = u.opts.metaToAttr (u.inodes.getOrAssignIno (childPath dir name)).1 m := by
      rw [hopts]
      exact (Option.some.inj ha).symm
    exact Or.inl ⟨_, m, hreply, Or.inr ⟨rfl, hground.trans hassigned⟩⟩
  · rintro (e | _) u ⟨⟨hlearns, hground⟩, -⟩
    · have hmissing : e.toErrno = .enoent → Basis (.lookup parent name) h.now (childPath dir name)
          none w u := fun he => Or.inr ⟨rfl, hground (congrArg Abort.error he)⟩
      have hfailed : Rests (.lookup parent name) h.now w (.error e.toErrno) u := by
        refine ⟨fun _ _ _ ha => (nomatch ha), fun q hq _ hr => ?_⟩
        obtain rfl := hsubject q hq
        exact hmissing (Reply.error.inj hr)
      have hends : ∀ e', Abort.error e.toErrno = .error e' →
          Rests (.lookup parent name) h.now w (.error e') u := by
        rintro _ he
        obtain rfl := Abort.error.inj he
        exact hfailed
      cases e with
      | notFound q =>
        dsimp only
        split_ifs
        · refine ⟨hlearns, fun q a hq ha => ?_, fun _ _ _ hr => nomatch hr⟩
          obtain rfl := hsubject q hq
          exact Or.inr ⟨(Option.some.inj ha).symm, hmissing rfl⟩
        · exact ⟨hlearns, hends⟩
      | _ => exact ⟨hlearns, hends⟩
    · exact ⟨hlearns, fun e hr => nomatch hr⟩

lemma comes_of_newEntry {request : Request} {p : Text} {f : FileMeta → ℕ → AdbFs (Audited τ) → Reply}
    (hu : Learns h.now w u) (hrequest : request.recalls = false)
    (hsubject : ∀ q, w.subject request = some q → q = p)
    (hf : ∀ m ino w', (f m ino w').attributes = some (w'.opts.metaToAttr ino m)) :
    Ends (device (getMetadata p) >>= fun m => getOrAssignIno p >>= fun ino =>
        cacheInsert p (some m) h.now >>= fun _ => read >>= fun w => pure (f m ino w)) u
      (fun reply w' => Learns h.now w w' ∧ Rests request h.now w reply w')
      fun r w' => Learns h.now w w' ∧ ∀ e, r = .error e → Rests request h.now w (.error e) w' := by
  apply (newEntry_heard h p f hu).imp
  · rintro _ w' ⟨hlearns, m, ino, rfl, hsaid⟩
    exact ⟨hlearns, rests_of_said h hrequest hsubject (hf m ino w') hsaid⟩
  · exact fun _ w' hlearns => ⟨hlearns, fun e _ => rests_error hrequest e⟩

omit [AdbDevice τ] in
lemma comes_failed {request : Request} (hrequest : request.recalls = false) {r : Abort Errno}
    (hlearns : Learns h.now w w') :
    Learns h.now w w' ∧ ∀ e, r = .error e → Rests request h.now w (.error e) w' :=
  ⟨hlearns, fun e _ => rests_error hrequest e⟩

lemma mkdir_comes (parent : ℕ) (name : KernelName) : Comes h (.mkdir parent name) w := by
  apply ends_getPath.mpr
  refine ⟨fun dir hdir => ?_, fun _ => comes_failed h rfl (Std.Refl.refl w)⟩
  have hmade : Keeps (Learns h.now)
      (device (Adbfs.mkdir (childPath dir name)) : FsM (Audited τ) Errno Unit) :=
    learns_device fun _ => asks_mkdir _
  refine hmade.thenEnds (fun _ _ hu => comes_failed h rfl hu) fun _ u hu => ?_
  exact comes_of_newEntry h (hu.trans (learns_invalidate _ u)) rfl (fun _ => subject_of_path rfl hdir)
    fun _ _ _ => rfl

lemma mknod_comes (parent : ℕ) (name : KernelName) (mode : ℕ) :
    Comes h (.mknod parent name mode) w := by
  apply ends_getPath.mpr
  refine ⟨fun dir hdir => ?_, fun _ => comes_failed h rfl (Std.Refl.refl w)⟩
  have hpushed : Keeps (Learns h.now) (device (pushAndSync .scratch (nodeContents mode)
      (childPath dir name)) : FsM (Audited τ) Errno Unit) :=
    learns_device fun b => asks_pushAndSync _ _ _
  refine (keeps_outcome _).thenEnds (fun _ _ hu => comes_failed h rfl hu) fun _ u hu => ?_
  refine (keeps_outcome _).thenEnds (fun _ _ hv => comes_failed h rfl (hu.trans hv))
    fun _ v hv => ?_
  refine hpushed.thenEnds (fun _ _ ht => comes_failed h rfl ((hu.trans hv).trans ht)) fun _ t ht => ?_
  exact comes_of_newEntry h (((hu.trans hv).trans ht).trans (learns_invalidate _ t)) rfl
    (fun _ => subject_of_path rfl hdir) fun _ _ _ => rfl

lemma setattr_comes (ino : ℕ) (size : Option ℕ) (atime mtime : Option TimeOrNow) (fh : Option ℕ) :
    Comes h (.setattr ino size atime mtime fh) w := by
  apply ends_getPath.mpr
  refine ⟨fun p hp => ?_, fun _ => comes_failed h rfl (Std.Refl.refl w)⟩
  refine (keeps_resize h p size fun id => learns_pushIfDirty ino id).thenEnds
    (fun _ _ hu => comes_failed h rfl hu) fun _ u hu => ?_
  refine (learns_touchTimes h p atime mtime).thenEnds
    (fun _ _ hv => comes_failed h rfl (hu.trans hv)) fun _ v hv => ?_
  apply ends_bind.mpr
  apply ends_mapError.mpr
  apply (onDevice_getMetadata_heard p v).imp
  · rintro m t ⟨hlearns, hsaid⟩
    have hsaid' : Said p (some m) w t := (hu.trans hv).said hsaid
    have hlearnt := ((hu.trans hv).trans hlearns).insert hsaid'
    have hsubject : ∀ q, w.subject (.setattr ino size atime mtime fh) = some q → q = p :=
      fun q hq => Option.some.inj (hq.symm.trans hp)
    have hsaid'' : Said p (some m) w (t.setCache (MetadataCache.insert p (some m) h.now)) := hsaid'
    exact ⟨hlearnt, rests_of_said h rfl hsubject rfl hsaid''⟩
  · exact fun _ t ht => comes_failed h rfl ((hu.trans hv).trans ht.1)

lemma createOnDevice_heard (i id : ℕ) (p : Text) (u : AdbFs (Audited τ)) :
    Ends (createOnDevice h i id p) u
      (fun m w' => Learns h.now u w' ∧ Said p (some m) u w') fun _ w' => Learns h.now u w' := by
  refine (keeps_outcome _).thenEnds (fun _ _ hv => hv) fun _ v hv => ?_
  refine (learns_pushIfDirty i id).thenEnds (fun _ _ ht => hv.trans ht) fun _ t ht => ?_
  apply ends_mapError.mpr
  apply (onDevice_getMetadata_heard p t).imp
  · exact fun m w' hw' => ⟨(hv.trans ht).trans hw'.1, (hv.trans ht).said hw'.2⟩
  · exact fun _ w' hw' => (hv.trans ht).trans hw'.1

lemma create_comes (parent : ℕ) (name : KernelName) : Comes h (.create parent name) w := by
  apply ends_getPath.mpr
  refine ⟨fun dir hdir => ?_, fun _ => comes_failed h rfl (Std.Refl.refl w)⟩
  have hassign : Keeps (Learns h.now)
      (getOrAssignIno (childPath dir name) : FsM (Audited τ) Errno ℕ) :=
    keeps_lift fun _ => learns_of_cache rfl (.of_eq rfl trivial)
  refine hassign.thenEnds (fun _ _ hu => comes_failed h rfl hu) fun i u hu => ?_
  refine (keeps_acquireCopy h i _ .empty).thenEnds
    (fun _ _ hv => comes_failed h rfl (hu.trans hv)) fun id v hv => ?_
  have hwv := hu.trans hv
  apply ends_bind.mpr
  apply ends_attempt.mpr
  apply (createOnDevice_heard h i id _ v).imp
  · rintro m t ⟨hlearns, hsaid⟩
    have hsaid' : Said (childPath dir name) (some m) w t := hwv.said hsaid
    have hlearnt := (hwv.trans hlearns).insert hsaid'
    have hentered : Said (childPath dir name) (some m) w
        (t.setCache (MetadataCache.insert (childPath dir name) (some m) h.now)) := hsaid'
    apply ends_bind.mpr
    apply ends_update.mpr
    have hhandle : Keeps (Learns h.now) (addHandle i id : FsM (Audited τ) Errno ℕ) :=
      keeps_addHandle i id
    refine hhandle.thenEnds (fun _ _ hx => comes_failed h rfl (hlearnt.trans hx)) fun fh x hx => ?_
    exact ⟨hlearnt.trans hx, rests_of_said h rfl (fun _ => subject_of_path rfl hdir) rfl
      (hentered.trans hx)⟩
  · rintro (e | _) t ht
    · refine (keeps_releaseCopy h i id).thenEnds
        (fun _ _ hx => comes_failed h rfl ((hwv.trans ht).trans hx)) fun _ x hx => ?_
      exact comes_failed h rfl ((hwv.trans ht).trans hx)
    · exact comes_failed h rfl (hwv.trans ht)

lemma handle_comes (request : Request) : Comes h request w := by
  cases request with
  | getattr ino => exact getattr_comes h ino
  | lookup parent name => exact lookup_comes h parent name
  | mkdir parent name => exact mkdir_comes h parent name
  | mknod parent name mode => exact mknod_comes h parent name mode
  | create parent name => exact create_comes h parent name
  | setattr ino size atime mtime fh => exact setattr_comes h ino size atime mtime fh
  | opendir ino => exact comes_of_keeps h (fun _ => rfl) (learns_opendir h ino)
  | readdir fh offset => exact comes_of_keeps h (fun _ => rfl) (keeps_readdir h fh offset)
  | releasedir fh =>
    exact comes_of_keeps h (fun _ => rfl) ⟨fun _ => learns_of_cache rfl (.of_eq rfl trivial)⟩
  | «open» ino => exact comes_of_keeps h (fun _ => rfl) (keeps_open h ino)
  | read fh offset size => exact comes_of_keeps h (fun _ => rfl) (keeps_readFile h fh offset size)
  | write fh offset data => exact comes_of_keeps h (fun _ => rfl) (keeps_write h fh offset data)
  | flush fh =>
    exact comes_of_keeps h (fun _ => rfl) ((keeps_handleOf fh).bind fun _ =>
      (learns_pushIfDirty _ _).bind fun _ => keeps_pure _)
  | release fh => exact comes_of_keeps h (fun _ => rfl) (keeps_release h fh)
  | access ino => exact comes_of_keeps h (fun _ => rfl) (keeps_pure _)
  | unlink parent name =>
    exact comes_of_keeps h (fun _ => rfl) ((keeps_getPath parent).bind fun _ =>
      (learns_device fun _ => asks_rm _).bind fun _ =>
        (keeps_update (learns_invalidate _)).bind fun _ => keeps_pure _)
  | rmdir parent name =>
    exact comes_of_keeps h (fun _ => rfl) ((keeps_getPath parent).bind fun _ =>
      (learns_device fun _ => asks_rmdir _).bind fun _ =>
        (keeps_update (learns_invalidatePrefix _)).bind fun _ => keeps_pure _)
  | rename parent name newparent newname flags =>
    exact comes_of_keeps h (fun _ => rfl) ((keeps_getPath parent).bind fun _ =>
      (keeps_getPath newparent).bind fun _ => (learns_device fun _ => asks_mv _ _).bind fun _ =>
        (learns_setInodes _).bind fun _ => (keeps_update (learns_invalidatePrefix _)).bind fun _ =>
          (keeps_update (learns_invalidatePrefix _)).bind fun _ => keeps_pure _)
  | readlink ino =>
    have hfetch : ∀ p, Keeps (Learns h.now) (fetchMeta h p : FsM (Audited τ) DeviceError FileMeta) :=
      fun p => .of_ends fun w => (fetchMeta_grounded h p w).imp (fun _ _ hw => hw.1) fun _ _ hw => hw.1
    exact comes_of_keeps h (fun _ => rfl) ((keeps_getPath ino).bind fun p =>
      (hfetch p).mapError.bind fun _ => (learns_device fun _ => asks_resolveSymlink _ _).bind fun _ =>
        keeps_pure _)

lemma serves_learns {c : Call} (hserves : Serves w c w') : Learns c.host.now w w' := by
  have hcomes := handle_comes (w := w) c.host c.request
  have hkeeps : Learns c.host.now w (AdbFs.handle c.host c.request w).2 :=
    ends_iff.mp (hcomes.imp (fun _ _ h => h.1) fun _ _ h => h.1)
  rwa [← serve_snd, hserves] at hkeeps

lemma serve_rests {request : Request} {reply : Reply}
    (hserve : AdbFs.serve h request w = (some reply, w')) : Rests request h.now w reply w' := by
  have hcomes := handle_comes (w := w) h request
  rw [AdbFs.serve] at hserve
  split at hserve
  · next heq =>
    obtain ⟨hreply, hstate⟩ := Prod.mk.inj hserve
    obtain rfl := Option.some.inj hreply
    obtain rfl := hstate
    exact (hcomes.of_ok heq).2
  · next heq =>
    obtain ⟨hreply, hstate⟩ := Prod.mk.inj hserve
    obtain rfl := Option.some.inj hreply
    obtain rfl := hstate
    exact (hcomes.of_error heq).2 _ rfl
  · exact absurd hserve (by simp)

end Requests

section Records

variable [Libc] {τ : Type} {w w' : AdbFs (Audited τ)}

/-- What was asked of the device, request by request, with the time of each. -/
abbrev Record := List (ℕ × List Exchange)

def Record.Holds (record : Record) (p : Text) (m : Option FileMeta) (time : ℕ) : Prop :=
  ∃ c ∈ record, c.1 = time ∧ ∃ x ∈ c.2, x.Says p m

/-- The device says so among these answers, or has said so within the time to live and that will do. -/
def Record.Tells (record : Record) (request : Request) (now ttl : ℕ) (part : List Exchange) (p : Text)
    (m : Option FileMeta) : Prop :=
  (∃ x ∈ part, x.Says p m) ∨
    request.recalls = true ∧ ∃ time, now - time ≤ ttl ∧ record.Holds p m time

def Recorded (record : Record) (w : AdbFs (Audited τ)) : Prop :=
  ∀ p e, w.cache.entries.lookup p = some e → record.Holds p e.fileMeta e.insertedAt

lemma Learns.recorded {record : Record} {now : ℕ} (hlearns : Learns now w w')
    (hw : Recorded record w) : ∃ part, w'.log = w.log ++ part ∧
      Recorded (record ++ [(now, part)]) w' := by
  obtain ⟨-, part, hpart, hentries⟩ := hlearns
  refine ⟨part, hpart, fun p e he => ?_⟩
  rcases hentries p e he with hold | ⟨hnow, x, hx, hheard⟩
  · obtain ⟨c, hc, htime, hsaid⟩ := hw p e hold
    exact ⟨c, List.mem_append_left _ hc, htime, hsaid⟩
  · exact ⟨(now, part), by simp, hnow.symm, x, hx, hheard⟩

lemma Basis.tells {record : Record} {request : Request} {now : ℕ} {part : List Exchange} {p : Text}
    {m : Option FileMeta} (h : Basis request now p m w w') (hw : Recorded record w)
    (hpart : w'.log = w.log ++ part) : record.Tells request now w.cache.ttl part p m := by
  have hsaid : Said p m w w' → ∃ x ∈ part, x.Says p m := by
    rintro ⟨es, hes, hheard⟩
    rwa [List.append_cancel_left (hpart.symm.trans hes)]
  rcases h with h | ⟨hrecalls, h | ⟨e, he, hmeta, hage⟩⟩
  · exact Or.inl (hsaid h)
  · exact Or.inl (hsaid h)
  · exact Or.inr ⟨hrecalls, e.insertedAt, hage, hmeta ▸ hw p e he⟩

end Records

section Runs

variable [Libc] {τ : Type} [AdbDevice τ] {ops : DeviceOps (Audited τ)} {cacheTtl : ℕ}
  {opts : FsOptions} {w w' : AdbFs (Audited τ)}
  {calls : List (AdbFs (Audited τ) × Call × AdbFs (Audited τ))}

def Logged (call : AdbFs (Audited τ) × Call × AdbFs (Audited τ)) (c : ℕ × List Exchange) : Prop :=
  c.1 = call.2.1.host.now ∧ call.2.2.log = call.1.log ++ c.2

lemma recorded_of_trace (hrun : Trace Serves w calls w') (record : Record) (hw : Recorded record w) :
    w'.cache.ttl = w.cache.ttl ∧ ∃ more : Record, List.Forall₂ Logged calls more ∧
      Recorded (record ++ more) w' := by
  induction hrun generalizing record with
  | nil => exact ⟨rfl, [], .nil, by simpa using hw⟩
  | @cons s t u c l hserves _ ih =>
    have hlearns := serves_learns hserves
    obtain ⟨part, hpart, hrecorded⟩ := hlearns.recorded hw
    obtain ⟨httl, more, hlogged, hmore⟩ := ih _ hrecorded
    refine ⟨httl.trans hlearns.1, (c.host.now, part) :: more, .cons ⟨rfl, hpart⟩ hlogged, ?_⟩
    rwa [List.append_assoc, List.singleton_append] at hmore

end Runs

section Plain

attribute [local instance] plainLibc

def auditedGetattr : Option Reply × AdbFs (Audited Phone) :=
  AdbFs.serve (plainHost 5 0 0) (.getattr 2) auditedLookup.2

def auditedAttr : FileAttr := auditedGetattr.2.opts.metaToAttr 2 (byteNode 7).entry.fileMeta

end Plain

end Adbfs
