import Adbfs.Handlers
import Adbfs.Library.Outcome
import Adbfs.Library.Paging
import Adbfs.LsFormat
import Adbfs.Mock
import Adbfs.Upkeep

namespace Adbfs

open Library Library.Action Library.Paging

section Children

variable {τ : Type} {h : Host}

/-- What the entry of a child carries: its name, the type that the listing gave it, and the inode that
its path is assigned to. -/
structure ChildEntry (t : Inodes) (path : Text) (entry : Text × Option FileMeta) (child : DirEntry) :
    Prop where
  name : child.name = entry.1
  kind : child.kind = (entry.2.map fun m => modeToFiletype m.mode).getD .regularFile
  ino : t.pathToIno.lookup (childText path entry.1) = some child.ino

def AssignsMore (t t' : Inodes) : Prop :=
  ∀ p i, t.pathToIno.lookup p = some i → t'.pathToIno.lookup p = some i

lemma assignsMore_getOrAssignIno (t : Inodes) (p : Text) : AssignsMore t (t.getOrAssignIno p).2 := by
  intro q i hq
  cases hl : t.pathToIno.lookup p with
  | some j => rwa [Inodes.getOrAssignIno_of_some hl]
  | none =>
    have hne : q ≠ p := by
      rintro rfl
      simp [hl] at hq
    rw [Inodes.getOrAssignIno_of_none hl]
    exact (AList.lookup_insert_ne hne).trans hq

lemma lookup_getOrAssignIno (t : Inodes) (p : Text) :
    (t.getOrAssignIno p).2.pathToIno.lookup p = some (t.getOrAssignIno p).1 := by
  cases hl : t.pathToIno.lookup p with
  | some j => rwa [Inodes.getOrAssignIno_of_some hl]
  | none =>
    rw [Inodes.getOrAssignIno_of_none hl]
    exact AList.lookup_insert _

lemma ChildEntry.mono {t t' : Inodes} {path : Text} {entry : Text × Option FileMeta} {child : DirEntry}
    (hchild : ChildEntry t path entry child) (hmore : AssignsMore t t') :
    ChildEntry t' path entry child :=
  ⟨hchild.name, hchild.kind, hmore _ _ hchild.ino⟩

def childrenOf (entries : List (Text × Option FileMeta)) : List (Text × Option FileMeta) :=
  entries.filter fun entry => !isDots entry.1

lemma listEntry_lists (path : Text) (entry : Text × Option FileMeta) (w : AdbFs τ) :
    Ends (listEntry h path entry) w
      (fun children t => AssignsMore w.inodes t.inodes ∧
        List.Forall₂ (ChildEntry t.inodes path) (childrenOf [entry]) children)
      fun _ _ => False := by
  obtain ⟨name, known⟩ := entry
  rw [listEntry]
  split_ifs with hdots
  · have hnone : childrenOf [(name, known)] = [] := by simp [childrenOf, hdots]
    rw [hnone]
    exact ⟨fun _ _ hq => hq, .nil⟩
  · have hone : childrenOf [(name, known)] = [(name, known)] := by simp [childrenOf, hdots]
    rw [hone]
    apply ends_bind.mpr
    apply ends_lift.mpr
    have hino := lookup_getOrAssignIno w.inodes (childText path name)
    have hmore := assignsMore_getOrAssignIno w.inodes (childText path name)
    cases known with
    | none => exact ⟨hmore, .cons ⟨rfl, rfl, hino⟩ .nil⟩
    | some m => exact ⟨hmore, .cons ⟨rfl, rfl, hino⟩ .nil⟩

/-- The children of a listing come in its order, one for each of its entries that is no dot entry. -/
lemma listEntries_lists (path : Text) (entries : List (Text × Option FileMeta)) (w : AdbFs τ) :
    Ends (listEntries h path entries) w
      (fun children t => AssignsMore w.inodes t.inodes ∧
        List.Forall₂ (ChildEntry t.inodes path) (childrenOf entries) children)
      fun _ _ => False := by
  induction entries generalizing w with
  | nil => exact ⟨fun _ _ hq => hq, .nil⟩
  | cons entry entries ih =>
    apply ends_bind.mpr
    refine (listEntry_lists path entry w).imp (fun first u hfirst => ?_) fun _ _ => id
    obtain ⟨hmore, hfirst⟩ := hfirst
    apply ends_bind.mpr
    refine (ih u).imp (fun rest t hrest => ?_) fun _ _ => id
    obtain ⟨hlater, hrest⟩ := hrest
    refine ⟨fun q i hq => hlater q i (hmore q i hq), ?_⟩
    have hsplit : childrenOf (entry :: entries) = childrenOf [entry] ++ childrenOf entries := by
      rw [childrenOf, childrenOf, childrenOf, ← List.filter_append, List.singleton_append]
    rw [hsplit]
    exact List.rel_append (hfirst.imp fun _ _ hchild => hchild.mono hlater) hrest

end Children

section Paging

variable {τ : Type} [AdbDevice τ] [Libc] {h : Host} {w w' : AdbFs τ} {fh offset : ℕ}
  {dir : List DirEntry} {es page : List (DirEntry × ℕ)}

/-- Reads of a directory from its start, each at the offset that the last entry came with; the
capacity of every reply is the host's. -/
inductive ReadsDir (fh : ℕ) (w : AdbFs τ) : List (DirEntry × ℕ) → AdbFs τ → Prop
  | start : ReadsDir fh w [] w
  | next {es page : List (DirEntry × ℕ)} {u u' : AdbFs τ} (h : Host) : ReadsDir fh w es u →
      AdbFs.serve h (.readdir fh (resume es)) u = (some (.directory page), u') →
      ReadsDir fh w (es ++ page) u'

lemma serve_readdir (hdir : w.openDirs.lookup fh = some dir) :
    AdbFs.serve h (.readdir fh offset) w = (some (.directory (Paging.page dir offset h.room)), w) := by
  have hread : AdbFs.handle h (.readdir fh offset) w =
      (.ok (.directory (Paging.page dir offset h.room)), w) := by
    change AdbFs.readdir h fh offset w = _
    rw [AdbFs.readdir, bind_read_apply, hdir]
    rfl
  rw [AdbFs.serve, hread]

lemma ReadsDir.pages (hdir : w.openDirs.lookup fh = some dir) (hr : ReadsDir fh w es w') :
    w' = w ∧ Pages dir es := by
  induction hr with
  | start => exact ⟨rfl, .start⟩
  | next h _ hserve ih =>
    obtain ⟨rfl, hpages⟩ := ih
    rw [serve_readdir hdir] at hserve
    obtain ⟨hpage, rfl⟩ := Prod.mk.inj hserve
    obtain rfl := Reply.directory.inj (Option.some.inj hpage)
    exact ⟨rfl, hpages.next h.room⟩

/-- What an `opendir` of this inode stores for the listing that the device gives of its path: the two
dot entries, and the children in the order of the listing. -/
def StoresListing (h : Host) (ino : ℕ) (w₀ w : AdbFs τ) (dir : List DirEntry) : Prop :=
  ∃ path entries u children t,
    w₀.inodes.getPath ino = some path ∧ device (listDir path) w₀ = (.ok entries, u) ∧
    listEntries h path entries u = (.ok children, t) ∧
    List.Forall₂ (ChildEntry w.inodes path) (childrenOf entries) children ∧
    dir = ⟨ino, .directory, ['.']⟩ :: ⟨ino, .directory, ['.', '.']⟩ :: children

lemma opendir_stores (ino : ℕ) (w₀ : AdbFs τ) :
    Ends (AdbFs.opendir h ino) w₀ (fun reply w => ∀ fh flags, reply = .opened fh flags →
      ∃ dir, w.openDirs.lookup fh = some dir ∧ StoresListing h ino w₀ w dir)
      fun _ _ => True := by
  refine ends_getPath.mpr ⟨fun path hpath => ?_, fun _ => trivial⟩
  apply ends_bind.mpr
  refine ends_of_apply (fun entries u hentries => ?_) fun _ _ _ => trivial
  apply ends_bind.mpr
  refine (listEntries_lists path entries u).remember.imp (fun children t hchildren => ?_)
    fun _ _ _ => trivial
  obtain ⟨⟨-, hlisted⟩, hran⟩ := hchildren
  intro fh flags hreply
  obtain ⟨rfl, -⟩ := Reply.opened.inj hreply
  exact ⟨_, AList.lookup_insert _, path, entries, u, children, t, hpath, hentries, hran, hlisted, rfl⟩

/-- Every read on the handle is answered with the entries behind its offset, as many as it has room
for. Whatever the capacities of the replies, the entries come in the order in which they were stored,
each of them once; a reply with room that brings none is the end; and the offset of an entry leads to
the entries behind it. -/
theorem readdir_pages {ino : ℕ} {flags : FopenFlags} {w₀ : AdbFs τ}
    (hopen : AdbFs.serve h (.opendir ino) w₀ = (some (.opened fh flags), w)) :
    ∃ dir, w.openDirs.lookup fh = some dir ∧ StoresListing h ino w₀ w dir ∧
      ∀ es w', ReadsDir fh w es w' →
        (∀ (h' : Host) offset, ∃ page,
          AdbFs.serve h' (.readdir fh offset) w' = (some (.directory page), w') ∧
            page.map Prod.fst = (dir.drop offset).take h'.room) ∧
        es.map Prod.fst <+: dir ∧
        (∀ h' : Host, 0 < h'.room →
          (AdbFs.serve h' (.readdir fh (resume es)) w').1 = some (.directory []) →
          es.map Prod.fst = dir) ∧
        ∀ e offset, (e, offset) ∈ es → ∀ h' : Host, ∃ before behind,
          dir = before ++ e :: behind ∧ before.length + 1 = offset ∧
          ∃ page, (AdbFs.serve h' (.readdir fh offset) w').1 = some (.directory page) ∧
            page.map Prod.fst = behind.take h'.room := by
  have hhandle : AdbFs.opendir h ino w₀ = (.ok (.opened fh flags), w) :=
    handle_of_serve (by simp) hopen
  obtain ⟨dir, hdir, hstored⟩ := (opendir_stores ino w₀).of_ok hhandle fh flags rfl
  refine ⟨dir, hdir, hstored, fun es w' hr => ?_⟩
  obtain ⟨rfl, hpages⟩ := hr.pages hdir
  refine ⟨fun h' offset => ?_, hpages.delivers_front, fun h' hroom hnone => ?_,
    fun e offset hmem h' => ?_⟩
  · exact ⟨_, serve_readdir hdir, map_fst_page dir offset h'.room⟩
  · rw [serve_readdir hdir] at hnone
    exact hpages.complete hroom (Reply.directory.inj (Option.some.inj hnone))
  · obtain ⟨before, behind, hsplit, hlength, hpage⟩ := hpages.resume_behind hmem h'.room
    exact ⟨before, behind, hsplit, hlength, _, by rw [serve_readdir hdir], hpage⟩

end Paging

section Examples

attribute [local instance] plainLibc

def listsRoot : AdbFs MockAdb :=
  mockFs (MockAdb.new [MockAdb.out ["drwxr-xr-x 2 root root 4096 2024-01-01 00:00 .".toList,
    "-rw-r--r-- 1 root root 0 2024-01-01 00:00 a".toList]])

def openRoot : Option Reply × AdbFs MockAdb :=
  AdbFs.serve (plainHost 0 0 0) (.opendir 1) listsRoot

def dotEntry (name : Text) : DirEntry := ⟨1, .directory, name⟩

def rootDir : List DirEntry :=
  [dotEntry ['.'], dotEntry ['.', '.'], ⟨2, .regularFile, ['a']⟩]

example : (AdbFs.serve (plainHost 0 0 2) (.readdir 1 1) openRoot.2).1 =
    some (.directory [(dotEntry ['.', '.'], 2), (⟨2, .regularFile, ['a']⟩, 3)]) := by
  decide +kernel

lemma openRoot_eq : openRoot = (some (.opened 1 FopenFlags.none), openRoot.2) := by
  have hreply : openRoot.1 = some (.opened 1 FopenFlags.none) := by decide +kernel
  rw [← hreply]

lemma lookup_openRoot : openRoot.2.openDirs.lookup 1 = some rootDir := by decide +kernel

theorem readdir_pages_of_root :
    StoresListing (plainHost 0 0 0) 1 listsRoot openRoot.2 rootDir ∧
      ∀ es w', ReadsDir 1 openRoot.2 es w' → es.map Prod.fst <+: rootDir ∧
        ∃ page, (AdbFs.serve (plainHost 0 0 2) (.readdir 1 1) w').1 = some (.directory page) ∧
          page.map Prod.fst = [dotEntry ['.', '.'], ⟨2, .regularFile, ['a']⟩] := by
  obtain ⟨dir, hdir, hstored, hreads⟩ := readdir_pages openRoot_eq
  obtain rfl : rootDir = dir := Option.some.inj (lookup_openRoot.symm.trans hdir)
  refine ⟨hstored, fun es w' hr => ?_⟩
  obtain ⟨hpage, hfront, -⟩ := hreads es w' hr
  obtain ⟨page, hserved, hmap⟩ := hpage (plainHost 0 0 2) 1
  exact ⟨hfront, page, congrArg Prod.fst hserved, hmap⟩

end Examples

end Adbfs
