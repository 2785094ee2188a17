import Adbfs.Parse

namespace Adbfs

structure FsOptions where
  entryTimeout : ℕ := 10 ^ 9
  attrTimeout : ℕ := 10 ^ 9
  negativeTimeout : ℕ := 0
  uid : Option ℕ := none
  gid : Option ℕ := none
  umask : Option ℕ := none
  directIo : Bool := false
  kernelCache : Bool := false

/-- Mode, owner and group after the overrides. -/
def FsOptions.applyOwnership (opts : FsOptions) (mode uid gid : ℕ) : ℕ × ℕ × ℕ :=
  (match opts.umask with
    | some mask => (mode &&& S_IFMT) ||| (0o777 &&& (mask ^^^ (2 ^ 32 - 1)))
    | none => mode,
    opts.uid.getD uid, opts.gid.getD gid)

end Adbfs
