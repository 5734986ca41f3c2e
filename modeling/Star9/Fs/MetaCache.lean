import Star9.Fs.FileSystem

/-!
# The metadata cache

`MetaCacheFs` over an arbitrary file system: the answers of `stat`, `lstat` and
`read_dir` are kept by path and kind for a time, errors for half of it, and every
mutation throws away a chosen set of them. Instants and durations are numbers of
nanoseconds, and the instant of a call is given to it.
-/
namespace Star9
open Base

inductive CacheKind where
  | stat
  | lstat
  | readDir
deriving DecidableEq

structure CacheKey where
  path : String
  kind : CacheKind
deriving DecidableEq

inductive CachePayload where
  | metadata (result : Except Error Metadata)
  | readDir (result : Except Error (List DirEntry))

def CachePayload.isError : CachePayload → Bool
  | .metadata (.error _) => true
  | .readDir (.error _) => true
  | _ => false

structure CacheEntry where
  payload : CachePayload
  renewAt : Option Nat
  expiresAt : Nat
  refreshing : Bool

structure MetaCacheState where
  ttl : Nat
  cache : CacheKey → Option CacheEntry

def normalizeCachePath (path : String) : String := cleanPath (trimStartSlash path)

namespace MetaCacheState

def new (ttl : Nat) : MetaCacheState := { ttl, cache := fun _ => none }

def remove (key : CacheKey) (s : MetaCacheState) : MetaCacheState :=
  { s with cache := Function.update s.cache key none }

/-! ## Invalidation -/

def invalidate (path : String) (s : MetaCacheState) : MetaCacheState :=
  let path := normalizeCachePath path
  ((s.remove ⟨path, .stat⟩).remove ⟨path, .lstat⟩).remove ⟨path, .readDir⟩

/-- Keys at or below a directory. -/
def inDir (path : String) (key : CacheKey) : Bool :=
  key.path == path || path == "." || (stripPrefix (path ++ "/") key.path).isSome

def invalidateDir (path : String) (s : MetaCacheState) : MetaCacheState :=
  { s with cache := fun key => if inDir (normalizeCachePath path) key then none else s.cache key }

def invalidateParentListing (path : String) (s : MetaCacheState) : MetaCacheState :=
  s.remove ⟨parentPath (normalizeCachePath path), .readDir⟩

/-! ## Entries -/

/-- The payload of a live entry, and whether the caller is to refresh it. -/
def getCached (key : CacheKey) (now : Nat) (s : MetaCacheState) :
    Option (CachePayload × Bool) × MetaCacheState :=
  match s.cache key with
  | none => (none, s)
  | some entry =>
    if entry.expiresAt ≤ now then (none, s.remove key)
    else
      let refresh := entry.renewAt.any (· ≤ now) && !entry.refreshing
      if refresh then
        (some (entry.payload, true),
          { s with cache := Function.update s.cache key (some { entry with refreshing := true }) })
      else (some (entry.payload, false), s)

def newEntry (ttl : Nat) (payload : CachePayload) (now : Nat) : CacheEntry :=
  { payload
    renewAt := if payload.isError then none else some (now + ttl / 2)
    expiresAt := now + if payload.isError then ttl / 2 else ttl
    refreshing := false }

def setCached (key : CacheKey) (payload : CachePayload) (now : Nat) (s : MetaCacheState) : MetaCacheState :=
  if s.ttl = 0 then s
  else { s with cache := Function.update s.cache key (some (newEntry s.ttl payload now)) }

def extendExpiry (key : CacheKey) (now : Nat) (s : MetaCacheState) : MetaCacheState :=
  if s.ttl = 0 then s.remove key
  else match s.cache key with
    | none => s
    | some entry =>
      { s with cache := Function.update s.cache key (some
          { entry with renewAt := some (now + s.ttl / 2), expiresAt := now + s.ttl, refreshing := false }) }

end MetaCacheState

/-- One step of a mutation on the cache. -/
inductive Invalidation where
  | path (name : String)
  | dir (name : String)
  | parentListing (name : String)

namespace Invalidation

def apply : Invalidation → MetaCacheState → MetaCacheState
  | .path name => MetaCacheState.invalidate name
  | .dir name => MetaCacheState.invalidateDir name
  | .parentListing name => MetaCacheState.invalidateParentListing name

def covers : Invalidation → CacheKey → Bool
  | .path name, key => key.path == normalizeCachePath name
  | .dir name, key => MetaCacheState.inDir (normalizeCachePath name) key
  | .parentListing name, key => key == ⟨parentPath (normalizeCachePath name), .readDir⟩

theorem apply_cache (i : Invalidation) (s : MetaCacheState) (key : CacheKey) :
    (i.apply s).cache key = if i.covers key then none else s.cache key := by
  cases i with
  | path name =>
    obtain ⟨p, kind⟩ := key
    simp only [apply, MetaCacheState.invalidate, MetaCacheState.remove, covers, Function.update_apply,
      CacheKey.mk.injEq]
    by_cases hp : p = normalizeCachePath name
    · cases kind <;> simp [hp]
    · simp [hp]
  | dir name => rfl
  | parentListing name =>
    simp only [apply, MetaCacheState.invalidateParentListing, MetaCacheState.remove, covers,
      Function.update_apply]
    by_cases hkey : key = ⟨parentPath (normalizeCachePath name), .readDir⟩
    · simp [hkey]
    · simp [hkey]

@[simp] theorem apply_ttl (i : Invalidation) (s : MetaCacheState) : (i.apply s).ttl = s.ttl := by
  cases i <;> rfl

end Invalidation

/-! ## Mutations -/

/-- What a mutation throws away at a path and at its parent. -/
def invalidatePath (name : String) : List Invalidation := [.path name, .parentListing name]

inductive MetaMutation (η : Type) where
  | create (name : String)
  | openFile (name : String) (flags : OpenFlags) (perm : FileMode)
  | mkdir (name : String) (perm : FileMode)
  | remove (name : String)
  | rename (old new : String)
  | link (old new : String)
  | chmod (name : String) (mode : FileMode)
  | chown (name : String) (uid gid : UInt32)
  | chtimes (name : String) (mtime : SystemTime)
  | truncate (name : String) (size : UInt64)
  | symlink (old new : String)
  | setXattr (name attr : String) (data : Bytes)
  | removeXattr (name attr : String)
  | closeDirty (path : String) (file : η)

namespace MetaMutation
variable {σ η : Type}

/-- The calls on the cache that follow a successful call on the inner file system,
in their order. -/
def invalidations : MetaMutation η → List Invalidation
  | .create name => invalidatePath name
  | .openFile name flags _ =>
    if flags.contains .create || flags.contains .trunc then invalidatePath name else []
  | .mkdir name _ => invalidatePath name
  | .remove name => [.dir name, .parentListing name]
  | .rename old new => [.dir old, .dir new, .parentListing old, .parentListing new]
  | .link _ new => invalidatePath new
  | .chmod name _ => invalidatePath name
  | .chown name _ _ => invalidatePath name
  | .chtimes name _ => invalidatePath name
  | .truncate name _ => invalidatePath name
  | .symlink _ new => invalidatePath new
  | .setXattr _ _ _ => []
  | .removeXattr _ _ => []
  | .closeDirty path _ => invalidatePath path

def ignoring {α : Type} (p : Prog σ Error α) : Prog σ Error Unit := do
  let _ ← p
  pure ()

/-- The call on the inner file system. The close of a written file invalidates
whatever it returns. -/
def inner (fs : FileSystem σ η) : MetaMutation η → Prog σ Error Unit
  | .create name => ignoring (fs.create name)
  | .openFile name flags perm => ignoring (fs.openFile name flags perm)
  | .mkdir name perm => fs.mkdir name perm
  | .remove name => fs.remove name
  | .rename old new => fs.rename old new
  | .link old new => fs.link old new
  | .chmod name mode => fs.chmod name mode
  | .chown name uid gid => fs.chown name uid gid
  | .chtimes name mtime => fs.chtimes name mtime
  | .truncate name size => fs.truncate name size
  | .symlink old new => fs.symlink old new
  | .setXattr name attr data => fs.setXattr name attr data
  | .removeXattr name attr => fs.removeXattr name attr
  | .closeDirty _ file => ignoring (withFile file fs.file.close)

end MetaMutation

/-! ## Lookups -/

/-- The call on the inner file system that answers a key. -/
def CacheKind.lookup {σ η : Type} (fs : FileSystem σ η) (kind : CacheKind) (ctx : FsContext) (name : String) :
    Prog σ Error CachePayload :=
  match kind with
  | .stat => do pure (.metadata (← Prog.attempt (fs.stat ctx name)))
  | .lstat => do pure (.metadata (← Prog.attempt (fs.lstat ctx name)))
  | .readDir => do pure (.readDir (← Prog.attempt (fs.readDir ctx name)))

def CacheKey.ofName (name : String) (kind : CacheKind) : CacheKey := ⟨normalizeCachePath name, kind⟩

/-- The context of a background refresh. -/
def CacheKind.refreshContext (kind : CacheKind) (path : String) : FsContext :=
  match kind with
  | .stat => FsContext.new.withOrigin path "stat"
  | .lstat => FsContext.new.noFollow.withOrigin path "stat"
  | .readDir => FsContext.new.setReadOnly.withOrigin path "readdir"

end Star9
