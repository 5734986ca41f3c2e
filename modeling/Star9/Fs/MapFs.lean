import Star9.Core.Path
import Star9.Fs.MemFs

/-!
# File systems under names

Each key of the map has a file system. A path that is a key is the root of its file system; for
other paths the keys that are prefixes are tried, longest first. What no key answers for is a
directory, if some key lies below it.
-/
namespace Star9
open Base Prog

/-- What a file system under a key answers; closing a file changes the state at most. -/
structure MappedFs (σ η : Type) where
  open_ : FsContext → String → Prog σ Error η
  stat : FsContext → String → Prog σ Error Metadata
  fileStat : η → Prog σ Error Metadata
  close : η → σ → σ

/-- A file of the file system with this number, or a directory of the map. -/
inductive MapFile (η : Type) where
  | mapped (fs : Nat) (file : η)
  | dir (f : DirFile)

/-- File systems are shared, so the map has their numbers. -/
structure MapFs where
  entries : Std.ExtTreeMap String Nat
  clean : ∀ key ∈ entries, validPath key = true

/-- Every part that repeats at the front goes; a text has no more parts than characters. -/
def trimStartMatches (pre : String) : Nat → String → String
  | 0, s => s
  | count + 1, s =>
    match stripPrefix pre s with
    | some rest => trimStartMatches pre count rest
    | none => s

namespace MapFs

def new : MapFs where
  entries := ∅
  clean _ h := absurd h Std.ExtTreeMap.not_mem_empty

def insert (m : MapFs) (name : String) (fs : Nat) : MapFs where
  entries := m.entries.insert (cleanPath name) fs
  clean key h := by
    rw [Std.ExtTreeMap.mem_insert, Std.LawfulEqCmp.compare_eq_iff_eq] at h
    rcases h with rfl | h
    · exact cleanPath_valid name
    · exact m.clean key h

def direct (m : MapFs) (name : String) : Option Nat := m.entries[name]?

/-- The keys that are the path or a prefix of it, the longest text first. -/
def matchPrefixes (m : MapFs) (name : String) : List (String × Nat) :=
  let out := m.entries.toList.filter fun entry => entry.1 = name ∨ (entry.1 ≠ "." ∧ (stripPrefix (entry.1 ++ "/") name).isSome)
  out.mergeSort fun a b => b.1.utf8ByteSize ≤ a.1.utf8ByteSize

/-- The path that the file system of a key is asked for. -/
def relative (key name : String) : String :=
  if key = "." then name else cleanPath (trimStartMatches (key ++ "/") name.length name)

/-- Who is asked, and for what. -/
def route (m : MapFs) (name : String) : Option (Nat × String) :=
  (m.matchPrefixes name).findSome? fun entry =>
    let rel := relative entry.1 name
    if rel ≠ "." then some (entry.2, rel) else none

section
variable {σ η : Type} (world : Nat → MappedFs σ η) (m : MapFs)

def openIn (fs : Nat) (ctx : FsContext) (rel : String) : Prog σ Error (MapFile η) := do
  let file ← (world fs).open_ ctx rel
  pure (.mapped fs file)

def fileStat : MapFile η → Prog σ Error Metadata
  | .mapped fs file => (world fs).fileStat file
  | .dir f => pure f.metadata

def closeFile (s : σ) : MapFile η → σ
  | .mapped fs file => (world fs).close file s
  | .dir _ => s

/-- A key directly below the path is an entry, if its root can be asked; a key further below
needs a directory. -/
def listStep (ctx : FsContext) (name : String) (acc : List DirEntry × Std.ExtTreeSet String) (entry : String × Nat) :
    Prog σ Error (List DirEntry × Std.ExtTreeSet String) :=
  match MemFs.relativeTo name entry.1 with
  | none => pure acc
  | some rest =>
    match splitOnceSlash rest with
    | some (head, _) => pure (acc.1, acc.2.insert head)
    | none => do
      match ← attempt ((world entry.2).stat ctx ".") with
      | .ok metadata => pure (acc.1 ++ [{ name := rest, metadata := { metadata with name := rest } }], acc.2)
      | .error _ => pure acc

def openListing (ctx : FsContext) (name : String) : Prog σ Error (MapFile η) := do
  let (entries, need) ← m.entries.toList.foldlM (listStep world ctx name) ([], ∅)
  if name ≠ "." ∧ entries = [] ∧ need.isEmpty then throw (.path "open" name .notFound)
  else
    pure (.dir (DirFile.new (Metadata.dir name 0o555)
      (entries ++ need.toList.map fun name => { name, metadata := Metadata.dir name 0o555 })))

def open_ (ctx : FsContext) (name : String) : Prog σ Error (MapFile η) :=
  if !validPath name then throw (.path "open" name .notFound)
  else
    let name := cleanPath name
    match m.direct name with
    | some fs => openIn world fs ctx "."
    | none =>
      match m.route name with
      | some (fs, rel) => openIn world fs ctx rel
      | none => m.openListing world ctx name

/-- An opened file is asked what it is, and closed. -/
def statFile (p : Prog σ Error (MapFile η)) : Prog σ Error Metadata := do
  let file ← p
  let metadata ← attempt (fileStat world file)
  modify fun s => closeFile world s file
  Prog.ofExcept metadata

def stat (ctx : FsContext) (name : String) : Prog σ Error Metadata :=
  if name = "." then
    match m.direct "." with
    | some root => (world root).stat ctx "."
    | none => pure (Metadata.dir "." 0o555)
  else statFile world (m.open_ world ctx name)

end

end MapFs
end Star9
