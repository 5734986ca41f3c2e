import Star9.Fs.R2Rename
import Star9.Fs.HttpServed

/-!
# Appending to a file of a backend that keeps a buffer

`append_file` opens with `CREATE` and `APPEND`. The object store and the HTTP file
system take `CREATE` to mean an empty buffer, so there the file is written anew.
-/
namespace Star9
open Base Prog
open MemFs (appendFlags)

/-- An empty buffer takes what is written, if there is room. -/
theorem HttpWriteFile.write_empty {σ : Type} {f : HttpWriteFile} (hdata : f.data = []) (hoffset : f.offset = 0) (hclosed : f.closed = false)
    (new : Bytes) (s : σ) :
    HttpWriteFile.write new (f, s) = (.abort, f, s) ∨
    HttpWriteFile.write new (f, s) = (.ok new.length,
      { f with data := new, offset := new.length, metadata := { f.metadata with size := new.length } }, s) := by
  have hover : overwrite (resize [] (max 0 new.length)) 0 new = new := by simp [overwrite, resize]
  unfold HttpWriteFile.write
  dsimp only
  rw [hclosed, hdata, hoffset, if_neg Bool.false_ne_true, Nat.zero_add]
  split
  · exact .inl rfl
  · refine .inr ?_
    rw [List.length_nil, hover]

namespace HttpHandle
variable {σ : Type} {fs : FileSystem σ HttpHandle} {close : Prog (HttpWriteFile × σ) Error Unit} {p : String} {s : σ}

/-- A file that was opened with an empty buffer is closed with what was appended. -/
theorem appendFile_buffered (hfile : fs.file = handle close) {f : HttpWriteFile}
    (hopen : fs.openFile p appendFlags (FileMode.fromPerm 0o644) s = (.ok (.write f), s)) (hdata : f.data = []) (hoffset : f.offset = 0)
    (hclosed : f.closed = false) {new : Bytes} (hok : (fs.appendFile p new s).1 = .ok ()) :
    ∃ g : HttpWriteFile, g.path = f.path ∧ g.metadata.mode = f.metadata.mode ∧ g.data = new ∧ g.closed = false ∧
      (close (g, s)).1 = .ok () ∧ (fs.appendFile p new s).2 = (close (g, s)).2.2 := by
  unfold FileSystem.appendFile at hok ⊢
  have hopen' : fs.openFile p (.wronly ||| .create ||| .append) (FileMode.fromPerm 0o644) s = (.ok (.write f), s) := hopen
  rw [bind_ok hopen', hfile] at hok ⊢
  rcases HttpWriteFile.write_empty hdata hoffset hclosed new s with habort | hwrite
  · have hwith : withFile (.write f) ((handle close).write new) s = (.abort, s) := by
      simp only [withFile, handle, dispatch, habort]
    rw [bind_abort hwith] at hok
    cases hok
  · generalize hg : ({ f with data := new, offset := new.length, metadata := _ } : HttpWriteFile) = g at hwrite
    have hwith : withFile (.write f) ((handle close).write new) s = (.ok (.ok new.length, .write g), s) := by
      simp only [withFile, handle, dispatch, hwrite]
    rw [bind_ok hwith] at hok ⊢
    refine ⟨g, by rw [← hg], by rw [← hg], by rw [← hg], by rw [← hg]; exact hclosed, ?_⟩
    rcases hclose : close (g, s) with ⟨r, g', s'⟩
    cases r with
    | ok u =>
      have hwithClose : withFile (.write g) (handle close).close s = (.ok (.ok u, .write g'), s') := by
        simp only [withFile, handle, dispatch, hclose]
      exact ⟨rfl, congrArg Prod.snd (bind_ok hwithClose)⟩
    | err e =>
      have hwithClose : withFile (.write g) (handle close).close s = (.ok (.error e, .write g'), s') := by
        simp only [withFile, handle, dispatch, hclose]
      have hout := congrArg Prod.fst (bind_ok (f := fun x => Prog.ofExcept x.1) hwithClose)
      exact absurd (hout.symm.trans hok) Outcome.err_ne_ok
    | abort =>
      have hwithClose : withFile (.write g) (handle close).close s = (.abort, s') := by
        simp only [withFile, handle, dispatch, hclose]
      have hout := congrArg Prod.fst (bind_abort (f := fun x => Prog.ofExcept x.1) hwithClose)
      exact absurd (hout.symm.trans hok) Outcome.abort_ne_ok

end HttpHandle

namespace R2Fs
variable {fs : R2Fs} {s : InMemoryObjectStore} {p : String}

def contents (fs : R2Fs) (s : InMemoryObjectStore) (p : String) : Bytes := ((s.objects[fs.key p]?).map Object.body).getD []

theorem putFileObject_contents (hp : validPath p = true) (mode : FileMode) (body : Bytes) :
    fs.contents (putFileObject fs p mode body s).2 p = body := by
  let object : Object := { metadata := r2MetadataAt "application/octet-stream" mode body.length (s.clock s.ticks), body }
  have hput : putFileObject fs p mode body s =
      updateParentListing fs p (some mode) { s with ticks := s.ticks + 1, objects := s.objects.insert (fs.key p) object } := rfl
  have hself : (updateParentListing fs p (some mode)
      { s with ticks := s.ticks + 1, objects := s.objects.insert (fs.key p) object }).2.objects[fs.key p]? = some object := by
    by_cases hdot : p = "."
    · rw [hdot, updateParentListing_dot]
      simp
    · rw [(updateParentListing_frame fs p (some mode) _ (fs.key p)).2]
      · simp
      · exact fun heq => parentPath_ne_self hp hdot (fs.key_injective hp (parentPath_valid p) heq).symm
  unfold contents
  rw [hput, hself]
  rfl

/-- Whatever the file contained, it contains what was appended. -/
theorem appendFile_rewrites (hp : validPath p = true) (rounds : Nat) (new : Bytes)
    (hok : ((r2Fs fs rounds).appendFile p new s).1 = .ok ()) :
    fs.contents ((r2Fs fs rounds).appendFile p new s).2 p = new := by
  have hopen : (r2Fs fs rounds).openFile p appendFlags (FileMode.fromPerm 0o644) s =
      (.ok (.write { path := cleanPath p, metadata := Metadata.file (cleanPath p) 0o644 0, data := [], offset := 0, closed := false }), s) := by
    show R2Fs.openFile fs rounds p appendFlags (FileMode.fromPerm 0o644) s = _
    unfold R2Fs.openFile writeBase
    rw [if_neg (by decide), if_pos (by decide)]
    rfl
  obtain ⟨g, hpath, -, hdata, hclosed, hclose, hafter⟩ := HttpHandle.appendFile_buffered rfl hopen rfl rfl rfl hok
  rw [cleanPath_of_valid hp] at hpath
  have hout : (close fs (g, s)).2.2 = (putFileObject fs p g.metadata.mode new s).2 := by
    unfold close
    dsimp only
    rw [hclosed, if_neg Bool.false_ne_true, hpath, hdata]
    rcases putFileObject fs p g.metadata.mode new s with ⟨u | e | _, s'⟩ <;> rfl
  rw [hafter, hout]
  exact putFileObject_contents hp g.metadata.mode new

end R2Fs

theorem HttpWriteFile.close_puts (transport : HttpTransport) {g : HttpWriteFile} (hclosed : g.closed = false) (s : HttpFs) :
    (HttpWriteFile.close transport (g, s)).1 =
        (HttpFs.putNode transport g.path "application/octet-stream" g.metadata.mode g.data s).1 ∧
      (HttpWriteFile.close transport (g, s)).2.2 =
        (HttpFs.putNode transport g.path "application/octet-stream" g.metadata.mode g.data s).2 := by
  unfold HttpWriteFile.close
  dsimp only
  rw [hclosed, if_neg Bool.false_ne_true]
  generalize HttpFs.putNode transport g.path "application/octet-stream" g.metadata.mode g.data s = result
  obtain ⟨r, s'⟩ := result
  cases r <;> exact ⟨rfl, rfl⟩

namespace HttpFs
variable {h : HttpFsHandler MemFs MemFile} {m : MemFs} {s : HttpFs} {p : String}

/-- A PUT that reaches the path replaces the contents; one that ends elsewhere leaves them alone. -/
theorem appendFile_puts (hfs : h.fsys = memFs) (hp : validPath p = true) (ha : (h.served m s.exchanges).IdsBelow) {new : Bytes}
    (hok : ((httpFs (h.transport m)).appendFile p new s).1 = .ok ()) :
    (h.served m ((httpFs (h.transport m)).appendFile p new s).2.exchanges).contents p =
      if parseRequestTarget (s.buildUrl p) = ⟨p, false⟩ then new else (h.served m s.exchanges).contents p := by
  have hopen : (httpFs (h.transport m)).openFile p appendFlags (FileMode.fromPerm 0o644) s =
      (.ok (.write { path := cleanPath p, metadata := Metadata.file (cleanPath p) 0o644 0, data := [], offset := 0, closed := false }), s) := by
    show HttpFs.openFile (h.transport m) p appendFlags (FileMode.fromPerm 0o644) s = _
    unfold HttpFs.openFile writeBase
    rw [if_neg (by decide), if_pos (by decide)]
    rfl
  obtain ⟨g, hpath, -, hdata, hclosed, hclose, hafter⟩ := HttpHandle.appendFile_buffered rfl hopen rfl rfl rfl hok
  rw [cleanPath_of_valid hp] at hpath
  have hput := HttpWriteFile.close_puts (h.transport m) hclosed s
  rw [hpath, hdata] at hput
  rw [hput.1] at hclose
  obtain ⟨request, answer, hmethod, hurl, hbody, htype, hanswer, hstatus, hexchanges⟩ := putNode_exchange hclose
  rw [hafter, hput.2, hexchanges, h.served_append]
  have hhandled := HttpFsHandler.handle_of_transport hanswer
  rw [HttpFsHandler.handle_put_contents hfs ha hmethod htype hhandled hstatus, hurl, hbody]

end HttpFs

/-! ## All backends -/

/-- A writable backend, with what it rests on. -/
inductive Backend where
  | mem
  | r2 (fs : R2Fs) (rounds : Nat)
  | http (handler : HttpFsHandler MemFs MemFile) (start : MemFs)

namespace Backend

abbrev State : Backend → Type
  | mem => MemFs
  | r2 _ _ => InMemoryObjectStore
  | http _ _ => HttpFs

def appendFile : (b : Backend) → String → Bytes → Prog b.State Error Unit
  | mem, p, new => memFs.appendFile p new
  | r2 fs rounds, p, new => (r2Fs fs rounds).appendFile p new
  | http handler start, p, new => (httpFs (handler.transport start)).appendFile p new

def contents : (b : Backend) → b.State → String → Bytes
  | mem, fs, p => fs.contents p
  | r2 fs _, s, p => fs.contents s p
  | http handler start, s, p => (handler.served start s.exchanges).contents p

/-- A state of the backend with a file or nothing at the path; the handler serves a file system in memory. -/
def Admits : (b : Backend) → b.State → String → Prop
  | mem, fs, p => fs.DataBounded ∧ fs.FileOrAbsent p
  | r2 _ _, _, _ => True
  | http handler start, s, _ => handler.fsys = memFs ∧ (handler.served start s.exchanges).IdsBelow

/-- With a buffer, what was there is not read; over HTTP, the path may also be read as another one. -/
def Appends : (b : Backend) → b.State → String → Bytes → Prop
  | mem, _, _, _ => True
  | r2 fs _, s, p, _ => fs.contents s p = []
  | http handler start, s, p, new =>
    if parseRequestTarget (s.buildUrl p) = ⟨p, false⟩ then (handler.served start s.exchanges).contents p = [] else new = []

theorem appendFile_iff (b : Backend) (s : b.State) (p : String) (new : Bytes) (hp : validPath p = true) (hs : b.Admits s p)
    (hok : (b.appendFile p new s).1 = .ok ()) :
    b.contents (b.appendFile p new s).2 p = b.contents s p ++ new ↔ b.Appends s p new := by
  cases b with
  | mem => exact iff_of_true (MemFs.appendFile_appends hp hs.1 hs.2 new hok) trivial
  | r2 fs rounds =>
    have hafter := R2Fs.appendFile_rewrites hp rounds new hok
    show fs.contents ((r2Fs fs rounds).appendFile p new s).2 p = fs.contents s p ++ new ↔ fs.contents s p = []
    rw [hafter, List.self_eq_append_left]
  | http handler start =>
    have hafter := HttpFs.appendFile_puts hs.1 hp hs.2 hok
    show (handler.served start ((httpFs (handler.transport start)).appendFile p new s).2.exchanges).contents p =
      (handler.served start s.exchanges).contents p ++ new ↔
        if parseRequestTarget (s.buildUrl p) = ⟨p, false⟩ then (handler.served start s.exchanges).contents p = [] else new = []
    rw [hafter]
    split
    · rw [List.self_eq_append_left]
    · rw [List.self_eq_append_right]

/-! ## One file on each backend -/

def greeted : MemFs := (MemFs.new fun _ => 0).insertNew "f" (NodeInner.file "f" [104, 105] (FileMode.fromPerm 0o644))

theorem greeted_admits : mem.Admits greeted "f" := by
  constructor
  · exact MemFs.DataBounded.update (fun _ => Nat.zero_le _) (by decide)
  · intro c hc
    have hcore : greeted.coreAt "f" = some (NodeInner.file "f" [104, 105] (FileMode.fromPerm 0o644)).core := by
      rw [greeted, MemFs.coreAt, MemFs.insertNew_get, if_pos rfl]
      simp [MemFs.insertNew]
    rw [hcore, Option.some.injEq] at hc
    subst hc
    decide

def plainHandler : HttpFsHandler MemFs MemFile := { fsys := memFs, readTar := fun _ => ([], none), rounds := 1, depth := 1 }

/-- A client of an empty file system. -/
def onEmpty : Backend := http plainHandler (MemFs.new fun _ => 0)

theorem onEmpty_admits (base : String) (p : String) : onEmpty.Admits (HttpFs.withCacheTtl base 0 fun _ => 0) p := by
  refine ⟨rfl, fun q i hq => ?_⟩
  change ((∅ : Std.ExtTreeMap String NodeId).insert "." 0)[q]? = some i at hq
  rw [Std.ExtTreeMap.getElem?_insert] at hq
  split at hq
  · cases hq
    exact Nat.zero_lt_one
  · simp at hq

theorem onEmpty_appends : onEmpty.Appends (HttpFs.withCacheTtl "http://h" 0 fun _ => 0) "f" [33] := by
  have htarget : parseRequestTarget ((HttpFs.withCacheTtl "http://h" 0 fun _ => 0).buildUrl "f") = ⟨"f", false⟩ := by decide +kernel
  have hempty : (plainHandler.served (MemFs.new fun _ => 0) (HttpFs.withCacheTtl "http://h" 0 fun _ => 0).exchanges).contents "f" = [] := by
    decide +kernel
  simp only [onEmpty, Appends, htarget, if_true]
  exact hempty

theorem appendFile_iff_oneFile :
    mem.contents (mem.appendFile "f" [33] greeted).2 "f" = mem.contents greeted "f" ++ [33] ∧
    (r2 (R2Fs.withBasePath "") 1).contents ((r2 (R2Fs.withBasePath "") 1).appendFile "d/g" [33] R2Fs.unmoved).2 "d/g" = [33] ∧
    onEmpty.contents (onEmpty.appendFile "f" [33] (HttpFs.withCacheTtl "http://h" 0 fun _ => 0)).2 "f" = [33] :=
  ⟨(appendFile_iff mem greeted "f" [33] (by decide) greeted_admits (by decide +kernel)).mpr trivial,
    (appendFile_iff (r2 (R2Fs.withBasePath "") 1) R2Fs.unmoved "d/g" [33] (by decide) trivial (by decide +kernel)).mpr
      (by decide +kernel : (R2Fs.withBasePath "").contents R2Fs.unmoved "d/g" = []),
    (appendFile_iff onEmpty (HttpFs.withCacheTtl "http://h" 0 fun _ => 0) "f" [33] (by decide) (onEmpty_admits "http://h" "f")
      (by decide +kernel)).mpr onEmpty_appends⟩

/-- A file of the object store that contained something contains only what was appended. -/
theorem appendFile_not_appends : ¬∀ (b : Backend) (s : b.State) (p : String) (new : Bytes), validPath p = true → b.Admits s p →
    (b.appendFile p new s).1 = .ok () → b.contents (b.appendFile p new s).2 p = b.contents s p ++ new := by
  intro h
  have happend := h (r2 (R2Fs.withBasePath "") 1) R2Fs.unmoved "d/f" [33] (by decide) trivial (by decide +kernel)
  have hafter : (r2 (R2Fs.withBasePath "") 1).contents ((r2 (R2Fs.withBasePath "") 1).appendFile "d/f" [33] R2Fs.unmoved).2 "d/f" = [33] := by
    decide +kernel
  have hbefore : (r2 (R2Fs.withBasePath "") 1).contents R2Fs.unmoved "d/f" = [104, 105] := by decide +kernel
  rw [hafter, hbefore] at happend
  exact absurd happend (by decide)

end Backend
end Star9
