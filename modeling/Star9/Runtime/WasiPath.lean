import Star9.Base.Run
import Star9.Base.Triple
import Star9.Core.PathOrder
import Star9.Fs.MemRun
import Star9.Fs.Watch
import Star9.Runtime.Wasi
import Star9.Vfs.MemSpace

/-!
# Guests and their directory descriptors

The path of a guest is cleaned before it is joined with the path of its
descriptor, so the join stays at or below the descriptor whatever the guest
writes. Only the import that makes a hard link replaces a joined path by another
one: it follows a symlink, and the text of the symlink is not joined again.
-/
namespace Star9
open Base Prog

/-! ## Joining -/

theorem normalizeTaskPath_valid (path : String) : validPath (normalizeTaskPath path) = true := by
  unfold normalizeTaskPath
  dsimp only
  split
  · decide
  · exact cleanPath_valid _

theorem components_cleanPath_append {p q : String} (hp : validPath p = true) (hq : validPath q = true)
    (hpdot : p ≠ ".") (hqdot : q ≠ ".") : components (cleanPath (p ++ "/" ++ q)) = components p ++ components q := by
  have hnames : ∀ c ∈ components p ++ components q, ValidName c := by
    intro c hc
    rcases List.mem_append.mp hc with hc | hc
    · exact validName_of_mem_components hp hc
    · exact validName_of_mem_components hq hc
  have hsplit : splitSlash (p ++ "/" ++ q) = components p ++ components q := by
    rw [splitSlash_append, components, components, if_neg hpdot, if_neg hqdot]
  rw [cleanPath_eq, hsplit, foldl_cleanStep_of_valid hnames, List.nil_append, components_ofComponents hnames]

theorem joinWasiPath_within (base rel : String) : within (normalizeTaskPath base) (joinWasiPath base rel) = true := by
  have hbase := normalizeTaskPath_valid base
  have hrel := cleanPath_valid (trimStartSlash rel)
  unfold joinWasiPath
  dsimp only
  rw [within_iff]
  split
  · rename_i hdot
    rw [hdot]
    exact ⟨_, rfl⟩
  · rename_i hdot
    split
    · exact ⟨[], (List.append_nil _).symm⟩
    · rename_i hreldot
      exact ⟨_, components_cleanPath_append hbase hrel hdot hreldot⟩

/-! ## What the imports pass on -/

section
variable {σ η α β : Type}

/-- The state of a guest whose namespace is watched. -/
abbrev WatchedCaller (σ η : Type) := WasiCaller (σ × List PathCall) η

/-- Every call that has been recorded satisfies `P`. -/
def Recorded (P : PathCall → Prop) (w : WatchedCaller σ η) : Prop := ∀ c ∈ w.ns.2, P c

namespace WasiCaller
variable {P : PathCall → Prop}

theorem call_watch_log (c : PathCall) (p : Prog σ Error α) (w : WatchedCaller σ η) :
    (call (watch c p) w).2.ns.2 = w.ns.2 ++ [c] := by
  unfold call watch
  rcases p w.ns.1 with ⟨a | e | _, s⟩ <;> rfl

theorem safe_call {I : σ → Prop} {V : α → Prop} {p : Prog σ Error α} (hp : Safe I V p) :
    Safe (fun w : WasiCaller σ η => I w.ns) V (call p) := by
  intro w hw
  obtain ⟨hI, hV⟩ := hp w.ns hw
  unfold call
  rcases h : p w.ns with ⟨a | e | _, s⟩ <;> rw [h] at hI hV
  · exact ⟨hI, fun b hb => by cases hb; exact hV a rfl⟩
  · exact ⟨hI, fun b hb => by cases hb⟩
  · exact ⟨hI, fun b hb => by cases hb⟩

theorem call_eq_ok {p : Prog σ Error α} {w w' : WasiCaller σ η} {a : α} (h : call p w = (.ok a, w')) :
    p w.ns = (.ok a, w'.ns) := by
  unfold call at h
  rcases hp : p w.ns with ⟨x | e | _, s⟩ <;> rw [hp] at h <;> cases h
  rfl

theorem call_watch_eq_ok {c : PathCall} {p : Prog σ Error α} {w w' : WatchedCaller σ η} {a : α} :
    call (watch c p) w = (.ok a, w') ↔ ∃ s, p w.ns.1 = (.ok a, s) ∧ w' = { w with ns := (s, w.ns.2 ++ [c]) } := by
  unfold call watch
  rcases p w.ns.1 with ⟨x | e | _, s⟩
  · simp only [Prod.mk.injEq, Outcome.ok.injEq]
    constructor
    · rintro ⟨rfl, rfl⟩
      exact ⟨s, ⟨rfl, rfl⟩, rfl⟩
    · rintro ⟨s, ⟨rfl, rfl⟩, rfl⟩
      exact ⟨rfl, rfl⟩
  · simp
  · simp

theorem safe_of_ns {I : σ → Prop} {p : Prog (WasiCaller σ η) Errno α} (h : Preserves WasiCaller.ns p) :
    Safe (fun w : WasiCaller σ η => I w.ns) (fun _ => True) p :=
  safe_of_preserves (P := I) h

theorem ns_of_safe {I : σ → Prop} {p : Prog (WasiCaller σ η) Errno α} {w : WasiCaller σ η}
    (hp : Safe (fun w : WasiCaller σ η => I w.ns) (fun _ => True) p) (hw : I w.ns) : I (p w).2.ns := (hp w hw).1

section
variable {γ : Type} {obs : WasiCaller σ η → γ}

theorem preserves_offset (ptr : Int) (n : Nat) : Preserves obs (offset ptr n : Prog (WasiCaller σ η) Errno Int) :=
  preserves_ite preserves_abort (preserves_pure _)

variable (hmemory : ∀ (w : WasiCaller σ η) memory, obs { w with memory } = obs w)
include hmemory

theorem preserves_writeBytes (ptr : Int) (bytes : Bytes) : Preserves obs (writeBytes ptr bytes : Prog (WasiCaller σ η) Errno Unit) := by
  intro w
  unfold writeBytes
  rw [get_bind, branch_apply]
  split
  · rfl
  · cases w.memory with
    | none => rfl
    | some data =>
      dsimp only
      rw [branch_apply]
      split
      · rfl
      · exact hmemory _ _

theorem preserves_writeFilestat (ptr : Int) (mode : FileMode) (size : Nat) :
    Preserves obs (writeFilestat ptr mode size : Prog (WasiCaller σ η) Errno Unit) := by
  have hfield : ∀ (n : Nat) (bytes : Bytes) (rest : Prog (WasiCaller σ η) Errno Unit), Preserves obs rest →
      Preserves obs (offset ptr n >>= fun p => writeBytes p bytes >>= fun _ => rest) := by
    intro n bytes rest hrest
    exact preserves_bind (preserves_offset _ _) fun _ => preserves_bind (preserves_writeBytes hmemory _ _) fun _ => hrest
  refine preserves_bind (preserves_writeBytes hmemory _ _) fun _ => ?_
  refine hfield _ _ _ (hfield _ _ _ (hfield _ _ _ (hfield _ _ _ (hfield _ _ _ (hfield _ _ _ ?_)))))
  exact preserves_bind (preserves_offset _ _) fun _ => preserves_writeBytes hmemory _ _

end

theorem preserves_openFd (file : η) (path : String) :
    Preserves WasiCaller.ns (openFd file path : Prog (WasiCaller σ η) Errno Nat) := by
  intro w
  unfold openFd
  rw [get_bind, branch_apply]
  split <;> rfl

theorem readString_cases (s : GuestString) (w : WasiCaller σ η) :
    (∃ e, readString s w = (.err e, w)) ∨ ∃ rel, readString s w = (.ok rel, w) := by
  unfold readString
  rw [get_bind, branch_apply]
  split
  · exact Or.inl ⟨_, rfl⟩
  · cases w.readBytes s.ptr s.len with
    | none => exact Or.inl ⟨_, rfl⟩
    | some bytes =>
      dsimp only
      cases utf8String? bytes with
      | none => exact Or.inl ⟨_, rfl⟩
      | some rel => exact Or.inr ⟨rel, rfl⟩

/-- A path of a guest cannot be read, or is at or below the path of its descriptor. -/
theorem readWasiPath_cases (fd : Int32) (s : GuestString) (w : WasiCaller σ η) :
    (∃ e, readWasiPath fd s w = (.err e, w)) ∨
    ∃ b path, w.fdPath fd = some b ∧ within (normalizeTaskPath b) path = true ∧ readWasiPath fd s w = (.ok path, w) := by
  unfold readWasiPath
  rcases readString_cases s w with ⟨e, herr⟩ | ⟨rel, hrel⟩
  · exact Or.inl ⟨e, bind_err herr⟩
  · rw [bind_ok hrel, get_bind]
    cases hb : w.fdPath fd with
    | none => exact Or.inl ⟨_, rfl⟩
    | some b => exact Or.inr ⟨b, joinWasiPath b rel, rfl, joinWasiPath_within b rel, rfl⟩

theorem readWasiPath_of_fst {fd : Int32} {s : GuestString} {w : WasiCaller σ η} {path : String}
    (h : (readWasiPath fd s w).1 = .ok path) : readWasiPath fd s w = (.ok path, w) := by
  rcases readWasiPath_cases fd s w with ⟨e, herr⟩ | ⟨b, p, -, -, hok⟩
  · rw [herr] at h
    cases h
  · rw [hok] at h ⊢
    cases h
    rfl

/-- A path is read from the memory and the descriptors alone. -/
theorem readWasiPath_ns (fd : Int32) (s : GuestString) (w : WasiCaller σ η) (x : σ) :
    (readWasiPath fd s { w with ns := x }).1 = (readWasiPath fd s w).1 := by
  have hstring : (readString s { w with ns := x }).1 = (readString s w).1 := by
    unfold readString
    rw [get_bind, get_bind, branch_apply, branch_apply]
    split
    · rfl
    · have hbytes : WasiCaller.readBytes { w with ns := x } s.ptr s.len = w.readBytes s.ptr s.len := rfl
      rw [hbytes]
      cases w.readBytes s.ptr s.len with
      | none => rfl
      | some bytes =>
        dsimp only
        cases utf8String? bytes <;> rfl
  unfold readWasiPath
  rcases readString_cases s w with ⟨e, herr⟩ | ⟨rel, hrel⟩
  · rcases readString_cases s { w with ns := x } with ⟨e', herr'⟩ | ⟨rel', hrel'⟩
    · rw [bind_err herr, bind_err herr']
      rw [herr, herr'] at hstring
      exact hstring
    · rw [herr, hrel'] at hstring
      cases hstring
  · rcases readString_cases s { w with ns := x } with ⟨e', herr'⟩ | ⟨rel', hrel'⟩
    · rw [hrel, herr'] at hstring
      cases hstring
    · rw [hrel, hrel'] at hstring
      cases hstring
      rw [bind_ok hrel, bind_ok hrel', get_bind, get_bind]
      change ((ofOption _ (w.fdPath fd) >>= _) _).1 = ((ofOption _ (w.fdPath fd) >>= _) _).1
      cases w.fdPath fd <;> rfl

/-- What follows once a path has been read. -/
theorem of_readWasiPath {I : σ → Prop} {fd : Int32} {s : GuestString} {f : String → Prog (WasiCaller σ η) Errno β}
    {w : WasiCaller σ η} (hw : I w.ns) (h : ∀ path, readWasiPath fd s w = (.ok path, w) → I (f path w).2.ns) :
    I ((readWasiPath fd s >>= f) w).2.ns := by
  rcases readWasiPath_cases fd s w with ⟨e, herr⟩ | ⟨b, path, -, -, hok⟩
  · rw [bind_err herr]
    exact hw
  · rw [bind_ok hok]
    exact h path hok

end WasiCaller

namespace PathImport
open WasiCaller
variable (ns : FileSystem σ η)

/-- What the import passes to the namespace when it is called now. -/
def passed (w : WatchedCaller σ η) (op : PathImport) : List PathCall :=
  (op.run ns.watched { w with ns := (w.ns.1, []) }).2.ns.2

/-- A call stays at or below the descriptors of the import. -/
def Inside (w : WatchedCaller σ η) (op : PathImport) (c : PathCall) : Prop :=
  (∃ b, w.fdPath op.fd = some b ∧ within (normalizeTaskPath b) c.path = true) ∧
  ∀ p, c.new = some p → ∃ b, w.fdPath op.newFd = some b ∧ within (normalizeTaskPath b) p = true

def Confined (w : WatchedCaller σ η) (op : PathImport) : Prop := ∀ c ∈ passed ns w op, Inside w op c

/-- A hard link is asked for through a symlink whose text leads out of the descriptor. -/
def FollowsOut (w : WatchedCaller σ η) : PathImport → Prop
  | .link oldFd oldFlags oldPath newFd newPath =>
    oldFlags &&& ~~~lookupflagsSymlinkFollow = 0 ∧ oldFlags &&& lookupflagsSymlinkFollow ≠ 0 ∧
    ∃ b old new metadata s₁ target s₂, w.fdPath oldFd = some b ∧
      (readWasiPath oldFd oldPath w).1 = .ok old ∧ (readWasiPath newFd newPath w).1 = .ok new ∧
      ns.lstat FsContext.new old w.ns.1 = (.ok metadata, s₁) ∧ metadata.mode.isSymlink = true ∧
      ns.readlink old s₁ = (.ok target, s₂) ∧ within (normalizeTaskPath b) (linkTarget old target) = false
  | _ => False

variable {ns} {w : WatchedCaller σ η}

theorem inside_one {op : PathImport} {b path : String} (hb : w.fdPath op.fd = some b)
    (hpath : within (normalizeTaskPath b) path = true) : Inside w op ⟨path, none⟩ :=
  ⟨⟨b, hb, hpath⟩, nofun⟩

theorem inside_two {op : PathImport} {b b' path new : String} (hb : w.fdPath op.fd = some b)
    (hpath : within (normalizeTaskPath b) path = true) (hb' : w.fdPath op.newFd = some b')
    (hnew : within (normalizeTaskPath b') new = true) : Inside w op ⟨path, some new⟩ := by
  refine ⟨⟨b, hb, hpath⟩, fun p hp => ?_⟩
  cases hp
  exact ⟨b', hb', hnew⟩

/-- The text that names the path of the import. -/
def name : PathImport → GuestString
  | .open_ _ path .. => path
  | .createDirectory _ path => path
  | .filestatGet _ path _ => path
  | .filestatSetTimes _ path .. => path
  | .link _ _ oldPath .. => oldPath
  | .unlinkFile _ path => path
  | .removeDirectory _ path => path
  | .rename _ oldPath .. => oldPath
  | .symlink _ _ newPath => newPath
  | .readlink _ path .. => path

/-- The calls of the imports keep `I` at the paths of `one`, and those with two paths at the pairs of `two`. -/
structure Admits (ns : FileSystem σ η) (I : σ → Prop) (one : String → Prop) (two : String → String → Prop) : Prop where
  open_ : ∀ ctx p, one p → Safe I (fun _ => True) (ns.open_ ctx p)
  openFile : ∀ p flags perm, one p → Safe I (fun _ => True) (ns.openFile p flags perm)
  mkdir : ∀ p perm, one p → Safe I (fun _ => True) (ns.mkdir p perm)
  stat : ∀ ctx p, one p → Safe I (fun _ => True) (ns.stat ctx p)
  lstat : ∀ ctx p, one p → Safe I (fun _ => True) (ns.lstat ctx p)
  readDir : ∀ ctx p, one p → Safe I (fun _ => True) (ns.readDir ctx p)
  chtimes : ∀ p mtime, one p → Safe I (fun _ => True) (ns.chtimes p mtime)
  remove : ∀ p, one p → Safe I (fun _ => True) (ns.remove p)
  readlink : ∀ p, one p → Safe I (fun _ => True) (ns.readlink p)
  symlink : ∀ target p, one p → Safe I (fun _ => True) (ns.symlink target p)
  rename : ∀ p q, two p q → Safe I (fun _ => True) (ns.rename p q)
  link : ∀ p q, two p q → Safe I (fun _ => True) (ns.link p q)

/-- The paths of an import are admitted, also the one that a link is made to through a symlink. -/
def Admitted (ns : FileSystem σ η) (one : String → Prop) (two : String → String → Prop) (w : WasiCaller σ η) :
    PathImport → Prop
  | .link oldFd oldFlags oldPath newFd newPath =>
    ∀ old new, (readWasiPath oldFd oldPath w).1 = .ok old → (readWasiPath newFd newPath w).1 = .ok new →
      one old ∧ two old new ∧
      (oldFlags &&& ~~~lookupflagsSymlinkFollow = 0 → oldFlags &&& lookupflagsSymlinkFollow ≠ 0 → ∀ metadata s₁ target s₂,
        ns.lstat FsContext.new old w.ns = (.ok metadata, s₁) → metadata.mode.isSymlink = true →
        ns.readlink old s₁ = (.ok target, s₂) → two (linkTarget old target) new)
  | .rename oldFd oldPath newFd newPath =>
    ∀ old new, (readWasiPath oldFd oldPath w).1 = .ok old → (readWasiPath newFd newPath w).1 = .ok new → two old new
  | op => ∀ path, (readWasiPath op.fd op.name w).1 = .ok path → one path

/-- The path of a link is the one that was read, or the one that the symlink there names. -/
theorem followedPath_cases {ns : FileSystem σ η} {w w' : WasiCaller σ η} {oldFlags : Int32} {old path : String}
    (h : followedPath ns oldFlags old w = (.ok path, w')) :
    path = old ∨ oldFlags &&& lookupflagsSymlinkFollow ≠ 0 ∧ ∃ metadata s₁ target s₂,
      ns.lstat FsContext.new old w.ns = (.ok metadata, s₁) ∧ metadata.mode.isSymlink = true ∧
      ns.readlink old s₁ = (.ok target, s₂) ∧ path = linkTarget old target := by
  unfold followedPath at h
  rw [branch_apply] at h
  split at h
  · rename_i hflag
    obtain ⟨metadata, w₁, hstat, h⟩ := bind_eq_ok.mp h
    rw [branch_apply] at h
    split at h
    · rename_i hlink
      obtain ⟨target, w₂, hread, h⟩ := bind_eq_ok.mp h
      cases h
      exact Or.inr ⟨hflag, metadata, _, target, _, call_eq_ok hstat, hlink, call_eq_ok hread, rfl⟩
    · cases h
      exact Or.inl rfl
  · cases h
    exact Or.inl rfl

section Keep
variable {ns : FileSystem σ η} {I : σ → Prop} {one : String → Prop} {two : String → String → Prop} {w : WasiCaller σ η}

theorem Admits.followedPath (h : Admits ns I one two) {old : String} (hone : one old) (oldFlags : Int32) :
    Safe (fun w : WasiCaller σ η => I w.ns) (fun _ => True) (followedPath ns oldFlags old) := by
  refine safe_ite (fun _ => safe_then (safe_call (h.lstat _ _ hone)) fun metadata => ?_) fun _ => safe_pure trivial
  exact safe_ite (fun _ => safe_then (safe_call (h.readlink _ hone)) fun target => safe_pure trivial) fun _ => safe_pure trivial

/-- An import reads its paths and passes them to calls that keep `I`. -/
theorem run_keeps (h : Admits ns I one two) {op : PathImport} (hop : Admitted ns one two w op) (hw : I w.ns) :
    I (op.run ns w).2.ns := by
  cases op with
  | open_ fd s oflags rightsBase fdflags openedFdPtr =>
    refine of_readWasiPath hw fun path hread => ?_
    have hone := hop path (congrArg Prod.fst hread)
    have hrest : ∀ file : η, Safe (fun w : WasiCaller σ η => I w.ns) (fun _ => True)
        (openFd file path >>= fun openedFd => writeU32 openedFdPtr openedFd) :=
      fun file => safe_of_ns (preserves_bind (preserves_openFd file path) fun _ => preserves_writeBytes (fun _ _ => rfl) _ _)
    rw [branch_apply]
    split
    · exact ns_of_safe (safe_then (safe_call (h.open_ _ _ hone)) hrest) hw
    · exact ns_of_safe (safe_then (safe_call (h.openFile _ _ _ hone)) hrest) hw
  | createDirectory fd s =>
    refine of_readWasiPath hw fun path hread => ?_
    exact ns_of_safe (safe_call (h.mkdir _ _ (hop path (congrArg Prod.fst hread)))) hw
  | filestatGet fd s statPtr =>
    refine of_readWasiPath hw fun path hread => ?_
    refine ns_of_safe (safe_then (safe_call (h.stat _ _ (hop path (congrArg Prod.fst hread)))) fun metadata => ?_) hw
    exact safe_of_ns (preserves_writeFilestat (fun _ _ => rfl) _ _ _)
  | filestatSetTimes fd s atim mtim fstFlags now =>
    change I ((Prog.ofExcept _ >>= _) w).2.ns
    cases wasiMtimeFromFlags now atim mtim fstFlags with
    | error e => exact hw
    | ok mtime =>
      refine of_readWasiPath hw fun path hread => ?_
      have hone := hop path (congrArg Prod.fst hread)
      cases mtime with
      | some mtime => exact ns_of_safe (safe_call (h.chtimes _ _ hone)) hw
      | none => exact ns_of_safe (safe_then (safe_call (h.stat _ _ hone)) fun _ => safe_pure trivial) hw
  | link oldFd oldFlags oldPath newFd newPath =>
    change I ((if oldFlags &&& ~~~lookupflagsSymlinkFollow ≠ 0 then _ else _ : Prog _ _ _) w).2.ns
    rw [branch_apply]
    split
    · exact hw
    · rename_i hflags
      refine of_readWasiPath hw fun old hread => ?_
      refine of_readWasiPath hw fun new hread' => ?_
      obtain ⟨hone, htwo, hfollowed⟩ := hop old new (congrArg Prod.fst hread) (congrArg Prod.fst hread')
      have hkeep := ns_of_safe (h.followedPath hone oldFlags) hw
      rw [bind_apply]
      rcases hfollow : followedPath ns oldFlags old w with ⟨path | e | _, w₁⟩ <;> rw [hfollow] at hkeep
      · have hpath : two path new := by
          rcases followedPath_cases hfollow with rfl | ⟨hflag, metadata, s₁, target, s₂, hlstat, hlink, hreadlink, rfl⟩
          · exact htwo
          · exact hfollowed (not_not.mp hflags) hflag metadata s₁ target s₂ hlstat hlink hreadlink
        exact ns_of_safe (safe_call (h.link _ _ hpath)) hkeep
      · exact hkeep
      · exact hkeep
  | unlinkFile fd s =>
    refine of_readWasiPath hw fun path hread => ?_
    have hone := hop path (congrArg Prod.fst hread)
    refine ns_of_safe (safe_then (safe_call (h.lstat _ _ hone)) fun metadata => ?_) hw
    exact safe_ite (fun _ => safe_throw _) fun _ => safe_call (h.remove _ hone)
  | removeDirectory fd s =>
    refine of_readWasiPath hw fun path hread => ?_
    have hone := hop path (congrArg Prod.fst hread)
    refine ns_of_safe (safe_then (safe_call (h.lstat _ _ hone)) fun metadata => ?_) hw
    refine safe_ite (fun _ => safe_throw _) fun _ => safe_then (safe_call (h.readDir _ _ hone)) fun entries => ?_
    exact safe_ite (fun _ => safe_throw _) fun _ => safe_call (h.remove _ hone)
  | rename oldFd oldPath newFd newPath =>
    refine of_readWasiPath hw fun old hread => ?_
    refine of_readWasiPath hw fun new hread' => ?_
    exact ns_of_safe (safe_call (h.rename _ _ (hop old new (congrArg Prod.fst hread) (congrArg Prod.fst hread')))) hw
  | symlink oldPath fd newPath =>
    change I ((readString oldPath >>= _) w).2.ns
    rcases readString_cases oldPath w with ⟨e, herr⟩ | ⟨old, hold⟩
    · rw [bind_err herr]
      exact hw
    · rw [bind_ok hold]
      refine of_readWasiPath hw fun new hread => ?_
      exact ns_of_safe (safe_call (h.symlink _ _ (hop new (congrArg Prod.fst hread)))) hw
  | readlink fd s bufPtr bufLen usedPtr =>
    change I ((if bufLen < 0 then _ else _ : Prog _ _ _) w).2.ns
    rw [branch_apply]
    split
    · exact hw
    · refine of_readWasiPath hw fun path hread => ?_
      refine ns_of_safe (safe_then (safe_call (h.readlink _ (hop path (congrArg Prod.fst hread)))) fun target => ?_) hw
      exact safe_of_ns (preserves_bind (preserves_writeBytes (fun _ _ => rfl) _ _) fun _ => preserves_writeBytes (fun _ _ => rfl) _ _)

end Keep

theorem watch_eq_ok {c : PathCall} {p : Prog σ Error α} {s s' : σ × List PathCall} {a : α} (h : watch c p s = (.ok a, s')) :
    p s.1 = (.ok a, s'.1) := by
  cases h' : p s.1 with
  | mk r t =>
    unfold watch at h
    rw [h'] at h
    cases h
    rfl

theorem safe_watch {P : PathCall → Prop} {c : PathCall} (hc : P c) (p : Prog σ Error α) :
    Safe (fun s : σ × List PathCall => ∀ d ∈ s.2, P d) (fun _ => True) (watch c p) := by
  intro s hs
  refine ⟨fun d hd => ?_, fun _ _ => trivial⟩
  rcases List.mem_append.mp hd with hd | hd
  · exact hs d hd
  · cases List.mem_singleton.mp hd
    exact hc

/-- Every call of a watched file system is recorded with its paths. -/
theorem admits_watched (ns : FileSystem σ η) (P : PathCall → Prop) :
    Admits ns.watched (fun s => ∀ c ∈ s.2, P c) (fun p => P ⟨p, none⟩) (fun p q => P ⟨p, some q⟩) where
  open_ _ _ hp := safe_watch hp _
  openFile _ _ _ hp := safe_watch hp _
  mkdir _ _ hp := safe_watch hp _
  stat _ _ hp := safe_watch hp _
  lstat _ _ hp := safe_watch hp _
  readDir _ _ hp := safe_watch hp _
  chtimes _ _ hp := safe_watch hp _
  remove _ hp := safe_watch hp _
  readlink _ hp := safe_watch hp _
  symlink _ _ hp := safe_watch hp _
  rename _ _ hp := safe_watch hp _
  link _ _ hp := safe_watch hp _

/-- A path that an import has read is at or below the path of the descriptor. -/
theorem within_of_read {fd : Int32} {s : GuestString} {path : String} (h : (readWasiPath fd s w).1 = .ok path) :
    ∃ b, w.fdPath fd = some b ∧ within (normalizeTaskPath b) path = true := by
  rcases readWasiPath_cases fd s w with ⟨e, herr⟩ | ⟨b, p, hb, hp, hok⟩
  · rw [herr] at h
    cases h
  · rw [hok] at h
    cases h
    exact ⟨b, hb, hp⟩

theorem admitted_of_staysIn {op : PathImport} (hout : ¬ FollowsOut ns w op) :
    Admitted ns.watched (fun p => Inside w op ⟨p, none⟩) (fun p q => Inside w op ⟨p, some q⟩) w op := by
  have hone : ∀ {s : GuestString} {path : String}, (readWasiPath op.fd s w).1 = .ok path → Inside w op ⟨path, none⟩ := by
    intro s path hread
    obtain ⟨b, hb, hpath⟩ := within_of_read hread
    exact inside_one hb hpath
  cases op with
  | link oldFd oldFlags oldPath newFd newPath =>
    intro old new hread hread'
    obtain ⟨b, hb, hold⟩ := within_of_read hread
    obtain ⟨b', hb', hnew⟩ := within_of_read hread'
    refine ⟨hone hread, inside_two hb hold hb' hnew, fun hflags hflag metadata s₁ target s₂ hlstat hlink hreadlink => ?_⟩
    refine inside_two hb ?_ hb' hnew
    by_contra hne
    exact hout ⟨hflags, hflag, b, old, new, metadata, s₁.1, target, s₂.1, hb, hread, hread', watch_eq_ok hlstat, hlink,
      watch_eq_ok hreadlink, Bool.not_eq_true _ ▸ hne⟩
  | rename oldFd oldPath newFd newPath =>
    intro old new hread hread'
    obtain ⟨b, hb, hold⟩ := within_of_read hread
    obtain ⟨b', hb', hnew⟩ := within_of_read hread'
    exact inside_two hb hold hb' hnew
  | _ => exact fun path hread => hone hread

/-- An import that does not follow a symlink out passes on nothing but paths inside. -/
theorem run_recorded (op : PathImport) (hout : ¬ FollowsOut ns w op) (hw : Recorded (Inside w op) w) :
    Recorded (Inside w op) (op.run ns.watched w).2 :=
  run_keeps (admits_watched ns (Inside w op)) (admitted_of_staysIn hout) hw

/-- What has been recorded before does not matter to the condition. -/
theorem followsOut_recorded (op : PathImport) (log : List PathCall) :
    FollowsOut ns { w with ns := (w.ns.1, log) } op ↔ FollowsOut ns w op := by
  cases op with
  | link oldFd oldFlags oldPath newFd newPath =>
    unfold FollowsOut
    simp only [readWasiPath_ns]
    exact Iff.rfl
  | _ => exact Iff.rfl

/-- The path that a symlink out of the descriptor names is passed on. -/
theorem not_confined_of_followsOut (op : PathImport) (hout : FollowsOut ns w op) : ¬ Confined ns w op := by
  rw [← followsOut_recorded op []] at hout
  cases op with
  | link oldFd oldFlags oldPath newFd newPath =>
    obtain ⟨hflags, hflag, b, old, new, metadata, s₁, target, s₂, hb, hread, hread', hlstat, hlink, hreadlink, hwithin⟩ := hout
    have hread := readWasiPath_of_fst hread
    have hread' := readWasiPath_of_fst hread'
    have hstat : call (ns.watched.lstat FsContext.new old) { w with ns := (w.ns.1, []) } =
        (.ok metadata, { w with ns := (s₁, [⟨old, none⟩]) }) := call_watch_eq_ok.mpr ⟨s₁, hlstat, rfl⟩
    have htarget : call (ns.watched.readlink old) { w with ns := (s₁, [⟨old, none⟩]) } =
        (.ok target, { w with ns := (s₂, [⟨old, none⟩, ⟨old, none⟩]) }) := call_watch_eq_ok.mpr ⟨s₂, hreadlink, rfl⟩
    have hfollow : followedPath ns.watched oldFlags old { w with ns := (w.ns.1, []) } =
        (.ok (linkTarget old target), { w with ns := (s₂, [⟨old, none⟩, ⟨old, none⟩]) }) := by
      unfold followedPath
      rw [branch_apply, if_pos hflag, bind_ok hstat, branch_apply, if_pos hlink, bind_ok htarget]
      rfl
    intro hconf
    have hlast : ⟨linkTarget old target, some new⟩ ∈ passed ns w (.link oldFd oldFlags oldPath newFd newPath) := by
      unfold passed run pathLink
      dsimp only
      rw [branch_apply, if_neg (not_not.mpr hflags), bind_ok hread, bind_ok hread', bind_ok hfollow]
      have hlog := call_watch_log ⟨linkTarget old target, some new⟩ (ns.link (linkTarget old target) new)
        { w with ns := (s₂, [⟨old, none⟩, ⟨old, none⟩]) }
      change ⟨linkTarget old target, some new⟩ ∈ (call (watch ⟨linkTarget old target, some new⟩ _) _).2.ns.2
      rw [hlog]
      exact List.mem_append_right _ (List.mem_singleton_self _)
    obtain ⟨⟨b', hb', hinside⟩, -⟩ := hconf _ hlast
    change fdPath w oldFd = some b at hb
    change fdPath w oldFd = some b' at hb'
    rw [hb] at hb'
    cases hb'
    rw [hwithin] at hinside
    cases hinside
  | _ => exact hout.elim

theorem confined_iff (op : PathImport) : Confined ns w op ↔ ¬ FollowsOut ns w op := by
  constructor
  · intro hconf hout
    exact not_confined_of_followsOut op hout hconf
  · intro hout
    rw [← followsOut_recorded op []] at hout
    exact run_recorded op hout nofun

end PathImport

/-! ## Guests -/

/-- A guest calls the path imports in any order; whatever else happens may change its
memory, its descriptors and the namespace. -/
inductive GuestStep (σ η : Type) where
  | pathImport (op : PathImport)
  | other (f : WatchedCaller σ η → WatchedCaller σ η)

namespace GuestStep
variable (ns : FileSystem σ η)

def run (w : WatchedCaller σ η) : GuestStep σ η → WatchedCaller σ η
  | .pathImport op => (op.run ns.watched w).2
  | .other f => f w

def Confined (w : WatchedCaller σ η) : GuestStep σ η → Prop
  | .pathImport op => PathImport.Confined ns w op
  | .other _ => True

def StaysIn (w : WatchedCaller σ η) : GuestStep σ η → Prop
  | .pathImport op => ¬ PathImport.FollowsOut ns w op
  | .other _ => True

/-- Whatever a guest does, its imports pass on paths at or below their descriptors
exactly when no hard link is made through a symlink that leads out. -/
theorem guest_confined_iff (w : WatchedCaller σ η) (steps : List (GuestStep σ η)) :
    StepsMeet (run ns) (Confined ns) w steps ↔ StepsMeet (run ns) (StaysIn ns) w steps := by
  have hstep : Confined ns = (StaysIn ns : WatchedCaller σ η → GuestStep σ η → Prop) := by
    funext w step
    cases step with
    | pathImport op => exact propext (PathImport.confined_iff op)
    | other f => rfl
  rw [hstep]

/-- The text of a symlink in `home` leads to a file outside of it. -/
def leakMem : MemFs :=
  (Base.run MemWorld.step (MemWorld.init fun _ => 0)
    [.mkdir "home" (FileMode.fromPerm 0o755), .create "secret", .symlink "/secret" "home/l"]).fs

def leakSpace : Namespace Nat :=
  Namespace.new.addTarget "." validPath_dot { fs := 0, path := ".", metadata := Metadata.dir "." 0o755, valid := validPath_dot } .after

/-- The guest has the directory `home` under descriptor 3, and the texts `l` and `x` at the front of its one page of memory. -/
def leakCaller : WatchedCaller Mems SpaceFile :=
  { ns := (fun _ => leakMem, [])
    files := (∅ : Std.ExtTreeMap Nat (OpenFile SpaceFile)).insert 3 ⟨.dir (DirFile.new (Metadata.dir "home" 0o755) []), "home"⟩
    nextFd := 4
    memory := some (108 :: 120 :: List.replicate 65534 0) }

theorem guest_leaves_descriptor :
    ¬ ∀ (ns : Namespace Nat) (w : WatchedCaller Mems SpaceFile) (steps : List (GuestStep Mems SpaceFile)),
      StepsMeet (run (memSpace ns)) (Confined (memSpace ns)) w steps := by
  intro hall
  have hconf := (hall leakSpace leakCaller [.pathImport (.link 3 1 ⟨0, 1⟩ 3 ⟨1, 1⟩)]).1
  have hpassed : ⟨"secret", some "home/x"⟩ ∈ PathImport.passed (memSpace leakSpace) leakCaller (.link 3 1 ⟨0, 1⟩ 3 ⟨1, 1⟩) := by
    decide +kernel
  obtain ⟨⟨b, hb, hinside⟩, -⟩ := hconf _ hpassed
  have hpath : leakCaller.fdPath 3 = some "home" := by
    decide +kernel
  change leakCaller.fdPath 3 = some b at hb
  rw [hpath] at hb
  cases hb
  revert hinside
  decide +kernel

end GuestStep
end
end Star9
