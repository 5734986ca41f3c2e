import Star9.Base.Paging
import Star9.Fs.MemList
import Star9.Protocol.FrameSize
import Star9.Protocol.Loopback
import Star9.Protocol.WalkSpec

/-!
# Listing a directory in pages

The client asks for the entries after the last one it has, the server packs as many
as the reply has room for, and an empty reply ends the listing. Over the loopback
server the client ends up with the entries up to the first one that no reply has
room for, and with an error if one before it cannot be packed at all.
-/
namespace Star9
open Base Prog NinePServer

variable {σ η : Type} (fs : FileSystem σ η) (path : String) (entries : List DirEntry)
  (stat : DirEntry → Except Error Metadata)

/-- The directory stays as it is: from every state of the file system that the
listing can meet, a listing and the stat of a listed entry return the same. -/
structure Steady (I : σ → Prop) : Prop where
  listed : ∀ x, I x → ∃ x', fs.readDir FsContext.new path x = (.ok entries, x') ∧ I x'
  stats : ∀ e ∈ entries, ∀ x, I x →
    ∃ x', fs.lstat FsContext.new.noFollow (joinPath path e.name) x = (.ofExcept (stat e), x') ∧ I x'

/-- The entry as it stands in a reply, with the cursor behind it. -/
def direntFor (index : Nat) (e : DirEntry) (metadata : Metadata) : NinePDirent :=
  { qid := qidFromMeta (joinPath path e.name) metadata
    offset := UInt64.ofNat (index + 1)
    typ := direntType e.metadata.mode
    name := e.name }

/-- What the server has to put into a reply, unless the stat or the encoding fails. -/
def packEntry (index : Nat) (e : DirEntry) : Except Error NinePDirent := do
  let metadata ← stat e
  (encodeDirents [direntFor path index e metadata]).map fun _ => direntFor path index e metadata

def packEntries : Nat → List DirEntry → List (Except Error NinePDirent)
  | _, [] => []
  | index, e :: es => packEntry path stat index e :: packEntries (index + 1) es

/-- The bytes that an entry takes in a reply. -/
def direntSize (d : NinePDirent) : Nat := 24 + (utf8Bytes d.name).length

section
variable {fs path entries stat} {I : σ → Prop} (h : Steady fs path entries stat I)

theorem packEntries_drop (index k : Nat) (es : List DirEntry) :
    (packEntries path stat index es).drop k = packEntries path stat (index + k) (es.drop k) := by
  induction es generalizing index k with
  | nil => simp [packEntries]
  | cons e es ih =>
    cases k with
    | zero => rfl
    | succ k =>
      rw [packEntries, List.drop_succ_cons, List.drop_succ_cons, ih]
      congr 1
      omega

theorem packEntry_eq_ok {index : Nat} {e : DirEntry} {d : NinePDirent} (hd : packEntry path stat index e = .ok d) :
    StringFits d.name ∧ ∃ metadata, d = direntFor path index e metadata := by
  obtain ⟨metadata, -, hd⟩ := except_bind_eq_ok.mp hd
  cases henc : encodeDirents [direntFor path index e metadata] with
  | error err =>
    rw [henc] at hd
    cases hd
  | ok data =>
    rw [henc] at hd
    cases hd
    obtain ⟨-, hfits, -⟩ := encodeDirents_cons henc
    exact ⟨hfits, metadata, rfl⟩

theorem packEntries_getElem? (index k : Nat) (es : List DirEntry) :
    (packEntries path stat index es)[k]? = (es[k]?).map (packEntry path stat (index + k)) := by
  induction es generalizing index k with
  | nil => simp [packEntries]
  | cons e es ih =>
    cases k with
    | zero => rfl
    | succ k =>
      rw [packEntries, List.getElem?_cons_succ, List.getElem?_cons_succ, ih]
      congr 2
      omega

theorem packEntries_length (index : Nat) (es : List DirEntry) : (packEntries path stat index es).length = es.length := by
  induction es generalizing index with
  | nil => rfl
  | cons e es ih => rw [packEntries, List.length_cons, ih, List.length_cons]

/-- Every entry of a page was packed at its place. -/
theorem page_packed {count index : Nat} {es : List DirEntry} {ds : List NinePDirent}
    (hpage : page direntSize count 0 (packEntries path stat index es) = .ok ds) {k : Nat} {d : NinePDirent}
    (hd : ds[k]? = some d) : ∃ e, es[k]? = some e ∧ packEntry path stat (index + k) e = .ok d := by
  have hlt : k < ds.length := (List.getElem?_eq_some_iff.mp hd).1
  have htake := congrArg (·[k]?) (page_take hpage)
  simp only [List.getElem?_take_of_lt hlt, List.getElem?_map, hd, packEntries_getElem?] at htake
  cases he : es[k]? with
  | none =>
    rw [he] at htake
    cases htake
  | some e =>
    rw [he] at htake
    exact ⟨e, rfl, Option.some.inj htake⟩

include h

/-- The loop of the server packs one page. -/
theorem readdirLoop_page {offset count index : Nat} {es : List DirEntry} (hes : ∀ e ∈ es, e ∈ entries)
    (hoffset : offset ≤ index) (data : Bytes) {s : ServerState σ η} (hs : I s.fsys) :
    ∃ x, I x ∧ readdirLoop fs path offset count index es data s =
      (match page direntSize count data.length (packEntries path stat index es) with
        | .ok ds => .ok (data ++ ds.flatMap encodeDirent)
        | .error e => .err e, { s with fsys := x }) := by
  induction es generalizing index data s with
  | nil => exact ⟨s.fsys, hs, by simp [readdirLoop, packEntries, page]⟩
  | cons e es ih =>
    obtain ⟨x, hstat, hx⟩ := h.stats e (hes e List.mem_cons_self) s.fsys hs
    rw [readdirLoop, branch_apply, if_neg (by omega), packEntries]
    cases hm : stat e with
    | error err =>
      have hqid : onFs (qidFor fs (joinPath path e.name)) s = (.err err, { s with fsys := x }) := by
        rw [hm] at hstat
        rw [onFs, zoom_apply, qidFor, bind_err hstat]
      have hpack : packEntry path stat index e = .error err := by
        rw [packEntry, hm]
        rfl
      exact ⟨x, hx, by rw [bind_err hqid, hpack]; rfl⟩
    | ok m =>
      have hqid : onFs (qidFor fs (joinPath path e.name)) s =
          (.ok (qidFromMeta (joinPath path e.name) m), { s with fsys := x }) := by
        rw [hm] at hstat
        rw [onFs, zoom_apply, qidFor, bind_ok hstat]
        rfl
      rw [bind_ok hqid]
      have hpack : packEntry path stat index e =
          (encodeDirents [direntFor path index e m]).map fun _ => direntFor path index e m := by
        rw [packEntry, hm]
        rfl
      rw [hpack]
      change ∃ y, I y ∧ (Prog.ofExcept (encodeDirents [direntFor path index e m]) >>= _) _ = _
      generalize direntFor path index e m = d
      cases henc : encodeDirents [d] with
      | error err => exact ⟨x, hx, by rw [ofExcept_error]; rfl⟩
      | ok encoded =>
        have hone : encoded = encodeDirent d := by
          obtain ⟨rest, -, hrest, rfl⟩ := encodeDirents_cons henc
          cases hrest
          exact List.append_nil _
        have hlen : encoded.length = direntSize d := encodeDirents_one_length henc
        rw [ofExcept_ok, pure_bind, branch_apply, hlen]
        simp only [Except.map, page]
        split
        · exact ⟨x, hx, by simp⟩
        · obtain ⟨y, hy, hloop⟩ := @ih (index + 1) (fun e' he' => hes e' (List.mem_cons_of_mem e he')) (by omega)
            (data ++ encoded) { s with fsys := x } hx
          refine ⟨y, hy, ?_⟩
          rw [hloop, List.length_append, hlen]
          cases page direntSize count (data.length + direntSize d) (packEntries path stat (index + 1) es) with
          | error err => rfl
          | ok ds => simp [hone]

omit h in
/-- The entries up to the cursor are passed over. -/
theorem readdirLoop_skip {offset count index : Nat} (hle : index ≤ offset) (es : List DirEntry) (data : Bytes) :
    readdirLoop fs path offset count index es data =
      readdirLoop fs path offset count offset (es.drop (offset - index)) data := by
  induction es generalizing index with
  | nil => rw [List.drop_nil, readdirLoop, readdirLoop]
  | cons e es ih =>
    rcases Nat.eq_or_lt_of_le hle with rfl | hlt
    · rw [Nat.sub_self, List.drop_zero]
    · have hdrop : offset - index = offset - (index + 1) + 1 := by omega
      rw [readdirLoop, if_pos (by omega), ih (by omega), hdrop, List.drop_succ_cons]

variable {st : FidState η} {fid : UInt32} {offset : UInt64} {count : UInt32}

/-- A page of the entries behind the cursor. -/
theorem handle_readdir {s : ServerState σ η} (hfid : s.fids fid = some st) (hpath : st.path = path) (hs : I s.fsys) :
    ∃ x, I x ∧ handle fs (.readdir fid offset count) s =
      (match page direntSize count.toNat 0 (packEntries path stat offset.toNat (entries.drop offset.toNat)) with
        | .ok ds => .ok (.readdir (ds.flatMap encodeDirent))
        | .error e => .err e, { s with fsys := x }) := by
  obtain ⟨x, hlist, hx⟩ := h.listed s.fsys hs
  have hlisted : onFs (fs.readDir FsContext.new path) s = (.ok entries, { s with fsys := x }) := by
    rw [onFs, zoom_apply, hlist]
  obtain ⟨y, hy, hloop⟩ := @readdirLoop_page σ η fs path entries stat I h offset.toNat count.toNat offset.toNat
    (entries.drop offset.toNat) (fun e he => List.mem_of_mem_drop he) le_rfl [] { s with fsys := x } hx
  refine ⟨y, hy, ?_⟩
  rw [handle, readdir, bind_ok (fidPath_eq_ok.mpr ⟨st, hfid, hpath, rfl⟩), bind_ok hlisted,
    readdirLoop_skip (Nat.zero_le _), Nat.sub_zero, bind_apply, hloop, List.length_nil]
  cases page direntSize count.toNat 0 (packEntries path stat offset.toNat (entries.drop offset.toNat)) <;> rfl

/-- One call of the client for a page. -/
theorem readdirChunk_page {s : Session σ η} (hfid : s.transport.fids fid = some st) (hpath : st.path = path)
    (hs : I s.transport.fsys) (hcount : 11 + count.toNat < 2 ^ 32) :
    ∃ x, I x ∧
      (∀ ds, page direntSize count.toNat 0 (packEntries path stat offset.toNat (entries.drop offset.toNat)) = .ok ds →
        NinePFile.readdirChunk (loopbackTransport fs) fid offset count s =
          (.ok (ds.flatMap encodeDirent), s.retag.withServer { s.transport with fsys := x })) ∧
      ∀ e, page direntSize count.toNat 0 (packEntries path stat offset.toNat (entries.drop offset.toNat)) = .error e →
        ∃ e', NinePFile.readdirChunk (loopbackTransport fs) fid offset count s =
          (.err e', s.retag.withServer { s.transport with fsys := x }) := by
  obtain ⟨x, hx, hhandle⟩ := @handle_readdir σ η fs path entries stat I h st fid offset count _ hfid hpath hs
  refine ⟨x, hx, fun ds hds => ?_, fun e he => ?_⟩
  · rw [hds] at hhandle
    have hlen : (ds.flatMap encodeDirent).length ≤ count.toNat := by
      have hsum := page_size hds (Nat.zero_le _)
      rw [List.length_flatMap, show ds.map (fun d => (encodeDirent d).length) = ds.map direntSize from
        List.map_congr_left fun d _ => encodeDirent_length d]
      simpa using hsum
    have hfits : responseFits (.readdir (ds.flatMap encodeDirent)) = true := by
      rw [responseFits, encodeResponseBody, putCountedData_of_fits (show (ds.flatMap encodeDirent).length < 2 ^ 32 by omega),
        except_ok_bind]
      simp only [encodeData, List.length_append, putU32_length, decide_eq_true_eq]
      omega
    rw [NinePFile.readdirChunk, bind_ok (NinePClientFs.call_of_ok fs rfl hhandle hfits)]
    rfl
  · rw [he] at hhandle
    exact ⟨_, by rw [NinePFile.readdirChunk, bind_err (NinePClientFs.call_of_err fs rfl hhandle)]⟩

omit h in
theorem NinePFile.readDirLoop_end {τ : Type} {t : NinePTransport τ} {rounds : Nat} {got : List DirEntry} {s s' : ClientState τ}
    (hchunk : readdirChunk t fid offset count s = (.ok [], s')) :
    readDirLoop t fid count (rounds + 1) offset got s = (.ok got, s') := by
  rw [readDirLoop, bind_ok hchunk]
  rfl

omit h in
theorem NinePFile.readDirLoop_more {τ : Type} {t : NinePTransport τ} {rounds : Nat} {got : List DirEntry}
    {s s' : ClientState τ} {init : List NinePDirent} {last : NinePDirent}
    (hchunk : readdirChunk t fid offset count s = (.ok ((init ++ [last]).flatMap encodeDirent), s'))
    (hfits : ∀ d ∈ init ++ [last], StringFits d.name) :
    readDirLoop t fid count (rounds + 1) offset got s =
      readDirLoop t fid count rounds last.offset (got ++ (init ++ [last]).map direntEntry) s' := by
  have hne : (init ++ [last]).flatMap encodeDirent ≠ [] := by
    intro hnil
    have hzero := congrArg List.length hnil
    simp [encodeDirent_length] at hzero
  rw [readDirLoop, bind_ok hchunk, if_neg hne, decodeDirents_flatMap hfits, ofExcept_ok, pure_bind, List.getLast?_concat]

/-- The pages of the client add up to the listing, however the entries fall into them. -/
theorem readDirLoop_fitting {s : Session σ η} {k rounds : Nat} {got : List DirEntry} (hlen : entries.length < 2 ^ 64)
    (hcount : 11 + count.toNat < 2 ^ 32) (hk : k ≤ entries.length) (hrounds : entries.length < k + rounds)
    (hfid : s.transport.fids fid = some st) (hpath : st.path = path) (hs : I s.transport.fsys) :
    (∀ ds, fitting direntSize count.toNat (packEntries path stat k (entries.drop k)) = .ok ds →
      (NinePFile.readDirLoop (loopbackTransport fs) fid count rounds (UInt64.ofNat k) got s).1 =
        .ok (got ++ ds.map direntEntry)) ∧
    ∀ e, fitting direntSize count.toNat (packEntries path stat k (entries.drop k)) = .error e →
      ∃ e', (NinePFile.readDirLoop (loopbackTransport fs) fid count rounds (UInt64.ofNat k) got s).1 = .err e' := by
  induction rounds generalizing k got s with
  | zero => omega
  | succ rounds ih =>
    have hcursor : (UInt64.ofNat k).toNat = k := UInt64.toNat_ofNat_of_lt' (show k < 2 ^ 64 by omega)
    obtain ⟨x, hx, hok, herr⟩ := @readdirChunk_page σ η fs path entries stat I h st fid (UInt64.ofNat k) count s hfid hpath hs hcount
    rw [hcursor] at hok herr
    cases hpage : page direntSize count.toNat 0 (packEntries path stat k (entries.drop k)) with
    | error e =>
      obtain ⟨e', hrun⟩ := herr e hpage
      rw [fitting_of_page_error hpage, NinePFile.readDirLoop, bind_err hrun]
      exact ⟨nofun, fun _ _ => ⟨e', rfl⟩⟩
    | ok ds =>
      have hfits : ∀ d ∈ ds, StringFits d.name := by
        intro d hd
        obtain ⟨i, hi⟩ := List.getElem?_of_mem hd
        obtain ⟨e, -, hpack⟩ := page_packed hpage hi
        exact (packEntry_eq_ok hpack).1
      cases ds using List.reverseRecOn with
      | nil =>
        rw [fitting_of_page_nil hpage, NinePFile.readDirLoop_end (hok [] hpage)]
        exact ⟨fun ds' hds' => by cases hds'; simp, nofun⟩
      | append_singleton init last =>
        have hm : (init ++ [last]).length ≤ entries.length - k := by
          have hle := page_length hpage
          rwa [packEntries_length, List.length_drop] at hle
        have hlast : last.offset = UInt64.ofNat (k + (init ++ [last]).length) := by
          have hat : (init ++ [last])[init.length]? = some last := by simp
          obtain ⟨e, -, hpack⟩ := page_packed hpage hat
          obtain ⟨-, metadata, hdirent⟩ := packEntry_eq_ok hpack
          rw [hdirent, direntFor, List.length_append]
          congr 1
        have hgrow : 0 < (init ++ [last]).length := by simp
        have hrest := @ih (s.retag.withServer { s.transport with fsys := x }) (k + (init ++ [last]).length)
          (got ++ (init ++ [last]).map direntEntry) (by omega) (by omega) hfid hx
        rw [NinePFile.readDirLoop_more (hok _ hpage) hfits, hlast, fitting_of_page hpage, packEntries_drop, List.drop_drop]
        generalize fitting direntSize count.toNat _ = rest at hrest ⊢
        cases rest with
        | error e =>
          obtain ⟨e', he'⟩ := hrest.2 e rfl
          exact ⟨nofun, fun _ _ => ⟨e', he'⟩⟩
        | ok more =>
          refine ⟨fun ds' hds' => ?_, nofun⟩
          cases hds'
          rw [hrest.1 more rfl]
          simp

end

/-! ## When the listing is exact -/

/-- The name of an entry and its type. -/
def entryKind (e : DirEntry) : String × UInt8 := (e.name, direntType e.metadata.mode)

/-- No reply has room for the entry. -/
def TooLarge (budget : Nat) (e : DirEntry) : Prop := budget < 24 + (utf8Bytes e.name).length

instance (budget : Nat) (e : DirEntry) : Decidable (TooLarge budget e) := inferInstanceAs (Decidable (_ < _))

/-- The entry can be put into a reply. -/
def Packs (stat : DirEntry → Except Error Metadata) (e : DirEntry) : Prop :=
  (∃ metadata, stat e = .ok metadata) ∧ StringFits e.name

/-- The names and types of all entries in order, or an error if one of them is too large. -/
def ListsExactly (entries : List DirEntry) (budget : Nat) (result : Outcome Error (List DirEntry)) : Prop :=
  ((∀ e ∈ entries, ¬ TooLarge budget e) → ∃ listing, result = .ok listing ∧ listing.map entryKind = entries.map entryKind) ∧
  ((∃ e ∈ entries, TooLarge budget e) → ∃ err, result = .err err)

/-- Before an entry that is too large there is one that fails, and only then. -/
def PagesMeet (entries : List DirEntry) (stat : DirEntry → Except Error Metadata) (budget : Nat) : Prop :=
  ((∀ e ∈ entries, ¬ TooLarge budget e) → ∀ e ∈ entries, Packs stat e) ∧
  ∀ before e after, entries = before ++ e :: after → (∀ x ∈ before, Packs stat x) → Packs stat e → ¬ TooLarge budget e

theorem direntType_modeFromDirentType (mode : FileMode) : direntType (modeFromDirentType (direntType mode)) = direntType mode := by
  unfold direntType
  split
  · decide
  · split
    · decide
    · decide

section
variable {path : String} {stat : DirEntry → Except Error Metadata} {budget : Nat}

theorem packEntry_of_packs {e : DirEntry} (index : Nat) (h : Packs stat e) :
    ∃ d, packEntry path stat index e = .ok d ∧ direntSize d = 24 + (utf8Bytes e.name).length ∧
      entryKind (direntEntry d) = entryKind e := by
  obtain ⟨⟨metadata, hstat⟩, hfits⟩ := h
  refine ⟨direntFor path index e metadata, ?_, rfl, ?_⟩
  · rw [packEntry, hstat, except_ok_bind, encodeDirents_of_fits (by simpa [direntFor] using hfits)]
    rfl
  · exact Prod.ext rfl (direntType_modeFromDirentType _)

theorem packEntry_of_not_packs {e : DirEntry} (index : Nat) (h : ¬ Packs stat e) :
    ∃ err, packEntry path stat index e = .error err := by
  cases hpack : packEntry path stat index e with
  | error err => exact ⟨err, rfl⟩
  | ok d =>
    obtain ⟨hfits, metadata, rfl⟩ := packEntry_eq_ok hpack
    obtain ⟨m, hstat, -⟩ := except_bind_eq_ok.mp hpack
    exact absurd ⟨⟨m, hstat⟩, hfits⟩ h

/-- What the pages add up to: everything, what stands before an entry that is too
large, or an error. -/
theorem fitting_packEntries (index : Nat) (es : List DirEntry) :
    (∃ ds, fitting direntSize budget (packEntries path stat index es) = .ok ds ∧
      (ds.map direntEntry).map entryKind = es.map entryKind ∧ ∀ e ∈ es, Packs stat e ∧ ¬ TooLarge budget e) ∨
    (∃ before e after, es = before ++ e :: after ∧ (∀ x ∈ before, Packs stat x ∧ ¬ TooLarge budget x) ∧
      ((Packs stat e ∧ TooLarge budget e ∧ ∃ ds, fitting direntSize budget (packEntries path stat index es) = .ok ds ∧
          ds.length = before.length) ∨
       (¬ Packs stat e ∧ ∃ err, fitting direntSize budget (packEntries path stat index es) = .error err))) := by
  induction es generalizing index with
  | nil => exact Or.inl ⟨[], rfl, rfl, nofun⟩
  | cons e es ih =>
    by_cases hpacks : Packs stat e
    · obtain ⟨d, hpack, hsize, hkind⟩ := @packEntry_of_packs path stat e index hpacks
      rw [packEntries, hpack, fitting, hsize]
      by_cases hlarge : TooLarge budget e
      · exact Or.inr ⟨[], e, es, rfl, nofun, Or.inl ⟨hpacks, hlarge, [], if_pos hlarge, rfl⟩⟩
      · rw [if_neg (show ¬ budget < 24 + (utf8Bytes e.name).length from hlarge)]
        rcases ih (index + 1) with ⟨ds, hds, hkinds, hall⟩ | ⟨before, x, after, rfl, hbefore, hx⟩
        · refine Or.inl ⟨d :: ds, by rw [hds]; rfl, ?_, List.forall_mem_cons.mpr ⟨⟨hpacks, hlarge⟩, hall⟩⟩
          rw [List.map_cons, List.map_cons, List.map_cons, hkinds, hkind]
        · refine Or.inr ⟨e :: before, x, after, rfl, List.forall_mem_cons.mpr ⟨⟨hpacks, hlarge⟩, hbefore⟩, ?_⟩
          rcases hx with ⟨hp, hl, ds, hds, hlen⟩ | ⟨hp, err, herr⟩
          · exact Or.inl ⟨hp, hl, d :: ds, by rw [hds]; rfl, by rw [List.length_cons, hlen, List.length_cons]⟩
          · exact Or.inr ⟨hp, err, by rw [herr]; rfl⟩
    · obtain ⟨err, herr⟩ := @packEntry_of_not_packs path stat e index hpacks
      refine Or.inr ⟨[], e, es, rfl, nofun, Or.inr ⟨hpacks, err, ?_⟩⟩
      rw [packEntries, herr, fitting]

end

section
variable {fs path entries stat} {I : σ → Prop} {st : FidState η}

/-- The first listing of an open file is what its pages add up to. -/
theorem readDir_all_fst {τ : Type} {t : NinePTransport τ} {rounds : Nat} {f : NinePFile} {s : ClientState τ}
    (hopen : f.closed = false) (hcache : f.dirCache = none) :
    (NinePFile.readDir t rounds (-1) (f, s)).1 =
      (NinePFile.readDirLoop t f.fid (saturatingSub s.msize 24) rounds 0 [] s).1 := by
  have hensure : NinePFile.ensureOpen (f, s) = (.ok (), (f, s)) := by
    rw [NinePFile.ensureOpen]
    simp [bind_apply, NinePFile.file, reads_apply, hopen]
  rw [NinePFile.readDir, bind_ok hensure, bind_apply, NinePFile.cachedEntries]
  simp only [bind_apply, NinePFile.file, reads_apply, hcache, NinePFile.onClient, zoom_apply, get_apply]
  rcases NinePFile.readDirLoop t f.fid (saturatingSub s.msize 24) rounds 0 [] s with ⟨listing | e | _, s'⟩
  · rfl
  · rfl
  · rfl

/-- The client lists the directory exactly when the entries that are too large come
behind one that fails. -/
theorem readDir_listsExactly_iff (fs : FileSystem σ η) (h : Steady fs path entries stat I) (f : NinePFile) (s : Session σ η)
    (hopen : f.closed = false) (hcache : f.dirCache = none) (hfid : s.transport.fids f.fid = some st)
    (hpath : st.path = path) (hs : I s.transport.fsys) (hlen : entries.length < 2 ^ 64) (rounds : Nat)
    (hrounds : entries.length < rounds) :
    ListsExactly entries (saturatingSub s.msize 24).toNat (NinePFile.readDir (loopbackTransport fs) rounds (-1) (f, s)).1 ↔
      PagesMeet entries stat (saturatingSub s.msize 24).toNat := by
  have hcount : 11 + (saturatingSub s.msize 24).toNat < 2 ^ 32 := by
    unfold saturatingSub
    have hmsize := s.msize.toNat_lt
    split
    case isTrue hle =>
      rw [UInt32.toNat_sub_of_le _ _ hle]
      simp
      omega
    · simp
  obtain ⟨hok, herr⟩ := @readDirLoop_fitting σ η fs path entries stat I h st f.fid (saturatingSub s.msize 24) s 0 rounds []
    hlen hcount (Nat.zero_le _) (by omega) hfid hpath hs
  rw [readDir_all_fst hopen hcache]
  rcases @fitting_packEntries path stat (saturatingSub s.msize 24).toNat 0 entries with
    ⟨ds, hds, hkinds, hall⟩ | ⟨before, e, after, heq, hbefore, ⟨hpacks, hlarge, ds, hds, -⟩ | ⟨hpacks, err, hfail⟩⟩
  · have hrun := hok ds hds
    refine iff_of_true ⟨fun _ => ⟨_, hrun, by simpa using hkinds⟩, ?_⟩ ⟨fun _ e he => (hall e he).1, ?_⟩
    · rintro ⟨e, he, hlarge⟩
      exact absurd hlarge (hall e he).2
    · intro before e after heq _ _
      exact (hall e (by rw [heq]; simp)).2
  · have hrun := hok ds hds
    refine iff_of_false (fun hexact => ?_) fun hmeet => ?_
    · obtain ⟨err, herr⟩ := hexact.2 ⟨e, by rw [heq]; simp, hlarge⟩
      exact absurd (hrun.symm.trans herr) (by simp)
    · exact hmeet.2 before e after heq (fun x hx => (hbefore x hx).1) hpacks hlarge
  · obtain ⟨err', hrun⟩ := herr err hfail
    constructor
    · intro hexact
      refine ⟨fun hnone => ?_, ?_⟩
      · obtain ⟨listing, hlisting, -⟩ := hexact.1 hnone
        exact absurd (hrun.symm.trans hlisting) (by simp)
      · intro before' e' after' heq' hbefore' hpacks' hlarge'
        rcases List.append_eq_append_iff.mp (heq.symm.trans heq') with ⟨mid, hmid, hrest⟩ | ⟨mid, hmid, hrest⟩
        · cases mid with
          | nil =>
            rw [List.nil_append] at hrest
            cases hrest
            exact hpacks hpacks'
          | cons x mid =>
            cases hrest
            exact hpacks (hbefore' e (by rw [hmid]; simp))
        · cases mid with
          | nil =>
            rw [List.nil_append] at hrest
            cases hrest
            exact hpacks hpacks'
          | cons x mid =>
            cases hrest
            exact (hbefore e' (by rw [hmid]; simp)).2 hlarge'
    · intro hmeet
      refine ⟨fun hnone => ?_, fun _ => ⟨err', hrun⟩⟩
      exact absurd (hmeet.1 hnone e (by rw [heq]; simp)) hpacks

end

/-! ## Directories in memory -/

/-- The stat of a listed entry. -/
def listedStat (m : MemFs) (path : String) (e : DirEntry) : Except Error Metadata :=
  match (memFs.lstat FsContext.new.noFollow (joinPath path e.name) m).1 with
  | .ok metadata => .ok metadata
  | .err err => .error err
  | .abort => .error (.kind .other)

/-- A directory of a file system in memory is steady. -/
theorem memFs_steady {m : MemFs} {p : String} {i : NodeId} (hp : validPath p = true) (hi : m.nodes[p]? = some i)
    (hdir : (m.heap i).metadata.isDir = true) (hlink : (m.heap i).metadata.mode.isSymlink = false) :
    Steady memFs p (m.listing p) (listedStat m p) (· = m) where
  listed := by
    rintro x rfl
    exact ⟨x, MemFs.readDir_of_dirNode hp hi hdir hlink, rfl⟩
  stats := by
    rintro e - x rfl
    refine ⟨x, Prod.ext ?_ rfl, rfl⟩
    have hret := memFs_lstat_returns (joinPath p e.name) x
    unfold listedStat
    cases hstat : (memFs.lstat FsContext.new.noFollow (joinPath p e.name) x).1 with
    | ok metadata => rfl
    | err err => rfl
    | abort => exact absurd hstat hret

theorem packs_of_listing {m : MemFs} {p : String}
    (h : ∀ e ∈ m.listing p, (listedStat m p e).toOption.isSome = true ∧ (utf8Bytes e.name).length < 2 ^ 16) :
    ∀ e ∈ m.listing p, Packs (listedStat m p) e := by
  intro e he
  refine ⟨?_, (h e he).2⟩
  cases hm : listedStat m p e with
  | ok metadata => exact ⟨metadata, rfl⟩
  | error err =>
    have hsome := (h e he).1
    rw [hm] at hsome
    cases hsome

/-- Fid 1 is attached to a directory of four entries. -/
def listedServer : ServerState MemFs MemFile :=
  (attach memFs 1 (new (Base.run MemWorld.step (MemWorld.init fun _ => 0)
    [.mkdir "dir" (FileMode.fromPerm 0o755), .create "a", .create "b", .create "c"]).fs fun _ => 0)).2

theorem listedServer_listing : listedServer.fsys.listing "." = dedupeSortHide (listedServer.fsys.dirEntries ".") :=
  List.mergeSort_of_pairwise (by decide +kernel)

/-- With a message size of 76 the entries take two replies, and a third one ends the listing. -/
theorem readDir_listsExactly_listedServer :
    52 < ((listedServer.fsys.listing ".").map fun e => 24 + (utf8Bytes e.name).length).sum ∧
    ListsExactly (listedServer.fsys.listing ".") 52
      (NinePFile.readDir (loopbackTransport memFs) 5 (-1) (NinePFile.new 1 ".", { ClientState.new listedServer with msize := 76 })).1 := by
  have hsteady := @memFs_steady listedServer.fsys "." 0 (by decide) (by decide +kernel) (by decide +kernel) (by decide +kernel)
  have hpacks := @packs_of_listing listedServer.fsys "." (by rw [listedServer_listing]; decide +kernel)
  have hsmall : ∀ e ∈ listedServer.fsys.listing ".", ¬ TooLarge 52 e := by
    rw [listedServer_listing]
    decide +kernel
  have hlen : (listedServer.fsys.listing ".").length = 4 := by
    rw [listedServer_listing]
    decide +kernel
  refine ⟨by rw [listedServer_listing]; decide +kernel, ?_⟩
  exact (readDir_listsExactly_iff memFs hsteady (NinePFile.new 1 ".") { ClientState.new listedServer with msize := 76 } rfl rfl
    (show listedServer.fids 1 = some (.unopened ".") from rfl) rfl rfl (by rw [hlen]; decide) 5 (by rw [hlen]; decide)).mpr
      ⟨fun _ => hpacks, fun before e after heq _ _ => hsmall e (by rw [heq]; simp)⟩

/-- With a message size of 50 there is no room for the name `dir`, and the listing is
empty where it should fail. -/
theorem readDir_not_listsExactly :
    ¬ ∀ (s : Session MemFs MemFile) (f : NinePFile) (st : FidState MemFile) (entries : List DirEntry)
      (stat : DirEntry → Except Error Metadata), Steady memFs st.path entries stat (· = s.transport.fsys) →
      (∀ e ∈ entries, Packs stat e) → f.closed = false → f.dirCache = none → s.transport.fids f.fid = some st →
      ListsExactly entries (saturatingSub s.msize 24).toNat
        (NinePFile.readDir (loopbackTransport memFs) (entries.length + 1) (-1) (f, s)).1 := by
  intro h
  have hsteady := @memFs_steady walkingServer.fsys "." 0 (by decide) (by decide +kernel) (by decide +kernel) (by decide +kernel)
  have hpacks := @packs_of_listing walkingServer.fsys "." (by decide +kernel)
  have hexact := h { ClientState.new walkingServer with msize := 50 } (NinePFile.new 1 ".") (.unopened ".") _ _ hsteady hpacks rfl rfl rfl
  obtain ⟨err, herr⟩ := hexact.2 (by decide +kernel)
  have hempty : (NinePFile.readDir (loopbackTransport memFs) ((walkingServer.fsys.listing ".").length + 1) (-1)
      (NinePFile.new 1 ".", { ClientState.new walkingServer with msize := 50 })).1 = .ok [] := by
    decide +kernel
  rw [hempty] at herr
  cases herr

end Star9
