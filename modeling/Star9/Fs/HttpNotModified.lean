import Star9.Base.Line
import Star9.Fs.HttpServed
import Star9.Fs.MemRun

/-!
# Answers without a body

A GET with the tag of an earlier answer is answered without a body when the tag
is still the same. The tag is made of the mode, the length of the body and the
second of the last change, so the client is right to keep the body as long as
no two bodies went under one tag.
-/
namespace Star9
open Base Prog

/-! ## Tags -/

theorem digit_of_mem_toString {n : Nat} {c : Char} (h : c ∈ (toString n).toList) : c.isDigit = true := by
  have hlist : (toString n).toList = Nat.toDigits 10 n := String.toList_ofList
  rw [hlist] at h
  exact Nat.isDigit_of_mem_toDigits (by decide) (by decide) h

theorem toString_toList_inj {n n' : Nat} (h : (toString n).toList = (toString n').toList) : n = n' := by
  have hlist : ∀ k : Nat, (toString k).toList = Nat.toDigits 10 k := fun _ => String.toList_ofList
  rw [hlist, hlist] at h
  rw [← Nat.ofDigitChars_ten_toDigits (n := n), h, Nat.ofDigitChars_ten_toDigits]

theorem entityTag_toList (metadata : Metadata) (n : Nat) : (entityTag metadata n).toList =
    ('"' :: (toString metadata.mode.unixTypeAndPerm.toNat).toList) ++
      '-' :: ((toString n).toList ++ '-' :: ((toString (HttpFs.unixSecs metadata.modified)).toList ++ ['"'])) := by
  simp [entityTag, formatHttpMode]

theorem mem_entityTag {metadata : Metadata} {n : Nat} {c : Char} (h : c ∈ (entityTag metadata n).toList) :
    c = '"' ∨ c = '-' ∨ c.isDigit = true := by
  rw [entityTag_toList] at h
  simp only [List.cons_append, List.mem_cons, List.mem_append, List.not_mem_nil, or_false] at h
  rcases h with h | h | h | h | h | h | h
  · exact .inl h
  · exact .inr (.inr (digit_of_mem_toString h))
  · exact .inr (.inl h)
  · exact .inr (.inr (digit_of_mem_toString h))
  · exact .inr (.inl h)
  · exact .inr (.inr (digit_of_mem_toString h))
  · exact .inl h

/-- A tag gives away what it was made of. -/
theorem entityTag_inj {metadata metadata' : Metadata} {n n' : Nat} (h : entityTag metadata n = entityTag metadata' n') :
    metadata.mode.unixTypeAndPerm = metadata'.mode.unixTypeAndPerm ∧ n = n' ∧
      HttpFs.unixSecs metadata.modified = HttpFs.unixSecs metadata'.modified := by
  have hdash : ∀ k : Nat, '-' ∉ (toString k).toList := fun k hmem => absurd (digit_of_mem_toString hmem) (by decide)
  have hquoted : ∀ k : Nat, '-' ∉ '"' :: (toString k).toList := fun k => List.not_mem_cons_of_ne_of_not_mem (by decide) (hdash k)
  have hlast : ∀ k : Nat, '-' ∉ (toString k).toList ++ ['"'] := fun k => by
    rw [List.mem_append, not_or]
    exact ⟨hdash k, by decide⟩
  have hsplit : ∀ (m : Metadata) (k : Nat), (entityTag m k).toList.splitOn '-' =
      ['"' :: (toString m.mode.unixTypeAndPerm.toNat).toList, (toString k).toList,
        (toString (HttpFs.unixSecs m.modified)).toList ++ ['"']] := by
    intro m k
    rw [entityTag_toList, List.splitOn_append_cons_self, List.splitOn_eq_singleton (hquoted _), List.splitOn_append_cons_self,
      List.splitOn_eq_singleton (hdash _), List.splitOn_eq_singleton (hlast _)]
    rfl
  have hparts := (hsplit metadata n).symm.trans ((congrArg (fun s : String => s.toList.splitOn '-') h).trans (hsplit metadata' n'))
  simp only [List.cons.injEq, true_and, and_true] at hparts
  obtain ⟨hmode, hlen, hsecs⟩ := hparts
  exact ⟨UInt32.toNat_inj.mp (toString_toList_inj hmode), toString_toList_inj hlen,
    toString_toList_inj (List.append_cancel_right hsecs)⟩

theorem trim_entityTag (metadata : Metadata) (n : Nat) : trim (entityTag metadata n) = entityTag metadata n := by
  have hspace : isWhiteSpace '"' = false := by decide
  have hlist := entityTag_toList metadata n
  rw [List.cons_append] at hlist
  unfold trim trimWith
  rw [hlist, List.dropWhile_cons_of_neg (by simp [hspace]), ← hlist]
  have hback : (entityTag metadata n).toList.rdropWhile isWhiteSpace = (entityTag metadata n).toList := by
    rw [List.rdropWhile_eq_self_iff]
    intro hne
    have hend : (entityTag metadata n).toList.getLast hne = '"' := by
      simp [hlist]
    rw [hend, hspace]
    decide
  rw [hback, String.ofList_toList]

/-- A request that carries one tag is compared with the tag of the answer. -/
theorem conditionalNotModified_of_tag {requestHeaders responseHeaders : Headers} {metadata metadata' : Metadata} {n n' : Nat}
    (hrequest : headerValue requestHeaders "If-None-Match" = some (entityTag metadata n))
    (hresponse : headerValue responseHeaders "ETag" = some (entityTag metadata' n')) :
    conditionalNotModified requestHeaders responseHeaders = true ↔ entityTag metadata n = entityTag metadata' n' := by
  have hcomma : ',' ∉ (entityTag metadata n).toList := fun hmem => by
    rcases mem_entityTag hmem with h | h | h <;> revert h <;> decide
  have hstar : entityTag metadata n ≠ "*" := fun heq => by
    have hlist := entityTag_toList metadata n
    rw [heq] at hlist
    exact absurd (List.cons.inj hlist).1 (by decide)
  unfold conditionalNotModified
  rw [hrequest, hresponse]
  dsimp only
  rw [List.splitOn_eq_singleton hcomma]
  simp [String.ofList_toList, trim_entityTag, hstar]

theorem headerValue_metadataHeaders (metadata : Metadata) (n : Nat) :
    headerValue (metadataHeaders metadata n) "ETag" = some (entityTag metadata n) := by
  apply headerValue_of_unique
  · simp [metadataHeaders, Std.ExtTreeMap.getElem_insert]
  · intro key hkey hcase
    simp only [metadataHeaders, Std.ExtTreeMap.mem_insert, compare_eq_iff_eq, Std.ExtTreeMap.not_mem_empty, or_false] at hkey
    revert hcase
    rcases hkey with rfl | rfl | rfl | rfl | rfl | rfl | rfl <;> decide +kernel

/-! ## What a GET shows -/

/-- What a GET of a path looks at: the mode, the second of the last change, and the body. -/
structure Shown where
  mode : UInt32
  second : Nat
  contents : Bytes
  deriving DecidableEq

namespace MemFs
variable {fs fs' : MemFs} {p : String} {id : NodeId}

/-- The bytes of a file, the target of a link, or the lines of a listing. -/
def shownBytes (fs : MemFs) (p : String) (n : NodeInner) : Bytes :=
  if n.metadata.mode.isSymlink then utf8Bytes (utf8Lossy n.data)
  else if n.metadata.isDir then utf8Bytes (String.join ((fs.listing p).map HttpFsHandler.directoryLine))
  else n.data

def shownAt (fs : MemFs) (p : String) : Option Shown :=
  (fs.nodes[p]?).map fun id =>
    { mode := (fs.heap id).metadata.mode.unixTypeAndPerm
      second := HttpFs.unixSecs (fs.heap id).metadata.modified
      contents := fs.shownBytes p (fs.heap id) }

/-! The name that a node remembers is not shown. -/

theorem childStep_setName (name : String) : (fs.updateNode id (NodeInner.setName name)).childStep p = fs.childStep p := by
  funext acc kv
  unfold childStep
  cases relativeTo p kv.1 with
  | none => rfl
  | some rest =>
    dsimp only
    cases splitOnceSlash rest with
    | some parts => rfl
    | none =>
      by_cases hid : kv.2 = id
      · simp [hid, NodeInner.setName]
      · simp [Function.update_of_ne hid]

theorem listing_setName (name : String) : (fs.updateNode id (NodeInner.setName name)).listing p = fs.listing p := by
  unfold listing dirEntries childrenFor
  rw [childStep_setName, updateNode_nodes]

theorem shownAt_setName (name : String) : (fs.updateNode id (NodeInner.setName name)).shownAt p = fs.shownAt p := by
  unfold shownAt shownBytes
  rw [listing_setName, updateNode_nodes]
  cases fs.nodes[p]? with
  | none => rfl
  | some i =>
    by_cases hi : i = id
    · rw [hi, Option.map_some, Option.map_some, updateNode_heap, Function.update_self]
      rfl
    · simp [Function.update_of_ne hi]

end MemFs

/-! ## Two answers for one path -/

namespace HttpFsHandler
variable {h : HttpFsHandler MemFs MemFile} {fs fs' : MemFs} {p : String} {headers : Headers} {request : HttpRequest} {r : HttpResponse}

theorem headerValue_eq_none {headers : Headers} {name : String} (hnone : ∀ key ∈ headers, eqIgnoreAsciiCase key name = false) :
    headerValue headers name = none := by
  rw [headerValue, Option.map_eq_none_iff, List.find?_eq_none]
  intro kv hkv
  have hget := Std.ExtTreeMap.mem_toList_iff_getElem?_eq_some.mp hkv
  rw [hnone _ (Std.ExtTreeMap.mem_iff_isSome_getElem?.mpr (by rw [hget]; rfl))]
  decide

theorem multipartDirectoryResponse_untagged (hok : multipartDirectoryResponse h p fs = (.ok r, fs')) :
    r.status = 200 ∧ headerValue r.headers "ETag" = none := by
  obtain ⟨metadata, fs₁, -, hrest⟩ := bind_eq_ok.mp hok
  obtain ⟨entries, fs₂, -, hrest⟩ := bind_eq_ok.mp hrest
  obtain ⟨rootBody, fs₃, -, hrest⟩ := bind_eq_ok.mp hrest
  obtain ⟨parts, fs₄, -, hrest⟩ := bind_eq_ok.mp hrest
  cases hrest
  refine ⟨rfl, headerValue_eq_none fun key hkey => ?_⟩
  simp only [Std.ExtTreeMap.mem_insert, compare_eq_iff_eq, Std.ExtTreeMap.not_mem_empty, or_false] at hkey
  rcases hkey with rfl | rfl <;> decide +kernel

/-- A GET of a directory in parts has no tag; any other GET compares the tag of what it has read. -/
theorem handleGet_cases (hok : handleGet h p headers fs = (.ok r, fs')) :
    (r.status = 200 ∧ headerValue r.headers "ETag" = none) ∨
    ∃ metadata fs₁ body, h.fsys.freeLstat p fs = (.ok metadata, fs₁) ∧ (metadata.isDir && acceptsMultipart headers) = false ∧
      entityBody h p metadata fs₁ = (.ok body, fs') ∧ r = entityResponse headers metadata body.length body := by
  obtain ⟨metadata, fs₁, hstat, hrest⟩ := bind_eq_ok.mp hok
  cases hparts : metadata.isDir && acceptsMultipart headers with
  | true =>
    rw [hparts, if_pos rfl] at hrest
    exact .inl (multipartDirectoryResponse_untagged hrest)
  | false =>
    rw [hparts, if_neg Bool.false_ne_true] at hrest
    obtain ⟨body, fs₂, hbody, hresponse⟩ := bind_eq_ok.mp hrest
    cases hresponse
    exact .inr ⟨metadata, fs₁, body, hstat, hparts, hbody, rfl⟩

/-- What was read is what the path shows, and reading does not change it. -/
theorem entityBody_shown (hfs : h.fsys = memFs) (hp : validPath p = true) {metadata : Metadata} {fs₁ : MemFs} {body : Bytes}
    (hstat : h.fsys.freeLstat p fs = (.ok metadata, fs₁)) (hbody : entityBody h p metadata fs₁ = (.ok body, fs')) :
    fs.shownAt p = some { mode := metadata.mode.unixTypeAndPerm, second := HttpFs.unixSecs metadata.modified, contents := body } ∧
      fs'.shownAt p = fs.shownAt p := by
  rw [hfs] at hstat
  have hmem : p ∈ fs.nodes := MemFs.mem_of_stat_ok hp (congrArg Prod.fst hstat)
  obtain ⟨id, hi⟩ := MemFs.mem_nodes_iff.mp hmem
  rw [MemFs.freeLstat_of_mem hp hi] at hstat
  cases hstat
  have hshown : fs.shownAt p = some
      { mode := (fs.heap id).metadata.mode.unixTypeAndPerm
        second := HttpFs.unixSecs (fs.heap id).metadata.modified
        contents := fs.shownBytes p (fs.heap id) } := by
    rw [MemFs.shownAt, hi]
    rfl
  have key : body = fs.shownBytes p (fs.heap id) ∧ fs'.shownAt p = fs.shownAt p := by
    unfold entityBody at hbody
    unfold MemFs.shownBytes
    rw [hfs, branch_apply] at hbody
    cases hlink : (fs.heap id).metadata.mode.isSymlink with
    | true =>
      rw [hlink, if_pos rfl] at hbody
      have hread : memFs.readlink p fs = _ := MemFs.readlink_of_symlink hp hi hlink
      rw [bind_ok hread] at hbody
      cases hbody
      exact ⟨rfl, rfl⟩
    | false =>
      rw [hlink, if_neg Bool.false_ne_true, branch_apply] at hbody
      cases hdir : (fs.heap id).metadata.isDir with
      | true =>
        rw [hdir, if_pos rfl] at hbody
        have hread : memFs.freeReadDir p fs = _ := MemFs.readDir_of_dirNode hp hi hdir hlink
        unfold directoryListing at hbody
        rw [hfs, bind_ok hread] at hbody
        cases hbody
        exact ⟨rfl, rfl⟩
      | false =>
        rw [hdir, if_neg Bool.false_ne_true] at hbody
        obtain ⟨hout, hstate⟩ := MemFs.readFile_ok hp hi hlink hdir hbody
        rw [hstate, MemFs.shownAt_setName]
        exact ⟨hout, rfl⟩
  rw [hshown] at key ⊢
  obtain ⟨rfl, hkeep⟩ := key
  exact ⟨rfl, hkeep⟩

/-- The body is left out exactly when the request has its tag. -/
theorem entityResponse_cases (headers : Headers) (metadata : Metadata) (n : Nat) (body : Bytes) :
    (conditionalNotModified headers (metadataHeaders metadata n) = true ∧ (entityResponse headers metadata n body).status = 304) ∨
    (conditionalNotModified headers (metadataHeaders metadata n) = false ∧
      entityResponse headers metadata n body = { status := 200, headers := metadataHeaders metadata n, body }) := by
  unfold entityResponse
  cases hsame : conditionalNotModified headers (metadataHeaders metadata n) with
  | true => exact .inl ⟨rfl, by rw [if_pos hsame]; rfl⟩
  | false => exact .inr ⟨rfl, if_neg (by rw [hsame]; decide)⟩

theorem handle_get (hmethod : request.method = .get) (hok : (h.handle request fs).1 = .ok r) (hstatus : r.status < 400) :
    handleGet h (parseRequestTarget request.url).path request.headers fs = (.ok r, (h.handle request fs).2) := by
  have hdispatch := dispatch_of_handle hok hstatus
  unfold dispatch at hdispatch
  rw [hmethod] at hdispatch
  exact hdispatch

/-- The answer with a tag tells what the path shows. -/
theorem handle_get_tagged (hfs : h.fsys = memFs) (hmethod : request.method = .get) {tag : String}
    (hok : (h.handle request fs).1 = .ok r) (hstatus : r.status = 200) (htag : headerValue r.headers "ETag" = some tag) :
    ∃ metadata n, tag = entityTag metadata n ∧ n = r.body.length ∧ fs.shownAt (parseRequestTarget request.url).path = some
      { mode := metadata.mode.unixTypeAndPerm, second := HttpFs.unixSecs metadata.modified, contents := r.body } := by
  have hget := handle_get hmethod hok (by rw [hstatus]; decide)
  rcases handleGet_cases hget with ⟨-, hnone⟩ | ⟨metadata, fs₁, body, hstat, -, hbody, rfl⟩
  · rw [hnone] at htag
    cases htag
  · obtain ⟨hshown, -⟩ := entityBody_shown hfs (parseRequestTarget_valid _) hstat hbody
    rcases entityResponse_cases request.headers metadata body.length body with ⟨-, h304⟩ | ⟨-, hwhole⟩
    · rw [h304] at hstatus
      exact absurd hstatus (by decide)
    · rw [hwhole] at htag ⊢
      rw [headerValue_metadataHeaders] at htag
      exact ⟨metadata, body.length, (Option.some.inj htag).symm, rfl, hshown⟩

/-- The plain GET in the place of one that was answered without a body. -/
def plainGet (url : String) : HttpRequest := { method := .get, url, headers := ∅, body := [] }

/-- A request that is answered without a body carried the tag of what the path shows. -/
theorem handle_get_notModified (hfs : h.fsys = memFs) (hmethod : request.method = .get) {metadata : Metadata} {n : Nat}
    (htag : headerValue request.headers "If-None-Match" = some (entityTag metadata n))
    (hok : (h.handle request fs).1 = .ok r) (hstatus : r.status = 304) :
    ∃ plain, (h.handle (plainGet request.url) fs).1 = .ok plain ∧ plain.status = 200 ∧ n = plain.body.length ∧
      fs.shownAt (parseRequestTarget request.url).path = some
        { mode := metadata.mode.unixTypeAndPerm, second := HttpFs.unixSecs metadata.modified, contents := plain.body } := by
  have hget := handle_get hmethod hok (by rw [hstatus]; decide)
  rcases handleGet_cases hget with ⟨hwhole, -⟩ | ⟨metadata', fs₁, body, hstat, -, hbody, hr⟩
  · rw [hwhole] at hstatus
    exact absurd hstatus (by decide)
  · obtain ⟨hshown, -⟩ := entityBody_shown hfs (parseRequestTarget_valid _) hstat hbody
    have hsame : entityTag metadata n = entityTag metadata' body.length := by
      rcases entityResponse_cases request.headers metadata' body.length body with ⟨hsame, -⟩ | ⟨-, hwhole⟩
      · exact (conditionalNotModified_of_tag htag (headerValue_metadataHeaders _ _)).mp hsame
      · rw [hr, hwhole] at hstatus
        exact absurd (show (200 : UInt16) = 304 from hstatus) (by decide)
    obtain ⟨hmode, hlength, hsecond⟩ := entityTag_inj hsame
    have hplain : handleGet h (parseRequestTarget request.url).path ∅ fs =
        (.ok { status := 200, headers := metadataHeaders metadata' body.length, body }, (h.handle request fs).2) := by
      have hparts : (metadata'.isDir && acceptsMultipart ∅) = false := Bool.and_eq_false_iff.mpr (.inr rfl)
      unfold handleGet
      rw [bind_ok hstat, hparts, if_neg Bool.false_ne_true, bind_ok hbody]
      rfl
    have hdispatch : dispatch h (plainGet request.url) fs = _ := hplain
    refine ⟨{ status := 200, headers := metadataHeaders metadata' body.length, body }, ?_, rfl, hlength, ?_⟩
    · unfold handle
      rw [bind_ok (attempt_ok hdispatch)]
      rfl
    · rw [hmode, hsecond]
      exact hshown

end HttpFsHandler

/-! ## Runs between two requests -/

/-- What may happen to the files, other requests included. -/
inductive Mutation where
  | op (op : MemOp)
  | chown (name : String) (uid gid : UInt32)
  | chtimes (name : String) (mtime : SystemTime)
  | request (request : HttpRequest)

/-- The files, and all that a path has shown so far. -/
structure Watched where
  world : MemWorld
  shown : List Shown

/-- What the tag is made of. -/
def Shown.validator (s : Shown) : UInt32 × Nat × Nat := (s.mode, s.contents.length, s.second)

namespace Watched

def start (p : String) (world : MemWorld) : Watched := { world, shown := (world.fs.shownAt p).toList }

def mutate (h : HttpFsHandler MemFs MemFile) (w : MemWorld) : Mutation → MemWorld
  | .op op => w.step op
  | .chown name uid gid => w.onPath (MemFs.chown name uid gid)
  | .chtimes name mtime => w.onPath (MemFs.chtimes name mtime)
  | .request request => w.onPath (h.handle request)

variable (h : HttpFsHandler MemFs MemFile) (p : String)

def step (s : Watched) (m : Mutation) : Watched :=
  { world := mutate h s.world m, shown := s.shown ++ ((mutate h s.world m).fs.shownAt p).toList }

/-- The path is not given another body under a mode, a length and a second that it has had. -/
def Told (s : Watched) (m : Mutation) : Prop :=
  ∀ now ∈ (mutate h s.world m).fs.shownAt p, ∀ before ∈ s.shown, now.validator = before.validator → now.contents = before.contents

instance (s : Watched) (m : Mutation) : Decidable (Told h p s m) :=
  inferInstanceAs (Decidable (∀ now ∈ (mutate h s.world m).fs.shownAt p, ∀ before ∈ s.shown,
    now.validator = before.validator → now.contents = before.contents))

/-- What the path shows now is the last of all, and each tag stands for one body. -/
structure Inv (s : Watched) : Prop where
  current : ∀ now ∈ s.world.fs.shownAt p, now ∈ s.shown
  distinct : ∀ a ∈ s.shown, ∀ b ∈ s.shown, a.validator = b.validator → a.contents = b.contents

variable {h p} {s : Watched}

theorem Inv.start (w : MemWorld) : (Watched.start p w).Inv p := by
  unfold Watched.start
  cases hshown : w.fs.shownAt p with
  | none => exact ⟨by simp [hshown], by simp⟩
  | some now => exact ⟨by simp [hshown], by simp⟩

theorem Inv.step (hinv : s.Inv p) {m : Mutation} (htold : Told h p s m) : (step h p s m).Inv p := by
  have hnew : ∀ a, a ∈ (Watched.step h p s m).shown ↔ a ∈ s.shown ∨ (mutate h s.world m).fs.shownAt p = some a := by
    intro a
    simp [Watched.step]
  refine ⟨fun now hnow => (hnew now).mpr (.inr hnow), fun a ha b hb hvalidator => ?_⟩
  rcases (hnew a).mp ha with hbefore | hnow
  · rcases (hnew b).mp hb with hbefore' | hnow'
    · exact hinv.distinct a hbefore b hbefore' hvalidator
    · exact (htold b hnow' a hbefore hvalidator.symm).symm
  · rcases (hnew b).mp hb with hbefore' | hnow'
    · exact htold a hnow b hbefore' hvalidator
    · exact congrArg Shown.contents (Option.some.inj (hnow.symm.trans hnow'))

theorem mem_shown_run {a : Shown} (ha : a ∈ s.shown) (ms : List Mutation) : a ∈ (run (Watched.step h p) s ms).shown := by
  induction ms generalizing s with
  | nil => exact ha
  | cons m ms ih => exact ih (List.mem_append_left _ ha)

theorem run_world (h : HttpFsHandler MemFs MemFile) (p : String) (s : Watched) (ms : List Mutation) :
    (run (Watched.step h p) s ms).world = run (mutate h) s.world ms := by
  induction ms generalizing s with
  | nil => rfl
  | cons m ms ih => exact ih (Watched.step h p s m)

/-- A GET after some mutations, more mutations, and a GET with the tag of the first: if this one is answered without
a body, then a plain GET would give the body of the first. -/
def KeepsBody (h : HttpFsHandler MemFs MemFile) (w : MemWorld) (pre : List Mutation) (first : HttpRequest) (mid : List Mutation) : Prop :=
  ∀ (second : HttpRequest) (answer notModified : HttpResponse) (tag : String),
    first.method = .get → second.method = .get →
    (parseRequestTarget second.url).path = (parseRequestTarget first.url).path →
    (h.handle first (run (mutate h) w pre).fs).1 = .ok answer → answer.status = 200 →
    headerValue answer.headers "ETag" = some tag →
    headerValue second.headers "If-None-Match" = some tag →
    headerValue second.headers "If-Modified-Since" = headerValue answer.headers "Last-Modified" →
    (h.handle second (run (mutate h) w (pre ++ .request first :: mid)).fs).1 = .ok notModified → notModified.status = 304 →
    ∃ plain, (h.handle (HttpFsHandler.plainGet second.url) (run (mutate h) w (pre ++ .request first :: mid)).fs).1 = .ok plain ∧
      plain.status = 200 ∧ plain.body = answer.body

/-- In a run that never gives the path another body under an old tag, an answer without a body is right. -/
theorem keepsBody (h : HttpFsHandler MemFs MemFile) (hfs : h.fsys = memFs) (w : MemWorld) (pre : List Mutation) (first : HttpRequest)
    (mid : List Mutation)
    (htold : StepsMeet (Watched.step h (parseRequestTarget first.url).path) (Told h (parseRequestTarget first.url).path)
      (Watched.start (parseRequestTarget first.url).path w) (pre ++ .request first :: mid)) :
    KeepsBody h w pre first mid := by
  intro second answer notModified tag hget hget' hpath hanswer h200 htag hcarried _ hnot h304
  generalize hp : (parseRequestTarget first.url).path = p at htold hpath
  generalize hs : Watched.start p w = s at htold
  have hworld : s.world = w := by
    rw [← hs]
    rfl
  have hinv : s.Inv p := hs ▸ Inv.start w
  have hbefore : (run (Watched.step h p) s pre).Inv p := by
    have hpre := htold.take pre.length
    rw [List.take_left] at hpre
    exact run_invariant (I := Inv p) (fun _ _ hs ht => Inv.step hs ht) hinv hpre
  have hafter : (run (Watched.step h p) s (pre ++ .request first :: mid)).Inv p :=
    run_invariant (I := Inv p) (fun _ _ hs ht => Inv.step hs ht) hinv htold
  rw [← hworld, ← run_world h p] at hanswer hnot ⊢
  obtain ⟨metadata, n, rfl, hlength, hshown⟩ := HttpFsHandler.handle_get_tagged hfs hget hanswer h200 htag
  rw [hp] at hshown
  obtain ⟨plain, hplain, hstatus, hlength', hshown'⟩ := HttpFsHandler.handle_get_notModified hfs hget' hcarried hnot h304
  rw [hpath] at hshown'
  refine ⟨plain, hplain, hstatus, ?_⟩
  have hfirst := hbefore.current _ hshown
  have hlast := hafter.current _ hshown'
  have hkept : ∀ a ∈ (run (Watched.step h p) s pre).shown, a ∈ (run (Watched.step h p) s (pre ++ .request first :: mid)).shown := by
    intro a ha
    unfold run
    rw [List.foldl_append]
    exact mem_shown_run ha (.request first :: mid)
  refine hafter.distinct _ hlast _ (hkept _ hfirst) ?_
  simp only [Shown.validator, ← hlength, ← hlength']

/-! The same requests under a clock that ticks in seconds, and under one that stands. -/

def plainHandler : HttpFsHandler MemFs MemFile := { fsys := memFs, readTar := fun _ => ([], none), rounds := 2, depth := 1 }

def putByte (file : Nat) (name : String) (b : UInt8) : List Mutation :=
  [.op (.create name), .op (.write file [b]), .op (.close file)]

def firstGet : HttpRequest := HttpFsHandler.plainGet "/f"

def secondGet (tag date : String) : HttpRequest :=
  { firstGet with headers := (∅ : Headers).insert "If-None-Match" tag |>.insert "If-Modified-Since" date }

def ticking : MemWorld := MemWorld.init fun n => n * 1000000000

def standing : MemWorld := MemWorld.init fun _ => 0

theorem keepsBody_otherFile :
    (∃ r, (plainHandler.handle (secondGet "\"33188-1-1\"" "1") (run (mutate plainHandler) ticking
      (putByte 0 "f" 1 ++ .request firstGet :: putByte 1 "g" 2)).fs).1 = .ok r ∧ r.status = 304) ∧
    KeepsBody plainHandler ticking (putByte 0 "f" 1) firstGet (putByte 1 "g" 2) := by
  refine ⟨by decide +kernel, keepsBody plainHandler rfl ticking (putByte 0 "f" 1) firstGet (putByte 1 "g" 2) ?_⟩
  decide +kernel

/-- Within one second a file is written again with as many bytes, and the client keeps the old ones. -/
theorem not_keepsBody : ¬ ∀ (h : HttpFsHandler MemFs MemFile) (w : MemWorld) (pre : List Mutation) (first : HttpRequest)
    (mid : List Mutation), h.fsys = memFs → KeepsBody h w pre first mid := by
  intro hall
  obtain ⟨answer, hanswer, h200, htag, hdate, hbody⟩ : ∃ answer,
      (plainHandler.handle firstGet (run (mutate plainHandler) standing (putByte 0 "f" 1)).fs).1 = .ok answer ∧ answer.status = 200 ∧
        headerValue answer.headers "ETag" = some "\"33188-1-0\"" ∧ headerValue answer.headers "Last-Modified" = some "0" ∧
        answer.body = [1] := by
    decide +kernel
  obtain ⟨notModified, hnot, h304⟩ : ∃ r, (plainHandler.handle (secondGet "\"33188-1-0\"" "0") (run (mutate plainHandler) standing
      (putByte 0 "f" 1 ++ .request firstGet :: putByte 1 "f" 2)).fs).1 = .ok r ∧ r.status = 304 := by
    decide +kernel
  have hplain : ∃ r, (plainHandler.handle (HttpFsHandler.plainGet "/f") (run (mutate plainHandler) standing
      (putByte 0 "f" 1 ++ .request firstGet :: putByte 1 "f" 2)).fs).1 = .ok r ∧ r.body = [2] := by
    decide +kernel
  obtain ⟨plain, hok, -, hsame⟩ := hall plainHandler standing (putByte 0 "f" 1) firstGet (putByte 1 "f" 2) rfl
    (secondGet "\"33188-1-0\"" "0") answer notModified _ rfl rfl rfl hanswer h200 htag (by decide +kernel)
    (by rw [hdate]; decide +kernel) hnot h304
  have hurl : (secondGet "\"33188-1-0\"" "0").url = "/f" := rfl
  rw [hurl] at hok
  obtain ⟨r, hr, hnew⟩ := hplain
  rw [hok] at hr
  cases hr
  rw [hnew, hbody] at hsame
  exact absurd hsame (by decide)

end Watched
end Star9
