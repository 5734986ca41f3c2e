import Star9.Fs.S3Escapes
import Star9.Fs.S3Listing
import Star9.Core.PathOrder

/-!
# What a listing of a prefix holds

The service answers for a bucket; a reply to a listing holds the first keys only. The store asks
once, and gives the objects out under keys that it may ask other objects for.
-/
namespace Star9
open Base

/-! ## The service -/

/-- The keys in the first reply to a listing: as many as the service puts into it. -/
def listedKeys (objects : Std.ExtTreeMap String Object) (pageSize : String → Nat) (pre : String) : List String :=
  (objects.keys.filter fun key => (stripPrefix pre key).isSome).take (pageSize pre)

/-- What a successful answer to a `GET` of the bucket or of an object says. -/
structure ServesBucket (url : String) (objects : Std.ExtTreeMap String Object) (pageSize : String → Nat) (transport : S3Transport) : Prop where
  listing : ∀ request response query pre, transport request = .ok response → isSuccess response.status = true → request.method = .get →
    request.url = url ++ "?list-type=2&prefix=" ++ query → percentDecode query.toList = utf8Bytes pre →
    ListsKeys response.body (listedKeys objects pageSize pre)
  object : ∀ request response path key, transport request = .ok response → isSuccess response.status = true → request.method = .get →
    request.url = url ++ "/" ++ path → percentDecode path.toList = utf8Bytes key → objects[key]? = some ⟨response.headers, response.body⟩

/-- Signing adds headers. -/
def KeepsTarget (signer : HttpRequestSigner) : Prop :=
  ∀ request signed, signer request = .ok signed → signed.method = request.method ∧ signed.url = request.url

/-! ## Keys of the store and of the bucket -/

theorem startsWithSlash_iff {s : String} : startsWithSlash s = true ↔ ∃ rest, s = "/" ++ rest := by
  rw [startsWithSlash, beq_iff_eq]
  constructor
  · intro h
    obtain ⟨cs, hcs⟩ := List.head?_eq_some_iff.mp h
    exact ⟨String.ofList cs, String.toList_inj.mp (by simp [hcs])⟩
  · rintro ⟨rest, rfl⟩
    simp

theorem startsWithSlash_append_of_ne {s : String} (h : s ≠ "") (t : String) : startsWithSlash (s ++ t) = startsWithSlash s := by
  have hne : s.toList ≠ [] := fun heq => h (String.toList_eq_nil_iff.mp heq)
  rw [startsWithSlash, startsWithSlash, String.toList_append, List.head?_append_of_ne_nil _ hne]

theorem stripPrefix_isSome {a b : String} : (stripPrefix a b).isSome = true ↔ ∃ rest, b = a ++ rest := by
  rw [Option.isSome_iff_exists]
  exact exists_congr fun rest => stripPrefix_eq_some

namespace S3ObjectStore
variable {store : S3ObjectStore} {p o pre : String}

/-- Some key of the store stands for this object of the bucket. -/
def Names (store : S3ObjectStore) (o : String) : Prop := ∃ key, store.objectKey key = o

def Under (store : S3ObjectStore) (p o : String) : Prop := ∃ key, store.objectKey key = o ∧ (stripPrefix p key).isSome = true

/-- The object that is asked for under the key that a listing gives out. -/
def askedKey (store : S3ObjectStore) (o : String) : String := store.objectKey ((store.externalKey o).getD o)

theorem objectKey_slash (hpre : store.pre = some pre) {key : String} (h : startsWithSlash key = true) :
    store.objectKey key = if key = "/" then pre else pre ++ key := by
  have hne : key ≠ "" := by
    rintro rfl
    cases h
  simp only [objectKey, hpre, hne, false_or, if_pos h]

theorem objectKey_plain (hpre : store.pre = some pre) {key : String} (h : startsWithSlash key = false) :
    store.objectKey key = if key = "" then pre else pre ++ "/" ++ key := by
  have hne : key ≠ "/" := by
    rintro rfl
    cases h
  simp only [objectKey, hpre, hne, or_false, h, Bool.false_eq_true, if_false]

theorem externalKey_append (hpre : store.pre = some pre) (rest : String) :
    store.externalKey (pre ++ rest) = some (if startsWithSlash rest then rest else "/" ++ rest) := by
  have hstrip : stripPrefix pre (pre ++ rest) = some rest := stripPrefix_eq_some.mpr rfl
  by_cases hrest : rest = ""
  · subst hrest
    rw [externalKey, hpre, Option.bind_some, String.append_empty, if_pos rfl]
    rfl
  · have hne : pre ++ rest ≠ pre := by
      intro h
      exact hrest (by simpa using h)
    rw [externalKey, hpre, Option.bind_some, if_neg hne, hstrip, Option.map_some, if_neg hrest]

theorem askedKey_append (hpre : store.pre = some pre) (rest : String) :
    store.askedKey (pre ++ rest) =
      if startsWithSlash rest then (if rest = "/" then pre else pre ++ rest)
      else if rest = "" then pre else pre ++ "/" ++ rest := by
  rw [askedKey, externalKey_append hpre, Option.getD_some]
  cases hslash : startsWithSlash rest with
  | true =>
    rw [if_pos rfl, objectKey_slash hpre hslash, if_pos rfl]
  | false =>
    have hkey : startsWithSlash ("/" ++ rest) = true := startsWithSlash_iff.mpr ⟨rest, rfl⟩
    have hroot : "/" ++ rest = "/" ↔ rest = "" := by simp
    rw [if_neg Bool.false_ne_true, objectKey_slash hpre hkey, if_neg Bool.false_ne_true]
    simp only [hroot, String.append_assoc]

theorem names_some (hpre : store.pre = some pre) : store.Names o ↔ o = pre ∨ ∃ rest, rest ≠ "" ∧ o = pre ++ "/" ++ rest := by
  constructor
  · rintro ⟨key, rfl⟩
    cases hslash : startsWithSlash key with
    | true =>
      rw [objectKey_slash hpre hslash]
      obtain ⟨rest, rfl⟩ := startsWithSlash_iff.mp hslash
      by_cases hrest : rest = ""
      · exact Or.inl (if_pos (by simp [hrest]))
      · refine Or.inr ⟨rest, hrest, ?_⟩
        rw [if_neg (by simpa using hrest), String.append_assoc]
    | false =>
      rw [objectKey_plain hpre hslash]
      by_cases hkey : key = ""
      · exact Or.inl (if_pos hkey)
      · exact Or.inr ⟨key, hkey, if_neg hkey⟩
  · rintro (rfl | ⟨rest, hrest, rfl⟩)
    · exact ⟨"", by rw [objectKey_plain hpre rfl, if_pos rfl]⟩
    · refine ⟨"/" ++ rest, ?_⟩
      rw [objectKey_slash hpre (startsWithSlash_iff.mpr ⟨rest, rfl⟩), if_neg (by simpa using hrest), String.append_assoc]

theorem names_none (hpre : store.pre = none) : store.Names o ↔ o ≠ "" := by
  constructor
  · rintro ⟨key, rfl⟩
    rw [objectKey, hpre]
    dsimp only
    split_ifs with hkey
    · decide
    · exact hkey
  · intro hne
    exact ⟨o, by rw [objectKey, hpre]; exact if_neg hne⟩

theorem askedKey_of_names (h : store.Names o) : store.askedKey o = o := by
  cases hpre : store.pre with
  | some pre =>
    rcases (names_some hpre).mp h with rfl | ⟨rest, hrest, rfl⟩
    · have hself := askedKey_append hpre ""
      rw [String.append_empty] at hself
      rw [hself]
      rfl
    · have hslash : startsWithSlash ("/" ++ rest) = true := startsWithSlash_iff.mpr ⟨rest, rfl⟩
      rw [String.append_assoc, askedKey_append hpre, if_pos hslash, if_neg (by simpa using hrest)]
  | none =>
    rw [askedKey, externalKey, hpre, Option.bind_none, Option.getD_none, objectKey, hpre]
    exact if_neg ((names_none hpre).mp h)

/-- The objects below a sibling, and the slash after the prefix. -/
theorem foreign_cases (hpre : store.pre = some pre) {rest : String} (h : ¬ store.Names (pre ++ rest)) :
    rest = "/" ∨ startsWithSlash rest = false ∧ rest ≠ "" := by
  cases hslash : startsWithSlash rest with
  | false =>
    refine Or.inr ⟨rfl, ?_⟩
    rintro rfl
    exact h ((names_some hpre).mpr (Or.inl (String.append_empty)))
  | true =>
    obtain ⟨tail, rfl⟩ := startsWithSlash_iff.mp hslash
    by_cases htail : tail = ""
    · exact Or.inl (by simp [htail])
    · exact absurd ((names_some hpre).mpr (Or.inr ⟨tail, htail, (String.append_assoc).symm⟩)) h

theorem objectKey_append (hp : p ≠ "") (hroot : p = "/" → store.pre = none) (rest : String) : store.objectKey (p ++ rest) = store.objectKey p ++ rest := by
  have hne : p ++ rest ≠ "" := by
    intro h
    exact hp (by simpa using (String.append_eq_empty_iff.mp h).1)
  cases hpre : store.pre with
  | some pre =>
    cases hslash : startsWithSlash p with
    | true =>
      obtain ⟨tail, rfl⟩ := startsWithSlash_iff.mp hslash
      have hne' : "/" ++ tail ++ rest ≠ "/" := by
        intro h
        have htail : tail ++ rest = "" := by simpa [String.append_assoc] using h
        have hslash := hroot (by rw [(String.append_eq_empty_iff.mp htail).1]; rfl)
        rw [hpre] at hslash
        cases hslash
      have hself : "/" ++ tail ≠ "/" := by
        intro h
        have hnone := hroot h
        rw [hpre] at hnone
        cases hnone
      rw [objectKey_slash hpre (startsWithSlash_iff.mpr ⟨tail ++ rest, String.append_assoc⟩), if_neg hne', objectKey_slash hpre hslash,
        if_neg hself]
      simp only [String.append_assoc]
    | false =>
      have hplain : startsWithSlash (p ++ rest) = false := by rwa [startsWithSlash_append_of_ne hp]
      rw [objectKey_plain hpre hplain, if_neg hne, objectKey_plain hpre hslash, if_neg hp]
      simp only [String.append_assoc]
  | none =>
    simp only [objectKey, hpre, if_neg hne, if_neg hp]

theorem objectKey_root (hpre : store.pre = some pre) (hp : p = "" ∨ p = "/") : store.objectKey p = pre := by
  simp only [objectKey, hpre, if_pos hp]

theorem under_append (hp : p ≠ "") (hroot : p = "/" → store.pre = none) :
    store.Under p o ↔ ∃ rest, o = store.objectKey p ++ rest := by
  constructor
  · rintro ⟨key, rfl, hstart⟩
    obtain ⟨rest, rfl⟩ := stripPrefix_isSome.mp hstart
    exact ⟨rest, objectKey_append hp hroot rest⟩
  · rintro ⟨rest, rfl⟩
    exact ⟨p ++ rest, objectKey_append hp hroot rest, stripPrefix_isSome.mpr ⟨rest, rfl⟩⟩

theorem stripPrefix_slash_isSome_root (hp : p = "" ∨ p = "/") (rest : String) : (stripPrefix p ("/" ++ rest)).isSome = true := by
  rcases hp with rfl | rfl
  · exact stripPrefix_isSome.mpr ⟨"/" ++ rest, (String.empty_append).symm⟩
  · exact stripPrefix_isSome.mpr ⟨rest, rfl⟩

theorem under_root (hpre : store.pre = some pre) (hp : p = "" ∨ p = "/") : store.Under p o ↔ store.Names o := by
  constructor
  · rintro ⟨key, hkey, -⟩
    exact ⟨key, hkey⟩
  · intro hnames
    rcases (names_some hpre).mp hnames with rfl | ⟨rest, hrest, rfl⟩
    · exact ⟨"/" ++ "", objectKey_root hpre (Or.inr rfl), stripPrefix_slash_isSome_root hp ""⟩
    · refine ⟨"/" ++ rest, ?_, stripPrefix_slash_isSome_root hp rest⟩
      rw [objectKey_slash hpre (startsWithSlash_iff.mpr ⟨rest, rfl⟩), if_neg (by simpa using hrest), String.append_assoc]

theorem Names.starts (hpre : store.pre = some pre) (h : store.Names o) : ∃ rest, o = pre ++ rest := by
  rcases (names_some hpre).mp h with rfl | ⟨rest, -, rfl⟩
  · exact ⟨"", (String.append_empty).symm⟩
  · exact ⟨"/" ++ rest, String.append_assoc⟩

/-- The objects under a key of the store are those that a listing of it asks for, siblings apart. -/
theorem under_iff : store.Under p o ↔ store.Names o ∧ ((∃ rest, o = store.objectKey p ++ rest) ∨ store.pre = none ∧ p = "") := by
  by_cases hplain : p ≠ "" ∧ (p = "/" → store.pre = none)
  · obtain ⟨hp, hroot⟩ := hplain
    rw [under_append hp hroot]
    constructor
    · rintro ⟨rest, rfl⟩
      exact ⟨⟨p ++ rest, objectKey_append hp hroot rest⟩, Or.inl ⟨rest, rfl⟩⟩
    · rintro ⟨-, h | ⟨-, h⟩⟩
      · exact h
      · exact absurd h hp
  · have hp : p = "" ∨ p = "/" := by tauto
    cases hpre : store.pre with
    | some pre =>
      rw [under_root hpre hp, objectKey_root hpre hp]
      exact ⟨fun h => ⟨h, Or.inl (h.starts hpre)⟩, fun h => h.1⟩
    | none =>
      have hempty : p = "" := by
        rcases hp with h | h
        · exact h
        · exact absurd ⟨by rw [h]; decide, fun _ => hpre⟩ hplain
      subst hempty
      constructor
      · rintro ⟨key, hkey, -⟩
        exact ⟨⟨key, hkey⟩, Or.inr ⟨rfl, rfl⟩⟩
      · rintro ⟨hnames, -⟩
        refine ⟨o, ?_, stripPrefix_isSome.mpr ⟨o, (String.empty_append).symm⟩⟩
        simp only [objectKey, hpre, if_neg ((names_none hpre).mp hnames)]

/-- An object that a listing asks for is the store's, or stands below a sibling of a whole store. -/
theorem foreign_root {rest : String} (h : ¬ store.Names (store.objectKey p ++ rest)) :
    ∃ pre, store.pre = some pre ∧ store.objectKey p = pre ∧ (p = "" ∨ p = "/") := by
  cases hpre : store.pre with
  | some pre =>
    by_cases hp : p = "" ∨ p = "/"
    · exact ⟨pre, rfl, objectKey_root hpre hp, hp⟩
    · rw [not_or] at hp
      exact absurd ⟨p ++ rest, objectKey_append hp.1 (fun h => absurd h hp.2) rest⟩ h
  | none =>
    refine absurd ((names_none hpre).mpr ?_) h
    intro hempty
    have hkey := (String.append_eq_empty_iff.mp hempty).1
    exact ((names_none hpre).mp ⟨p, rfl⟩) hkey

/-- The key given out for an object below a sibling is one of the store. -/
theorem under_askedKey {rest : String} (h : ¬ store.Names (store.objectKey p ++ rest)) :
    store.Under p (store.askedKey (store.objectKey p ++ rest)) := by
  obtain ⟨pre, hpre, -, hp⟩ := foreign_root h
  exact (under_root hpre hp).mpr ⟨_, rfl⟩

theorem askedKey_foreign_inj {a b : String} (ha : ¬ store.Names (store.objectKey p ++ a)) (hb : ¬ store.Names (store.objectKey p ++ b))
    (h : store.askedKey (store.objectKey p ++ a) = store.askedKey (store.objectKey p ++ b)) : a = b := by
  obtain ⟨pre, hpre, hkey, -⟩ := foreign_root ha
  rw [hkey] at ha hb h
  have hslash : ∀ rest, startsWithSlash rest = false ∧ rest ≠ "" → store.askedKey (pre ++ rest) = pre ++ "/" ++ rest := by
    rintro rest ⟨hplain, hne⟩
    rw [askedKey_append hpre, if_neg (by rw [hplain]; exact Bool.false_ne_true), if_neg hne]
  have hself : store.askedKey (pre ++ "/") = pre := by
    rw [askedKey_append hpre, if_pos (by rfl), if_pos rfl]
  have hne : ∀ rest, pre ≠ pre ++ "/" ++ rest := by
    intro rest heq
    have hlen := congrArg (fun s => s.toList.length) heq
    simp at hlen
  rcases foreign_cases hpre ha with rfl | ha
  · rcases foreign_cases hpre hb with rfl | hb
    · rfl
    · rw [hself, hslash b hb] at h
      exact absurd h (hne b)
  · rcases foreign_cases hpre hb with rfl | hb
    · rw [hself, hslash a ha] at h
      exact absurd h.symm (hne a)
    · rw [hslash a ha, hslash b hb] at h
      simpa using h

/-! ## Requests -/

def Fetches (store : S3ObjectStore) (o : String) (object : Object) : Prop :=
  ∃ response, store.requestEffectiveObject .get o ∅ [] = .ok response ∧ isSuccess response.status = true ∧
    object = ⟨response.headers, response.body⟩

theorem get_eq_some {key : String} {object : Object} : store.get key = .ok (some object) ↔ store.Fetches (store.objectKey key) object := by
  rw [get, except_bind_eq_ok]
  refine exists_congr fun response => and_congr Iff.rfl ?_
  by_cases hok : isSuccess response.status = true
  · rw [if_pos hok, hok]
    constructor
    · intro h
      exact ⟨rfl, (Option.some.inj (Except.ok.inj h)).symm⟩
    · rintro ⟨-, rfl⟩
      rfl
  · rw [if_neg hok]
    constructor
    · intro h
      split at h
      · cases h
      · cases h
    · rintro ⟨h, -⟩
      exact absurd h hok

variable {baseUrl bucket url : String} {objects : Std.ExtTreeMap String Object} {pageSize : String → Nat} {transport : S3Transport}
  {signer : HttpRequestSigner}

theorem request_get (hsigner : KeepsTarget store.signer) {target : String} {response : HttpResponse}
    (h : store.request .get target ∅ [] = .ok response) :
    ∃ request, store.transport request = .ok response ∧ request.method = .get ∧ request.url = target := by
  obtain ⟨request, hsigned, hresponse⟩ := except_bind_eq_ok.mp h
  obtain ⟨hmethod, hurl⟩ := hsigner _ _ hsigned
  exact ⟨request, hresponse, hmethod, hurl⟩

theorem objectUrl_of_bucket (hbucket : store.bucket ≠ "") (o : String) : store.objectUrl o = store.bucketUrl ++ "/" ++ percentEncode o := by
  have hurl : ∃ start, store.bucketUrl = start ++ percentEncode store.bucket := by
    rw [bucketUrl, joinUrlPath]
    split_ifs
    · exact ⟨"", (String.empty_append).symm⟩
    · exact ⟨trimSlashesEnd store.baseUrl ++ "/", by rw [trimStartSlash_percentEncode]⟩
  obtain ⟨start, hstart⟩ := hurl
  have hne : store.bucketUrl ≠ "" := by
    rw [hstart]
    exact fun h => percentEncode_ne_empty hbucket (String.append_eq_empty_iff.mp h).2
  have htrim : trimSlashesEnd store.bucketUrl = store.bucketUrl := by
    rw [hstart]
    exact trimSlashesEnd_append_percentEncode start hbucket
  rw [objectUrl, joinUrlPath, if_neg hne, htrim, trimStartSlash_percentEncode]

theorem percentDecode_percentEncode_toList (value : String) : percentDecode (percentEncode value).toList = utf8Bytes value := by
  rw [percentEncode, String.toList_ofList, ← List.append_nil (List.flatMap _ _), percentDecode_percentEncode, percentDecode, List.append_nil]

/-- A store over a service for its bucket. -/
structure Serves (store : S3ObjectStore) (objects : Std.ExtTreeMap String Object) (pageSize : String → Nat) : Prop where
  bucket : store.bucket ≠ ""
  signer : KeepsTarget store.signer
  service : ServesBucket store.bucketUrl objects pageSize store.transport

theorem Fetches.stored (hserves : store.Serves objects pageSize) {object : Object} (h : store.Fetches o object) : objects[o]? = some object := by
  obtain ⟨response, hresponse, hok, rfl⟩ := h
  obtain ⟨request, htransport, hmethod, hurl⟩ := request_get hserves.signer hresponse
  rw [objectUrl_of_bucket hserves.bucket] at hurl
  exact hserves.service.object request response (percentEncode o) o htransport hok hmethod hurl (percentDecode_percentEncode_toList o)

/-- What is stored under a key of the bucket. -/
def stored (objects : Std.ExtTreeMap String Object) (o : String) : Object := objects[o]?.getD ⟨∅, []⟩

/-- An entry of the listing for an object of the bucket. -/
def listedEntry (store : S3ObjectStore) (objects : Std.ExtTreeMap String Object) (o : String) : String × Object :=
  ((store.externalKey o).getD o, stored objects o)

theorem fetchListed_ok (hserves : store.Serves objects pageSize) {keys : List String} {list : List (String × Object)}
    (h : store.fetchListed keys = .ok list) :
    list = keys.map (store.listedEntry objects) ∧ ∀ o ∈ keys, store.Fetches o (stored objects o) := by
  induction keys generalizing list with
  | nil =>
    rw [← Except.ok.inj h]
    exact ⟨rfl, fun o ho => absurd ho List.not_mem_nil⟩
  | cons key keys ih =>
    rw [fetchListed] at h
    obtain ⟨response, hresponse, h⟩ := except_bind_eq_ok.mp h
    by_cases hok : isSuccess response.status = true
    · rw [if_pos hok] at h
      obtain ⟨rest, hrest, h⟩ := except_bind_eq_ok.mp h
      obtain ⟨hlist, hall⟩ := ih hrest
      have hfetch : store.Fetches key ⟨response.headers, response.body⟩ := ⟨response, hresponse, hok, rfl⟩
      have hstored : stored objects key = ⟨response.headers, response.body⟩ := by rw [stored, hfetch.stored hserves, Option.getD_some]
      rw [← Except.ok.inj h, List.map_cons, listedEntry, hstored, hlist]
      refine ⟨rfl, List.forall_mem_cons.mpr ⟨?_, hall⟩⟩
      rw [hstored]
      exact hfetch
    · rw [if_neg hok] at h
      cases h

/-- A listing is made of the first keys that the service has for it. -/
theorem listPrefix_ok (hserves : store.Serves objects pageSize) {list : List (String × Object)} (h : store.listPrefix p = .ok list) :
    list = (listedKeys objects pageSize (store.objectKey p)).map (store.listedEntry objects) ∧
      ∀ o ∈ listedKeys objects pageSize (store.objectKey p), store.Fetches o (stored objects o) := by
  obtain ⟨response, hresponse, h⟩ := except_bind_eq_ok.mp h
  cases hok : isSuccess response.status with
  | false =>
    rw [hok] at h
    cases h
  | true =>
    rw [hok, Bool.not_true, if_neg Bool.false_ne_true] at h
    obtain ⟨keys, hkeys, hlist⟩ := except_bind_eq_ok.mp h
    obtain ⟨request, htransport, hmethod, hurl⟩ := request_get hserves.signer hresponse
    have hlists := hserves.service.listing request response (percentEncode (store.objectKey p)) (store.objectKey p) htransport hok hmethod
      hurl (percentDecode_percentEncode_toList _)
    rw [parseListObjectsV2Keys_lists hlists] at hkeys
    rw [← Except.ok.inj hkeys] at hlist
    exact fetchListed_ok hserves hlist

/-! ## When a listing is exact -/

/-- The objects of the store under a key, each once and under a key that `get` finds it by. -/
structure ListsExactly (store : S3ObjectStore) (objects : Std.ExtTreeMap String Object) (p : String) (list : List (String × Object)) : Prop where
  once : (list.map fun entry => store.objectKey entry.1).Nodup
  found : ∀ entry ∈ list, store.Under p (store.objectKey entry.1) ∧ objects[store.objectKey entry.1]? = some entry.2 ∧
    store.get entry.1 = .ok (some entry.2)
  all : ∀ o object, objects[o]? = some object → store.Under p o → ∃ key, store.objectKey key = o ∧ (key, object) ∈ list

/-- The first reply has every object of the store that the listing is for, and no other; an object
of a sibling goes unnoticed only where an equal one of the store, left out, stands behind its key. -/
structure FirstReplySuffices (store : S3ObjectStore) (objects : Std.ExtTreeMap String Object) (p : String) (page : List String) : Prop where
  siblings : ∀ o ∈ page, ¬ store.Names o →
    store.askedKey o ∉ page ∧ objects[store.askedKey o]? = objects[o]? ∧ store.Fetches (store.askedKey o) (stored objects o)
  left : ∀ o ∈ objects, (∃ rest, o = store.objectKey p ++ rest) → store.Names o → o ∉ page →
    ∃ sibling ∈ page, ¬ store.Names sibling ∧ store.askedKey sibling = o
  root : store.pre = none → p = "" → ∀ o ∈ objects, o ≠ "" → startsWithSlash o = true

theorem mem_listedKeys (h : o ∈ listedKeys objects pageSize p) : o ∈ objects ∧ ∃ rest, o = p ++ rest := by
  have hfilter := List.mem_of_mem_take h
  rw [List.mem_filter, Std.ExtTreeMap.mem_keys, stripPrefix_isSome] at hfilter
  exact hfilter

theorem listedKeys_nodup : (listedKeys objects pageSize p).Nodup :=
  (Std.ExtTreeMap.nodup_keys.sublist List.filter_sublist).sublist (List.take_sublist _ _)

theorem getElem?_stored (h : o ∈ objects) : objects[o]? = some (stored objects o) := by
  rw [stored, Std.ExtTreeMap.getElem?_eq_some_getElem h, Option.getD_some]

theorem firstReplySuffices_of_exact {page : List String} (hpage : ∀ o ∈ page, o ∈ objects ∧ ∃ rest, o = store.objectKey p ++ rest)
    (h : store.ListsExactly objects p (page.map (store.listedEntry objects))) : store.FirstReplySuffices objects p page := by
  have hinj : ∀ a ∈ page, ∀ b ∈ page, store.askedKey a = store.askedKey b → a = b := by
    have honce := h.once
    rw [List.map_map] at honce
    exact fun a ha b hb => List.inj_on_of_nodup_map honce ha hb
  -- every object of the store is asked for by an entry
  have hall : ∀ o ∈ objects, store.Under p o → ∃ listed ∈ page, store.askedKey listed = o := by
    intro o ho hunder
    obtain ⟨key, hkey, hentry⟩ := h.all o _ (getElem?_stored ho) hunder
    obtain ⟨listed, hlisted, heq⟩ := List.mem_map.mp hentry
    have hfst : (store.externalKey listed).getD listed = key := congrArg Prod.fst heq
    exact ⟨listed, hlisted, by rw [askedKey, hfst, hkey]⟩
  constructor
  · intro o ho hforeign
    obtain ⟨hunder, hstored, hget⟩ := h.found _ (List.mem_map_of_mem ho)
    refine ⟨?_, ?_, get_eq_some.mp hget⟩
    · intro hmem
      have hsame := hinj _ hmem _ ho (askedKey_of_names ⟨_, rfl⟩)
      exact hforeign ⟨_, hsame⟩
    · rw [getElem?_stored (hpage o ho).1]
      exact hstored
  · intro o ho hstart hnames hnot
    obtain ⟨listed, hlisted, hasked⟩ := hall o ho (under_iff.mpr ⟨hnames, Or.inl hstart⟩)
    refine ⟨listed, hlisted, ?_, hasked⟩
    intro hown
    rw [askedKey_of_names hown] at hasked
    exact hnot (hasked ▸ hlisted)
  · rintro hpre rfl o ho hne
    obtain ⟨listed, hlisted, hasked⟩ := hall o ho (under_iff.mpr ⟨(names_none hpre).mpr hne, Or.inr ⟨hpre, rfl⟩⟩)
    obtain ⟨rest, hrest⟩ := (hpage listed hlisted).2
    have hkey : store.objectKey "" = "/" := by simp only [objectKey, hpre, if_true]
    have hlistedNe : listed ≠ "" := by
      rw [hrest, hkey]
      exact fun h => absurd (String.append_eq_empty_iff.mp h).1 (by decide)
    rw [← hasked, askedKey_of_names ((names_none hpre).mpr hlistedNe), hrest, hkey]
    exact startsWithSlash_iff.mpr ⟨rest, rfl⟩

theorem exact_of_firstReplySuffices {page : List String} (hnodup : page.Nodup)
    (hpage : ∀ o ∈ page, o ∈ objects ∧ ∃ rest, o = store.objectKey p ++ rest) (hfetch : ∀ o ∈ page, store.Fetches o (stored objects o))
    (h : store.FirstReplySuffices objects p page) : store.ListsExactly objects p (page.map (store.listedEntry objects)) := by
  constructor
  · rw [List.map_map]
    refine hnodup.map_on ?_
    intro a ha b hb heq
    change store.askedKey a = store.askedKey b at heq
    by_cases hanames : store.Names a
    · by_cases hbnames : store.Names b
      · rwa [askedKey_of_names hanames, askedKey_of_names hbnames] at heq
      · rw [askedKey_of_names hanames] at heq
        exact absurd (heq ▸ ha) (h.siblings b hb hbnames).1
    · by_cases hbnames : store.Names b
      · rw [askedKey_of_names hbnames] at heq
        exact absurd (heq ▸ hb) (h.siblings a ha hanames).1
      · obtain ⟨x, rfl⟩ := (hpage a ha).2
        obtain ⟨y, rfl⟩ := (hpage b hb).2
        rw [askedKey_foreign_inj hanames hbnames heq]
  · intro entry hentry
    obtain ⟨o, ho, rfl⟩ := List.mem_map.mp hentry
    by_cases hnames : store.Names o
    · have hasked : store.objectKey (store.listedEntry objects o).1 = o := askedKey_of_names hnames
      rw [hasked, get_eq_some, hasked]
      exact ⟨under_iff.mpr ⟨hnames, Or.inl (hpage o ho).2⟩, getElem?_stored (hpage o ho).1, hfetch o ho⟩
    · obtain ⟨-, hsame, hfetched⟩ := h.siblings o ho hnames
      have hunder : store.Under p (store.askedKey o) := by
        obtain ⟨rest, rfl⟩ := (hpage o ho).2
        exact under_askedKey hnames
      refine ⟨hunder, ?_, get_eq_some.mpr hfetched⟩
      exact hsame.trans (getElem?_stored (hpage o ho).1)
  · intro o object hobject hunder
    have ho : o ∈ objects := by
      rw [Std.ExtTreeMap.mem_iff_isSome_getElem?, hobject]
      rfl
    have hstored : object = stored objects o := by rw [stored, hobject, Option.getD_some]
    have hentry : ∀ listed ∈ page, store.askedKey listed = o → objects[o]? = objects[listed]? →
        ∃ key, store.objectKey key = o ∧ (key, object) ∈ page.map (store.listedEntry objects) := by
      intro listed hlisted hasked hsame
      refine ⟨_, hasked, List.mem_map.mpr ⟨listed, hlisted, ?_⟩⟩
      rw [listedEntry, hstored, stored, stored, hsame]
    obtain ⟨hnames, hstart⟩ := under_iff.mp hunder
    have hstart' : ∃ rest, o = store.objectKey p ++ rest := by
      rcases hstart with hstart | ⟨hpre, rfl⟩
      · exact hstart
      · obtain ⟨rest, hrest⟩ := startsWithSlash_iff.mp (h.root hpre rfl o ho ((names_none hpre).mp hnames))
        refine ⟨rest, ?_⟩
        simp only [objectKey, hpre, if_true, hrest]
    by_cases hmem : o ∈ page
    · exact hentry o hmem (askedKey_of_names hnames) rfl
    · obtain ⟨sibling, hsibling, hforeign, hasked⟩ := h.left o ho hstart' hnames hmem
      refine hentry sibling hsibling hasked ?_
      rw [← hasked]
      exact (h.siblings sibling hsibling hforeign).2.1

/-- A listing is exact just when the first reply suffices for it. -/
theorem listPrefix_exact_iff (hserves : store.Serves objects pageSize) {list : List (String × Object)} (h : store.listPrefix p = .ok list) :
    store.ListsExactly objects p list ↔ store.FirstReplySuffices objects p (listedKeys objects pageSize (store.objectKey p)) := by
  obtain ⟨rfl, hfetch⟩ := listPrefix_ok hserves h
  have hpage : ∀ o ∈ listedKeys objects pageSize (store.objectKey p), o ∈ objects ∧ ∃ rest, o = store.objectKey p ++ rest :=
    fun o ho => mem_listedKeys ho
  exact ⟨firstReplySuffices_of_exact hpage, exact_of_firstReplySuffices listedKeys_nodup hpage hfetch⟩

end S3ObjectStore

/-! ## A service that answers -/

def listingBody (keys : List String) (truncated : Bool) : Bytes :=
  let tail :=
    if truncated then "<IsTruncated>true</IsTruncated><NextContinuationToken>1</NextContinuationToken></ListBucketResult>"
    else "<IsTruncated>false</IsTruncated></ListBucketResult>"
  let parts : List ContentsParts := keys.map fun key => { before := [], key, after := [], gap := [] }
  utf8Bytes (String.ofList ("<ListBucketResult>".toList ++ (parts.flatMap ContentsParts.text ++ tail.toList)))

def bucketService (url : String) (objects : Std.ExtTreeMap String Object) (pageSize : String → Nat) : S3Transport := fun request =>
  if request.method ≠ .get then .ok { status := 405, headers := ∅, body := [] }
  else
    match stripPrefix (url ++ "?list-type=2&prefix=") request.url with
    | some query =>
      let pre := utf8Lossy (percentDecode query.toList)
      .ok {
        status := 200
        headers := ∅
        body := listingBody (listedKeys objects pageSize pre) (pageSize pre < (objects.keys.filter fun key => (stripPrefix pre key).isSome).length) }
    | none =>
      match (stripPrefix (url ++ "/") request.url).bind fun path => objects[utf8Lossy (percentDecode path.toList)]? with
      | some object => .ok { status := 200, headers := object.metadata, body := object.body }
      | none => .ok { status := 404, headers := ∅, body := [] }

theorem clean_key (key : String) : ContentsParts.Clean { before := [], key, after := [], gap := [] } where
  before := by rw [key_tag]; exact fun h => List.cons_ne_nil _ _ (List.infix_nil.mp h)
  block := by
    have hopen : "<Key>".toList = '<' :: ['K', 'e', 'y', '>'] := by simp
    have hend : ∀ c ∈ ("</Key>".toList ++ []).head?, c = '<' := by simp
    rw [ContentsParts.block, List.nil_append, ← List.append_assoc, contents_close]
    intro h
    have hclose : '<' ∉ '/' :: ("Contents".toList ++ ['>']) := by simp
    rcases infix_append_of_lead hclose hend h with h | h
    · rw [hopen, List.cons_append, List.infix_cons_iff] at h
      rcases h with h | h
      · simp at h
      · refine not_infix_of_not_mem ?_ h
        rw [List.mem_append, not_or]
        exact ⟨by simp, lt_not_mem_xmlEscape key⟩
    · revert h
      decide +kernel
  gap := by rw [contents_tag]; exact fun h => List.cons_ne_nil _ _ (List.infix_nil.mp h)

theorem listingBody_listsKeys (keys : List String) (truncated : Bool) : ListsKeys (listingBody keys truncated) keys := by
  refine ⟨"<ListBucketResult>".toList, _, _, by decide +kernel, ?_, ?_, ?_, ?_, rfl⟩
  · cases truncated <;> simp
  · cases truncated
    · decide +kernel
    · decide +kernel
  · intro part hpart
    obtain ⟨key, -, rfl⟩ := List.mem_map.mp hpart
    exact clean_key key
  · rw [List.map_map]
    exact (List.map_id keys).symm

section Service
variable {url : String} {objects : Std.ExtTreeMap String Object} {pageSize : String → Nat} {request : HttpRequest}

theorem bucketService_list {query pre : String} (hmethod : request.method = .get) (hurl : request.url = url ++ "?list-type=2&prefix=" ++ query)
    (hdecode : percentDecode query.toList = utf8Bytes pre) :
    bucketService url objects pageSize request =
      .ok {
        status := 200
        headers := ∅
        body := listingBody (listedKeys objects pageSize pre) (pageSize pre < (objects.keys.filter fun key => (stripPrefix pre key).isSome).length) } := by
  have hstrip : stripPrefix (url ++ "?list-type=2&prefix=") request.url = some query := stripPrefix_eq_some.mpr hurl
  rw [bucketService, if_neg (by simp [hmethod]), hstrip]
  dsimp only
  rw [hdecode, utf8Lossy_utf8Bytes]

theorem bucketService_object {path key : String} (hmethod : request.method = .get) (hurl : request.url = url ++ "/" ++ path)
    (hdecode : percentDecode path.toList = utf8Bytes key) :
    bucketService url objects pageSize request = .ok (match objects[key]? with
      | some object => { status := 200, headers := object.metadata, body := object.body }
      | none => { status := 404, headers := ∅, body := [] }) := by
  have hlist : stripPrefix (url ++ "?list-type=2&prefix=") request.url = none := by
    rw [Option.eq_none_iff_forall_ne_some]
    intro query hquery
    have heq := stripPrefix_eq_some.mp hquery
    rw [hurl] at heq
    have hlists := congrArg String.toList heq
    simp [String.toList_append, List.append_assoc] at hlists
  have hstrip : stripPrefix (url ++ "/") request.url = some path := stripPrefix_eq_some.mpr hurl
  rw [bucketService, if_neg (by simp [hmethod]), hlist, hstrip]
  dsimp only [Option.bind_some]
  rw [hdecode, utf8Lossy_utf8Bytes]
  cases objects[key]? <;> rfl

theorem servesBucket_bucketService : ServesBucket url objects pageSize (bucketService url objects pageSize) where
  listing request response query pre hresponse hok hmethod hurl hdecode := by
    rw [bucketService_list hmethod hurl hdecode] at hresponse
    rw [← Except.ok.inj hresponse]
    exact listingBody_listsKeys _ _
  object request response path key hresponse hok hmethod hurl hdecode := by
    rw [bucketService_object hmethod hurl hdecode] at hresponse
    rw [← Except.ok.inj hresponse] at hok ⊢
    cases hobject : objects[key]? with
    | some object => rfl
    | none =>
      rw [hobject] at hok
      cases hok

end Service

namespace S3ObjectStore
variable {store : S3ObjectStore} {p o : String} {objects : Std.ExtTreeMap String Object} {pageSize : String → Nat}

theorem fetchListed_isOk {keys : List String} (h : ∀ o ∈ keys, ∃ object, store.Fetches o object) : ∃ list, store.fetchListed keys = .ok list := by
  induction keys with
  | nil => exact ⟨[], rfl⟩
  | cons key keys ih =>
    obtain ⟨⟨object, response, hresponse, hok, -⟩, hkeys⟩ := List.forall_mem_cons.mp h
    obtain ⟨list, hlist⟩ := ih hkeys
    apply exists_bind_ok hresponse
    rw [if_pos hok]
    exact exists_bind_ok hlist ⟨_, rfl⟩

/-- A service that answers every request has every listing answered. -/
theorem listPrefix_isOk (hbucket : store.bucket ≠ "") (hsigner : ∀ request, store.signer request = .ok request)
    (htransport : store.transport = bucketService store.bucketUrl objects pageSize) (p : String) : ∃ list, store.listPrefix p = .ok list := by
  have hrequest : ∀ url, store.request .get url ∅ [] = bucketService store.bucketUrl objects pageSize { method := .get, url, headers := ∅, body := [] } := by
    intro url
    rw [request, hsigner, htransport]
    rfl
  have hlist := @bucketService_list store.bucketUrl objects pageSize { method := .get, url := store.listUrl p, headers := ∅, body := [] }
    (percentEncode (store.objectKey p)) (store.objectKey p) rfl rfl (percentDecode_percentEncode_toList _)
  have hfetch : ∀ o ∈ listedKeys objects pageSize (store.objectKey p), ∃ object, store.Fetches o object := by
    intro o ho
    have hobject := @bucketService_object store.bucketUrl objects pageSize { method := .get, url := store.objectUrl o, headers := ∅, body := [] }
      (percentEncode o) o rfl (objectUrl_of_bucket hbucket o) (percentDecode_percentEncode_toList o)
    rw [getElem?_stored (mem_listedKeys ho).1] at hobject
    exact ⟨_, _, (hrequest _).trans hobject, rfl, rfl⟩
  obtain ⟨list, hfetched⟩ := fetchListed_isOk hfetch
  refine ⟨list, except_bind_eq_ok.mpr ⟨_, (hrequest _).trans hlist, except_bind_eq_ok.mpr ⟨_, ?_, hfetched⟩⟩⟩
  exact parseListObjectsV2Keys_lists (listingBody_listsKeys _ _)

end S3ObjectStore

def exampleObjects : Std.ExtTreeMap String Object :=
  (((∅ : Std.ExtTreeMap String Object).insert "/pre/a" ⟨∅, [1]⟩).insert "/pre/b" ⟨∅, [2]⟩).insert "/pre2/c" ⟨∅, [3]⟩

def listingStore (pageSize : Nat) : S3ObjectStore :=
  S3ObjectStore.withSigner "https://s3.amazonaws.com" "bucket" (some "pre")
    (bucketService "https://s3.amazonaws.com/bucket" exampleObjects fun _ => pageSize) fun request => .ok request

theorem listingStore_bucketUrl (pageSize : Nat) : (listingStore pageSize).bucketUrl = "https://s3.amazonaws.com/bucket" := by
  change joinUrlPath (trimSlashesEnd "https://s3.amazonaws.com") (percentEncode (trimWith (· == '/') "bucket")) = _
  decide +kernel

theorem listingStore_serves (pageSize : Nat) : (listingStore pageSize).Serves exampleObjects fun _ => pageSize where
  bucket := by
    change trimWith (· == '/') "bucket" ≠ ""
    decide +kernel
  signer := by
    rintro request signed h
    rw [← Except.ok.inj h]
    exact ⟨rfl, rfl⟩
  service := by
    rw [listingStore_bucketUrl]
    exact servesBucket_bucketService

theorem listingStore_isOk (pageSize : Nat) (p : String) : ∃ list, (listingStore pageSize).listPrefix p = .ok list := by
  apply S3ObjectStore.listPrefix_isOk (listingStore_serves pageSize).bucket (fun _ => rfl)
  rw [listingStore_bucketUrl]
  rfl

namespace S3ObjectStore

theorem listPrefix_exact_iff_page : ∃ list, (listingStore 2).listPrefix "/a" = .ok list ∧
    ((listingStore 2).ListsExactly exampleObjects "/a" list ↔
      (listingStore 2).FirstReplySuffices exampleObjects "/a" (listedKeys exampleObjects (fun _ => 2) ((listingStore 2).objectKey "/a"))) := by
  obtain ⟨list, hlist⟩ := listingStore_isOk 2 "/a"
  exact ⟨list, hlist, listPrefix_exact_iff (listingStore_serves 2) hlist⟩

/-- A page of one key leaves an object out, and a listing of all keys gives out one of a sibling. -/
theorem listPrefix_not_exact :
    (∃ list, (listingStore 1).listPrefix "/" = .ok list ∧ ¬ (listingStore 1).ListsExactly exampleObjects "/" list) ∧
      ∃ list, (listingStore 1000).listPrefix "/" = .ok list ∧ ¬ (listingStore 1000).ListsExactly exampleObjects "/" list := by
  constructor
  · obtain ⟨list, hlist⟩ := listingStore_isOk 1 "/"
    refine ⟨list, hlist, fun hexact => ?_⟩
    have hpage : listedKeys exampleObjects (fun _ => 1) ((listingStore 1).objectKey "/") = ["/pre/a"] := by decide +kernel
    obtain ⟨hmap, -⟩ := listPrefix_ok (listingStore_serves 1) hlist
    have hunder : (listingStore 1).Under "/" "/pre/b" := ⟨"/b", by decide +kernel, by decide +kernel⟩
    obtain ⟨key, hkey, hentry⟩ := hexact.all "/pre/b" ⟨∅, [2]⟩ (by rfl) hunder
    rw [hmap, hpage, List.map_singleton, List.mem_singleton] at hentry
    have hfst : key = ((listingStore 1).externalKey "/pre/a").getD "/pre/a" := congrArg Prod.fst hentry
    have hasked : (listingStore 1).objectKey (((listingStore 1).externalKey "/pre/a").getD "/pre/a") = "/pre/a" := by decide +kernel
    rw [hfst, hasked] at hkey
    revert hkey
    decide
  · obtain ⟨list, hlist⟩ := listingStore_isOk 1000 "/"
    refine ⟨list, hlist, fun hexact => ?_⟩
    have hpage : "/pre2/c" ∈ listedKeys exampleObjects (fun _ => 1000) ((listingStore 1000).objectKey "/") := by decide +kernel
    obtain ⟨hmap, -⟩ := listPrefix_ok (listingStore_serves 1000) hlist
    obtain ⟨-, hstored, -⟩ := hexact.found _ (hmap ▸ List.mem_map_of_mem hpage)
    have hasked : (listingStore 1000).objectKey (((listingStore 1000).externalKey "/pre2/c").getD "/pre2/c") = "/pre/2/c" := by decide +kernel
    have hnone : (exampleObjects["/pre/2/c"]?).isSome = false := by decide +kernel
    change exampleObjects[(listingStore 1000).objectKey (((listingStore 1000).externalKey "/pre2/c").getD "/pre2/c")]? = _ at hstored
    rw [hasked] at hstored
    rw [hstored] at hnone
    cases hnone

end S3ObjectStore
end Star9
