import Star9.Base.Run
import Star9.Fs.HttpFs

/-!
# Validators and the values they belong to

The HTTP file system as a system of calls on one file system and on the handles it
gave out. What the exchanges say about a value and its validators is a relation of
its own; both caches are compared with it.
-/
namespace Star9
open Base Prog

structure HttpWorld where
  fs : HttpFs
  files : List HttpHandle

inductive HttpOp where
  | open_ (ctx : FsContext) (name : String)
  | stat (ctx : FsContext) (name : String)
  | readDir (ctx : FsContext) (name : String)
  | readlink (name : String)
  | openFile (name : String) (flags : OpenFlags) (perm : FileMode)
  | create (name : String)
  | mkdir (name : String) (perm : FileMode)
  | remove (name : String)
  | rename (old new : String)
  | symlink (old new : String)
  | patchTar (name : String) (body : Bytes)
  | setCacheTtl (ttl : Nat)
  | ignore (names : List String)
  | write (file : Nat) (data : Bytes)
  | writeAt (file : Nat) (data : Bytes) (offset : UInt64)
  | seek (file : Nat) (pos : SeekFrom)
  | close (file : Nat)

namespace HttpWorld
variable (transport : HttpTransport) {α : Type}

def call (p : Prog HttpFs Error α) (w : HttpWorld) : HttpWorld := { w with fs := (p w.fs).2 }

def opens (p : Prog HttpFs Error HttpHandle) (w : HttpWorld) : HttpWorld :=
  match p w.fs with
  | (.ok handle, fs) => { fs, files := w.files ++ [handle] }
  | (_, fs) => { w with fs }

/-- Only a file opened for writing reaches the file system again. -/
def onFile (p : Prog (HttpWriteFile × HttpFs) Error α) (file : Nat) (w : HttpWorld) : HttpWorld :=
  match w.files[file]? with
  | some (.write f) => { fs := (p (f, w.fs)).2.2, files := w.files.set file (.write (p (f, w.fs)).2.1) }
  | _ => w

def step (w : HttpWorld) : HttpOp → HttpWorld
  | .open_ ctx name => w.opens (HttpFs.open_ transport ctx name)
  | .stat ctx name => w.call (HttpFs.stat transport ctx name)
  | .readDir ctx name => w.call (HttpFs.readDir transport ctx name)
  | .readlink name => w.call (HttpFs.readlink transport name)
  | .openFile name flags perm => w.opens (HttpFs.openFile transport name flags perm)
  | .create name => w.opens (HttpFs.create transport name)
  | .mkdir name perm => w.call (HttpFs.mkdir transport name perm)
  | .remove name => w.call (HttpFs.remove transport name)
  | .rename old new => w.call (HttpFs.rename transport old new)
  | .symlink old new => w.call (HttpFs.symlink transport old new)
  | .patchTar name body => w.call (HttpFs.patchTar transport name body)
  | .setCacheTtl ttl => w.call (HttpFs.setCacheTtl ttl)
  | .ignore names => w.call (HttpFs.ignore names)
  | .write file data => w.onFile (HttpWriteFile.write data) file
  | .writeAt file data offset => w.onFile (HttpWriteFile.writeAt data offset) file
  | .seek file pos => w.onFile (HttpWriteFile.seek pos) file
  | .close file => w.onFile (HttpWriteFile.close transport) file

def mount (baseUrl : String) (ttl : Nat) (clock : Nat → SystemTime) : HttpWorld :=
  { fs := HttpFs.withCacheTtl baseUrl ttl clock, files := [] }

end HttpWorld

/-! ## What the exchanges say -/

/-- The request asks whether what has these validators is still current. -/
def Conditional (request : HttpRequest) (v : HttpValidators) : Prop :=
  request.headers["If-None-Match"]? = v.etag ∧ request.headers["If-Modified-Since"]? = v.lastModified

/-- Where a kind of value comes from: the requests for it, and how a response is read. -/
structure HttpSource (α : Type) where
  method : Method
  parse : String → String → HttpResponse → Outcome Error α

namespace HttpSource

def node : HttpSource HttpNode where
  method := .get
  parse name baseUrl response := HttpFs.parseNode baseUrl name response

def stat : HttpSource Metadata where
  method := .head
  parse name _ response := parseHttpMetadata name response.headers response.body.length

end HttpSource

section Carried
variable {α : Type} (source : HttpSource α) (baseUrl name : String)

/-- The exchange is about the name and was answered. -/
structure Answered (x : Exchange) (response : HttpResponse) : Prop where
  method : x.request.method = source.method
  url : x.request.url = baseUrl ++ HttpFs.normalizeHttpPath name
  answer : x.answer = .ok response

/-- The validators were carried by the response that supplied the value, or by a
later 304 that confirmed it. -/
inductive Carried : List Exchange → HttpValidators → α → Prop
  | supplied {earlier : List Exchange} {x : Exchange} {response : HttpResponse} {a : α}
      (asked : Answered source baseUrl name x response)
      (read : HttpFs.readResponse (source.parse name baseUrl) name response = .ok a) :
      Carried (earlier ++ [x]) (validatorsFromHeaders response.headers) a
  | confirmed {earlier : List Exchange} {x : Exchange} {response : HttpResponse} {u : HttpValidators} {a : α}
      (before : Carried earlier u a) (asked : Answered source baseUrl name x response)
      (condition : Conditional x.request u) (status : response.status = 304)
      (carries : (validatorsFromHeaders response.headers).isEmpty = false) :
      Carried (earlier ++ [x]) (validatorsFromHeaders response.headers) a
  | kept {earlier : List Exchange} {x : Exchange} {v : HttpValidators} {a : α} (before : Carried earlier v a) :
      Carried (earlier ++ [x]) v a

/-- A meaning of validators that the server's answers agree with: a value it sends
is one that its validators denote, and a 304 says that its own validators denote
what those of the request do. -/
structure Denotation (denotes : HttpValidators → α → Prop) (exchanges : List Exchange) : Prop where
  supplied : ∀ x ∈ exchanges, ∀ response a, Answered source baseUrl name x response →
    HttpFs.readResponse (source.parse name baseUrl) name response = .ok a →
    denotes (validatorsFromHeaders response.headers) a
  confirmed : ∀ x ∈ exchanges, ∀ response u a, Answered source baseUrl name x response → Conditional x.request u →
    response.status = 304 → (validatorsFromHeaders response.headers).isEmpty = false → denotes u a →
    denotes (validatorsFromHeaders response.headers) a

variable {source baseUrl name}

theorem Denotation.init {denotes : HttpValidators → α → Prop} {earlier : List Exchange} {x : Exchange}
    (h : Denotation source baseUrl name denotes (earlier ++ [x])) : Denotation source baseUrl name denotes earlier where
  supplied y hy := h.supplied y (List.mem_append_left _ hy)
  confirmed y hy := h.confirmed y (List.mem_append_left _ hy)

/-- Validators that were carried for a value denote it, whatever validators mean. -/
theorem Carried.denotes {denotes : HttpValidators → α → Prop} {exchanges : List Exchange} {v : HttpValidators} {a : α}
    (h : Carried source baseUrl name exchanges v a) (hd : Denotation source baseUrl name denotes exchanges) :
    denotes v a := by
  induction h with
  | supplied asked read => exact hd.supplied _ (by simp) _ _ asked read
  | confirmed before asked condition status carries ih =>
    exact hd.confirmed _ (by simp) _ _ _ asked condition status carries (ih hd.init)
  | kept before ih => exact ih hd.init

theorem Carried.append {exchanges : List Exchange} {v : HttpValidators} {a : α}
    (h : Carried source baseUrl name exchanges v a) (more : List Exchange) :
    Carried source baseUrl name (exchanges ++ more) v a := by
  induction more generalizing exchanges with
  | nil => simpa using h
  | cons x more ih => simpa using ih h.kept

end Carried

namespace HttpFs
variable {α β : Type}

/-- Every value in the cache is kept with validators that were carried for it. -/
def Held (lens : CacheLens α) (source : HttpSource α) (fs : HttpFs) : Prop :=
  ∀ name entry a, (lens.get fs)[name]? = some entry → entry.payload = .value a →
    Carried source fs.baseUrl name fs.exchanges entry.validators a

def Unconditional (headers : Headers) : Prop :=
  headers["If-None-Match"]? = none ∧ headers["If-Modified-Since"]? = none

/-- What a load returns because of a 304 is what the validators of its request denote. -/
def Confirms (source : HttpSource α) (loads : String → Headers → Prog HttpFs Error α) (fs : HttpFs) : Prop :=
  ∀ name headers a x response fs', Unconditional headers → loads name headers fs = (.ok a, fs') →
    fs'.exchanges = fs.exchanges ++ [x] → x.answer = .ok response → response.status = 304 →
    ∃ u, Conditional x.request u ∧
      ∀ denotes, Denotation source fs.baseUrl name denotes fs.exchanges → denotes u a

structure ValidatorsBelong (transport : HttpTransport) (fs : HttpFs) : Prop where
  node : Held nodeCache .node fs
  stat : Held statCache .stat fs
  confirmsNode : Confirms .node (loadNodeWithHeaders transport) fs
  confirmsStat : Confirms .stat (fun name _ => loadMetadata transport name) fs

/-! ## Calls that store nothing -/

/-- A cache has lost entries at most, and the exchanges have only grown. -/
structure Settles (lens : CacheLens α) (fs fs' : HttpFs) : Prop where
  baseUrl : fs'.baseUrl = fs.baseUrl
  exchanges : ∃ more, fs'.exchanges = fs.exchanges ++ more
  entries : ∀ (name : String) (entry : HttpFsCacheEntry α),
    (lens.get fs')[name]? = some entry → (lens.get fs)[name]? = some entry

instance (lens : CacheLens α) : IsPreorder HttpFs (Settles lens) where
  refl fs := ⟨rfl, ⟨[], by simp⟩, fun _ _ h => h⟩
  trans fs₁ fs₂ fs₃ h₁ h₂ := by
    obtain ⟨more₁, hmore₁⟩ := h₁.exchanges
    obtain ⟨more₂, hmore₂⟩ := h₂.exchanges
    refine ⟨h₂.baseUrl.trans h₁.baseUrl, ⟨more₁ ++ more₂, ?_⟩, fun name entry h => ?_⟩
    · rw [hmore₂, hmore₁, List.append_assoc]
    · exact h₁.entries name entry (h₂.entries name entry h)

theorem Held.settles {lens : CacheLens α} {source : HttpSource α} {fs fs' : HttpFs} (h : Held lens source fs)
    (hs : Settles lens fs fs') : Held lens source fs' := by
  intro name entry a hentry hpayload
  obtain ⟨more, hmore⟩ := hs.exchanges
  rw [hmore, hs.baseUrl]
  exact (h name entry a (hs.entries name entry hentry) hpayload).append more

/-- Entries were lost from the caches, and nothing else happened to them. -/
structure CacheLoses (cache cache' : HttpFsCache) : Prop where
  stat : ∀ (name : String) (entry : HttpFsCacheEntry Metadata), cache'.stat[name]? = some entry →
    cache.stat[name]? = some entry
  node : ∀ (name : String) (entry : HttpFsCacheEntry HttpNode), cache'.node[name]? = some entry →
    cache.node[name]? = some entry

theorem CacheLoses.refl (cache : HttpFsCache) : CacheLoses cache cache := ⟨fun _ _ h => h, fun _ _ h => h⟩

theorem CacheLoses.trans {c₁ c₂ c₃ : HttpFsCache} (h₁ : CacheLoses c₁ c₂) (h₂ : CacheLoses c₂ c₃) : CacheLoses c₁ c₃ :=
  ⟨fun name entry h => h₁.stat name entry (h₂.stat name entry h),
    fun name entry h => h₁.node name entry (h₂.node name entry h)⟩

theorem loses_of_cleared (cache : HttpFsCache) (ttl : Nat) : CacheLoses cache { ttl, stat := ∅, node := ∅ } :=
  ⟨fun _ _ h => by simp at h, fun _ _ h => by simp at h⟩

theorem getElem?_of_erase {m : HttpFsEntries α} {key name : String} {entry : HttpFsCacheEntry α}
    (h : (m.erase key)[name]? = some entry) : m[name]? = some entry := by
  rw [Std.ExtTreeMap.getElem?_erase] at h
  split at h
  · cases h
  · exact h

theorem getElem?_of_filter {m : HttpFsEntries α} {keep : String → HttpFsCacheEntry α → Bool} {name : String}
    {entry : HttpFsCacheEntry α} (h : (m.filter keep)[name]? = some entry) : m[name]? = some entry := by
  rw [Std.ExtTreeMap.getElem?_filter'] at h
  exact (Option.filter_eq_some_iff.mp h).1

theorem invalidateExact_loses (cache : HttpFsCache) (name : String) : CacheLoses cache (invalidateExact cache name) :=
  ⟨fun _ _ h => getElem?_of_erase h, fun _ _ h => getElem?_of_erase h⟩

theorem invalidateTree_loses (cache : HttpFsCache) (name : String) : CacheLoses cache (invalidateTree cache name) := by
  unfold invalidateTree
  split
  · exact loses_of_cleared cache cache.ttl
  · exact ⟨fun _ _ h => getElem?_of_filter h, fun _ _ h => getElem?_of_filter h⟩

/-- A cache is a part of the caches of the state, and storing in it touches nothing else. -/
structure CacheLens.Lawful (lens : CacheLens α) : Prop where
  loses : ∀ fs fs' : HttpFs, CacheLoses fs.cache fs'.cache → ∀ (name : String) (entry : HttpFsCacheEntry α),
    (lens.get fs')[name]? = some entry → (lens.get fs)[name]? = some entry
  get_set : ∀ entries fs, lens.get (lens.set entries fs) = entries
  baseUrl_set : ∀ entries fs, (lens.set entries fs).baseUrl = fs.baseUrl
  exchanges_set : ∀ entries fs, (lens.set entries fs).exchanges = fs.exchanges
  ignores_set : ∀ entries fs, (lens.set entries fs).ignores = fs.ignores
  ttl_set : ∀ entries fs, (lens.set entries fs).cache.ttl = fs.cache.ttl

theorem statCache_lawful : statCache.Lawful :=
  ⟨fun _ _ h => h.stat, fun _ _ => rfl, fun _ _ => rfl, fun _ _ => rfl, fun _ _ => rfl, fun _ _ => rfl⟩

theorem nodeCache_lawful : nodeCache.Lawful :=
  ⟨fun _ _ h => h.node, fun _ _ => rfl, fun _ _ => rfl, fun _ _ => rfl, fun _ _ => rfl, fun _ _ => rfl⟩

section
variable {lens : CacheLens α} (hl : lens.Lawful)
include hl

theorem CacheLens.Lawful.settles {fs fs' : HttpFs} (hbase : fs'.baseUrl = fs.baseUrl)
    (hexchanges : fs'.exchanges = fs.exchanges) (hcache : CacheLoses fs.cache fs'.cache) : Settles lens fs fs' :=
  ⟨hbase, ⟨[], by rw [hexchanges, List.append_nil]⟩, hl.loses fs fs' hcache⟩

theorem currentTime_settles : Evolves (Settles lens) currentTime := fun fs => hl.settles rfl rfl (.refl fs.cache)

theorem invalidateWith_settles {f : HttpFsCache → HttpFsCache} (hf : ∀ cache, CacheLoses cache (f cache)) :
    Evolves (Settles lens) (invalidateWith f) := fun fs => hl.settles rfl rfl (hf fs.cache)

theorem invalidateCacheAt_settles (name : String) : Evolves (Settles lens) (invalidateCacheAt name) := by
  refine invalidateWith_settles hl fun cache => ?_
  exact (invalidateTree_loses cache _).trans (invalidateExact_loses _ _)

theorem invalidateCacheAfterRename_settles (old new : String) :
    Evolves (Settles lens) (invalidateCacheAfterRename old new) := by
  refine invalidateWith_settles hl fun cache => ?_
  have htrees := (invalidateTree_loses cache (cleanPath old)).trans (invalidateTree_loses _ (cleanPath new))
  exact (htrees.trans (invalidateExact_loses _ _)).trans (invalidateExact_loses _ _)

theorem cacheLookup_settles (lens' : CacheLens β) (name : String) : Evolves (Settles lens) (cacheLookup lens' name) := by
  refine evolves_bind (currentTime_settles hl) fun now => ?_
  refine evolves_bind evolves_get fun fs => ?_
  split
  · exact evolves_ite (fun _ => evolves_pure _) fun _ => evolves_pure _
  · exact evolves_pure _

theorem cached_settles (lens' : CacheLens β) (name : String) : Evolves (Settles lens) (cached lens' name) := by
  refine evolves_bind (cacheLookup_settles hl lens' name) fun payload => ?_
  split <;> exact evolves_pure _

theorem rawRequest_settles (transport : HttpTransport) (method : Method) (name : String) (headers : Headers)
    (body : Bytes) : Evolves (Settles lens) (rawRequest transport method name headers body) := by
  refine evolves_bind evolves_get fun fs => ?_
  refine evolves_bind ?_ fun _ => evolves_ofExcept _
  exact fun fs => ⟨rfl, ⟨_, rfl⟩, hl.loses _ _ (.refl fs.cache)⟩

theorem request_settles (transport : HttpTransport) (method : Method) (name : String) (headers : Headers)
    (body : Bytes) : Evolves (Settles lens) (request transport method name headers body) :=
  evolves_bind (rawRequest_settles hl transport method name headers body) fun _ => evolves_ofExcept _

theorem insertChangeTimestamp_settles (headers : Headers) : Evolves (Settles lens) (insertChangeTimestamp headers) :=
  evolves_bind (currentTime_settles hl) fun _ => evolves_pure _

theorem putNode_settles (transport : HttpTransport) (name contentType : String) (mode : FileMode) (body : Bytes) :
    Evolves (Settles lens) (putNode transport name contentType mode body) := by
  refine evolves_bind (currentTime_settles hl) fun _ => ?_
  refine evolves_bind (insertChangeTimestamp_settles hl _) fun _ => ?_
  exact evolves_bind (request_settles hl transport _ _ _ _) fun _ => invalidateCacheAt_settles hl _

theorem patchTar_settles (transport : HttpTransport) (name : String) (body : Bytes) :
    Evolves (Settles lens) (patchTar transport name body) := by
  refine evolves_ite (fun _ => evolves_throw _) fun _ => ?_
  refine evolves_bind (insertChangeTimestamp_settles hl _) fun _ => ?_
  exact evolves_bind (request_settles hl transport _ _ _ _) fun _ => invalidateCacheAt_settles hl _

theorem remove_settles (transport : HttpTransport) (name : String) : Evolves (Settles lens) (remove transport name) := by
  refine evolves_bind (insertChangeTimestamp_settles hl _) fun _ => ?_
  exact evolves_bind (request_settles hl transport _ _ _ _) fun _ => invalidateCacheAt_settles hl _

theorem rename_settles (transport : HttpTransport) (old new : String) :
    Evolves (Settles lens) (rename transport old new) := by
  refine evolves_bind (insertChangeTimestamp_settles hl _) fun _ => ?_
  exact evolves_bind (request_settles hl transport _ _ _ _) fun _ => invalidateCacheAfterRename_settles hl _ _

theorem setCacheTtl_settles (ttl : Nat) : Evolves (Settles lens) (setCacheTtl ttl) := fun fs =>
  hl.settles rfl rfl (loses_of_cleared fs.cache ttl)

theorem ignore_settles (names : List String) : Evolves (Settles lens) (ignore names) := fun fs =>
  hl.settles rfl rfl (.refl fs.cache)

end

/-! ## Loading -/

theorem isEmpty_iff (v : HttpValidators) : v.isEmpty = true ↔ v = .default := by
  cases v with
  | mk etag lastModified => simp [HttpValidators.isEmpty, HttpValidators.default]

/-- The value a request would revalidate. -/
def staleEntry (lens : CacheLens α) (name : String) (fs : HttpFs) : Option (HttpFsCacheEntry α) :=
  match (lens.get fs)[name]? with
  | some entry =>
    match entry.payload with
    | .value _ => some entry
    | .notFound => none
  | none => none

theorem cacheStaleValue_apply (lens : CacheLens α) (name : String) (fs : HttpFs) :
    cacheStaleValue lens name fs = (.ok (staleEntry lens name fs), fs) := by
  unfold cacheStaleValue staleEntry
  rw [get_bind]
  cases hentry : (lens.get fs)[name]? with
  | none => rfl
  | some entry => cases hpayload : entry.payload <;> simp only [hpayload] <;> rfl

theorem of_staleEntry {lens : CacheLens α} {name : String} {fs : HttpFs} {entry : HttpFsCacheEntry α}
    (h : staleEntry lens name fs = some entry) : (lens.get fs)[name]? = some entry ∧ ∃ a, entry.payload = .value a := by
  unfold staleEntry at h
  split at h
  · split at h
    · rename_i a ha
      cases h
      exact ⟨‹_›, a, ha⟩
    · cases h
  · cases h

/-- The request that a load makes when it does not find what it looks for. -/
def loadRequest (source : HttpSource α) (stale : Option (HttpFsCacheEntry α)) (name : String) (headers : Headers)
    (fs : HttpFs) : HttpRequest :=
  { method := source.method
    url := fs.buildUrl name
    headers := addStaleValidators headers stale
    body := [] }

theorem loadRequest_conditional (source : HttpSource α) {entry : HttpFsCacheEntry α} {name : String} {headers : Headers}
    (hu : Unconditional headers) (fs : HttpFs) :
    Conditional (loadRequest source (some entry) name headers fs) entry.validators := by
  unfold Conditional loadRequest addStaleValidators addValidatorHeaders
  dsimp only
  cases entry.validators.etag <;> cases entry.validators.lastModified <;>
    simp [Std.ExtTreeMap.getElem?_insert, Std.ExtTreeMap.getElem_insert, hu.1, hu.2]

theorem cacheStore_held {lens : CacheLens α} (hl : lens.Lawful) {source : HttpSource α} {fs : HttpFs} {name : String}
    {payload : HttpFsCachePayload α} {v : HttpValidators} (h : Held lens source fs)
    (hv : ∀ a, payload = .value a → Carried source fs.baseUrl name fs.exchanges v a) :
    Held lens source (cacheStore lens name payload v fs).2 := by
  unfold cacheStore
  rw [get_bind, branch_apply]
  split
  · exact h
  · intro key entry a hentry hpayload
    change (lens.get (lens.set _ _))[key]? = some entry at hentry
    rw [hl.get_set, Std.ExtTreeMap.getElem?_insert] at hentry
    change Carried source (lens.set _ _).baseUrl key (lens.set _ _).exchanges entry.validators a
    rw [hl.baseUrl_set, hl.exchanges_set]
    split at hentry
    · rename_i hkey
      obtain rfl : name = key := by simpa using hkey
      cases hentry
      exact hv a hpayload
    · have htime := (currentTime_settles hl fs).entries key entry hentry
      exact h key entry a htime hpayload

/-- The server answers a request for a name with a value and no validators only when
it had supplied the same value before, or had given it no validators. -/
def Revalidates (transport : HttpTransport) (lens : CacheLens α) (source : HttpSource α) (name : String)
    (headers : Headers) (fs : HttpFs) : Prop :=
  ∀ entry ∈ staleEntry lens name fs, entry.validators.isEmpty = false →
    ∀ response ∈ (transport fs.exchanges (loadRequest source (some entry) name headers fs)).toOption,
      (validatorsFromHeaders response.headers).isEmpty = true →
      ∀ a ∈ (readResponse (source.parse name fs.baseUrl) name response).toOption, entry.payload = .value a

/-- What a load stores comes with validators that were carried for it. -/
theorem carried_responseValidators {lens : CacheLens α} {source : HttpSource α} {fs : HttpFs} (h : Held lens source fs)
    {transport : HttpTransport} {missing name : String} {headers : Headers} (hu : Unconditional headers)
    (hr : Revalidates transport lens source name headers fs) {response : HttpResponse} {a : α}
    (hanswer : transport fs.exchanges (loadRequest source (staleEntry lens name fs) name headers fs) = .ok response)
    (hresult : (if response.status = 304 then staleValue missing (staleEntry lens name fs)
      else readResponse (source.parse name fs.baseUrl) name response) = .ok a) :
    Carried source fs.baseUrl name
      (fs.exchanges ++ [⟨loadRequest source (staleEntry lens name fs) name headers fs, .ok response⟩])
      (responseValidators response.headers (staleEntry lens name fs)) a := by
  have hasked : Answered source fs.baseUrl name
      ⟨loadRequest source (staleEntry lens name fs) name headers fs, .ok response⟩ response := ⟨rfl, rfl, rfl⟩
  unfold responseValidators
  dsimp only
  split at hresult
  · rename_i hstatus
    cases hstale : staleEntry lens name fs with
    | none =>
      rw [hstale] at hresult
      cases hresult
    | some entry =>
      obtain ⟨hentry, b, hb⟩ := of_staleEntry hstale
      have hbefore := h name entry b hentry hb
      rw [hstale] at hresult hasked
      cases entry with
      | mk payload expiresAt validators =>
        dsimp only at hb
        subst hb
        cases hresult
        split
        · exact hbefore.kept
        · rename_i hcarries
          exact hbefore.confirmed hasked (loadRequest_conditional source hu fs) hstatus (by simpa using hcarries)
  · split
    · rename_i hempty
      split
      · rename_i entry hstale
        cases hvalidators : entry.validators.isEmpty with
        | true =>
          rw [(isEmpty_iff _).mp hvalidators, ← (isEmpty_iff _).mp hempty]
          exact .supplied hasked hresult
        | false =>
          rw [hstale] at hanswer
          have hsame := hr entry hstale hvalidators response (by simp [hanswer, Except.toOption]) hempty a
            (by simp [hresult, Outcome.toOption])
          exact (h name entry a (of_staleEntry hstale).1 hsame).kept
      · exact .supplied hasked hresult
    · exact .supplied hasked hresult

theorem cacheStore_isOk (lens : CacheLens α) (name : String) (payload : HttpFsCachePayload α) (v : HttpValidators)
    (fs : HttpFs) : (cacheStore lens name payload v fs).1 = .ok () := by
  unfold cacheStore
  rw [get_bind, branch_apply]
  split <;> rfl

theorem cacheHttpResult_isOk (lens : CacheLens α) (name : String) (result : Except Error α) (v : HttpValidators)
    (fs : HttpFs) : (cacheHttpResult lens name result v fs).1 = .ok () := by
  unfold cacheHttpResult
  cases result with
  | ok a => exact cacheStore_isOk lens name _ _ fs
  | error err =>
    dsimp only
    rw [branch_apply]
    split
    · exact cacheStore_isOk lens name _ _ fs
    · rfl

theorem bind_of_isOk {p : Prog HttpFs Error Unit} {f : Unit → Prog HttpFs Error α} {fs : HttpFs}
    (h : (p fs).1 = .ok ()) : (p >>= f) fs = f () (p fs).2 := bind_ok (Prod.ext h rfl)

/-- The state in which the answer to a load is read. -/
def afterRequest (transport : HttpTransport) (request : HttpRequest) (fs : HttpFs) : HttpFs :=
  { fs with exchanges := fs.exchanges ++ [⟨request, transport fs.exchanges request⟩] }

@[simp] theorem afterRequest_baseUrl (transport : HttpTransport) (request : HttpRequest) (fs : HttpFs) :
    (afterRequest transport request fs).baseUrl = fs.baseUrl := rfl

/-- A revalidation asks once, and stores what comes of the answer. -/
theorem revalidate_apply (transport : HttpTransport) (lens : CacheLens α) (source : HttpSource α) (missing name : String)
    (headers : Headers) (fs : HttpFs) :
    revalidate transport lens source.method (source.parse name) missing name headers fs =
      let request := loadRequest source (staleEntry lens name fs) name headers fs
      let fs₁ := afterRequest transport request fs
      match transport fs.exchanges request with
      | .error e => (.err e, fs₁)
      | .ok response =>
        match (if response.status = 304 then staleValue missing (staleEntry lens name fs)
            else readResponse (source.parse name fs.baseUrl) name response) with
        | .ok a =>
          (.ok a, (cacheHttpResult lens name (.ok a) (responseValidators response.headers (staleEntry lens name fs)) fs₁).2)
        | .err e =>
          (.err e, (cacheHttpResult lens name (.error e) (responseValidators response.headers (staleEntry lens name fs)) fs₁).2)
        | .abort => (.abort, fs₁) := by
  unfold revalidate
  rw [bind_ok (cacheStaleValue_apply lens name fs)]
  dsimp only
  rw [bind_apply]
  have hraw : rawRequest transport source.method name (addStaleValidators headers (staleEntry lens name fs)) [] fs =
      ofExcept (transport fs.exchanges (loadRequest source (staleEntry lens name fs) name headers fs))
        (afterRequest transport (loadRequest source (staleEntry lens name fs) name headers fs) fs) := rfl
  rw [hraw]
  cases transport fs.exchanges (loadRequest source (staleEntry lens name fs) name headers fs) with
  | error e => rfl
  | ok response =>
    rw [ofExcept_ok, pure_apply]
    dsimp only
    rw [get_bind, afterRequest_baseUrl]
    cases (if response.status = 304 then staleValue missing (staleEntry lens name fs)
      else readResponse (source.parse name fs.baseUrl) name response) with
    | ok a => exact bind_of_isOk (cacheHttpResult_isOk lens name _ _ _)
    | err e => exact bind_of_isOk (cacheHttpResult_isOk lens name _ _ _)
    | abort => rfl

theorem afterRequest_settles {lens : CacheLens α} (hl : lens.Lawful) (transport : HttpTransport) (request : HttpRequest)
    (fs : HttpFs) : Settles lens fs (afterRequest transport request fs) :=
  ⟨rfl, ⟨_, rfl⟩, hl.loses _ _ (.refl fs.cache)⟩

theorem revalidate_held {lens : CacheLens α} (hl : lens.Lawful) {source : HttpSource α} {transport : HttpTransport}
    {fs : HttpFs} (h : Held lens source fs) (missing name : String) {headers : Headers} (hu : Unconditional headers)
    (hr : Revalidates transport lens source name headers fs) :
    Held lens source (revalidate transport lens source.method (source.parse name) missing name headers fs).2 := by
  have hafter := h.settles
    (afterRequest_settles hl transport (loadRequest source (staleEntry lens name fs) name headers fs) fs)
  rw [revalidate_apply]
  dsimp only
  cases hanswer : transport fs.exchanges (loadRequest source (staleEntry lens name fs) name headers fs) with
  | error e => exact hafter
  | ok response =>
    dsimp only
    cases hresult : (if response.status = 304 then staleValue missing (staleEntry lens name fs)
      else readResponse (source.parse name fs.baseUrl) name response) with
    | ok a =>
      refine cacheStore_held hl hafter fun b hb => ?_
      cases hb
      have hcarried := carried_responseValidators h hu hr hanswer hresult
      unfold afterRequest
      rw [hanswer]
      exact hcarried
    | err e =>
      dsimp only [cacheHttpResult]
      rw [branch_apply]
      split
      · exact cacheStore_held hl hafter fun b hb => by cases hb
      · exact hafter
    | abort => exact hafter

/-- The entries under the name have run out for the next so many readings of the clock. -/
def Lapsed (lens : CacheLens α) (name : String) (lookups : Nat) (fs : HttpFs) : Prop :=
  ∀ entry ∈ (lens.get fs)[name]?, ∀ i < lookups, entry.expiresAt ≤ fs.clock (fs.ticks + i)

/-- A load that goes to the server meets its condition there. -/
def LoadMeets (transport : HttpTransport) (lens : CacheLens α) (source : HttpSource α) (name : String)
    (headers : Headers) (lookups : Nat) (fs : HttpFs) : Prop :=
  Lapsed lens name lookups fs → fs.shouldIgnore name = false → Revalidates transport lens source name headers fs

instance (lens : CacheLens α) (name : String) (lookups : Nat) (fs : HttpFs) : Decidable (Lapsed lens name lookups fs) :=
  inferInstanceAs (Decidable (∀ entry ∈ (lens.get fs)[name]?, ∀ i < lookups, entry.expiresAt ≤ fs.clock (fs.ticks + i)))

instance [DecidableEq α] (transport : HttpTransport) (lens : CacheLens α) (source : HttpSource α) (name : String)
    (headers : Headers) (fs : HttpFs) : Decidable (Revalidates transport lens source name headers fs) :=
  inferInstanceAs (Decidable (∀ entry ∈ staleEntry lens name fs, entry.validators.isEmpty = false →
    ∀ response ∈ (transport fs.exchanges (loadRequest source (some entry) name headers fs)).toOption,
      (validatorsFromHeaders response.headers).isEmpty = true →
      ∀ a ∈ (readResponse (source.parse name fs.baseUrl) name response).toOption, entry.payload = .value a))

instance [DecidableEq α] (transport : HttpTransport) (lens : CacheLens α) (source : HttpSource α) (name : String)
    (headers : Headers) (lookups : Nat) (fs : HttpFs) :
    Decidable (LoadMeets transport lens source name headers lookups fs) :=
  inferInstanceAs (Decidable (Lapsed lens name lookups fs → fs.shouldIgnore name = false →
    Revalidates transport lens source name headers fs))

/-- What a lookup finds under a name. -/
def found (lens : CacheLens α) (name : String) (fs : HttpFs) : Option (Except Error α) :=
  match (lens.get fs)[name]? with
  | some entry =>
    if fs.clock fs.ticks < entry.expiresAt then
      match entry.payload with
      | .value a => some (.ok a)
      | .notFound => some (.error (.path "httpfs" name .notFound))
    else none
  | none => none

def tick (fs : HttpFs) : HttpFs := { fs with ticks := fs.ticks + 1 }

theorem CacheLens.Lawful.getElem?_tick {lens : CacheLens α} (hl : lens.Lawful) (fs : HttpFs) (name : String) :
    (lens.get (tick fs))[name]? = (lens.get fs)[name]? := by
  apply Option.ext
  intro entry
  constructor
  · exact hl.loses fs (tick fs) (.refl fs.cache) name entry
  · exact hl.loses (tick fs) fs (.refl fs.cache) name entry

theorem cached_apply {lens : CacheLens α} (hl : lens.Lawful) (name : String) (fs : HttpFs) :
    cached lens name fs = (.ok (found lens name fs), tick fs) := by
  have htick : currentTime fs = (.ok (fs.clock fs.ticks), tick fs) := rfl
  have hlookup : cacheLookup lens name fs = (.ok (match (lens.get fs)[name]? with
      | some entry => if fs.clock fs.ticks < entry.expiresAt then some entry.payload else none
      | none => none), tick fs) := by
    unfold cacheLookup
    rw [bind_ok htick, get_bind, hl.getElem?_tick]
    cases (lens.get fs)[name]? with
    | none => rfl
    | some entry => exact (branch_apply _ _ _ _).trans (by split <;> simp [*])
  unfold cached found
  rw [bind_ok hlookup]
  cases (lens.get fs)[name]? with
  | none => rfl
  | some entry =>
    dsimp only
    split
    · cases entry.payload <;> rfl
    · rfl

theorem lapsed_of_found_none {lens : CacheLens α} {name : String} {fs : HttpFs} (h : found lens name fs = none) :
    ∀ entry ∈ (lens.get fs)[name]?, entry.expiresAt ≤ fs.clock fs.ticks := by
  intro entry hentry
  by_contra hlt
  unfold found at h
  rw [show (lens.get fs)[name]? = some entry from hentry] at h
  dsimp only at h
  rw [if_pos (not_le.mp hlt)] at h
  cases hp : entry.payload <;> simp [hp] at h

theorem load_apply {lens : CacheLens α} (hl : lens.Lawful) (transport : HttpTransport) (method : Method) (op : String)
    (parse : String → HttpResponse → Outcome Error α) (missing name : String) (headers : Headers) (fs : HttpFs) :
    load transport lens method op parse missing name headers fs =
      match found lens name fs with
      | some result => ofExcept result (tick fs)
      | none =>
        if fs.shouldIgnore name then (.err (.path op name .notFound), tick fs)
        else revalidate transport lens method parse missing name headers (tick fs) := by
  unfold load
  rw [bind_ok (cached_apply hl name fs)]
  cases found lens name fs with
  | some result => rfl
  | none =>
    dsimp only
    rw [get_bind, branch_apply]
    rfl

section
variable {lens : CacheLens α} (hl : lens.Lawful) {source : HttpSource α} {transport : HttpTransport} {fs : HttpFs}
include hl

theorem staleEntry_tick (name : String) : staleEntry lens name (tick fs) = staleEntry lens name fs := by
  unfold staleEntry
  rw [hl.getElem?_tick]

theorem revalidates_tick {name : String} {headers : Headers} (h : Revalidates transport lens source name headers fs) :
    Revalidates transport lens source name headers (tick fs) := by
  unfold Revalidates
  rw [staleEntry_tick hl]
  exact h

theorem held_tick (h : Held lens source fs) : Held lens source (tick fs) := h.settles (currentTime_settles hl fs)

theorem load_held (h : Held lens source fs) (op missing name : String) {headers : Headers} (hu : Unconditional headers)
    (hr : LoadMeets transport lens source name headers 1 fs) :
    Held lens source (load transport lens source.method op (source.parse name) missing name headers fs).2 := by
  rw [load_apply hl]
  cases hfound : found lens name fs with
  | some result => cases result <;> exact held_tick hl h
  | none =>
    dsimp only
    split
    · exact held_tick hl h
    · rename_i hignore
      refine revalidate_held hl (held_tick hl h) missing name hu (revalidates_tick hl (hr ?_ (by simpa using hignore)))
      intro entry hentry i hi
      obtain rfl : i = 0 := by omega
      exact lapsed_of_found_none hfound entry hentry

end

/-- A store in one cache leaves the other alone. -/
theorem load_settles {lens : CacheLens α} {lens' : CacheLens β} (hl' : lens'.Lawful)
    (hset : ∀ entries fs, Settles lens' fs (lens.set entries fs)) (transport : HttpTransport) (method : Method)
    (op : String) (parse : String → HttpResponse → Outcome Error α) (missing name : String) (headers : Headers) :
    Evolves (Settles lens') (load transport lens method op parse missing name headers) := by
  have hstore (payload : HttpFsCachePayload α) (v : HttpValidators) :
      Evolves (Settles lens') (cacheStore lens name payload v) := by
    refine evolves_bind evolves_get fun fs => ?_
    refine evolves_ite (fun _ => evolves_pure _) fun _ => ?_
    exact evolves_bind (currentTime_settles hl') fun now fs => hset _ fs
  have hresult (result : Except Error α) (v : HttpValidators) :
      Evolves (Settles lens') (cacheHttpResult lens name result v) := by
    cases result with
    | ok a => exact hstore _ _
    | error e => exact evolves_ite (fun _ => hstore _ _) fun _ => evolves_pure _
  have hstale : Evolves (Settles lens') (cacheStaleValue lens name) :=
    evolves_of_state fun fs => by rw [cacheStaleValue_apply]
  refine evolves_bind (cached_settles hl' lens name) fun result => ?_
  cases result with
  | some result => exact evolves_ofExcept _
  | none =>
    refine evolves_bind evolves_get fun fs => ?_
    refine evolves_ite (fun _ => evolves_throw _) fun _ => ?_
    refine evolves_bind hstale fun stale => ?_
    refine evolves_bind (rawRequest_settles hl' transport _ _ _ _) fun response => ?_
    refine evolves_bind evolves_get fun fs => ?_
    dsimp only
    generalize (if response.status = 304 then staleValue missing stale
      else readResponse (parse fs.baseUrl) name response) = read
    cases read
    · exact evolves_bind (hresult _ _) fun _ => evolves_pure _
    · exact evolves_bind (hresult _ _) fun _ => evolves_throw _
    · exact evolves_abort

theorem loadNode_settles (transport : HttpTransport) (name : String) (headers : Headers) :
    Evolves (Settles statCache) (loadNodeWithHeaders transport name headers) :=
  load_settles statCache_lawful (fun _ _ => ⟨rfl, ⟨[], by simp [nodeCache]⟩, fun _ _ h => h⟩) transport _ _ _ _ _ _

theorem loadMetadata_settles (transport : HttpTransport) (name : String) :
    Evolves (Settles nodeCache) (loadMetadata transport name) :=
  load_settles nodeCache_lawful (fun _ _ => ⟨rfl, ⟨[], by simp [statCache]⟩, fun _ _ h => h⟩) transport _ _ _ _ _ _

/-- Both caches are as they should be. -/
def CachesHeld (fs : HttpFs) : Prop := Held nodeCache .node fs ∧ Held statCache .stat fs

theorem CachesHeld.evolves {p : Prog HttpFs Error α} {fs : HttpFs} (h : CachesHeld fs)
    (hnode : Evolves (Settles nodeCache) p) (hstat : Evolves (Settles statCache) p) : CachesHeld (p fs).2 :=
  ⟨h.1.settles (hnode fs), h.2.settles (hstat fs)⟩

theorem unconditional_empty : Unconditional ∅ := ⟨by simp, by simp⟩

theorem unconditional_accept : Unconditional ((∅ : Headers).insert "Accept" "multipart/mixed") := by
  unfold Unconditional
  simp

section
variable {transport : HttpTransport} {fs : HttpFs}

theorem loadNode_held (h : CachesHeld fs) (name : String) {headers : Headers} (hu : Unconditional headers)
    (hr : LoadMeets transport nodeCache .node name headers 1 fs) :
    CachesHeld (loadNodeWithHeaders transport name headers fs).2 :=
  ⟨load_held nodeCache_lawful h.1 _ _ name hu hr, h.2.settles (loadNode_settles transport name headers fs)⟩

theorem loadMetadata_held (h : CachesHeld fs) (name : String) (hr : LoadMeets transport statCache .stat name ∅ 1 fs) :
    CachesHeld (loadMetadata transport name fs).2 :=
  ⟨h.1.settles (loadMetadata_settles transport name fs), load_held statCache_lawful h.2 _ _ name unconditional_empty hr⟩

theorem open_held (h : CachesHeld fs) (ctx : FsContext) (name : String)
    (hr : validPath name = true → LoadMeets transport nodeCache .node (cleanPath name) ∅ 1 fs) :
    CachesHeld (open_ transport ctx name fs).2 := by
  unfold open_
  rw [branch_apply]
  split
  · exact h
  · rename_i hvalid
    rw [bind_state fun _ _ => rfl]
    exact loadNode_held h (cleanPath name) unconditional_empty (hr (by simpa using hvalid))

theorem stat_held (h : CachesHeld fs) (ctx : FsContext) (name : String)
    (hr : validPath name = true → LoadMeets transport statCache .stat (cleanPath name) ∅ 1 fs) :
    CachesHeld (stat transport ctx name fs).2 := by
  unfold stat
  rw [branch_apply]
  split
  · exact h
  · rename_i hvalid
    exact loadMetadata_held h (cleanPath name) (hr (by simpa using hvalid))

theorem readlink_held (h : CachesHeld fs) (name : String) (hr : LoadMeets transport nodeCache .node name ∅ 1 fs) :
    CachesHeld (readlink transport name fs).2 := by
  unfold readlink
  rw [bind_state fun node s => ofExcept_state (linkTarget name node) s]
  exact loadNode_held h name unconditional_empty hr

/-- The cache is asked twice before a listing is asked for. -/
theorem readDir_held (h : CachesHeld fs) (ctx : FsContext) (name : String)
    (hr : validPath name = true →
      LoadMeets transport nodeCache .node (cleanPath name) ((∅ : Headers).insert "Accept" "multipart/mixed") 2 fs) :
    CachesHeld (readDir transport ctx name fs).2 := by
  have htick : CachesHeld (tick fs) := ⟨held_tick nodeCache_lawful h.1, held_tick statCache_lawful h.2⟩
  unfold readDir
  rw [branch_apply]
  split
  · exact h
  · rename_i hvalid
    rw [bind_ok (cached_apply nodeCache_lawful _ fs)]
    cases hfound : found nodeCache (cleanPath name) fs with
    | some result =>
      dsimp only
      rw [bind_state fun node s => ofExcept_state (listNode (cleanPath name) node) s]
      cases result <;> exact htick
    | none =>
      dsimp only
      rw [bind_state fun node s => ofExcept_state (listNode (cleanPath name) node) s]
      refine loadNode_held htick _ unconditional_accept fun hlapsed hignore => ?_
      refine revalidates_tick nodeCache_lawful (hr (by simpa using hvalid) ?_ hignore)
      intro entry hentry i hi
      rcases Nat.lt_succ_iff_lt_or_eq.mp hi with hi | rfl
      · obtain rfl : i = 0 := by omega
        exact lapsed_of_found_none hfound entry hentry
      · exact hlapsed entry hentry 0 (by omega)

theorem readFile_held (h : CachesHeld fs) (name : String)
    (hr : validPath name = true → LoadMeets transport nodeCache .node (cleanPath name) ∅ 1 fs) :
    CachesHeld (readFile transport name fs).2 := by
  have hread : (readFile transport name fs).2 = (open_ transport (FsContext.new.withOrigin name "open") name fs).2 :=
    bind_state (fun handle s => by cases handle <;> rfl) fs
  rw [hread]
  exact open_held h _ name hr

/-- The name whose node a call that opens a file asks for. -/
def openFileReads (name : String) (flags : OpenFlags) : Option String :=
  if !flags.isWrite then (if validPath name then some (cleanPath name) else none)
  else if flags.contains .trunc || flags.contains .create then none
  else if validPath (cleanPath name) then some (cleanPath (cleanPath name)) else none

theorem openFile_held (h : CachesHeld fs) (name : String) (flags : OpenFlags) (perm : FileMode)
    (hr : ∀ path ∈ openFileReads name flags, LoadMeets transport nodeCache .node path ∅ 1 fs) :
    CachesHeld (openFile transport name flags perm fs).2 := by
  unfold openFileReads at hr
  unfold openFile
  rw [branch_apply]
  split
  · rename_i hread
    rw [if_pos hread] at hr
    exact open_held h _ name fun hvalid => hr _ (by simp [hvalid])
  · rename_i hwrite
    rw [if_neg hwrite] at hr
    dsimp only
    rw [bind_state fun _ _ => rfl]
    unfold writeBase
    rw [branch_apply]
    split
    · exact h
    · rename_i hkeep
      rw [if_neg hkeep] at hr
      rw [bind_state fun result s => by cases result <;> rfl, attempt_state]
      exact readFile_held h (cleanPath name) fun hvalid => hr _ (by simp [hvalid])

theorem create_held (h : CachesHeld fs) (name : String) : CachesHeld (create transport name fs).2 :=
  openFile_held h name _ _ fun path hpath => by
    rw [show openFileReads name (.wronly ||| .create ||| .trunc) = none from rfl] at hpath
    cases hpath

theorem cacheHttpResult_exchanges {lens : CacheLens α} (hl : lens.Lawful) (name : String) (result : Except Error α)
    (v : HttpValidators) (fs : HttpFs) : (cacheHttpResult lens name result v fs).2.exchanges = fs.exchanges := by
  have hstore (payload : HttpFsCachePayload α) (v : HttpValidators) :
      (cacheStore lens name payload v fs).2.exchanges = fs.exchanges := by
    unfold cacheStore
    rw [get_bind, branch_apply]
    split
    · rfl
    · exact hl.exchanges_set _ _
  unfold cacheHttpResult
  cases result with
  | ok a => exact hstore _ _
  | error e =>
    dsimp only
    rw [branch_apply]
    split
    · exact hstore _ _
    · rfl

/-- A load that was answered with 304 returns what it had asked about. -/
theorem load_confirms {lens : CacheLens α} (hl : lens.Lawful) {source : HttpSource α} (h : Held lens source fs)
    {op missing name : String} {headers : Headers} (hu : Unconditional headers) {a : α} {x : Exchange}
    {response : HttpResponse} {fs' : HttpFs}
    (hload : load transport lens source.method op (source.parse name) missing name headers fs = (.ok a, fs'))
    (hexchanges : fs'.exchanges = fs.exchanges ++ [x]) (hx : x.answer = .ok response) (hstatus : response.status = 304) :
    ∃ u, Conditional x.request u ∧
      ∀ denotes, Denotation source fs.baseUrl name denotes fs.exchanges → denotes u a := by
  rw [load_apply hl] at hload
  cases hfound : found lens name fs with
  | some result =>
    rw [hfound] at hload
    obtain ⟨-, rfl⟩ := ofExcept_eq_ok.mp hload
    exact absurd hexchanges (by simp [tick])
  | none =>
    rw [hfound] at hload
    dsimp only at hload
    split at hload
    · cases hload
    · rw [revalidate_apply, staleEntry_tick hl] at hload
      dsimp only at hload
      generalize hrequest : loadRequest source (staleEntry lens name fs) name headers (tick fs) = request at hload
      cases hanswer : transport (tick fs).exchanges request with
      | error e =>
        rw [hanswer] at hload
        cases hload
      | ok answer =>
        rw [hanswer] at hload
        dsimp only at hload
        cases hresult : (if answer.status = 304 then staleValue missing (staleEntry lens name fs)
          else readResponse (source.parse name (tick fs).baseUrl) name answer) with
        | err e =>
          rw [hresult] at hload
          cases hload
        | abort =>
          rw [hresult] at hload
          cases hload
        | ok b =>
          rw [hresult] at hload
          cases hload
          rw [cacheHttpResult_exchanges hl] at hexchanges
          have hxeq : x = ⟨request, .ok answer⟩ := by
            have hlast : fs.exchanges ++ [⟨request, transport (tick fs).exchanges request⟩] = fs.exchanges ++ [x] :=
              hexchanges
            rw [hanswer] at hlast
            simpa using hlast.symm
          subst hxeq
          cases hx
          rw [if_pos hstatus] at hresult
          cases hstale : staleEntry lens name fs with
          | none =>
            rw [hstale] at hresult
            cases hresult
          | some entry =>
            obtain ⟨hentry, c, hc⟩ := of_staleEntry hstale
            rw [hstale] at hresult hrequest
            have hcarried := h name entry c hentry hc
            cases entry with
            | mk payload expiresAt validators =>
              dsimp only at hc
              subst hc
              cases hresult
              refine ⟨validators, ?_, fun denotes hd => hcarried.denotes hd⟩
              subst hrequest
              exact loadRequest_conditional source hu (tick fs)

theorem CachesHeld.validatorsBelong (h : CachesHeld fs) : ValidatorsBelong transport fs where
  node := h.1
  stat := h.2
  confirmsNode _ _ _ _ _ _ hu := load_confirms nodeCache_lawful h.1 hu
  confirmsStat _ _ _ _ _ _ _ := load_confirms statCache_lawful h.2 unconditional_empty

end

end HttpFs

/-! ## Runs -/

namespace HttpWorld
open HttpFs
variable (transport : HttpTransport)

/-- What a step may ask of the server. A value that comes without validators, in
answer to a request that carries some, is the value that was known before. -/
def RevalidateStep (w : HttpWorld) : HttpOp → Prop
  | .open_ _ name => validPath name = true → LoadMeets transport nodeCache .node (cleanPath name) ∅ 1 w.fs
  | .stat _ name => validPath name = true → LoadMeets transport statCache .stat (cleanPath name) ∅ 1 w.fs
  | .readDir _ name => validPath name = true →
    LoadMeets transport nodeCache .node (cleanPath name) ((∅ : Headers).insert "Accept" "multipart/mixed") 2 w.fs
  | .readlink name => LoadMeets transport nodeCache .node name ∅ 1 w.fs
  | .openFile name flags _ => ∀ path ∈ openFileReads name flags, LoadMeets transport nodeCache .node path ∅ 1 w.fs
  | _ => True

variable {transport}

instance (w : HttpWorld) : ∀ op, Decidable (RevalidateStep transport w op)
  | .open_ _ name =>
    inferInstanceAs (Decidable (validPath name = true → LoadMeets transport nodeCache .node (cleanPath name) ∅ 1 w.fs))
  | .stat _ name =>
    inferInstanceAs (Decidable (validPath name = true → LoadMeets transport statCache .stat (cleanPath name) ∅ 1 w.fs))
  | .readDir _ name => inferInstanceAs (Decidable (validPath name = true →
    LoadMeets transport nodeCache .node (cleanPath name) ((∅ : Headers).insert "Accept" "multipart/mixed") 2 w.fs))
  | .readlink name => inferInstanceAs (Decidable (LoadMeets transport nodeCache .node name ∅ 1 w.fs))
  | .openFile name flags _ => inferInstanceAs (Decidable (∀ path ∈ openFileReads name flags,
    LoadMeets transport nodeCache .node path ∅ 1 w.fs))
  | .create _ | .mkdir _ _ | .remove _ | .rename _ _ | .symlink _ _ | .patchTar _ _ | .setCacheTtl _ | .ignore _
  | .write _ _ | .writeAt _ _ _ | .seek _ _ | .close _ => isTrue trivial

theorem call_held {α : Type} {p : Prog HttpFs Error α} {w : HttpWorld} (h : CachesHeld (p w.fs).2) :
    CachesHeld (w.call p).fs := h

theorem opens_held {p : Prog HttpFs Error HttpHandle} {w : HttpWorld} (h : CachesHeld (p w.fs).2) :
    CachesHeld (w.opens p).fs := by
  unfold opens
  rcases hp : p w.fs with ⟨handle | e | _, fs⟩ <;> rw [hp] at h <;> exact h

theorem onFile_held {α : Type} {p : Prog (HttpWriteFile × HttpFs) Error α} {w : HttpWorld} (file : Nat)
    (h : CachesHeld w.fs) (hp : ∀ f, CachesHeld (p (f, w.fs)).2.2) : CachesHeld (w.onFile p file).fs := by
  unfold onFile
  split
  · exact hp _
  · exact h

theorem close_held {fs : HttpFs} (h : CachesHeld fs) (f : HttpWriteFile) :
    CachesHeld (HttpWriteFile.close transport (f, fs)).2.2 := by
  have hput := h.evolves (putNode_settles nodeCache_lawful transport f.path "application/octet-stream" f.metadata.mode f.data)
    (putNode_settles statCache_lawful transport f.path "application/octet-stream" f.metadata.mode f.data)
  unfold HttpWriteFile.close
  dsimp only
  split
  · exact h
  · rcases hp : putNode transport f.path "application/octet-stream" f.metadata.mode f.data fs with ⟨_ | e | _, fs'⟩ <;>
      rw [hp] at hput <;> exact hput

theorem write_fs (data : Bytes) (f : HttpWriteFile) (fs : HttpFs) : (HttpWriteFile.write data (f, fs)).2.2 = fs := by
  unfold HttpWriteFile.write
  dsimp only
  split
  · rfl
  · split <;> rfl

theorem seek_fs (pos : SeekFrom) (f : HttpWriteFile) (fs : HttpFs) : (HttpWriteFile.seek pos (f, fs)).2.2 = fs := by
  unfold HttpWriteFile.seek
  cases pos <;> dsimp only <;> split <;> rfl

theorem step_held {w : HttpWorld} {op : HttpOp} (h : CachesHeld w.fs) (hop : RevalidateStep transport w op) :
    CachesHeld (w.step transport op).fs := by
  cases op with
  | open_ ctx name => exact opens_held (open_held h ctx name hop)
  | stat ctx name => exact call_held (stat_held h ctx name hop)
  | readDir ctx name => exact call_held (readDir_held h ctx name hop)
  | readlink name => exact call_held (readlink_held h name hop)
  | openFile name flags perm => exact opens_held (openFile_held h name flags perm hop)
  | create name => exact opens_held (create_held h name)
  | mkdir name perm =>
    exact call_held (h.evolves (putNode_settles nodeCache_lawful transport _ _ _ _) (putNode_settles statCache_lawful transport _ _ _ _))
  | remove name =>
    exact call_held (h.evolves (remove_settles nodeCache_lawful transport name) (remove_settles statCache_lawful transport name))
  | rename old new =>
    exact call_held (h.evolves (rename_settles nodeCache_lawful transport old new) (rename_settles statCache_lawful transport old new))
  | symlink old new =>
    exact call_held (h.evolves (putNode_settles nodeCache_lawful transport _ _ _ _) (putNode_settles statCache_lawful transport _ _ _ _))
  | patchTar name body =>
    exact call_held (h.evolves (patchTar_settles nodeCache_lawful transport name body) (patchTar_settles statCache_lawful transport name body))
  | setCacheTtl ttl =>
    exact call_held (h.evolves (setCacheTtl_settles nodeCache_lawful ttl) (setCacheTtl_settles statCache_lawful ttl))
  | ignore names =>
    exact call_held (h.evolves (ignore_settles nodeCache_lawful names) (ignore_settles statCache_lawful names))
  | write file data => exact onFile_held file h fun f => by rw [write_fs]; exact h
  | writeAt file data offset => exact onFile_held file h fun f => (write_fs data _ w.fs).symm ▸ h
  | seek file pos => exact onFile_held file h fun f => by rw [seek_fs]; exact h
  | close file => exact onFile_held file h (close_held h)

theorem mount_held (baseUrl : String) (ttl : Nat) (clock : Nat → SystemTime) : CachesHeld (mount baseUrl ttl clock).fs :=
  ⟨fun _ _ _ h => by simp [mount, withCacheTtl, nodeCache] at h, fun _ _ _ h => by simp [mount, withCacheTtl, statCache] at h⟩

variable (transport) in
/-- In a run in which no value comes without validators to replace another one that
has them, every value is kept with validators that belong to it, and a 304 returns
what its validators denote. -/
theorem run_validatorsBelong (baseUrl : String) (ttl : Nat) (clock : Nat → SystemTime) (ops : List HttpOp)
    (h : StepsMeet (step transport) (RevalidateStep transport) (mount baseUrl ttl clock) ops) (k : Nat) :
    ValidatorsBelong transport (run (step transport) (mount baseUrl ttl clock) (ops.take k)).fs := by
  have hheld : CachesHeld (run (step transport) (mount baseUrl ttl clock) (ops.take k)).fs :=
    run_invariant (I := fun w => CachesHeld w.fs) (fun _ _ hs hop => step_held hs hop) (mount_held baseUrl ttl clock) (h.take k)
  exact hheld.validatorsBelong

/-- A server that gives its answers in turn. -/
def inTurn (answers : List HttpResponse) : HttpTransport := fun exchanges _ =>
  match answers[exchanges.length]? with
  | some response => .ok response
  | none => .error (.kind .other)

def answer (status : UInt16) (headers : Headers) (body : Bytes) : HttpResponse := { status, headers, body }

def tagged (etag : String) : Headers := (∅ : Headers).insert "ETag" etag

/-- Each entry has run out when the clock is read next. -/
def brief : HttpWorld := mount "http://h" 1 fun i => 10 * i

/-- A tagged value, the same value confirmed under another tag, and a new value with a tag of its own. -/
def taggedAnswers : HttpTransport :=
  inTurn [answer 200 (tagged "x") [65], answer 304 (tagged "y") [], answer 200 (tagged "z") [66], answer 404 ∅ []]

def readRun : List HttpOp := [.open_ FsContext.new "f", .open_ FsContext.new "f", .readDir FsContext.new "f", .stat FsContext.new "f"]

theorem run_validatorsBelong_readRun :
    StepsMeet (step taggedAnswers) (RevalidateStep taggedAnswers) brief readRun ∧
    ValidatorsBelong taggedAnswers (run (step taggedAnswers) brief (readRun.take 4)).fs := by
  have h : StepsMeet (step taggedAnswers) (RevalidateStep taggedAnswers) brief readRun := by decide +kernel
  exact ⟨h, run_validatorsBelong taggedAnswers _ _ _ _ h 4⟩

/-- The second value comes without validators and is kept with those of the first. -/
def untaggedAnswers : HttpTransport := inTurn [answer 200 (tagged "x") [65], answer 200 ∅ [66]]

def untaggedRun : HttpWorld :=
  run (step untaggedAnswers) brief [.open_ FsContext.new "f", .open_ FsContext.new "f"]

theorem untaggedRun_node : (untaggedRun.fs.cache.node["f"]?).map (fun entry => (entry.validators, entry.payload)) =
    some (⟨some "x", none⟩, .value ⟨Metadata.file "f" 0o644 1, [66], []⟩) := by
  decide +kernel

/-- The answer supplies the first body under the first tag, or none of this tag. -/
def suppliesFirst (x : Exchange) : Bool :=
  match x.answer with
  | .ok response => match readResponse (HttpSource.node.parse "f" untaggedRun.fs.baseUrl) "f" response with
    | .ok node => decide ((validatorsFromHeaders response.headers).etag = some "x" → node.body = [65])
    | _ => true
  | .error _ => true

def confirmsNothing (x : Exchange) : Bool :=
  match x.answer with
  | .ok response => response.status != 304
  | .error _ => true

theorem untaggedRun_denotation : Denotation .node untaggedRun.fs.baseUrl "f"
    (fun v node => v.etag = some "x" → node.body = [65]) untaggedRun.fs.exchanges := by
  have hsupplied : untaggedRun.fs.exchanges.all suppliesFirst = true := by
    decide +kernel
  have hconfirmed : untaggedRun.fs.exchanges.all confirmsNothing = true := by
    decide +kernel
  constructor
  · intro x hx response node hasked hread
    have hfirst := List.all_eq_true.mp hsupplied x hx
    rw [suppliesFirst, hasked.answer] at hfirst
    dsimp only at hfirst
    rw [hread] at hfirst
    exact of_decide_eq_true hfirst
  · intro x hx response u a hasked _ hstatus
    have hnone := List.all_eq_true.mp hconfirmed x hx
    rw [confirmsNothing, hasked.answer] at hnone
    simp [hstatus] at hnone

theorem run_not_validatorsBelong : ¬ ∀ (transport : HttpTransport) (baseUrl : String) (ttl : Nat)
    (clock : Nat → SystemTime) (ops : List HttpOp),
    ValidatorsBelong transport (run (step transport) (mount baseUrl ttl clock) ops).fs := by
  intro h
  have hnode := (h untaggedAnswers "http://h" 1 (fun i => 10 * i) [.open_ FsContext.new "f", .open_ FsContext.new "f"]).node
  obtain ⟨entry, hentry, hpair⟩ := Option.map_eq_some_iff.mp untaggedRun_node
  obtain ⟨hvalidators, hpayload⟩ := Prod.mk.inj hpair
  have hcarried := hnode "f" entry _ hentry hpayload
  have hbody := hcarried.denotes untaggedRun_denotation (by rw [hvalidators])
  revert hbody
  decide

end HttpWorld
end Star9
