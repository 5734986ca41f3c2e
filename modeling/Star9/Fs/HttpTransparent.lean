import Star9.Fs.HttpValid

/-!
# What the cache of the HTTP file system changes

A server that never changes answers a request the same way whenever it is asked.
Without a cache every call then has one answer. A node is cached under its name
alone, whichever way it was asked for, so a call may get what another kind of
request brought; the cache is transparent exactly when that makes no difference.
-/
namespace Star9
open Base Prog

inductive HttpRead where
  | open_ (ctx : FsContext) (name : String)
  | stat (ctx : FsContext) (name : String)
  | readDir (ctx : FsContext) (name : String)
  | readlink (name : String)

inductive HttpReply where
  | handle (handle : HttpHandle)
  | metadata (metadata : Metadata)
  | entries (entries : List DirEntry)
  | target (target : String)
  deriving DecidableEq

abbrev HttpServer := HttpRequest → Except Error HttpResponse

namespace HttpRead

def run (server : HttpServer) : HttpRead → Prog HttpFs Error HttpReply
  | .open_ ctx name => HttpReply.handle <$> HttpFs.open_ (fun _ => server) ctx name
  | .stat ctx name => HttpReply.metadata <$> HttpFs.stat (fun _ => server) ctx name
  | .readDir ctx name => HttpReply.entries <$> HttpFs.readDir (fun _ => server) ctx name
  | .readlink name => HttpReply.target <$> HttpFs.readlink (fun _ => server) name

def replies (server : HttpServer) : HttpFs → List HttpRead → List (Outcome Error HttpReply)
  | _, [] => []
  | fs, read :: reads => (read.run server fs).1 :: replies server (read.run server fs).2 reads

end HttpRead

/-- What is asked for does not change: without a condition it is always sent, and
a condition brings at most the answer that it is what was known. -/
structure DescribesTree (server : HttpServer) : Prop where
  sent : ∀ request, HttpFs.Unconditional request.headers → ∀ response, server request = .ok response →
    response.status ≠ 304
  revalidated : ∀ request v, HttpFs.Unconditional request.headers →
    (∃ response, server { request with headers := addValidatorHeaders request.headers v } = .ok response ∧
      response.status = 304) ∨
    server { request with headers := addValidatorHeaders request.headers v } = server request

namespace HttpFs
variable {α : Type}

def acceptMultipart : Headers := (∅ : Headers).insert "Accept" "multipart/mixed"

section
variable (server : HttpServer) (source : HttpSource α) (baseUrl : String)

def plainRequest (headers : Headers) (name : String) : HttpRequest :=
  { method := source.method, url := baseUrl ++ normalizeHttpPath name, headers, body := [] }

/-- What a load gets from the server when nothing is known. -/
def fetched (headers : Headers) (name : String) : Outcome Error α :=
  match server (plainRequest source baseUrl headers name) with
  | .error e => .err e
  | .ok response => readResponse (source.parse name baseUrl) name response

def payloadOf : Outcome Error α → Option (HttpFsCachePayload α)
  | .ok a => some (.value a)
  | .err e => if e.errorKind = .notFound then some .notFound else none
  | .abort => none

/-- What such a load leaves in the cache. -/
def cacheable (headers : Headers) (name : String) : Option (HttpFsCachePayload α) :=
  match server (plainRequest source baseUrl headers name) with
  | .error _ => none
  | .ok response => payloadOf (readResponse (source.parse name baseUrl) name response)

end

def payloadOutcome (name : String) : HttpFsCachePayload α → Outcome Error α
  | .value a => .ok a
  | .notFound => .err (.path "httpfs" name .notFound)

/-- A response that cannot be read is not taken for one that says the file is missing. -/
def ReadsPlainly (source : HttpSource α) : Prop :=
  ∀ name baseUrl response e, source.parse name baseUrl response = .err e → e.errorKind ≠ .notFound

theorem readResponse_notFound {source : HttpSource α} (hs : ReadsPlainly source) {baseUrl name : String}
    {response : HttpResponse} {e : Error} (h : readResponse (source.parse name baseUrl) name response = .err e)
    (he : e.errorKind = .notFound) : e = .path "httpfs" name .notFound := by
  unfold readResponse responseStatusResult at h
  split at h
  · exact absurd he (hs _ _ _ _ h)
  · rename_i err herr
    cases h
    split at herr
    · cases herr
    · split at herr
      · cases herr
        rfl
      · cases herr
        cases he

/-- A cached answer is the one that was fetched. -/
theorem fetched_of_cacheable {server : HttpServer} {source : HttpSource α} (hs : ReadsPlainly source)
    {baseUrl name : String} {headers : Headers} {payload : HttpFsCachePayload α}
    (h : cacheable server source baseUrl headers name = some payload) :
    fetched server source baseUrl headers name = payloadOutcome name payload := by
  unfold cacheable at h
  unfold fetched
  cases hserver : server (plainRequest source baseUrl headers name) with
  | error e =>
    rw [hserver] at h
    cases h
  | ok response =>
    rw [hserver] at h
    dsimp only at h ⊢
    cases hread : readResponse (source.parse name baseUrl) name response with
    | ok a =>
      rw [hread] at h
      cases h
      rfl
    | abort =>
      rw [hread] at h
      cases h
    | err e =>
      rw [hread] at h
      simp only [payloadOf] at h
      split at h
      · rename_i he
        cases h
        rw [readResponse_notFound hs hread he]
        rfl
      · cases h

/-! ## Loading from an unchanging server -/

/-- Every entry was fetched with one of the shapes of request that its name allows. -/
def Sourced (server : HttpServer) (source : HttpSource α) (lens : CacheLens α) (shapes : String → Set Headers)
    (fs : HttpFs) : Prop :=
  ∀ (name : String) (entry : HttpFsCacheEntry α), (lens.get fs)[name]? = some entry →
    fs.shouldIgnore name = false ∧
    ∃ headers ∈ shapes name, cacheable server source fs.baseUrl headers name = some entry.payload

/-- What a load may return: what it fetches itself, or what another shape of request had left. -/
def Loads (server : HttpServer) (source : HttpSource α) (shapes : String → Set Headers) (baseUrl : String)
    (headers : Headers) (name : String) (o : Outcome Error α) : Prop :=
  o = fetched server source baseUrl headers name ∨
  ∃ other ∈ shapes name, (cacheable server source baseUrl other name).isSome = true ∧
    o = fetched server source baseUrl other name

section
variable {server : HttpServer} {source : HttpSource α} {lens : CacheLens α} {shapes : String → Set Headers}
  {fs : HttpFs} {name : String} {headers : Headers}

theorem Sourced.loads (hs : ReadsPlainly source) (h : Sourced server source lens shapes fs) {entry : HttpFsCacheEntry α}
    (hentry : (lens.get fs)[name]? = some entry) :
    Loads server source shapes fs.baseUrl headers name (payloadOutcome name entry.payload) := by
  obtain ⟨-, other, hother, hcacheable⟩ := h name entry hentry
  exact .inr ⟨other, hother, by rw [hcacheable]; rfl, (fetched_of_cacheable hs hcacheable).symm⟩

theorem found_eq_some {result : Except Error α} (h : found lens name fs = some result) (s : HttpFs) :
    ∃ entry, (lens.get fs)[name]? = some entry ∧ ofExcept result s = (payloadOutcome name entry.payload, s) := by
  unfold found at h
  cases hentry : (lens.get fs)[name]? with
  | none =>
    rw [hentry] at h
    cases h
  | some entry =>
    rw [hentry] at h
    dsimp only at h
    split at h
    · cases hpayload : entry.payload <;> rw [hpayload] at h <;> cases h <;> exact ⟨entry, rfl, by rw [hpayload]; rfl⟩
    · cases h

/-- The answer to a request comes from what was asked, or from what was known. -/
theorem answer_cases (hd : DescribesTree server) (hu : Unconditional headers) (stale : Option (HttpFsCacheEntry α))
    {response : HttpResponse} (h : server (loadRequest source stale name headers fs) = .ok response) :
    (response.status = 304 ∧ ∃ entry, stale = some entry) ∨
    (response.status ≠ 304 ∧ server (plainRequest source fs.baseUrl headers name) = .ok response) := by
  have hplain : loadRequest source none name headers fs = plainRequest source fs.baseUrl headers name := rfl
  cases stale with
  | none =>
    rw [hplain] at h
    exact .inr ⟨hd.sent _ hu _ h, h⟩
  | some entry =>
    rcases hd.revalidated (plainRequest source fs.baseUrl headers name) entry.validators hu with
      ⟨response', hresponse', hstatus⟩ | hsame
    · have heq : Except.ok response' = Except.ok response := hresponse'.symm.trans h
      cases heq
      exact .inl ⟨hstatus, entry, rfl⟩
    · have hanswer := hsame.symm.trans h
      exact .inr ⟨hd.sent _ hu _ hanswer, hanswer⟩

theorem answer_error (hd : DescribesTree server) (hu : Unconditional headers) (stale : Option (HttpFsCacheEntry α))
    {e : Error} (h : server (loadRequest source stale name headers fs) = .error e) :
    server (plainRequest source fs.baseUrl headers name) = .error e := by
  cases stale with
  | none => exact h
  | some entry =>
    rcases hd.revalidated (plainRequest source fs.baseUrl headers name) entry.validators hu with
      ⟨response', hresponse', hstatus⟩ | hsame
    · have heq : Except.ok response' = Except.error e := hresponse'.symm.trans h
      cases heq
    · exact hsame.symm.trans h

theorem cacheStore_sourced (hl : lens.Lawful) (h : Sourced server source lens shapes fs)
    {payload : HttpFsCachePayload α} {v : HttpValidators} (hignore : fs.shouldIgnore name = false)
    (hpayload : fs.cache.ttl ≠ 0 → ∃ headers ∈ shapes name, cacheable server source fs.baseUrl headers name = some payload) :
    Sourced server source lens shapes (cacheStore lens name payload v fs).2 := by
  unfold cacheStore
  rw [get_bind, branch_apply]
  split
  · exact h
  · rename_i httl
    intro key entry hentry
    change (lens.get (lens.set _ _))[key]? = some entry at hentry
    rw [hl.get_set, Std.ExtTreeMap.getElem?_insert] at hentry
    change shouldIgnore (lens.set _ _) key = false ∧
      ∃ headers ∈ shapes key, cacheable server source (lens.set _ _).baseUrl headers key = some entry.payload
    rw [shouldIgnore, hl.ignores_set, hl.baseUrl_set]
    split at hentry
    · rename_i hkey
      obtain rfl : name = key := by simpa using hkey
      cases hentry
      exact ⟨hignore, hpayload httl⟩
    · exact h key entry ((currentTime_settles hl fs).entries key entry hentry)

/-- What is stored for a name was fetched for it. -/
theorem cacheHttpResult_sourced (hl : lens.Lawful) (h : Sourced server source lens shapes fs) {result : Except Error α}
    {v : HttpValidators} (hignore : fs.shouldIgnore name = false)
    (hresult : fs.cache.ttl ≠ 0 → ∀ payload, payloadOf (match result with | .ok a => .ok a | .error e => .err e) = some payload →
      ∃ headers ∈ shapes name, cacheable server source fs.baseUrl headers name = some payload) :
    Sourced server source lens shapes (cacheHttpResult lens name result v fs).2 := by
  unfold cacheHttpResult
  cases result with
  | ok a => exact cacheStore_sourced hl h hignore fun httl => hresult httl _ rfl
  | error e =>
    dsimp only
    rw [branch_apply]
    split
    · rename_i he
      exact cacheStore_sourced hl h hignore fun httl => hresult httl _ (if_pos he)
    · exact h

theorem afterRequest_sourced (h : Sourced server source lens shapes fs) (hl : lens.Lawful) (transport : HttpTransport)
    (request : HttpRequest) : Sourced server source lens shapes (afterRequest transport request fs) :=
  fun key entry hentry => h key entry ((afterRequest_settles hl transport request fs).entries key entry hentry)

theorem revalidate_sourced (hl : lens.Lawful) (hs : ReadsPlainly source) (hd : DescribesTree server)
    (hu : Unconditional headers) (h : Sourced server source lens shapes fs) (hignore : fs.shouldIgnore name = false)
    (hshape : fs.cache.ttl ≠ 0 → headers ∈ shapes name) (missing : String) :
    Loads server source shapes fs.baseUrl headers name
      (revalidate (fun _ => server) lens source.method (source.parse name) missing name headers fs).1 ∧
    Sourced server source lens shapes
      (revalidate (fun _ => server) lens source.method (source.parse name) missing name headers fs).2 := by
  have hafter (request : HttpRequest) := afterRequest_sourced h hl (fun _ => server) request
  rw [revalidate_apply]
  dsimp only
  cases hanswer : server (loadRequest source (staleEntry lens name fs) name headers fs) with
  | error e =>
    refine ⟨.inl ?_, hafter _⟩
    unfold fetched
    rw [answer_error hd hu _ hanswer]
  | ok response =>
    dsimp only
    rcases answer_cases hd hu _ hanswer with ⟨hstatus, entry, hstale⟩ | ⟨hstatus, hplain⟩
    · obtain ⟨hentry, a, ha⟩ := of_staleEntry hstale
      obtain ⟨-, other, hother, hcacheable⟩ := h name entry hentry
      have hvalue : staleValue missing (staleEntry lens name fs) = .ok a := by
        rw [hstale]
        cases entry with
        | mk payload expiresAt validators =>
          dsimp only at ha
          subst ha
          rfl
      have hloads : Loads server source shapes fs.baseUrl headers name (payloadOutcome name entry.payload) :=
        h.loads hs hentry
      rw [if_pos hstatus, hvalue]
      rw [ha] at hloads hcacheable
      refine ⟨hloads, cacheHttpResult_sourced hl (hafter _) hignore fun _ payload hpayload => ?_⟩
      cases hpayload
      exact ⟨other, hother, hcacheable⟩
    · have hfetched : fetched server source fs.baseUrl headers name =
          readResponse (source.parse name fs.baseUrl) name response := by
        unfold fetched
        rw [hplain]
      have hcacheable : cacheable server source fs.baseUrl headers name =
          payloadOf (readResponse (source.parse name fs.baseUrl) name response) := by
        unfold cacheable
        rw [hplain]
      rw [if_neg hstatus]
      cases hread : readResponse (source.parse name fs.baseUrl) name response with
      | abort => exact ⟨.inl (by rw [hfetched, hread]), hafter _⟩
      | ok a =>
        refine ⟨.inl (by rw [hfetched, hread]), cacheHttpResult_sourced hl (hafter _) hignore fun httl payload hpayload => ?_⟩
        exact ⟨headers, hshape httl, hcacheable.trans (by rw [hread]; exact hpayload)⟩
      | err e =>
        refine ⟨.inl (by rw [hfetched, hread]), cacheHttpResult_sourced hl (hafter _) hignore fun httl payload hpayload => ?_⟩
        exact ⟨headers, hshape httl, hcacheable.trans (by rw [hread]; exact hpayload)⟩

theorem tick_sourced (h : Sourced server source lens shapes fs) (hl : lens.Lawful) :
    Sourced server source lens shapes (tick fs) :=
  fun key entry hentry => h key entry ((currentTime_settles hl fs).entries key entry hentry)

/-- A load of an ignored name fails; another one returns something that was fetched. -/
theorem load_sourced (hl : lens.Lawful) (hs : ReadsPlainly source) (hd : DescribesTree server)
    (hu : Unconditional headers) (h : Sourced server source lens shapes fs)
    (hshape : fs.cache.ttl ≠ 0 → headers ∈ shapes name) (op missing : String) :
    (if fs.shouldIgnore name then
      (load (fun _ => server) lens source.method op (source.parse name) missing name headers fs).1 =
        .err (.path op name .notFound)
    else Loads server source shapes fs.baseUrl headers name
      (load (fun _ => server) lens source.method op (source.parse name) missing name headers fs).1) ∧
    Sourced server source lens shapes
      (load (fun _ => server) lens source.method op (source.parse name) missing name headers fs).2 := by
  rw [load_apply hl]
  cases hfound : found lens name fs with
  | some result =>
    obtain ⟨entry, hentry, hresult⟩ := found_eq_some hfound (tick fs)
    dsimp only
    rw [hresult, if_neg (by rw [(h name entry hentry).1]; exact Bool.false_ne_true)]
    exact ⟨h.loads hs hentry, tick_sourced h hl⟩
  | none =>
    dsimp only
    split
    · exact ⟨rfl, tick_sourced h hl⟩
    · rename_i hignore
      exact revalidate_sourced hl hs hd hu (tick_sourced h hl) (Bool.eq_false_of_not_eq_true hignore) hshape missing

end

/-! ## Responses that cannot be read -/

theorem parseHttpMetadata_ne_err (name : String) (headers : Headers) (bodyLen : Nat) (e : Error) :
    parseHttpMetadata name headers bodyLen ≠ .err e := by
  have hmodified : ∀ e, parseHttpModified headers ≠ .err e := by
    intro e h
    unfold parseHttpModified epochPlusSecs at h
    split at h
    · split at h <;> cases h
    · cases h
  intro h
  unfold parseHttpMetadata at h
  cases hm : parseHttpModified headers with
  | ok modified =>
    rw [hm] at h
    cases h
  | err e' => exact hmodified e' hm
  | abort =>
    rw [hm] at h
    cases h

theorem multipartPartsFrom_error {body delimiter : Bytes} {n cursor : Nat} {e : Error}
    (h : multipartPartsFrom body delimiter n cursor = .error e) : e.errorKind ≠ .notFound := by
  induction n generalizing cursor e with
  | zero => cases h
  | succ n ih =>
    unfold multipartPartsFrom at h
    split at h
    · cases h
      decide
    · dsimp only at h
      split at h
      · cases h
      · split at h
        · cases h
          decide
        · rename_i start hstart
          cases hheaders : parseHttpPartHeaders body start with
          | error e' =>
            rw [hheaders] at h
            cases h
            unfold parseHttpPartHeaders at hheaders
            split at hheaders
            · cases hheaders
            · cases hheaders
              decide
          | ok part =>
            rw [hheaders] at h
            dsimp only [bind, Except.bind] at h
            split at h
            · cases h
              decide
            · rename_i stop next hnext
              cases hrest : multipartPartsFrom body delimiter n next with
              | error e' =>
                rw [hrest] at h
                cases h
                exact ih hrest
              | ok rest =>
                rw [hrest] at h
                cases h

theorem parseHttpMultipart_error {body : Bytes} {boundary : String} {e : Error}
    (h : parseHttpMultipart body boundary = .error e) : e.errorKind ≠ .notFound := by
  unfold parseHttpMultipart at h
  dsimp only at h
  split at h
  · cases h
    decide
  · exact multipartPartsFrom_error h

theorem multipartSteps_ne_err {baseUrl name : String} {listing : MultipartListing} {parts : List HttpMultipartPart}
    {e : Error} : multipartSteps baseUrl name listing parts ≠ .err e := by
  induction parts generalizing listing with
  | nil => nofun
  | cons part parts ih =>
    unfold multipartSteps multipartStep
    cases multipartPartPath baseUrl part.headers with
    | none => exact ih
    | some partPath =>
      dsimp only
      cases hm : parseHttpMetadata partPath part.headers part.body.length with
      | ok metadata => exact ih
      | err e' => exact absurd hm (parseHttpMetadata_ne_err _ _ _ _)
      | abort => nofun

theorem readsPlainly_stat : ReadsPlainly .stat := fun _ _ _ e h => absurd h (parseHttpMetadata_ne_err _ _ _ e)

theorem readsPlainly_node : ReadsPlainly .node := by
  intro name baseUrl response e h
  change parseNode baseUrl name response = .err e at h
  unfold parseNode at h
  cases hboundary : multipartBoundary response.headers with
  | some boundary =>
    rw [hboundary] at h
    dsimp only [parseMultipartNode] at h
    split at h
    · cases h
      exact parseHttpMultipart_error ‹_›
    · split at h
      · exact absurd ‹_› multipartSteps_ne_err
      · cases h
      · split at h
        · cases h
        · cases h
          nofun
  | none =>
    rw [hboundary] at h
    dsimp only at h
    cases hm : parseHttpMetadata name response.headers response.body.length with
    | ok metadata =>
      rw [hm] at h
      cases h
    | err e' => exact absurd hm (parseHttpMetadata_ne_err _ _ _ _)
    | abort =>
      rw [hm] at h
      cases h

/-! ## Answers without a cache -/

def config (fs : HttpFs) : String × List String × Nat := (fs.baseUrl, fs.ignores, fs.cache.ttl)

theorem load_config {lens : CacheLens α} (hl : lens.Lawful) (transport : HttpTransport) (method : Method) (op : String)
    (parse : String → HttpResponse → Outcome Error α) (missing name : String) (headers : Headers) :
    Preserves config (load transport lens method op parse missing name headers) := by
  have htime : Preserves config currentTime := fun _ => rfl
  have hset (entries : HttpFsEntries α) (fs : HttpFs) : config (lens.set entries fs) = config fs := by
    simp [config, hl.baseUrl_set, hl.ignores_set, hl.ttl_set]
  have hstore (payload : HttpFsCachePayload α) (v : HttpValidators) : Preserves config (cacheStore lens name payload v) := by
    refine preserves_bind preserves_get fun fs => ?_
    refine preserves_ite (preserves_pure _) ?_
    exact preserves_bind htime fun now => preserves_modify fun fs => hset _ fs
  have hresult (result : Except Error α) (v : HttpValidators) : Preserves config (cacheHttpResult lens name result v) := by
    cases result with
    | ok a => exact hstore _ _
    | error e => exact preserves_ite (hstore _ _) (preserves_pure _)
  intro fs
  rw [load_apply hl]
  cases found lens name fs with
  | some result => cases result <;> rfl
  | none =>
    dsimp only
    split
    · rfl
    · refine (preserves_bind (fun s => ?_) fun stale => ?_ : Preserves config (revalidate transport lens method parse missing name headers)) (tick fs)
      · rw [cacheStaleValue_apply]
      · refine preserves_bind (fun s => by rw [show (rawRequest transport method name _ _ s).2 = _ from ofExcept_state _ _]; rfl)
          fun response => ?_
        refine preserves_bind preserves_get fun fs => ?_
        dsimp only
        generalize (if response.status = 304 then staleValue missing stale
          else readResponse (parse fs.baseUrl) name response) = read
        cases read
        · exact preserves_bind (hresult _ _) fun _ => preserves_pure _
        · exact preserves_bind (hresult _ _) fun _ => preserves_throw _
        · exact preserves_abort

/-- A reading of the result that may refuse it. -/
def thenRead {β : Type} (f : α → Except Error β) : Outcome Error α → Outcome Error β
  | .ok a => match f a with
    | .ok b => .ok b
    | .error e => .err e
  | .err e => .err e
  | .abort => .abort

theorem bind_ofExcept_fst {β : Type} (p : Prog HttpFs Error α) (f : α → Except Error β) (fs : HttpFs) :
    ((p >>= fun a => Prog.ofExcept (f a)) fs).1 = thenRead f (p fs).1 := by
  rw [bind_apply]
  rcases p fs with ⟨a | e | _, fs'⟩
  · dsimp only [thenRead]
    cases f a <;> rfl
  · rfl
  · rfl

theorem map_fst {β : Type} (p : Prog HttpFs Error α) (f : α → β) (fs : HttpFs) : ((f <$> p) fs).1 = ((p fs).1).map f := by
  rw [map_apply]
  rcases p fs with ⟨a | e | _, fs'⟩ <;> rfl

theorem map_snd {β : Type} (p : Prog HttpFs Error α) (f : α → β) (fs : HttpFs) : ((f <$> p) fs).2 = (p fs).2 := by
  rw [map_apply]
  rcases p fs with ⟨a | e | _, fs'⟩ <;> rfl

/-! ## Calls in terms of the loads they make -/

theorem run_open (server : HttpServer) (ctx : FsContext) {name : String} (hvalid : validPath name = true) (fs : HttpFs) :
    (HttpRead.open_ ctx name).run server fs =
      (((loadNodeWithHeaders (fun _ => server) (cleanPath name) ∅ fs).1.map openNode).map .handle,
        (loadNodeWithHeaders (fun _ => server) (cleanPath name) ∅ fs).2) := by
  dsimp only [HttpRead.run]
  have hopen : HttpFs.open_ (fun _ => server) ctx name =
      openNode <$> loadNodeWithHeaders (fun _ => server) (cleanPath name) ∅ := by
    unfold HttpFs.open_
    rw [if_neg (by simp [hvalid]), map_eq_pure_bind]
    rfl
  exact Prod.ext (by rw [map_fst, hopen, map_fst]) (by rw [map_snd, hopen, map_snd])

theorem run_readlink (server : HttpServer) (name : String) (fs : HttpFs) :
    (HttpRead.readlink name).run server fs =
      ((thenRead (linkTarget name) (loadNodeWithHeaders (fun _ => server) name ∅ fs).1).map .target,
        (loadNodeWithHeaders (fun _ => server) name ∅ fs).2) := by
  dsimp only [HttpRead.run]
  refine Prod.ext ?_ ?_
  · rw [map_fst, HttpFs.readlink, bind_ofExcept_fst]
    rfl
  · rw [map_snd, HttpFs.readlink, bind_state fun node s => ofExcept_state (linkTarget name node) s]
    rfl

/-- A listing is read from the cache, or asked for after the cache was looked at once. -/
theorem run_readDir (server : HttpServer) (ctx : FsContext) {name : String} (hvalid : validPath name = true) (fs : HttpFs) :
    (HttpRead.readDir ctx name).run server fs =
      let loaded := match found nodeCache (cleanPath name) fs with
        | some result => Prog.ofExcept result (tick fs)
        | none => loadNodeWithHeaders (fun _ => server) (cleanPath name) acceptMultipart (tick fs)
      ((thenRead (listNode (cleanPath name)) loaded.1).map .entries, loaded.2) := by
  dsimp only [HttpRead.run]
  have hread : HttpFs.readDir (fun _ => server) ctx name fs =
      ((match found nodeCache (cleanPath name) fs with
        | some result => Prog.ofExcept result
        | none => loadNodeWithHeaders (fun _ => server) (cleanPath name) acceptMultipart) >>= fun node =>
          Prog.ofExcept (listNode (cleanPath name) node)) (tick fs) := by
    unfold HttpFs.readDir
    rw [if_neg (by simp [hvalid]), bind_ok (cached_apply nodeCache_lawful (cleanPath name) fs)]
    cases found nodeCache (cleanPath name) fs <;> rfl
  refine Prod.ext ?_ ?_
  · rw [map_fst, hread, bind_ofExcept_fst]
    cases found nodeCache (cleanPath name) fs <;> rfl
  · rw [map_snd, hread, bind_state fun node s => ofExcept_state (listNode (cleanPath name) node) s]
    cases found nodeCache (cleanPath name) fs <;> rfl

section
variable (server : HttpServer) (baseUrl : String) (ignores : List String)

def ignored (name : String) : Bool := ignores.any (endsWith name)

def directNode (headers : Headers) (name : String) : Outcome Error HttpNode :=
  if ignored ignores name then .err (.path "open" name .notFound) else fetched server .node baseUrl headers name

def directMetadata (name : String) : Outcome Error Metadata :=
  if ignored ignores name then .err (.path "stat" name .notFound) else fetched server .stat baseUrl ∅ name

/-- The answer to a call when nothing is kept. -/
def directReply : HttpRead → Outcome Error HttpReply
  | .open_ _ name =>
    if !validPath name then .err (.path "open" name .notFound)
    else ((directNode server baseUrl ignores ∅ (cleanPath name)).map openNode).map .handle
  | .stat _ name =>
    if !validPath name then .err (.path "stat" name .notFound)
    else (directMetadata server baseUrl ignores (cleanPath name)).map .metadata
  | .readDir _ name =>
    if !validPath name then .err (.path "readdir" name .notFound)
    else (thenRead (listNode (cleanPath name)) (directNode server baseUrl ignores acceptMultipart (cleanPath name))).map .entries
  | .readlink name => (thenRead (linkTarget name) (directNode server baseUrl ignores ∅ name)).map .target

/-- A name under which a node is looked for as a directory. -/
def IsKey (name : String) : Prop := ∃ path, validPath path = true ∧ cleanPath path = name

/-- What one shape of request leaves in the cache serves the calls that use the other. -/
structure Serves (shapes : String → Set Headers) : Prop where
  plain : ∀ name, ignored ignores name = false → ∀ other ∈ shapes name,
    (cacheable server .node baseUrl other name).isSome = true →
    (fetched server .node baseUrl other name).map openNode = (fetched server .node baseUrl ∅ name).map openNode ∧
    thenRead (linkTarget name) (fetched server .node baseUrl other name) =
      thenRead (linkTarget name) (fetched server .node baseUrl ∅ name)
  listing : ∀ name, IsKey name → ignored ignores name = false → ∀ other ∈ shapes name,
    (cacheable server .node baseUrl other name).isSome = true →
    thenRead (listNode name) (fetched server .node baseUrl other name) =
      thenRead (listNode name) (fetched server .node baseUrl acceptMultipart name)

/-- The state between two calls. -/
structure Mirrors (shapes : String → Set Headers) (ttl : Nat) (fs : HttpFs) : Prop where
  config : config fs = (baseUrl, ignores, ttl)
  node : Sourced server .node nodeCache shapes fs
  stat : Sourced server .stat statCache (fun _ => {∅}) fs

end

section
variable {server : HttpServer} {baseUrl : String} {ignores : List String} {shapes : String → Set Headers} {ttl : Nat}
  {fs fs' : HttpFs}

theorem Sourced.settles {source : HttpSource α} {lens : CacheLens α} (h : Sourced server source lens shapes fs)
    (hs : Settles lens fs fs') (hc : config fs' = config fs) : Sourced server source lens shapes fs' := by
  intro name entry hentry
  have hbase : fs'.baseUrl = fs.baseUrl := congrArg Prod.fst hc
  have hignores : fs'.ignores = fs.ignores := congrArg (fun c => c.2.1) hc
  rw [shouldIgnore, hignores, hbase]
  exact h name entry (hs.entries name entry hentry)

variable (hd : DescribesTree server) (hm : Mirrors server baseUrl ignores shapes ttl fs)
include hm

theorem Mirrors.shouldIgnore_eq (name : String) : fs.shouldIgnore name = ignored ignores name := by
  have hignores : fs.ignores = ignores := congrArg (fun c => c.2.1) hm.config
  rw [shouldIgnore, hignores, ignored]

theorem Mirrors.baseUrl_eq : fs.baseUrl = baseUrl := congrArg Prod.fst hm.config

theorem Mirrors.ttl_eq : fs.cache.ttl = ttl := congrArg (fun c => c.2.2) hm.config

theorem Mirrors.tick : Mirrors server baseUrl ignores shapes ttl (tick fs) :=
  ⟨hm.config, tick_sourced hm.node nodeCache_lawful, tick_sourced hm.stat statCache_lawful⟩

include hd

theorem Mirrors.loadNode (name : String) {headers : Headers} (hu : Unconditional headers)
    (hshape : ttl ≠ 0 → headers ∈ shapes name) :
    (if ignored ignores name then
      (loadNodeWithHeaders (fun _ => server) name headers fs).1 = .err (.path "open" name .notFound)
    else Loads server .node shapes baseUrl headers name (loadNodeWithHeaders (fun _ => server) name headers fs).1) ∧
    Mirrors server baseUrl ignores shapes ttl (loadNodeWithHeaders (fun _ => server) name headers fs).2 := by
  obtain ⟨houtcome, hnode⟩ := load_sourced nodeCache_lawful readsPlainly_node hd hu hm.node
    (by rwa [hm.ttl_eq]) "open" ("httpfs " ++ name ++ " returned HTTP 304 without a cached node")
  rw [hm.shouldIgnore_eq, hm.baseUrl_eq] at houtcome
  have hconfig := load_config nodeCache_lawful (fun _ => server) .get "open" (HttpSource.node.parse name)
    ("httpfs " ++ name ++ " returned HTTP 304 without a cached node") name headers fs
  exact ⟨houtcome, hconfig.trans hm.config, hnode, hm.stat.settles (loadNode_settles _ name headers fs) hconfig⟩

theorem Mirrors.loadMetadata (name : String) :
    (loadMetadata (fun _ => server) name fs).1 = directMetadata server baseUrl ignores name ∧
    Mirrors server baseUrl ignores shapes ttl (loadMetadata (fun _ => server) name fs).2 := by
  obtain ⟨houtcome, hstat⟩ := load_sourced statCache_lawful readsPlainly_stat hd unconditional_empty hm.stat
    (fun _ => rfl) "stat" ("httpfs " ++ name ++ " returned HTTP 304 without cached metadata")
  rw [hm.shouldIgnore_eq, hm.baseUrl_eq] at houtcome
  have hconfig := load_config statCache_lawful (fun _ => server) .head "stat" (HttpSource.stat.parse name)
    ("httpfs " ++ name ++ " returned HTTP 304 without cached metadata") name ∅ fs
  refine ⟨?_, hconfig.trans hm.config, hm.node.settles (loadMetadata_settles _ name fs) hconfig, hstat⟩
  unfold directMetadata
  split at houtcome
  · rename_i hignored
    rw [if_pos hignored]
    exact houtcome
  · rename_i hignored
    rw [if_neg hignored]
    rcases houtcome with h | ⟨other, rfl, -, h⟩ <;> exact h

/-- A load serves a call as the server would, where what the cache may hold reads the same. -/
theorem Mirrors.loadNode_reads (name : String) {headers : Headers} (hu : Unconditional headers)
    (hshape : ttl ≠ 0 → headers ∈ shapes name) {β : Type} {reading : Outcome Error HttpNode → β}
    (hread : ignored ignores name = false → ∀ other ∈ shapes name,
      (cacheable server .node baseUrl other name).isSome = true →
      reading (fetched server .node baseUrl other name) = reading (fetched server .node baseUrl headers name)) :
    reading (loadNodeWithHeaders (fun _ => server) name headers fs).1 =
      reading (directNode server baseUrl ignores headers name) := by
  have houtcome := (hm.loadNode hd name hu hshape).1
  unfold directNode
  split at houtcome
  · rename_i hignored
    rw [if_pos hignored]
    exact congrArg reading houtcome
  · rename_i hignored
    rw [if_neg hignored]
    rcases houtcome with h | ⟨other, hother, hcacheable, h⟩
    · exact congrArg reading h
    · exact (congrArg reading h).trans (hread (Bool.eq_false_of_not_eq_true hignored) other hother hcacheable)

variable (hserves : Serves server baseUrl ignores shapes)
include hserves

theorem Mirrors.open_ (hplain : ∀ name, ttl ≠ 0 → ∅ ∈ shapes name) (ctx : FsContext) (name : String) :
    ((HttpRead.open_ ctx name).run server fs).1 = directReply server baseUrl ignores (.open_ ctx name) ∧
    Mirrors server baseUrl ignores shapes ttl ((HttpRead.open_ ctx name).run server fs).2 := by
  cases hvalid : validPath name with
  | false => simpa [HttpRead.run, HttpFs.open_, directReply, hvalid, map_apply] using hm
  | true =>
    have hreads := hm.loadNode_reads hd (cleanPath name) unconditional_empty (hplain _)
      (fun hignored other hother hc => (hserves.plain _ hignored other hother hc).1)
    rw [run_open server ctx hvalid, directReply, if_neg (by simp [hvalid])]
    exact ⟨congrArg (Outcome.map HttpReply.handle) hreads, (hm.loadNode hd _ unconditional_empty (hplain _)).2⟩

omit hserves in
theorem Mirrors.stat_ (ctx : FsContext) (name : String) :
    ((HttpRead.stat ctx name).run server fs).1 = directReply server baseUrl ignores (.stat ctx name) ∧
    Mirrors server baseUrl ignores shapes ttl ((HttpRead.stat ctx name).run server fs).2 := by
  dsimp only [HttpRead.run, directReply]
  rw [map_fst, map_snd]
  unfold HttpFs.stat
  rw [branch_apply]
  split
  · exact ⟨rfl, hm⟩
  · obtain ⟨houtcome, hstate⟩ := hm.loadMetadata hd (cleanPath name)
    exact ⟨congrArg _ houtcome, hstate⟩

theorem Mirrors.readlink (hplain : ∀ name, ttl ≠ 0 → ∅ ∈ shapes name) (name : String) :
    ((HttpRead.readlink name).run server fs).1 = directReply server baseUrl ignores (.readlink name) ∧
    Mirrors server baseUrl ignores shapes ttl ((HttpRead.readlink name).run server fs).2 := by
  have hreads := hm.loadNode_reads hd name unconditional_empty (hplain _)
    (fun hignored other hother hc => (hserves.plain _ hignored other hother hc).2)
  rw [run_readlink]
  exact ⟨congrArg (Outcome.map HttpReply.target) hreads, (hm.loadNode hd _ unconditional_empty (hplain _)).2⟩

theorem Mirrors.readDir (haccept : ∀ name, IsKey name → ttl ≠ 0 → acceptMultipart ∈ shapes name) (ctx : FsContext)
    (name : String) :
    ((HttpRead.readDir ctx name).run server fs).1 = directReply server baseUrl ignores (.readDir ctx name) ∧
    Mirrors server baseUrl ignores shapes ttl ((HttpRead.readDir ctx name).run server fs).2 := by
  cases hvalid : validPath name with
  | false => simpa [HttpRead.run, HttpFs.readDir, directReply, hvalid, map_apply] using hm
  | true =>
    have hkey : IsKey (cleanPath name) := ⟨name, hvalid, rfl⟩
    rw [run_readDir server ctx hvalid, directReply, if_neg (by simp [hvalid])]
    cases hfound : found nodeCache (cleanPath name) fs with
    | some result =>
      obtain ⟨entry, hentry, hresult⟩ := found_eq_some hfound (HttpFs.tick fs)
      obtain ⟨hignore, other, hother, hcacheable⟩ := hm.node _ entry hentry
      rw [hm.shouldIgnore_eq] at hignore
      rw [hm.baseUrl_eq] at hcacheable
      dsimp only
      rw [hresult, ← fetched_of_cacheable readsPlainly_node hcacheable]
      refine ⟨congrArg _ ?_, hm.tick⟩
      rw [hserves.listing _ hkey hignore other hother (by rw [hcacheable]; rfl), directNode, if_neg (by simp [hignore])]
    | none =>
      have hreads := hm.tick.loadNode_reads hd (cleanPath name) unconditional_accept (haccept _ hkey)
        (hserves.listing _ hkey)
      exact ⟨congrArg (Outcome.map HttpReply.entries) hreads, (hm.tick.loadNode hd _ unconditional_accept (haccept _ hkey)).2⟩

/-- Every call is answered as without a cache, whatever came before. -/
theorem Mirrors.replies (hplain : ∀ name, ttl ≠ 0 → ∅ ∈ shapes name)
    (haccept : ∀ name, IsKey name → ttl ≠ 0 → acceptMultipart ∈ shapes name) (reads : List HttpRead) :
    HttpRead.replies server fs reads = reads.map (directReply server baseUrl ignores) := by
  induction reads generalizing fs with
  | nil => rfl
  | cons read reads ih =>
    have hstep : (read.run server fs).1 = directReply server baseUrl ignores read ∧
        Mirrors server baseUrl ignores shapes ttl (read.run server fs).2 := by
      cases read with
      | open_ ctx name => exact hm.open_ hd hserves hplain ctx name
      | stat ctx name => exact hm.stat_ hd ctx name
      | readDir ctx name => exact hm.readDir hd hserves haccept ctx name
      | readlink name => exact hm.readlink hd hserves hplain name
    rw [HttpRead.replies, List.map_cons, hstep.1, ih hstep.2]

end

/-! ## When the cache makes no difference -/

def mountReads (baseUrl : String) (ignores : List String) (ttl : Nat) (clock : Nat → SystemTime) : HttpFs :=
  { withCacheTtl baseUrl ttl clock with ignores }

/-- With a cache every sequence of calls is answered as it is without one. -/
def Transparent (server : HttpServer) (baseUrl : String) (ignores : List String) : Prop :=
  ∀ (ttl : Nat) (clock : Nat → SystemTime) (reads : List HttpRead), 0 < ttl →
    HttpRead.replies server (mountReads baseUrl ignores ttl clock) reads =
      HttpRead.replies server (mountReads baseUrl ignores 0 clock) reads

/-- A node that a plain request leaves in the cache lists what a request for a
multipart listing would bring, and a node from such a listing opens and reads as a
link like the plain one. -/
structure ShapesAgree (server : HttpServer) (baseUrl : String) (ignores : List String) : Prop where
  listing : ∀ name, IsKey name → ignored ignores name = false →
    (cacheable server .node baseUrl ∅ name).isSome = true →
    thenRead (listNode name) (fetched server .node baseUrl ∅ name) =
      thenRead (listNode name) (fetched server .node baseUrl acceptMultipart name)
  opened : ∀ name, IsKey name → ignored ignores name = false →
    (cacheable server .node baseUrl acceptMultipart name).isSome = true →
    (fetched server .node baseUrl acceptMultipart name).map openNode = (fetched server .node baseUrl ∅ name).map openNode
  linked : ∀ name, IsKey name → ignored ignores name = false →
    (cacheable server .node baseUrl acceptMultipart name).isSome = true →
    thenRead (linkTarget name) (fetched server .node baseUrl acceptMultipart name) =
      thenRead (linkTarget name) (fetched server .node baseUrl ∅ name)

def readShapes (name : String) : Set Headers := fun headers => headers = ∅ ∨ headers = acceptMultipart ∧ IsKey name

section
variable {server : HttpServer} {baseUrl : String} {ignores : List String}

theorem ShapesAgree.serves (h : ShapesAgree server baseUrl ignores) : Serves server baseUrl ignores readShapes where
  plain := by
    rintro name hignored other (rfl | ⟨rfl, hkey⟩) hcacheable
    · exact ⟨rfl, rfl⟩
    · exact ⟨h.opened name hkey hignored hcacheable, h.linked name hkey hignored hcacheable⟩
  listing := by
    rintro name hkey hignored other (rfl | ⟨rfl, -⟩) hcacheable
    · exact h.listing name hkey hignored hcacheable
    · rfl

theorem mountReads_mirrors (shapes : String → Set Headers) (ttl : Nat) (clock : Nat → SystemTime) :
    Mirrors server (mountReads baseUrl ignores 0 clock).baseUrl ignores shapes ttl (mountReads baseUrl ignores ttl clock) :=
  ⟨rfl, fun _ _ h => by simp [mountReads, withCacheTtl, nodeCache] at h,
    fun _ _ h => by simp [mountReads, withCacheTtl, statCache] at h⟩

theorem replies_uncached (hd : DescribesTree server) (clock : Nat → SystemTime) (reads : List HttpRead) :
    HttpRead.replies server (mountReads baseUrl ignores 0 clock) reads =
      reads.map (directReply server (mountReads baseUrl ignores 0 clock).baseUrl ignores) :=
  (mountReads_mirrors (fun _ => ∅) 0 clock).replies hd ⟨fun _ _ _ h => h.elim, fun _ _ _ _ h => h.elim⟩
    (fun _ h => absurd rfl h) (fun _ _ h => absurd rfl h) reads

theorem cacheStore_found {fs : HttpFs} (hclock : ∀ i, fs.clock i = 0) (httl : 0 < fs.cache.ttl) (name : String)
    (payload : HttpFsCachePayload HttpNode) (v : HttpValidators) :
    ∃ result, found nodeCache name (cacheStore nodeCache name payload v fs).2 = some result ∧
      ∀ s : HttpFs, Prog.ofExcept result s = (payloadOutcome name payload, s) := by
  have hentry : (nodeCache.get (cacheStore nodeCache name payload v fs).2)[name]? =
      some { payload, expiresAt := fs.clock fs.ticks + fs.cache.ttl, validators := v } := by
    unfold cacheStore
    rw [get_bind, branch_apply, if_neg (by omega)]
    exact Std.ExtTreeMap.getElem?_insert_self
  have hlater : (cacheStore nodeCache name payload v fs).2.clock = fs.clock := by
    unfold cacheStore
    rw [get_bind, branch_apply, if_neg (by omega)]
    rfl
  unfold found
  rw [hentry, hlater]
  dsimp only
  rw [if_pos (by rw [hclock, hclock]; simpa using httl)]
  cases payload with
  | value a => exact ⟨_, rfl, fun _ => rfl⟩
  | notFound => exact ⟨_, rfl, fun _ => rfl⟩

theorem found_none {fs : HttpFs} {name : String} (h : fs.cache.node[name]? = none) : found nodeCache name fs = none := by
  unfold found nodeCache
  dsimp only
  rw [h]

/-- A load that finds nothing leaves what it fetched to be found. -/
theorem loadNode_stores (hd : DescribesTree server) {headers : Headers} (hu : Unconditional headers) {fs : HttpFs}
    {name : String} (hnone : fs.cache.node[name]? = none) (hclock : ∀ i, fs.clock i = 0) (httl : 0 < fs.cache.ttl)
    (hignore : fs.shouldIgnore name = false) {payload : HttpFsCachePayload HttpNode}
    (hcacheable : cacheable server .node fs.baseUrl headers name = some payload) :
    ∃ result, found nodeCache name (loadNodeWithHeaders (fun _ => server) name headers fs).2 = some result ∧
      ∀ s : HttpFs, Prog.ofExcept result s = (payloadOutcome name payload, s) := by
  have hstale : staleEntry nodeCache name (tick fs) = none := by
    unfold staleEntry
    rw [nodeCache_lawful.getElem?_tick, show (nodeCache.get fs)[name]? = none from hnone]
  have hload : loadNodeWithHeaders (fun _ => server) name headers fs =
      revalidate (fun _ => server) nodeCache HttpSource.node.method (HttpSource.node.parse name)
        ("httpfs " ++ name ++ " returned HTTP 304 without a cached node") name headers (tick fs) := by
    unfold loadNodeWithHeaders
    rw [load_apply nodeCache_lawful, found_none hnone]
    dsimp only
    rw [if_neg (by simp [hignore])]
    rfl
  rw [hload, revalidate_apply, hstale]
  dsimp only
  have hplain : loadRequest HttpSource.node none name headers (tick fs) =
    plainRequest HttpSource.node fs.baseUrl headers name := rfl
  unfold cacheable at hcacheable
  rw [hplain]
  cases hserver : server (plainRequest HttpSource.node fs.baseUrl headers name) with
  | error e =>
    rw [hserver] at hcacheable
    cases hcacheable
  | ok response =>
    rw [hserver] at hcacheable
    dsimp only at hcacheable ⊢
    rw [if_neg (hd.sent _ hu _ hserver), show (tick fs).baseUrl = fs.baseUrl from rfl]
    cases hread : readResponse (HttpSource.node.parse name fs.baseUrl) name response with
    | abort =>
      rw [hread] at hcacheable
      cases hcacheable
    | ok a =>
      rw [hread] at hcacheable
      cases hcacheable
      refine cacheStore_found ?_ ?_ name _ _
      · exact hclock
      · exact httl
    | err e =>
      rw [hread] at hcacheable
      simp only [payloadOf] at hcacheable
      split at hcacheable
      · rename_i he
        cases hcacheable
        dsimp only [cacheHttpResult]
        rw [if_pos he]
        refine cacheStore_found ?_ ?_ name _ _
        · exact hclock
        · exact httl
      · cases hcacheable

/-- What is found under a name answers a plain load of it. -/
theorem loadNode_of_found {fs : HttpFs} {name : String} {result : Except Error HttpNode}
    (h : found nodeCache name fs = some result) (headers : Headers) :
    loadNodeWithHeaders (fun _ => server) name headers fs = Prog.ofExcept result (tick fs) := by
  unfold loadNodeWithHeaders
  rw [load_apply nodeCache_lawful, h]

theorem thenRead_map_inj {β : Type} {f g : Outcome Error α} {c : α → β} (hc : Function.Injective c)
    (h : f.map c = g.map c) : f = g := by
  cases f <;> cases g <;> simp_all [Outcome.map, hc.eq_iff]

/-- The second of two calls, with the cache and without it. -/
theorem Transparent.second (h : Transparent server baseUrl ignores) (hd : DescribesTree server) (first second : HttpRead) :
    (second.run server (first.run server (mountReads baseUrl ignores 1 fun _ => 0)).2).1 =
      directReply server (mountReads baseUrl ignores 0 fun _ => 0).baseUrl ignores second := by
  have hreplies := h 1 (fun _ => 0) [first, second] Nat.one_pos
  rw [replies_uncached hd] at hreplies
  simp only [HttpRead.replies, List.map_cons, List.cons.injEq] at hreplies
  exact hreplies.2.1

theorem loadNode_leaves (hd : DescribesTree server) {headers : Headers} (hu : Unconditional headers) (fs : HttpFs)
    {name : String} (hnone : fs.cache.node[name]? = none) (hclock : ∀ i, fs.clock i = 0) (httl : 0 < fs.cache.ttl)
    (hignore : fs.shouldIgnore name = false) (hc : (cacheable server .node fs.baseUrl headers name).isSome = true) :
    ∃ result, found nodeCache name (loadNodeWithHeaders (fun _ => server) name headers fs).2 = some result ∧
      ∀ s : HttpFs, Prog.ofExcept result s = (fetched server .node fs.baseUrl headers name, s) := by
  obtain ⟨payload, hpayload⟩ := Option.isSome_iff_exists.mp hc
  rw [fetched_of_cacheable readsPlainly_node hpayload]
  exact loadNode_stores hd hu hnone hclock httl hignore hpayload

/-- A transparent cache leaves nothing to one shape of request that the other would not bring. -/
theorem Transparent.shapesAgree (h : Transparent server baseUrl ignores) (hd : DescribesTree server) :
    ShapesAgree server (mountReads baseUrl ignores 0 fun _ => 0).baseUrl ignores := by
  let fs := mountReads baseUrl ignores 1 fun _ => 0
  have hnone (name : String) : fs.cache.node[name]? = none := by simp [fs, mountReads, withCacheTtl]
  -- what a listing leaves behind; the cache was looked at once before it was asked for
  have hlisted {name path : String} (hvalid : validPath path = true) (hclean : cleanPath path = name)
      (hignored : ignored ignores name = false)
      (hc : (cacheable server .node fs.baseUrl acceptMultipart name).isSome = true) :
      ∃ result, found nodeCache name ((HttpRead.readDir .new path).run server fs).2 = some result ∧
        ∀ s : HttpFs, Prog.ofExcept result s = (fetched server .node fs.baseUrl acceptMultipart name, s) := by
    subst hclean
    rw [run_readDir server _ hvalid, found_none (hnone _)]
    exact loadNode_leaves hd unconditional_accept (tick fs) (hnone _) (fun _ => rfl) Nat.one_pos hignored hc
  constructor
  · rintro name ⟨path, hvalid, rfl⟩ hignored hc
    have hsecond := h.second hd (.open_ .new path) (.readDir .new path)
    obtain ⟨result, hfound, hresult⟩ := loadNode_leaves hd unconditional_empty fs (hnone _) (fun _ => rfl)
      Nat.one_pos hignored hc
    rw [run_open server _ hvalid, run_readDir server _ hvalid, hfound, directReply, if_neg (by simp [hvalid])] at hsecond
    dsimp only at hsecond
    rw [hresult, directNode, if_neg (by simp [hignored])] at hsecond
    exact thenRead_map_inj (fun _ _ => HttpReply.entries.inj) hsecond
  · rintro name ⟨path, hvalid, hclean⟩ hignored hc
    obtain ⟨result, hfound, hresult⟩ := hlisted hvalid hclean hignored hc
    have hsecond := h.second hd (.readDir .new path) (.open_ .new path)
    rw [run_open server _ hvalid, hclean, loadNode_of_found hfound, hresult, directReply, if_neg (by simp [hvalid]), hclean,
      directNode, if_neg (by simp [hignored])] at hsecond
    exact thenRead_map_inj (fun _ _ => HttpReply.handle.inj) hsecond
  · rintro name ⟨path, hvalid, hclean⟩ hignored hc
    obtain ⟨result, hfound, hresult⟩ := hlisted hvalid hclean hignored hc
    have hsecond := h.second hd (.readDir .new path) (.readlink name)
    rw [run_readlink, loadNode_of_found hfound, hresult, directReply, directNode, if_neg (by simp [hignored])] at hsecond
    exact thenRead_map_inj (fun _ _ => HttpReply.target.inj) hsecond

end

/-- The same file under every name. -/
def fileServer : HttpServer := fun _ => .ok { status := 200, headers := ∅, body := [65] }

def directoryHeaders : Headers := (∅ : Headers).insert "Content-Type" "application/x-directory"

def multipartBody : String :=
  "--b\r\nContent-Location: /d\r\nContent-Type: application/x-directory\r\n\r\nf 33188\n\r\n" ++
  "--b\r\nContent-Location: /d/f\r\n\r\nabc\r\n--b--\r\n"

/-- A directory with one file of three bytes. A plain listing gives names and modes
alone; a multipart one brings the files along. -/
def directoryServer : HttpServer := fun request =>
  .ok (if request.url = "http://h/d" then
      if request.headers["Accept"]? = some "multipart/mixed" then
        { status := 200
          headers := (∅ : Headers).insert "Content-Type" "multipart/mixed; boundary=b"
          body := utf8Bytes multipartBody }
      else { status := 200, headers := directoryHeaders, body := utf8Bytes "f 33188\n" }
    else if request.url = "http://h/d/f" then { status := 200, headers := ∅, body := utf8Bytes "abc" }
    else if request.url = "http://h/" then { status := 200, headers := directoryHeaders, body := utf8Bytes "d 16877\n" }
    else { status := 404, headers := ∅, body := [] })

theorem accept_addValidatorHeaders (headers : Headers) (v : HttpValidators) :
    (addValidatorHeaders headers v)["Accept"]? = headers["Accept"]? := by
  unfold addValidatorHeaders
  cases v.etag <;> cases v.lastModified <;> simp [Std.ExtTreeMap.getElem?_insert]

theorem directoryServer_describesTree : DescribesTree directoryServer where
  sent request _ response h := by
    unfold directoryServer at h
    cases h
    split_ifs <;> decide
  revalidated request v _ := by
    refine .inr ?_
    unfold directoryServer
    dsimp only
    rw [accept_addValidatorHeaders]

end HttpFs
end Star9
