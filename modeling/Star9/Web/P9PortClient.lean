import Star9.Base.Map
import Star9.Web.P9PortServer

/-!
# The 9P frame client of a browser port

The frames the client posts are numbered as the server handles them. Beside each tag
whose reply is awaited stands the number of its message, and beside each flush the
number of the request it cancels; the code keeps neither. Posting does not fail.
-/
namespace Star9
open Base
open P9Port

structure P9PortClient where
  pending : Std.ExtTreeMap Nat Nat
  notagPending : List Nat
  cancelledTags : Std.ExtTreeMap Nat Nat
  log : List (Bytes × Option Nat)
  resolved : List (Nat × Nat × Bytes)

namespace P9PortClient

def new : P9PortClient := { pending := ∅, notagPending := [], cancelledTags := ∅, log := [], resolved := [] }

def post (frame : Bytes) (target : Option Nat) (c : P9PortClient) : P9PortClient := { c with log := c.log ++ [(frame, target)] }

def allocSyntheticTag (avoidTag : Nat) (c : P9PortClient) : Option Nat :=
  (List.range' 1 0xfffe).find? fun tag => tag ≠ avoidTag && !(c.pending[tag]?).isSome && !(c.cancelledTags[tag]?).isSome

/-- Without a free tag nothing is sent, and the error goes to the listeners. -/
def flush (oldtag target : Nat) (c : P9PortClient) : P9PortClient :=
  match allocSyntheticTag oldtag c with
  | some tag =>
    post (encodeP9Frame tflush tag (leBytes 2 oldtag)) (some target)
      { c with cancelledTags := c.cancelledTags.insert tag c.log.length }
  | none => c

def untrackPending (tag number : Nat) (c : P9PortClient) : P9PortClient :=
  if tag = P9Port.notag then { c with notagPending := c.notagPending.erase number }
  else if c.pending[tag]? = some number then { c with pending := c.pending.erase tag }
  else c

def cancelPending (tag number : Nat) (c : P9PortClient) : P9PortClient :=
  let c := untrackPending tag number c
  if tag = P9Port.notag then c else flush tag number { c with cancelledTags := c.cancelledTags.insert tag number }

/-- A tag that is already pending is refused. -/
def trackPending (tag number : Nat) (c : P9PortClient) : Option P9PortClient :=
  if tag = P9Port.notag then some { c with notagPending := c.notagPending ++ [number] }
  else if (c.pending[tag]?).isSome then none
  else some { c with pending := c.pending.insert tag number }

def request (frame : Bytes) (signalled : Bool) (c : P9PortClient) : P9PortClient :=
  match cloneFrameBytes (some frame) "9P request frame" with
  | .error _ => c
  | .ok request =>
    let tag := frameTag request
    match trackPending tag c.log.length c with
    | none => c
    | some tracked => if signalled then cancelPending tag c.log.length tracked else post request none tracked

/-- The signal of a request that is no longer pending has no listener. -/
def abort (tag number : Nat) (c : P9PortClient) : P9PortClient :=
  if tag = P9Port.notag then
    if number ∈ c.notagPending then cancelPending tag number c else c
  else if c.pending[tag]? = some number then cancelPending tag number c
  else c

def handleMessage (number : Nat) (message : Bytes) (c : P9PortClient) : P9PortClient :=
  match cloneFrameBytes (some message) "9P response frame" with
  | .error _ => c
  | .ok response =>
    let tag := frameTag response
    if tag = P9Port.notag then
      match c.notagPending with
      | [] => { c with cancelledTags := c.cancelledTags.erase tag }
      | waiting :: rest => { c with notagPending := rest, resolved := c.resolved ++ [(waiting, number, response)] }
    else
      match c.pending[tag]? with
      | none => { c with cancelledTags := c.cancelledTags.erase tag }
      | some waiting => { c with pending := c.pending.erase tag, resolved := c.resolved ++ [(waiting, number, response)] }

end P9PortClient

/-! ## The two ends of a port -/

structure P9Wire where
  client : P9PortClient
  server : P9PortServer
  delivered : Nat

inductive P9WireOp where
  | request (frame : Bytes) (signalled : Bool)
  | abort (tag number : Nat)
  | serve (result : FacadeResult)
  | settle (number : Nat) (outcome : Except String (Option Bytes))
  | deliver

namespace P9Wire

def init : P9Wire := { client := .new, server := .new, delivered := 0 }

def step (w : P9Wire) : P9WireOp → P9Wire
  | .request frame signalled => { w with client := w.client.request frame signalled }
  | .abort tag number => { w with client := w.client.abort tag number }
  | .serve result =>
    match w.client.log[w.server.next]? with
    | some (frame, _) => { w with server := w.server.step (.message frame result) }
    | none => w
  | .settle number outcome => { w with server := w.server.step (.settle number outcome) }
  | .deliver =>
    match w.server.posted[w.delivered]? with
    | some (number, frame) => { w with client := w.client.handleMessage number frame, delivered := w.delivered + 1 }
    | none => w

/-- Every request that is resolved is resolved with the server's response to it, and no tag stays cancelled. -/
structure OwnReplies (w : P9Wire) : Prop where
  own : ∀ x ∈ w.client.resolved, x.1 = x.2.1 ∧ (x.2.1, x.2.2) ∈ w.server.posted
  drained : w.server.next = w.client.log.length → w.delivered = w.server.posted.length → w.client.pending = ∅ →
    w.client.notagPending = [] → w.client.cancelledTags = ∅

def tagOf (w : P9Wire) (number : Nat) : Option Nat := (w.client.log[number]?).map fun x => frameTag x.1

/-- What the facade says for a message carries its tag. -/
def Tagged (w : P9Wire) (number : Nat) (value : Option Bytes) : Prop :=
  ∀ response, cloneFrameBytes value "9P response frame" = .ok response → w.tagOf number = some (frameTag response)

def Answered (w : P9Wire) (number : Nat) : Prop := ∃ frame, (number, frame) ∈ w.server.posted

/-- No request takes a tag whose reply is awaited or is cancelled before it is sent; a
request that is cancelled is answered by the time its flush arrives. -/
def Orderly (w : P9Wire) : P9WireOp → Prop
  | .request frame signalled => frameTag frame ≠ P9Port.notag ∧
      (w.client.pending[frameTag frame]? = none → signalled = false ∧ w.client.cancelledTags[frameTag frame]? = none)
  | .abort tag number => w.client.pending[tag]? = some number →
      (P9PortClient.allocSyntheticTag tag
        { w.client with pending := w.client.pending.erase tag, cancelledTags := w.client.cancelledTags.insert tag number }).isSome = true
  | .serve result =>
      (∀ frame target, w.client.log[w.server.next]? = some (frame, some target) → w.Answered target) ∧
      ∀ value, result = .returns value → w.Tagged w.server.next value
  | .settle number outcome => ∀ value, outcome = .ok value → w.Tagged number value
  | .deliver => True

/-! ## What the server does to a message -/

section
variable {s : P9PortServer}

/-- A reply is an error with the tag of its message, the reply to a flush or a frame of the facade. -/
def ReplyTo (tag : Nat) (value : Option (Option Bytes)) (frame : Bytes) : Prop :=
  frame = encodeP9ErrorFrame tag errorEio ∨ frame = encodeP9Frame rflush tag [] ∨
    ∃ v, value = some v ∧ cloneFrameBytes v "9P response frame" = .ok frame

def valueOf : FacadeResult → Option (Option Bytes)
  | .returns value => some value
  | _ => none

/-- The message is answered at once, its answer is promised, or nothing comes of it. -/
theorem message_effect {frame : Bytes} (hclone : cloneFrameBytes (some frame) "9P request frame" = .ok frame)
    (hstarted : s.started = true) (result : FacadeResult) :
    (s.step (.message frame result)).next = s.next + 1 ∧ (s.step (.message frame result)).started = true ∧
    ((∃ reply, (s.step (.message frame result)).posted = s.posted ++ [(s.next, reply)] ∧
        (s.step (.message frame result)).calls = s.calls ∧ ReplyTo (frameTag frame) (valueOf result) reply) ∨
      frameType frame ≠ tflush ∧ (s.step (.message frame result)).posted = s.posted ∧
        ((s.step (.message frame result)).calls = s.calls ++ [(s.next, frameTag frame)] ∨
          (s.step (.message frame result)).calls = s.calls)) := by
  have hstep : s.step (.message frame result) = (P9PortServer.handleMessage s.next frame result { s with next := s.next + 1 }).2 := if_pos hstarted
  have hrun : P9PortServer.handleMessage s.next frame result { s with next := s.next + 1 } =
      (Prog.tryCatch (P9PortServer.handleFrame s.next frame result) fun e => do
        P9PortServer.post s.next (encodeP9ErrorFrame (frameTag frame) errorEio)
        P9PortServer.emitError e) { s with next := s.next + 1 } := by
    unfold P9PortServer.handleMessage
    rw [hclone]
    rfl
  rw [hstep, hrun]
  unfold Prog.tryCatch P9PortServer.handleFrame
  by_cases htype : frameType frame = tflush
  · rw [if_pos htype]
    cases hold : flushOldTag frame with
    | ok oldtag => exact ⟨rfl, hstarted, .inl ⟨_, rfl, rfl, .inr (.inl rfl)⟩⟩
    | error e => exact ⟨rfl, hstarted, .inl ⟨_, rfl, rfl, .inl rfl⟩⟩
  · rw [if_neg htype, Prog.modify_bind]
    cases result with
    | throws message => exact ⟨rfl, hstarted, .inl ⟨_, rfl, rfl, .inl rfl⟩⟩
    | promise => exact ⟨rfl, hstarted, .inr ⟨htype, rfl, .inl rfl⟩⟩
    | returns value =>
      dsimp only
      by_cases hcur : ({ s with next := s.next + 1, pending := s.pending.insert (frameTag frame) s.next } : P9PortServer).Current
          s.next (frameTag frame)
      · rw [complete_of_current hcur]
        cases hval : cloneFrameBytes value "9P response frame" with
        | ok reply => exact ⟨rfl, hstarted, .inl ⟨_, rfl, rfl, .inr (.inr ⟨value, rfl, hval⟩)⟩⟩
        | error e => exact ⟨rfl, hstarted, .inl ⟨_, rfl, rfl, .inl rfl⟩⟩
      · rw [complete_of_not_current hcur]
        exact ⟨rfl, hstarted, .inr ⟨htype, rfl, .inr rfl⟩⟩

def outcomeValue : Except String (Option Bytes) → Option (Option Bytes)
  | .ok value => some value
  | .error _ => none

theorem settle_effect (number : Nat) (outcome : Except String (Option Bytes)) :
    (s.step (.settle number outcome)).next = s.next ∧ (s.step (.settle number outcome)).started = s.started ∧
    ((s.step (.settle number outcome)).calls = s.calls.filter (·.1 ≠ number) ∨ (s.step (.settle number outcome)).calls = s.calls ∧
      (s.step (.settle number outcome)).posted = s.posted) ∧
    ((s.step (.settle number outcome)).posted = s.posted ∨
      ∃ tag reply, (number, tag) ∈ s.calls ∧ (s.step (.settle number outcome)).posted = s.posted ++ [(number, reply)] ∧
        ReplyTo tag (outcomeValue outcome) reply) := by
  unfold P9PortServer.step
  dsimp only
  cases hf : s.calls.find? (·.1 = number) with
  | none => exact ⟨rfl, rfl, .inr ⟨rfl, rfl⟩, .inl rfl⟩
  | some call =>
    obtain ⟨number', tag⟩ := call
    have hnumber : number' = number := by simpa using List.find?_some hf
    subst hnumber
    have hmem := List.mem_of_find?_eq_some hf
    dsimp only
    by_cases hcur : ({ s with calls := s.calls.filter (·.1 ≠ number') } : P9PortServer).Current number' tag
    · unfold P9PortServer.settle
      rw [Prog.modify_bind]
      cases outcome with
      | error message =>
        dsimp only
        rw [fail_of_current hcur]
        exact ⟨rfl, rfl, .inl rfl, .inr ⟨tag, _, hmem, rfl, .inl rfl⟩⟩
      | ok value =>
        dsimp only
        cases hval : cloneFrameBytes value "9P response frame" with
        | ok reply =>
          have hcomplete := complete_of_current hcur value
          rw [hval] at hcomplete
          rw [Prog.bind_ok (Prog.attempt_ok hcomplete)]
          exact ⟨rfl, rfl, .inl rfl, .inr ⟨tag, reply, hmem, rfl, .inr (.inr ⟨value, rfl, hval⟩)⟩⟩
        | error e =>
          have hcomplete := complete_of_current hcur value
          rw [hval] at hcomplete
          rw [Prog.bind_ok (Prog.attempt_err hcomplete)]
          exact ⟨rfl, rfl, .inl rfl, .inl rfl⟩
    · rw [settle_not_current outcome hcur]
      exact ⟨rfl, rfl, .inl rfl, .inl rfl⟩

end

/-! ## Who owns a tag -/

/-- The server may still answer the message, or its answer is on the way. -/
def Live (w : P9Wire) (n : Nat) : Prop :=
  w.server.next ≤ n ∧ n < w.client.log.length ∨ n ∈ w.server.calls.map Prod.fst ∨
    n ∈ (w.server.posted.drop w.delivered).map Prod.fst

/-- The message is answered, is a flush, or its flush is on the way. -/
def Awaited (w : P9Wire) (n : Nat) : Prop :=
  w.Answered n ∨ (w.server.next ≤ n ∧ ∃ x, w.client.log[n]? = some x ∧ frameType x.1 = tflush) ∨
    ∃ m frame, w.server.next ≤ m ∧ w.client.log[m]? = some (frame, some n)

structure Inv (w : P9Wire) : Prop where
  frames : ∀ x ∈ w.client.log, cloneFrameBytes (some x.1) "9P request frame" = .ok x.1 ∧ frameTag x.1 ≠ P9Port.notag
  started : w.server.started = true
  handled : w.server.next ≤ w.client.log.length
  count : w.delivered ≤ w.server.posted.length
  once : (w.server.posted.map Prod.fst ++ w.server.calls.map Prod.fst).Nodup
  old : ∀ n ∈ w.server.posted.map Prod.fst ++ w.server.calls.map Prod.fst, n < w.server.next
  replies : ∀ x ∈ w.server.posted,
    w.tagOf x.1 = some (frameTag x.2) ∧ cloneFrameBytes (some x.2) "9P response frame" = .ok x.2
  callTags : ∀ x ∈ w.server.calls, w.tagOf x.1 = some x.2
  live : ∀ n t, w.Live n → w.tagOf n = some t → w.client.pending[t]? = some n ∨ w.client.cancelledTags[t]? = some n
  pending : ∀ t n, w.client.pending[t]? = some n →
    w.tagOf n = some t ∧ w.client.cancelledTags[t]? = none ∧ n ∉ (w.server.posted.take w.delivered).map Prod.fst
  cancelled : ∀ t n, w.client.cancelledTags[t]? = some n →
    w.tagOf n = some t ∧ n ∉ (w.server.posted.take w.delivered).map Prod.fst ∧ w.Awaited n
  untagged : w.client.notagPending = []
  own : ∀ x ∈ w.client.resolved, x.1 = x.2.1 ∧ (x.2.1, x.2.2) ∈ w.server.posted

theorem init_inv : Inv init where
  frames := nofun
  started := rfl
  handled := Nat.le_refl _
  count := Nat.le_refl _
  once := List.nodup_nil
  old := nofun
  replies := nofun
  callTags := nofun
  live n t := by
    rintro (⟨-, hlt⟩ | hmem | hmem)
    · cases hlt
    · cases hmem
    · cases hmem
  pending t n h := by
    change (∅ : Std.ExtTreeMap Nat Nat)[t]? = some n at h
    rw [Std.ExtTreeMap.getElem?_empty] at h
    cases h
  cancelled t n h := by
    change (∅ : Std.ExtTreeMap Nat Nat)[t]? = some n at h
    rw [Std.ExtTreeMap.getElem?_empty] at h
    cases h
  untagged := rfl
  own := nofun

section
variable {w : P9Wire}

theorem tagOf_lt {n t : Nat} (h : w.tagOf n = some t) : n < w.client.log.length := by
  obtain ⟨x, hx, -⟩ := Option.map_eq_some_iff.mp h
  exact (List.getElem?_eq_some_iff.mp hx).1

theorem Inv.tag_ne (h : Inv w) {n t : Nat} (htag : w.tagOf n = some t) : t ≠ P9Port.notag := by
  obtain ⟨x, hx, rfl⟩ := Option.map_eq_some_iff.mp htag
  exact (h.frames x (List.mem_of_getElem? hx)).2

theorem Inv.drained (h : Inv w) : OwnReplies w where
  own := h.own
  drained hnext hdelivered hpending _ := by
    refine Std.ExtTreeMap.ext_getElem? fun t => ?_
    rw [Std.ExtTreeMap.getElem?_empty]
    by_contra hne
    obtain ⟨n, hn⟩ := Option.ne_none_iff_exists'.mp hne
    obtain ⟨htag, hnot, hawaited⟩ := h.cancelled t n hn
    rw [hdelivered, List.take_length] at hnot
    rcases hawaited with ⟨frame, hmem⟩ | ⟨hge, -⟩ | ⟨m, frame, hge, hm⟩
    · exact hnot (List.mem_map_of_mem hmem)
    · have hlt := tagOf_lt htag
      omega
    · have hlt := (List.getElem?_eq_some_iff.mp hm).1
      omega

/-- The server goes on: nothing is live that was not, and no reply is taken back. -/
theorem Inv.server (h : Inv w) {s : P9PortServer} {extra : List (Nat × Bytes)} (hposted : s.posted = w.server.posted ++ extra)
    (hstarted : s.started = true) (hhandled : s.next ≤ w.client.log.length)
    (honce : (s.posted.map Prod.fst ++ s.calls.map Prod.fst).Nodup) (hold : ∀ n ∈ s.posted.map Prod.fst ++ s.calls.map Prod.fst, n < s.next)
    (hreplies : ∀ x ∈ extra, w.tagOf x.1 = some (frameTag x.2) ∧ cloneFrameBytes (some x.2) "9P response frame" = .ok x.2)
    (hcalls : ∀ x ∈ s.calls, w.tagOf x.1 = some x.2) (hlive : ∀ n, Live { w with server := s } n → w.Live n)
    (hawaited : ∀ n, w.Awaited n → Awaited { w with server := s } n) : Inv { w with server := s } := by
  have htake : s.posted.take w.delivered = w.server.posted.take w.delivered := by
    rw [hposted, List.take_append_of_le_length h.count]
  refine ⟨h.frames, hstarted, hhandled, ?_, honce, hold, fun x hx => ?_, hcalls, fun n t hn => h.live n t (hlive n hn), fun t n hn => ?_,
    fun t n hn => ?_, h.untagged, fun x hx => ⟨(h.own x hx).1, ?_⟩⟩
  · change w.delivered ≤ s.posted.length
    rw [hposted, List.length_append]
    exact Nat.le_add_right_of_le h.count
  · change x ∈ s.posted at hx
    rw [hposted] at hx
    rcases List.mem_append.mp hx with hx | hx
    · exact h.replies x hx
    · exact hreplies x hx
  · obtain ⟨htag, hnone, hnot⟩ := h.pending t n hn
    exact ⟨htag, hnone, by rw [← htake] at hnot; exact hnot⟩
  · obtain ⟨htag, hnot, haw⟩ := h.cancelled t n hn
    exact ⟨htag, by rw [← htake] at hnot; exact hnot, hawaited n haw⟩
  · change (x.2.1, x.2.2) ∈ s.posted
    rw [hposted]
    exact List.mem_append_left _ (h.own x hx).2

theorem reply_tag {tag : Nat} (htag : tag < 65536) {value : Option (Option Bytes)} {frame : Bytes} (h : ReplyTo tag value frame)
    (hvalue : ∀ v, value = some v → ∀ response, cloneFrameBytes v "9P response frame" = .ok response → tag = frameTag response) :
    tag = frameTag frame ∧ cloneFrameBytes (some frame) "9P response frame" = .ok frame := by
  rcases h with rfl | rfl | ⟨v, hv, hclone⟩
  · unfold encodeP9ErrorFrame
    rw [frameTag_encodeP9Frame, Nat.mod_eq_of_lt htag]
    exact ⟨rfl, cloneFrameBytes_encodeP9Frame _ _ _ (by simp) _⟩
  · rw [frameTag_encodeP9Frame, Nat.mod_eq_of_lt htag]
    exact ⟨rfl, cloneFrameBytes_encodeP9Frame _ _ _ (by simp) _⟩
  · refine ⟨hvalue v hv frame hclone, ?_⟩
    rw [cloneFrameBytes_eq_ok hclone] at hclone
    exact hclone

theorem Inv.serve (h : Inv w) (result : FacadeResult) (hok : w.Orderly (.serve result)) : Inv (w.step (.serve result)) := by
  unfold P9Wire.step
  dsimp only
  cases hlog : w.client.log[w.server.next]? with
  | none => exact h
  | some x =>
    obtain ⟨frame, target⟩ := x
    have hlt : w.server.next < w.client.log.length := (List.getElem?_eq_some_iff.mp hlog).1
    have htagOf : w.tagOf w.server.next = some (frameTag frame) := by
      unfold tagOf
      rw [hlog]
      rfl
    have hfresh : w.server.next ∉ w.server.posted.map Prod.fst ++ w.server.calls.map Prod.fst := fun hmem =>
      Nat.lt_irrefl _ (h.old _ hmem)
    obtain ⟨hnext, hstarted, heffect⟩ := message_effect (h.frames (frame, target) (List.mem_of_getElem? hlog)).1 h.started result
    dsimp only
    generalize w.server.step (.message frame result) = s' at hnext hstarted heffect
    have hawaited : (frameType frame = tflush → ∃ reply, (w.server.next, reply) ∈ s'.posted) →
        (∀ x ∈ w.server.posted, x ∈ s'.posted) → ∀ n, w.Awaited n → Awaited { w with server := s' } n := by
      intro hflush hmono n haw
      rcases haw with ⟨reply, hmem⟩ | ⟨hge, x, hx, htype⟩ | ⟨m, flush, hge, hm⟩
      · exact .inl ⟨reply, hmono _ hmem⟩
      · rcases Nat.lt_or_eq_of_le hge with hgt | heq
        · exact .inr (.inl ⟨by change s'.next ≤ n; omega, x, hx, htype⟩)
        · rw [← heq, hlog] at hx
          cases hx
          rw [← heq]
          exact .inl (hflush htype)
      · rcases Nat.lt_or_eq_of_le hge with hgt | heq
        · exact .inr (.inr ⟨m, flush, by change s'.next ≤ m; omega, hm⟩)
        · rw [← heq] at hm
          obtain ⟨reply, hmem⟩ := hok.1 flush n hm
          exact .inl ⟨reply, hmono _ hmem⟩
    rcases heffect with ⟨reply, hposted, hcalls, hreply⟩ | ⟨htype, hposted, hcalls⟩
    · obtain ⟨hreplyTag, hclone⟩ := reply_tag (frameTag_lt frame) hreply fun v hv response hresponse => by
        cases result with
        | returns value =>
          obtain rfl : value = v := Option.some.inj hv
          have htagged := hok.2 value rfl response hresponse
          rw [htagOf] at htagged
          exact Option.some.inj htagged
        | throws message => cases hv
        | promise => cases hv
      refine h.server hposted hstarted (by omega) ?_ ?_ ?_ (by rw [hcalls]; exact h.callTags) ?_ (hawaited ?_ ?_)
      · rw [hposted, hcalls, List.map_append]
        have hperm : (w.server.posted.map Prod.fst ++ [w.server.next] ++ w.server.calls.map Prod.fst).Perm
            (w.server.next :: (w.server.posted.map Prod.fst ++ w.server.calls.map Prod.fst)) := by
          rw [List.append_assoc]
          exact List.perm_middle
        exact hperm.nodup_iff.mpr (List.nodup_cons.mpr ⟨hfresh, h.once⟩)
      · intro n hn
        rw [hposted, hcalls, List.map_append] at hn
        rw [hnext]
        simp only [List.mem_append, List.map_cons, List.map_nil, List.mem_singleton] at hn
        rcases hn with (hn | hn) | hn
        · exact Nat.lt_succ_of_lt (h.old n (List.mem_append_left _ hn))
        · rw [hn]
          exact Nat.lt_succ_self _
        · exact Nat.lt_succ_of_lt (h.old n (List.mem_append_right _ hn))
      · intro x hx
        rw [List.mem_singleton.mp hx, htagOf, ← hreplyTag]
        exact ⟨rfl, hclone⟩
      · rintro n (⟨hge, hlen⟩ | hmem | hmem)
        · change s'.next ≤ n at hge
          exact .inl ⟨by omega, hlen⟩
        · change n ∈ s'.calls.map Prod.fst at hmem
          rw [hcalls] at hmem
          exact .inr (.inl hmem)
        · change n ∈ (s'.posted.drop w.delivered).map Prod.fst at hmem
          rw [hposted, List.drop_append_of_le_length h.count, List.map_append] at hmem
          rcases List.mem_append.mp hmem with hmem | hmem
          · exact .inr (.inr hmem)
          · have heq : n = w.server.next := by simpa using hmem
            rw [heq]
            exact .inl ⟨Nat.le_refl _, hlt⟩
      · intro _
        refine ⟨reply, ?_⟩
        rw [hposted]
        exact List.mem_append_right _ List.mem_cons_self
      · intro x hx
        rw [hposted]
        exact List.mem_append_left _ hx
    · have hcalls' : ∃ more : List (Nat × Nat), s'.calls = w.server.calls ++ more ∧ (more = [(w.server.next, frameTag frame)] ∨ more = []) := by
        rcases hcalls with hc | hc
        · exact ⟨_, hc, .inl rfl⟩
        · exact ⟨[], by rw [hc, List.append_nil], .inr rfl⟩
      obtain ⟨more, hcalls, hmore⟩ := hcalls'
      have hmem_more : ∀ x ∈ more, x = (w.server.next, frameTag frame) := by
        rcases hmore with rfl | rfl
        · exact fun x hx => List.mem_singleton.mp hx
        · exact nofun
      have hextra : s'.posted = w.server.posted ++ [] := by rw [hposted, List.append_nil]
      refine h.server hextra hstarted (by omega) ?_ ?_ nofun ?_ ?_ (hawaited (fun ht => absurd ht htype) fun x hx => by rw [hposted]; exact hx)
      · rw [hposted, hcalls, List.map_append, ← List.append_assoc, List.nodup_append]
        refine ⟨h.once, ?_, fun a ha b hb hab => ?_⟩
        · rcases hmore with rfl | rfl
          · exact List.nodup_singleton _
          · exact List.nodup_nil
        · obtain ⟨x, hx, rfl⟩ := List.mem_map.mp hb
          rw [hmem_more x hx] at hab
          rw [hab] at ha
          exact hfresh ha
      · intro n hn
        rw [hposted, hcalls, List.map_append, ← List.append_assoc] at hn
        rw [hnext]
        rcases List.mem_append.mp hn with hn | hn
        · exact Nat.lt_succ_of_lt (h.old n hn)
        · obtain ⟨x, hx, rfl⟩ := List.mem_map.mp hn
          rw [hmem_more x hx]
          exact Nat.lt_succ_self _
      · intro x hx
        rw [hcalls] at hx
        rcases List.mem_append.mp hx with hx | hx
        · exact h.callTags x hx
        · rw [hmem_more x hx]
          exact htagOf
      · rintro n (⟨hge, hlen⟩ | hmem | hmem)
        · change s'.next ≤ n at hge
          exact .inl ⟨by omega, hlen⟩
        · change n ∈ s'.calls.map Prod.fst at hmem
          rw [hcalls, List.map_append] at hmem
          rcases List.mem_append.mp hmem with hmem | hmem
          · exact .inr (.inl hmem)
          · obtain ⟨x, hx, rfl⟩ := List.mem_map.mp hmem
            rw [hmem_more x hx]
            exact .inl ⟨Nat.le_refl _, hlt⟩
        · change n ∈ (s'.posted.drop w.delivered).map Prod.fst at hmem
          rw [hposted] at hmem
          exact .inr (.inr hmem)

theorem Inv.settle (h : Inv w) (number : Nat) (outcome : Except String (Option Bytes)) (hok : w.Orderly (.settle number outcome)) :
    Inv (w.step (.settle number outcome)) := by
  obtain ⟨hnext, hstarted, hcalls, hposted⟩ := settle_effect (s := w.server) number outcome
  unfold P9Wire.step
  dsimp only
  generalize w.server.step (.settle number outcome) = s' at hnext hstarted hcalls hposted
  have hsub : s'.calls.Sublist w.server.calls := by
    rcases hcalls with hc | ⟨hc, -⟩
    · rw [hc]
      exact List.filter_sublist
    · rw [hc]
  have hawaited : (∀ x ∈ w.server.posted, x ∈ s'.posted) → ∀ n, w.Awaited n → Awaited { w with server := s' } n := by
    intro hmono n haw
    rcases haw with ⟨reply, hmem⟩ | ⟨hge, hx⟩ | ⟨m, flush, hge, hm⟩
    · exact .inl ⟨reply, hmono _ hmem⟩
    · exact .inr (.inl ⟨by rw [hnext]; exact hge, hx⟩)
    · exact .inr (.inr ⟨m, flush, by rw [hnext]; exact hge, hm⟩)
  have hhandled : s'.next ≤ w.client.log.length := by
    rw [hnext]
    exact h.handled
  have htags : ∀ x ∈ s'.calls, w.tagOf x.1 = some x.2 := fun x hx => h.callTags x (hsub.subset hx)
  rcases hposted with hsame | ⟨tag, reply, hmem, happend, hreply⟩
  · have hextra : s'.posted = w.server.posted ++ [] := by rw [hsame, List.append_nil]
    have hlist : (s'.posted.map Prod.fst ++ s'.calls.map Prod.fst).Sublist (w.server.posted.map Prod.fst ++ w.server.calls.map Prod.fst) := by
      rw [hsame]
      exact List.Sublist.append (List.Sublist.refl _) (hsub.map _)
    refine h.server hextra (hstarted.trans h.started) hhandled (h.once.sublist hlist) (fun n hn => ?_) nofun htags ?_
      (hawaited fun x hx => by rw [hsame]; exact hx)
    · rw [hnext]
      exact h.old n (hlist.subset hn)
    · rintro n (⟨hge, hlen⟩ | hmem | hmem)
      · exact .inl ⟨by rw [hnext] at hge; exact hge, hlen⟩
      · exact .inr (.inl ((hsub.map Prod.fst).subset hmem))
      · change n ∈ (s'.posted.drop w.delivered).map Prod.fst at hmem
        rw [hsame] at hmem
        exact .inr (.inr hmem)
  · have hcalls : s'.calls = w.server.calls.filter (·.1 ≠ number) := by
      rcases hcalls with hc | ⟨-, hp⟩
      · exact hc
      · rw [hp] at happend
        exact absurd happend (by simp)
    have htagOf : w.tagOf number = some tag := h.callTags (number, tag) hmem
    have htag : tag < 65536 := by
      obtain ⟨x, -, hx⟩ := Option.map_eq_some_iff.mp htagOf
      rw [← hx]
      exact frameTag_lt _
    obtain ⟨hreplyTag, hclone⟩ := reply_tag htag hreply fun v hv response hresponse => by
      cases outcome with
      | ok value =>
        obtain rfl : value = v := Option.some.inj hv
        have htagged := hok value rfl response hresponse
        rw [htagOf] at htagged
        exact Option.some.inj htagged
      | error message => cases hv
    have hnumber : number ∈ w.server.calls.map Prod.fst := List.mem_map_of_mem hmem
    have hnot : number ∉ w.server.posted.map Prod.fst := fun hp => (List.nodup_append.mp h.once).2.2 number hp number hnumber rfl
    have hgone : number ∉ s'.calls.map Prod.fst := by
      rw [hcalls]
      simp
    refine h.server happend (hstarted.trans h.started) hhandled ?_ (fun n hn => ?_) ?_ htags ?_
      (hawaited fun x hx => by rw [happend]; exact List.mem_append_left _ hx)
    · rw [happend, List.map_append]
      have hperm : (w.server.posted.map Prod.fst ++ [number] ++ s'.calls.map Prod.fst).Perm
          (number :: (w.server.posted.map Prod.fst ++ s'.calls.map Prod.fst)) := by
        rw [List.append_assoc]
        exact List.perm_middle
      refine hperm.nodup_iff.mpr (List.nodup_cons.mpr ⟨fun hm => ?_, ?_⟩)
      · rcases List.mem_append.mp hm with hm | hm
        · exact hnot hm
        · exact hgone hm
      · exact h.once.sublist (List.Sublist.append (List.Sublist.refl _) (hsub.map _))
    · rw [hnext]
      rw [happend, List.map_append] at hn
      simp only [List.mem_append, List.map_cons, List.map_nil, List.mem_singleton] at hn
      rcases hn with (hn | hn) | hn
      · exact h.old n (List.mem_append_left _ hn)
      · rw [hn]
        exact h.old number (List.mem_append_right _ hnumber)
      · exact h.old n (List.mem_append_right _ ((hsub.map Prod.fst).subset hn))
    · intro x hx
      rw [List.mem_singleton.mp hx, htagOf, ← hreplyTag]
      exact ⟨rfl, hclone⟩
    · rintro n (⟨hge, hlen⟩ | hm | hm)
      · exact .inl ⟨by rw [hnext] at hge; exact hge, hlen⟩
      · exact .inr (.inl ((hsub.map Prod.fst).subset hm))
      · change n ∈ (s'.posted.drop w.delivered).map Prod.fst at hm
        rw [happend, List.drop_append_of_le_length h.count, List.map_append] at hm
        rcases List.mem_append.mp hm with hm | hm
        · exact .inr (.inr hm)
        · have heq : n = number := by simpa using hm
          rw [heq]
          exact .inr (.inl hnumber)

/-! ## Frames the client posts -/

section
variable {c : P9PortClient} {frame : Bytes} {target : Option Nat}

theorem log_get (hlog : c.log = w.client.log ++ [(frame, target)]) (n : Nat) :
    c.log[n]? = if n = w.client.log.length then some (frame, target) else w.client.log[n]? := by
  rw [hlog]
  by_cases hn : n = w.client.log.length
  · rw [hn, if_pos rfl]
    simp
  · rw [if_neg hn]
    by_cases hlt : n < w.client.log.length
    · exact List.getElem?_append_left hlt
    · rw [List.getElem?_eq_none (by simp; omega), List.getElem?_eq_none (by omega)]

theorem tagOf_post (hlog : c.log = w.client.log ++ [(frame, target)]) (n : Nat) :
    tagOf { w with client := c } n = if n = w.client.log.length then some (frameTag frame) else w.tagOf n := by
  unfold tagOf
  dsimp only
  rw [log_get hlog]
  by_cases hn : n = w.client.log.length
  · rw [if_pos hn, if_pos hn]
    rfl
  · rw [if_neg hn, if_neg hn]

theorem tagOf_post_old (hlog : c.log = w.client.log ++ [(frame, target)]) {n t : Nat} (htag : w.tagOf n = some t) :
    tagOf { w with client := c } n = some t := by
  rw [tagOf_post hlog, if_neg (Nat.ne_of_lt (tagOf_lt htag)), htag]

theorem awaited_post (hlog : c.log = w.client.log ++ [(frame, target)]) {n : Nat} (haw : w.Awaited n) :
    Awaited { w with client := c } n := by
  have hget : ∀ {k : Nat} {x : Bytes × Option Nat}, w.client.log[k]? = some x → c.log[k]? = some x := by
    intro k x hx
    rw [log_get hlog, if_neg (Nat.ne_of_lt (List.getElem?_eq_some_iff.mp hx).1), hx]
  rcases haw with hanswered | ⟨hge, x, hx, htype⟩ | ⟨m, flush, hge, hm⟩
  · exact .inl hanswered
  · exact .inr (.inl ⟨hge, x, hget hx, htype⟩)
  · exact .inr (.inr ⟨m, flush, hge, hget hm⟩)

theorem live_post (hlog : c.log = w.client.log ++ [(frame, target)]) {n : Nat} (hlive : Live { w with client := c } n)
    (hn : n ≠ w.client.log.length) : w.Live n := by
  rcases hlive with ⟨hge, hlt⟩ | hmem | hmem
  · change n < c.log.length at hlt
    rw [hlog, List.length_append, List.length_singleton] at hlt
    exact .inl ⟨hge, by omega⟩
  · exact .inr (.inl hmem)
  · exact .inr (.inr hmem)

/-- A new message has not been answered. -/
theorem Inv.new_undelivered (h : Inv w) : w.client.log.length ∉ (w.server.posted.take w.delivered).map Prod.fst := by
  intro hmem
  have hposted := ((List.take_sublist _ _).map Prod.fst).subset hmem
  have hlt := h.old _ (List.mem_append_left _ hposted)
  have hle := h.handled
  omega

theorem Inv.post (h : Inv w) (hlog : c.log = w.client.log ++ [(frame, target)])
    (hclone : cloneFrameBytes (some frame) "9P request frame" = .ok frame) (hne : frameTag frame ≠ P9Port.notag)
    (huntagged : c.notagPending = []) (hresolved : c.resolved = w.client.resolved)
    (hlive : ∀ n t, Live { w with client := c } n → tagOf { w with client := c } n = some t →
      c.pending[t]? = some n ∨ c.cancelledTags[t]? = some n)
    (hpending : ∀ t n, c.pending[t]? = some n → tagOf { w with client := c } n = some t ∧ c.cancelledTags[t]? = none ∧
      n ∉ (w.server.posted.take w.delivered).map Prod.fst)
    (hcancelled : ∀ t n, c.cancelledTags[t]? = some n → tagOf { w with client := c } n = some t ∧
      n ∉ (w.server.posted.take w.delivered).map Prod.fst ∧ Awaited { w with client := c } n) : Inv { w with client := c } := by
  refine ⟨fun x hx => ?_, h.started, ?_, h.count, h.once, h.old, fun x hx => ⟨tagOf_post_old hlog (h.replies x hx).1, (h.replies x hx).2⟩,
    fun x hx => tagOf_post_old hlog (h.callTags x hx), hlive, hpending, hcancelled, huntagged, ?_⟩
  · change x ∈ c.log at hx
    rw [hlog] at hx
    rcases List.mem_append.mp hx with hx | hx
    · exact h.frames x hx
    · rw [List.mem_singleton.mp hx]
      exact ⟨hclone, hne⟩
  · change w.server.next ≤ c.log.length
    rw [hlog, List.length_append]
    exact Nat.le_add_right_of_le h.handled
  · change ∀ x ∈ c.resolved, _
    rw [hresolved]
    exact h.own

end

theorem Inv.request (h : Inv w) (frame : Bytes) (signalled : Bool) (hok : w.Orderly (.request frame signalled)) :
    Inv (w.step (.request frame signalled)) := by
  unfold P9Wire.step P9PortClient.request
  dsimp only
  cases hclone : cloneFrameBytes (some frame) "9P request frame" with
  | error e => exact h
  | ok request =>
    obtain rfl : frame = request := Option.some.inj (cloneFrameBytes_eq_ok hclone)
    unfold P9PortClient.trackPending
    dsimp only
    rw [if_neg hok.1]
    cases hfree : w.client.pending[frameTag frame]? with
    | some other => exact h
    | none =>
      obtain ⟨hsignalled, hcancelled⟩ := hok.2 hfree
      rw [hsignalled]
      simp only [Option.isSome_none, Bool.false_eq_true, if_false]
      have hlog : (P9PortClient.post frame none
          { w.client with pending := w.client.pending.insert (frameTag frame) w.client.log.length }).log =
          w.client.log ++ [(frame, none)] := rfl
      have hget : ∀ t, (w.client.pending.insert (frameTag frame) w.client.log.length)[t]? =
          if t = frameTag frame then some w.client.log.length else w.client.pending[t]? := by
        intro t
        exact getElem?_insert_eq _ _ _ _
      refine h.post hlog hclone hok.1 h.untagged rfl (fun n t hlive htag => ?_) (fun t n hn => ?_) fun t n hn => ?_
      · change (w.client.pending.insert (frameTag frame) w.client.log.length)[t]? = some n ∨ _
        rw [hget]
        rw [tagOf_post hlog] at htag
        by_cases hn : n = w.client.log.length
        · rw [if_pos hn] at htag
          rw [if_pos (Option.some.inj htag).symm, hn]
          exact .inl rfl
        · rw [if_neg hn] at htag
          have howner := h.live n t (live_post hlog hlive hn) htag
          by_cases ht : t = frameTag frame
          · rw [ht, hfree, hcancelled] at howner
            rcases howner with hx | hx <;> cases hx
          · rw [if_neg ht]
            exact howner
      · change (w.client.pending.insert (frameTag frame) w.client.log.length)[t]? = some n at hn
        rw [hget] at hn
        split at hn
        · rename_i ht
          cases hn
          rw [tagOf_post hlog, if_pos rfl, ht]
          exact ⟨rfl, hcancelled, h.new_undelivered⟩
        · obtain ⟨htag, hnone, hnot⟩ := h.pending t n hn
          exact ⟨tagOf_post_old hlog htag, hnone, hnot⟩
      · obtain ⟨htag, hnot, haw⟩ := h.cancelled t n hn
        exact ⟨tagOf_post_old hlog htag, hnot, awaited_post hlog haw⟩

/-- The tag of a flush is free. -/
theorem allocSyntheticTag_free {c : P9PortClient} {avoid tag : Nat} (h : P9PortClient.allocSyntheticTag avoid c = some tag) :
    tag < P9Port.notag ∧ tag ≠ avoid ∧ c.pending[tag]? = none ∧ c.cancelledTags[tag]? = none := by
  unfold P9PortClient.allocSyntheticTag at h
  have hmem := List.mem_of_find?_eq_some h
  have hfree := List.find?_some h
  rw [List.mem_range'_1] at hmem
  simp only [ne_eq, decide_not, Bool.and_eq_true, Bool.not_eq_eq_eq_not, Bool.not_true, decide_eq_false_iff_not,
    Option.isSome_eq_false_iff, Option.isNone_iff_eq_none] at hfree
  refine ⟨?_, hfree.1.1, hfree.1.2, hfree.2⟩
  unfold P9Port.notag
  omega

theorem Inv.abort (h : Inv w) (tag number : Nat) (hok : w.Orderly (.abort tag number)) : Inv (w.step (.abort tag number)) := by
  unfold P9Wire.step P9PortClient.abort
  dsimp only
  split
  · rw [if_neg (by rw [h.untagged]; exact List.not_mem_nil)]
    exact h
  · rename_i hne
    split
    · rename_i hpend
      obtain ⟨flushTag, halloc⟩ := Option.isSome_iff_exists.mp (hok hpend)
      obtain ⟨hlt, havoid, hfree, hunused⟩ := allocSyntheticTag_free halloc
      have hsmall : flushTag < 65536 := Nat.lt_trans hlt (by decide)
      obtain ⟨htagOf, hnone, hundelivered⟩ := h.pending tag number hpend
      dsimp only at hfree hunused
      rw [getElem?_erase_eq, if_neg havoid] at hfree
      rw [getElem?_insert_eq, if_neg havoid] at hunused
      have hclient : P9PortClient.cancelPending tag number w.client =
          { w.client with
            pending := w.client.pending.erase tag
            cancelledTags := (w.client.cancelledTags.insert tag number).insert flushTag w.client.log.length
            log := w.client.log ++ [(encodeP9Frame tflush flushTag (leBytes 2 tag), some number)] } := by
        have huntrack : P9PortClient.untrackPending tag number w.client = { w.client with pending := w.client.pending.erase tag } := by
          unfold P9PortClient.untrackPending
          rw [if_neg hne, if_pos hpend]
        unfold P9PortClient.cancelPending
        rw [huntrack]
        dsimp only
        rw [if_neg hne]
        unfold P9PortClient.flush
        rw [halloc]
        rfl
      rw [hclient]
      have hlog : ({ w.client with
            pending := w.client.pending.erase tag
            cancelledTags := (w.client.cancelledTags.insert tag number).insert flushTag w.client.log.length
            log := w.client.log ++ [(encodeP9Frame tflush flushTag (leBytes 2 tag), some number)] } : P9PortClient).log =
          w.client.log ++ [(encodeP9Frame tflush flushTag (leBytes 2 tag), some number)] := rfl
      have hflushTag : frameTag (encodeP9Frame tflush flushTag (leBytes 2 tag)) = flushTag := by
        rw [frameTag_encodeP9Frame, Nat.mod_eq_of_lt hsmall]
      have hcancelGet : ∀ t, ((w.client.cancelledTags.insert tag number).insert flushTag w.client.log.length)[t]? =
          if t = flushTag then some w.client.log.length else if t = tag then some number else w.client.cancelledTags[t]? := by
        intro t
        rw [getElem?_insert_eq, getElem?_insert_eq]
      refine h.post hlog (cloneFrameBytes_encodeP9Frame _ _ _ (by simp) _) (by rw [hflushTag]; exact Nat.ne_of_lt hlt) h.untagged rfl
        (fun n t hlive htag => ?_) (fun t n hn => ?_) fun t n hn => ?_
      · change (w.client.pending.erase tag)[t]? = some n ∨
          ((w.client.cancelledTags.insert tag number).insert flushTag w.client.log.length)[t]? = some n
        rw [getElem?_erase_eq, hcancelGet]
        rw [tagOf_post hlog, hflushTag] at htag
        by_cases hn : n = w.client.log.length
        · rw [if_pos hn] at htag
          rw [if_pos (Option.some.inj htag).symm, hn]
          exact .inr rfl
        · rw [if_neg hn] at htag
          have howner := h.live n t (live_post hlog hlive hn) htag
          by_cases hflush : t = flushTag
          · rw [hflush, hfree, hunused] at howner
            rcases howner with hx | hx <;> cases hx
          · rw [if_neg hflush]
            by_cases ht : t = tag
            · rw [ht, hpend, hnone] at howner
              rw [if_pos ht, if_pos ht]
              rcases howner with hx | hx
              · exact .inr hx
              · cases hx
            · rw [if_neg ht, if_neg ht]
              exact howner
      · change (w.client.pending.erase tag)[t]? = some n at hn
        rw [getElem?_erase_eq] at hn
        split at hn
        · cases hn
        · rename_i ht
          obtain ⟨htag, hnone', hnot⟩ := h.pending t n hn
          refine ⟨tagOf_post_old hlog htag, ?_, hnot⟩
          change ((w.client.cancelledTags.insert tag number).insert flushTag w.client.log.length)[t]? = none
          have hflush : t ≠ flushTag := by
            rintro rfl
            rw [hfree] at hn
            cases hn
          rw [hcancelGet, if_neg hflush, if_neg ht]
          exact hnone'
      · change ((w.client.cancelledTags.insert tag number).insert flushTag w.client.log.length)[t]? = some n at hn
        rw [hcancelGet] at hn
        have hself : (w.client.log ++ [(encodeP9Frame tflush flushTag (leBytes 2 tag), some number)])[w.client.log.length]? =
            some (encodeP9Frame tflush flushTag (leBytes 2 tag), some number) := by simp
        split at hn
        · rename_i ht
          cases hn
          rw [tagOf_post hlog, if_pos rfl, hflushTag, ht]
          refine ⟨rfl, h.new_undelivered, .inr (.inl ⟨h.handled, _, hself, ?_⟩)⟩
          rw [frameType_encodeP9Frame]
          rfl
        · split at hn
          · rename_i ht
            cases hn
            rw [ht]
            exact ⟨tagOf_post_old hlog htagOf, hundelivered, .inr (.inr ⟨_, _, h.handled, hself⟩)⟩
          · obtain ⟨htag, hnot, haw⟩ := h.cancelled t n hn
            exact ⟨tagOf_post_old hlog htag, hnot, awaited_post hlog haw⟩
    · exact h

theorem Inv.deliver (h : Inv w) : Inv (w.step .deliver) := by
  unfold P9Wire.step
  dsimp only
  cases hget : w.server.posted[w.delivered]? with
  | none => exact h
  | some x =>
    obtain ⟨number, frame⟩ := x
    have hmem : (number, frame) ∈ w.server.posted := List.mem_of_getElem? hget
    have hlt : w.delivered < w.server.posted.length := (List.getElem?_eq_some_iff.mp hget).1
    obtain ⟨htag, hclone⟩ := h.replies (number, frame) hmem
    have hdrop : w.server.posted.drop w.delivered = (number, frame) :: w.server.posted.drop (w.delivered + 1) := by
      rw [List.drop_eq_getElem_cons hlt]
      rw [List.getElem?_eq_getElem hlt] at hget
      rw [Option.some.inj hget]
    have htake : w.server.posted.take (w.delivered + 1) = w.server.posted.take w.delivered ++ [(number, frame)] := by
      rw [List.take_add_one, hget]
      rfl
    have howner := h.live number _ (.inr (.inr (by rw [hdrop]; simp))) htag
    -- the message is answered once, so nothing of it is left
    have hgone : ∀ n, Live { w with delivered := w.delivered + 1 } n → w.Live n ∧ n ≠ number := by
      have hposted : (w.server.posted.map Prod.fst).Nodup := (List.nodup_append.mp h.once).1
      rintro n (⟨hge, hlen⟩ | hcall | hleft)
      · have hold := h.old number (List.mem_append_left _ (List.mem_map_of_mem hmem))
        exact ⟨.inl ⟨hge, hlen⟩, by change w.server.next ≤ n at hge; omega⟩
      · refine ⟨.inr (.inl hcall), ?_⟩
        rintro rfl
        exact (List.nodup_append.mp h.once).2.2 n (List.mem_map_of_mem hmem) n hcall rfl
      · change n ∈ (w.server.posted.drop (w.delivered + 1)).map Prod.fst at hleft
        refine ⟨.inr (.inr (by rw [hdrop]; exact List.mem_cons_of_mem _ hleft)), ?_⟩
        rintro rfl
        have hnodup := hposted.sublist ((List.drop_sublist w.delivered w.server.posted).map Prod.fst)
        rw [hdrop, List.map_cons] at hnodup
        exact (List.nodup_cons.mp hnodup).1 hleft
    have hundelivered : ∀ {n t}, w.tagOf n = some t → t ≠ frameTag frame → n ∉ (w.server.posted.take w.delivered).map Prod.fst →
        n ∉ (w.server.posted.take (w.delivered + 1)).map Prod.fst := by
      intro n t htag' hne hnot
      rw [htake, List.map_append, List.mem_append]
      rintro (hx | hx)
      · exact hnot hx
      · have heq : n = number := by simpa using hx
        rw [heq, htag] at htag'
        exact hne (Option.some.inj htag').symm
    have hother : ∀ {n t}, Live { w with delivered := w.delivered + 1 } n → w.tagOf n = some t → t ≠ frameTag frame := by
      intro n t hlive htag' heq
      obtain ⟨hold, hne⟩ := hgone n hlive
      rw [heq] at htag'
      rcases h.live n _ hold htag' with hx | hx
      · rcases howner with hy | hy
        · rw [hx] at hy
          exact hne (Option.some.inj hy)
        · rw [(h.pending _ _ hx).2.1] at hy
          cases hy
      · rcases howner with hy | hy
        · rw [(h.pending _ _ hy).2.1] at hx
          cases hx
        · rw [hx] at hy
          exact hne (Option.some.inj hy)
    dsimp only
    unfold P9PortClient.handleMessage
    rw [hclone]
    dsimp only
    rw [if_neg (h.tag_ne htag)]
    rcases howner with hpend | hcancel
    · rw [hpend]
      refine ⟨h.frames, h.started, h.handled, hlt, h.once, h.old, h.replies, h.callTags, fun n t hlive htag' => ?_, fun t n hn => ?_,
        fun t n hn => ?_, h.untagged, fun x hx => ?_⟩
      · change (w.client.pending.erase (frameTag frame))[t]? = some n ∨ _
        rw [getElem?_erase_eq, if_neg (hother hlive htag')]
        exact h.live n t (hgone n hlive).1 htag'
      · change (w.client.pending.erase (frameTag frame))[t]? = some n at hn
        rw [getElem?_erase_eq] at hn
        split at hn
        · cases hn
        · rename_i ht
          obtain ⟨htag', hnone, hnot⟩ := h.pending t n hn
          exact ⟨htag', hnone, hundelivered htag' ht hnot⟩
      · obtain ⟨htag', hnot, haw⟩ := h.cancelled t n hn
        have ht : t ≠ frameTag frame := by
          rintro rfl
          have hnone := (h.pending _ _ hpend).2.1
          change w.client.cancelledTags[frameTag frame]? = some n at hn
          rw [hnone] at hn
          cases hn
        exact ⟨htag', hundelivered htag' ht hnot, haw⟩
      · rcases List.mem_append.mp hx with hx | hx
        · exact h.own x hx
        · rw [List.mem_singleton.mp hx]
          exact ⟨rfl, hmem⟩
    · have hnone : w.client.pending[frameTag frame]? = none := by
        by_contra hne
        obtain ⟨n, hn⟩ := Option.ne_none_iff_exists'.mp hne
        rw [(h.pending _ _ hn).2.1] at hcancel
        cases hcancel
      rw [hnone]
      refine ⟨h.frames, h.started, h.handled, hlt, h.once, h.old, h.replies, h.callTags, fun n t hlive htag' => ?_, fun t n hn => ?_,
        fun t n hn => ?_, h.untagged, h.own⟩
      · change _ ∨ (w.client.cancelledTags.erase (frameTag frame))[t]? = some n
        rw [getElem?_erase_eq, if_neg (hother hlive htag')]
        exact h.live n t (hgone n hlive).1 htag'
      · obtain ⟨htag', hno, hnot⟩ := h.pending t n hn
        have ht : t ≠ frameTag frame := by
          rintro rfl
          change w.client.pending[frameTag frame]? = some n at hn
          rw [hnone] at hn
          cases hn
        refine ⟨htag', ?_, hundelivered htag' ht hnot⟩
        change (w.client.cancelledTags.erase (frameTag frame))[t]? = none
        rw [getElem?_erase_eq, if_neg ht]
        exact hno
      · change (w.client.cancelledTags.erase (frameTag frame))[t]? = some n at hn
        rw [getElem?_erase_eq] at hn
        split at hn
        · cases hn
        · rename_i ht
          obtain ⟨htag', hnot, haw⟩ := h.cancelled t n hn
          exact ⟨htag', hundelivered htag' ht hnot, haw⟩

theorem Inv.step (h : Inv w) (op : P9WireOp) (hok : w.Orderly op) : Inv (w.step op) := by
  cases op with
  | request frame signalled => exact h.request frame signalled hok
  | abort tag number => exact h.abort tag number hok
  | serve result => exact h.serve result hok
  | settle number outcome => exact h.settle number outcome hok
  | deliver => exact h.deliver

end

/-- While no awaited tag is taken again, every request is resolved with the server's response to it;
while cancelled requests are answered before their flush arrives, no tag stays cancelled. -/
theorem run_ownReplies (ops : List P9WireOp) (h : StepsMeet step Orderly init ops) : OwnReplies (run step init ops) :=
  (run_invariant (fun _ op hw hok => hw.step op hok) init_inv h).drained

def reply (tag : Nat) : Bytes := encodeP9Frame 101 tag []

/-- A request is cancelled while its reply is on the way. -/
def lateRun : List P9WireOp :=
  [.request (P9Port.request 1) false, .serve (.returns (some (reply 1))), .abort 1 0, .serve .promise, .deliver, .deliver]

theorem run_ownReplies_lateRun : OwnReplies (run step init lateRun) := by
  refine run_ownReplies lateRun ?_
  unfold lateRun
  refine ⟨?_, ⟨?_, ?_⟩, ?_, ⟨?_, nofun⟩, trivial, trivial, trivial⟩
  · exact ⟨by decide +kernel, fun _ => ⟨rfl, by decide +kernel⟩⟩
  · intro frame target hlog
    cases hlog
  · intro value hvalue response hresponse
    cases hvalue
    obtain rfl : reply 1 = response := Option.some.inj (cloneFrameBytes_eq_ok hresponse)
    decide +kernel
  · intro _
    decide +kernel
  · intro frame target hlog
    have hflush : (run step init (lateRun.take 3)).client.log[1]? = some (encodeP9Frame tflush 2 (leBytes 2 1), some 0) := by
      decide +kernel
    cases hflush.symm.trans hlog
    exact ⟨reply 1, by decide +kernel⟩

/-- A tag that is taken again while the reply to the cancelled request is on the way is given that reply; and the
tag of a request that is flushed before it is answered stays cancelled. -/
theorem run_not_ownReplies :
    ¬OwnReplies (run step init [.request (P9Port.request 1) false, .abort 1 0, .request (P9Port.request 1) false,
      .serve (.returns (some (reply 1))), .deliver]) ∧
    ¬OwnReplies (run step init [.request (P9Port.request 1) false, .serve .promise, .abort 1 0, .serve .promise, .deliver]) := by
  constructor
  · intro h
    have hresolved : (run step init [.request (P9Port.request 1) false, .abort 1 0, .request (P9Port.request 1) false,
        .serve (.returns (some (reply 1))), .deliver]).client.resolved = [(2, 0, reply 1)] := by decide +kernel
    have hown := h.own (2, 0, reply 1) (by rw [hresolved]; exact List.mem_cons_self)
    exact absurd hown.1 (by decide)
  · intro h
    have hcancelled : (run step init [.request (P9Port.request 1) false, .serve .promise, .abort 1 0, .serve .promise,
        .deliver]).client.cancelledTags[1]? = some 0 := by decide +kernel
    have hpending : (run step init [.request (P9Port.request 1) false, .serve .promise, .abort 1 0, .serve .promise,
        .deliver]).client.pending.toList = [] := by decide +kernel
    rw [h.drained (by decide +kernel) (by decide +kernel) (Std.ExtTreeMap.toList_eq_nil_iff.mp hpending) (by decide +kernel)] at hcancelled
    simp at hcancelled

end P9Wire
end Star9
