import Star9.Base.Line
import Star9.Fs.Http

/-!
# The parts of a multipart body

The parser of the source slices the body at places that three searches find and
that step back over a line end. Here every slice is checked, as the language
checks it, and a loop that runs out of turns is a panic as well. The checked
parser never panics and reads what the total one reads.
-/
namespace Star9
open Base

/-! ## The checked parser -/

/-- `&body[start..stop]` -/
def slice (body : Bytes) (start stop : Nat) : Outcome Error Bytes :=
  if start ≤ stop ∧ stop ≤ body.length then .ok ((body.take stop).drop start) else .abort

/-- `body[i]` -/
def byteAt (body : Bytes) (i : Nat) : Outcome Error UInt8 :=
  match body[i]? with
  | some b => .ok b
  | none => .abort

/-- One part, with the places where the parser found it. -/
structure PartSpan where
  cursor : Nat
  bodyStart : Nat
  bodyEnd : Nat
  next : Nat
  headers : Headers
  body : Bytes

def partHeadersAt (body : Bytes) (start : Nat) : Outcome Error (Headers × Nat) :=
  match partHeaderEnd body start with
  | some (stop, next) => do
    let text ← slice body start stop
    pure ((lines (utf8Lossy text)).foldl parsePartHeaderLine ∅, next)
  | none => .err (.message "multipart part missing header terminator")

/-- `found >= 2 && &body[found - 2..found] == b"\r\n"` -/
def afterCrlf (body : Bytes) (found : Nat) : Outcome Error Bool :=
  if 2 ≤ found then (slice body (found - 2) found).map (· == [13, 10]) else .ok false

/-- `found >= 1 && body[found - 1] == b'\n'` -/
def afterLf (body : Bytes) (found : Nat) : Outcome Error Bool :=
  if 1 ≤ found then (byteAt body (found - 1)).map (· == 10) else .ok false

/-- The loop over the delimiters that are found; `n` bounds its turns. -/
def bodyEndFrom (body delimiter : Bytes) : Nat → Nat → Outcome Error (Option (Nat × Nat))
  | 0, _ => .abort
  | n + 1, search =>
    match findBytes body delimiter search with
    | none => .ok none
    | some found => do
      if ← afterCrlf body found then pure (some (found - 2, found))
      else if ← afterLf body found then pure (some (found - 1, found))
      else bodyEndFrom body delimiter n (found + 1)

def bodyEndAt (body delimiter : Bytes) (start : Nat) : Outcome Error (Option (Nat × Nat)) := do
  let rest ← slice body start body.length
  if delimiter.isPrefixOf rest then pure (some (start, start))
  else bodyEndFrom body delimiter (body.length + 1) start

/-- One turn of the loop over the parts. -/
def partSpanAt (body delimiter : Bytes) (cursor : Nat) : Outcome Error (Option PartSpan) := do
  let here ← slice body cursor body.length
  if !delimiter.isPrefixOf here then .err (.message "multipart body has invalid boundary")
  else if (body.drop (cursor + delimiter.length)).take 2 = [45, 45] then pure none
  else
    match consumeMultipartNewline body (cursor + delimiter.length) with
    | none => .err (.message "multipart body missing newline")
    | some line => do
      let (headers, bodyStart) ← partHeadersAt body line
      match ← bodyEndAt body delimiter bodyStart with
      | none => .err (.message "multipart part missing closing boundary")
      | some (bodyEnd, next) => do
        let text ← slice body bodyStart bodyEnd
        pure (some { cursor, bodyStart, bodyEnd, next, headers, body := text })

def partSpansFrom (body delimiter : Bytes) : Nat → Nat → Outcome Error (List PartSpan)
  | 0, _ => .abort
  | n + 1, cursor => do
    match ← partSpanAt body delimiter cursor with
    | none => pure []
    | some span => do
      let rest ← partSpansFrom body delimiter n span.next
      pure (span :: rest)

def multipartSpans (body : Bytes) (boundary : String) : Outcome Error (List PartSpan) :=
  let delimiter := utf8Bytes ("--" ++ boundary)
  match findBytes body delimiter 0 with
  | none => .err (.message "multipart body missing boundary")
  | some cursor => partSpansFrom body delimiter (body.length + 1) cursor

/-! ## What the searches find -/

variable {body delimiter needle haystack : Bytes} {start stop next cursor found search i n : Nat}

theorem length_of_prefix_drop (h : needle <+: haystack.drop i) (hne : needle ≠ []) : i + needle.length ≤ haystack.length := by
  have hle := h.length_le
  have hpos := List.length_pos_iff.mpr hne
  rw [List.length_drop] at hle
  omega

theorem getElem?_of_prefix_drop (h : needle <+: haystack.drop i) {k : Nat} (hk : k < needle.length) :
    haystack[i + k]? = needle[k]? := by
  obtain ⟨rest, hrest⟩ := h
  rw [← List.getElem?_drop, ← hrest, List.getElem?_append_left hk]

theorem findBytes_eq_some_iff (hne : needle ≠ []) : findBytes haystack needle start = some i ↔
    start ≤ i ∧ needle <+: haystack.drop i ∧ ∀ j, start ≤ j → j < i → ¬ needle <+: haystack.drop j := by
  have hpos := List.length_pos_iff.mpr hne
  unfold findBytes
  split
  · rename_i hout
    refine iff_of_false (by simp) ?_
    rintro ⟨hle, hpre, -⟩
    have hlen := length_of_prefix_drop hpre hne
    rcases hout with h | h | h
    · exact hne h
    · omega
    · omega
  · simp only [Option.map_eq_some_iff, List.find?_range_eq_some, List.mem_range, List.isPrefixOf_iff_prefix,
      Bool.not_eq_true', ← Bool.not_eq_true]
    constructor
    · rintro ⟨k, ⟨hpre, -, hfirst⟩, rfl⟩
      refine ⟨by omega, hpre, fun j hj hlt => ?_⟩
      have hk := hfirst (j - start) (by omega)
      rwa [Nat.add_sub_cancel' hj] at hk
    · rintro ⟨hle, hpre, hfirst⟩
      have hlen := length_of_prefix_drop hpre hne
      refine ⟨i - start, ⟨?_, by omega, fun j hj => hfirst (start + j) (by omega) (by omega)⟩, by omega⟩
      rwa [Nat.add_sub_cancel' hle]

theorem findBytes_eq_none_iff (hne : needle ≠ []) : findBytes haystack needle start = none ↔
    ∀ j, start ≤ j → ¬ needle <+: haystack.drop j := by
  constructor
  · intro hnone j hj hpre
    by_contra
    obtain ⟨i, ⟨hi, hfound⟩, hleast⟩ := Nat.findX (⟨j, hj, hpre⟩ : ∃ j, start ≤ j ∧ needle <+: haystack.drop j)
    have hsome := (findBytes_eq_some_iff hne).mpr ⟨hi, hfound, fun k hk hlt hpre => hleast k hlt ⟨hk, hpre⟩⟩
    rw [hnone] at hsome
    cases hsome
  · intro h
    cases hfind : findBytes haystack needle start with
    | none => rfl
    | some i =>
      obtain ⟨hle, hpre, -⟩ := (findBytes_eq_some_iff hne).mp hfind
      exact absurd hpre (h i hle)

/-- A delimiter at the start of a line. -/
def DelimiterAt (body delimiter : Bytes) (p : Nat) : Prop :=
  delimiter <+: body.drop p ∧ 1 ≤ p ∧ body[p - 1]? = some 10

/-- Where the line before a delimiter ends. -/
def lineEnd (body : Bytes) (p : Nat) : Nat := if 2 ≤ p ∧ (body.drop (p - 2)).take 2 = [13, 10] then p - 2 else p - 1

theorem newline_of_crlf {p : Nat} (hp : 2 ≤ p) (h : (body.drop (p - 2)).take 2 = [13, 10]) : body[p - 1]? = some 10 := by
  have hsecond : ((body.drop (p - 2)).take 2)[1]? = some 10 := by
    rw [h]
    rfl
  rw [List.getElem?_take_of_lt (by decide), List.getElem?_drop] at hsecond
  rwa [show p - 2 + 1 = p - 1 by omega] at hsecond

/-- One delimiter that the search finds ends the part, or the search goes on behind it. -/
theorem findBodyEndFrom_succ (hfind : findBytes body delimiter search = some found) :
    findBodyEndFrom body delimiter (n + 1) search =
      if 1 ≤ found ∧ body[found - 1]? = some 10 then some (lineEnd body found, found)
      else findBodyEndFrom body delimiter n (found + 1) := by
  rw [findBodyEndFrom, hfind]
  dsimp only
  unfold lineEnd
  by_cases hcrlf : 2 ≤ found ∧ (body.drop (found - 2)).take 2 = [13, 10]
  · rw [if_pos hcrlf, if_pos ⟨by omega, newline_of_crlf hcrlf.1 hcrlf.2⟩, if_pos hcrlf]
  · rw [if_neg hcrlf, if_neg hcrlf]

theorem findBodyEndFrom_of_delimiterAt (hne : delimiter ≠ []) (hat : DelimiterAt body delimiter found)
    (hfirst : ∀ j, search ≤ j → j < found → ¬ DelimiterAt body delimiter j) (hle : search ≤ found)
    (hn : found < n + search) : findBodyEndFrom body delimiter n search = some (lineEnd body found, found) := by
  induction n generalizing search with
  | zero => omega
  | succ n ih =>
    cases hfind : findBytes body delimiter search with
    | none => exact absurd hat.1 ((findBytes_eq_none_iff hne).mp hfind found hle)
    | some i =>
      obtain ⟨hi, hpre, hleast⟩ := (findBytes_eq_some_iff hne).mp hfind
      have hbound : i ≤ found := by
        by_contra hlt
        exact hleast found hle (by omega) hat.1
      rw [findBodyEndFrom_succ hfind]
      rcases Nat.eq_or_lt_of_le hbound with rfl | hlt
      · rw [if_pos hat.2]
      · rw [if_neg fun hline => hfirst i hi hlt ⟨hpre, hline⟩]
        exact ih (fun j hj => hfirst j (by omega)) hlt (by omega)

theorem delimiterAt_of_findBodyEndFrom (hne : delimiter ≠ []) (h : findBodyEndFrom body delimiter n search = some (stop, next)) :
    search ≤ next ∧ DelimiterAt body delimiter next ∧ stop = lineEnd body next := by
  induction n generalizing search with
  | zero => cases h
  | succ n ih =>
    cases hfind : findBytes body delimiter search with
    | none =>
      rw [findBodyEndFrom, hfind] at h
      cases h
    | some i =>
      obtain ⟨hi, hpre, -⟩ := (findBytes_eq_some_iff hne).mp hfind
      rw [findBodyEndFrom_succ hfind] at h
      split at h
      · rename_i hline
        cases h
        exact ⟨hi, ⟨hpre, hline⟩, rfl⟩
      · obtain ⟨hle, hrest⟩ := ih h
        exact ⟨by omega, hrest⟩

/-! ## Every slice is in range -/

theorem slice_of_le (hle : start ≤ stop) (hlen : stop ≤ body.length) :
    slice body start stop = .ok ((body.take stop).drop start) := if_pos ⟨hle, hlen⟩

theorem afterCrlf_eq (hfound : found ≤ body.length) :
    afterCrlf body found = .ok (decide (2 ≤ found ∧ (body.drop (found - 2)).take 2 = [13, 10])) := by
  unfold afterCrlf
  split
  · rename_i htwo
    rw [slice_of_le (by omega) hfound, List.drop_take, show found - (found - 2) = 2 by omega]
    simp [Outcome.map, htwo, beq_eq_decide]
  · rename_i htwo
    simp [htwo]

theorem afterLf_eq (hfound : found ≤ body.length) :
    afterLf body found = .ok (decide (1 ≤ found ∧ body[found - 1]? = some 10)) := by
  unfold afterLf byteAt
  split
  · rename_i hone
    rw [List.getElem?_eq_getElem (by omega)]
    simp [Outcome.map, hone, beq_eq_decide]
  · rename_i hone
    simp [hone]

/-- The checked search finds what the total one finds, when it has a turn for every place that is left. -/
theorem bodyEndFrom_eq (hne : delimiter ≠ []) (hn : body.length < n + search) (hpos : 0 < n) :
    bodyEndFrom body delimiter n search = .ok (findBodyEndFrom body delimiter n search) := by
  induction n generalizing search with
  | zero => omega
  | succ n ih =>
    cases hfind : findBytes body delimiter search with
    | none => rw [bodyEndFrom, findBodyEndFrom, hfind]
    | some i =>
      obtain ⟨hi, hpre, -⟩ := (findBytes_eq_some_iff hne).mp hfind
      have hlen := length_of_prefix_drop hpre hne
      have hpos := List.length_pos_iff.mpr hne
      rw [bodyEndFrom, findBodyEndFrom, hfind]
      dsimp only
      rw [afterCrlf_eq (by omega), afterLf_eq (by omega), Outcome.ok_bind, Outcome.ok_bind, ih (by omega) (by omega)]
      simp only [decide_eq_true_eq, Outcome.pure_eq_ok]
      split
      · rfl
      · split
        · rfl
        · rfl

/-- A header block ends in a newline, before the body. -/
theorem partHeaderEnd_spec (h : partHeaderEnd body start = some (stop, next)) :
    start ≤ stop ∧ stop + 2 ≤ next ∧ next ≤ body.length ∧ body[next - 1]? = some 10 := by
  have hcrlf : ∀ i, findBytes body [13, 10, 13, 10] start = some i → start ≤ i ∧ i + 2 ≤ i + 4 ∧ i + 4 ≤ body.length ∧
      body[i + 4 - 1]? = some 10 := by
    intro i hi
    obtain ⟨hle, hpre, -⟩ := (findBytes_eq_some_iff (by simp)).mp hi
    exact ⟨hle, by omega, length_of_prefix_drop hpre (by simp), getElem?_of_prefix_drop hpre (by decide)⟩
  have hlf : ∀ i, findBytes body [10, 10] start = some i → start ≤ i ∧ i + 2 ≤ i + 2 ∧ i + 2 ≤ body.length ∧
      body[i + 2 - 1]? = some 10 := by
    intro i hi
    obtain ⟨hle, hpre, -⟩ := (findBytes_eq_some_iff (by simp)).mp hi
    exact ⟨hle, le_rfl, length_of_prefix_drop hpre (by simp), getElem?_of_prefix_drop hpre (by decide)⟩
  unfold partHeaderEnd at h
  cases hc : findBytes body [13, 10, 13, 10] start with
  | none =>
    cases hl : findBytes body [10, 10] start with
    | none => simp [hc, hl] at h
    | some lf =>
      simp only [hc, hl, Option.some.injEq, Prod.mk.injEq] at h
      obtain ⟨rfl, rfl⟩ := h
      exact hlf lf hl
  | some crlf =>
    cases hl : findBytes body [10, 10] start with
    | none =>
      simp only [hc, hl, Option.some.injEq, Prod.mk.injEq] at h
      obtain ⟨rfl, rfl⟩ := h
      exact hcrlf crlf hc
    | some lf =>
      simp only [hc, hl] at h
      split at h
      · cases h
        exact hcrlf _ hc
      · cases h
        exact hlf _ hl

theorem lineEnd_le (body : Bytes) (found : Nat) : lineEnd body found ≤ found := by
  unfold lineEnd
  split
  · omega
  · omega

/-- The part does not end before it starts: the byte before its start is a newline, so no
carriage return stands there. -/
theorem le_lineEnd (hle : start < found) (hnl : body[start - 1]? = some 10) (hstart : 1 ≤ start) : start ≤ lineEnd body found := by
  unfold lineEnd
  split
  · rename_i hcrlf
    obtain ⟨htwo, hbytes⟩ := hcrlf
    by_contra hlt
    have hback : found - 2 = start - 1 := by omega
    have hfirst : ((body.drop (found - 2)).take 2)[0]? = some 13 := by
      rw [hbytes]
      rfl
    rw [List.getElem?_take_of_lt (by decide), List.getElem?_drop, hback, Nat.add_zero, hnl] at hfirst
    cases hfirst
  · omega

theorem findMultipartBodyEnd_spec (hne : delimiter ≠ []) (hnl : body[start - 1]? = some 10) (hstart : 1 ≤ start)
    (h : findMultipartBodyEnd body delimiter start = some (stop, next)) :
    start ≤ stop ∧ stop ≤ next ∧ delimiter <+: body.drop next ∧ 1 ≤ next ∧ body[next - 1]? = some 10 := by
  unfold findMultipartBodyEnd at h
  split at h
  · rename_i hpre
    cases h
    exact ⟨le_rfl, le_rfl, List.isPrefixOf_iff_prefix.mp hpre, hstart, hnl⟩
  · rename_i hpre
    obtain ⟨hle, ⟨hfound, hline⟩, rfl⟩ := delimiterAt_of_findBodyEndFrom hne h
    have hlt : start < next := by
      refine Nat.lt_of_le_of_ne hle ?_
      rintro rfl
      exact hpre (List.isPrefixOf_iff_prefix.mpr hfound)
    exact ⟨le_lineEnd hlt hnl hstart, lineEnd_le body next, hfound, hline⟩

theorem consumeMultipartNewline_spec (h : consumeMultipartNewline body cursor = some next) : cursor < next := by
  unfold consumeMultipartNewline at h
  split at h
  · cases h
    omega
  · split at h
    · cases h
      omega
    · cases h

theorem partHeadersAt_eq : partHeadersAt body start = Outcome.ofExcept (parseHttpPartHeaders body start) := by
  unfold partHeadersAt parseHttpPartHeaders
  cases hend : partHeaderEnd body start with
  | none => rfl
  | some r =>
    obtain ⟨stop, next⟩ := r
    obtain ⟨hle, hnext, hlen, -⟩ := partHeaderEnd_spec hend
    dsimp only
    rw [slice_of_le hle (by omega)]
    rfl

theorem partHeadersAt_spec {headers : Headers} (h : parseHttpPartHeaders body start = .ok (headers, next)) :
    start < next ∧ next ≤ body.length ∧ body[next - 1]? = some 10 := by
  unfold parseHttpPartHeaders at h
  split at h
  · rename_i stop next' hend
    obtain ⟨hle, hnext, hlen, hnl⟩ := partHeaderEnd_spec hend
    cases h
    exact ⟨by omega, hlen, hnl⟩
  · cases h

theorem bodyEndAt_eq (hne : delimiter ≠ []) (hstart : 1 ≤ start) (hlen : start ≤ body.length) :
    bodyEndAt body delimiter start = .ok (findMultipartBodyEnd body delimiter start) := by
  unfold bodyEndAt findMultipartBodyEnd
  rw [slice_of_le hlen le_rfl, List.take_length, Outcome.ok_bind, bodyEndFrom_eq hne (by omega) (by omega)]
  split
  · rfl
  · rfl

namespace PartSpan

/-- What the parser returns of a part. -/
def part (span : PartSpan) : HttpMultipartPart := { headers := span.headers, body := span.body }

/-- The places of a part are in order and inside the body, and the cursor goes on. -/
structure InRange (body : Bytes) (span : PartSpan) : Prop where
  cursor_lt : span.cursor < span.bodyStart
  start_le : span.bodyStart ≤ span.bodyEnd
  end_le : span.bodyEnd ≤ span.next
  next_lt : span.next < body.length
  body_eq : span.body = (body.take span.bodyEnd).drop span.bodyStart

end PartSpan

/-- One turn fails, ends the loop, or reads a part that is in range; the total parser does the same. -/
theorem partSpanAt_cases (hne : delimiter ≠ []) (hcursor : cursor ≤ body.length) :
    (∃ e, partSpanAt body delimiter cursor = .err e ∧ ∀ n, multipartPartsFrom body delimiter (n + 1) cursor = .error e) ∨
    (partSpanAt body delimiter cursor = .ok none ∧ ∀ n, multipartPartsFrom body delimiter (n + 1) cursor = .ok []) ∨
    ∃ span : PartSpan, partSpanAt body delimiter cursor = .ok (some span) ∧ span.cursor = cursor ∧ span.InRange body ∧
      ∀ n, multipartPartsFrom body delimiter (n + 1) cursor =
        (multipartPartsFrom body delimiter n span.next).map (span.part :: ·) := by
  simp only [partSpanAt, multipartPartsFrom, slice_of_le hcursor le_rfl, List.take_length, Outcome.ok_bind]
  split
  · exact Or.inl ⟨_, rfl, fun _ => rfl⟩
  · split
    · exact Or.inr (Or.inl ⟨rfl, fun _ => rfl⟩)
    · cases hline : consumeMultipartNewline body (cursor + delimiter.length) with
      | none => exact Or.inl ⟨_, rfl, fun _ => rfl⟩
      | some line =>
        have hgo := consumeMultipartNewline_spec hline
        dsimp only
        rw [partHeadersAt_eq]
        cases hheaders : parseHttpPartHeaders body line with
        | error e => exact Or.inl ⟨e, rfl, fun _ => rfl⟩
        | ok r =>
          obtain ⟨headers, bodyStart⟩ := r
          obtain ⟨hlt, hlen, hnl⟩ := partHeadersAt_spec hheaders
          simp only [Outcome.ofExcept_ok, Outcome.ok_bind, bodyEndAt_eq hne (by omega : 1 ≤ bodyStart) hlen, except_ok_bind]
          cases hend : findMultipartBodyEnd body delimiter bodyStart with
          | none => exact Or.inl ⟨_, rfl, fun _ => rfl⟩
          | some r =>
            obtain ⟨bodyEnd, next⟩ := r
            obtain ⟨hstart, hstop, hpre, -, -⟩ := findMultipartBodyEnd_spec hne hnl (by omega) hend
            have hroom := length_of_prefix_drop hpre hne
            have hpos := List.length_pos_iff.mpr hne
            dsimp only
            rw [slice_of_le hstart (by omega)]
            refine Or.inr (Or.inr ⟨_, rfl, rfl, ⟨?_, hstart, hstop, ?_, rfl⟩, fun n => rfl⟩)
            · dsimp only
              omega
            · dsimp only
              omega

/-- The parts follow one another: each turn goes on where the last one stopped. -/
def Chained (body : Bytes) : Nat → List PartSpan → Prop
  | _, [] => True
  | cursor, span :: rest => span.cursor = cursor ∧ span.InRange body ∧ Chained body span.next rest

/-- With a turn for every place that is left, the checked loop ends and reads what the total one reads. -/
theorem partSpansFrom_spec (hne : delimiter ≠ []) (hcursor : cursor ≤ body.length) (hn : body.length < n + cursor) :
    (partSpansFrom body delimiter n cursor).map (·.map PartSpan.part)
      = Outcome.ofExcept (multipartPartsFrom body delimiter n cursor) ∧
    ∀ spans, partSpansFrom body delimiter n cursor = .ok spans → Chained body cursor spans := by
  induction n generalizing cursor with
  | zero => omega
  | succ n ih =>
    rw [partSpansFrom]
    rcases partSpanAt_cases hne hcursor with ⟨e, hturn, htotal⟩ | ⟨hturn, htotal⟩ | ⟨span, hturn, hspan, hrange, htotal⟩
    · rw [hturn, htotal n]
      exact ⟨rfl, nofun⟩
    · rw [hturn, htotal n]
      refine ⟨rfl, fun spans hok => ?_⟩
      cases hok
      exact trivial
    · have hnext := hrange.next_lt
      have hgo : cursor < span.next := by
        rw [← hspan]
        exact lt_of_lt_of_le hrange.cursor_lt (hrange.start_le.trans hrange.end_le)
      obtain ⟨hsame, hchain⟩ := @ih span.next (by omega) (by omega)
      rw [hturn, htotal n]
      simp only [Outcome.ok_bind]
      cases hrest : partSpansFrom body delimiter n span.next with
      | ok rest =>
        rw [hrest] at hsame
        cases htail : multipartPartsFrom body delimiter n span.next with
        | ok parts =>
          rw [htail] at hsame
          refine ⟨?_, fun spans hok => ?_⟩
          · have hparts : rest.map PartSpan.part = parts := Outcome.ok.inj hsame
            rw [← hparts]
            rfl
          · cases hok
            exact ⟨hspan, hrange, hchain rest hrest⟩
        | error e =>
          rw [htail] at hsame
          cases hsame
      | err e =>
        rw [hrest] at hsame
        cases htail : multipartPartsFrom body delimiter n span.next with
        | ok parts =>
          rw [htail] at hsame
          cases hsame
        | error e' =>
          rw [htail] at hsame
          cases hsame
          exact ⟨rfl, nofun⟩
      | abort =>
        rw [hrest] at hsame
        cases htail : multipartPartsFrom body delimiter n span.next with
        | ok parts =>
          rw [htail] at hsame
          cases hsame
        | error e =>
          rw [htail] at hsame
          cases hsame

theorem ofExcept_ne_abort {ε α : Type} (r : Except ε α) : Outcome.ofExcept r ≠ .abort := by
  cases r with
  | ok a => nofun
  | error e => nofun

/-- Parsing ends without a panic, and every turn of every run stays in range and goes on. -/
structure SafeParse (body : Bytes) (boundary : String) : Prop where
  reads : (multipartSpans body boundary).map (·.map PartSpan.part) = Outcome.ofExcept (parseHttpMultipart body boundary)
  no_panic : multipartSpans body boundary ≠ .abort
  turn : ∀ cursor ≤ body.length, partSpanAt body (utf8Bytes ("--" ++ boundary)) cursor ≠ .abort ∧
    ∀ span, partSpanAt body (utf8Bytes ("--" ++ boundary)) cursor = .ok (some span) → span.cursor = cursor ∧ span.InRange body
  chained : ∀ spans, multipartSpans body boundary = .ok spans → ∃ cursor, Chained body cursor spans

theorem delimiter_ne_nil (boundary : String) : utf8Bytes ("--" ++ boundary) ≠ [] := by
  rw [utf8Bytes_append]
  exact List.append_ne_nil_of_left_ne_nil (by decide) _

theorem safeParse (body : Bytes) (boundary : String) : SafeParse body boundary := by
  have hne := delimiter_ne_nil boundary
  have hrun : (multipartSpans body boundary).map (·.map PartSpan.part) = Outcome.ofExcept (parseHttpMultipart body boundary) ∧
      ∀ spans, multipartSpans body boundary = .ok spans → ∃ cursor, Chained body cursor spans := by
    unfold multipartSpans parseHttpMultipart
    dsimp only
    cases hfind : findBytes body (utf8Bytes ("--" ++ boundary)) 0 with
    | none => exact ⟨rfl, nofun⟩
    | some cursor =>
      obtain ⟨-, hpre, -⟩ := (findBytes_eq_some_iff hne).mp hfind
      have hroom := length_of_prefix_drop hpre hne
      obtain ⟨hsame, hchain⟩ := partSpansFrom_spec hne (by omega : cursor ≤ body.length) (by omega : body.length < body.length + 1 + cursor)
      exact ⟨hsame, fun spans hok => ⟨cursor, hchain spans hok⟩⟩
  refine ⟨hrun.1, fun habort => ?_, fun cursor hcursor => ?_, hrun.2⟩
  · rw [habort] at hrun
    exact ofExcept_ne_abort _ hrun.1.symm
  · rcases partSpanAt_cases hne hcursor with ⟨e, hturn, -⟩ | ⟨hturn, -⟩ | ⟨span, hturn, hspan, hrange, -⟩
    · rw [hturn]
      exact ⟨nofun, nofun⟩
    · rw [hturn]
      exact ⟨nofun, nofun⟩
    · rw [hturn]
      refine ⟨nofun, fun span' hspan' => ?_⟩
      cases hspan'
      exact ⟨hspan, hrange⟩

end Star9
