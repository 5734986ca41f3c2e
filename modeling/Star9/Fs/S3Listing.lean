import Star9.Fs.S3

/-!
# Reading a listing

A reply to a listing is a markup text with one `Contents` element for a key, the key standing in a
`Key` element with the five entities. The scanner of the store finds the keys of such a text.
-/
namespace Star9
open Base

/-! ## Entities -/

def xmlEscapeChar (c : Char) : List Char :=
  if c = '&' then "&amp;".toList
  else if c = '<' then "&lt;".toList
  else if c = '>' then "&gt;".toList
  else if c = '\'' then "&apos;".toList
  else if c = '"' then "&quot;".toList
  else [c]

def xmlEscape (key : String) : List Char := key.toList.flatMap xmlEscapeChar

theorem lt_not_mem_xmlEscapeChar (c : Char) : '<' ∉ xmlEscapeChar c := by
  unfold xmlEscapeChar
  split_ifs with hamp hlt hgt hapos hquot
  · decide
  · decide
  · decide
  · decide
  · decide
  · rw [List.mem_singleton]
    exact fun h => hlt h.symm

theorem lt_not_mem_xmlEscape (key : String) : '<' ∉ xmlEscape key := by
  rw [xmlEscape, List.mem_flatMap]
  rintro ⟨c, -, hc⟩
  exact lt_not_mem_xmlEscapeChar c hc

/-- An entity is taken with its semicolon. -/
theorem xmlUnescapeFrom_entity {entity : List Char} {c : Char} (hsemi : ∀ d ∈ entity, d ≠ ';') (hentity : entityChar entity = some c)
    (rounds : Nat) (rest : List Char) :
    xmlUnescapeFrom (rounds + 1) ('&' :: (entity ++ ';' :: rest)) = (xmlUnescapeFrom rounds rest).map (c :: ·) := by
  have htake : (entity ++ ';' :: rest).takeWhile (· ≠ ';') = entity := by
    rw [List.takeWhile_append_of_pos fun d hd => decide_eq_true (hsemi d hd), List.takeWhile_cons, if_neg (by decide), List.append_nil]
  have hdrop : (entity ++ ';' :: rest).dropWhile (· ≠ ';') = ';' :: rest := by
    rw [List.dropWhile_append_of_pos fun d hd => decide_eq_true (hsemi d hd), List.dropWhile_cons, if_neg (by decide)]
  rw [xmlUnescapeFrom, if_neg (by simp), htake, hdrop]
  dsimp only
  rw [hentity]
  rfl

theorem xmlUnescapeFrom_escapeChar (c : Char) (rounds : Nat) (rest : List Char) :
    xmlUnescapeFrom (rounds + 1) (xmlEscapeChar c ++ rest) = (xmlUnescapeFrom rounds rest).map (c :: ·) := by
  unfold xmlEscapeChar
  split_ifs with hamp hlt hgt hapos hquot
  · rw [hamp]
    exact @xmlUnescapeFrom_entity "amp".toList '&' (by simp) rfl rounds rest
  · rw [hlt]
    exact @xmlUnescapeFrom_entity "lt".toList '<' (by simp) rfl rounds rest
  · rw [hgt]
    exact @xmlUnescapeFrom_entity "gt".toList '>' (by simp) rfl rounds rest
  · rw [hapos]
    exact @xmlUnescapeFrom_entity "apos".toList '\'' (by simp) rfl rounds rest
  · rw [hquot]
    exact @xmlUnescapeFrom_entity "quot".toList '"' (by simp) rfl rounds rest
  · rw [List.singleton_append, xmlUnescapeFrom, if_pos hamp]

theorem xmlUnescapeFrom_escape (cs : List Char) {rounds : Nat} (h : cs.length ≤ rounds) :
    xmlUnescapeFrom rounds (cs.flatMap xmlEscapeChar) = .ok cs := by
  induction cs generalizing rounds with
  | nil => cases rounds <;> rfl
  | cons c cs ih =>
    cases rounds with
    | zero => cases h
    | succ rounds =>
      rw [List.flatMap_cons, xmlUnescapeFrom_escapeChar, ih (Nat.le_of_succ_le_succ h)]
      rfl

theorem length_le_xmlEscape (cs : List Char) : cs.length ≤ (cs.flatMap xmlEscapeChar).length := by
  induction cs with
  | nil => exact le_rfl
  | cons c cs ih =>
    have hone : 1 ≤ (xmlEscapeChar c).length := by
      unfold xmlEscapeChar
      split_ifs <;> simp
    rw [List.flatMap_cons, List.length_append, List.length_cons]
    omega

theorem xmlUnescape_xmlEscape (key : String) : xmlUnescape (xmlEscape key) = .ok key := by
  rw [xmlUnescape, xmlEscape, xmlUnescapeFrom_escape key.toList (length_le_xmlEscape key.toList)]
  exact congrArg _ String.ofList_toList

/-! ## Elements -/

/-- The first element with a tag, when its text does not hold the closing tag. -/
theorem extractTagBody_element {tag a body : List Char} (htag : '<' ∉ tag) (ha : ¬ ('<' :: tag) <:+: a)
    (hbody : ¬ ('<' :: '/' :: (tag ++ ['>'])) <:+: body) (rest : List Char) :
    extractTagBody tag (a ++ ('<' :: tag ++ '>' :: (body ++ ('<' :: '/' :: (tag ++ ['>']) ++ rest)))) = some (body, rest) := by
  have hclose : '<' ∉ '/' :: (tag ++ ['>']) := by
    rw [List.mem_cons, List.mem_append, List.mem_singleton]
    rintro (h | h | h)
    · cases h
    · exact htag h
    · cases h
  have hopened : ('<' :: tag ++ '>' :: (body ++ ('<' :: '/' :: (tag ++ ['>']) ++ rest))).drop (tag.length + 1) =
      '>' :: (body ++ ('<' :: '/' :: (tag ++ ['>']) ++ rest)) := List.drop_left' (by simp)
  have hend : splitAtText ['>'] ('>' :: (body ++ ('<' :: '/' :: (tag ++ ['>']) ++ rest))) =
      some ([], '>' :: (body ++ ('<' :: '/' :: (tag ++ ['>']) ++ rest))) := splitAtText_self (List.cons_ne_nil '>' []) _
  have hrest : ('<' :: '/' :: (tag ++ ['>']) ++ rest).drop ('<' :: '/' :: (tag ++ ['>'])).length = rest := List.drop_left
  rw [extractTagBody, splitAtText_tag htag ha]
  dsimp only [Option.bind_eq_bind, Option.bind_some]
  rw [hopened, hend]
  dsimp only [Option.bind_some]
  rw [List.drop_succ_cons, List.drop_zero, splitAtText_tag hclose hbody]
  dsimp only [Option.bind_some]
  rw [hrest]
  rfl

/-- What stands around one key in a reply. -/
structure ContentsParts where
  before : List Char
  key : String
  after : List Char
  gap : List Char

namespace ContentsParts

def block (parts : ContentsParts) : List Char :=
  parts.before ++ ("<Key>".toList ++ (xmlEscape parts.key ++ ("</Key>".toList ++ parts.after)))

def text (parts : ContentsParts) : List Char := "<Contents>".toList ++ (parts.block ++ ("</Contents>".toList ++ parts.gap))

/-- The element ends with its closing tag, has its key first and nothing of the kind after it. -/
structure Clean (parts : ContentsParts) : Prop where
  before : ¬ "<Key".toList <:+: parts.before
  block : ¬ "</Contents>".toList <:+: parts.block
  gap : ¬ "<Contents".toList <:+: parts.gap

end ContentsParts

/-- A body that lists these keys: other elements may stand before and after the keys. -/
def ListsKeys (body : Bytes) (keys : List String) : Prop :=
  ∃ (head tail : List Char) (parts : List ContentsParts), ¬ "<Contents".toList <:+: head ∧ (∀ c ∈ tail.head?, c = '<') ∧
    ¬ "<Contents".toList <:+: tail ∧ (∀ part ∈ parts, ContentsParts.Clean part) ∧ keys = parts.map (·.key) ∧
    body = utf8Bytes (String.ofList (head ++ (parts.flatMap ContentsParts.text ++ tail)))

theorem contents_tag : "<Contents".toList = '<' :: "Contents".toList := by simp

theorem contents_open : "<Contents>".toList = '<' :: ("Contents".toList ++ ['>']) := by simp

theorem contents_close : "</Contents>".toList = '<' :: '/' :: ("Contents".toList ++ ['>']) := by simp

theorem key_tag : "<Key".toList = '<' :: "Key".toList := by simp

theorem contents_plain : '<' ∉ "Contents".toList := by simp

theorem key_plain : '<' ∉ "Key".toList := by simp

theorem ContentsParts.text_eq (parts : ContentsParts) :
    parts.text = '<' :: "Contents".toList ++ '>' :: (parts.block ++ ('<' :: '/' :: ("Contents".toList ++ ['>']) ++ parts.gap)) := by
  unfold ContentsParts.text
  simp only [contents_open, contents_close, List.append_assoc, List.cons_append, List.nil_append]

theorem extractTagBody_block {parts : ContentsParts} (h : parts.Clean) :
    extractTagBody "Key".toList parts.block = some (xmlEscape parts.key, parts.after) := by
  have hblock : parts.block = parts.before ++ ('<' :: "Key".toList ++ '>' :: (xmlEscape parts.key ++
      ('<' :: '/' :: ("Key".toList ++ ['>']) ++ parts.after))) := by
    simp [ContentsParts.block]
  have hbefore := h.before
  rw [key_tag] at hbefore
  rw [hblock]
  exact extractTagBody_element key_plain hbefore (not_infix_of_not_mem (lt_not_mem_xmlEscape parts.key)) parts.after

theorem parseKeysFrom_texts {parts : List ContentsParts} {head tail : List Char} {rounds : Nat} (hhead : ¬ "<Contents".toList <:+: head)
    (hlead : ∀ c ∈ tail.head?, c = '<') (htail : ¬ "<Contents".toList <:+: tail) (hclean : ∀ part ∈ parts, part.Clean) (hrounds : parts.length < rounds) :
    parseKeysFrom rounds (head ++ (parts.flatMap ContentsParts.text ++ tail)) = .ok (parts.map (·.key)) := by
  induction parts generalizing head rounds with
  | nil =>
    cases rounds with
    | zero => cases hrounds
    | succ rounds =>
      rw [contents_tag] at hhead htail
      have hboth : ¬ ('<' :: "Contents".toList) <:+: head ++ tail := by
        intro h
        rcases infix_append_of_lead contents_plain hlead h with h | h
        · exact hhead h
        · exact htail h
      rw [List.flatMap_nil, List.nil_append, parseKeysFrom, contents_tag, splitAtText_none contents_plain hboth]
      rfl
  | cons part parts ih =>
    obtain ⟨hpart, hparts⟩ := List.forall_mem_cons.mp hclean
    cases rounds with
    | zero => cases hrounds
    | succ rounds =>
      rw [contents_tag] at hhead
      have hblock := hpart.block
      rw [contents_close] at hblock
      have htext : part.text ++ (parts.flatMap ContentsParts.text ++ tail) = '<' :: "Contents".toList ++ '>' :: (part.block ++
          ('<' :: '/' :: ("Contents".toList ++ ['>']) ++ (part.gap ++ (parts.flatMap ContentsParts.text ++ tail)))) := by
        simp only [ContentsParts.text_eq, List.append_assoc, List.cons_append]
      have hsplit := splitAtText_tag contents_plain hhead ('>' :: (part.block ++
        ('<' :: '/' :: ("Contents".toList ++ ['>']) ++ (part.gap ++ (parts.flatMap ContentsParts.text ++ tail)))))
      have hnil : ¬ ('<' :: "Contents".toList) <:+: [] := fun h => List.cons_ne_nil _ _ (List.infix_nil.mp h)
      have helement := extractTagBody_element contents_plain hnil hblock (part.gap ++ (parts.flatMap ContentsParts.text ++ tail))
      rw [← htext] at hsplit
      rw [List.nil_append, ← htext] at helement
      rw [List.flatMap_cons, List.append_assoc, parseKeysFrom, contents_tag, hsplit]
      dsimp only
      rw [helement]
      dsimp only
      rw [extractTagBody_block hpart]
      dsimp only
      rw [xmlUnescape_xmlEscape, ih hpart.gap hparts (Nat.lt_of_succ_lt_succ hrounds)]
      rfl

theorem length_le_texts (parts : List ContentsParts) : parts.length ≤ (parts.flatMap ContentsParts.text).length := by
  induction parts with
  | nil => exact le_rfl
  | cons part parts ih =>
    have hone : 1 ≤ part.text.length := by
      simp only [ContentsParts.text_eq, List.cons_append, List.length_cons]
      exact Nat.le_add_left 1 _
    rw [List.flatMap_cons, List.length_append, List.length_cons]
    omega

/-- The scanner finds the keys of a listing. -/
theorem parseListObjectsV2Keys_lists {body : Bytes} {keys : List String} (h : ListsKeys body keys) :
    parseListObjectsV2Keys body = .ok keys := by
  obtain ⟨head, tail, parts, hhead, hlead, htail, hclean, rfl, rfl⟩ := h
  have hlen := length_le_texts parts
  rw [parseListObjectsV2Keys, utf8Lossy_utf8Bytes, String.toList_ofList]
  apply parseKeysFrom_texts hhead hlead htail hclean
  rw [List.length_append, List.length_append]
  omega

end Star9
