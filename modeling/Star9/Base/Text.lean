import Mathlib

/-!
# Texts

The string functions of the standard library that the modelled programs use:
trimming, splitting into lines and words, reading unsigned numbers, and case in
the ASCII range.
-/
namespace Base

def parseUnsigned (bits : Nat) (s : String) : Option Nat :=
  let digits := match s.toList with
    | '+' :: rest => rest
    | cs => cs
  if digits ≠ [] ∧ digits.all Char.isDigit then
    let value := digits.foldl (fun n c => 10 * n + (c.toNat - '0'.toNat)) 0
    if value < 2 ^ bits then some value else none
  else none

/-- The characters with the Unicode property White_Space. -/
def isWhiteSpace (c : Char) : Bool :=
  let n := c.toNat
  (9 ≤ n && n ≤ 13) || n = 0x20 || n = 0x85 || n = 0xa0 || n = 0x1680 || (0x2000 ≤ n && n ≤ 0x200a) ||
    n = 0x2028 || n = 0x2029 || n = 0x202f || n = 0x205f || n = 0x3000

def splitWhitespace (cs : List Char) : List String :=
  ((cs.splitOnP isWhiteSpace).filter (· ≠ [])).map String.ofList

def endsWith (s suffix : String) : Bool := suffix.toList.isSuffixOf s.toList

def trimWith (p : Char → Bool) (s : String) : String := String.ofList ((s.toList.dropWhile p).rdropWhile p)

def trim (s : String) : String := trimWith isWhiteSpace s

/-- The halves around the first separator. -/
def splitOnce (sep : Char) (s : String) : Option (String × String) :=
  match s.toList.span (· != sep) with
  | (left, _ :: right) => some (String.ofList left, String.ofList right)
  | (_, []) => none

/-- The text before the first place where the pattern stands, and the text from there on. -/
def splitAtText (pattern : List Char) : List Char → Option (List Char × List Char)
  | [] => if pattern = [] then some ([], []) else none
  | c :: cs =>
    if pattern.isPrefixOf (c :: cs) then some ([], c :: cs)
    else (splitAtText pattern cs).map fun (before, rest) => (c :: before, rest)

/-- A line that ends in a newline also loses a carriage return before it. -/
def chompReturn (cs : List Char) : List Char := if cs.getLast? = some '\r' then cs.dropLast else cs

def linesOf : List (List Char) → List (List Char)
  | [] => []
  | [last] => if last = [] then [] else [last]
  | line :: rest => chompReturn line :: linesOf rest

def lines (s : String) : List String := (linesOf (s.toList.splitOn '\n')).map String.ofList

def asciiLower (c : Char) : Char := if 'A' ≤ c ∧ c ≤ 'Z' then Char.ofNat (c.toNat + 32) else c

def toAsciiLowercase (s : String) : String := String.ofList (s.toList.map asciiLower)

def eqIgnoreAsciiCase (a b : String) : Bool := toAsciiLowercase a == toAsciiLowercase b

/-! ## Reading back what was written -/

theorem parseUnsigned_toString {bits n : Nat} (h : n < 2 ^ bits) : parseUnsigned bits (toString n) = some n := by
  have hlist : (toString n).toList = Nat.toDigits 10 n := String.toList_ofList
  have hdigit : ∀ c ∈ Nat.toDigits 10 n, c.isDigit = true := fun c hc =>
    Nat.isDigit_of_mem_toDigits (by decide) (by decide) hc
  have hne : Nat.toDigits 10 n ≠ [] := Nat.toDigits_ne_nil
  have hvalue : (Nat.toDigits 10 n).foldl (fun n c => 10 * n + (c.toNat - '0'.toNat)) 0 = n :=
    Nat.ofDigitChars_ten_toDigits
  unfold parseUnsigned
  rw [hlist]
  split
  · rename_i rest heq
    have hplus := hdigit '+' (by rw [heq]; exact List.mem_cons_self)
    exact absurd hplus (by decide)
  · dsimp only
    rw [if_pos ⟨hne, List.all_eq_true.mpr hdigit⟩, hvalue, if_pos h]

/-- A word is what stands before the first white space. -/
theorem splitWhitespace_append_cons {w : List Char} (hne : w ≠ []) (hw : ∀ c ∈ w, isWhiteSpace c = false) {s : Char}
    (hs : isWhiteSpace s = true) (rest : List Char) :
    splitWhitespace (w ++ s :: rest) = String.ofList w :: splitWhitespace rest := by
  unfold splitWhitespace
  rw [List.splitOnP_append_cons_of_forall_mem hw s hs, List.filter_cons_of_pos (by simpa using hne), List.map_cons]

theorem splitWhitespace_word {w : List Char} (hne : w ≠ []) (hw : ∀ c ∈ w, isWhiteSpace c = false) :
    splitWhitespace w = [String.ofList w] := by
  unfold splitWhitespace
  rw [List.splitOnP_eq_singleton hw]
  simp [hne]

theorem linesOf_cons {line : List Char} {rest : List (List Char)} (hrest : rest ≠ []) :
    linesOf (line :: rest) = chompReturn line :: linesOf rest := by
  cases rest with
  | nil => exact absurd rfl hrest
  | cons a l => rfl

/-- A text that is made line by line is read back line by line. -/
theorem lines_join {texts : List String} (h : ∀ text ∈ texts, '\n' ∉ text.toList ∧ text.toList.getLast? ≠ some '\r') :
    lines (String.join (texts.map (· ++ "\n"))) = texts := by
  induction texts with
  | nil => simp [lines, linesOf]
  | cons text texts ih =>
    obtain ⟨hline, hreturn⟩ := h text List.mem_cons_self
    have hrest := ih fun t ht => h t (List.mem_cons_of_mem text ht)
    unfold lines at hrest ⊢
    have hlist : (String.join ((text :: texts).map (· ++ "\n"))).toList =
        text.toList ++ '\n' :: (String.join (texts.map (· ++ "\n"))).toList := by
      simp
    rw [hlist, List.splitOn_append_cons_self, List.splitOn_eq_singleton hline, List.singleton_append,
      linesOf_cons (List.splitOn_ne_nil _ _), List.map_cons, hrest, chompReturn, if_neg hreturn, String.ofList_toList]

end Base
