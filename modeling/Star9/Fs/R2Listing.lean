import Star9.Base.Map
import Star9.Base.Run
import Star9.Fs.R2

/-!
# Listings that many clients change at once

A listing is read back as it was written when no name in it has white space and
every mode is one that a listing can record. Clients that read a listing and swap it
for a new one, in any interleaving, then lose no update of each other.
-/
namespace Star9
open Base Prog

/-! ## Modes -/

/-- The modes of files, directories and links, which are the ones that the callers enter. -/
def Listed (mode : FileMode) : Prop :=
  ∃ perm, mode = FileMode.fromPerm perm ∨ mode = FileMode.dir ||| FileMode.fromPerm perm ∨
    mode = FileMode.symlink ||| FileMode.fromPerm perm

/-- What `parse_http_mode` makes of a number. -/
def modeOfBits (bits : UInt32) : FileMode :=
  let perm := bits &&& 0o777
  if bits &&& 0o170000 = 0o040000 then FileMode.dir ||| FileMode.fromPerm perm
  else if bits &&& 0o170000 = 0o120000 then FileMode.symlink ||| FileMode.fromPerm perm
  else FileMode.fromPerm perm

theorem parseHttpMode_formatHttpMode (mode : FileMode) :
    parseHttpMode (formatHttpMode mode) = modeOfBits mode.unixTypeAndPerm := by
  unfold parseHttpMode formatHttpMode
  rw [parseUnsigned_toString (UInt32.toNat_lt _)]
  dsimp only
  rw [UInt32.ofNat_toNat]
  rfl

theorem listed_modeOfBits (bits : UInt32) : Listed (modeOfBits bits) := by
  refine ⟨bits &&& 0o777, ?_⟩
  unfold modeOfBits
  dsimp only
  split
  · exact .inr (.inl rfl)
  · split
    · exact .inr (.inr rfl)
    · exact .inl rfl

theorem listed_parseHttpMode (text : String) : Listed (parseHttpMode text) := by
  unfold parseHttpMode
  split
  · exact ⟨0o644, .inl rfl⟩
  · exact listed_modeOfBits _

/-- Every permission is one of 512. -/
theorem fromPerm_small (perm : UInt32) : ∃ p : Fin 512, FileMode.fromPerm perm = FileMode.fromPerm (UInt32.ofNat p) := by
  have hlt : (perm &&& 0o777).toNat < 512 := by
    rw [UInt32.toNat_and]
    exact Nat.lt_of_le_of_lt Nat.and_le_right (by decide)
  refine ⟨⟨(perm &&& 0o777).toNat, hlt⟩, ?_⟩
  rw [UInt32.ofNat_toNat]
  unfold FileMode.fromPerm FileMode.permMask
  rw [UInt32.and_assoc, UInt32.and_self]

theorem modeOfBits_small : ∀ p : Fin 512,
    modeOfBits (FileMode.fromPerm (UInt32.ofNat p)).unixTypeAndPerm = FileMode.fromPerm (UInt32.ofNat p) ∧
    modeOfBits (FileMode.dir ||| FileMode.fromPerm (UInt32.ofNat p)).unixTypeAndPerm =
      FileMode.dir ||| FileMode.fromPerm (UInt32.ofNat p) ∧
    modeOfBits (FileMode.symlink ||| FileMode.fromPerm (UInt32.ofNat p)).unixTypeAndPerm =
      FileMode.symlink ||| FileMode.fromPerm (UInt32.ofNat p) := by
  decide +kernel

theorem parseHttpMode_of_listed {mode : FileMode} (h : Listed mode) : parseHttpMode (formatHttpMode mode) = mode := by
  rw [parseHttpMode_formatHttpMode]
  obtain ⟨perm, h⟩ := h
  obtain ⟨p, hp⟩ := fromPerm_small perm
  rw [hp] at h
  rcases h with rfl | rfl | rfl
  · exact (modeOfBits_small p).1
  · exact (modeOfBits_small p).2.1
  · exact (modeOfBits_small p).2.2

/-! ## Listings -/

/-- A name that a listing keeps as one word. -/
def Spaceless (name : String) : Prop := name ≠ "" ∧ ∀ c ∈ name.toList, isWhiteSpace c = false

instance (name : String) : Decidable (Spaceless name) := inferInstanceAs (Decidable (_ ∧ _))

theorem digit_not_whiteSpace {c : Char} (h : c.isDigit = true) : isWhiteSpace c = false := by
  simp only [Char.isDigit, Bool.and_eq_true, decide_eq_true_eq] at h
  have h₁ : 48 ≤ c.toNat := h.1
  have h₂ : c.toNat ≤ 57 := h.2
  unfold isWhiteSpace
  simp
  omega

theorem formatHttpMode_spaceless (mode : FileMode) : Spaceless (formatHttpMode mode) := by
  have hlist : (formatHttpMode mode).toList = Nat.toDigits 10 mode.unixTypeAndPerm.toNat := String.toList_ofList
  constructor
  · intro h
    rw [h] at hlist
    exact Nat.toDigits_ne_nil hlist.symm
  · intro c hc
    rw [hlist] at hc
    exact digit_not_whiteSpace (Nat.isDigit_of_mem_toDigits (by decide) (by decide) hc)

theorem spaceless_ofList {cs : List Char} : Spaceless (String.ofList cs) ↔ cs ≠ [] ∧ ∀ c ∈ cs, isWhiteSpace c = false := by
  unfold Spaceless
  rw [String.toList_ofList]
  simp

theorem not_of_mem_splitOnP {p : Char → Bool} {l part : List Char} (h : part ∈ l.splitOnP p) : ∀ c ∈ part, p c = false := by
  induction l generalizing part with
  | nil =>
    rw [List.splitOnP_nil, List.mem_singleton] at h
    simp [h]
  | cons x l ih =>
    rw [List.splitOnP_cons_eq_if_modifyHead] at h
    split at h
    · rcases List.mem_cons.mp h with rfl | h
      · simp
      · exact ih h
    · rename_i hx
      obtain ⟨hd, tl, htl⟩ := List.exists_cons_of_ne_nil (List.splitOnP_ne_nil p l)
      rw [htl, List.modifyHead_cons] at h
      rcases List.mem_cons.mp h with rfl | h
      · intro c hc
        rcases List.mem_cons.mp hc with rfl | hc
        · simpa using hx
        · exact ih (by simp [htl]) c hc
      · exact ih (by simp [htl, h])

theorem spaceless_of_mem_splitWhitespace {cs : List Char} {w : String} (h : w ∈ splitWhitespace cs) : Spaceless w := by
  obtain ⟨part, hpart, rfl⟩ := List.mem_map.mp h
  obtain ⟨hmem, hne⟩ := List.mem_filter.mp hpart
  exact spaceless_ofList.mpr ⟨by simpa using hne, not_of_mem_splitOnP hmem⟩

/-- The line of an entry. -/
def r2Line (entry : String × FileMode) : String := entry.1 ++ " " ++ formatHttpMode entry.2

theorem parseR2Line_r2Line {entry : String × FileMode} (hname : Spaceless entry.1) (hmode : Listed entry.2) :
    parseR2Line (r2Line entry) = some entry := by
  have hlist : (r2Line entry).toList = entry.1.toList ++ ' ' :: (formatHttpMode entry.2).toList := by
    simp [r2Line]
  have hformat := formatHttpMode_spaceless entry.2
  unfold parseR2Line
  rw [hlist, splitWhitespace_append_cons (by simpa using hname.1) hname.2 (by decide),
    splitWhitespace_word (by simpa using hformat.1) hformat.2]
  simp only [String.ofList_toList, parseHttpMode_of_listed hmode]

theorem r2Line_line {entry : String × FileMode} (hname : Spaceless entry.1) :
    '\n' ∉ (r2Line entry).toList ∧ (r2Line entry).toList.getLast? ≠ some '\r' := by
  have hlist : (r2Line entry).toList = entry.1.toList ++ ' ' :: (formatHttpMode entry.2).toList := by
    simp [r2Line]
  obtain ⟨hne, hformat⟩ := formatHttpMode_spaceless entry.2
  rw [hlist]
  constructor
  · intro h
    simp only [List.mem_append, List.mem_cons] at h
    rcases h with h | h | h
    · exact absurd (hname.2 _ h) (by decide)
    · exact absurd h (by decide)
    · exact absurd (hformat _ h) (by decide)
  · intro h
    obtain ⟨c, hc⟩ := Option.isSome_iff_exists.mp
      ((List.getLast?_isSome (l := (formatHttpMode entry.2).toList)).mpr (by simpa using hne))
    rw [← List.singleton_append, ← List.append_assoc, List.getLast?_append, hc] at h
    cases h
    exact absurd (hformat _ (List.mem_of_getLast? hc)) (by decide)

/-- Names and modes that a listing gives back. -/
def Plain (entry : String × FileMode) : Prop := Spaceless entry.1 ∧ Listed entry.2

theorem plain_of_parseR2Line {line : String} {entry : String × FileMode} (h : parseR2Line line = some entry) :
    Plain entry := by
  unfold parseR2Line at h
  split at h
  · rename_i name mode rest hwords
    cases h
    exact ⟨spaceless_of_mem_splitWhitespace (by rw [hwords]; exact List.mem_cons_self), listed_parseHttpMode mode⟩
  · cases h

theorem plain_of_mem_r2Entries {body : Bytes} {entry : String × FileMode} (h : entry ∈ r2Entries body) : Plain entry := by
  obtain ⟨line, -, hline⟩ := List.mem_filterMap.mp h
  exact plain_of_parseR2Line hline

/-- A map whose entries a listing gives back. -/
def PlainMap (m : Std.ExtTreeMap String FileMode) : Prop := ∀ name mode, m[name]? = some mode → Plain (name, mode)

theorem plainMap_parseR2Listing (body : Bytes) : PlainMap (parseR2Listing body) := by
  intro name mode h
  unfold parseR2Listing at h
  rw [Std.ExtTreeMap.ofList_eq_foldl] at h
  rcases mem_or_getElem?_of_foldl_insert (r2Entries body) ∅ h with hmem | hnone
  · exact plain_of_mem_r2Entries hmem
  · simp at hnone

theorem PlainMap.insert {m : Std.ExtTreeMap String FileMode} (h : PlainMap m) {name : String} {mode : FileMode}
    (hentry : Plain (name, mode)) : PlainMap (m.insert name mode) := by
  intro key mode' hget
  rw [Std.ExtTreeMap.getElem?_insert] at hget
  split at hget
  · rename_i hkey
    obtain rfl : name = key := by simpa using hkey
    cases hget
    exact hentry
  · exact h key mode' hget

theorem PlainMap.erase {m : Std.ExtTreeMap String FileMode} (h : PlainMap m) (name : String) : PlainMap (m.erase name) := by
  intro key mode hget
  rw [Std.ExtTreeMap.getElem?_erase] at hget
  split at hget
  · cases hget
  · exact h key mode hget

theorem toList_sorted (m : Std.ExtTreeMap String FileMode) : m.toList.Pairwise fun a b => a.1 ≤ b.1 := by
  refine (Std.ExtTreeMap.ordered_keys_toList (t := m)).imp fun {a b} h => ?_
  exact le_of_lt (compare_lt_iff_lt.mp h)

/-- A listing is read back as it was written. -/
theorem r2Entries_formatR2Listing {m : Std.ExtTreeMap String FileMode} (h : PlainMap m) :
    r2Entries (utf8Bytes (formatR2Listing m.toList)) = m.toList := by
  have hplain (entry : String × FileMode) (hmem : entry ∈ m.toList) : Plain entry :=
    h entry.1 entry.2 (Std.ExtTreeMap.mem_toList_iff_getElem?_eq_some.mp hmem)
  have hlines : lines (formatR2Listing m.toList) = m.toList.map r2Line := by
    unfold formatR2Listing
    rw [(toList_sorted m).insertionSort_eq, show m.toList.map formatR2Line = (m.toList.map r2Line).map (· ++ "\n") by
      simp [List.map_map, Function.comp_def, formatR2Line, r2Line]]
    refine lines_join fun text htext => ?_
    obtain ⟨entry, hmem, rfl⟩ := List.mem_map.mp htext
    exact r2Line_line (hplain entry hmem).1
  unfold r2Entries
  rw [utf8Lossy_utf8Bytes, hlines, List.filterMap_map]
  calc m.toList.filterMap (parseR2Line ∘ r2Line) = m.toList.filterMap some :=
        List.filterMap_congr fun entry hmem => parseR2Line_r2Line (hplain entry hmem).1 (hplain entry hmem).2
    _ = m.toList := List.filterMap_some

theorem parseR2Listing_formatR2Listing {m : Std.ExtTreeMap String FileMode} (h : PlainMap m) :
    parseR2Listing (utf8Bytes (formatR2Listing m.toList)) = m := by
  unfold parseR2Listing
  rw [r2Entries_formatR2Listing h]
  apply Std.ExtTreeMap.ext_getElem?
  intro name
  cases hget : m[name]? with
  | some mode =>
    exact Std.ExtTreeMap.getElem?_ofList_of_mem Std.ReflCmp.compare_self Std.ExtTreeMap.distinct_keys_toList
      (Std.ExtTreeMap.mem_toList_iff_getElem?_eq_some.mpr hget)
  | none =>
    rw [Option.eq_none_iff_forall_ne_some]
    intro mode hmode
    rw [Std.ExtTreeMap.ofList_eq_foldl] at hmode
    rcases mem_or_getElem?_of_foldl_insert m.toList ∅ hmode with hmem | hempty
    · rw [Std.ExtTreeMap.mem_toList_iff_getElem?_eq_some.mp hmem] at hget
      cases hget
    · simp at hempty

/-! ## Clients -/

/-- Where a client is in changing a listing: it is to read with so many attempts
left, it is to swap what it saw, or it has returned. -/
inductive UpdatePhase where
  | reading (left : Nat)
  | swapping (left : Nat) (seen : Object)
  | returned (result : Except Error Unit)

/-- A call of `update_parent_listing`. -/
structure ListingUpdate where
  fs : R2Fs
  name : String
  childMode : Option FileMode

namespace ListingUpdate

/-- The root has no listing to stand in. -/
def Enters (u : ListingUpdate) : Prop := ¬ (baseName u.name = "." ∨ baseName u.name = "")

instance (u : ListingUpdate) : Decidable u.Enters := inferInstanceAs (Decidable (¬ _))

def parentKey (u : ListingUpdate) : String := u.fs.key (parentPath u.name)

def apply (u : ListingUpdate) : Std.ExtTreeMap String FileMode → Std.ExtTreeMap String FileMode :=
  R2Fs.updateListing (baseName u.name) u.childMode

def start (u : ListingUpdate) : UpdatePhase := if u.Enters then .reading R2Fs.compareAndSwapRetries else .returned (.ok ())

/-- The next atomic step of a call: its phase and the store afterwards. -/
def advance (u : ListingUpdate) (phase : UpdatePhase) (s : InMemoryObjectStore) : UpdatePhase × InMemoryObjectStore :=
  match phase with
  | .reading 0 => (.returned (.error (R2Fs.updateConflict (parentPath u.name))), s)
  | .reading (n + 1) =>
    match R2Fs.readParent u.fs (parentPath u.name) s with
    | (.ok object, s) => (.swapping n object, s)
    | (.err e, s) => (.returned (.error e), s)
    | (.abort, s) => (phase, s)
  | .swapping n seen =>
    match R2Fs.swapParent u.fs (parentPath u.name) (baseName u.name) u.childMode seen s with
    | (.ok true, s) => (.returned (.ok ()), s)
    | (.ok false, s) => (.reading n, s)
    | (.err e, s) => (.returned (.error e), s)
    | (.abort, s) => (phase, s)
  | .returned _ => (phase, s)

/-- A call that is left alone. -/
def alone (u : ListingUpdate) : Nat → UpdatePhase × InMemoryObjectStore → UpdatePhase × InMemoryObjectStore
  | 0, p => p
  | n + 1, p => alone u n (u.advance p.1 p.2)

end ListingUpdate

/-- The store, the phase of every call, and the calls whose swap has succeeded, in that order. -/
structure ListingClients where
  store : InMemoryObjectStore
  phases : List UpdatePhase
  swapped : List Nat

namespace ListingClients

def start (s : InMemoryObjectStore) (updates : List ListingUpdate) : ListingClients :=
  { store := s, phases := updates.map ListingUpdate.start, swapped := [] }

/-- The swap of a call succeeds in the step that makes it return without an error. -/
def swaps : UpdatePhase → UpdatePhase → Bool
  | .swapping _ _, .returned (.ok _) => true
  | _, _ => false

def step (updates : List ListingUpdate) (w : ListingClients) (i : Nat) : ListingClients :=
  match updates[i]?, w.phases[i]? with
  | some u, some phase =>
    let next := u.advance phase w.store
    { store := next.2
      phases := w.phases.set i next.1
      swapped := if swaps phase next.1 then w.swapped ++ [i] else w.swapped }
  | _, _ => w

/-- The listing under a key, if there is one. -/
def listing (s : InMemoryObjectStore) (key : String) : Option (Std.ExtTreeMap String FileMode) :=
  (s.objects[key]?).map fun object => parseR2Listing object.body

/-- The updates of the calls, one after the other. -/
def applied (updates : List ListingUpdate) (swapped : List Nat) (m : Std.ExtTreeMap String FileMode) :
    Std.ExtTreeMap String FileMode :=
  (swapped.filterMap (updates[·]?)).foldl (fun m u => u.apply m) m

end ListingClients

/-! ## What one step does -/

namespace R2Fs
variable (fs : R2Fs) (parent child : String) (childMode : Option FileMode)

/-- The object that a swap puts in the place of the one that was seen. -/
def nextObject (seen : Object) (s : InMemoryObjectStore) : Object :=
  listingObjectAt (updateListing child childMode (parseR2Listing seen.body)).toList (s.clock s.ticks)

theorem swapParent_apply (seen : Object) (s : InMemoryObjectStore) :
    swapParent fs parent child childMode seen s =
      if s.objects[fs.key parent]? = some seen then
        (.ok true, { s with ticks := s.ticks + 1, objects := s.objects.insert (fs.key parent) (nextObject child childMode seen s) })
      else (.ok false, { s with ticks := s.ticks + 1 }) := by
  change InMemoryObjectStore.compareAndSwap (fs.key parent) (some seen) (some (nextObject child childMode seen s))
    { s with ticks := s.ticks + 1 } = _
  unfold InMemoryObjectStore.compareAndSwap
  dsimp only
  by_cases hseen : s.objects[fs.key parent]? = some seen
  · rw [if_neg (not_not.mpr hseen), if_pos hseen]
  · rw [if_pos hseen, if_neg hseen]

theorem readParent_ne_abort (s : InMemoryObjectStore) : (readParent fs parent s).1 ≠ .abort := by
  unfold readParent
  rw [bind_apply]
  cases h : s.objects[fs.key parent]? with
  | some object => simp [InMemoryObjectStore.get, h]
  | none =>
    simp only [InMemoryObjectStore.get, h]
    rw [branch_apply]
    split <;> nofun

theorem readParent_objects (s : InMemoryObjectStore) : (readParent fs parent s).2.objects = s.objects := by
  unfold readParent
  rw [bind_apply]
  cases h : s.objects[fs.key parent]? with
  | some object => simp [InMemoryObjectStore.get, h]
  | none =>
    simp only [InMemoryObjectStore.get, h]
    rw [branch_apply]
    split <;> rfl

end R2Fs

namespace ListingUpdate
variable (u : ListingUpdate)

/-- A step changes no object, or it is a swap of what the call had seen. -/
theorem advance_cases (phase : UpdatePhase) (s : InMemoryObjectStore) :
    ((u.advance phase s).2.objects = s.objects ∧ ListingClients.swaps phase (u.advance phase s).1 = false ∧
      ((u.advance phase s).1 = .returned (.ok ()) ↔ phase = .returned (.ok ()))) ∨
    ∃ n seen, phase = .swapping n seen ∧ (u.advance phase s).1 = .returned (.ok ()) ∧
      s.objects[u.parentKey]? = some seen ∧
      (u.advance phase s).2.objects = s.objects.insert u.parentKey (R2Fs.nextObject (baseName u.name) u.childMode seen s) := by
  cases phase with
  | returned result => exact .inl ⟨rfl, rfl, Iff.rfl⟩
  | reading n =>
    cases n with
    | zero => exact .inl ⟨rfl, rfl, by simp [advance]⟩
    | succ n =>
      have hread := R2Fs.readParent_objects u.fs (parentPath u.name) s
      unfold advance
      dsimp only
      rcases hr : R2Fs.readParent u.fs (parentPath u.name) s with ⟨object | e | _, s'⟩ <;> rw [hr] at hread <;>
        exact .inl ⟨hread, rfl, by simp⟩
  | swapping n seen =>
    unfold advance
    dsimp only
    rw [R2Fs.swapParent_apply]
    by_cases hseen : s.objects[u.fs.key (parentPath u.name)]? = some seen
    · rw [if_pos hseen]
      exact .inr ⟨n, seen, rfl, rfl, hseen, rfl⟩
    · rw [if_neg hseen]
      exact .inl ⟨rfl, rfl, by simp⟩

theorem alone_returned (k : Nat) (result : Except Error Unit) (s : InMemoryObjectStore) :
    u.alone k (.returned result, s) = (.returned result, s) := by
  induction k with
  | zero => rfl
  | succ k ih => exact ih

/-- A call that is left alone comes to the end that the operation comes to. -/
theorem alone_updateAttempts (n : Nat) (s : InMemoryObjectStore) :
    ∃ result, (R2Fs.updateAttempts u.fs (parentPath u.name) (baseName u.name) u.childMode n s).1 =
        (match result with | .ok _ => .ok () | .error e => .err e) ∧
      u.alone (2 * n + 1) (.reading n, s) =
        (.returned result, (R2Fs.updateAttempts u.fs (parentPath u.name) (baseName u.name) u.childMode n s).2) := by
  induction n generalizing s with
  | zero => exact ⟨_, rfl, rfl⟩
  | succ n ih =>
    have habort := R2Fs.readParent_ne_abort u.fs (parentPath u.name) s
    rw [R2Fs.updateAttempts, show 2 * (n + 1) + 1 = (2 * n + 1) + 1 + 1 by ring, alone, advance]
    rcases hread : R2Fs.readParent u.fs (parentPath u.name) s with ⟨object | e | _, s'⟩ <;> rw [hread] at habort
    · rw [bind_ok hread]
      dsimp only
      rw [alone, advance]
      dsimp only
      rw [bind_apply, R2Fs.swapParent_apply]
      by_cases hseen : s'.objects[u.fs.key (parentPath u.name)]? = some object
      · rw [if_pos hseen]
        exact ⟨.ok (), rfl, u.alone_returned _ _ _⟩
      · rw [if_neg hseen]
        exact ih _
    · rw [bind_err hread]
      exact ⟨.error e, rfl, u.alone_returned _ _ _⟩
    · exact absurd rfl habort

/-- The steps of a call, taken one after the other, are the operation. -/
theorem alone_updateParentListing (s : InMemoryObjectStore) :
    ∃ result, (R2Fs.updateParentListing u.fs u.name u.childMode s).1 =
        (match result with | .ok _ => .ok () | .error e => .err e) ∧
      u.alone (2 * R2Fs.compareAndSwapRetries + 1) (u.start, s) =
        (.returned result, (R2Fs.updateParentListing u.fs u.name u.childMode s).2) := by
  unfold R2Fs.updateParentListing start
  rw [branch_apply]
  by_cases henters : u.Enters
  · rw [if_pos henters, if_neg henters]
    exact u.alone_updateAttempts _ s
  · rw [if_neg henters, if_pos (not_not.mp henters)]
    exact ⟨.ok (), rfl, u.alone_returned _ _ _⟩

end ListingUpdate

/-! ## What every run keeps -/

theorem mem_of_mem_splitOn {l part : List Char} {a c : Char} (h : part ∈ l.splitOn a) (hc : c ∈ part) : c ∈ l := by
  induction l generalizing part with
  | nil =>
    rw [List.splitOn_eq_singleton (by simp), List.mem_singleton] at h
    rwa [h] at hc
  | cons x l ih =>
    rw [List.splitOn_cons_eq_if_modifyHead] at h
    split at h
    · rcases List.mem_cons.mp h with rfl | h
      · cases hc
      · exact List.mem_cons_of_mem x (ih h hc)
    · obtain ⟨hd, tl, htl⟩ := List.exists_cons_of_ne_nil (List.splitOn_ne_nil a l)
      rw [htl, List.modifyHead_cons] at h
      rcases List.mem_cons.mp h with rfl | h
      · rcases List.mem_cons.mp hc with rfl | hc
        · exact List.mem_cons_self
        · exact List.mem_cons_of_mem x (ih (by simp [htl]) hc)
      · exact List.mem_cons_of_mem x (ih (by simp [htl, h]) hc)

theorem mem_of_mem_baseName {name : String} {c : Char} (h : c ∈ (baseName name).toList) : c ∈ name.toList := by
  unfold baseName at h
  obtain ⟨last, hlast⟩ := Option.isSome_iff_exists.mp (List.getLast?_isSome.mpr (splitSlash_ne_nil name))
  rw [hlast, Option.getD_some] at h
  obtain ⟨part, hpart, rfl⟩ := List.mem_map.mp (List.mem_of_getLast? hlast)
  rw [String.toList_ofList] at h
  exact mem_of_mem_splitOn hpart h

namespace ListingUpdate

/-- A call on the directory under a key, with a name and a mode that a listing gives back. -/
structure On (key : String) (u : ListingUpdate) : Prop where
  key : u.parentKey = key
  name : ∀ c ∈ u.name.toList, isWhiteSpace c = false
  mode : ∀ mode ∈ u.childMode, Listed mode

theorem On.plainMap {key : String} {u : ListingUpdate} (h : u.On key) (henters : u.Enters)
    {m : Std.ExtTreeMap String FileMode} (hm : PlainMap m) : PlainMap (u.apply m) := by
  unfold apply R2Fs.updateListing
  cases hmode : u.childMode with
  | none => exact hm.erase _
  | some mode =>
    have hspaceless : Spaceless (baseName u.name) :=
      ⟨fun he => henters (.inr he), fun c hc => h.name c (mem_of_mem_baseName hc)⟩
    exact hm.insert ⟨hspaceless, h.mode mode hmode⟩

/-- The listing after a swap is the one before it with the update applied. -/
theorem On.parse_nextObject {key : String} {u : ListingUpdate} (h : u.On key) (henters : u.Enters) (seen : Object)
    (s : InMemoryObjectStore) :
    parseR2Listing (R2Fs.nextObject (baseName u.name) u.childMode seen s).body = u.apply (parseR2Listing seen.body) :=
  parseR2Listing_formatR2Listing (h.plainMap henters (plainMap_parseR2Listing seen.body))

end ListingUpdate

namespace ListingClients
variable {updates : List ListingUpdate} {s : InMemoryObjectStore} {key : String}

/-- The listing is the first one with the updates of the calls that swapped, in
that order; these are the calls that entered something and returned without an error. -/
structure NothingLost (updates : List ListingUpdate) (s : InMemoryObjectStore) (key : String) (w : ListingClients) : Prop where
  listing : listing w.store key = (listing s key).map (applied updates w.swapped)
  others : ∀ k, k ≠ key → w.store.objects[k]? = s.objects[k]?
  once : w.swapped.Nodup
  swapped : ∀ (i : Nat) (u : ListingUpdate), updates[i]? = some u →
    (i ∈ w.swapped ↔ u.Enters ∧ w.phases[i]? = some (.returned (.ok ())))
  idle : ∀ (i : Nat) (u : ListingUpdate), updates[i]? = some u → ¬ u.Enters → w.phases[i]? = some (.returned (.ok ()))

theorem start_nothingLost : NothingLost updates s key (start s updates) where
  listing := by
    cases h : ListingClients.listing s key <;> simp [start, h, applied]
  others _ _ := rfl
  once := List.nodup_nil
  swapped i u hu := by
    have hphase : (start s updates).phases[i]? = some u.start := by simp [start, hu]
    rw [hphase]
    unfold ListingUpdate.start
    by_cases henters : u.Enters <;> simp [start, henters]
  idle i u hu henters := by
    have hphase : (start s updates).phases[i]? = some u.start := by simp [start, hu]
    rw [hphase, ListingUpdate.start, if_neg henters]

theorem applied_append {i : Nat} {u : ListingUpdate} (hu : updates[i]? = some u) (swapped : List Nat)
    (m : Std.ExtTreeMap String FileMode) : applied updates (swapped ++ [i]) m = u.apply (applied updates swapped m) := by
  unfold applied
  rw [List.filterMap_append, List.foldl_append]
  simp [hu]

/-- The phases after a step of a call. -/
theorem set_phase {w : ListingClients} {i j : Nat} {phase next : UpdatePhase} (hphase : w.phases[i]? = some phase) :
    (w.phases.set i next)[j]? = if i = j then some next else w.phases[j]? := by
  obtain ⟨hi, -⟩ := List.getElem?_eq_some_iff.mp hphase
  rw [List.getElem?_set]
  split <;> rfl

theorem NothingLost.step {w : ListingClients} (h : NothingLost updates s key w) (hon : ∀ u ∈ updates, u.On key) (i : Nat) :
    NothingLost updates s key (w.step updates i) := by
  unfold ListingClients.step
  cases hu : updates[i]? with
  | none => exact h
  | some u =>
    cases hphase : w.phases[i]? with
    | none => exact h
    | some phase =>
      have honu := hon u (List.mem_of_getElem? hu)
      rcases u.advance_cases phase w.store with ⟨hobjects, hswaps, hnext⟩ | ⟨n, seen, rfl, hnext, hseen, hobjects⟩
      · dsimp only
        rw [hswaps, if_neg Bool.false_ne_true]
        have hphases (j : Nat) : (w.phases.set i (u.advance phase w.store).1)[j]? = some (.returned (.ok ())) ↔
            w.phases[j]? = some (.returned (.ok ())) := by
          rw [set_phase hphase]
          split
          · rename_i hij
            subst hij
            rw [hphase, Option.some.injEq, Option.some.injEq, hnext]
          · rfl
        refine ⟨?_, ?_, h.once, fun j v hv => ?_, fun j v hv hidle => ?_⟩
        · dsimp only
          rw [← h.listing, ListingClients.listing, ListingClients.listing, hobjects]
        · intro k hk
          dsimp only
          rw [hobjects]
          exact h.others k hk
        · exact (h.swapped j v hv).trans (and_congr_right fun _ => (hphases j).symm)
        · exact (hphases j).mpr (h.idle j v hv hidle)
      · -- the swap succeeds, so what the call saw is still there
        have hnot : w.phases[i]? ≠ some (.returned (.ok ())) := by
          rw [hphase]
          nofun
        have henters : u.Enters := by
          by_contra hidle
          exact hnot (h.idle i u hu hidle)
        have hfresh : i ∉ w.swapped := fun hmem => hnot ((h.swapped i u hu).mp hmem).2
        rw [honu.key] at hseen hobjects
        have hbefore : (ListingClients.listing s key).map (applied updates w.swapped) = some (parseR2Listing seen.body) := by
          rw [← h.listing, ListingClients.listing, hseen]
          rfl
        dsimp only
        rw [hnext, if_pos (show swaps (.swapping n seen) (.returned (.ok ())) = true from rfl)]
        refine ⟨?_, ?_, ?_, fun j v hv => ?_, fun j v hv hidle => ?_⟩
        · obtain ⟨m, hm, hmeq⟩ := Option.map_eq_some_iff.mp hbefore
          dsimp only
          rw [ListingClients.listing, hobjects, Std.ExtTreeMap.getElem?_insert_self, hm, Option.map_some, Option.map_some,
            applied_append hu, hmeq, honu.parse_nextObject henters]
        · intro k hk
          dsimp only
          rw [hobjects, Std.ExtTreeMap.getElem?_insert, if_neg (by simpa using Ne.symm hk)]
          exact h.others k hk
        · refine List.nodup_append.mpr ⟨h.once, List.nodup_singleton i, fun a ha b hb => ?_⟩
          rw [List.mem_singleton.mp hb]
          exact fun hai => hfresh (hai ▸ ha)
        · dsimp only
          rw [set_phase hphase, List.mem_append, List.mem_singleton]
          split
          · rename_i hij
            subst hij
            obtain rfl : u = v := by rw [hu] at hv; cases hv; rfl
            simp [henters]
          · rename_i hij
            rw [← h.swapped j v hv]
            exact or_iff_left (Ne.symm hij)
        · dsimp only
          rw [set_phase hphase]
          split
          · rfl
          · exact h.idle j v hv hidle

/-- A step that is no successful swap changes no object. -/
theorem step_objects (w : ListingClients) (i : Nat) (h : (w.step updates i).swapped = w.swapped) :
    (w.step updates i).store.objects = w.store.objects := by
  unfold ListingClients.step at h ⊢
  cases hu : updates[i]? with
  | none => rfl
  | some u =>
    cases hphase : w.phases[i]? with
    | none => rfl
    | some phase =>
      rw [hu, hphase] at h
      rcases u.advance_cases phase w.store with ⟨hobjects, -⟩ | ⟨n, seen, rfl, hnext, -⟩
      · exact hobjects
      · dsimp only at h
        rw [hnext, if_pos (show swaps (.swapping n seen) (.returned (.ok ())) = true from rfl)] at h
        simp at h

variable (updates s key) in
/-- In every interleaving of calls on one directory the listing is the first one
with the updates of the calls that returned without an error, in the order of
their swaps; no other step changes an object. -/
theorem run_nothingLost (hon : ∀ u ∈ updates, u.On key) (schedule : List Nat) :
    NothingLost updates s key (run (step updates) (start s updates) schedule) ∧
    ∀ i, ((run (step updates) (start s updates) schedule).step updates i).swapped =
        (run (step updates) (start s updates) schedule).swapped →
      ((run (step updates) (start s updates) schedule).step updates i).store.objects =
        (run (step updates) (start s updates) schedule).store.objects :=
  ⟨run_invariant_of_step (fun _ i h => h.step hon i) start_nothingLost schedule, fun i h => step_objects _ i h⟩

def twoUpdates : List ListingUpdate :=
  [⟨⟨""⟩, "a", some (FileMode.fromPerm 0o644)⟩, ⟨⟨""⟩, "b", some directoryMode⟩]

theorem twoUpdates_on : ∀ u ∈ twoUpdates, u.On "/" := by
  have hname (c : Char) (hc : c ∈ "a".toList ∨ c ∈ "b".toList) : isWhiteSpace c = false := by
    simp only [String.reduceToList, List.mem_singleton] at hc
    rcases hc with rfl | rfl <;> decide
  intro u hu
  rcases List.mem_cons.mp hu with rfl | hu
  · exact ⟨by decide, fun c hc => hname c (.inl hc), fun _ h => by cases h; exact ⟨0o644, .inl rfl⟩⟩
  · obtain rfl := List.mem_singleton.mp hu
    exact ⟨by decide, fun c hc => hname c (.inr hc), fun _ h => by cases h; exact ⟨0o755, .inr (.inl rfl)⟩⟩

def rootStore : InMemoryObjectStore := (R2Fs.ensureRoot ⟨""⟩ (.new fun _ => 0)).2

/-- Both calls read the empty listing; the second swap fails and is tried again. -/
theorem run_nothingLost_twoUpdates :
    NothingLost twoUpdates rootStore "/" (run (step twoUpdates) (start rootStore twoUpdates) [0, 1, 0, 1, 1, 1]) ∧
    (run (step twoUpdates) (start rootStore twoUpdates) [0, 1, 0, 1, 1, 1]).swapped = [0, 1] :=
  ⟨(run_nothingLost twoUpdates rootStore "/" twoUpdates_on [0, 1, 0, 1, 1, 1]).1, by decide +kernel⟩

end ListingClients
end Star9
