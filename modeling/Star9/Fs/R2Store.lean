import Star9.Core.PathOrder
import Star9.Fs.R2Listing

/-!
# Objects and the listings they stand in

What an object store holds for a file system is, for each path, a mode and the
listing of a directory. A coherent view has exactly the listed paths. Entering,
taking out and moving a path keep a view coherent when nothing stands below the
path that is overwritten; the operations do this when their names and parents are
as they take them to be.
-/
namespace Star9
open Base Prog

/-! ## Views -/

structure R2View where
  mode : String → Option FileMode
  list : String → Std.ExtTreeMap String FileMode

namespace R2View

/-- A path other than the root has a mode exactly when the listing of its parent
enters it with that mode. All directories have one mode. -/
structure Coherent (v : R2View) : Prop where
  entry : ∀ p, validPath p = true → p ≠ "." → (v.list (parentPath p))[baseName p]? = v.mode p
  dirMode : ∀ p, validPath p = true → ∀ m, v.mode p = some m → m.isDir = true → m = directoryMode
  listed : ∀ p, validPath p = true → v.list p ≠ ∅ → v.mode p = some directoryMode

/-- The two views are the same on paths. -/
def Agrees (v v' : R2View) : Prop := ∀ p, validPath p = true → v.mode p = v'.mode p ∧ v.list p = v'.list p

theorem Coherent.of_agrees {v v' : R2View} (h : v.Coherent) (ha : v.Agrees v') : v'.Coherent where
  entry p hp hdot := by
    rw [← (ha _ (parentPath_valid p)).2, ← (ha p hp).1]
    exact h.entry p hp hdot
  dirMode p hp m hm := by
    rw [← (ha p hp).1] at hm
    exact h.dirMode p hp m hm
  listed p hp hne := by
    rw [← (ha p hp).2] at hne
    rw [← (ha p hp).1]
    exact h.listed p hp hne

/-- Nothing is below a path whose listing is empty. -/
theorem Coherent.none_below {v : R2View} (h : v.Coherent) {p q : String} (hq : validPath q = true)
    (hempty : v.list p = ∅) (hbelow : below p q = true) : v.mode q = none := by
  induction hn : (components q).length generalizing q with
  | zero => exact absurd (components_eq_nil.mp (List.length_eq_zero_iff.mp hn)) (below_ne_dot hbelow)
  | succ n ih =>
    have hdot := below_ne_dot hbelow
    rw [← h.entry q hq hdot]
    rcases (below_iff_parent hq hdot).mp hbelow with hparent | hparent
    · rw [hparent, hempty]
      simp
    · have hlen : (components (parentPath q)).length = n := by
        rw [components_parentPath hq, List.length_dropLast, hn]
        rfl
      have hnone := ih (parentPath_valid q) hparent hlen
      have hlist : v.list (parentPath q) = ∅ := by
        by_contra hne
        rw [h.listed _ (parentPath_valid q) hne] at hnone
        cases hnone
      rw [hlist]
      simp

/-- The mode and the listing at one path are replaced. -/
def set (v : R2View) (p : String) (mode : Option FileMode) (list : Std.ExtTreeMap String FileMode) : R2View :=
  { mode := Function.update v.mode p mode, list := Function.update v.list p list }

theorem set_of_ne {v : R2View} {p q : String} {mode : Option FileMode} {list : Std.ExtTreeMap String FileMode}
    (h : q ≠ p) : (v.set p mode list).mode q = v.mode q ∧ (v.set p mode list).list q = v.list q :=
  ⟨Function.update_of_ne h _ _, Function.update_of_ne h _ _⟩

theorem Agrees.set {v v' : R2View} (h : v.Agrees v') (p : String) (mode : Option FileMode)
    (list : Std.ExtTreeMap String FileMode) : (v.set p mode list).Agrees (v'.set p mode list) := by
  intro q hq
  by_cases hqp : q = p
  · rw [hqp]
    simp [R2View.set]
  · simpa [R2View.set, hqp] using h q hq

theorem Agrees.trans {v₁ v₂ v₃ : R2View} (h₁ : v₁.Agrees v₂) (h₂ : v₂.Agrees v₃) : v₁.Agrees v₃ := fun p hp =>
  ⟨(h₁ p hp).1.trans (h₂ p hp).1, (h₁ p hp).2.trans (h₂ p hp).2⟩

@[simp] theorem set_mode_self (v : R2View) (p : String) (mode : Option FileMode)
    (list : Std.ExtTreeMap String FileMode) : (v.set p mode list).mode p = mode := Function.update_self _ _ _

@[simp] theorem set_list_self (v : R2View) (p : String) (mode : Option FileMode)
    (list : Std.ExtTreeMap String FileMode) : (v.set p mode list).list p = list := Function.update_self _ _ _

/-- The listing of a directory is replaced. -/
def relist (v : R2View) (p : String) (list : Std.ExtTreeMap String FileMode) : R2View :=
  v.set p (some directoryMode) list

theorem Agrees.relist {v v' : R2View} (h : v.Agrees v') {p : String} (hp : validPath p = true)
    (f : Std.ExtTreeMap String FileMode → Std.ExtTreeMap String FileMode) :
    (v.relist p (f (v.list p))).Agrees (v'.relist p (f (v'.list p))) := by
  rw [(h p hp).2]
  exact h.set p _ _

/-- The modes stay when a listing of a directory is replaced. -/
theorem relist_mode {v : R2View} {p : String} (hp : v.mode p = some directoryMode)
    (list : Std.ExtTreeMap String FileMode) (q : String) : (v.relist p list).mode q = v.mode q := by
  unfold R2View.relist
  by_cases hq : q = p
  · rw [hq, set_mode_self, hp]
  · rw [(set_of_ne hq).1]

theorem base_ne {p q : String} (hp : validPath p = true) (hpdot : p ≠ ".") (hq : validPath q = true) (hqdot : q ≠ ".")
    (hne : p ≠ q) (hparent : parentPath p = parentPath q) : baseName p ≠ baseName q := by
  intro hbase
  apply hne
  apply components_injective
  rw [components_parent_base hp hpdot, components_parent_base hq hqdot, hparent, hbase]

/-- A path with nothing below it is entered with a mode or taken out, together with
its entry in the listing of its parent. -/
def change (v : R2View) (n : String) (m : Option FileMode) : R2View :=
  (v.set n m ∅).relist (parentPath n) (R2Fs.updateListing (baseName n) m (v.list (parentPath n)))

theorem getElem?_updateListing_self (child : String) (m : Option FileMode) (l : Std.ExtTreeMap String FileMode) :
    (R2Fs.updateListing child m l)[child]? = m := by
  cases m <;> simp [R2Fs.updateListing]

theorem getElem?_updateListing_of_ne {child name : String} (h : name ≠ child) (m : Option FileMode)
    (l : Std.ExtTreeMap String FileMode) : (R2Fs.updateListing child m l)[name]? = l[name]? := by
  cases m with
  | none => rw [R2Fs.updateListing, Std.ExtTreeMap.getElem?_erase, if_neg (by simpa using Ne.symm h)]
  | some m => rw [R2Fs.updateListing, Std.ExtTreeMap.getElem?_insert, if_neg (by simpa using Ne.symm h)]

theorem change_mode {v : R2View} {n : String} (hn : validPath n = true) (hdot : n ≠ ".") (m : Option FileMode)
    (hparent : v.mode (parentPath n) = some directoryMode) (p : String) :
    (v.change n m).mode p = if p = n then m else v.mode p := by
  unfold change relist
  by_cases hp : p = parentPath n
  · rw [hp, set_mode_self, if_neg (parentPath_ne_self hn hdot), hparent]
  · rw [(set_of_ne hp).1]
    by_cases hpn : p = n
    · rw [hpn, set_mode_self, if_pos rfl]
    · rw [(set_of_ne hpn).1, if_neg hpn]

theorem change_list {v : R2View} {n : String} (m : Option FileMode) (hempty : v.list n = ∅) (p : String) :
    (v.change n m).list p = if p = parentPath n then R2Fs.updateListing (baseName n) m (v.list p) else v.list p := by
  unfold change relist
  by_cases hp : p = parentPath n
  · rw [hp, set_list_self, if_pos rfl]
  · rw [(set_of_ne hp).2, if_neg hp]
    by_cases hpn : p = n
    · rw [hpn, set_list_self, hempty]
    · rw [(set_of_ne hpn).2]

theorem Coherent.change {v : R2View} (h : v.Coherent) {n : String} (hn : validPath n = true) (hdot : n ≠ ".")
    {m : Option FileMode} (hm : ∀ mode ∈ m, mode.isDir = true → mode = directoryMode) (hempty : v.list n = ∅)
    (hparent : v.mode (parentPath n) = some directoryMode) : (v.change n m).Coherent := by
  constructor
  · intro p hp hpdot
    rw [change_mode hn hdot m hparent, change_list m hempty]
    by_cases hpn : p = n
    · subst hpn
      rw [if_pos rfl, if_pos rfl, getElem?_updateListing_self]
    · rw [if_neg hpn]
      split
      · rename_i hsame
        rw [getElem?_updateListing_of_ne (base_ne hp hpdot hn hdot hpn hsame)]
        exact h.entry p hp hpdot
      · exact h.entry p hp hpdot
  · intro p hp mode hmode
    rw [change_mode hn hdot m hparent] at hmode
    split at hmode
    · exact hm mode hmode
    · exact h.dirMode p hp mode hmode
  · intro p hp hne
    rw [change_list m hempty] at hne
    rw [change_mode hn hdot m hparent]
    by_cases hpn : p = n
    · subst hpn
      rw [if_neg (Ne.symm (parentPath_ne_self hn hdot)), hempty] at hne
      exact absurd rfl hne
    · rw [if_neg hpn]
      split at hne
      · rename_i hpp
        rw [hpp, hparent]
      · exact h.listed p hp hne

/-- The root may be anything as long as it lists nothing. -/
theorem Coherent.setRoot {v : R2View} (h : v.Coherent) {m : Option FileMode}
    (hm : ∀ mode ∈ m, mode.isDir = true → mode = directoryMode) (hempty : v.list "." = ∅) :
    (v.set "." m ∅).Coherent := by
  have hlist (p : String) : (v.set "." m ∅).list p = v.list p := by
    by_cases hp : p = "."
    · rw [hp, set_list_self, hempty]
    · exact (set_of_ne hp).2
  constructor
  · intro p hp hdot
    rw [hlist, (set_of_ne hdot).1]
    exact h.entry p hp hdot
  · intro p hp mode hmode
    by_cases hdot : p = "."
    · rw [hdot, set_mode_self] at hmode
      exact hm mode hmode
    · rw [(set_of_ne hdot).1] at hmode
      exact h.dirMode p hp mode hmode
  · intro p hp hne
    rw [hlist] at hne
    by_cases hdot : p = "."
    · rw [hdot, hempty] at hne
      exact absurd rfl hne
    · rw [(set_of_ne hdot).1]
      exact h.listed p hp hne

/-- What stands at or below `old` stands at or below `new` instead; the listings are not changed yet. -/
def moved (v : R2View) (old new : String) : R2View :=
  { mode := fun p => if within new p then v.mode (rebase new old p) else if within old p then none else v.mode p
    list := fun p => if within new p then v.list (rebase new old p) else if within old p then ∅ else v.list p }

section Move
variable {v : R2View} {old new : String} {m : FileMode}

/-- The view after a whole move: the old entry is taken out and the new one is put in. -/
def afterMove (v : R2View) (old new : String) (m : FileMode) : R2View :=
  let v₁ := (v.moved old new).relist (parentPath old)
    ((v.moved old new).list (parentPath old) |>.erase (baseName old))
  v₁.relist (parentPath new) ((v₁.list (parentPath new)).insert (baseName new) m)

/-- A move that does not overwrite anything and does not go below itself. -/
structure MoveOk (v : R2View) (old new : String) (m : FileMode) : Prop where
  old_valid : validPath old = true
  new_valid : validPath new = true
  outside : within old new = false
  empty : v.list new = ∅
  mode : v.mode old = some m
  parent : v.mode (parentPath new) = some directoryMode

theorem MoveOk.old_ne_dot (h : MoveOk v old new m) : old ≠ "." := by
  intro hdot
  have hout := h.outside
  rw [hdot, within] at hout
  simp at hout

/-- The new place is not above the old one, since nothing is below it. -/
theorem MoveOk.apart (h : MoveOk v old new m) (hv : v.Coherent) : within new old = false := by
  cases hwithin : within new old with
  | false => rfl
  | true =>
    rcases within_iff_below.mp hwithin with heq | hbelow
    · have hout := h.outside
      rw [heq, within_self] at hout
      cases hout
    · have hnone := hv.none_below h.old_valid h.empty hbelow
      rw [h.mode] at hnone
      cases hnone

theorem MoveOk.new_ne_dot (h : MoveOk v old new m) (hv : v.Coherent) : new ≠ "." := by
  intro hdot
  have hapart := h.apart hv
  rw [hdot, within] at hapart
  simp at hapart

theorem parentPath_not_within {p : String} (hp : validPath p = true) (hdot : p ≠ ".") : within p (parentPath p) = false := by
  cases hwithin : within p (parentPath p) with
  | false => rfl
  | true =>
    rcases within_iff_below.mp hwithin with heq | hbelow
    · exact absurd heq (parentPath_ne_self hp hdot)
    · have := below_asymm hbelow
      rw [below_parentPath hp hdot] at this
      cases this

theorem not_within_parentPath {p q : String} (hq : validPath q = true) (h : within p q = false) :
    within p (parentPath q) = false := by
  cases hwithin : within p (parentPath q) with
  | false => rfl
  | true => rw [← h, within_of_within_parentPath hq hwithin]

theorem moved_of_outside (v : R2View) {old new p : String} (hnew : within new p = false) (hold : within old p = false) :
    (v.moved old new).mode p = v.mode p ∧ (v.moved old new).list p = v.list p := by
  simp [moved, hnew, hold]

/-- The parent of what is moved is a directory, and it stays where it is. -/
theorem MoveOk.parent_old (h : MoveOk v old new m) (hv : v.Coherent) : v.mode (parentPath old) = some directoryMode := by
  refine hv.listed _ (parentPath_valid old) fun hempty => ?_
  have hentry := hv.entry old h.old_valid h.old_ne_dot
  rw [hempty, h.mode] at hentry
  simp at hentry

theorem MoveOk.afterMove_mode (h : MoveOk v old new m) (hv : v.Coherent) (p : String) :
    (v.afterMove old new m).mode p = (v.moved old new).mode p := by
  have hold := moved_of_outside v (not_within_parentPath h.old_valid (h.apart hv))
    (parentPath_not_within h.old_valid h.old_ne_dot)
  have hnew := moved_of_outside v (parentPath_not_within h.new_valid (h.new_ne_dot hv))
    (not_within_parentPath h.new_valid h.outside)
  unfold afterMove relist
  by_cases hp : p = parentPath new
  · rw [hp, set_mode_self, hnew.1, h.parent]
  · rw [(set_of_ne hp).1]
    by_cases hp' : p = parentPath old
    · rw [hp', set_mode_self, hold.1, h.parent_old hv]
    · rw [(set_of_ne hp').1]

theorem MoveOk.afterMove_list (h : MoveOk v old new m) (hv : v.Coherent) (p : String) :
    (v.afterMove old new m).list p =
      let l := if p = parentPath old then (v.list p).erase (baseName old) else (v.moved old new).list p
      if p = parentPath new then l.insert (baseName new) m else l := by
  have hold := moved_of_outside v (not_within_parentPath h.old_valid (h.apart hv))
    (parentPath_not_within h.old_valid h.old_ne_dot)
  unfold afterMove relist
  dsimp only
  have hfirst (q : String) : ((v.moved old new).set (parentPath old) (some directoryMode)
      (((v.moved old new).list (parentPath old)).erase (baseName old))).list q =
      if q = parentPath old then (v.list q).erase (baseName old) else (v.moved old new).list q := by
    by_cases hq : q = parentPath old
    · rw [hq, set_list_self, if_pos rfl, hold.2]
    · rw [(set_of_ne hq).2, if_neg hq]
  by_cases hp : p = parentPath new
  · rw [hp, set_list_self, if_pos rfl, hfirst]
  · rw [(set_of_ne hp).2, if_neg hp, hfirst]

theorem within_parentPath_of_below {p q : String} (hq : validPath q = true) (h : below p q = true) :
    within p (parentPath q) = true := by
  rcases (below_iff_parent hq (below_ne_dot h)).mp h with heq | hbelow
  · rw [heq, within_self]
  · exact within_of_below hbelow

theorem ne_of_within {p q r : String} (h : within p q = true) (h' : within p r = false) : q ≠ r := by
  rintro rfl
  rw [h] at h'
  cases h'

/-- The entries after a move, for the paths that are neither at the old nor at the new place. -/
theorem MoveOk.entry_outside (h : MoveOk v old new m) (hv : v.Coherent) {p : String} (hp : validPath p = true)
    (hdot : p ≠ ".") (hnew : within new p = false) (hold : within old p = false) :
    ((v.afterMove old new m).list (parentPath p))[baseName p]? = v.mode p := by
  have hpnew : p ≠ new := fun heq => by rw [heq, within_self] at hnew; cases hnew
  have hpold : p ≠ old := fun heq => by rw [heq, within_self] at hold; cases hold
  rw [h.afterMove_list hv, ← hv.entry p hp hdot]
  have hmoved := (moved_of_outside v (not_within_parentPath hp hnew) (not_within_parentPath hp hold)).2
  dsimp only
  rw [hmoved]
  have herase : (if parentPath p = parentPath old then (v.list (parentPath p)).erase (baseName old)
      else v.list (parentPath p))[baseName p]? = (v.list (parentPath p))[baseName p]? := by
    split
    · rename_i hsame
      have hbase := base_ne hp hdot h.old_valid h.old_ne_dot hpold hsame
      rw [Std.ExtTreeMap.getElem?_erase, if_neg (by simpa using Ne.symm hbase)]
    · rfl
  by_cases hsame : parentPath p = parentPath new
  · have hbase := base_ne hp hdot h.new_valid (h.new_ne_dot hv) hpnew hsame
    rw [if_pos hsame, Std.ExtTreeMap.getElem?_insert, if_neg (by simpa using Ne.symm hbase)]
    exact herase
  · rw [if_neg hsame]
    exact herase

theorem MoveOk.entry_old (h : MoveOk v old new m) (hv : v.Coherent) :
    ((v.afterMove old new m).list (parentPath old))[baseName old]? = none := by
  rw [h.afterMove_list hv]
  dsimp only
  rw [if_pos rfl]
  by_cases hsame : parentPath old = parentPath new
  · have hne : old ≠ new := ne_of_within (within_self old) h.outside
    have hbase := base_ne h.old_valid h.old_ne_dot h.new_valid (h.new_ne_dot hv) hne hsame
    rw [if_pos hsame, Std.ExtTreeMap.getElem?_insert, if_neg (by simpa using Ne.symm hbase)]
    simp
  · rw [if_neg hsame]
    simp

/-- A listing inside the tree that is moved is neither that of the old parent nor that of the new one. -/
theorem MoveOk.list_inside (h : MoveOk v old new m) (hv : v.Coherent) {p : String}
    (hp : within new p = true ∨ within old p = true) : (v.afterMove old new m).list p = (v.moved old new).list p := by
  have hpold : p ≠ parentPath old := by
    rcases hp with hp | hp
    · exact ne_of_within hp (not_within_parentPath h.old_valid (h.apart hv))
    · exact ne_of_within hp (parentPath_not_within h.old_valid h.old_ne_dot)
  have hpnew : p ≠ parentPath new := by
    rcases hp with hp | hp
    · exact ne_of_within hp (parentPath_not_within h.new_valid (h.new_ne_dot hv))
    · exact ne_of_within hp (not_within_parentPath h.new_valid h.outside)
  rw [h.afterMove_list hv]
  dsimp only
  rw [if_neg hpold, if_neg hpnew]

theorem Coherent.afterMove (hv : v.Coherent) (h : MoveOk v old new m) : (v.afterMove old new m).Coherent := by
  constructor
  · intro p hp hdot
    rw [h.afterMove_mode hv]
    cases hnew : within new p with
    | true =>
      rcases within_iff_below.mp hnew with rfl | hbelow
      · rw [h.afterMove_list hv]
        dsimp only
        rw [if_pos rfl, Std.ExtTreeMap.getElem?_insert_self]
        simp [moved, rebase_self, h.mode]
      · have hparent := within_parentPath_of_below hp hbelow
        have hentry := hv.entry (rebase new old p) (rebase_valid h.old_valid hp) (below_ne_dot (below_rebase h.old_valid hp hbelow))
        rw [rebase_parentPath h.old_valid hp hbelow, baseName_rebase h.old_valid hp hbelow] at hentry
        rw [h.list_inside hv (.inl hparent)]
        simpa [moved, hparent, hnew] using hentry
    | false =>
      cases hold : within old p with
      | false =>
        rw [(moved_of_outside v hnew hold).1]
        exact h.entry_outside hv hp hdot hnew hold
      | true =>
        have hmode : (v.moved old new).mode p = none := by simp [moved, hnew, hold]
        rw [hmode]
        rcases within_iff_below.mp hold with rfl | hbelow
        · exact h.entry_old hv
        · have hparent := within_parentPath_of_below hp hbelow
          rw [h.list_inside hv (.inr hparent)]
          simp [moved, not_within_parentPath hp hnew, hparent]
  · intro p hp mode hmode
    rw [h.afterMove_mode hv] at hmode
    unfold moved at hmode
    dsimp only at hmode
    split at hmode
    · exact hv.dirMode _ (rebase_valid h.old_valid hp) mode hmode
    · split at hmode
      · cases hmode
      · exact hv.dirMode p hp mode hmode
  · intro p hp hne
    rw [h.afterMove_mode hv]
    cases hnew : within new p with
    | true =>
      rw [h.list_inside hv (.inl hnew)] at hne
      simp only [moved, hnew, if_true] at hne ⊢
      exact hv.listed _ (rebase_valid h.old_valid hp) hne
    | false =>
      cases hold : within old p with
      | true =>
        rw [h.list_inside hv (.inr hold)] at hne
        simp [moved, hnew, hold] at hne
      | false =>
        rw [(moved_of_outside v hnew hold).1]
        by_cases hpnew : p = parentPath new
        · rw [hpnew, h.parent]
        · by_cases hpold : p = parentPath old
          · rw [hpold, h.parent_old hv]
          · rw [h.afterMove_list hv] at hne
            dsimp only at hne
            rw [if_neg hpnew, if_neg hpold, (moved_of_outside v hnew hold).2] at hne
            exact hv.listed p hp hne

end Move

end R2View
/-! ## The view of a store -/

def objectMode (object : Object) : FileMode := parseHttpHeaderMode object.metadata

def objectListing (object : Object) : Std.ExtTreeMap String FileMode :=
  if (objectMode object).isDir then parseR2Listing object.body else ∅

theorem headerValue_r2MetadataAt (contentType : String) (mode : FileMode) (len : Nat) (now : SystemTime) :
    headerValue (r2MetadataAt contentType mode len now) "Content-Mode" = some (formatHttpMode mode) := by
  apply headerValue_of_unique
  · simp [r2MetadataAt, Std.ExtTreeMap.getElem_insert]
  · intro key hkey hcase
    simp only [r2MetadataAt, Std.ExtTreeMap.mem_insert, compare_eq_iff_eq, Std.ExtTreeMap.not_mem_empty, or_false] at hkey
    revert hcase
    rcases hkey with rfl | rfl | rfl | rfl | rfl <;> decide +kernel

theorem objectMode_r2MetadataAt {mode : FileMode} (h : Listed mode) (contentType : String) (len : Nat) (now : SystemTime)
    (body : Bytes) : objectMode { metadata := r2MetadataAt contentType mode len now, body } = mode := by
  unfold objectMode parseHttpHeaderMode
  dsimp only
  rw [headerValue_r2MetadataAt]
  exact parseHttpMode_of_listed h

theorem listed_directoryMode : Listed directoryMode := ⟨0o755, .inr (.inl rfl)⟩

theorem objectMode_listingObjectAt (entries : List (String × FileMode)) (now : SystemTime) :
    objectMode (listingObjectAt entries now) = directoryMode :=
  objectMode_r2MetadataAt listed_directoryMode _ _ _ _

theorem objectListing_listingObjectAt {m : Std.ExtTreeMap String FileMode} (h : PlainMap m) (now : SystemTime) :
    objectListing (listingObjectAt m.toList now) = m := by
  unfold objectListing
  rw [objectMode_listingObjectAt, if_pos (by decide)]
  exact parseR2Listing_formatR2Listing h

theorem listed_objectMode (object : Object) : Listed (objectMode object) := by
  unfold objectMode parseHttpHeaderMode
  split
  · exact listed_parseHttpMode _
  · split
    · exact listed_directoryMode
    · exact ⟨0o777, .inr (.inr rfl)⟩
    · exact ⟨0o644, .inl rfl⟩

namespace R2Fs
variable (fs : R2Fs)

/-- The keys of paths start with this. -/
def root : String := if fs.basePath = "" then "" else "/" ++ fs.basePath

theorem key_of_ne_dot {p : String} (hp : validPath p = true) (hdot : p ≠ ".") : fs.key p = fs.root ++ "/" ++ p := by
  unfold key root
  rw [cleanPath_of_valid hp]
  dsimp only
  rw [if_neg hdot, if_neg hdot]
  split <;> rfl

theorem key_dot_ne {p : String} (hp : validPath p = true) (hdot : p ≠ ".") : fs.key "." ≠ fs.key p := by
  rw [fs.key_of_ne_dot hp hdot]
  have hne : p ≠ "" := by
    rintro rfl
    cases hp
  intro h
  have hlen := congrArg String.length h
  unfold key root at hlen
  rw [cleanPath_of_valid validPath_dot] at hlen
  split at hlen
  · simp only [if_true, String.length_append] at hlen
    exact hne (String.length_eq_zero_iff.mp (by simpa using hlen))
  · simp only [if_true, String.length_append] at hlen
    have hone : "/".length = 1 := rfl
    omega

theorem key_injective {p q : String} (hp : validPath p = true) (hq : validPath q = true) (h : fs.key p = fs.key q) : p = q := by
  by_cases hpdot : p = "."
  · by_cases hqdot : q = "."
    · rw [hpdot, hqdot]
    · rw [hpdot] at h
      exact absurd h (fs.key_dot_ne hq hqdot)
  · by_cases hqdot : q = "."
    · rw [hqdot] at h
      exact absurd h.symm (fs.key_dot_ne hp hpdot)
    · rw [fs.key_of_ne_dot hp hpdot, fs.key_of_ne_dot hq hqdot] at h
      simpa using h

def view (objects : Std.ExtTreeMap String Object) : R2View :=
  { mode := fun p => (objects[fs.key p]?).map objectMode
    list := fun p => (objects[fs.key p]?).elim ∅ objectListing }

section
variable {fs} {m : Std.ExtTreeMap String Object} {n : String}

theorem getElem?_insert_key (hn : validPath n = true) {p : String} (hp : validPath p = true) (o : Object) :
    (m.insert (fs.key n) o)[fs.key p]? = if p = n then some o else m[fs.key p]? := by
  rw [Std.ExtTreeMap.getElem?_insert]
  by_cases hpn : p = n
  · rw [hpn, if_pos rfl, if_pos (by simp)]
  · rw [if_neg hpn, if_neg]
    rw [compare_eq_iff_eq]
    exact fun h => hpn (fs.key_injective hn hp h).symm

theorem getElem?_erase_key (hn : validPath n = true) {p : String} (hp : validPath p = true) :
    (m.erase (fs.key n))[fs.key p]? = if p = n then none else m[fs.key p]? := by
  rw [Std.ExtTreeMap.getElem?_erase]
  by_cases hpn : p = n
  · rw [hpn, if_pos rfl, if_pos (by simp)]
  · rw [if_neg hpn, if_neg]
    rw [compare_eq_iff_eq]
    exact fun h => hpn (fs.key_injective hn hp h).symm

variable (fs m) in
theorem view_insert (hn : validPath n = true) (o : Object) :
    ((fs.view m).set n (some (objectMode o)) (objectListing o)).Agrees (fs.view (m.insert (fs.key n) o)) := by
  intro p hp
  unfold view
  dsimp only
  rw [getElem?_insert_key hn hp]
  by_cases hpn : p = n
  · rw [hpn, if_pos rfl]
    simp [R2View.set]
  · rw [if_neg hpn]
    simp [R2View.set, hpn]

variable (fs m) in
theorem view_erase (hn : validPath n = true) : ((fs.view m).set n none ∅).Agrees (fs.view (m.erase (fs.key n))) := by
  intro p hp
  unfold view
  dsimp only
  rw [getElem?_erase_key hn hp]
  by_cases hpn : p = n
  · rw [hpn, if_pos rfl]
    simp [R2View.set]
  · rw [if_neg hpn]
    simp [R2View.set, hpn]

variable (fs m) in
/-- Every object is the object of a path. -/
def Keyed : Prop := ∀ k ∈ m, ∃ p, validPath p = true ∧ k = fs.key p

theorem Keyed.insert (h : fs.Keyed m) (hn : validPath n = true) (o : Object) : fs.Keyed (m.insert (fs.key n) o) := by
  intro k hk
  rw [Std.ExtTreeMap.mem_insert, compare_eq_iff_eq] at hk
  rcases hk with rfl | hk
  · exact ⟨n, hn, rfl⟩
  · exact h k hk

theorem Keyed.erase (h : fs.Keyed m) (k : String) : fs.Keyed (m.erase k) := fun k' hk' =>
  h k' (Std.ExtTreeMap.mem_of_mem_erase hk')

/-- The mode and the listing that an object gives its path. -/
theorem view_of_getElem? {o : Object} (h : m[fs.key n]? = some o) :
    (fs.view m).mode n = some (objectMode o) ∧ (fs.view m).list n = objectListing o := by
  simp [view, h]

end

/-! ## Changing a listing alone -/

theorem updateParentListing_dot (cm : Option FileMode) (s : InMemoryObjectStore) :
    updateParentListing fs "." cm s = (.ok (), s) := by
  unfold updateParentListing
  rw [if_pos (by left; decide)]
  rfl

section
variable {n : String} (hn : validPath n = true) (hdot : n ≠ ".") (cm : Option FileMode) (s : InMemoryObjectStore)
include hn hdot

theorem updateParentListing_eq :
    updateParentListing fs n cm s = updateAttempts fs (parentPath n) (baseName n) cm compareAndSwapRetries s := by
  have hbase := baseName_validName hn hdot
  unfold updateParentListing
  rw [if_neg]
  rintro (h | h)
  · exact hbase.2.1 h
  · exact hbase.1 h

/-- A call that is not disturbed swaps at its first attempt. -/
theorem updateParentListing_some {po : Object} (hpo : s.objects[fs.key (parentPath n)]? = some po) :
    updateParentListing fs n cm s =
      (.ok (), { s with ticks := s.ticks + 1, objects := s.objects.insert (fs.key (parentPath n)) (nextObject (baseName n) cm po s) }) := by
  have hread : readParent fs (parentPath n) s = (.ok po, s) := by
    unfold readParent
    rw [bind_apply]
    simp [InMemoryObjectStore.get, hpo]
  have hswap := swapParent_apply fs (parentPath n) (baseName n) cm po s
  rw [if_pos hpo] at hswap
  rw [fs.updateParentListing_eq hn hdot, compareAndSwapRetries, updateAttempts, bind_ok hread, bind_ok hswap, if_pos rfl]
  rfl

end

/-! ## Operations on a sound store -/

/-- The objects are those that the listings enter. -/
structure Sound (m : Std.ExtTreeMap String Object) : Prop where
  coherent : (fs.view m).Coherent
  keyed : fs.Keyed m

def isDirectory (m : Std.ExtTreeMap String Object) (p : String) : Bool :=
  match m[fs.key p]? with
  | some o => (objectMode o).isDir
  | none => false

/-- A name at which something may be put: it is not a directory with entries, a
listing keeps it as one word, and its parent is a directory. -/
def Enterable (m : Std.ExtTreeMap String Object) (n : String) : Prop :=
  (fs.view m).list n = ∅ ∧ (n = "." ∨ Spaceless (baseName n) ∧ fs.isDirectory m (parentPath n) = true)

section
variable {fs} {m : Std.ExtTreeMap String Object} {n : String}

theorem isDirectory_eq_true {p : String} :
    fs.isDirectory m p = true ↔ ∃ o, m[fs.key p]? = some o ∧ (objectMode o).isDir = true := by
  unfold isDirectory
  cases m[fs.key p]? <;> simp

theorem Sound.mode_of_isDirectory (h : fs.Sound m) {p : String} (hp : validPath p = true) {o : Object}
    (ho : m[fs.key p]? = some o) (hdir : (objectMode o).isDir = true) : objectMode o = directoryMode :=
  h.coherent.dirMode p hp _ (view_of_getElem? ho).1 hdir

theorem plainMap_updateListing {l : Std.ExtTreeMap String FileMode} (hl : PlainMap l) {child : String} {cm : Option FileMode}
    (h : ∀ mode ∈ cm, Spaceless child ∧ Listed mode) : PlainMap (updateListing child cm l) := by
  cases cm with
  | none => exact hl.erase child
  | some mode => exact hl.insert (h mode rfl)

/-- A change of the listing of a directory that is there. -/
theorem updateParentListing_view (hn : validPath n = true) (hdot : n ≠ ".") {cm : Option FileMode}
    (hcm : ∀ mode ∈ cm, Spaceless (baseName n) ∧ Listed mode) {s : InMemoryObjectStore} (hkeyed : fs.Keyed s.objects)
    (hdir : fs.isDirectory s.objects (parentPath n) = true) :
    ((fs.view s.objects).relist (parentPath n)
      (updateListing (baseName n) cm ((fs.view s.objects).list (parentPath n)))).Agrees
        (fs.view (updateParentListing fs n cm s).2.objects) ∧
    fs.Keyed (updateParentListing fs n cm s).2.objects ∧ (updateParentListing fs n cm s).1 = .ok () := by
  obtain ⟨po, hpo, hpodir⟩ := isDirectory_eq_true.mp hdir
  have hplain : PlainMap (updateListing (baseName n) cm (parseR2Listing po.body)) :=
    plainMap_updateListing (plainMap_parseR2Listing po.body) hcm
  have hlist : (fs.view s.objects).list (parentPath n) = parseR2Listing po.body := by
    rw [(view_of_getElem? hpo).2, objectListing, if_pos hpodir]
  rw [fs.updateParentListing_some hn hdot cm s hpo]
  refine ⟨?_, hkeyed.insert (parentPath_valid n) _, rfl⟩
  have hnext := view_insert fs s.objects (parentPath_valid n) (nextObject (baseName n) cm po s)
  have hobject : objectMode (nextObject (baseName n) cm po s) = directoryMode := objectMode_listingObjectAt _ _
  have hentries : objectListing (nextObject (baseName n) cm po s) =
    updateListing (baseName n) cm (parseR2Listing po.body) := objectListing_listingObjectAt hplain _
  rw [hobject, hentries, ← hlist] at hnext
  exact hnext

theorem isDirectory_of_mode {p : String} {mode : FileMode} (h : (fs.view m).mode p = some mode) (hdir : mode.isDir = true) :
    fs.isDirectory m p = true := by
  obtain ⟨o, ho, hmode⟩ := Option.map_eq_some_iff.mp h
  exact isDirectory_eq_true.mpr ⟨o, ho, by rw [hmode]; exact hdir⟩

theorem Sound.mode_parent (h : fs.Sound m) {p : String} (hp : validPath p = true) (hdir : fs.isDirectory m p = true) :
    (fs.view m).mode p = some directoryMode := by
  obtain ⟨o, ho, hodir⟩ := isDirectory_eq_true.mp hdir
  rw [(view_of_getElem? ho).1, h.mode_of_isDirectory hp ho hodir]

/-- The listing of the parent is brought up to date after a path was changed. -/
theorem Sound.update (h : fs.Sound m) (hn : validPath n = true) (hdot : n ≠ ".") {cm : Option FileMode}
    (hcm : ∀ mode ∈ cm, Spaceless (baseName n) ∧ Listed mode) (hdirMode : ∀ mode ∈ cm, mode.isDir = true → mode = directoryMode)
    (hempty : (fs.view m).list n = ∅) {s : InMemoryObjectStore} (hkeyed : fs.Keyed s.objects)
    (hview : ((fs.view m).set n cm ∅).Agrees (fs.view s.objects)) (hdir : fs.isDirectory m (parentPath n) = true) :
    fs.Sound (updateParentListing fs n cm s).2.objects := by
  have hparent := h.mode_parent (parentPath_valid n) hdir
  have hkept : ((fs.view m).set n cm ∅).mode (parentPath n) = (fs.view m).mode (parentPath n) ∧
    ((fs.view m).set n cm ∅).list (parentPath n) = (fs.view m).list (parentPath n) :=
      R2View.set_of_ne (parentPath_ne_self hn hdot)
  have hmode' := (hview _ (parentPath_valid n)).1
  have hlist' := (hview _ (parentPath_valid n)).2
  rw [hkept.1, hparent] at hmode'
  rw [hkept.2] at hlist'
  obtain ⟨hafter, hkeyed', -⟩ := updateParentListing_view hn hdot hcm hkeyed (isDirectory_of_mode hmode'.symm (by decide))
  refine ⟨(h.coherent.change hn hdot hdirMode hempty hparent).of_agrees ?_, hkeyed'⟩
  rw [← hlist'] at hafter
  exact (hview.set _ _ _).trans hafter

/-- Something without a listing of its own is put under a name. -/
theorem Sound.put (h : fs.Sound m) (hn : validPath n = true) (hok : fs.Enterable m n) {o : Object} {mode : FileMode}
    (hmode : objectMode o = mode) (hlisted : Listed mode) (hdirMode : mode.isDir = true → mode = directoryMode)
    (hlist : objectListing o = ∅) {s : InMemoryObjectStore} (hs : s.objects = m.insert (fs.key n) o) :
    fs.Sound (updateParentListing fs n (some mode) s).2.objects := by
  obtain ⟨hempty, hok⟩ := hok
  have hview : ((fs.view m).set n (some mode) ∅).Agrees (fs.view s.objects) := by
    have hinsert := view_insert fs m hn o
    rwa [hmode, hlist, ← hs] at hinsert
  have hkeyed : fs.Keyed s.objects := hs ▸ h.keyed.insert hn o
  by_cases hdot : n = "."
  · subst hdot
    rw [fs.updateParentListing_dot]
    exact ⟨(h.coherent.setRoot (fun _ hm => by cases hm; exact hdirMode) hempty).of_agrees hview, hkeyed⟩
  · obtain ⟨hspace, hdir⟩ := hok.resolve_left hdot
    exact h.update hn hdot (fun _ hm => by cases hm; exact ⟨hspace, hlisted⟩) (fun _ hm => by cases hm; exact hdirMode)
      hempty hkeyed hview hdir

/-- An object in a sound store has a directory for a parent. -/
theorem Sound.parent (h : fs.Sound m) (hn : validPath n = true) (hdot : n ≠ ".") {o : Object}
    (ho : m[fs.key n]? = some o) : fs.isDirectory m (parentPath n) = true := by
  have hentry := h.coherent.entry n hn hdot
  rw [(view_of_getElem? ho).1] at hentry
  have hne : (fs.view m).list (parentPath n) ≠ ∅ := by
    intro hempty
    rw [hempty] at hentry
    simp at hentry
  exact isDirectory_of_mode (h.coherent.listed _ (parentPath_valid n) hne) (by decide)

theorem putFileObject_sound {s : InMemoryObjectStore} (h : fs.Sound s.objects) (hn : validPath n = true)
    (hok : fs.Enterable s.objects n) (perm : UInt32) (body : Bytes) :
    fs.Sound (putFileObject fs n (FileMode.fromPerm perm) body s).2.objects := by
  have hlisted : Listed (FileMode.fromPerm perm) := ⟨perm, .inl rfl⟩
  have hmode := objectMode_r2MetadataAt hlisted "application/octet-stream" body.length (s.clock s.ticks) body
  have hdir := FileMode.isDir_fromPerm perm
  refine h.put hn hok hmode hlisted (fun hd => by rw [hdir] at hd; cases hd) ?_
    (s := { s with ticks := s.ticks + 1, objects := _ }) rfl
  rw [objectListing, hmode, hdir, if_neg Bool.false_ne_true]

theorem parentMissing_cases (op name : String) (s : InMemoryObjectStore) :
    (s.objects[fs.key (parentPath name)]? = none ∧ parentMissing fs op name s = (.err (.path op name .notFound), s)) ∨
    ((s.objects[fs.key (parentPath name)]?).isSome = true ∧ parentMissing fs op name s = (.ok (), s)) := by
  unfold parentMissing
  rw [bind_apply]
  cases hparent : s.objects[fs.key (parentPath name)]? with
  | none => exact .inl ⟨rfl, by simp [InMemoryObjectStore.get, hparent]⟩
  | some o => exact .inr ⟨rfl, by simp [InMemoryObjectStore.get, hparent]⟩

theorem plainMap_empty : PlainMap ∅ := fun _ _ h => by simp at h

theorem mkdir_sound {s : InMemoryObjectStore} (h : fs.Sound s.objects) (name : String) (perm : FileMode)
    (hok : (s.objects[fs.key (parentPath (cleanPath name))]?).isSome = true → fs.Enterable s.objects (cleanPath name)) :
    fs.Sound (mkdir fs name perm s).2.objects := by
  unfold mkdir
  rcases fs.parentMissing_cases "mkdir" (cleanPath name) s with ⟨-, hmissing⟩ | ⟨hparent, hthere⟩
  · rw [bind_err hmissing]
    exact h
  · rw [bind_ok hthere]
    have hlist : objectListing (listingObjectAt [] (s.clock s.ticks)) = ∅ :=
      objectListing_listingObjectAt plainMap_empty (s.clock s.ticks)
    exact h.put (cleanPath_valid name) (hok hparent) (objectMode_listingObjectAt [] (s.clock s.ticks)) listed_directoryMode
      (fun _ => rfl) hlist (s := { s with ticks := s.ticks + 1, objects := _ }) rfl

theorem symlink_sound {s : InMemoryObjectStore} (h : fs.Sound s.objects) (old new : String)
    (hok : (s.objects[fs.key (parentPath (cleanPath new))]?).isSome = true → fs.Enterable s.objects (cleanPath new)) :
    fs.Sound (symlink fs old new s).2.objects := by
  unfold symlink
  rcases fs.parentMissing_cases "symlink" (cleanPath new) s with ⟨-, hmissing⟩ | ⟨hparent, hthere⟩
  · rw [bind_err hmissing]
    exact h
  · rw [bind_ok hthere]
    have hlisted : Listed linkMode := ⟨0o777, .inr (.inr rfl)⟩
    have hmode := objectMode_r2MetadataAt hlisted "application/x-symlink" (utf8Bytes old).length (s.clock s.ticks) (utf8Bytes old)
    refine h.put (cleanPath_valid new) (hok hparent) hmode hlisted (fun hd => absurd hd (by decide)) ?_
      (s := { s with ticks := s.ticks + 1, objects := _ }) rfl
    rw [objectListing, hmode, if_neg (by decide)]

theorem getObject_cases (name : String) (s : InMemoryObjectStore) :
    (getObject fs name s = (.err (.path "r2fs" name .notFound), s)) ∨
    ∃ o, s.objects[fs.key name]? = some o ∧ getObject fs name s = (.ok o, s) := by
  unfold getObject
  rw [bind_apply]
  cases ho : s.objects[fs.key name]? with
  | none => exact .inl (by simp [InMemoryObjectStore.get, ho])
  | some o => exact .inr ⟨o, rfl, by simp [InMemoryObjectStore.get, ho]⟩

/-- A node that is read has the mode and the listing of its object. -/
theorem nodeOf_cases (name : String) (o : Object) (s : InMemoryObjectStore) :
    (∃ e, nodeOf name o s = (.err e, s)) ∨ nodeOf name o s = (.abort, s) ∨
    ∃ node, nodeOf name o s = (.ok node, s) ∧ node.metadata.mode = objectMode o ∧
      (node.metadata.isDir = true → node.entries = (parseR2Listing o.body).toList.map r2DirEntry) := by
  unfold nodeOf parseObject
  cases hm : parseHttpMetadata name o.metadata o.body.length with
  | err e => exact .inl ⟨e, rfl⟩
  | abort => exact .inr (.inl rfl)
  | ok metadata =>
    refine .inr (.inr ⟨_, rfl, ?_, fun hdir => if_pos hdir⟩)
    unfold parseHttpMetadata at hm
    dsimp only at hm
    cases hmodified : parseHttpModified o.metadata with
    | ok modified =>
      rw [hmodified] at hm
      cases hm
      rfl
    | err e =>
      rw [hmodified] at hm
      cases hm
    | abort =>
      rw [hmodified] at hm
      cases hm

theorem remove_sound {s : InMemoryObjectStore} (h : fs.Sound s.objects) (name : String) :
    fs.Sound (remove fs name s).2.objects := by
  have hn := cleanPath_valid name
  unfold remove getNode
  rw [bind_assoc]
  rcases fs.getObject_cases (cleanPath name) s with hmissing | ⟨o, ho, hget⟩
  · rw [bind_err hmissing]
    exact h
  · rw [bind_ok hget]
    rcases nodeOf_cases (cleanPath name) o s with ⟨e, herr⟩ | habort | ⟨node, hnode, hmode, hentries⟩
    · rw [bind_err herr]
      exact h
    · rw [bind_abort habort]
      exact h
    · rw [bind_ok hnode, branch_apply]
      split
      · exact h
      · rename_i hnotempty
        have hempty : (fs.view s.objects).list (cleanPath name) = ∅ := by
          rw [(view_of_getElem? ho).2, objectListing]
          split
          · rename_i hdir
            have hisDir : node.metadata.isDir = true := by rw [Metadata.isDir, hmode]; exact hdir
            rw [hisDir, hentries hisDir] at hnotempty
            simpa using hnotempty
          · rfl
        have hview : ((fs.view s.objects).set (cleanPath name) none ∅).Agrees
            (fs.view (s.objects.erase (fs.key (cleanPath name)))) := view_erase fs s.objects hn
        have hkeyed := h.keyed.erase (fs.key (cleanPath name))
        change fs.Sound (updateParentListing fs (cleanPath name) none
          { s with objects := s.objects.erase (fs.key (cleanPath name)) }).2.objects
        by_cases hdot : cleanPath name = "."
        · rw [hdot] at hempty hview ⊢
          rw [fs.updateParentListing_dot]
          exact ⟨(h.coherent.setRoot (fun _ hm => by cases hm) hempty).of_agrees hview, h.keyed.erase _⟩
        · exact h.update hn hdot (fun _ hm => by cases hm) (fun _ hm => by cases hm) hempty hkeyed hview (h.parent hn hdot ho)

end

end R2Fs
end Star9
