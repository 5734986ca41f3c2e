import Star9.Fs.R2Run

/-!
# What a rename of the object store leaves behind

A rename puts the object in its new place, deletes the old one, and does the same
for the objects below. It looks for the parent of the new name only, so the two
places may be the same or one in the other, the parent may be a file, and what
stands below the new place stays unless something is moved over it.
-/
namespace Star9
open Base Prog

namespace R2Fs
variable {fs : R2Fs} {m m' : Std.ExtTreeMap String Object} {s : InMemoryObjectStore} {old new n : String}

/-! ## Changing a listing elsewhere -/

variable (fs) in
/-- A change of a listing makes no new key, and touches only the key of the listing. -/
theorem updateAttempts_frame (parent child : String) (cm : Option FileMode) (attempts : Nat) (s : InMemoryObjectStore) (k : String) :
    ((updateAttempts fs parent child cm attempts s).2.objects[k]? = none ↔ s.objects[k]? = none) ∧
      (k ≠ fs.key parent → (updateAttempts fs parent child cm attempts s).2.objects[k]? = s.objects[k]?) := by
  induction attempts generalizing s with
  | zero => exact ⟨Iff.rfl, fun _ => rfl⟩
  | succ attempts ih =>
    have hread := fs.readParent_objects parent s
    rw [updateAttempts, bind_apply]
    rcases hr : readParent fs parent s with ⟨seen | e | _, s'⟩ <;> rw [hr] at hread
    · change s'.objects = s.objects at hread
      dsimp only
      by_cases hseen : s'.objects[fs.key parent]? = some seen
      · have hswap := swapParent_apply fs parent child cm seen s'
        rw [if_pos hseen] at hswap
        rw [bind_ok hswap, if_pos rfl, ← hread]
        show ((s'.objects.insert (fs.key parent) (nextObject child cm seen s'))[k]? = none ↔ _) ∧ (_ → (s'.objects.insert _ _)[k]? = _)
        rw [Std.ExtTreeMap.getElem?_insert]
        by_cases hk : fs.key parent = k
        · rw [if_pos (by rw [hk, compare_eq_iff_eq]), ← hk, hseen]
          exact ⟨by simp, fun hne => absurd rfl hne⟩
        · rw [if_neg (by rw [compare_eq_iff_eq]; exact hk)]
          exact ⟨Iff.rfl, fun _ => rfl⟩
      · have hswap := swapParent_apply fs parent child cm seen s'
        rw [if_neg hseen] at hswap
        rw [bind_ok hswap, if_neg Bool.false_ne_true, ← hread]
        exact ih _
    · rw [← hread]
      exact ⟨Iff.rfl, fun _ => rfl⟩
    · rw [← hread]
      exact ⟨Iff.rfl, fun _ => rfl⟩

variable (fs) in
theorem updateParentListing_frame (n : String) (cm : Option FileMode) (s : InMemoryObjectStore) (k : String) :
    ((updateParentListing fs n cm s).2.objects[k]? = none ↔ s.objects[k]? = none) ∧
      (k ≠ fs.key (parentPath n) → (updateParentListing fs n cm s).2.objects[k]? = s.objects[k]?) := by
  unfold updateParentListing
  rw [branch_apply]
  split
  · exact ⟨Iff.rfl, fun _ => rfl⟩
  · exact updateAttempts_frame fs _ _ _ _ _ _

/-- The two changes at the end of a rename. -/
def relistBoth (fs : R2Fs) (old new : String) (mode : FileMode) : Prog InMemoryObjectStore Error Unit := do
  updateParentListing fs old none
  updateParentListing fs new (some mode)

variable (fs) in
theorem relistBoth_frame (mode : FileMode) (s : InMemoryObjectStore) (k : String) :
    ((relistBoth fs old new mode s).2.objects[k]? = none ↔ s.objects[k]? = none) ∧
      (k ≠ fs.key (parentPath old) → k ≠ fs.key (parentPath new) → (relistBoth fs old new mode s).2.objects[k]? = s.objects[k]?) := by
  have hfirst := updateParentListing_frame fs old none s k
  unfold relistBoth
  rw [bind_apply]
  rcases hr : updateParentListing fs old none s with ⟨u | e | _, s'⟩ <;> rw [hr] at hfirst
  · have hsecond := updateParentListing_frame fs new (some mode) s' k
    exact ⟨hsecond.1.trans hfirst.1, fun ho hn => (hsecond.2 hn).trans (hfirst.2 ho)⟩
  · exact ⟨hfirst.1, fun ho _ => hfirst.2 ho⟩
  · exact ⟨hfirst.1, fun ho _ => hfirst.2 ho⟩

/-! ## What a rename should do -/

/-- The object and what is below it stand at the new place, the two listings say so, and nothing else is different. -/
structure RenamedTo (fs : R2Fs) (m m' : Std.ExtTreeMap String Object) (old new : String) : Prop where
  objects : ∀ q, validPath q = true → q ≠ parentPath old → q ≠ parentPath new → m'[fs.key q]? =
    if within new q then m[fs.key (rebase new old q)]? else if within old q then none else m[fs.key q]?
  modes : ∀ q, q = parentPath old ∨ q = parentPath new → (fs.view m').mode q = (fs.view m).mode q
  listings : ∀ q mode, q = parentPath old ∨ q = parentPath new → (fs.view m).mode old = some mode → (fs.view m').list q =
    let l := if q = parentPath old then ((fs.view m).list q).erase (baseName old) else (fs.view m).list q
    if q = parentPath new then l.insert (baseName new) mode else l
  keyed : fs.Keyed m'

variable (fs s old new) in
structure RenameSpec : Prop where
  same : old = new → (rename fs old new s).2.objects = s.objects
  under : below old new = true → (rename fs old new s).1.isOk = false ∧ (rename fs old new s).2.objects = s.objects
  moved : within old new = false → (rename fs old new s).1 = .ok () → RenamedTo fs s.objects (rename fs old new s).2.objects old new

variable (fs m old new) in
/-- The call gets past its checks. -/
def Proceeds : Prop := (m[fs.key (parentPath new)]?).isSome = true ∧ ∃ o node, m[fs.key old]? = some o ∧ parseObject old o = .ok node

variable (fs m old new) in
/-- Something is moved over everything that stands below the new place. -/
def Covered : Prop := ∀ q, validPath q = true → below new q = true → (m[fs.key q]?).isSome = true →
  (m[fs.key (rebase new old q)]?).isSome = true

variable (fs m old new) in
/-- A rename that gets past the checks has two places apart, a directory to go to, and nothing in the way that stays. -/
def RenameAgrees : Prop := Proceeds fs m old new →
  within old new = false ∧ within new old = false ∧ fs.isDirectory m (parentPath new) = true ∧ Covered fs m old new

theorem rename_of_not_proceeds (hold : validPath old = true) (hnew : validPath new = true) (h : ¬ Proceeds fs s.objects old new) :
    (rename fs old new s).1.isOk = false ∧ (rename fs old new s).2 = s := by
  unfold rename
  rw [cleanPath_of_valid hold, cleanPath_of_valid hnew]
  rcases fs.parentMissing_cases "rename" new s with ⟨-, hmissing⟩ | ⟨hparent, hthere⟩
  · rw [bind_err hmissing]
    exact ⟨rfl, rfl⟩
  rw [bind_ok hthere]
  rcases fs.getObject_cases old s with hmissing | ⟨o, ho, hget⟩
  · rw [bind_err hmissing]
    exact ⟨rfl, rfl⟩
  rw [bind_ok hget]
  cases hparse : parseObject old o with
  | ok node => exact absurd ⟨hparent, o, node, ho, hparse⟩ h
  | err e =>
    have hnode : nodeOf old o s = (.err e, s) := by
      unfold nodeOf
      rw [hparse]
      rfl
    rw [bind_err hnode]
    exact ⟨rfl, rfl⟩
  | abort =>
    have hnode : nodeOf old o s = (.abort, s) := by
      unfold nodeOf
      rw [hparse]
      rfl
    rw [bind_abort hnode]
    exact ⟨rfl, rfl⟩

theorem rename_of_proceeds (hold : validPath old = true) (hnew : validPath new = true) (h : Proceeds fs s.objects old new) :
    ∃ o, s.objects[fs.key old]? = some o ∧ rename fs old new s =
      relistBoth fs old new (objectMode o) { s with objects := fs.renamedObjects (objectMode o).isDir old new o s.objects } := by
  obtain ⟨hparent, o, node, ho, hparse⟩ := h
  have hthere : parentMissing fs "rename" (cleanPath new) s = (.ok (), s) := by
    rw [cleanPath_of_valid hnew]
    rcases fs.parentMissing_cases "rename" new s with ⟨hnone, -⟩ | ⟨-, hthere⟩
    · rw [hnone] at hparent
      cases hparent
    · exact hthere
  have hget : getObject fs (cleanPath old) s = (.ok o, s) := by
    rw [cleanPath_of_valid hold]
    unfold getObject
    rw [bind_apply]
    simp [InMemoryObjectStore.get, ho]
  have hnode : nodeOf (cleanPath old) o s = (.ok node, s) := by
    rw [cleanPath_of_valid hold]
    unfold nodeOf
    rw [hparse]
    rfl
  have hmode : node.metadata.mode = objectMode o := by
    rcases nodeOf_cases (cleanPath old) o s with ⟨e, herr⟩ | habort | ⟨node', hnode', hmode, -⟩
    · rw [hnode] at herr
      cases herr
    · rw [hnode] at habort
      cases habort
    · rw [hnode] at hnode'
      cases hnode'
      exact hmode
  refine ⟨o, ho, ?_⟩
  rw [rename_apply s hthere hget hnode hmode, cleanPath_of_valid hold, cleanPath_of_valid hnew]
  rfl

/-! ## The objects that a rename moves -/

section
variable {o : Object}

/-- The old object is deleted last, also where it is the new one. -/
theorem getElem?_renamedObjects_old (hold : validPath old = true) (hnew : validPath new = true) (holddot : old ≠ ".") (hnewdot : new ≠ ".")
    (hwithin : within old new = true) (isDir : Bool) : (fs.renamedObjects isDir old new o m)[fs.key old]? = none := by
  have hbelow : below new old = false := by
    cases hb : below new old with
    | false => rfl
    | true =>
      rcases within_iff_below.mp hwithin with heq | hb'
      · exact absurd heq (ne_of_below hb)
      · have hasymm := below_asymm hb
        rw [hb'] at hasymm
        cases hasymm
  unfold renamedObjects
  dsimp only
  split
  · rw [getElem?_movedObjects_outside hold holddot hnew hnewdot hold (below_irrefl old) hbelow, getElem?_erase_key hold hold, if_pos rfl]
  · rw [getElem?_erase_key hold hold, if_pos rfl]

/-- The parents are outside the two places. -/
theorem getElem?_renamedObjects_parents (h : fs.Sound m) (hp : Places old new) (ho : m[fs.key old]? = some o) :
    (fs.renamedObjects (objectMode o).isDir old new o m)[fs.key (parentPath old)]? = m[fs.key (parentPath old)]? ∧
    (fs.renamedObjects (objectMode o).isDir old new o m)[fs.key (parentPath new)]? = m[fs.key (parentPath new)]? := by
  constructor
  · rw [getElem?_renamedObjects h hp ho (parentPath_valid old), R2View.not_within_parentPath hp.old_valid hp.inside,
      R2View.parentPath_not_within hp.old_valid hp.old_ne_dot, if_neg Bool.false_ne_true, if_neg Bool.false_ne_true]
  · rw [getElem?_renamedObjects h hp ho (parentPath_valid new), R2View.parentPath_not_within hp.new_valid hp.new_ne_dot,
      R2View.not_within_parentPath hp.new_valid hp.outside, if_neg Bool.false_ne_true, if_neg Bool.false_ne_true]

variable (fs) in
/-- With both parents there, both listings are changed, and the new parent is a directory. -/
theorem relistBoth_ok (hp : Places old new) (mode : FileMode) {s : InMemoryObjectStore}
    (hold : (s.objects[fs.key (parentPath old)]?).isSome = true) (hnew : (s.objects[fs.key (parentPath new)]?).isSome = true) :
    (relistBoth fs old new mode s).1 = .ok () ∧
      (fs.view (relistBoth fs old new mode s).2.objects).mode (parentPath new) = some directoryMode := by
  obtain ⟨po, hpo⟩ := Option.isSome_iff_exists.mp hold
  have hfirst := fs.updateParentListing_some hp.old_valid hp.old_ne_dot none s hpo
  have hkeep := (updateParentListing_frame fs old none s (fs.key (parentPath new))).1
  unfold relistBoth
  rw [bind_ok hfirst]
  rw [hfirst] at hkeep
  generalize ({ s with ticks := s.ticks + 1, objects := _ } : InMemoryObjectStore) = s' at hkeep
  obtain ⟨pn, hpn⟩ : ∃ pn, s'.objects[fs.key (parentPath new)]? = some pn := by
    refine Option.ne_none_iff_exists'.mp fun hnone => ?_
    rw [hkeep.mp hnone] at hnew
    cases hnew
  rw [fs.updateParentListing_some hp.new_valid hp.new_ne_dot (some mode) s' hpn]
  refine ⟨rfl, ?_⟩
  rw [(view_of_getElem? (o := nextObject (baseName new) (some mode) pn s')
    (by rw [getElem?_insert_key (parentPath_valid new) (parentPath_valid new), if_pos rfl])).1]
  exact congrArg some (objectMode_listingObjectAt _ _)

/-- What the two listings say after both were changed. -/
theorem relistBoth_view (hp : Places old new) (hspace : Spaceless (baseName new)) {mode : FileMode} (hmode : Listed mode)
    {s : InMemoryObjectStore} (hkeyed : fs.Keyed s.objects) (hold : (fs.view s.objects).mode (parentPath old) = some directoryMode)
    (hnew : (fs.view s.objects).mode (parentPath new) = some directoryMode) :
    (((fs.view s.objects).relist (parentPath old) (((fs.view s.objects).list (parentPath old)).erase (baseName old))).relist
      (parentPath new) ((((fs.view s.objects).relist (parentPath old)
        (((fs.view s.objects).list (parentPath old)).erase (baseName old))).list (parentPath new)).insert (baseName new) mode)).Agrees
      (fs.view (relistBoth fs old new mode s).2.objects) ∧ fs.Keyed (relistBoth fs old new mode s).2.objects := by
  have hout (m : FileMode) (hm : m ∈ (none : Option FileMode)) : Spaceless (baseName old) ∧ Listed m := by cases hm
  have hin (m : FileMode) (hm : m ∈ some mode) : Spaceless (baseName new) ∧ Listed m := by
    cases hm
    exact ⟨hspace, hmode⟩
  obtain ⟨hview, hkeyed₁, hok⟩ := updateParentListing_view hp.old_valid hp.old_ne_dot hout hkeyed (isDirectory_of_mode hold (by decide))
  unfold relistBoth
  rcases hr : updateParentListing fs old none s with ⟨r, s₁⟩
  rw [hr] at hview hkeyed₁ hok
  obtain rfl : r = .ok () := hok
  rw [bind_ok hr]
  have hnew₁ : (fs.view s₁.objects).mode (parentPath new) = some directoryMode := by
    rw [← (hview _ (parentPath_valid new)).1, R2View.relist_mode hold, hnew]
  obtain ⟨hview₂, hkeyed₂, -⟩ := updateParentListing_view hp.new_valid hp.new_ne_dot hin hkeyed₁
    (isDirectory_of_mode hnew₁ (by decide))
  exact ⟨(hview.relist (parentPath_valid new) fun l => l.insert (baseName new) mode).trans hview₂, hkeyed₂⟩

/-- Two places apart, a directory to go to, and nothing in the way that stays: the rename does what it should. -/
theorem relistBoth_renamedTo (h : fs.Sound s.objects) (hp : Places old new) (hspace : Spaceless (baseName new))
    (ho : s.objects[fs.key old]? = some o) (hdir : fs.isDirectory s.objects (parentPath new) = true)
    (hcovered : Covered fs s.objects old new) :
    RenamedTo fs s.objects (relistBoth fs old new (objectMode o)
      { s with objects := fs.renamedObjects (objectMode o).isDir old new o s.objects }).2.objects old new := by
  obtain ⟨hparentOld, hparentNew⟩ := getElem?_renamedObjects_parents h hp ho
  have hobjects (q : String) (hq : validPath q = true) :
      (fs.renamedObjects (objectMode o).isDir old new o s.objects)[fs.key q]? =
        if within new q then s.objects[fs.key (rebase new old q)]? else if within old q then none else s.objects[fs.key q]? := by
    rw [getElem?_renamedObjects h hp ho hq]
    cases hw : within new q with
    | false => rfl
    | true =>
      rw [if_pos rfl, if_pos rfl]
      cases hmoved : s.objects[fs.key (rebase new old q)]? with
      | some object => rfl
      | none =>
        rw [Option.none_or]
        rcases within_iff_below.mp hw with rfl | hbelow
        · rw [rebase_self, ho] at hmoved
          cases hmoved
        · rw [← Option.not_isSome_iff_eq_none]
          intro hthere
          have hcover := hcovered q hq hbelow hthere
          rw [hmoved] at hcover
          cases hcover
  have hkeyed := renamedObjects_keyed (o := o) h.keyed hp (objectMode o).isDir
  generalize fs.renamedObjects (objectMode o).isDir old new o s.objects = m₁ at hparentOld hparentNew hobjects hkeyed
  have hsame {p : String} (hm : m₁[fs.key p]? = s.objects[fs.key p]?) :
      (fs.view m₁).mode p = (fs.view s.objects).mode p ∧ (fs.view m₁).list p = (fs.view s.objects).list p := by
    unfold view
    dsimp only
    rw [hm]
    exact ⟨rfl, rfl⟩
  have hmodeOld := h.mode_parent (parentPath_valid old) (h.parent hp.old_valid hp.old_ne_dot ho)
  have hmodeNew := h.mode_parent (parentPath_valid new) hdir
  have hold₁ := (hsame hparentOld).1.trans hmodeOld
  have hnew₁ := (hsame hparentNew).1.trans hmodeNew
  obtain ⟨hview, hkeyed'⟩ := relistBoth_view (s := { s with objects := m₁ }) hp hspace (listed_objectMode o) hkeyed hold₁ hnew₁
  have hmodes (q : String) (hq : q = parentPath old ∨ q = parentPath new) :
      (fs.view s.objects).mode q = some directoryMode := by
    rcases hq with rfl | rfl
    · exact hmodeOld
    · exact hmodeNew
  have hvalid {q : String} (hq : q = parentPath old ∨ q = parentPath new) : validPath q = true := by
    rcases hq with rfl | rfl
    · exact parentPath_valid old
    · exact parentPath_valid new
  constructor
  · intro q hq hqold hqnew
    rw [(relistBoth_frame fs (objectMode o) { s with objects := m₁ } (fs.key q)).2
      (fun heq => hqold (fs.key_injective hq (parentPath_valid old) heq))
      (fun heq => hqnew (fs.key_injective hq (parentPath_valid new) heq))]
    exact hobjects q hq
  · intro q hq
    rw [← (hview q (hvalid hq)).1, R2View.relist_mode (by rw [R2View.relist_mode hold₁]; exact hnew₁), R2View.relist_mode hold₁]
    rcases hq with rfl | rfl
    · exact (hsame hparentOld).1
    · exact (hsame hparentNew).1
  · intro q mode hq hmode
    rw [(view_of_getElem? ho).1, Option.some.injEq] at hmode
    subst hmode
    rw [← (hview q (hvalid hq)).2]
    have hfirst : ((fs.view m₁).relist (parentPath old) (((fs.view m₁).list (parentPath old)).erase (baseName old))).list q =
        if q = parentPath old then ((fs.view s.objects).list q).erase (baseName old) else (fs.view s.objects).list q := by
      unfold R2View.relist
      split
      · rename_i heq
        rw [heq, R2View.set_list_self, (hsame hparentOld).2]
      · rename_i hne
        rw [(R2View.set_of_ne hne).2, hq.resolve_left hne, (hsame hparentNew).2]
    dsimp only
    rw [← hfirst]
    by_cases heq : q = parentPath new
    · rw [if_pos heq, heq]
      exact R2View.set_list_self _ _ _ _
    · rw [if_neg heq]
      exact (R2View.set_of_ne heq).2
  · exact hkeyed'

end

/-! ## When a rename does what it should -/

theorem renameSpec_of_agrees (h : fs.Sound s.objects) (hold : validPath old = true) (hnew : validPath new = true)
    (holddot : old ≠ ".") (hnewdot : new ≠ ".") (hspace : Spaceless (baseName new)) (hagrees : RenameAgrees fs s.objects old new) :
    RenameSpec fs s old new := by
  by_cases hproceeds : Proceeds fs s.objects old new
  · obtain ⟨hout, hin, hdir, hcovered⟩ := hagrees hproceeds
    obtain ⟨o, ho, hrename⟩ := rename_of_proceeds hold hnew hproceeds
    have hp : Places old new := ⟨hold, hnew, holddot, hnewdot, hout, hin⟩
    constructor
    · rintro rfl
      rw [within_self] at hout
      cases hout
    · intro hbelow
      rw [within_of_below hbelow] at hout
      cases hout
    · intro _ _
      rw [hrename]
      exact relistBoth_renamedTo h hp hspace ho hdir hcovered
  · obtain ⟨herr, hsame⟩ := rename_of_not_proceeds hold hnew hproceeds
    constructor
    · intro _
      rw [hsame]
    · intro _
      exact ⟨herr, by rw [hsame]⟩
    · intro _ hok
      rw [hok] at herr
      cases herr

/-- A rename to the same place or to one below deletes the object. -/
theorem outside_of_renameSpec (hold : validPath old = true) (hnew : validPath new = true) (holddot : old ≠ ".") (hnewdot : new ≠ ".")
    (hproceeds : Proceeds fs s.objects old new) (hspec : RenameSpec fs s old new) : within old new = false := by
  rw [← Bool.not_eq_true]
  intro hwithin
  obtain ⟨o, ho, hrename⟩ := rename_of_proceeds hold hnew hproceeds
  have hgone : (rename fs old new s).2.objects[fs.key old]? = none := by
    rw [hrename, (relistBoth_frame fs (objectMode o) _ (fs.key old)).1]
    exact getElem?_renamedObjects_old hold hnew holddot hnewdot hwithin _
  have hsame : (rename fs old new s).2.objects = s.objects := by
    rcases within_iff_below.mp hwithin with heq | hbelow
    · exact hspec.same heq.symm
    · exact (hspec.under hbelow).2
  rw [hsame, ho] at hgone
  cases hgone

theorem agrees_of_renameSpec (h : fs.Sound s.objects) (hold : validPath old = true) (hnew : validPath new = true)
    (holddot : old ≠ ".") (hnewdot : new ≠ ".") (habove : below new old = false) (hspec : RenameSpec fs s old new) :
    RenameAgrees fs s.objects old new := by
  intro hproceeds
  have hout := outside_of_renameSpec hold hnew holddot hnewdot hproceeds hspec
  have hin : within new old = false := by
    rw [← Bool.not_eq_true]
    intro hwithin
    rcases within_iff_below.mp hwithin with heq | hbelow
    · rw [heq, within_self] at hout
      cases hout
    · rw [habove] at hbelow
      cases hbelow
  have hp : Places old new := ⟨hold, hnew, holddot, hnewdot, hout, hin⟩
  obtain ⟨o, ho, hrename⟩ := rename_of_proceeds hold hnew hproceeds
  obtain ⟨hparentOld, hparentNew⟩ := getElem?_renamedObjects_parents h hp ho
  have hthereOld : (s.objects[fs.key (parentPath old)]?).isSome = true := by
    obtain ⟨po, hpo, -⟩ := isDirectory_eq_true.mp (h.parent hold holddot ho)
    rw [hpo]
    rfl
  obtain ⟨hok, hmode⟩ := relistBoth_ok fs hp (objectMode o)
    (s := { s with objects := fs.renamedObjects (objectMode o).isDir old new o s.objects })
    (by rw [hparentOld]; exact hthereOld) (by rw [hparentNew]; exact hproceeds.1)
  rw [← hrename] at hok hmode
  have hrenamed := hspec.moved hout hok
  refine ⟨hout, hin, ?_, ?_⟩
  · have hdir := hrenamed.modes (parentPath new) (.inr rfl)
    rw [hmode] at hdir
    exact isDirectory_of_mode hdir.symm (by decide)
  · intro q hq hbelow hthere
    rw [Option.isSome_iff_ne_none]
    intro hnone
    have hwithin := within_of_below hbelow
    have hqold : q ≠ parentPath old := R2View.ne_of_within hwithin (R2View.not_within_parentPath hold hin)
    have hqnew : q ≠ parentPath new := R2View.ne_of_within hwithin (R2View.parentPath_not_within hnew hnewdot)
    have hobject := hrenamed.objects q hq hqold hqnew
    rw [if_pos hwithin, hnone, hrename, (relistBoth_frame fs (objectMode o) _ (fs.key q)).1,
      getElem?_renamedObjects h hp ho hq, if_pos hwithin, hnone, Option.none_or] at hobject
    rw [hobject] at hthere
    cases hthere

theorem rename_spec (fs : R2Fs) (s : InMemoryObjectStore) (old new : String) (h : fs.Sound s.objects) (hold : validPath old = true)
    (hnew : validPath new = true) (holddot : old ≠ ".") (hnewdot : new ≠ ".") (hspace : Spaceless (baseName new)) :
    (RenameAgrees fs s.objects old new → RenameSpec fs s old new) ∧
      (below new old = false → RenameSpec fs s old new → RenameAgrees fs s.objects old new) :=
  ⟨renameSpec_of_agrees h hold hnew holddot hnewdot hspace, agrees_of_renameSpec h hold hnew holddot hnewdot⟩

/-- The store before the directory is moved. -/
def unmoved : InMemoryObjectStore := (R2World.reached "" 1 (fun _ => 0) (R2World.moveRun.take 4)).store

theorem unmoved_sound : (R2Fs.withBasePath "").Sound unmoved.objects := by
  obtain ⟨hmkdir, hcreate, hwrite, hclose, -⟩ := R2World.moveRun_enters
  have hmeet : StepsMeet (R2World.step (R2Fs.withBasePath "") 1) (R2World.EntersAt (R2Fs.withBasePath ""))
      (R2World.mount (R2Fs.withBasePath "") fun _ => 0) (R2World.moveRun.take 4) := ⟨hmkdir, hcreate, hwrite, hclose, trivial⟩
  have hrun : R2World.SoundWorld (R2Fs.withBasePath "") (R2World.reached "" 1 (fun _ => 0) (R2World.moveRun.take 4)) :=
    run_invariant (fun _ _ hw hop => hw.step 1 hop) (R2World.mount_sound fun _ => 0) hmeet
  exact hrun.store

theorem unmoved_agrees : RenameAgrees (R2Fs.withBasePath "") unmoved.objects "d" "e" := by
  refine fun _ => ⟨by decide, by decide, by decide +kernel, fun q hq hbelow hthere => ?_⟩
  have hempty : ((R2Fs.withBasePath "").view unmoved.objects).list "e" = ∅ := Std.ExtTreeMap.isEmpty_iff.mp (by decide +kernel)
  rw [unmoved_sound.none_below hempty hq hbelow] at hthere
  cases hthere

theorem rename_spec_unmoved : RenameSpec (R2Fs.withBasePath "") unmoved "d" "e" ∧
    (rename (R2Fs.withBasePath "") "d" "e" unmoved).2.objects.keys = ["/", "/e", "/e/f"] :=
  ⟨(rename_spec (R2Fs.withBasePath "") unmoved "d" "e" unmoved_sound (by decide) (by decide) (by decide) (by decide)
    (R2World.spaceless_singleton (by decide : isWhiteSpace 'e' = false))).1 unmoved_agrees, by decide +kernel⟩

/-- A directory renamed to itself is gone; what is below it goes with it. -/
theorem not_renameSpec : ¬∀ (fs : R2Fs) (s : InMemoryObjectStore) (old new : String), fs.Sound s.objects → validPath old = true →
    validPath new = true → old ≠ "." → new ≠ "." → Spaceless (baseName new) → RenameSpec fs s old new := by
  intro h
  have hsame := (h (R2Fs.withBasePath "") unmoved "d" "d" unmoved_sound (by decide) (by decide) (by decide) (by decide)
    (R2World.spaceless_singleton (by decide : isWhiteSpace 'd' = false))).same rfl
  have hkeys : (rename (R2Fs.withBasePath "") "d" "d" unmoved).2.objects.keys = ["/"] := by decide +kernel
  rw [hsame] at hkeys
  exact absurd hkeys (by decide +kernel)

end R2Fs
end Star9
