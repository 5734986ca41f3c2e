import Star9.Fs.R2Store

/-!
# Moving a directory of the object store

A rename moves the objects under a directory one after the other. With the new
place outside the old one this is the move of the view.
-/
namespace Star9
open Base Prog

/-! ## Moving objects from one beginning of a key to another -/

section
variable {oldPrefix newPrefix : String}

def moveObject (oldPrefix newPrefix : String) (m : Std.ExtTreeMap String Object) (kv : String × Object) :
    Std.ExtTreeMap String Object :=
  (m.insert (newPrefix ++ (stripPrefix oldPrefix kv.1).getD "") kv.2).erase kv.1

theorem moveObjects_apply (items : List (String × Object)) (s : InMemoryObjectStore) :
    R2Fs.moveObjects oldPrefix newPrefix items s =
      (.ok (), { s with objects := items.foldl (moveObject oldPrefix newPrefix) s.objects }) := by
  induction items generalizing s with
  | nil => rfl
  | cons kv items ih => exact ih _

variable (hapart : ∀ a b, oldPrefix ++ a ≠ newPrefix ++ b)
include hapart

theorem moveObject_new (m : Std.ExtTreeMap String Object) (a b : String) (o : Object) :
    (moveObject oldPrefix newPrefix m (oldPrefix ++ a, o))[newPrefix ++ b]? =
      if a = b then some o else m[newPrefix ++ b]? := by
  unfold moveObject
  dsimp only
  rw [stripPrefix_eq_some.mpr rfl, Option.getD_some, Std.ExtTreeMap.getElem?_erase,
    if_neg (by rw [compare_eq_iff_eq]; exact hapart a b), Std.ExtTreeMap.getElem?_insert]
  by_cases hab : a = b
  · rw [hab, if_pos rfl, if_pos (by simp)]
  · rw [if_neg hab, if_neg (by rw [compare_eq_iff_eq]; simpa using hab)]

theorem moveObject_old (m : Std.ExtTreeMap String Object) (a b : String) (o : Object) :
    (moveObject oldPrefix newPrefix m (oldPrefix ++ a, o))[oldPrefix ++ b]? =
      if a = b then none else m[oldPrefix ++ b]? := by
  unfold moveObject
  dsimp only
  rw [Std.ExtTreeMap.getElem?_erase, Std.ExtTreeMap.getElem?_insert]
  by_cases hab : a = b
  · rw [hab, if_pos rfl, if_pos (by simp)]
  · rw [if_neg hab, if_neg (by rw [compare_eq_iff_eq]; simpa using hab),
      if_neg (by rw [compare_eq_iff_eq]; exact fun h => hapart b _ h.symm)]

omit hapart in
theorem moveObject_other (m : Std.ExtTreeMap String Object) (kv : String × Object) {k : String}
    (hnew : ∀ b, k ≠ newPrefix ++ b) (hkv : k ≠ kv.1) : (moveObject oldPrefix newPrefix m kv)[k]? = m[k]? := by
  unfold moveObject
  rw [Std.ExtTreeMap.getElem?_erase, if_neg (by rw [compare_eq_iff_eq]; exact Ne.symm hkv), Std.ExtTreeMap.getElem?_insert,
    if_neg (by rw [compare_eq_iff_eq]; exact Ne.symm (hnew _))]

/-- What stood under the old beginning stands under the new one. -/
theorem foldl_moveObject_new {items : List (String × Object)} (hitems : ∀ kv ∈ items, ∃ a, kv.1 = oldPrefix ++ a)
    (hdistinct : (items.map Prod.fst).Nodup) (m : Std.ExtTreeMap String Object) (b : String) :
    (items.foldl (moveObject oldPrefix newPrefix) m)[newPrefix ++ b]? =
      ((items.find? fun kv => kv.1 = oldPrefix ++ b).map Prod.snd).or m[newPrefix ++ b]? := by
  induction items generalizing m with
  | nil => simp
  | cons kv items ih =>
    obtain ⟨⟨k, o⟩, rfl⟩ : ∃ x, kv = x := ⟨kv, rfl⟩
    obtain ⟨a, rfl⟩ : ∃ a, k = oldPrefix ++ a := hitems (k, o) List.mem_cons_self
    rw [List.map_cons, List.nodup_cons] at hdistinct
    rw [List.foldl_cons, ih (fun kv hkv => hitems kv (List.mem_cons_of_mem _ hkv)) hdistinct.2, moveObject_new hapart]
    by_cases hab : a = b
    · subst hab
      have hnone : items.find? (fun kv => kv.1 = oldPrefix ++ a) = none := by
        rw [List.find?_eq_none]
        intro kv hkv hkey
        exact hdistinct.1 (List.mem_map.mpr ⟨kv, hkv, by simpa using hkey⟩)
      rw [hnone, List.find?_cons_of_pos (by simp)]
      simp
    · rw [if_neg hab, List.find?_cons_of_neg (by simpa using hab)]

theorem foldl_moveObject_old {items : List (String × Object)} (hitems : ∀ kv ∈ items, ∃ a, kv.1 = oldPrefix ++ a)
    (m : Std.ExtTreeMap String Object) (b : String) :
    (items.foldl (moveObject oldPrefix newPrefix) m)[oldPrefix ++ b]? =
      if oldPrefix ++ b ∈ items.map Prod.fst then none else m[oldPrefix ++ b]? := by
  induction items generalizing m with
  | nil => simp
  | cons kv items ih =>
    obtain ⟨⟨k, o⟩, rfl⟩ : ∃ x, kv = x := ⟨kv, rfl⟩
    obtain ⟨a, rfl⟩ : ∃ a, k = oldPrefix ++ a := hitems (k, o) List.mem_cons_self
    rw [List.foldl_cons, ih (fun kv hkv => hitems kv (List.mem_cons_of_mem _ hkv)), moveObject_old hapart, List.map_cons]
    by_cases hab : a = b
    · subst hab
      simp
    · have hne : oldPrefix ++ b ≠ oldPrefix ++ a := by simpa using Ne.symm hab
      simp only [if_neg hab, List.mem_cons, hne, false_or]

omit hapart in
theorem foldl_moveObject_other {items : List (String × Object)} (hitems : ∀ kv ∈ items, ∃ a, kv.1 = oldPrefix ++ a)
    (m : Std.ExtTreeMap String Object) {k : String} (hnew : ∀ b, k ≠ newPrefix ++ b) (hold : ∀ a, k ≠ oldPrefix ++ a) :
    (items.foldl (moveObject oldPrefix newPrefix) m)[k]? = m[k]? := by
  induction items generalizing m with
  | nil => rfl
  | cons kv items ih =>
    obtain ⟨a, ha⟩ := hitems kv List.mem_cons_self
    rw [List.foldl_cons, ih (fun kv hkv => hitems kv (List.mem_cons_of_mem _ hkv)),
      moveObject_other m kv hnew (by rw [ha]; exact hold a)]

omit hapart in
/-- The objects whose key begins so. -/
def itemsUnder (pre : String) (m : Std.ExtTreeMap String Object) : List (String × Object) :=
  m.toList.filter fun kv => pre.toList.isPrefixOf kv.1.toList

omit hapart in
theorem mem_itemsUnder {pre : String} {m : Std.ExtTreeMap String Object} {kv : String × Object} :
    kv ∈ itemsUnder pre m ↔ m[kv.1]? = some kv.2 ∧ ∃ a, kv.1 = pre ++ a := by
  unfold itemsUnder
  rw [List.mem_filter, List.isPrefixOf_iff_prefix]
  refine and_congr Std.ExtTreeMap.mem_toList_iff_getElem?_eq_some ?_
  constructor
  · rintro ⟨t, ht⟩
    exact ⟨String.ofList t, String.toList_inj.mp (by simp [ht])⟩
  · rintro ⟨a, ha⟩
    exact ⟨a.toList, by simp [ha]⟩

omit hapart in
theorem itemsUnder_distinct (pre : String) (m : Std.ExtTreeMap String Object) :
    ((itemsUnder pre m).map Prod.fst).Nodup := by
  rw [List.nodup_map_iff_inj_on]
  · intro x hx y hy hxy
    have h₁ := (mem_itemsUnder.mp hx).1
    have h₂ := (mem_itemsUnder.mp hy).1
    rw [hxy, h₂] at h₁
    exact Prod.ext hxy (Option.some.inj h₁).symm
  · refine List.Nodup.filter _ ?_
    exact (Std.ExtTreeMap.distinct_keys_toList (t := m)).imp fun {a b} h heq => h (by rw [heq]; simp)

omit hapart in
theorem find?_itemsUnder (pre b : String) (m : Std.ExtTreeMap String Object) :
    ((itemsUnder pre m).find? fun kv => kv.1 = pre ++ b).map Prod.snd = m[pre ++ b]? := by
  cases hget : m[pre ++ b]? with
  | none =>
    rw [Option.map_eq_none_iff, List.find?_eq_none]
    intro kv hkv hkey
    have hkv := (mem_itemsUnder.mp hkv).1
    rw [show kv.1 = pre ++ b by simpa using hkey, hget] at hkv
    cases hkv
  | some o =>
    cases hfind : (itemsUnder pre m).find? fun kv => kv.1 = pre ++ b with
    | none =>
      have hmem : (pre ++ b, o) ∈ itemsUnder pre m := mem_itemsUnder.mpr ⟨hget, b, rfl⟩
      exact absurd (List.find?_eq_none.mp hfind _ hmem) (by simp)
    | some kv =>
      have hkv := (mem_itemsUnder.mp (List.mem_of_find?_eq_some hfind)).1
      obtain ⟨hkey, -⟩ := List.find?_eq_some_iff_append.mp hfind
      rw [show kv.1 = pre ++ b by simpa using hkey, hget] at hkv
      rw [Option.map_some]
      exact hkv.symm

def movedObjects (oldPrefix newPrefix : String) (m : Std.ExtTreeMap String Object) : Std.ExtTreeMap String Object :=
  (itemsUnder oldPrefix m).foldl (moveObject oldPrefix newPrefix) m

omit hapart in
theorem moveBelow_apply (oldKey newKey : String) (s : InMemoryObjectStore) :
    R2Fs.moveBelow oldKey newKey s = (.ok (), { s with objects := movedObjects (oldKey ++ "/") (newKey ++ "/") s.objects }) :=
  moveObjects_apply _ s

theorem movedObjects_new (m : Std.ExtTreeMap String Object) (b : String) :
    (movedObjects oldPrefix newPrefix m)[newPrefix ++ b]? = (m[oldPrefix ++ b]?).or m[newPrefix ++ b]? := by
  unfold movedObjects
  rw [foldl_moveObject_new hapart (fun _ hkv => (mem_itemsUnder.mp hkv).2) (itemsUnder_distinct _ m), find?_itemsUnder]

theorem movedObjects_old (m : Std.ExtTreeMap String Object) (b : String) :
    (movedObjects oldPrefix newPrefix m)[oldPrefix ++ b]? = none := by
  unfold movedObjects
  rw [foldl_moveObject_old hapart (fun _ hkv => (mem_itemsUnder.mp hkv).2)]
  split
  · rfl
  · rename_i hnot
    by_contra hne
    obtain ⟨o, ho⟩ := Option.ne_none_iff_exists'.mp hne
    exact hnot (List.mem_map.mpr ⟨(oldPrefix ++ b, o), mem_itemsUnder.mpr ⟨ho, b, rfl⟩, rfl⟩)

omit hapart in
theorem movedObjects_other (m : Std.ExtTreeMap String Object) {k : String} (hnew : ∀ b, k ≠ newPrefix ++ b)
    (hold : ∀ a, k ≠ oldPrefix ++ a) : (movedObjects oldPrefix newPrefix m)[k]? = m[k]? :=
  foldl_moveObject_other (fun _ hkv => (mem_itemsUnder.mp hkv).2) m hnew hold

end

/-! ## Keys below a path -/

namespace R2Fs
variable {fs : R2Fs} {p q : String}

variable (fs) in
theorem key_below (hp : p ≠ ".") (hpv : validPath p = true) (hq : validPath q = true) (h : below p q = true) :
    ∃ b, fs.key q = fs.key p ++ "/" ++ b ∧
      ∀ p', validPath p' = true → p' ≠ "." → fs.key (rebase p p' q) = fs.key p' ++ "/" ++ b := by
  obtain ⟨b, hb⟩ := Option.isSome_iff_exists.mp ((stripPrefix_slash_isSome hp hq).trans h)
  have hcomponents := (stripPrefix_slash hp).mp hb
  refine ⟨b, ?_, fun p' hp' hdot' => ?_⟩
  · rw [fs.key_of_ne_dot hq (below_ne_dot h), fs.key_of_ne_dot hpv hp, stripPrefix_eq_some.mp hb]
    simp [String.append_assoc]
  · have hrebase : rebase p p' q = p' ++ "/" ++ b := by
      apply components_injective
      rw [components_rebase hp' hq, hcomponents, List.drop_left, components_append_slash hdot']
    rw [fs.key_of_ne_dot (rebase_valid hp' hq) (below_ne_dot (below_rebase hp' hq h)), fs.key_of_ne_dot hp' hdot', hrebase]
    simp [String.append_assoc]

theorem below_of_key (hp : p ≠ ".") (hpv : validPath p = true) (hq : validPath q = true) {b : String}
    (h : fs.key q = fs.key p ++ "/" ++ b) : below p q = true := by
  rw [fs.key_of_ne_dot hpv hp] at h
  have hdot : q ≠ "." := by
    rintro rfl
    have hlen := congrArg String.length h
    unfold key root at hlen
    rw [cleanPath_of_valid hq] at hlen
    have hone : "/".length = 1 := rfl
    split at hlen
    · simp only [if_true, String.length_append] at hlen
      omega
    · simp only [if_true, String.length_append] at hlen
      omega
  rw [fs.key_of_ne_dot hq hdot] at h
  have hq' : q = p ++ "/" ++ b := by
    simpa [String.append_assoc] using h
  obtain ⟨c, cs, hc⟩ := List.exists_cons_of_ne_nil (splitSlash_ne_nil b)
  exact below_iff.mpr ⟨c, cs, by rw [hq', components_append_slash hp, hc]⟩

variable (fs) in
theorem key_apart {old new : String} (hold : validPath old = true) (holddot : old ≠ ".") (hnew : validPath new = true)
    (hnewdot : new ≠ ".") (hon : within old new = false) (hno : within new old = false) (a b : String) :
    fs.key old ++ "/" ++ a ≠ fs.key new ++ "/" ++ b := by
  rw [fs.key_of_ne_dot hold holddot, fs.key_of_ne_dot hnew hnewdot]
  intro h
  have heq : old ++ "/" ++ a = new ++ "/" ++ b := by
    simpa [String.append_assoc] using h
  have hcomponents := congrArg components heq
  rw [components_append_slash holddot, components_append_slash hnewdot] at hcomponents
  rcases List.prefix_or_prefix_of_prefix ⟨_, hcomponents⟩ ⟨_, rfl⟩ with hpre | hpre
  · have hwithin : within old new = true := List.isPrefixOf_iff_prefix.mpr hpre
    rw [hwithin] at hon
    cases hon
  · have hwithin : within new old = true := List.isPrefixOf_iff_prefix.mpr hpre
    rw [hwithin] at hno
    cases hno

/-! ## Renaming -/

/-- The objects after a rename, before the listings are changed. -/
def renamedObjects (fs : R2Fs) (isDir : Bool) (old new : String) (o : Object) (m : Std.ExtTreeMap String Object) :
    Std.ExtTreeMap String Object :=
  let m₁ := (m.insert (fs.key new) o).erase (fs.key old)
  if isDir then movedObjects (fs.key old ++ "/") (fs.key new ++ "/") m₁ else m₁

section
variable {m : Std.ExtTreeMap String Object} {old new : String} {o : Object}

theorem Sound.none_below (h : fs.Sound m) (hempty : (fs.view m).list p = ∅) (hq : validPath q = true)
    (hbelow : below p q = true) : m[fs.key q]? = none :=
  Option.map_eq_none_iff.mp (h.coherent.none_below hq hempty hbelow)

/-- The objects right after the old object was put in the new place. -/
theorem getElem?_replaced (hold : validPath old = true) (hnew : validPath new = true) (hq : validPath q = true) :
    ((m.insert (fs.key new) o).erase (fs.key old))[fs.key q]? =
      if q = old then none else if q = new then some o else m[fs.key q]? := by
  rw [getElem?_erase_key hold hq]
  split
  · rfl
  · exact getElem?_insert_key hnew hq o

/-- A key that is not below the old or the new path is not touched by the moving loop. -/
theorem getElem?_movedObjects_outside (hold : validPath old = true) (holddot : old ≠ ".") (hnew : validPath new = true)
    (hnewdot : new ≠ ".") (hq : validPath q = true) (hbold : below old q = false) (hbnew : below new q = false)
    (m : Std.ExtTreeMap String Object) :
    (movedObjects (fs.key old ++ "/") (fs.key new ++ "/") m)[fs.key q]? = m[fs.key q]? := by
  refine movedObjects_other m (fun b hb => ?_) fun a ha => ?_
  · rw [below_of_key hnewdot hnew hq hb] at hbnew
    cases hbnew
  · rw [below_of_key holddot hold hq ha] at hbold
    cases hbold

theorem not_below_of_not_within (h : within p q = false) : below p q = false := by
  cases hb : below p q with
  | false => rfl
  | true =>
    rw [within_of_below hb] at h
    cases h

/-- Two paths that are not the root, neither at nor below the other. -/
structure Places (old new : String) : Prop where
  old_valid : validPath old = true
  new_valid : validPath new = true
  old_ne_dot : old ≠ "."
  new_ne_dot : new ≠ "."
  outside : within old new = false
  inside : within new old = false

theorem places_of_moveOk {mode : FileMode} (h : fs.Sound m) (hok : R2View.MoveOk (fs.view m) old new mode) : Places old new :=
  ⟨hok.old_valid, hok.new_valid, hok.old_ne_dot, hok.new_ne_dot h.coherent, hok.outside, hok.apart h.coherent⟩

/-- Nothing stands below an object that is not a directory. -/
theorem Sound.none_below_file (h : fs.Sound m) (ho : m[fs.key old]? = some o) (hdir : (objectMode o).isDir = false)
    (hq : validPath q = true) (hbelow : below old q = true) : m[fs.key q]? = none := by
  refine h.none_below ?_ hq hbelow
  rw [(view_of_getElem? ho).2, objectListing, hdir, if_neg Bool.false_ne_true]

/-- At and below the new path stand the objects from the old one, and what was there before and was not overwritten. -/
theorem getElem?_renamedObjects (h : fs.Sound m) (hp : Places old new) (ho : m[fs.key old]? = some o) (hq : validPath q = true) :
    (fs.renamedObjects (objectMode o).isDir old new o m)[fs.key q]? =
      if within new q then (m[fs.key (rebase new old q)]?).or m[fs.key q]? else if within old q then none else m[fs.key q]? := by
  obtain ⟨hold, hnew, holddot, hnewdot, hon, hno⟩ := hp
  have hapart := key_apart fs hold holddot hnew hnewdot hon hno
  have hnewold : new ≠ old := fun heq => by rw [heq, within_self] at hon; cases hon
  unfold renamedObjects
  dsimp only
  cases hwnew : within new q with
  | true =>
    rw [if_pos rfl]
    rcases within_iff_below.mp hwnew with rfl | hbelow
    · rw [rebase_self, ho, Option.some_or]
      split
      · rw [getElem?_movedObjects_outside hold holddot hq hnewdot hq (not_below_of_not_within hon) (below_irrefl q),
          getElem?_replaced hold hq hq, if_neg hnewold, if_pos rfl]
      · rw [getElem?_replaced hold hq hq, if_neg hnewold, if_pos rfl]
    · have hqold : q ≠ old := fun heq => by rw [heq, hno] at hwnew; cases hwnew
      have hqnew : q ≠ new := Ne.symm (ne_of_below hbelow)
      have hrebase := below_rebase hold hq hbelow
      have hrvalid : validPath (rebase new old q) = true := rebase_valid hold hq
      split
      · obtain ⟨b, hkey, hkey'⟩ := key_below fs hnewdot hnew hq hbelow
        have hrold : rebase new old q ≠ old := Ne.symm (ne_of_below hrebase)
        have hrnew : rebase new old q ≠ new := fun heq => by
          rw [heq] at hrebase
          rw [within_of_below hrebase] at hon
          cases hon
        rw [hkey, movedObjects_new hapart, ← hkey, ← hkey' old hold holddot,
          getElem?_replaced hold hnew hrvalid, if_neg hrold, if_neg hrnew,
          getElem?_replaced hold hnew hq, if_neg hqold, if_neg hqnew]
      · rename_i hdir
        rw [getElem?_replaced hold hnew hq, if_neg hqold, if_neg hqnew,
          h.none_below_file ho (Bool.eq_false_of_not_eq_true hdir) hrvalid hrebase, Option.none_or]
  | false =>
    have hqnew : q ≠ new := fun heq => by rw [heq, within_self] at hwnew; cases hwnew
    rw [if_neg Bool.false_ne_true]
    cases hwold : within old q with
    | true =>
      rw [if_pos rfl]
      rcases within_iff_below.mp hwold with rfl | hbelow
      · split
        · rw [getElem?_movedObjects_outside hq holddot hnew hnewdot hq (below_irrefl q) (not_below_of_not_within hno),
            getElem?_replaced hq hnew hq, if_pos rfl]
        · rw [getElem?_replaced hq hnew hq, if_pos rfl]
      · have hqold : q ≠ old := Ne.symm (ne_of_below hbelow)
        split
        · obtain ⟨b, hkey, -⟩ := key_below fs holddot hold hq hbelow
          rw [hkey]
          exact movedObjects_old hapart _ b
        · rename_i hdir
          rw [getElem?_replaced hold hnew hq, if_neg hqold, if_neg hqnew,
            h.none_below_file ho (Bool.eq_false_of_not_eq_true hdir) hq hbelow]
    | false =>
      have hqold : q ≠ old := fun heq => by rw [heq, within_self] at hwold; cases hwold
      rw [if_neg Bool.false_ne_true]
      split
      · rw [getElem?_movedObjects_outside hold holddot hnew hnewdot hq (not_below_of_not_within hwold)
          (not_below_of_not_within hwnew), getElem?_replaced hold hnew hq, if_neg hqold, if_neg hqnew]
      · rw [getElem?_replaced hold hnew hq, if_neg hqold, if_neg hqnew]

/-- Where nothing stands below the new path, the objects at and below it are those from the old one. -/
theorem getElem?_renamedObjects_of_empty (h : fs.Sound m) (hp : Places old new) (hempty : (fs.view m).list new = ∅)
    (ho : m[fs.key old]? = some o) (hq : validPath q = true) :
    (fs.renamedObjects (objectMode o).isDir old new o m)[fs.key q]? =
      if within new q then m[fs.key (rebase new old q)]? else if within old q then none else m[fs.key q]? := by
  rw [getElem?_renamedObjects h hp ho hq]
  cases hwnew : within new q with
  | false => rfl
  | true =>
    rw [if_pos rfl, if_pos rfl]
    rcases within_iff_below.mp hwnew with rfl | hbelow
    · rw [rebase_self, ho, Option.some_or]
    · rw [h.none_below hempty hq hbelow, Option.or_none]

theorem renamedObjects_keyed (h : fs.Keyed m) (hp : Places old new) (isDir : Bool) :
    fs.Keyed (fs.renamedObjects isDir old new o m) := by
  have hkeyed : fs.Keyed ((m.insert (fs.key new) o).erase (fs.key old)) := (h.insert hp.new_valid o).erase _
  unfold renamedObjects
  dsimp only
  split
  · unfold movedObjects
    -- every object that is moved is below the old path, so its new key is that of a path
    have hitems : ∀ kv ∈ itemsUnder (fs.key old ++ "/") ((m.insert (fs.key new) o).erase (fs.key old)),
        ∃ q, validPath q = true ∧ fs.key new ++ "/" ++ (stripPrefix (fs.key old ++ "/") kv.1).getD "" = fs.key q := by
      intro kv hkv
      obtain ⟨hget, b, hb⟩ := mem_itemsUnder.mp hkv
      obtain ⟨q, hq, hkq⟩ := hkeyed kv.1 (Std.ExtTreeMap.mem_iff_isSome_getElem?.mpr (by rw [hget]; rfl))
      have hbelow := below_of_key hp.old_ne_dot hp.old_valid hq (hkq.symm.trans hb)
      obtain ⟨b', hkey, hkey'⟩ := key_below fs hp.old_ne_dot hp.old_valid hq hbelow
      refine ⟨rebase old new q, rebase_valid hp.new_valid hq, ?_⟩
      rw [stripPrefix_eq_some.mpr (hkq.trans hkey), Option.getD_some, hkey' new hp.new_valid hp.new_ne_dot]
    generalize itemsUnder (fs.key old ++ "/") ((m.insert (fs.key new) o).erase (fs.key old)) = items at hitems
    generalize (m.insert (fs.key new) o).erase (fs.key old) = m₁ at hkeyed
    induction items generalizing m₁ with
    | nil => exact hkeyed
    | cons kv items ih =>
      obtain ⟨q, hq, hkey⟩ := hitems kv List.mem_cons_self
      refine ih (fun x hx => hitems x (List.mem_cons_of_mem kv hx)) _ ?_
      unfold moveObject
      rw [hkey]
      exact (hkeyed.insert hq _).erase _
  · exact hkeyed

theorem rename_apply (s : InMemoryObjectStore) {node : R2Node}
    (hparent : parentMissing fs "rename" (cleanPath new) s = (.ok (), s)) (hget : getObject fs (cleanPath old) s = (.ok o, s))
    (hnode : nodeOf (cleanPath old) o s = (.ok node, s)) (hmode : node.metadata.mode = objectMode o) :
    rename fs old new s = (do
      updateParentListing fs (cleanPath old) none
      updateParentListing fs (cleanPath new) (some (objectMode o)))
        { s with objects := fs.renamedObjects (objectMode o).isDir (cleanPath old) (cleanPath new) o s.objects } := by
  unfold rename
  rw [bind_ok hparent, bind_ok hget, bind_ok hnode]
  have hmove (s' : InMemoryObjectStore) : moveTree node (fs.key (cleanPath old)) (fs.key (cleanPath new)) s' =
      let moved := movedObjects (fs.key (cleanPath old) ++ "/") (fs.key (cleanPath new) ++ "/") s'.objects
      (.ok (), { s' with objects := if (objectMode o).isDir then moved else s'.objects }) := by
    unfold moveTree
    rw [branch_apply, Metadata.isDir, hmode]
    split
    · exact moveBelow_apply _ _ s'
    · rfl
  change (moveTree node (fs.key (cleanPath old)) (fs.key (cleanPath new)) >>= _)
    { s with objects := (s.objects.insert (fs.key (cleanPath new)) o).erase (fs.key (cleanPath old)) } = _
  rw [bind_ok (hmove _), hmode]
  rfl

theorem view_renamedObjects {mode : FileMode} (h : fs.Sound m) (hok : R2View.MoveOk (fs.view m) old new mode)
    (ho : m[fs.key old]? = some o) :
    ((fs.view m).moved old new).Agrees (fs.view (fs.renamedObjects (objectMode o).isDir old new o m)) := by
  intro q hq
  unfold view R2View.moved
  dsimp only
  rw [getElem?_renamedObjects_of_empty h (places_of_moveOk h hok) hok.empty ho hq]
  split
  · exact ⟨rfl, rfl⟩
  · split
    · exact ⟨rfl, rfl⟩
    · exact ⟨rfl, rfl⟩

variable (fs) in
/-- A rename that finds the parent of the new name and the old name: the new name
can be entered and is not the old one or below it. -/
def Renamable (m : Std.ExtTreeMap String Object) (old new : String) : Prop :=
  (m[fs.key (parentPath new)]?).isSome = true → (m[fs.key old]?).isSome = true →
    within old new = false ∧ fs.Enterable m new

/-- The root is not entered by a rename: something stands below it. -/
theorem Enterable.moveOk (hok : fs.Enterable m new) (h : fs.Sound m) (hold : validPath old = true)
    (hnew : validPath new = true) (hout : within old new = false) (ho : m[fs.key old]? = some o) :
    R2View.MoveOk (fs.view m) old new (objectMode o) ∧ Spaceless (baseName new) := by
  have hmode := (view_of_getElem? ho).1
  have hdot : new ≠ "." := by
    rintro rfl
    have holddot : old ≠ "." := fun heq => by rw [heq, within_self] at hout; cases hout
    have hbelow : below "." old = true := by
      rw [below_iff]
      obtain ⟨c, cs, hc⟩ := List.exists_cons_of_ne_nil fun hnil => holddot (components_eq_nil.mp hnil)
      exact ⟨c, cs, hc⟩
    rw [h.coherent.none_below hold hok.1 hbelow] at hmode
    cases hmode
  obtain ⟨hspace, hdir⟩ := hok.2.resolve_left hdot
  exact ⟨⟨hold, hnew, hout, hok.1, hmode, h.mode_parent (parentPath_valid new) hdir⟩, hspace⟩

theorem rename_sound {s : InMemoryObjectStore} (h : fs.Sound s.objects) (old new : String)
    (hok : fs.Renamable s.objects (cleanPath old) (cleanPath new)) : fs.Sound (rename fs old new s).2.objects := by
  have hold := cleanPath_valid old
  have hnew := cleanPath_valid new
  rcases fs.parentMissing_cases "rename" (cleanPath new) s with ⟨-, hmissing⟩ | ⟨hparent, hthere⟩
  · unfold rename
    rw [bind_err hmissing]
    exact h
  rcases fs.getObject_cases (cleanPath old) s with hmissing | ⟨o, ho, hget⟩
  · unfold rename
    rw [bind_ok hthere, bind_err hmissing]
    exact h
  rcases nodeOf_cases (cleanPath old) o s with ⟨e, herr⟩ | habort | ⟨node, hnode, hmode, -⟩
  · unfold rename
    rw [bind_ok hthere, bind_ok hget, bind_err herr]
    exact h
  · unfold rename
    rw [bind_ok hthere, bind_ok hget, bind_abort habort]
    exact h
  obtain ⟨hout, henter⟩ := hok hparent (by rw [ho]; rfl)
  obtain ⟨hmove, hspace⟩ := henter.moveOk h hold hnew hout ho
  have holddot := hmove.old_ne_dot
  have hnewdot := hmove.new_ne_dot h.coherent
  rw [rename_apply s hthere hget hnode hmode]
  -- the view of the moved objects, and that of each of the two listings after it
  have hview := view_renamedObjects h hmove ho
  have hkeyed := renamedObjects_keyed (o := o) h.keyed (places_of_moveOk h hmove) (objectMode o).isDir
  generalize fs.renamedObjects (objectMode o).isDir (cleanPath old) (cleanPath new) o s.objects = m₁ at hview hkeyed
  have hparentOld := R2View.moved_of_outside (fs.view s.objects)
    (R2View.not_within_parentPath hold (hmove.apart h.coherent)) (R2View.parentPath_not_within hold holddot)
  have hmodeOld := (hview _ (parentPath_valid (cleanPath old))).1
  rw [hparentOld.1, hmove.parent_old h.coherent] at hmodeOld
  have hmodeOld' := hparentOld.1.trans (hmove.parent_old h.coherent)
  have hout_entry : ∀ mode ∈ (none : Option FileMode), Spaceless (baseName (cleanPath old)) ∧ Listed mode := fun _ hm => by
    cases hm
  have hin_entry : ∀ mode ∈ some (objectMode o), Spaceless (baseName (cleanPath new)) ∧ Listed mode := fun _ hm => by
    cases hm
    exact ⟨hspace, listed_objectMode o⟩
  obtain ⟨hview₂, hkeyed₂, hok₂⟩ := updateParentListing_view hold holddot hout_entry
    (s := { s with objects := m₁ }) hkeyed (isDirectory_of_mode hmodeOld.symm (by decide))
  have hview₂ := (hview.relist (parentPath_valid (cleanPath old)) (updateListing (baseName (cleanPath old)) none)).trans hview₂
  generalize hs₂ : updateParentListing fs (cleanPath old) none { s with objects := m₁ } = result at hview₂ hkeyed₂ hok₂
  obtain ⟨r, s₂⟩ := result
  obtain rfl : r = .ok () := hok₂
  rw [bind_ok hs₂]
  have hmodeNew := (hview₂ _ (parentPath_valid (cleanPath new))).1
  have hparentNew := R2View.moved_of_outside (fs.view s.objects)
    (R2View.parentPath_not_within hnew hnewdot) (R2View.not_within_parentPath hnew hout)
  rw [R2View.relist_mode hmodeOld', hparentNew.1, hmove.parent] at hmodeNew
  obtain ⟨hview₃, hkeyed₃, -⟩ := updateParentListing_view hnew hnewdot hin_entry
    hkeyed₂ (isDirectory_of_mode hmodeNew.symm (by decide))
  have hview₃ := (hview₂.relist (parentPath_valid (cleanPath new))
    (updateListing (baseName (cleanPath new)) (some (objectMode o)))).trans hview₃
  exact ⟨(h.coherent.afterMove hmove).of_agrees hview₃, hkeyed₃⟩

end

end R2Fs
end Star9
