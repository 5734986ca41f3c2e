import Mathlib

/-!
# Little-endian words and byte readers

Fixed-width words as byte lists, and the reader that takes bytes off the front
of an input. Each reader is characterised by one equivalence: it returns a value
exactly on the inputs that begin with that value's bytes.
-/
namespace Base

abbrev Bytes := List UInt8

/-- The `n` low bytes of a natural number, least significant first. -/
def leBytes : Nat → Nat → Bytes
  | 0, _ => []
  | n + 1, v => UInt8.ofNat v :: leBytes n (v / 256)

def leValue : Bytes → Nat
  | [] => 0
  | b :: bs => b.toNat + 256 * leValue bs

@[simp] theorem leBytes_length (n v : Nat) : (leBytes n v).length = n := by
  induction n generalizing v with
  | zero => rfl
  | succ n ih => simp [leBytes, ih]

theorem leValue_leBytes (n v : Nat) : leValue (leBytes n v) = v % 256 ^ n := by
  induction n generalizing v with
  | zero => simp [leBytes, leValue, Nat.mod_one]
  | succ n ih =>
    rw [leBytes, leValue, ih, UInt8.toNat_ofNat', pow_succ' 256 n, Nat.mod_mul]

theorem leValue_lt (bs : Bytes) : leValue bs < 256 ^ bs.length := by
  induction bs with
  | nil => simp [leValue]
  | cons b bs ih =>
    have hb : b.toNat < 256 := b.toNat_lt
    rw [leValue, List.length_cons, pow_succ']
    omega

theorem leBytes_leValue (bs : Bytes) : leBytes bs.length (leValue bs) = bs := by
  induction bs with
  | nil => rfl
  | cons b bs ih =>
    have hb : b.toNat < 256 := b.toNat_lt
    have hdiv : (b.toNat + 256 * leValue bs) / 256 = leValue bs := by omega
    have hmod : UInt8.ofNat (b.toNat + 256 * leValue bs) = b := by
      apply UInt8.toNat_inj.mp
      rw [UInt8.toNat_ofNat']
      omega
    rw [List.length_cons, leValue, leBytes, hdiv, hmod, ih]

theorem leBytes_mod (n v : Nat) : leBytes n (v % 256 ^ n) = leBytes n v := by
  have h := leBytes_leValue (leBytes n v)
  rwa [leBytes_length, leValue_leBytes] at h

theorem leValue_append (a b : Bytes) : leValue (a ++ b) = leValue a + 256 ^ a.length * leValue b := by
  induction a with
  | nil => simp [leValue]
  | cons x a ih =>
    rw [List.cons_append, leValue, ih, leValue, List.length_cons, pow_succ']
    ring

section Reader
variable {ε α β : Type}

/-- A reader consumes a prefix of its input and returns the rest. -/
abbrev Reader (ε α : Type) := StateT Bytes (Except ε) α

@[simp] theorem except_ok_bind {a : α} {f : α → Except ε β} : (Except.ok a >>= f) = f a := rfl

theorem except_bind_eq_ok {x : Except ε α} {f : α → Except ε β} {b : β} :
    (x >>= f) = .ok b ↔ ∃ a, x = .ok a ∧ f a = .ok b := by
  cases x with
  | ok a =>
    constructor
    · intro h
      exact ⟨a, rfl, h⟩
    · rintro ⟨_, ha, h⟩
      cases ha
      exact h
  | error e =>
    constructor
    · intro h
      cases h
    · rintro ⟨_, ha, -⟩
      cases ha

theorem exists_bind_ok {x : Except ε α} {f : α → Except ε β} {a : α} (hx : x = .ok a) (hf : ∃ b, f a = .ok b) :
    ∃ b, x >>= f = .ok b := by
  obtain ⟨b, hb⟩ := hf
  exact ⟨b, except_bind_eq_ok.mpr ⟨a, hx, hb⟩⟩

theorem reader_pure_eq_ok {a b : α} {s rest : Bytes} :
    (pure a : Reader ε α) s = .ok (b, rest) ↔ a = b ∧ s = rest := by
  change Except.ok (a, s) = .ok (b, rest) ↔ _
  rw [Except.ok.injEq, Prod.mk.injEq]

theorem reader_bind_eq_ok {p : Reader ε α} {f : α → Reader ε β} {s rest : Bytes} {b : β} :
    (p >>= f) s = .ok (b, rest) ↔ ∃ a s₁, p s = .ok (a, s₁) ∧ f a s₁ = .ok (b, rest) := by
  change (p s >>= fun r => f r.1 r.2) = .ok (b, rest) ↔ _
  rw [except_bind_eq_ok, Prod.exists]

/-- A reader is exact for an encoding when it returns a value on precisely the
inputs that begin with the encoding of that value. -/
def Exact (p : Reader ε α) (fits : α → Prop) (enc : α → Bytes) : Prop :=
  ∀ s a rest, p s = .ok (a, rest) ↔ fits a ∧ s = enc a ++ rest

namespace Exact
variable {p : Reader ε α} {f : α → Reader ε β} {fits : α → Prop} {enc : α → Bytes}

theorem bind_eq_ok (h : Exact p fits enc) {s rest : Bytes} {b : β} :
    (p >>= f) s = .ok (b, rest) ↔ ∃ a s₁, (fits a ∧ s = enc a ++ s₁) ∧ f a s₁ = .ok (b, rest) := by
  simp only [reader_bind_eq_ok, h _ _ _]

theorem bind_append (h : Exact p fits enc) {a : α} (ha : fits a) (rest : Bytes) :
    (p >>= f) (enc a ++ rest) = f a rest := by
  have hp : p (enc a ++ rest) = .ok (a, rest) := (h _ _ _).mpr ⟨ha, rfl⟩
  change (p (enc a ++ rest) >>= fun r => f r.1 r.2) = f a rest
  rw [hp]
  rfl

end Exact

/-- Take `n` bytes off the front, or fail with `eof` when there are fewer. -/
def readBytes (eof : ε) (n : Nat) : Reader ε Bytes := fun s =>
  if n ≤ s.length then .ok (s.take n, s.drop n) else .error eof

theorem readBytes_eq_ok {eof : ε} {n : Nat} {s b rest : Bytes} :
    readBytes eof n s = .ok (b, rest) ↔ b.length = n ∧ s = b ++ rest := by
  unfold readBytes
  split
  · rename_i hn
    rw [Except.ok.injEq, Prod.mk.injEq]
    constructor
    · rintro ⟨rfl, rfl⟩
      exact ⟨by simp [hn], (List.take_append_drop n s).symm⟩
    · rintro ⟨rfl, rfl⟩
      simp
  · rename_i hn
    simp only [reduceCtorEq, false_iff, not_and]
    rintro rfl rfl
    exact hn (by simp)

/-- Read `n` bytes as one little-endian number and convert it. -/
def readLe (eof : ε) (n : Nat) (conv : Nat → α) : Reader ε α := do
  let bytes ← readBytes eof n
  pure (conv (leValue bytes))

/-- A word type whose values are the numbers below `256 ^ n` has an exact reader. -/
theorem readLe_exact {eof : ε} {n : Nat} {conv : Nat → α} {toNat : α → Nat}
    (hlt : ∀ a, toNat a < 256 ^ n) (hconv : ∀ a, conv (toNat a) = a)
    (hback : ∀ v, v < 256 ^ n → toNat (conv v) = v) :
    Exact (readLe eof n conv) (fun _ => True) (fun a => leBytes n (toNat a)) := by
  intro s a rest
  simp only [readLe, reader_bind_eq_ok, readBytes_eq_ok, reader_pure_eq_ok, true_and]
  constructor
  · rintro ⟨b, s₁, ⟨rfl, rfl⟩, rfl, rfl⟩
    rw [hback _ (leValue_lt b), leBytes_leValue]
  · rintro rfl
    refine ⟨leBytes n (toNat a), rest, ⟨leBytes_length n _, rfl⟩, ?_, rfl⟩
    rw [leValue_leBytes, Nat.mod_eq_of_lt (hlt a), hconv]

/-- Read a fixed number of items, in order. -/
def readMany (item : Reader ε α) : Nat → Reader ε (List α)
  | 0 => pure []
  | n + 1 => do
    let a ← item
    let rest ← readMany item n
    pure (a :: rest)

theorem readMany_exact {item : Reader ε α} {enc : α → Bytes} {fits : α → Prop}
    (hitem : Exact item fits enc) (n : Nat) :
    Exact (readMany item n) (fun as => as.length = n ∧ ∀ a ∈ as, fits a) (fun as => as.flatMap enc) := by
  induction n with
  | zero =>
    intro s as rest
    simp only [readMany, reader_pure_eq_ok, List.length_eq_zero_iff]
    constructor
    · rintro ⟨rfl, rfl⟩
      simp
    · rintro ⟨⟨rfl, -⟩, rfl⟩
      simp
  | succ n ih =>
    intro s as rest
    simp only [readMany, hitem.bind_eq_ok, ih.bind_eq_ok, reader_pure_eq_ok]
    constructor
    · rintro ⟨a, s₁, ⟨ha, rfl⟩, as', s₂, ⟨⟨hlen, has⟩, rfl⟩, rfl, rfl⟩
      exact ⟨⟨by simp [hlen], by simpa [ha] using has⟩, by simp⟩
    · rintro ⟨⟨hlen, has⟩, rfl⟩
      obtain ⟨a, as', rfl⟩ := List.exists_cons_of_length_eq_add_one hlen
      exact ⟨a, _, ⟨has a (by simp), by simp⟩, as', rest,
        ⟨⟨by simpa using hlen, fun b hb => has b (by simp [hb])⟩, rfl⟩, rfl, rfl⟩

/-- The reader takes exactly these bytes off the front and returns the value, whatever follows. -/
def Reads (p : Reader ε α) (b : Bytes) (a : α) : Prop := ∀ rest, p (b ++ rest) = .ok (a, rest)

theorem reads_pure (a : α) : Reads (pure a : Reader ε α) [] a := fun _ => rfl

theorem reads_readBytes (eof : ε) (b : Bytes) : Reads (readBytes eof b.length) b b := fun _ => readBytes_eq_ok.mpr ⟨rfl, rfl⟩

theorem Reads.bind {p : Reader ε α} {f : α → Reader ε β} {b b' : Bytes} {a : α} {c : β} (hp : Reads p b a)
    (hf : Reads (f a) b' c) : Reads (p >>= f) (b ++ b') c := by
  intro rest
  rw [List.append_assoc]
  change (p (b ++ (b' ++ rest)) >>= fun r => f r.1 r.2) = _
  rw [hp]
  exact hf rest

/-- What follows the first reader may look for the end of the input. -/
theorem Reads.bind_whole {p : Reader ε α} {f : α → Reader ε β} {b b' : Bytes} {a : α} {c : β} (hp : Reads p b a)
    (hf : f a b' = .ok (c, [])) : (p >>= f) (b ++ b') = .ok (c, []) := by
  change (p (b ++ b') >>= fun r => f r.1 r.2) = _
  rw [hp]
  exact hf

theorem Reads.map {p : Reader ε α} {b : Bytes} {a : α} (hp : Reads p b a) (g : α → β) :
    Reads (do let x ← p; pure (g x)) b (g a) := by
  have h := Reads.bind (f := fun x => pure (g x)) hp (reads_pure (g a))
  rwa [List.append_nil] at h

theorem Reads.whole {p : Reader ε α} {b : Bytes} {a : α} (hp : Reads p b a) : p b = .ok (a, []) := by
  have h := hp []
  rwa [List.append_nil] at h

theorem reads_readMany {γ : Type} {item : Reader ε α} {enc : γ → Bytes} {value : γ → α} {xs : List γ}
    (h : ∀ x ∈ xs, Reads item (enc x) (value x)) : Reads (readMany item xs.length) (xs.flatMap enc) (xs.map value) := by
  induction xs with
  | nil => exact reads_pure []
  | cons x xs ih =>
    have hrest := ih fun y hy => h y (List.mem_cons_of_mem x hy)
    exact (h x List.mem_cons_self).bind (hrest.map (value x :: ·))

end Reader

/-! ## Text -/

def utf8Bytes (s : String) : Bytes := s.toUTF8.data.toList

/-- The string with these bytes, when they are well-formed UTF-8. -/
def utf8String? (b : Bytes) : Option String := String.fromUTF8? ⟨b.toArray⟩

theorem utf8String?_eq_some {b : Bytes} {s : String} : utf8String? b = some s ↔ b = utf8Bytes s := by
  unfold utf8String? String.fromUTF8? utf8Bytes
  constructor
  · intro h
    split at h
    · simp only [Option.some.injEq] at h
      subst h
      simp [String.fromUTF8, String.toUTF8]
    · cases h
  · rintro rfl
    have hb : (⟨s.toUTF8.data.toList.toArray⟩ : ByteArray) = s.toUTF8 := by simp
    rw [hb]
    simp [String.toUTF8, String.isValidUTF8, String.fromUTF8]

/-- The number of bytes at the front that form one character, or that one
replacement character stands for when they do not. -/
def utf8Step (lead : UInt8) (rest : Bytes) : Bool × Nat :=
  let at_ (i : Nat) : UInt8 := rest.getD i 0
  let cont (i : Nat) : Bool := 0x80 ≤ at_ i && at_ i ≤ 0xbf
  let within (lo hi : UInt8) : Bool := lo ≤ at_ 0 && at_ 0 ≤ hi
  if lead < 0x80 then (true, 1)
  else if 0xc2 ≤ lead && lead ≤ 0xdf then if cont 0 then (true, 2) else (false, 1)
  else if 0xe0 ≤ lead && lead ≤ 0xef then
    let second :=
      if lead = 0xe0 then within 0xa0 0xbf else if lead = 0xed then within 0x80 0x9f
      else within 0x80 0xbf
    if !second then (false, 1) else if cont 1 then (true, 3) else (false, 2)
  else if 0xf0 ≤ lead && lead ≤ 0xf4 then
    let second :=
      if lead = 0xf0 then within 0x90 0xbf else if lead = 0xf4 then within 0x80 0x8f
      else within 0x80 0xbf
    if !second then (false, 1)
    else if !cont 1 then (false, 2)
    else if cont 2 then (true, 4) else (false, 3)
  else (false, 1)

/-- Every maximal ill-formed part becomes one U+FFFD; `n` bounds the steps. -/
def utf8Repair : Nat → Bytes → Bytes
  | 0, _ => []
  | _, [] => []
  | n + 1, lead :: rest =>
    let (ok, k) := utf8Step lead rest
    (if ok then (lead :: rest).take k else [0xef, 0xbf, 0xbd]) ++ utf8Repair n (rest.drop (k - 1))

def utf8Lossy (b : Bytes) : String :=
  match utf8String? b with
  | some s => s
  | none => (utf8String? (utf8Repair b.length b)).getD ""

@[simp] theorem utf8Lossy_utf8Bytes (s : String) : utf8Lossy (utf8Bytes s) = s := by
  rw [utf8Lossy, utf8String?_eq_some.mpr rfl]

theorem utf8Bytes_injective : Function.Injective utf8Bytes := by
  intro a b h
  have ha := utf8String?_eq_some.mpr (rfl : utf8Bytes a = utf8Bytes a)
  rw [h, utf8String?_eq_some.mpr rfl] at ha
  exact (Option.some.inj ha).symm

end Base
