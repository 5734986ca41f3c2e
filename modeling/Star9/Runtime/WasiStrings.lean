import Star9.Base.Line
import Star9.Runtime.WasiMemory

/-!
# Arguments and environment of a guest

`args_get` and `environ_get` write an array of pointers and the strings they lead to, each with a
NUL behind it. A guest that reads every string up to its NUL has what the host passed on.
-/
namespace Star9
open Base Prog Memory

namespace Wasi

/-! ## Strings in a memory -/

/-- The bytes from a place up to the first NUL. -/
def stringAt (data : Bytes) (ptr : Nat) : Bytes := (data.drop ptr).takeWhile (· != 0)

/-- The strings that an array of pointers leads to. -/
def stringArray (data : Bytes) (ptrs : Nat) : Nat → List Bytes
  | 0 => []
  | count + 1 => stringAt data (leValue (window data ptrs 4)) :: stringArray data (ptrs + 4) count

def pointerTable : List Bytes → Nat → Bytes
  | [], _ => []
  | bytes :: strings, cursor => leBytes 4 cursor ++ pointerTable strings (cursor + bytes.length + 1)

def terminated (strings : List Bytes) : Bytes := strings.flatMap (· ++ [0])

theorem terminated_cons (bytes : Bytes) (strings : List Bytes) : terminated (bytes :: strings) = bytes ++ [0] ++ terminated strings :=
  List.flatMap_cons

theorem pointerTable_length (strings : List Bytes) (cursor : Nat) : (pointerTable strings cursor).length = 4 * strings.length := by
  induction strings generalizing cursor with
  | nil => rfl
  | cons bytes strings ih =>
    rw [pointerTable, List.length_append, leBytes_length, ih, List.length_cons]
    omega

theorem stringsSize_cons (value : String) (args : List String) :
    stringsSize (value :: args) = (utf8Bytes value).length + 1 + stringsSize args := rfl

theorem terminated_length (args : List String) : (terminated (args.map utf8Bytes)).length = stringsSize args := by
  induction args with
  | nil => rfl
  | cons value args ih =>
    rw [List.map_cons, terminated_cons, List.length_append, List.length_append, ih]
    rfl

theorem bne_of_not_mem {b : UInt8} {bytes : Bytes} (h : b ∉ bytes) : ∀ c ∈ bytes, (c != b) = true := by
  intro c hc
  rw [bne_iff_ne]
  rintro rfl
  exact h hc

theorem stringAt_eq {data : Bytes} {ptr : Nat} {bytes : Bytes} (hnul : 0 ∉ bytes)
    (hwindow : window data ptr (bytes.length + 1) = bytes ++ [0]) : stringAt data ptr = bytes := by
  have hdrop : data.drop ptr = bytes ++ 0 :: (data.drop ptr).drop (bytes.length + 1) := by
    conv_lhs => rw [← List.take_append_drop (bytes.length + 1) (data.drop ptr)]
    rw [← window, hwindow, List.append_assoc, List.singleton_append]
  have hall : ∀ b ∈ bytes, (b != 0) = true := bne_of_not_mem hnul
  rw [stringAt, hdrop, List.takeWhile_append_of_pos hall, List.takeWhile_cons_of_neg (by simp), List.append_nil]

/-- The pointers and the text lead to the strings. -/
theorem stringArray_eq {data : Bytes} {ptrs cursor : Nat} {strings : List Bytes} (hnul : ∀ bytes ∈ strings, 0 ∉ bytes)
    (hbound : cursor + (terminated strings).length < 2 ^ 32)
    (hptrs : window data ptrs (4 * strings.length) = pointerTable strings cursor)
    (htext : window data cursor (terminated strings).length = terminated strings) : stringArray data ptrs strings.length = strings := by
  induction strings generalizing ptrs cursor with
  | nil => rfl
  | cons bytes strings ih =>
    rw [List.forall_mem_cons] at hnul
    rw [terminated_cons] at hbound htext
    rw [← pointerTable_length _ cursor, pointerTable] at hptrs
    obtain ⟨hhere, hthere⟩ := window_eq_append htext
    obtain ⟨hpointer, hpointers⟩ := window_eq_append hptrs
    rw [leBytes_length] at hpointer hpointers
    rw [List.length_append, List.length_append, List.length_singleton] at hbound
    rw [List.length_append, List.length_singleton] at hhere hthere
    rw [pointerTable_length] at hpointers
    have hvalue : leValue (window data ptrs 4) = cursor := by
      rw [hpointer, leValue_leBytes, Nat.mod_eq_of_lt (by omega)]
    rw [List.length_cons, stringArray, hvalue, stringAt_eq hnul.1 hhere]
    congr 1
    exact ih hnul.2 (by omega) hpointers (by rwa [Nat.add_assoc])

/-! ## The imports -/

variable {σ η : Type} {w : WasiCaller σ η} {data : Bytes}

theorem put_run {mem : Bytes} {p c : Nat} {word rest text more : Bytes} (hp : p + (word ++ rest).length ≤ mem.length)
    (hc : c + (text ++ more).length ≤ mem.length) (hapart : Separate (p, (word ++ rest).length) (c, (text ++ more).length)) :
    put (put (put (put mem p word) c text) (p + word.length) rest) (c + text.length) more = put (put mem p (word ++ rest)) c (text ++ more) := by
  rw [List.length_append] at hp hc hapart
  rw [List.length_append] at hapart
  have hword : (put mem p word).length = mem.length := put_length (by omega)
  have hboth : (put mem p (word ++ rest)).length = mem.length := put_length (by rw [List.length_append]; omega)
  have hswap : put (put (put mem p word) c text) (p + word.length) rest = put (put (put mem p word) (p + word.length) rest) c text := by
    apply put_comm (by omega) (by omega)
    rintro i ⟨hlow, hhigh⟩ ⟨hlow', hhigh'⟩
    exact hapart i ⟨by dsimp only at *; omega, by dsimp only at *; omega⟩ ⟨by dsimp only at *; omega, by dsimp only at *; omega⟩
  have hrest : (put (put mem p word) (p + word.length) rest).length = mem.length := by rw [put_length (by omega), hword]
  rw [hswap, put_put (by omega), put_put (by omega)]

theorem writeStringArrayFrom_eq {ptrs cursor : Int} {args : List String} {index : Nat} (hmemory : w.memory = some data)
    (hptrs : 0 ≤ ptrs) (hcursor : 0 ≤ cursor)
    (harray : WasiCaller.InGuest data (ptrs.toNat + 4 * index, 4 * args.length))
    (hbuffer : WasiCaller.InGuest data (cursor.toNat, stringsSize args))
    (hapart : Separate (ptrs.toNat + 4 * index, 4 * args.length) (cursor.toNat, stringsSize args)) :
    (WasiCaller.writeStringArrayFrom ptrs args index cursor : Prog (WasiCaller σ η) Errno Unit) w =
      (.ok (), { w with memory := some (put (put data (ptrs.toNat + 4 * index) (pointerTable (args.map utf8Bytes) cursor.toNat))
        cursor.toNat (terminated (args.map utf8Bytes))) }) := by
  induction args generalizing w data index cursor with
  | nil =>
    rw [List.map_nil, pointerTable, terminated, List.flatMap_nil, put_nil, put_nil, ← hmemory]
    rfl
  | cons value args ih =>
    obtain ⟨harrayFits, harrayBelow⟩ := harray
    obtain ⟨hbufferFits, hbufferBelow⟩ := hbuffer
    dsimp only at harrayFits harrayBelow hbufferFits hbufferBelow
    rw [List.length_cons] at harrayFits harrayBelow
    rw [stringsSize_cons] at hbufferFits hbufferBelow
    have hslot : (WasiCaller.element ptrs (WasiCaller.asI32 index) 4 : Prog (WasiCaller σ η) Errno Int) w = (.ok (ptrs + index * 4), w) := by
      rw [WasiCaller.asI32_of_lt (by omega)]
      exact WasiCaller.element_eq hptrs (by omega) (by omega)
    have hword : WasiCaller.asU32 cursor = cursor.toNat := by
      rw [WasiCaller.asU32, Int.emod_eq_of_lt hcursor (by omega)]
    obtain ⟨d₁, hd₁⟩ : ∃ d₁, put data (ptrs.toNat + 4 * index) (leBytes 4 cursor.toNat) = d₁ := ⟨_, rfl⟩
    have hlen₁ : d₁.length = data.length := by rw [← hd₁, put_length (by rw [leBytes_length]; omega)]
    have hpointer : (WasiCaller.writeU32 (ptrs + index * 4) (WasiCaller.asU32 cursor) : Prog (WasiCaller σ η) Errno Unit) w =
        (.ok (), { w with memory := some d₁ }) := by
      rw [WasiCaller.writeU32, hword, WasiCaller.writeBytes_eq hmemory _ (by omega) (by rw [leBytes_length]; omega),
        show (ptrs + index * 4).toNat = ptrs.toNat + 4 * index by omega, hd₁]
    obtain ⟨d₂, hd₂⟩ : ∃ d₂, put d₁ cursor.toNat (utf8Bytes value) = d₂ := ⟨_, rfl⟩
    have hlen₂ : d₂.length = data.length := by rw [← hd₂, put_length (by omega), hlen₁]
    have htext : (WasiCaller.writeBytes cursor (utf8Bytes value) : Prog (WasiCaller σ η) Errno Unit) { w with memory := some d₁ } =
        (.ok (), { w with memory := some d₂ }) := by
      rw [WasiCaller.writeBytes_eq rfl _ hcursor (by omega), hd₂]
    have hbehind : (WasiCaller.checkedI32 (cursor + WasiCaller.asI32 (utf8Bytes value).length) : Prog (WasiCaller σ η) Errno Int)
        { w with memory := some d₂ } = (.ok (cursor + (utf8Bytes value).length), { w with memory := some d₂ }) := by
      rw [WasiCaller.asI32_of_lt (by omega)]
      exact WasiCaller.checkedI32_eq (by omega) (by omega)
    have hd₃ : put d₂ (cursor + (utf8Bytes value).length).toNat [0] = put d₁ cursor.toNat (utf8Bytes value ++ [0]) := by
      rw [← hd₂, show (cursor + (utf8Bytes value).length).toNat = cursor.toNat + (utf8Bytes value).length by omega]
      exact put_put (by rw [List.length_singleton]; omega)
    obtain ⟨d₃, hd₃'⟩ : ∃ d₃, put d₁ cursor.toNat (utf8Bytes value ++ [0]) = d₃ := ⟨_, rfl⟩
    have hlen₃ : d₃.length = data.length := by
      rw [← hd₃', put_length (by rw [List.length_append, List.length_singleton]; omega), hlen₁]
    have hnul : (WasiCaller.writeBytes (cursor + (utf8Bytes value).length) [0] : Prog (WasiCaller σ η) Errno Unit)
        { w with memory := some d₂ } = (.ok (), { w with memory := some d₃ }) := by
      rw [WasiCaller.writeBytes_eq rfl _ (by omega) (by rw [List.length_singleton]; omega), hd₃, hd₃']
    have hnext : (WasiCaller.checkedI32 (cursor + (utf8Bytes value).length + 1) : Prog (WasiCaller σ η) Errno Int)
        { w with memory := some d₃ } = (.ok (cursor + (utf8Bytes value).length + 1), { w with memory := some d₃ }) :=
      WasiCaller.checkedI32_eq (by omega) (by omega)
    have hbehindLength : (utf8Bytes value ++ [0]).length = (utf8Bytes value).length + 1 := List.length_append
    have hslots : ptrs.toNat + 4 * (index + 1) = ptrs.toNat + 4 * index + (leBytes 4 cursor.toNat).length := by
      rw [leBytes_length]
      omega
    have hcursors : (cursor + (utf8Bytes value).length + 1).toNat = cursor.toNat + (utf8Bytes value ++ [0]).length := by
      rw [List.length_append, List.length_singleton]
      omega
    have hrest := @ih { w with memory := some d₃ } d₃ (cursor + (utf8Bytes value).length + 1) (index + 1) rfl (by omega)
      (by constructor <;> (dsimp only; omega)) (by constructor <;> (dsimp only; omega)) ?_
    · rw [WasiCaller.writeStringArrayFrom, bind_ok hslot, bind_ok hpointer, bind_ok htext, bind_ok hbehind, bind_ok hnul, bind_ok hnext,
        hrest, hslots, hcursors, ← hd₃', ← hd₁, List.map_cons, pointerTable, terminated_cons, Nat.add_assoc cursor.toNat, ← hbehindLength]
      rw [put_run (by rw [List.length_append, leBytes_length, pointerTable_length, List.length_map]; omega)
        (by rw [List.length_append, hbehindLength, terminated_length]; omega)]
      rw [List.length_append, leBytes_length, pointerTable_length, List.length_map, List.length_append, hbehindLength, terminated_length]
      refine fun i hi hi' => hapart i ?_ ?_
      · rw [List.length_cons]
        exact ⟨hi.1, by have := hi.2; dsimp only at this ⊢; omega⟩
      · rw [stringsSize_cons]
        exact hi'
    · refine fun i hi hi' => hapart i ?_ ?_
      · rw [List.length_cons]
        exact ⟨by have := hi.1; dsimp only at this ⊢; omega, by have := hi.2; dsimp only at this ⊢; omega⟩
      · rw [stringsSize_cons]
        exact ⟨by have := hi'.1; dsimp only at this ⊢; omega, by have := hi'.2; dsimp only at this ⊢; omega⟩

/-! ## What a guest asks for at its start -/

inductive StartCall where
  | argsSizes
  | args
  | environSizes
  | environ
deriving DecidableEq

structure StartHost where
  args : List String
  env : List (String × String)

/-- Where a guest wants the counts and sizes, the pointers and the texts. -/
structure StartPlaces where
  argCount : Int32
  argSize : Int32
  argv : Int32
  argText : Int32
  envCount : Int32
  envSize : Int32
  envp : Int32
  envText : Int32

namespace StartCall
variable (h : StartHost) (q : StartPlaces)

def run : StartCall → Prog (WasiCaller σ η) Errno Unit
  | .argsSizes => argsSizesGet h.args q.argCount q.argSize
  | .args => argsGet h.args q.argv q.argText
  | .environSizes => environSizesGet h.env q.envCount q.envSize
  | .environ => environGet h.env q.envp q.envText

def strings : StartCall → List String
  | .argsSizes | .args => h.args
  | .environSizes | .environ => renderEnv h.env

/-- The two places a call writes at. -/
def places : StartCall → Int32 × Int32
  | .argsSizes => (q.argCount, q.argSize)
  | .args => (q.argv, q.argText)
  | .environSizes => (q.envCount, q.envSize)
  | .environ => (q.envp, q.envText)

def lengths (c : StartCall) : Nat × Nat :=
  match c with
  | .argsSizes | .environSizes => (4, 4)
  | .args | .environ => (4 * (c.strings h).length, stringsSize (c.strings h))

def cells : StartCall → Bytes × Bytes
  | .argsSizes => (leBytes 4 h.args.length, leBytes 4 (stringsSize h.args))
  | .args => (pointerTable (h.args.map utf8Bytes) q.argText.toInt.toNat, terminated (h.args.map utf8Bytes))
  | .environSizes => (leBytes 4 (renderEnv h.env).length, leBytes 4 (stringsSize (renderEnv h.env)))
  | .environ => (pointerTable ((renderEnv h.env).map utf8Bytes) q.envText.toInt.toNat, terminated ((renderEnv h.env).map utf8Bytes))

def regions (c : StartCall) : List (Nat × Nat) :=
  [((c.places q).1.toInt.toNat, (c.lengths h).1), ((c.places q).2.toInt.toNat, (c.lengths h).2)]

/-- The cells a call writes stand in the memory. -/
def Stands (c : StartCall) (data : Bytes) : Prop :=
  window data (c.places q).1.toInt.toNat (c.lengths h).1 = (c.cells h q).1 ∧ window data (c.places q).2.toInt.toNat (c.lengths h).2 = (c.cells h q).2

end StartCall

/-- The name and the value of an entry. -/
def splitEntry (entry : Bytes) : Bytes × Bytes := (entry.takeWhile (· != 61), (entry.dropWhile (· != 61)).drop 1)

/-- What the guest finds where it asked for the results of a call. -/
def StartCall.Told (h : StartHost) (q : StartPlaces) (data : Bytes) : StartCall → Prop
  | .argsSizes => leValue (window data q.argCount.toInt.toNat 4) = h.args.length ∧
      leValue (window data q.argSize.toInt.toNat 4) = stringsSize h.args
  | .args => stringArray data q.argv.toInt.toNat h.args.length = h.args.map utf8Bytes
  | .environSizes => leValue (window data q.envCount.toInt.toNat 4) = h.env.length ∧
      leValue (window data q.envSize.toInt.toNat 4) = stringsSize (renderEnv h.env)
  | .environ => (stringArray data q.envp.toInt.toNat h.env.length).map splitEntry = h.env.map fun entry => (utf8Bytes entry.1, utf8Bytes entry.2)

/-- Strings without a NUL, and names without an equals sign. -/
structure StartHost.Plain (h : StartHost) : Prop where
  args : ∀ value ∈ h.args, 0 ∉ utf8Bytes value
  names : ∀ entry ∈ h.env, 0 ∉ utf8Bytes entry.1 ∧ 61 ∉ utf8Bytes entry.1
  values : ∀ entry ∈ h.env, 0 ∉ utf8Bytes entry.2

/-- The places lie inside the memory and apart. -/
structure StartPlaces.Fits (data : Bytes) (h : StartHost) (q : StartPlaces) : Prop where
  positive : ∀ c : StartCall, 0 ≤ (c.places q).1.toInt ∧ 0 ≤ (c.places q).2.toInt
  inside : ∀ c : StartCall, ∀ r ∈ c.regions h q, WasiCaller.InGuest data r
  own : ∀ c : StartCall, (c.regions h q).Pairwise Separate
  apart : ∀ c c' : StartCall, c ≠ c' → ∀ r ∈ c.regions h q, ∀ s ∈ c'.regions h q, Separate r s

namespace StartCall
variable {h : StartHost} {q : StartPlaces}

theorem cells_length (c : StartCall) : (c.cells h q).1.length = (c.lengths h).1 ∧ (c.cells h q).2.length = (c.lengths h).2 := by
  cases c with
  | argsSizes => exact ⟨leBytes_length 4 _, leBytes_length 4 _⟩
  | environSizes => exact ⟨leBytes_length 4 _, leBytes_length 4 _⟩
  | args =>
    constructor
    · rw [cells, lengths, strings, pointerTable_length, List.length_map]
    · exact terminated_length _
  | environ =>
    constructor
    · rw [cells, lengths, strings, pointerTable_length, List.length_map]
    · exact terminated_length _

theorem leBytes_asU32 (n : Nat) : leBytes 4 (WasiCaller.asU32 n) = leBytes 4 n := by
  rw [WasiCaller.asU32, ← leBytes_mod 4 n]
  congr 1

/-- Counts and sizes are two words. -/
theorem argsSizesGet_eq {args : List String} {countPtr sizePtr : Int32} (hmemory : w.memory = some data)
    (hpositive : 0 ≤ countPtr.toInt ∧ 0 ≤ sizePtr.toInt) (hcount : countPtr.toInt.toNat + 4 ≤ data.length) (hsize : sizePtr.toInt.toNat + 4 ≤ data.length) :
    (argsSizesGet args countPtr sizePtr : Prog (WasiCaller σ η) Errno Unit) w =
      (.ok (), { w with memory := some (put (put data countPtr.toInt.toNat (leBytes 4 args.length)) sizePtr.toInt.toNat (leBytes 4 (stringsSize args))) }) := by
  have hfirst : (WasiCaller.writeU32 countPtr.toInt (WasiCaller.asU32 args.length) : Prog (WasiCaller σ η) Errno Unit) w =
      (.ok (), { w with memory := some (put data countPtr.toInt.toNat (leBytes 4 args.length)) }) := by
    rw [WasiCaller.writeU32, leBytes_asU32]
    exact WasiCaller.writeBytes_eq hmemory _ hpositive.1 (by rw [leBytes_length]; omega)
  rw [argsSizesGet, bind_ok hfirst, WasiCaller.writeU32, leBytes_asU32]
  exact WasiCaller.writeBytes_eq rfl _ hpositive.2 (by rw [put_length (by rw [leBytes_length]; omega), leBytes_length]; omega)

theorem stringsGet_eq {args : List String} {ptrs text : Int32} (hmemory : w.memory = some data) (hpositive : 0 ≤ ptrs.toInt ∧ 0 ≤ text.toInt)
    (harray : WasiCaller.InGuest data (ptrs.toInt.toNat, 4 * args.length)) (htext : WasiCaller.InGuest data (text.toInt.toNat, stringsSize args))
    (hapart : Separate (ptrs.toInt.toNat, 4 * args.length) (text.toInt.toNat, stringsSize args)) :
    (argsGet args ptrs text : Prog (WasiCaller σ η) Errno Unit) w =
      (.ok (), { w with memory := some (put (put data ptrs.toInt.toNat (pointerTable (args.map utf8Bytes) text.toInt.toNat)) text.toInt.toNat (terminated (args.map utf8Bytes))) }) :=
  writeStringArrayFrom_eq hmemory hpositive.1 hpositive.2 harray htext hapart

theorem run_eq (c : StartCall) (hmemory : w.memory = some data) (hfits : q.Fits data h) :
    (c.run h q : Prog (WasiCaller σ η) Errno Unit) w =
      (.ok (), { w with memory := some (put (put data (c.places q).1.toInt.toNat (c.cells h q).1) (c.places q).2.toInt.toNat (c.cells h q).2) }) := by
  have hpositive := hfits.positive c
  have hinside := hfits.inside c
  have hown := hfits.own c
  rw [regions, List.forall_mem_cons, List.forall_mem_singleton] at hinside
  rw [regions, List.pairwise_pair] at hown
  cases c with
  | argsSizes => exact argsSizesGet_eq hmemory hpositive hinside.1.1 hinside.2.1
  | args => exact stringsGet_eq hmemory hpositive hinside.1 hinside.2 hown
  | environSizes => exact argsSizesGet_eq hmemory hpositive hinside.1.1 hinside.2.1
  | environ => exact stringsGet_eq hmemory hpositive hinside.1 hinside.2 hown

/-- Both runs of cells are in place after the call, and cells apart from them are as they were. -/
theorem run_spec (c : StartCall) (hmemory : w.memory = some data) (hfits : q.Fits data h) :
    ∃ data', (c.run h q : Prog (WasiCaller σ η) Errno Unit) w = (.ok (), { w with memory := some data' }) ∧ data'.length = data.length ∧
      c.Stands h q data' ∧ ∀ i, (∀ r ∈ c.regions h q, ¬ Covers r i) → data'[i]? = data[i]? := by
  have hinside := hfits.inside c
  have hown := hfits.own c
  rw [regions, List.forall_mem_cons, List.forall_mem_singleton] at hinside
  rw [regions, List.pairwise_pair] at hown
  obtain ⟨⟨hfirst, -⟩, ⟨hsecond, -⟩⟩ := hinside
  dsimp only at hfirst hsecond
  rw [← (cells_length c).1] at hfirst
  rw [← (cells_length c).2] at hsecond
  rw [← (cells_length c).1, ← (cells_length c).2] at hown
  have hlen := put_length hfirst
  refine ⟨_, run_eq c hmemory hfits, by rw [put_length (by rwa [hlen]), hlen], ⟨?_, ?_⟩, ?_⟩
  · rw [← (cells_length c).1, window_put_of_separate (by rwa [hlen]) hown]
    exact window_put_self hfirst
  · rw [← (cells_length c).2]
    exact window_put_self (by rwa [hlen])
  · intro i hi
    rw [regions, List.forall_mem_cons, List.forall_mem_singleton] at hi
    rw [getElem?_put_of_not_covers (by rwa [hlen]) (by rw [(cells_length c).2]; exact hi.2),
      getElem?_put_of_not_covers hfirst (by rw [(cells_length c).1]; exact hi.1)]

/-- What stands stays while the cells of the regions do. -/
theorem Stands.congr {c : StartCall} {data' : Bytes} (hstands : c.Stands h q data)
    (hsame : ∀ r ∈ c.regions h q, ∀ i, Covers r i → data'[i]? = data[i]?) : c.Stands h q data' := by
  rw [regions, List.forall_mem_cons, List.forall_mem_singleton] at hsame
  exact ⟨(window_congr hsame.1).trans hstands.1, (window_congr hsame.2).trans hstands.2⟩

/-- A call establishes its own result and leaves those of the others. -/
theorem Stands.step {c c' : StartCall} {data' : Bytes} (hfits : q.Fits data h) (hown : c.Stands h q data')
    (hframe : ∀ i, (∀ r ∈ c.regions h q, ¬ Covers r i) → data'[i]? = data[i]?) (hstands : c'.Stands h q data) : c'.Stands h q data' := by
  by_cases hc : c' = c
  · exact hc ▸ hown
  · exact hstands.congr fun s hs i hi => hframe i fun r hr => hfits.apart c' c hc s hs r hr i hi

theorem splitEntry_render {entry : String × String} (hname : 61 ∉ utf8Bytes entry.1) :
    splitEntry (utf8Bytes (entry.1 ++ "=" ++ entry.2)) = (utf8Bytes entry.1, utf8Bytes entry.2) := by
  have hbytes : utf8Bytes (entry.1 ++ "=" ++ entry.2) = utf8Bytes entry.1 ++ 61 :: utf8Bytes entry.2 := by
    rw [utf8Bytes_append, utf8Bytes_append, show utf8Bytes "=" = [61] by decide, List.append_assoc, List.singleton_append]
  have hall : ∀ b ∈ utf8Bytes entry.1, (b != 61) = true := bne_of_not_mem hname
  rw [splitEntry, hbytes, List.takeWhile_append_of_pos hall, List.dropWhile_append_of_pos hall, List.takeWhile_cons_of_neg (by simp),
    List.dropWhile_cons_of_neg (by simp), List.append_nil, List.drop_one, List.tail_cons]

theorem renderEnv_nul (hplain : h.Plain) {bytes : Bytes} (hbytes : bytes ∈ (renderEnv h.env).map utf8Bytes) : 0 ∉ bytes := by
  rw [renderEnv, List.map_map, List.mem_map] at hbytes
  obtain ⟨entry, hentry, rfl⟩ := hbytes
  intro hzero
  rw [Function.comp_apply, utf8Bytes_append, utf8Bytes_append, show utf8Bytes "=" = [61] by decide, List.mem_append, List.mem_append] at hzero
  rcases hzero with (hname | hequals) | hvalue
  · exact (hplain.names entry hentry).1 hname
  · cases hequals with
    | tail _ hnil => cases hnil
  · exact hplain.values entry hentry hvalue

theorem word_told {place n : Nat} (hn : n < 2 ^ 32) (hwindow : window data place 4 = leBytes 4 n) : leValue (window data place 4) = n := by
  rw [hwindow, leValue_leBytes]
  exact Nat.mod_eq_of_lt hn

theorem array_told {ptrs text : Nat} {args : List String} (hnul : ∀ bytes ∈ args.map utf8Bytes, 0 ∉ bytes) (hbound : text + stringsSize args < 2 ^ 32)
    (hptrs : window data ptrs (4 * args.length) = pointerTable (args.map utf8Bytes) text)
    (htext : window data text (stringsSize args) = terminated (args.map utf8Bytes)) : stringArray data ptrs args.length = args.map utf8Bytes := by
  rw [← terminated_length] at hbound htext
  rw [← List.length_map utf8Bytes] at hptrs
  rw [← List.length_map utf8Bytes, stringArray_eq hnul hbound hptrs htext]

/-- The guest that finds the cells reads the result off them. -/
theorem Stands.told {c : StartCall} (hfits : q.Fits data h) (hplain : h.Plain) (hstands : c.Stands h q data) : c.Told h q data := by
  have hargs := hfits.inside .args
  have henv := hfits.inside .environ
  rw [regions, List.forall_mem_cons, List.forall_mem_singleton] at hargs henv
  obtain ⟨⟨-, hargv⟩, ⟨-, hargText⟩⟩ := hargs
  obtain ⟨⟨-, henvp⟩, ⟨-, henvText⟩⟩ := henv
  dsimp only [lengths, strings, places] at hargv hargText henvp henvText
  have hrendered : (renderEnv h.env).length = h.env.length := List.length_map _
  cases c with
  | argsSizes => exact ⟨word_told (by omega) hstands.1, word_told (by omega) hstands.2⟩
  | environSizes => exact ⟨word_told (by omega) (hrendered ▸ hstands.1), word_told (by omega) hstands.2⟩
  | args =>
    have hnul : ∀ bytes ∈ h.args.map utf8Bytes, 0 ∉ bytes := by
      intro bytes hbytes
      rw [List.mem_map] at hbytes
      obtain ⟨value, hvalue, rfl⟩ := hbytes
      exact hplain.args value hvalue
    have hbound : q.argText.toInt.toNat + stringsSize h.args < 2 ^ 32 := by omega
    exact array_told hnul hbound hstands.1 hstands.2
  | environ =>
    have hbound : q.envText.toInt.toNat + stringsSize (renderEnv h.env) < 2 ^ 32 := by omega
    have harray : stringArray data q.envp.toInt.toNat (renderEnv h.env).length = (renderEnv h.env).map utf8Bytes :=
      array_told (fun bytes => renderEnv_nul hplain) hbound hstands.1 hstands.2
    rw [hrendered] at harray
    rw [Told, harray, renderEnv, List.map_map, List.map_map]
    apply List.map_congr_left
    intro entry hentry
    exact splitEntry_render (hplain.names entry hentry).2

end StartCall

/-! ## Any order of the calls -/

/-- A call of the guest, or a store of it. -/
inductive StartEvent where
  | call (c : StartCall)
  | store (place : Nat) (bytes : Bytes)

namespace StartEvent
variable (h : StartHost) (q : StartPlaces)

def run : List StartEvent → Prog (WasiCaller σ η) Errno Unit
  | [] => pure ()
  | .call c :: events => do
    c.run h q
    run events
  | .store place bytes :: events => do
    modify fun w => { w with memory := w.memory.map fun data => put data place bytes }
    run events

/-- A store inside the memory that leaves alone what the calls write. -/
def Outside (data : Bytes) : StartEvent → Prop
  | .call _ => True
  | .store place bytes => place + bytes.length ≤ data.length ∧ ∀ c : StartCall, ∀ r ∈ c.regions h q, Separate r (place, bytes.length)

end StartEvent

theorem StartPlaces.Fits.of_length {h : StartHost} {q : StartPlaces} {data' : Bytes} (hfits : q.Fits data h) (hlen : data'.length = data.length) :
    q.Fits data' h where
  positive := hfits.positive
  inside := fun c r hr => ⟨hlen ▸ (hfits.inside c r hr).1, (hfits.inside c r hr).2⟩
  own := hfits.own
  apart := hfits.apart

theorem StartEvent.Outside.of_length {h : StartHost} {q : StartPlaces} {data' : Bytes} {e : StartEvent} (he : e.Outside h q data)
    (hlen : data'.length = data.length) : e.Outside h q data' := by
  cases e with
  | call c => exact he
  | store place bytes => exact ⟨hlen ▸ he.1, he.2⟩

theorem start_run {h : StartHost} {q : StartPlaces} (hmemory : w.memory = some data) (hfits : q.Fits data h) (events : List StartEvent)
    (houtside : ∀ e ∈ events, e.Outside h q data) :
    ∃ data', (StartEvent.run h q events : Prog (WasiCaller σ η) Errno Unit) w = (.ok (), { w with memory := some data' }) ∧
      data'.length = data.length ∧ ∀ c : StartCall, (.call c ∈ events ∨ c.Stands h q data) → c.Stands h q data' := by
  induction events generalizing w data with
  | nil =>
    refine ⟨data, by rw [← hmemory]; rfl, rfl, ?_⟩
    rintro c (hc | hc)
    · cases hc
    · exact hc
  | cons e events ih =>
    rw [List.forall_mem_cons] at houtside
    cases e with
    | call c =>
      obtain ⟨mid, hcall, hlen, hown, hframe⟩ := c.run_spec hmemory hfits
      obtain ⟨data', hrun, hlen', hstands⟩ := @ih { w with memory := some mid } mid rfl (hfits.of_length hlen)
        (fun e he => (houtside.2 e he).of_length hlen)
      refine ⟨data', by rw [StartEvent.run, bind_ok hcall, hrun], hlen'.trans hlen, ?_⟩
      rintro c' (hc' | hc')
      · rw [List.mem_cons] at hc'
        rcases hc' with heq | hlater
        · cases heq
          exact hstands c (.inr hown)
        · exact hstands c' (.inl hlater)
      · exact hstands c' (.inr (StartCall.Stands.step hfits hown hframe hc'))
    | store place bytes =>
      obtain ⟨hinside, hapart⟩ := houtside.1
      have hlen := put_length hinside
      obtain ⟨data', hrun, hlen', hstands⟩ := @ih { w with memory := some (put data place bytes) } (put data place bytes) rfl
        (hfits.of_length hlen) (fun e he => (houtside.2 e he).of_length hlen)
      refine ⟨data', ?_, hlen'.trans hlen, ?_⟩
      · rw [StartEvent.run, modify_bind, hmemory]
        exact hrun
      · rintro c (hc | hc)
        · rw [List.mem_cons] at hc
          rcases hc with heq | hlater
          · cases heq
          · exact hstands c (.inl hlater)
        · exact hstands c (.inr (hc.congr fun r hr i hi => getElem?_put_of_not_covers hinside (hapart c r hr i hi)))

/-- However often and in whatever order a guest calls for the sizes, the arguments and the environment, and whatever it
stores elsewhere in between, it reads off its memory what the host passed on. -/
theorem guest_reads_start {h : StartHost} {q : StartPlaces} (hmemory : w.memory = some data) (hfits : q.Fits data h) (hplain : h.Plain)
    (events : List StartEvent) (houtside : ∀ e ∈ events, e.Outside h q data) :
    ∃ data', (StartEvent.run h q events : Prog (WasiCaller σ η) Errno Unit) w = (.ok (), { w with memory := some data' }) ∧
      data'.length = data.length ∧ ∀ c : StartCall, .call c ∈ events → c.Told h q data' := by
  obtain ⟨data', hrun, hlen, hstands⟩ := start_run hmemory hfits events houtside
  exact ⟨data', hrun, hlen, fun c hc => (hstands c (.inl hc)).told (hfits.of_length hlen) hplain⟩

/-! A guest of sixty-four bytes that asks for two arguments and one variable. -/

def startHost : StartHost := ⟨["cat", "f"], [("home", "/")]⟩

def startPlaces : StartPlaces := ⟨0, 4, 8, 16, 24, 28, 32, 36⟩

def startGuest : WasiCaller Unit Unit := ⟨(), ∅, 3, some (List.replicate 64 7)⟩

/-- The part of the memory that a call writes in. -/
def startSpan : StartCall → Nat × Nat
  | .argsSizes => (0, 8)
  | .args => (8, 22)
  | .environSizes => (24, 32)
  | .environ => (32, 43)

theorem startSpan_covers (c : StartCall) : ∀ r ∈ c.regions startHost startPlaces, (startSpan c).1 ≤ r.1 ∧ r.1 + r.2 ≤ (startSpan c).2 := by
  cases c <;> decide

theorem startSpan_apart {c c' : StartCall} (hne : c ≠ c') :
    (startSpan c).2 ≤ (startSpan c').1 ∨ (startSpan c').2 ≤ (startSpan c).1 := by
  cases c <;> cases c' <;> first
    | exact absurd rfl hne
    | decide

theorem startPlaces_fits : startPlaces.Fits (List.replicate 64 7) startHost where
  positive c := by cases c <;> decide
  inside c := by cases c <;> (simp only [StartCall.regions, WasiCaller.InGuest]; decide)
  own c := by
    cases c <;> exact List.pairwise_pair.mpr (separate_of_le (by decide))
  apart c c' hne := by
    intro r hr s hs
    obtain ⟨hlow, hhigh⟩ := startSpan_covers c r hr
    obtain ⟨hlow', hhigh'⟩ := startSpan_covers c' s hs
    rcases startSpan_apart hne with hbefore | hbehind
    · exact separate_of_le (by omega)
    · exact (separate_of_le (by omega)).symm

theorem startHost_plain : startHost.Plain where
  args := by decide
  names := by decide
  values := by decide

theorem guest_reads_start_startGuest :
    ∃ data', (StartEvent.run startHost startPlaces [.call .args, .call .environSizes, .store 48 [1], .call .environ] :
        Prog (WasiCaller Unit Unit) Errno Unit) startGuest = (.ok (), { startGuest with memory := some data' }) ∧
      data'.length = (List.replicate 64 (7 : UInt8)).length ∧ ∀ c : StartCall,
        .call c ∈ [StartEvent.call .args, .call .environSizes, .store 48 [1], .call .environ] → c.Told startHost startPlaces data' := by
  apply guest_reads_start rfl startPlaces_fits startHost_plain
  intro e he
  simp only [List.mem_cons, List.not_mem_nil, or_false] at he
  rcases he with rfl | rfl | rfl | rfl
  · trivial
  · trivial
  · refine ⟨by decide, fun c r hr => separate_of_le ?_⟩
    obtain ⟨-, hhigh⟩ := startSpan_covers c r hr
    have hspan : (startSpan c).2 ≤ 48 := by cases c <;> decide
    omega
  · trivial

end Wasi
end Star9
