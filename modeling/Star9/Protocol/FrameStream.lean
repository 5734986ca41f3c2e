import Star9.Base.Transfer
import Star9.Protocol.FrameSize

/-!
# Frames over a stream of short reads

The reader takes one byte to see whether the stream has ended, then the rest of the size
word, then the rest of the frame. On any stream of bytes this is the pure reader of a
frame off the front of the bytes that are left.
-/
namespace Star9
open Base Prog

namespace FrameStream
variable {ρ ω : Type}

def readFrame (reader : ReadPort ρ Error) : Prog ρ Error (Option Bytes) := do
  let first ← reader.read 1
  match first with
  | [] => pure none
  | [b] => do
    let header ← (b :: ·) <$> reader.readExact (.kind .unexpectedEof) 3
    let size := leValue header
    if !validateFrameSize size then throw (.kind .invalid)
    else some <$> (header ++ ·) <$> reader.readExact (.kind .unexpectedEof) (size - 4)
  | _ => Prog.abort

def writeFrame (writer : WritePort ω Error) (frame : Bytes) : Prog ω Error Unit := do
  let size ← Prog.ofExcept (encodedFrameSize frame)
  if !validateFrameSize size then throw (.kind .invalid)
  else if size ≠ frame.length then throw (.kind .invalid)
  else
    writer.writeAll (.message "failed to write whole buffer") frame
    writer.flush

def writeFrames (writer : WritePort ω Error) : List Bytes → Prog ω Error Unit
  | [] => pure ()
  | frame :: frames => do
    writeFrame writer frame
    writeFrames writer frames

/-- What `n` reads return one after the other. -/
def readFrames (reader : ReadPort ρ Error) : Nat → Prog ρ Error (List (Option Bytes))
  | 0 => pure []
  | n + 1 => do
    let frame ← readFrame reader
    (frame :: ·) <$> readFrames reader n

/-! ## The reader and the writer are the pure ones -/

theorem map_fst_eq_ok {S α β : Type} {p : Prog S Error α} {f : α → β} {s : S} {b : β} (h : ((f <$> p) s).1 = .ok b) :
    ∃ a, (p s).1 = .ok a ∧ f a = b := by
  rw [map_apply] at h
  rcases hrun : p s with ⟨a | e | _, s'⟩ <;> rw [hrun] at h <;> cases h
  exact ⟨a, rfl, rfl⟩

/-- The size word is the length whatever the reader does. -/
theorem readFrame_length (reader : ReadPort ρ Error) :
    Returns (fun frame? => ∀ frame, frame? = some frame → frame.length = leValue (frame.take 4)) (readFrame reader) := by
  apply returns_bind
  intro first
  split
  · exact returns_pure fun frame h => absurd h (by simp)
  · rename_i b
    intro s frame? hrun frame hframe
    obtain ⟨header, s₁, hheader, hrun⟩ := bind_fst_eq_ok.mp hrun
    obtain ⟨more, hmore, rfl⟩ := map_fst_eq_ok (congrArg Prod.fst hheader)
    have hthree : more.length = 3 := reader.readExact_length _ 3 s more hmore
    by_cases hsize : validateFrameSize (leValue (b :: more)) = true
    · rw [hsize] at hrun
      obtain ⟨data, hdata, rfl⟩ := map_fst_eq_ok hrun
      cases hframe
      obtain ⟨body, hbody, rfl⟩ := map_fst_eq_ok hdata
      have hlen : body.length = leValue (b :: more) - 4 := reader.readExact_length _ _ s₁ body hbody
      rw [validateFrameSize, Bool.and_eq_true, decide_eq_true_eq] at hsize
      have htake : ((b :: more) ++ body).take 4 = b :: more := List.take_left' (by simp [hthree])
      rw [htake, List.length_append, hlen, List.length_cons, hthree]
      omega
    · rw [Bool.eq_false_of_not_eq_true hsize] at hrun
      exact absurd hrun Outcome.err_ne_ok
  · exact returns_abort

theorem readFrame_cons (b : UInt8) (l : Bytes) : Star9.readFrame (b :: l) =
    if l.length < 3 then .error (.kind .unexpectedEof)
    else if !validateFrameSize (leValue (b :: l.take 3)) then .error (.kind .invalid)
    else if (l.drop 3).length < leValue (b :: l.take 3) - 4 then .error (.kind .unexpectedEof)
    else .ok (some (b :: l.take 3 ++ (l.drop 3).take (leValue (b :: l.take 3) - 4), (l.drop 3).drop (leValue (b :: l.take 3) - 4))) := by
  rw [Star9.readFrame, if_neg (List.cons_ne_nil b l), List.length_cons, List.take_succ_cons]
  by_cases hshort : l.length < 3
  · rw [if_pos (by omega), if_pos hshort]
  rw [if_neg (by omega), if_neg hshort]
  dsimp only
  by_cases hsize : validateFrameSize (leValue (b :: l.take 3)) = true
  · rw [hsize]
    rw [validateFrameSize, Bool.and_eq_true, decide_eq_true_eq] at hsize
    generalize leValue (b :: l.take 3) = size at hsize ⊢
    obtain ⟨k, rfl⟩ : ∃ k, size = k + 4 := ⟨size - 4, by omega⟩
    by_cases hbody : l.length + 1 < k + 4
    · rw [if_neg (by simp), if_pos hbody, if_neg (by simp), if_pos (by rw [List.length_drop]; omega)]
    · rw [if_neg (by simp), if_neg hbody, if_neg (by simp), if_neg (by rw [List.length_drop]; omega), List.drop_drop]
      rw [Nat.add_sub_cancel, List.take_succ_cons, List.drop_succ_cons, Nat.add_comm k 3, List.take_add]
      rfl
  · rw [Bool.eq_false_of_not_eq_true hsize]
    rfl

/-- On a stream of bytes the reader is the one that takes a frame off the front. -/
theorem readFrame_eq (r : ByteStream ρ Error) (s : ρ) : ∃ s',
    readFrame r.toReadPort s = (Outcome.ofExcept ((Star9.readFrame (r.rest s)).map (·.map Prod.fst)), s') ∧
      ∀ x, Star9.readFrame (r.rest s) = .ok x → r.rest s' = (x.map Prod.snd).getD [] := by
  obtain ⟨first, s₁, hread, hrest, hone, hend⟩ := r.read_spec 1 s Nat.one_ne_zero
  rw [readFrame, bind_ok hread]
  match first with
  | [] =>
    rw [hend rfl] at hrest ⊢
    exact ⟨s₁, rfl, fun x hx => by cases hx; exact hrest⟩
  | [b] =>
    dsimp only
    rw [← hrest, List.singleton_append, readFrame_cons]
    obtain ⟨s₂, hheader, hafter⟩ := r.readExact_eq (.kind .unexpectedEof) 3 s₁
    by_cases hthree : 3 ≤ (r.rest s₁).length
    · rw [if_pos hthree] at hheader
      have hfour : ((b :: ·) <$> r.readExact (.kind .unexpectedEof) 3) s₁ = (.ok (b :: (r.rest s₁).take 3), s₂) := by
        rw [map_apply, hheader]
      rw [if_neg (Nat.not_lt.mpr hthree), bind_ok hfour]
      by_cases hsize : validateFrameSize (leValue (b :: (r.rest s₁).take 3)) = true
      · rw [hsize]
        obtain ⟨s₃, hbody, hlast⟩ := r.readExact_eq (.kind .unexpectedEof) (leValue (b :: (r.rest s₁).take 3) - 4) s₂
        rw [hafter hthree] at hbody hlast
        by_cases hlen : leValue (b :: (r.rest s₁).take 3) - 4 ≤ ((r.rest s₁).drop 3).length
        · rw [if_pos hlen] at hbody
          rw [if_neg (by simp), if_neg (by simp), if_neg (Nat.not_lt.mpr hlen), map_apply, map_apply, hbody]
          exact ⟨s₃, rfl, fun x hx => by cases hx; exact hlast hlen⟩
        · rw [if_neg hlen] at hbody
          rw [if_neg (by simp), if_neg (by simp), if_pos (Nat.lt_of_not_le hlen), map_apply, map_apply, hbody]
          exact ⟨s₃, rfl, fun x hx => by cases hx⟩
      · rw [Bool.eq_false_of_not_eq_true hsize]
        exact ⟨s₂, rfl, fun x hx => by cases hx⟩
    · rw [if_neg hthree] at hheader
      have hfour : ((b :: ·) <$> r.readExact (.kind .unexpectedEof) 3) s₁ = (.err (.kind .unexpectedEof), s₂) := by
        rw [map_apply, hheader]
      rw [if_pos (Nat.lt_of_not_le hthree), bind_err hfour]
      exact ⟨s₂, rfl, fun x hx => by cases hx⟩
  | _ :: _ :: _ => simp at hone

theorem writeFrame_eq (w : ByteSink ω Error) (frame : Bytes) (s : ω) : ∃ s',
    writeFrame w.toWritePort frame s = (Outcome.ofExcept ((Star9.writeFrame frame).map fun _ => ()), s') ∧
      w.sent s' = w.sent s ++ (Star9.writeFrame frame).toOption.getD [] := by
  rw [writeFrame, Star9.writeFrame]
  cases encodedFrameSize frame with
  | error e => exact ⟨s, rfl, by simp [Except.toOption, bind, Except.bind]⟩
  | ok size =>
    rw [Prog.ofExcept_ok, pure_bind, except_ok_bind]
    by_cases hsize : validateFrameSize size = true
    · by_cases hlen : size = frame.length
      · rw [if_neg (by simp [hsize]), if_neg (by simp [hlen]), if_neg (by simp [hsize, ← hlen])]
        obtain ⟨s₁, hwrite, hsent⟩ := w.writeAll_eq (.message "failed to write whole buffer") frame s
        obtain ⟨s', hflush, hkeep⟩ := w.flush_spec s₁
        rw [bind_ok hwrite, hflush]
        exact ⟨s', rfl, hkeep.trans hsent⟩
      · rw [if_neg (by simp [hsize]), if_pos hlen, if_pos (by simp [hlen])]
        exact ⟨s, rfl, by simp [Except.toOption]⟩
    · rw [if_pos (by simp [hsize]), if_pos (by simp [hsize])]
      exact ⟨s, rfl, by simp [Except.toOption]⟩

/-! ## Streams of frames -/

theorem writeFrame_eq_ok_iff {frame out : Bytes} : Star9.writeFrame frame = .ok out ↔
    out = frame ∧ 4 ≤ frame.length ∧ validateFrameSize frame.length = true ∧ leValue (frame.take 4) = frame.length := by
  rw [Star9.writeFrame, encodedFrameSize]
  by_cases hfour : frame.length < 4
  · rw [if_pos hfour]
    exact iff_of_false (by simp [bind, Except.bind]) (by omega)
  · rw [if_neg hfour, except_ok_bind]
    by_cases hsize : leValue (frame.take 4) = frame.length
    · rw [hsize]
      by_cases hvalid : validateFrameSize frame.length = true
      · simp [hvalid, Nat.le_of_not_lt hfour, eq_comm]
      · simp [hvalid]
    · simp [hsize]

/-- A frame that is written is read back whole, and the bytes behind it stay. -/
theorem readFrame_append {frame : Bytes} (h : Star9.writeFrame frame = .ok frame) (rest : Bytes) :
    Star9.readFrame (frame ++ rest) = .ok (some (frame, rest)) := by
  obtain ⟨-, hfour, hvalid, hsize⟩ := writeFrame_eq_ok_iff.mp h
  have hne : frame ≠ [] := List.ne_nil_of_length_pos (by omega)
  rw [Star9.readFrame, if_neg (by simp [hne]), if_neg (by rw [List.length_append]; omega), List.take_append_of_le_length hfour, hsize]
  dsimp only
  rw [hvalid, if_neg (by simp), if_neg (by rw [List.length_append]; omega), List.take_left, List.drop_left]

/-- The frames that a run of writes accepts are on the sink one after the other. -/
theorem writeFrames_eq (w : ByteSink ω Error) {frames : List Bytes} {s : ω} (h : (writeFrames w.toWritePort frames s).1 = .ok ()) :
    (∀ frame ∈ frames, Star9.writeFrame frame = .ok frame) ∧ w.sent (writeFrames w.toWritePort frames s).2 = w.sent s ++ frames.flatten := by
  induction frames generalizing s with
  | nil => exact ⟨by simp, by simp [writeFrames]⟩
  | cons frame frames ih =>
    rw [writeFrames] at h ⊢
    obtain ⟨s', hwrite, hsent⟩ := writeFrame_eq w frame s
    cases hpure : Star9.writeFrame frame with
    | error e =>
      rw [hpure] at hwrite
      rw [bind_err hwrite] at h
      exact absurd h Outcome.err_ne_ok
    | ok out =>
      obtain rfl := (writeFrame_eq_ok_iff.mp hpure).1
      rw [hpure] at hwrite hsent
      rw [bind_ok hwrite] at h ⊢
      obtain ⟨haccepted, hrest⟩ := ih h
      refine ⟨fun f hf => ?_, ?_⟩
      · rcases List.mem_cons.mp hf with rfl | hf
        · exact hpure
        · exact haccepted f hf
      · rw [hrest, hsent, List.flatten_cons, List.append_assoc]
        rfl

theorem readFrames_flatten (r : ByteStream ρ Error) {frames : List Bytes} (h : ∀ frame ∈ frames, Star9.writeFrame frame = .ok frame)
    {s : ρ} (hrest : r.rest s = frames.flatten) : (readFrames r.toReadPort (frames.length + 1) s).1 = .ok (frames.map some ++ [none]) := by
  induction frames generalizing s with
  | nil =>
    obtain ⟨s', hread, -⟩ := readFrame_eq r s
    rw [hrest] at hread
    rw [List.length_nil, readFrames, bind_ok hread]
    rfl
  | cons frame frames ih =>
    obtain ⟨s', hread, hafter⟩ := readFrame_eq r s
    have hpure := readFrame_append (h frame List.mem_cons_self) frames.flatten
    rw [hrest, List.flatten_cons, hpure] at hread
    have hleft := hafter _ (by rw [hrest, List.flatten_cons, hpure])
    have hmore := ih (fun f hf => h f (List.mem_cons_of_mem frame hf)) hleft
    rw [List.length_cons, readFrames, bind_ok hread, map_apply]
    rcases hrun : readFrames r.toReadPort (frames.length + 1) s' with ⟨more | e | _, s₁⟩ <;> rw [hrun] at hmore <;> cases hmore
    rfl

/-- The bytes stop before the frame that they begin is complete. -/
def EndsInside (input : Bytes) : Prop := input ≠ [] ∧ (input.length < 4 ∨ input.length < leValue (input.take 4))

theorem readFrame_endsInside {input : Bytes} (h : EndsInside input) : ∃ e, Star9.readFrame input = .error e := by
  rw [Star9.readFrame, if_neg h.1]
  by_cases hshort : input.length < 4
  · exact ⟨_, if_pos hshort⟩
  · rw [if_neg hshort]
    have hlen := h.2.resolve_left hshort
    dsimp only
    cases validateFrameSize (leValue (input.take 4)) with
    | false => exact ⟨_, rfl⟩
    | true => exact ⟨_, (if_neg (by simp)).trans (if_pos hlen)⟩

/-- Frames come out of a stream as they went in, however the reads and the writes fall. No
reader makes a frame of the wrong length, and no stream ends in a part of one. -/
theorem framing_lossless (w : ByteSink ω Error) (r : ByteStream ρ Error) :
    (∀ (frames : List Bytes) (out : ω) (input : ρ), w.sent out = [] → (writeFrames w.toWritePort frames out).1 = .ok () →
      r.rest input = w.sent (writeFrames w.toWritePort frames out).2 →
        (readFrames r.toReadPort (frames.length + 1) input).1 = .ok (frames.map some ++ [none])) ∧
    (∀ (reader : ReadPort ρ Error) (input : ρ) (frame : Bytes), (readFrame reader input).1 = .ok (some frame) →
      frame.length = leValue (frame.take 4)) ∧
    ∀ input, EndsInside (r.rest input) → ∃ e, (readFrame r.toReadPort input).1 = .err e := by
  refine ⟨?_, ?_, ?_⟩
  · intro frames out input hempty hwrite hinput
    obtain ⟨haccepted, hsent⟩ := writeFrames_eq w hwrite
    exact readFrames_flatten r haccepted (by rw [hinput, hsent, hempty, List.nil_append])
  · intro reader input frame hrun
    exact readFrame_length reader input (some frame) hrun frame rfl
  · intro input hends
    obtain ⟨e, hpure⟩ := readFrame_endsInside hends
    obtain ⟨s', hread, -⟩ := readFrame_eq r input
    exact ⟨e, by rw [hread, hpure]; rfl⟩

/-! ## A pipe -/

/-- A reader whose `k`-th read returns at most `most k + 1` bytes. -/
def shortStream (most : Nat → Nat) : ByteStream (Bytes × Nat) Error where
  read n := fun (rest, k) => (.ok (rest.take (min n (most k + 1))), rest.drop (min n (most k + 1)), k + 1)
  rest := Prod.fst
  read_spec n s hn := by
    refine ⟨_, _, rfl, List.take_append_drop _ _, ?_, fun hnone => ?_⟩
    · rw [List.length_take]
      omega
    · rcases List.take_eq_nil_iff.mp hnone with hzero | hnil
      · omega
      · exact hnil

/-- A writer that takes at most `most + 1` bytes at a time. -/
def chunkSink (most : Nat) : ByteSink Bytes Error where
  write data := fun sent => (.ok (min data.length (most + 1)), sent ++ data.take (most + 1))
  flush := pure ()
  sent := id
  write_spec data s hne := by
    have hpos := List.length_pos_iff.mpr hne
    refine ⟨_, _, rfl, by omega, by omega, ?_⟩
    dsimp only [id]
    rw [List.take_eq_take_min]
    congr 2
    omega
  flush_spec s := ⟨s, rfl, rfl⟩

/-- Three frames, the second with a body of seven bytes. -/
def threeFrames : List Bytes := [[7, 0, 0, 0, 108, 1, 0], [14, 0, 0, 0, 119, 2, 0, 1, 2, 3, 4, 5, 6, 7], [7, 0, 0, 0, 109, 3, 0]]

theorem framing_lossless_pipe :
    (readFrames (shortStream (· % 3)).toReadPort 4 ((writeFrames (chunkSink 4).toWritePort threeFrames []).2, 0)).1 =
        .ok (threeFrames.map some ++ [none]) ∧
      ([7, 0, 0, 0, 108, 1, 0] : Bytes).length = leValue [7, 0, 0, 0] ∧
      ∃ e, (readFrame (shortStream (· % 3)).toReadPort ([14, 0, 0, 0, 119, 2, 0, 1], 0)).1 = .err e := by
  obtain ⟨hwhole, hlength, hcut⟩ := framing_lossless (chunkSink 4) (shortStream (· % 3))
  refine ⟨hwhole threeFrames [] _ rfl (by rfl) rfl, ?_, hcut _ ⟨by decide, by decide⟩⟩
  exact hlength (shortStream (· % 3)).toReadPort (threeFrames.flatten, 0) [7, 0, 0, 0, 108, 1, 0] (by rfl)

end FrameStream
end Star9
