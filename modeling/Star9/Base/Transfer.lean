import Star9.Base.Bytes
import Star9.Base.Prog

/-!
# Readers and writers that transfer less than they are asked

One read returns at most as many bytes as it is asked for, and one write takes a part of
the bytes it is given. The exact forms repeat the call until all is transferred. On a
reader that always returns something before its end, what is read does not depend on
how the reads fall.
-/
namespace Base
open Prog

variable {ε ρ ω : Type}

structure ReadPort (ρ ε : Type) where
  read : Nat → Prog ρ ε Bytes

structure WritePort (ω ε : Type) where
  write : Bytes → Prog ω ε Nat
  flush : Prog ω ε Unit

/-- Read until `missing` bytes have come. More bytes than asked for overrun the buffer. -/
def ReadPort.readExactLoop (r : ReadPort ρ ε) (eof : ε) : (rounds missing : Nat) → Prog ρ ε Bytes
  | _, 0 => pure []
  | 0, _ + 1 => Prog.abort
  | rounds + 1, missing + 1 => do
    let chunk ← r.read (missing + 1)
    if chunk = [] then throw eof
    else if missing + 1 < chunk.length then Prog.abort
    else (chunk ++ ·) <$> readExactLoop r eof rounds (missing + 1 - chunk.length)

/-- Every round brings a byte, so there are at most `n` of them. -/
def ReadPort.readExact (r : ReadPort ρ ε) (eof : ε) (n : Nat) : Prog ρ ε Bytes := r.readExactLoop eof n n

def WritePort.writeAllLoop (w : WritePort ω ε) (zero : ε) : (rounds : Nat) → Bytes → Prog ω ε Unit
  | _, [] => pure ()
  | 0, _ :: _ => Prog.abort
  | rounds + 1, b :: data => do
    let n ← w.write (b :: data)
    if n = 0 then throw zero
    else if (b :: data).length < n then Prog.abort
    else writeAllLoop w zero rounds ((b :: data).drop n)

def WritePort.writeAll (w : WritePort ω ε) (zero : ε) (data : Bytes) : Prog ω ε Unit := w.writeAllLoop zero data.length data

/-- A reader over a byte stream. How many bytes a read returns is its own choice. -/
structure ByteStream (ρ ε : Type) extends ReadPort ρ ε where
  rest : ρ → Bytes
  read_spec : ∀ n s, n ≠ 0 → ∃ chunk s', read n s = (.ok chunk, s') ∧ chunk ++ rest s' = rest s ∧ chunk.length ≤ n ∧
    (chunk = [] → rest s = [])

/-- A writer that keeps what it takes. How many bytes a write takes is its own choice. -/
structure ByteSink (ω ε : Type) extends WritePort ω ε where
  sent : ω → Bytes
  write_spec : ∀ data s, data ≠ [] → ∃ n s', write data s = (.ok n, s') ∧ 0 < n ∧ n ≤ data.length ∧ sent s' = sent s ++ data.take n
  flush_spec : ∀ s, ∃ s', flush s = (.ok (), s') ∧ sent s' = sent s

theorem ReadPort.readExactLoop_length (r : ReadPort ρ ε) (eof : ε) (rounds missing : Nat) :
    Returns (fun data => data.length = missing) (r.readExactLoop eof rounds missing) := by
  induction rounds generalizing missing with
  | zero =>
    cases missing with
    | zero => exact returns_pure rfl
    | succ missing => exact returns_abort
  | succ rounds ih =>
    cases missing with
    | zero => exact returns_pure rfl
    | succ missing =>
      apply returns_bind
      intro chunk
      split_ifs with hempty hover
      · exact returns_throw eof
      · exact returns_abort
      · intro s data hdata
        rw [map_apply] at hdata
        rcases hrun : r.readExactLoop eof rounds (missing + 1 - chunk.length) s with ⟨more | e | _, s'⟩ <;> rw [hrun] at hdata <;>
          cases hdata
        have hmore := ih (missing + 1 - chunk.length) s more (by rw [hrun])
        rw [List.length_append, hmore]
        omega

theorem ReadPort.readExact_length (r : ReadPort ρ ε) (eof : ε) (n : Nat) : Returns (fun data => data.length = n) (r.readExact eof n) :=
  r.readExactLoop_length eof n n

namespace ByteStream
variable (r : ByteStream ρ ε) (eof : ε)

theorem readExactLoop_eq {rounds missing : Nat} (h : missing ≤ rounds) (s : ρ) : ∃ s',
    r.readExactLoop eof rounds missing s = (if missing ≤ (r.rest s).length then .ok ((r.rest s).take missing) else .err eof, s') ∧
      (missing ≤ (r.rest s).length → r.rest s' = (r.rest s).drop missing) := by
  induction rounds generalizing missing s with
  | zero =>
    obtain rfl := Nat.le_zero.mp h
    exact ⟨s, by simp [ReadPort.readExactLoop], fun _ => by simp⟩
  | succ rounds ih =>
    cases missing with
    | zero => exact ⟨s, by simp [ReadPort.readExactLoop], fun _ => by simp⟩
    | succ missing =>
      obtain ⟨chunk, s₁, hread, hrest, hlen, hend⟩ := r.read_spec (missing + 1) s (Nat.succ_ne_zero _)
      rw [ReadPort.readExactLoop, bind_ok hread]
      by_cases hempty : chunk = []
      · rw [if_pos hempty, hend hempty]
        exact ⟨s₁, by simp, by simp⟩
      · have hpos : 0 < chunk.length := List.length_pos_iff.mpr hempty
        rw [if_neg hempty, if_neg (Nat.not_lt.mpr hlen), map_apply]
        have hfewer : missing + 1 - chunk.length ≤ rounds := by omega
        obtain ⟨s', hmore, hafter⟩ := ih hfewer s₁
        rw [← hrest, hmore]
        have hlength : (chunk ++ r.rest s₁).length = chunk.length + (r.rest s₁).length := List.length_append
        refine ⟨s', ?_, fun hle => ?_⟩
        · by_cases hle : missing + 1 ≤ (chunk ++ r.rest s₁).length
          · rw [if_pos hle, if_pos (by omega), List.take_append, List.take_of_length_le hlen]
          · rw [if_neg hle, if_neg (by omega)]
        · rw [hafter (by omega), List.drop_append, List.drop_eq_nil_of_le hlen, List.nil_append]

/-- A full read takes the bytes off the front, and one that meets the end fails. -/
theorem readExact_eq (n : Nat) (s : ρ) : ∃ s',
    r.readExact eof n s = (if n ≤ (r.rest s).length then .ok ((r.rest s).take n) else .err eof, s') ∧
      (n ≤ (r.rest s).length → r.rest s' = (r.rest s).drop n) := r.readExactLoop_eq eof le_rfl s

end ByteStream

namespace ByteSink
variable (w : ByteSink ω ε) (zero : ε)

theorem writeAllLoop_eq {rounds : Nat} {data : Bytes} (h : data.length ≤ rounds) (s : ω) :
    ∃ s', w.writeAllLoop zero rounds data s = (.ok (), s') ∧ w.sent s' = w.sent s ++ data := by
  induction rounds generalizing data s with
  | zero =>
    obtain rfl := List.length_eq_zero_iff.mp (Nat.le_zero.mp h)
    exact ⟨s, rfl, by simp⟩
  | succ rounds ih =>
    cases data with
    | nil => exact ⟨s, rfl, by simp⟩
    | cons b data =>
      obtain ⟨n, s₁, hwrite, hpos, hlen, hsent⟩ := w.write_spec (b :: data) s (List.cons_ne_nil _ _)
      rw [WritePort.writeAllLoop, bind_ok hwrite, if_neg (Nat.pos_iff_ne_zero.mp hpos), if_neg (Nat.not_lt.mpr hlen)]
      have hfewer : ((b :: data).drop n).length ≤ rounds := by
        rw [List.length_drop]
        omega
      obtain ⟨s', hrun, hmore⟩ := ih hfewer s₁
      exact ⟨s', hrun, by rw [hmore, hsent, List.append_assoc, List.take_append_drop]⟩

theorem writeAll_eq (data : Bytes) (s : ω) : ∃ s', w.writeAll zero data s = (.ok (), s') ∧ w.sent s' = w.sent s ++ data :=
  w.writeAllLoop_eq zero le_rfl s

end ByteSink
end Base
