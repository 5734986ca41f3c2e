import Star9.Base.Bytes

/-!
# Frames of the browser port

The checks and encoders that the two ends of a browser port share. Bitwise operators
of JavaScript work on 32 signed bits.
-/
namespace Star9
namespace P9Port
open Base

def tflush : Nat := 108
def rflush : Nat := 109
def rlerror : Nat := 7
def errorEio : Nat := 5
def notag : Nat := 0xffff

/-- The number that 32 bits stand for when a shift has set the highest of them. -/
def signed32 (v : Nat) : Int := if v < 2 ^ 31 then v else v - 2 ^ 32

def validateFrameShape (frame : Bytes) (label : String) : Except String Unit :=
  if frame.length < 7 then throw ("expected " ++ label ++ " to be a complete 9P frame")
  else if signed32 (leValue (frame.take 4)) ≠ frame.length then
    throw ("expected " ++ label ++ " length prefix to match frame size")
  else pure ()

/-- A value that is not binary data is `none`. -/
def cloneFrameBytes (value : Option Bytes) (label : String) : Except String Bytes :=
  match value with
  | none => throw ("expected " ++ label ++ " to be binary data")
  | some frame =>
    match validateFrameShape frame label with
    | .ok () => pure frame
    | .error message => throw message

def frameTag (frame : Bytes) : Nat := leValue ((frame.drop 5).take 2)

def frameType (frame : Bytes) : Nat := leValue ((frame.drop 4).take 1)

def flushOldTag (frame : Bytes) : Except String Nat :=
  if frame.length < 9 then throw "expected 9P Tflush frame to include oldtag" else pure (leValue ((frame.drop 7).take 2))

def encodeP9Frame (type tag : Nat) (body : Bytes) : Bytes :=
  leBytes 4 (7 + body.length) ++ leBytes 1 type ++ leBytes 2 tag ++ body

def encodeP9ErrorFrame (tag ecode : Nat) : Bytes := encodeP9Frame rlerror tag (leBytes 4 ecode)

theorem cloneFrameBytes_eq_ok {value : Option Bytes} {label : String} {frame : Bytes}
    (h : cloneFrameBytes value label = .ok frame) : value = some frame := by
  unfold cloneFrameBytes at h
  cases value with
  | none => cases h
  | some bytes =>
    dsimp only at h
    split at h
    · exact congrArg some (Except.ok.inj h)
    · cases h

theorem frameTag_lt (frame : Bytes) : frameTag frame < 65536 := by
  unfold frameTag
  have hlt := leValue_lt ((frame.drop 5).take 2)
  have hlen : ((frame.drop 5).take 2).length ≤ 2 := List.length_take_le _ _
  calc leValue ((frame.drop 5).take 2) < 256 ^ ((frame.drop 5).take 2).length := hlt
    _ ≤ 256 ^ 2 := Nat.pow_le_pow_right (by decide) hlen

section
variable (type tag : Nat) (body : Bytes)

theorem encodeP9Frame_length : (encodeP9Frame type tag body).length = 7 + body.length := by
  simp only [encodeP9Frame, List.length_append, leBytes_length]

theorem frameTag_encodeP9Frame : frameTag (encodeP9Frame type tag body) = tag % 65536 := by
  have hhead : (leBytes 4 (7 + body.length) ++ leBytes 1 type).length = 5 := by simp
  unfold frameTag encodeP9Frame
  rw [List.append_assoc, ← hhead, List.drop_left, List.take_append_of_le_length (by simp), List.take_of_length_le (by simp),
    leValue_leBytes]
  norm_num

theorem frameType_encodeP9Frame : frameType (encodeP9Frame type tag body) = type % 256 := by
  have hhead : (leBytes 4 (7 + body.length)).length = 4 := leBytes_length _ _
  unfold frameType encodeP9Frame
  rw [List.append_assoc, List.append_assoc]
  nth_rewrite 1 [← hhead]
  rw [List.drop_left, List.take_append_of_le_length (by simp), List.take_of_length_le (by simp), leValue_leBytes]
  norm_num

theorem cloneFrameBytes_encodeP9Frame (hsmall : 7 + body.length < 2 ^ 31) (label : String) :
    cloneFrameBytes (some (encodeP9Frame type tag body)) label = .ok (encodeP9Frame type tag body) := by
  have hhead : (leBytes 4 (7 + body.length)).length = 4 := leBytes_length _ _
  have hsize : leValue ((encodeP9Frame type tag body).take 4) = 7 + body.length := by
    unfold encodeP9Frame
    rw [List.append_assoc, List.append_assoc, List.take_append_of_le_length (by rw [hhead]), List.take_of_length_le (by rw [hhead]),
      leValue_leBytes, Nat.mod_eq_of_lt (by omega)]
  have hshape : validateFrameShape (encodeP9Frame type tag body) label = .ok () := by
    unfold validateFrameShape
    rw [hsize, encodeP9Frame_length, if_neg (by omega)]
    unfold signed32
    rw [if_pos hsmall, if_neg (by simp)]
    rfl
  unfold cloneFrameBytes
  dsimp only
  rw [hshape]
  rfl

end

end P9Port
end Star9
