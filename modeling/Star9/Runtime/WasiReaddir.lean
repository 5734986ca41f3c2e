import Star9.Fs.MemList
import Star9.Runtime.WasiMemory

/-!
# Listing a directory from a guest

The records of a directory are packed into the buffer of the guest until one does not fit; of that
one the head may still be written. A guest keeps the whole records and asks again from the last of
them, until a reply leaves room in the buffer.
-/
namespace Star9
open Base Prog Memory

namespace Wasi
open WasiCaller

namespace DirentRecord

def bytes (record : DirentRecord) : Bytes := record.headBytes ++ record.name

def size (record : DirentRecord) : Nat := direntHeadSize + record.name.length

/-- What the fields of a head can hold. -/
def Small (record : DirentRecord) : Prop := record.next < 2 ^ 64 ∧ record.name.length < 2 ^ 32

theorem headBytes_length (record : DirentRecord) : record.headBytes.length = 24 := by
  simp [headBytes]

theorem bytes_length (record : DirentRecord) : record.bytes.length = record.size := by
  rw [bytes, List.length_append, headBytes_length]
  rfl

end DirentRecord

/-! ## One reply -/

/-- The records that fit whole. -/
def direntPage (room : Nat) : List DirentRecord → List DirentRecord
  | [] => []
  | record :: records => if room < record.size then [] else record :: direntPage (room - record.size) records

/-- The head of the record that does not fit, where there is room for it. -/
def direntTail (room : Nat) : List DirentRecord → Bytes
  | [] => []
  | record :: records =>
    if room < direntHeadSize then []
    else if room < record.size then record.headBytes
    else direntTail (room - record.size) records

def direntWritten (room : Nat) (records : List DirentRecord) : Bytes :=
  (direntPage room records).flatMap DirentRecord.bytes ++ direntTail room records

section
variable {room : Nat} {record : DirentRecord} {records : List DirentRecord}

theorem direntPage_of_fits (h : record.size ≤ room) :
    direntPage room (record :: records) = record :: direntPage (room - record.size) records := if_neg (Nat.not_lt.mpr h)

theorem direntPage_of_full (h : room < record.size) : direntPage room (record :: records) = [] := if_pos h

theorem direntTail_of_fits (h : record.size ≤ room) : direntTail room (record :: records) = direntTail (room - record.size) records := by
  have hhead : direntHeadSize ≤ record.size := Nat.le_add_right _ _
  rw [direntTail, if_neg (by omega), if_neg (by omega)]

theorem direntWritten_of_fits (h : record.size ≤ room) :
    direntWritten room (record :: records) = record.bytes ++ direntWritten (room - record.size) records := by
  rw [direntWritten, direntPage_of_fits h, direntTail_of_fits h, List.flatMap_cons, List.append_assoc, direntWritten]

theorem direntWritten_length (room : Nat) (records : List DirentRecord) : (direntWritten room records).length ≤ room := by
  induction records generalizing room with
  | nil => exact Nat.zero_le _
  | cons record records ih =>
    by_cases hfits : record.size ≤ room
    · have hrest := ih (room - record.size)
      rw [direntWritten_of_fits hfits, List.length_append, record.bytes_length]
      omega
    · rw [direntWritten, direntPage_of_full (by omega), List.flatMap_nil, List.nil_append, direntTail]
      split
      · exact Nat.zero_le _
      · rw [if_pos (by omega), record.headBytes_length]
        unfold direntHeadSize at *
        omega

theorem direntPage_prefix (room : Nat) (records : List DirentRecord) :
    direntPage room records = records.take (direntPage room records).length := by
  induction records generalizing room with
  | nil => rfl
  | cons record records ih =>
    by_cases hfits : record.size ≤ room
    · rw [direntPage_of_fits hfits, List.length_cons, List.take_succ_cons, ← ih]
    · rw [direntPage_of_full (by omega)]
      rfl

/-- The loop writes the records that fit and the head of the next, and counts the buffer as used when
there was one that did not fit. -/
theorem writeDirents_eq {σ η : Type} {w : WasiCaller σ η} {mem : Bytes} (hmemory : w.memory = some mem) {bufLen bufused : Nat} {cursor : Int}
    (hcursor : 0 ≤ cursor) (hused : bufused ≤ bufLen) (hfits : cursor + (bufLen - bufused : Nat) ≤ mem.length)
    (hbelow : cursor + (bufLen - bufused : Nat) < 2 ^ 31) (records : List DirentRecord) :
    (writeDirents bufLen records cursor bufused : Prog (WasiCaller σ η) Errno Nat) w =
      (.ok (if direntPage (bufLen - bufused) records = records then bufused + (direntWritten (bufLen - bufused) records).length else bufLen),
        { w with memory := some (put mem cursor.toNat (direntWritten (bufLen - bufused) records)) }) := by
  induction records generalizing w mem bufused cursor with
  | nil =>
    rw [direntPage, if_pos rfl, direntWritten, direntPage, direntTail, List.flatMap_nil, List.append_nil, put_nil, ← hmemory]
    rfl
  | cons record records ih =>
    have hhead := record.headBytes_length
    have hsize : record.size = 24 + record.name.length := rfl
    rw [writeDirents, branch_apply]
    by_cases hroom : bufLen - bufused < direntHeadSize
    · -- not even the head fits
      have hfull : bufLen - bufused < record.size := Nat.lt_of_lt_of_le hroom (Nat.le_add_right _ _)
      rw [if_pos hroom, direntPage_of_full hfull, if_neg (List.cons_ne_nil _ _).symm, direntWritten, direntPage_of_full hfull, List.flatMap_nil, direntTail,
        if_pos hroom, List.append_nil, put_nil, ← hmemory]
      rfl
    · have hheadroom : 24 ≤ bufLen - bufused := Nat.not_lt.mp hroom
      have hwriteHead : (writeBytes cursor record.headBytes : Prog (WasiCaller σ η) Errno Unit) w =
          (.ok (), { w with memory := some (put mem cursor.toNat record.headBytes) }) :=
        writeBytes_eq hmemory _ hcursor (by rw [hhead]; omega)
      have hmoved : ∀ v : WasiCaller σ η, (checkedI32 (cursor + direntHeadSize) : Prog (WasiCaller σ η) Errno Int) v = (.ok (cursor + 24), v) :=
        fun v => checkedI32_eq (by unfold direntHeadSize; omega) (by unfold direntHeadSize; omega)
      rw [if_neg hroom, bind_ok hwriteHead, bind_ok (hmoved _), branch_apply]
      by_cases hname : bufLen - (bufused + direntHeadSize) < record.name.length
      · -- the head is written and the name does not fit
        have hfull : bufLen - bufused < record.size := by
          unfold direntHeadSize at hname
          omega
        rw [if_pos hname, direntPage_of_full hfull, if_neg (List.cons_ne_nil _ _).symm, direntWritten, direntPage_of_full hfull, List.flatMap_nil,
          direntTail, if_neg hroom, if_pos hfull, List.nil_append]
        rfl
      · have hwhole : record.size ≤ bufLen - bufused := by
          unfold direntHeadSize at hname
          omega
        have hlen : (put mem cursor.toNat record.headBytes).length = mem.length := put_length (by rw [hhead]; omega)
        have hnameroom : cursor + 24 + record.name.length ≤ (put mem cursor.toNat record.headBytes).length := by
          rw [hlen]
          omega
        have hwriteName := @writeBytes_eq σ η { w with memory := some (put mem cursor.toNat record.headBytes) }
          (put mem cursor.toNat record.headBytes) rfl (cursor + 24) record.name (by omega) hnameroom
        have hboth : put (put mem cursor.toNat record.headBytes) (cursor + 24).toNat record.name = put mem cursor.toNat record.bytes := by
          rw [show (cursor + 24).toNat = cursor.toNat + record.headBytes.length by rw [hhead]; omega,
            put_put (by rw [hhead]; omega), DirentRecord.bytes]
        rw [hboth] at hwriteName
        have hmoved' : ∀ v : WasiCaller σ η, (checkedI32 (cursor + 24 + asI32 record.name.length) : Prog (WasiCaller σ η) Errno Int) v =
            (.ok (cursor + record.size), v) := by
          intro v
          rw [asI32_of_lt (by omega), checkedI32_eq (by omega) (by omega), hsize]
          congr 2
          omega
        have hbytes := record.bytes_length
        have hlen' : (put mem cursor.toNat record.bytes).length = mem.length := put_length (by rw [hbytes]; omega)
        have hrest := @ih { w with memory := some (put mem cursor.toNat record.bytes) } (put mem cursor.toNat record.bytes) rfl
          (bufused + record.size) (cursor + record.size) (by omega) (by omega) (by rw [hlen']; omega) (by omega)
        have hleft : bufLen - (bufused + record.size) = bufLen - bufused - record.size := by omega
        have hsame : direntPage (bufLen - bufused) (record :: records) = record :: records ↔
            direntPage (bufLen - bufused - record.size) records = records := by
          rw [direntPage_of_fits hwhole, List.cons.injEq, and_iff_right rfl]
        have hwritten := direntWritten_length (bufLen - bufused - record.size) records
        have htogether : put (put mem cursor.toNat record.bytes) (cursor + record.size).toNat (direntWritten (bufLen - bufused - record.size) records) =
            put mem cursor.toNat (direntWritten (bufLen - bufused) (record :: records)) := by
          rw [show (cursor + record.size).toNat = cursor.toNat + record.bytes.length by rw [hbytes]; omega,
            put_put (by rw [hbytes]; omega), direntWritten_of_fits hwhole]
        rw [hleft, htogether] at hrest
        have hcount : bufused + record.size + (direntWritten (bufLen - bufused - record.size) records).length =
            bufused + (direntWritten (bufLen - bufused) (record :: records)).length := by
          rw [direntWritten_of_fits hwhole, List.length_append, hbytes]
          omega
        rw [if_neg hname, bind_ok hwriteName, bind_ok (hmoved' _), show bufused + direntHeadSize + record.name.length = bufused + record.size from
          Nat.add_assoc _ _ _, hrest]
        simp only [hsame, hcount]

/-! ## What the guest makes of a reply -/

/-- The whole records in the used part of the buffer. -/
def parseDirents : Nat → Bytes → List DirentRecord
  | 0, _ => []
  | fuel + 1, used =>
    let nameLen := leValue (window used 16 4)
    if used.length < direntHeadSize + nameLen then []
    else
      { next := leValue (window used 0 8)
        inode := UInt64.ofNat (leValue (window used 8 8))
        type := (window used 20 1).headD 0
        name := window used direntHeadSize nameLen } :: parseDirents fuel (used.drop (direntHeadSize + nameLen))

theorem window_append_right {α : Type} (a b : List α) (start len : Nat) (h : a.length = start) : window (a ++ b) start len = b.take len := by
  rw [window, ← h, List.drop_left]

theorem window_of_append {α : Type} {a b : List α} {start len : Nat} (h : start + len ≤ a.length) : window (a ++ b) start len = window a start len := by
  rw [window, window, List.drop_append_of_le_length (by omega), List.take_append_of_le_length (by rw [List.length_drop]; omega)]

/-- The fields of a head. -/
theorem windows_headBytes (record : DirentRecord) :
    window record.headBytes 0 8 = leBytes 8 record.next ∧ window record.headBytes 8 8 = leBytes 8 record.inode.toNat ∧
      window record.headBytes 16 4 = leBytes 4 record.name.length ∧ window record.headBytes 20 1 = [record.type] := by
  have h8 := leBytes_length 8 record.next
  have hi := leBytes_length 8 record.inode.toNat
  have h4 := leBytes_length 4 record.name.length
  unfold DirentRecord.headBytes
  refine ⟨?_, ?_, ?_, ?_⟩
  · rw [List.append_assoc, List.append_assoc, window, List.drop_zero, List.take_left' h8]
  · rw [List.append_assoc, List.append_assoc, window_append_right _ _ _ _ h8, List.take_left' hi]
  · rw [List.append_assoc, window_append_right _ _ _ _ (by rw [List.length_append, h8, hi]), List.take_left' h4]
  · rw [window_append_right _ _ _ _ (by rw [List.length_append, List.length_append, h8, hi, h4])]
    rfl

/-- The length of the name is read from the head, whatever comes behind it. -/
theorem nameLen_headBytes (hsmall : record.Small) (rest : Bytes) : leValue (window (record.headBytes ++ rest) 16 4) = record.name.length := by
  have hfits : 16 + 4 ≤ record.headBytes.length := by
    rw [record.headBytes_length]
    decide
  rw [window_of_append hfits, (windows_headBytes record).2.2.1, leValue_leBytes]
  exact Nat.mod_eq_of_lt hsmall.2

theorem parseDirents_bytes (hsmall : record.Small) (fuel : Nat) (rest : Bytes) :
    parseDirents (fuel + 1) (record.bytes ++ rest) = record :: parseDirents fuel rest := by
  obtain ⟨hnext, hinode, hlen, htype⟩ := windows_headBytes record
  have hhead := record.headBytes_length
  have hbytes : record.bytes ++ rest = record.headBytes ++ (record.name ++ rest) := List.append_assoc _ _ _
  have hnameLen := nameLen_headBytes hsmall (record.name ++ rest)
  have hroom : ¬ (record.headBytes ++ (record.name ++ rest)).length < direntHeadSize + record.name.length := by
    simp only [List.length_append, hhead, direntHeadSize]
    omega
  have hname : window (record.headBytes ++ (record.name ++ rest)) direntHeadSize record.name.length = record.name := by
    have hstart : record.headBytes.length = direntHeadSize := hhead
    rw [window_append_right _ _ _ _ hstart, List.take_left]
  have hdrop : (record.headBytes ++ (record.name ++ rest)).drop (direntHeadSize + record.name.length) = rest := by
    rw [← List.append_assoc, List.drop_left']
    rw [List.length_append, hhead]
    rfl
  have hnext' : leValue (leBytes 8 record.next) = record.next := by
    rw [leValue_leBytes]
    exact Nat.mod_eq_of_lt hsmall.1
  have hinode' : leValue (leBytes 8 record.inode.toNat) = record.inode.toNat := by
    rw [leValue_leBytes]
    exact Nat.mod_eq_of_lt record.inode.toNat_lt
  rw [hbytes, parseDirents, hnameLen, if_neg hroom, hname, hdrop, window_of_append (by rw [hhead]; decide), hnext, hnext',
    window_of_append (by rw [hhead]; decide), hinode, hinode', window_of_append (by rw [hhead]; decide), htype, UInt64.ofNat_toNat]
  rfl

theorem parseDirents_short {used : Bytes} (h : used.length < direntHeadSize) (fuel : Nat) : parseDirents fuel used = [] := by
  cases fuel with
  | zero => rfl
  | succ fuel => exact if_pos (Nat.lt_of_lt_of_le h (Nat.le_add_right _ _))

theorem parseDirents_head (hsmall : record.Small) {rest : Bytes} (h : (record.headBytes ++ rest).length < record.size) (fuel : Nat) :
    parseDirents fuel (record.headBytes ++ rest) = [] := by
  cases fuel with
  | zero => rfl
  | succ fuel =>
    rw [parseDirents, nameLen_headBytes hsmall]
    exact if_pos h

/-- From a buffer that is full, or that has all records, the guest reads the records that were written whole. -/
theorem parseDirents_written (hsmall : ∀ record ∈ records, record.Small) {stale : Bytes}
    (hfull : direntPage room records ≠ records → (direntWritten room records ++ stale).length = room)
    (hall : direntPage room records = records → stale = []) {fuel : Nat} (hfuel : (direntPage room records).length < fuel) :
    parseDirents fuel (direntWritten room records ++ stale) = direntPage room records := by
  induction records generalizing room fuel with
  | nil =>
    rw [hall rfl]
    have hnone : direntWritten room [] ++ [] = [] := rfl
    rw [hnone]
    exact parseDirents_short (by decide) fuel
  | cons record records ih =>
    rw [List.forall_mem_cons] at hsmall
    by_cases hfits : record.size ≤ room
    · obtain ⟨fuel, rfl⟩ := Nat.exists_eq_add_one_of_ne_zero (Nat.ne_of_gt (Nat.lt_of_le_of_lt (Nat.zero_le _) hfuel))
      have hpage : direntPage room (record :: records) = record :: records ↔ direntPage (room - record.size) records = records := by
        rw [direntPage_of_fits hfits, List.cons.injEq, and_iff_right rfl]
      rw [direntPage_of_fits hfits, List.length_cons] at hfuel
      rw [direntWritten_of_fits hfits, List.append_assoc] at hfull ⊢
      rw [parseDirents_bytes hsmall.1, direntPage_of_fits hfits]
      congr 1
      rw [Ne, hpage] at hfull
      rw [hpage] at hall
      apply ih hsmall.2 _ hall (Nat.lt_of_succ_lt_succ hfuel)
      intro hne
      have hlen := hfull hne
      rw [List.length_append, record.bytes_length] at hlen
      omega
    · have hshort : room < record.size := Nat.not_le.mp hfits
      have hpage : direntPage room (record :: records) = [] := direntPage_of_full hshort
      have hlen := hfull (by rw [hpage]; exact (List.cons_ne_nil _ _).symm)
      rw [hpage]
      rw [direntWritten, hpage, List.flatMap_nil, List.nil_append, direntTail] at hlen ⊢
      split
      case isTrue hhead =>
        rw [if_pos hhead] at hlen
        exact parseDirents_short (by rw [hlen]; exact hhead) fuel
      case isFalse hhead =>
        rw [if_neg hhead, if_pos hshort] at hlen
        exact parseDirents_head hsmall.1 (by rw [hlen]; exact hshort) fuel

theorem direntPage_length_le (room : Nat) (records : List DirentRecord) : (direntPage room records).length ≤ (direntWritten room records).length := by
  have hpage : ∀ page : List DirentRecord, page.length ≤ (page.flatMap DirentRecord.bytes).length := by
    intro page
    induction page with
    | nil => exact le_rfl
    | cons record page ih =>
      have hlen := record.bytes_length
      have hsize : record.size = 24 + record.name.length := rfl
      rw [List.flatMap_cons, List.length_append, List.length_cons]
      omega
  rw [direntWritten, List.length_append]
  exact (hpage _).trans (Nat.le_add_right _ _)

end

/-! ## The records of a directory -/

section
variable (inode : String → UInt64) (path : String) (entries : List DirEntry)

theorem direntRecords_length : (direntRecords inode path entries).length = entries.length + 2 := by
  simp [direntRecords]

theorem direntRecords_next {i : Nat} {record : DirentRecord} (h : (direntRecords inode path entries)[i]? = some record) : record.next = i + 1 := by
  match i with
  | 0 =>
    cases h
    rfl
  | 1 =>
    cases h
    rfl
  | i + 2 =>
    simp only [direntRecords, List.getElem?_cons_succ, List.getElem?_map, List.getElem?_zipIdx, Option.map_eq_some_iff] at h
    obtain ⟨entry, ⟨-, -, rfl⟩, rfl⟩ := h
    dsimp only
    omega

/-- The directory itself, its parent and its entries, with their types. -/
theorem direntRecords_names : (direntRecords inode path entries).map (fun record => (record.name, record.type)) =
    (utf8Bytes ".", 3) :: (utf8Bytes "..", 3) :: entries.map fun entry => (utf8Bytes entry.name, filetype entry.metadata.mode) := by
  have hentries : (entries.zipIdx.map fun entry => (utf8Bytes entry.1.name, filetype entry.1.metadata.mode)) =
      entries.map fun entry => (utf8Bytes entry.name, filetype entry.metadata.mode) := by
    conv_rhs => rw [← List.zipIdx_map_fst 0 entries, List.map_map]
    rfl
  rw [direntRecords, List.map_cons, List.map_cons, List.map_map, ← hentries]
  rfl

end

/-! ## One call -/

/-- A directory that answers alike as long as `I` holds, which asking keeps. -/
structure Unchanging {σ η : Type} (ns : FileSystem σ η) (I : σ → Prop) (path : String) (entries : List DirEntry) : Prop where
  stat : ∀ s, I s → ∃ metadata s', ns.stat FsContext.new path s = (.ok metadata, s') ∧ metadata.isDir = true ∧ I s'
  readDir : ∀ s, I s → ∃ s', ns.readDir FsContext.new path s = (.ok entries, s') ∧ I s'

/-- Where a guest has the buffer for the records and the word for the size used. -/
structure DirBuffer (mem : Bytes) (bufPtr bufLen usedPtr : Int32) : Prop where
  length : 0 ≤ bufLen.toInt
  buffer : 0 ≤ bufPtr.toInt ∧ InGuest mem (bufPtr.toInt.toNat, bufLen.toInt.toNat)
  used : 0 ≤ usedPtr.toInt ∧ InGuest mem (usedPtr.toInt.toNat, 4)
  apart : Separate (bufPtr.toInt.toNat, bufLen.toInt.toNat) (usedPtr.toInt.toNat, 4)

section
variable {σ η : Type} {ns : FileSystem σ η} {I : σ → Prop} {path : String} {entries : List DirEntry} {inode : String → UInt64}
  {fd bufPtr bufLen usedPtr : Int32} {w : WasiCaller σ η} {mem : Bytes}

theorem call_ok {α : Type} {p : Prog σ Error α} {a : α} {s : σ} (h : p w.ns = (.ok a, s)) :
    (call p : Prog (WasiCaller σ η) Errno α) w = (.ok a, { w with ns := s }) := by
  unfold call
  rw [h]

theorem wasiReaddirEntries_eq (hunchanging : Unchanging ns I path entries) (hpath : w.fdPath fd = some path) (hI : I w.ns) :
    ∃ s, wasiReaddirEntries ns inode fd w = (.ok (direntRecords inode path entries), { w with ns := s }) ∧ I s := by
  obtain ⟨metadata, s, hstat, hdir, hs⟩ := hunchanging.stat w.ns hI
  obtain ⟨s', hread, hs'⟩ := hunchanging.readDir s hs
  refine ⟨s', ?_, hs'⟩
  have hfd : (fdPathOf fd : Prog (WasiCaller σ η) Errno String) w = (.ok path, w) := by
    rw [fdPathOf, get_bind, hpath]
    rfl
  have hread' : (call (ns.readDir FsContext.new path) : Prog (WasiCaller σ η) Errno (List DirEntry)) { w with ns := s } =
      (.ok entries, { w with ns := s' }) := @call_ok σ η { w with ns := s } _ _ _ _ hread
  rw [wasiReaddirEntries, bind_ok hfd, bind_ok (call_ok hstat), hdir, Bool.not_true, if_neg Bool.false_ne_true, bind_ok hread']
  rfl

/-- The size that a reply reports. -/
def replyUsed (room : Nat) (records : List DirentRecord) : Nat :=
  if direntPage room records = records then (direntWritten room records).length else room

theorem replyUsed_le (room : Nat) (records : List DirentRecord) : replyUsed room records ≤ room := by
  unfold replyUsed
  split
  · exact direntWritten_length room records
  · exact le_rfl

theorem fdReaddir_eq (hunchanging : Unchanging ns I path entries) (hpath : w.fdPath fd = some path) (hI : I w.ns) (hmemory : w.memory = some mem)
    (hbuffer : DirBuffer mem bufPtr bufLen usedPtr) {cookie : Nat} (hcookie : cookie < 2 ^ 63) :
    let room := bufLen.toInt.toNat
    let records := (direntRecords inode path entries).drop cookie
    ∃ s, fdReaddir ns inode fd bufPtr bufLen (Int64.ofNat cookie) usedPtr w =
        (.ok (), { w with
          ns := s
          memory := some (put (put mem bufPtr.toInt.toNat (direntWritten room records)) usedPtr.toInt.toNat
            (leBytes 4 (replyUsed room records))) }) ∧ I s := by
  intro room records
  obtain ⟨s, hentries, hs⟩ := @wasiReaddirEntries_eq σ η ns I path entries inode fd w hunchanging hpath hI
  refine ⟨s, ?_, hs⟩
  have hlength := hbuffer.length
  obtain ⟨hbuf, hfits, hbelow⟩ := hbuffer.buffer
  obtain ⟨hused, husedFits, -⟩ := hbuffer.used
  dsimp only at hfits hbelow husedFits
  have hargs : ¬ (bufLen < 0 ∨ Int64.ofNat cookie < 0) := by
    rw [Int32.lt_iff_toInt_lt, Int32.toInt_zero, Int64.lt_iff_toInt_lt, Int64.toInt_zero, Int64.toInt_ofNat_of_lt hcookie]
    omega
  have hdrop : (direntRecords inode path entries).drop (Int64.ofNat cookie).toInt.toNat = records := by
    rw [Int64.toInt_ofNat_of_lt hcookie, Int.toNat_natCast]
  have hwrite := @writeDirents_eq σ η { w with ns := s } mem hmemory room 0 bufPtr.toInt hbuf (Nat.zero_le _) (by omega) (by omega) records
  rw [Nat.sub_zero, Nat.zero_add] at hwrite
  have hlen := direntWritten_length room records
  have hput : (put mem bufPtr.toInt.toNat (direntWritten room records)).length = mem.length := put_length (by omega)
  rw [fdReaddir, if_neg hargs, bind_ok hentries, hdrop]
  refine (bind_ok hwrite).trans ?_
  exact writeWord_eq rfl hbuffer.used hput _

/-- What the guest finds in its memory behind a call: the reported size and the whole records. -/
theorem reply_eq (hbuffer : DirBuffer mem bufPtr bufLen usedPtr) {records : List DirentRecord} (hsmall : ∀ record ∈ records, record.Small) :
    let room := bufLen.toInt.toNat
    let after := put (put mem bufPtr.toInt.toNat (direntWritten room records)) usedPtr.toInt.toNat (leBytes 4 (replyUsed room records))
    leValue (window after usedPtr.toInt.toNat 4) = replyUsed room records ∧
      parseDirents (replyUsed room records + 1) (window after bufPtr.toInt.toNat (replyUsed room records)) = direntPage room records ∧
      after.length = mem.length ∧
      ∀ i, ¬ Covers (bufPtr.toInt.toNat, room) i → ¬ Covers (usedPtr.toInt.toNat, 4) i → after[i]? = mem[i]? := by
  intro room after
  obtain ⟨hbuf, hfits, hbelow⟩ := hbuffer.buffer
  obtain ⟨hused, husedFits, -⟩ := hbuffer.used
  have hlength := hbuffer.length
  dsimp only at hfits hbelow husedFits
  have hlen := direntWritten_length room records
  have hwritten : bufPtr.toInt.toNat + (direntWritten room records).length ≤ mem.length := by omega
  have hput := put_length hwritten
  have hword := leBytes_length 4 (replyUsed room records)
  have hwordFits : usedPtr.toInt.toNat + (leBytes 4 (replyUsed room records)).length ≤
      (put mem bufPtr.toInt.toNat (direntWritten room records)).length := by
    rw [hword, hput]
    exact husedFits
  have hle := replyUsed_le room records
  have hwindow : window after bufPtr.toInt.toNat (replyUsed room records) =
      window (put mem bufPtr.toInt.toNat (direntWritten room records)) bufPtr.toInt.toNat (replyUsed room records) := by
    apply window_put_of_separate hwordFits (r := (bufPtr.toInt.toNat, replyUsed room records))
    rintro i ⟨hlow, hhigh⟩ hin
    rw [hword] at hin
    exact hbuffer.apart i ⟨hlow, by dsimp only at hhigh ⊢; omega⟩ hin
  refine ⟨?_, ?_, (put_length hwordFits).trans hput, ?_⟩
  · have hself := window_put_self hwordFits
    rw [hword] at hself
    rw [hself, leValue_leBytes, Nat.mod_eq_of_lt]
    exact Nat.lt_of_le_of_lt hle (show room < 256 ^ 4 by omega)
  · rw [hwindow]
    have hcount := direntPage_length_le room records
    by_cases hall : direntPage room records = records
    · have husedAll : replyUsed room records = (direntWritten room records).length := if_pos hall
      rw [husedAll, window_put_self hwritten]
      have hparse := @parseDirents_written room records hsmall [] (fun hne => absurd hall hne) (fun _ => rfl)
        ((direntWritten room records).length + 1) (by omega)
      rwa [List.append_nil] at hparse
    · have husedFull : replyUsed room records = room := if_neg hall
      have hsplit : window (put mem bufPtr.toInt.toNat (direntWritten room records)) bufPtr.toInt.toNat room =
          direntWritten room records ++ window (put mem bufPtr.toInt.toNat (direntWritten room records))
            (bufPtr.toInt.toNat + (direntWritten room records).length) (room - (direntWritten room records).length) := by
        conv_lhs => rw [show room = (direntWritten room records).length + (room - (direntWritten room records).length) by omega, window_append]
        rw [show (direntWritten room records).length + (room - (direntWritten room records).length) = room by omega, window_put_self hwritten]
      have hlenWindow : (window (put mem bufPtr.toInt.toNat (direntWritten room records)) bufPtr.toInt.toNat room).length = room :=
        window_length (by omega)
      rw [husedFull, hsplit]
      rw [hsplit] at hlenWindow
      exact parseDirents_written hsmall (fun _ => hlenWindow) (fun h => absurd h hall) (by omega)
  · intro i hbufNot husedNot
    rw [getElem?_put_of_not_covers hwordFits (by rw [hword]; exact husedNot), getElem?_put_of_not_covers hwritten]
    rintro ⟨hlow, hhigh⟩
    exact hbufNot ⟨hlow, by dsimp only at hhigh ⊢; omega⟩

end

/-! ## All calls -/

/-- Where the guest goes on: behind the last whole record. -/
def nextCookie (cookie : Nat) (records : List DirentRecord) : Nat := (records.getLast?.map DirentRecord.next).getD cookie

/-- A guest that asks until a reply leaves room in its buffer. -/
def listDirents {σ η : Type} (ns : FileSystem σ η) (inode : String → UInt64) (fd bufPtr bufLen usedPtr : Int32) :
    Nat → Nat → WasiCaller σ η → Option (List DirentRecord × WasiCaller σ η)
  | 0, _, _ => none
  | fuel + 1, cookie, w =>
    let reply := fdReaddir ns inode fd bufPtr bufLen (Int64.ofNat cookie) usedPtr w
    if reply.1.isOk then
      let mem := reply.2.memory.getD []
      let used := leValue (window mem usedPtr.toInt.toNat 4)
      let records := parseDirents (used + 1) (window mem bufPtr.toInt.toNat used)
      if used < bufLen.toInt.toNat then some (records, reply.2)
      else (listDirents ns inode fd bufPtr bufLen usedPtr fuel (nextCookie cookie records) reply.2).map fun rest => (records ++ rest.1, rest.2)
    else none

section
variable {σ η : Type} {ns : FileSystem σ η} {I : σ → Prop} {path : String} {entries : List DirEntry} {inode : String → UInt64}
  {fd bufPtr bufLen usedPtr : Int32}

/-- The number of a record is its place, so the guest goes on behind what it has. -/
theorem nextCookie_page {room cookie : Nat} {page : List DirentRecord}
    (hpage : page = direntPage room ((direntRecords inode path entries).drop cookie)) (hne : page ≠ []) :
    nextCookie cookie page = cookie + page.length := by
  have htake : page = ((direntRecords inode path entries).drop cookie).take page.length := by
    rw [hpage]
    exact direntPage_prefix room _
  have hpos : 0 < page.length := List.length_pos_iff.mpr hne
  obtain ⟨record, hlast⟩ : ∃ record, page[page.length - 1]? = some record :=
    ⟨_, List.getElem?_eq_getElem (Nat.sub_lt hpos Nat.one_pos)⟩
  have hwhere : (direntRecords inode path entries)[cookie + (page.length - 1)]? = some record := by
    have hget := hlast
    rw [htake, List.getElem?_take, List.length_take, List.getElem?_drop] at hget
    split at hget
    case isTrue hlt =>
      rw [← hget]
      congr 2
      have hlen := congrArg List.length htake
      rw [List.length_take] at hlen
      omega
    case isFalse => cases hget
  rw [nextCookie, List.getLast?_eq_getElem?, hlast, Option.map_some, Option.getD_some, direntRecords_next inode path entries hwhere]
  omega

/-- From a cookie on, the guest ends up with all records behind it. -/
theorem listDirents_from (hunchanging : Unchanging ns I path entries)
    (hlong : ∀ record ∈ direntRecords inode path entries, record.size ≤ bufLen.toInt.toNat) (hcount : entries.length + 2 < 2 ^ 63) {fuel cookie : Nat}
    (hcookie : cookie ≤ (direntRecords inode path entries).length) (hfuel : (direntRecords inode path entries).length - cookie < fuel)
    {w : WasiCaller σ η} {mem : Bytes} (hpath : w.fdPath fd = some path) (hI : I w.ns) (hmemory : w.memory = some mem)
    (hbuffer : DirBuffer mem bufPtr bufLen usedPtr) (hroom : direntHeadSize ≤ bufLen.toInt.toNat) :
    ∃ w' mem', listDirents ns inode fd bufPtr bufLen usedPtr fuel cookie w = some ((direntRecords inode path entries).drop cookie, w') ∧
      w'.memory = some mem' ∧
      ∀ i, ¬ Covers (bufPtr.toInt.toNat, bufLen.toInt.toNat) i → ¬ Covers (usedPtr.toInt.toNat, 4) i → mem'[i]? = mem[i]? := by
  have htotal := direntRecords_length inode path entries
  have hsmall : ∀ record ∈ (direntRecords inode path entries), record.Small := by
    intro record hrecord
    obtain ⟨i, hi⟩ := List.getElem?_of_mem hrecord
    have hlt := (List.getElem?_eq_some_iff.mp hi).1
    have hnext := direntRecords_next inode path entries hi
    have hsize : direntHeadSize + record.name.length ≤ bufLen.toInt.toNat := hlong record hrecord
    have hmax := bufLen.toInt_lt
    exact ⟨by omega, by omega⟩
  induction fuel generalizing cookie w mem with
  | zero => omega
  | succ fuel ih =>
    generalize hrecords : (direntRecords inode path entries).drop cookie = records
    have hsmall' : ∀ record ∈ records, record.Small := by
      intro record hrecord
      rw [← hrecords] at hrecord
      exact hsmall record (List.mem_of_mem_drop hrecord)
    obtain ⟨s, hcall, hs⟩ := @fdReaddir_eq σ η ns I path entries inode fd bufPtr bufLen usedPtr w mem hunchanging hpath hI hmemory hbuffer cookie
      (by omega)
    rw [hrecords] at hcall
    obtain ⟨hused, hparse, hlen, hframe⟩ := reply_eq hbuffer hsmall'
    generalize hafter : put (put mem bufPtr.toInt.toNat (direntWritten bufLen.toInt.toNat records)) usedPtr.toInt.toNat
      (leBytes 4 (replyUsed bufLen.toInt.toNat records)) = after at hcall hused hparse hlen hframe
    have hstep : listDirents ns inode fd bufPtr bufLen usedPtr (fuel + 1) cookie w =
        if replyUsed bufLen.toInt.toNat records < bufLen.toInt.toNat then
          some (direntPage bufLen.toInt.toNat records, { w with ns := s, memory := some after })
        else
          (listDirents ns inode fd bufPtr bufLen usedPtr fuel (nextCookie cookie (direntPage bufLen.toInt.toNat records))
            { w with ns := s, memory := some after }).map fun rest => (direntPage bufLen.toInt.toNat records ++ rest.1, rest.2) := by
      rw [listDirents]
      dsimp only
      rw [hcall]
      dsimp only
      rw [Option.getD_some, hused, hparse]
      rfl
    rw [hstep]
    by_cases hdone : replyUsed bufLen.toInt.toNat records < bufLen.toInt.toNat
    · have hall : direntPage bufLen.toInt.toNat records = records := by
        by_contra hne
        rw [replyUsed, if_neg hne] at hdone
        exact Nat.lt_irrefl _ hdone
      rw [if_pos hdone, hall]
      exact ⟨_, after, rfl, rfl, hframe⟩
    · -- the buffer counts as used, so it took at least one record
      have hne : direntPage bufLen.toInt.toNat records ≠ [] := by
        intro hnil
        cases hfirst : records with
        | nil =>
          rw [hfirst] at hdone
          have hzero : replyUsed bufLen.toInt.toNat [] = 0 := rfl
          rw [hzero] at hdone
          unfold direntHeadSize at hroom
          omega
        | cons record rest =>
          have hfits : record.size ≤ bufLen.toInt.toNat := by
            apply hlong
            apply List.mem_of_mem_drop (i := cookie)
            rw [hrecords, hfirst]
            exact List.mem_cons_self
          rw [hfirst, direntPage_of_fits hfits] at hnil
          cases hnil
      have hpos : 0 < (direntPage bufLen.toInt.toNat records).length := List.length_pos_iff.mpr hne
      have htake := direntPage_prefix bufLen.toInt.toNat records
      have hle : (direntPage bufLen.toInt.toNat records).length ≤ records.length := by
        have hlength := congrArg List.length htake
        rw [List.length_take] at hlength
        omega
      have hleft : records.length = (direntRecords inode path entries).length - cookie := by rw [← hrecords, List.length_drop]
      have hnext : nextCookie cookie (direntPage bufLen.toInt.toNat records) = cookie + (direntPage bufLen.toInt.toNat records).length :=
        nextCookie_page (by rw [hrecords]) hne
      have hbuffer' : DirBuffer after bufPtr bufLen usedPtr := by
        refine ⟨hbuffer.length, ?_, ?_, hbuffer.apart⟩
        · rw [InGuest, hlen]
          exact hbuffer.buffer
        · rw [InGuest, hlen]
          exact hbuffer.used
      obtain ⟨w', mem', hrest, hmemory', hframe'⟩ := @ih (cookie + (direntPage bufLen.toInt.toNat records).length) (by omega) (by omega)
        { w with ns := s, memory := some after } after hpath hs rfl hbuffer'
      refine ⟨w', mem', ?_, hmemory', fun i hbuf hused => (hframe' i hbuf hused).trans (hframe i hbuf hused)⟩
      rw [if_neg hdone, hnext, hrest, Option.map_some, ← List.drop_drop, hrecords]
      dsimp only
      conv_lhs => rw [htake]
      rw [List.length_take, Nat.min_eq_left hle, List.take_append_drop]

/-- A guest that lists a directory which does not change, with a buffer that has room for each record,
ends up with the directory itself, its parent and every entry, once each and in order; only its
buffer and its word are written. -/
theorem listDirents_exact (hunchanging : Unchanging ns I path entries)
    (hlong : ∀ name ∈ "." :: ".." :: entries.map DirEntry.name, 24 + (utf8Bytes name).length ≤ bufLen.toInt.toNat)
    (hcount : entries.length + 2 < 2 ^ 63) {w : WasiCaller σ η} {mem : Bytes} (hpath : w.fdPath fd = some path) (hI : I w.ns)
    (hmemory : w.memory = some mem) (hbuffer : DirBuffer mem bufPtr bufLen usedPtr) :
    ∃ records w' mem', listDirents ns inode fd bufPtr bufLen usedPtr (entries.length + 3) 0 w = some (records, w') ∧
      records.map (fun record => (record.name, record.type)) =
        (utf8Bytes ".", 3) :: (utf8Bytes "..", 3) :: entries.map (fun entry => (utf8Bytes entry.name, filetype entry.metadata.mode)) ∧
      w'.memory = some mem' ∧
      ∀ i, ¬ Covers (bufPtr.toInt.toNat, bufLen.toInt.toNat) i → ¬ Covers (usedPtr.toInt.toNat, 4) i → mem'[i]? = mem[i]? := by
  have hsize : ∀ record ∈ direntRecords inode path entries, record.size ≤ bufLen.toInt.toNat := by
    intro record hrecord
    have hname : (record.name, record.type) ∈ (direntRecords inode path entries).map fun record => (record.name, record.type) :=
      List.mem_map_of_mem hrecord
    rw [direntRecords_names] at hname
    simp only [List.mem_cons, List.mem_map, Prod.mk.injEq] at hname
    show 24 + record.name.length ≤ bufLen.toInt.toNat
    rcases hname with ⟨hname, -⟩ | ⟨hname, -⟩ | ⟨entry, hentry, hname, -⟩
    · rw [hname]
      exact hlong "." (by simp)
    · rw [hname]
      exact hlong ".." (by simp)
    · rw [← hname]
      apply hlong
      simp only [List.mem_cons, List.mem_map]
      exact Or.inr (Or.inr ⟨entry, hentry, rfl⟩)
  have hroom : direntHeadSize ≤ bufLen.toInt.toNat := by
    have hdot := hlong "." (by simp)
    unfold direntHeadSize
    omega
  have htotal := direntRecords_length inode path entries
  obtain ⟨w', mem', hrun, hmemory', hframe⟩ := @listDirents_from σ η ns I path entries inode fd bufPtr bufLen usedPtr hunchanging hsize hcount
    (entries.length + 3) 0 (Nat.zero_le _) (by omega) w mem hpath hI hmemory hbuffer hroom
  exact ⟨_, w', mem', hrun, direntRecords_names inode path entries, hmemory', hframe⟩

end

/-- A directory of the in-memory file system answers alike as long as nothing is changed. -/
theorem memFs_unchanging {fs : MemFs} {p : String} {i : NodeId} (hp : validPath p = true) (hi : fs.nodes[p]? = some i)
    (hdir : (fs.heap i).metadata.isDir = true) (hlink : (fs.heap i).metadata.mode.isSymlink = false) :
    Unchanging memFs (fun s => s = fs) p (fs.listing p) where
  stat := by
    rintro s rfl
    refine ⟨(s.heap i).metadata, s, ?_, hdir, rfl⟩
    show MemFs.stat _ p s = _
    rw [MemFs.stat, Prog.reads_apply, MemFs.statAt, hp]
    simp only [Bool.not_true, Bool.false_eq_true, if_false, cleanPath_of_valid hp, hi, hlink, Bool.and_false]
  readDir := by
    rintro s rfl
    exact ⟨s, MemFs.readDir_of_dirNode hp hi hdir hlink, rfl⟩

/-- A directory `d` with the file `f`. -/
def listedFs : MemFs := (MemFs.create "d/f" (MemFs.mkdir "d" (FileMode.dir ||| FileMode.fromPerm 0o755) (MemFs.new fun _ => 0)).2).2

def listGuest : WasiCaller MemFs MemFile where
  ns := listedFs
  files := (∅ : Std.ExtTreeMap Nat (OpenFile MemFile)).insert 3 ⟨.dir (DirFile.new (Metadata.dir "d" 0o755) []), "d"⟩
  nextFd := 4
  memory := some (List.replicate 64 0)

theorem listGuest_buffer : DirBuffer (List.replicate 64 0) 0 32 40 :=
  ⟨by decide, ⟨by decide, by decide, by decide⟩, ⟨by decide, by decide, by decide⟩, separate_of_le (by decide)⟩

theorem listDirents_exact_listGuest :
    ∃ records w' mem', listDirents memFs (fun _ => 1) 3 0 32 40 ((listedFs.listing "d").length + 3) 0 listGuest = some (records, w') ∧
      records.map (fun record => (record.name, record.type)) = (utf8Bytes ".", 3) :: (utf8Bytes "..", 3) ::
        (listedFs.listing "d").map (fun entry => (utf8Bytes entry.name, filetype entry.metadata.mode)) ∧
      w'.memory = some mem' ∧ ∀ i, ¬ Covers (0, 32) i → ¬ Covers (40, 4) i → mem'[i]? = (List.replicate 64 (0 : UInt8))[i]? := by
  have hnode : listedFs.nodes["d"]? = some 1 := by decide +kernel
  have hunchanging := memFs_unchanging (by decide +kernel) hnode (by decide +kernel) (by decide +kernel)
  exact @listDirents_exact MemFs MemFile memFs (fun s => s = listedFs) "d" (listedFs.listing "d") (fun _ => 1) 3 0 32 40 hunchanging
    (by decide +kernel) (by decide +kernel) listGuest (List.replicate 64 0) (by rfl) rfl rfl listGuest_buffer

end Wasi
end Star9
