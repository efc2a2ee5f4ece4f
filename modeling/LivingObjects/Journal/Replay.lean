/-
  LivingObjects.Journal.Replay — the durable log: replay.

  `txn_log_replay` reads the log file frame by frame.  A short read ends the
  replay with success (a torn tail), as does a body whose checksum does not
  match; a wrong magic word, an impossible count or an entry whose object lies
  outside the used part of the heap ends it with failure, the entries before it
  already applied.  `malloc` and the reads themselves do not fail here.

  The reader and the append of `Journal.Append` form a `FrameCodec`, so the
  general facts about cut logs apply to it.
-/
import LivingObjects.Journal.Append
import LivingObjects.ObjectMemory.Pages
import LivingObjects.Lib.FramedLog

namespace LivingObjects.Journal

open LivingObjects.Lib
open LivingObjects.VM
open LivingObjects.ObjectMemory

/-! ## §1. The replay as the source writes it. -/

/-- The heap a replay writes to: its bytes and the page tables that record the
writes. -/
structure ReplayHeap where
  mem : Mem
  oms : List Om

/-- One iteration of the entry loop on the three words of an entry. -/
def replayEntry (heapStart heapUsed : Nat) (objectOffset fieldIndex word : UInt64)
    (s : ReplayHeap) : Bool × ReplayHeap :=
  let value := decodeDurableLogValue word heapStart heapUsed
  if heapUsed ≤ objectOffset.toNat then (false, s)
  else
    let object := wrap64 (heapStart + objectOffset.toNat)
    if fieldIndex >>> 63 ≠ 0 then
      let byteIndex := (fieldIndex &&& ~~~byteFieldMarker).toNat
      (true,
        { mem := store8 s.mem (wrap64 (objFieldAddr object 0 + byteIndex)) (untagSmallintByte value)
          oms := markRegistered s.oms object (fun om => omMarkByteDirty om object byteIndex) })
    else
      (true,
        { mem := store64 s.mem (wrap64 (objFieldAddr object fieldIndex.toNat)) value
          oms := markRegistered s.oms object
            (fun om => omMarkFieldDirty om object fieldIndex.toNat) })

/-- The entry loop over the body words of one frame. -/
def replayEntries (heapStart heapUsed : Nat) : List UInt64 → ReplayHeap → Bool × ReplayHeap
  | objectOffset :: fieldIndex :: word :: rest, s =>
    match replayEntry heapStart heapUsed objectOffset fieldIndex word s with
    | (true, s') => replayEntries heapStart heapUsed rest s'
    | (false, s') => (false, s')
  | _, s => (true, s)

/-- The frame loop on the rest of the file.  Every turn consumes a header, so
the fuel `txnLogReplay` gives is never used up (`txnLogReplay_eq`). -/
def replayLoop (heapStart heapUsed : Nat) : Nat → List UInt8 → ReplayHeap → Bool × ReplayHeap
  | 0, _, s => (false, s)
  | fuel + 1, file, s =>
    let readHeader := min 3 (file.length / 8)
    if readHeader = 0 then (true, s)
    else if readHeader ≠ 3 then (true, s)
    else
      let header := takeWords 3 file
      let rest := file.drop 24
      if header.getD 0 0 ≠ durableTxnFrameMagic then (false, s)
      else
        let count := (header.getD 1 0).toNat
        if (2 ^ 64 - 1) / 24 < count then (false, s)
        else if count = 0 then replayLoop heapStart heapUsed fuel rest s
        else if min (count * 3) (rest.length / 8) ≠ count * 3 then (true, s)
        else
          let body := takeWords (count * 3) rest
          if durableTxnChecksum body ≠ header.getD 2 0 then (true, s)
          else
            match replayEntries heapStart heapUsed body s with
            | (true, s') =>
              replayLoop heapStart heapUsed fuel (rest.drop (8 * (count * 3))) s'
            | (false, s') => (false, s')

/-- `txn_log_replay`; `none` is an absent log file. -/
def txnLogReplay (heapStart heapUsed : Nat) (file : Option (List UInt8)) (s : ReplayHeap) :
    Bool × ReplayHeap :=
  match file with
  | none => (true, s)
  | some file => replayLoop heapStart heapUsed (file.length + 1) file s

/-! ## §2. The replay as a frame reader. -/

/-- One header and body off the front of the file, as body words. -/
def readFrame (file : List UInt8) : FrameRead (List UInt64) UInt8 :=
  if file.length < 8 then .ended
  else if file.length < 24 then .torn
  else
    let header := takeWords 3 file
    let rest := file.drop 24
    let count := (header.getD 1 0).toNat
    if header.getD 0 0 ≠ durableTxnFrameMagic ∨ (2 ^ 64 - 1) / 24 < count then .corrupt
    else if count = 0 then .frame [] rest
    else if rest.length / 8 < count * 3 then .torn
    else
      let body := takeWords (count * 3) rest
      if durableTxnChecksum body ≠ header.getD 2 0 then .torn
      else .frame body (rest.drop (8 * (count * 3)))

/-- The source's loop is the general one over `readFrame`. -/
theorem replayLoop_eq (heapStart heapUsed : Nat) (fuel : Nat) (file : List UInt8)
    (s : ReplayHeap) :
    replayLoop heapStart heapUsed fuel file s
      = replayFrames readFrame (replayEntries heapStart heapUsed) fuel file s := by
  induction fuel generalizing file s with
  | zero => rfl
  | succ fuel ih =>
    rw [replayLoop, replayFrames]
    unfold readFrame
    simp only
    by_cases h8 : file.length < 8
    · rw [if_pos (by omega), if_pos h8]
    · rw [if_neg (by omega), if_neg h8]
      by_cases h24 : file.length < 24
      · rw [if_pos (by omega), if_pos h24]
      · rw [if_neg (by omega), if_neg h24]
        generalize hcount : ((takeWords 3 file).getD 1 0).toNat = count
        by_cases hmagic : (takeWords 3 file).getD 0 0 ≠ durableTxnFrameMagic
        · rw [if_pos hmagic, if_pos (.inl hmagic)]
        · rw [if_neg hmagic]
          by_cases hmax : (2 ^ 64 - 1) / 24 < count
          · rw [if_pos hmax, if_pos (.inr hmax)]
          · rw [if_neg hmax, if_neg (not_or.mpr ⟨hmagic, hmax⟩)]
            by_cases hzero : count = 0
            · rw [if_pos hzero, if_pos hzero, ih]
              rfl
            · rw [if_neg hzero, if_neg hzero]
              by_cases hshort : (file.drop 24).length / 8 < count * 3
              · rw [if_pos (by omega), if_pos hshort]
              · rw [if_neg (by omega), if_neg hshort]
                by_cases hsum : durableTxnChecksum (takeWords (count * 3) (file.drop 24))
                    ≠ (takeWords 3 file).getD 2 0
                · rw [if_pos hsum, if_pos hsum]
                · rw [if_neg hsum, if_neg hsum]
                  simp only
                  rcases replayEntries heapStart heapUsed (takeWords (count * 3) (file.drop 24)) s
                    with ⟨ok, s'⟩
                  cases ok with
                  | true => exact ih _ s'
                  | false => rfl

/-- Every frame read takes at least its header off the file. -/
theorem readFrame_consumes (file : List UInt8) (body : List UInt64) (rest : List UInt8)
    (h : readFrame file = .frame body rest) : rest.length < file.length := by
  unfold readFrame at h
  split at h
  · cases h
  split at h
  · cases h
  simp only at h
  split at h
  · cases h
  split at h
  · cases h
    rw [List.length_drop]
    omega
  split at h
  · cases h
  split at h
  · cases h
  · cases h
    rw [List.length_drop, List.length_drop]
    omega

/-- The replay in general form; any fuel beyond the file's length gives it. -/
theorem txnLogReplay_eq (heapStart heapUsed : Nat) (file : List UInt8) (s : ReplayHeap)
    {fuel : Nat} (hfuel : file.length < fuel) :
    txnLogReplay heapStart heapUsed (some file) s
      = replayFrames readFrame (replayEntries heapStart heapUsed) fuel file s := by
  rw [txnLogReplay, replayLoop_eq]
  exact replayFrames_fuel _ readFrame_consumes _ _ file s (by omega) hfuel

/-- An absent log file replays like an empty one. -/
theorem txnLogReplay_getD (heapStart heapUsed : Nat) (file : Option (List UInt8))
    (s : ReplayHeap) :
    txnLogReplay heapStart heapUsed file s
      = txnLogReplay heapStart heapUsed (some (file.getD [])) s := by
  cases file <;> rfl

/-- Reading back a frame that an append wrote. -/
theorem readFrame_frameBytes_append (heapStart heapLimit : Nat) (log : TxnLog)
    (rest : List UInt8) :
    readFrame (frameBytes heapStart heapLimit log ++ rest)
      = .frame (bodyWords heapStart heapLimit log) rest := by
  have hmem := log.inMemory
  have hlen := frameBytes_length heapStart heapLimit log
  have hheader : takeWords 3 (frameBytes heapStart heapLimit log ++ rest)
      = headerWords heapStart heapLimit log := by
    unfold frameBytes
    rw [List.append_assoc]
    exact takeWords_wordsBytes (headerWords heapStart heapLimit log) _
  have hdrop : (frameBytes heapStart heapLimit log ++ rest).drop 24
      = wordsBytes (bodyWords heapStart heapLimit log) ++ rest := by
    unfold frameBytes
    rw [List.append_assoc]
    exact List.drop_left' (headerBytes_length heapStart heapLimit log)
  have hcount : (UInt64.ofNat log.entries.length).toNat = log.entries.length :=
    UInt64.toNat_ofNat_of_lt' (by simp only [UInt64.size]; omega)
  have hbody : (wordsBytes (bodyWords heapStart heapLimit log)).length
      = 8 * (log.entries.length * 3) := by
    rw [wordsBytes_length, bodyWords_length]
    omega
  unfold readFrame
  rw [List.length_append, hlen, if_neg (by omega), if_neg (by omega)]
  simp only [hheader, hdrop, headerWords, List.getD_cons_zero, List.getD_cons_succ, hcount]
  rw [if_neg (by simp only [ne_eq, not_true_eq_false, false_or]; omega)]
  by_cases hzero : log.entries.length = 0
  · have hnil : log.entries = [] := List.length_eq_zero_iff.mp hzero
    rw [if_pos hzero]
    simp [bodyWords, hnil]
  · have htake : takeWords (log.entries.length * 3)
        (wordsBytes (bodyWords heapStart heapLimit log) ++ rest)
        = bodyWords heapStart heapLimit log := by
      have h3 := bodyWords_length heapStart heapLimit log
      rw [show log.entries.length * 3 = (bodyWords heapStart heapLimit log).length by omega]
      exact takeWords_wordsBytes _ rest
    rw [if_neg hzero, List.length_append, hbody, if_neg (by omega), htake,
        if_neg (by simp), List.drop_left' hbody]

/-- A frame cut anywhere reads as the end of the log. -/
theorem readFrame_cut (heapStart heapLimit : Nat) (log : TxnLog) (n : Nat)
    (hn : n < (frameBytes heapStart heapLimit log).length) :
    readFrame ((frameBytes heapStart heapLimit log).take n) = .ended ∨
      readFrame ((frameBytes heapStart heapLimit log).take n) = .torn := by
  have hmem := log.inMemory
  have hlen := frameBytes_length heapStart heapLimit log
  have htlen : ((frameBytes heapStart heapLimit log).take n).length = n := by
    rw [List.length_take]
    omega
  unfold readFrame
  rw [htlen]
  by_cases h8 : n < 8
  · exact .inl (by rw [if_pos h8])
  rw [if_neg h8]
  by_cases h24 : n < 24
  · exact .inr (by rw [if_pos h24])
  rw [if_neg h24]
  -- the header is whole, so the body is short
  have h24' := headerBytes_length heapStart heapLimit log
  have hsplit : (frameBytes heapStart heapLimit log).take n
      = wordsBytes (headerWords heapStart heapLimit log)
        ++ (wordsBytes (bodyWords heapStart heapLimit log)).take (n - 24) := by
    unfold frameBytes
    rw [List.take_append, h24', List.take_of_length_le (by omega)]
  have hheader : takeWords 3 ((frameBytes heapStart heapLimit log).take n)
      = headerWords heapStart heapLimit log := by
    rw [hsplit]
    exact takeWords_wordsBytes (headerWords heapStart heapLimit log) _
  have hcount : (UInt64.ofNat log.entries.length).toNat = log.entries.length :=
    UInt64.toNat_ofNat_of_lt' (by simp only [UInt64.size]; omega)
  refine .inr ?_
  simp only [hheader, headerWords, List.getD_cons_zero, List.getD_cons_succ, hcount,
    List.length_drop, htlen]
  rw [if_neg (by simp only [ne_eq, not_true_eq_false, false_or]; omega), if_neg (by omega),
      if_pos (by omega)]

/-- **The durable log is a self-delimiting frame format.** -/
theorem durableLogCodec (heapStart heapLimit : Nat) :
    FrameCodec readFrame (frameBytes heapStart heapLimit) (bodyWords heapStart heapLimit) :=
  ⟨rfl, readFrame_frameBytes_append heapStart heapLimit, readFrame_cut heapStart heapLimit⟩

end LivingObjects.Journal
