import Lidis.KvsSync
import Lidis.Resp

namespace Lidis.Control

/-- One recv on a stream whose bytes arrive in the given pieces: it returns at most `size` bytes, of the first piece
only, and what it leaves of that piece is the next one. No piece is a return value of 0 or less. -/
def recv (size : ℕ) : List Bytes → Bytes × List Bytes
  | [] => ([], [])
  | piece :: pieces => (piece.take size, if piece.length ≤ size then pieces else piece.drop size :: pieces)

/-- `accepted` is the return value of send. The second component is what the peer's stream gets. -/
def kvsSendSingleCommand (sockfd : ℤ) (cmd : Option CString) (alloc : Bool) (accepted : ℤ) : Option (ℤ × Bytes) :=
  match cmd with
  | none => some (-1, [])
  | some cmd =>
    if sockfd < 0 then some (-1, [])
    else do
      match ← Kvsp.kvsBuildKvspFrame [cmd] alloc with
      | none => some (-2, [])
      | some sendMsg =>
        if accepted ≠ sendMsg.length then some (-2, sendMsg.take accepted.toNat) else some (0, sendMsg)

/-- What the call makes of the bytes that its one recv stored in `buf`; `error` is a negative return value. -/
def parseReceived (buf received : Bytes) : Option (Except ℤ (List CString)) :=
  if received.length = 0 then some (.error (-2))
  -- the number of bytes, an ssize_t, becomes an int on its way to the length parser
  else if toInt received.length ≤ 0 then some (.error (-2))
  else
    match Kvsp.kvspParseBulkSize (received.take (toInt received.length).toNat) with
    | .error _ => some (.error (-2))
    | .more => some (.error (-2))
    | .frame total head =>
      match Kvsp.splitToken (received ++ buf.drop received.length) head total with
      | none => some (.error (-2))
      | some (buf, tokens) => do
        let tokens ← tokens.mapM (CString.read buf)
        some (.ok tokens)

def kvsRecvSingleCommand (sockfd : ℤ) (buf : Bytes) (pieces : List Bytes) :
    Option (Except ℤ (List CString) × List Bytes) :=
  if sockfd < 0 ∨ buf.length = 0 then some (.error (-1), pieces)
  else
    (parseReceived buf (recv buf.length pieces).1).map (fun answer => (answer, (recv buf.length pieces).2))

theorem recv_append (size : ℕ) (pieces : List Bytes) :
    (recv size pieces).1 ++ (recv size pieces).2.flatten = pieces.flatten := by
  cases pieces with
  | nil => rfl
  | cons piece pieces =>
    simp only [recv, List.flatten_cons]
    split_ifs with h
    · rw [List.take_of_length_le h]
    · rw [List.flatten_cons, ← List.append_assoc, List.take_append_drop]

theorem parseReceived_frame {ts : List CString} (buf : Bytes) (hmax : ts.length ≤ maxTokens)
    (hint : (Kvsp.frameOf ts).length ≤ intMax) : parseReceived buf (Kvsp.frameOf ts) = some (.ok ts) := by
  have hpos : 0 < (Kvsp.frameOf ts).length := by
    rw [Kvsp.frameOf_length, Kvsp.headOf_length]
    omega
  have hparse := Kvsp.parse_frame [] hint
  rw [List.append_nil] at hparse
  obtain ⟨mem, tokens, hsplit, hread, -⟩ := Kvsp.splitToken_frame (buf.drop (Kvsp.frameOf ts).length) hmax hint
  rw [parseReceived, if_neg (by omega), toInt_of_le hint, if_neg (by omega), Int.toNat_natCast, List.take_length,
    hparse]
  simp only [hsplit, hread, bind, Option.bind]

theorem parseReceived_cut {ts : List CString} {p q : Bytes} (buf : Bytes) (hint : (Kvsp.frameOf ts).length ≤ intMax)
    (hpq : p ++ q = Kvsp.frameOf ts) (hq : q ≠ []) : parseReceived buf p = some (.error (-2)) := by
  by_cases hp : p = []
  · rw [hp, parseReceived, if_pos List.length_nil]
  have hlen : p.length ≤ intMax := by
    rw [← hpq, List.length_append] at hint
    omega
  have hpos := List.length_pos_iff.mpr hp
  rw [parseReceived, if_neg (by omega), toInt_of_le hlen, if_neg (by omega), Int.toNat_natCast, List.take_length,
    Kvsp.parse_cut hint hpq hp hq]

theorem sent_frame {sockfd accepted : ℤ} {cmd : CString} {alloc : Bool} {frame : Bytes}
    (h : kvsSendSingleCommand sockfd cmd alloc accepted = some (0, frame)) :
    frame = Kvsp.frameOf [cmd] ∧ frame.length ≤ intMax := by
  simp only [kvsSendSingleCommand] at h
  split_ifs at h
  · simp at h
  obtain ⟨built, hbuilt, h⟩ := Option.bind_eq_some_iff.mp h
  cases built with
  | none => simp at h
  | some sendMsg =>
    obtain ⟨rfl, -, hlt⟩ := Kvsp.buildKvspFrame_some hbuilt
    dsimp only at h
    split_ifs at h
    · simp at h
    · obtain ⟨-, rfl⟩ := Prod.ext_iff.mp (Option.some.inj h)
      exact ⟨rfl, hlt.le⟩

theorem recv_first (size : ℕ) (pieces : List Bytes) : (recv size pieces).1 = (pieces.headD []).take size := by
  cases pieces with
  | nil => exact List.take_nil.symm
  | cons piece pieces => rfl

theorem recvSingleCommand_eq {sockfd : ℤ} {buf : Bytes} (pieces : List Bytes) (hfd : 0 ≤ sockfd) (hbuf : 0 < buf.length) :
    kvsRecvSingleCommand sockfd buf pieces =
      (parseReceived buf ((pieces.headD []).take buf.length)).map
        (fun answer => (answer, (recv buf.length pieces).2)) := by
  rw [kvsRecvSingleCommand, if_neg (by omega), recv_first]

/-- The bytes that recv took are all that the stream has lost, so nothing is dropped exactly when they are the frame. -/
theorem recv_exact {sockfd : ℤ} {buf frame following : Bytes} {pieces rest : List Bytes}
    {answer : Except ℤ (List CString)} (hfd : 0 ≤ sockfd) (hbuf : 0 < buf.length)
    (hpieces : pieces.flatten = frame ++ following)
    (h : kvsRecvSingleCommand sockfd buf pieces = some (answer, rest)) :
    rest.flatten = following ↔ (pieces.headD []).take buf.length = frame := by
  have hrecv := recv_append buf.length pieces
  rw [recv_first, hpieces] at hrecv
  rw [recvSingleCommand_eq pieces hfd hbuf] at h
  obtain ⟨answer', -, h⟩ := Option.map_eq_some_iff.mp h
  obtain ⟨-, rfl⟩ := Prod.ext_iff.mp h
  constructor
  · intro hrest
    rw [hrest] at hrecv
    exact List.append_cancel_right hrecv
  · intro hfirst
    rw [hfirst] at hrecv
    exact List.append_cancel_left hrecv

theorem control_message_received_iff (cmd : CString) (sendfd accepted recvfd : ℤ) (alloc : Bool)
    (frame following buf : Bytes) (pieces : List Bytes)
    (hsend : kvsSendSingleCommand sendfd cmd alloc accepted = some (0, frame)) (hfd : 0 ≤ recvfd)
    (hfit : frame.length ≤ buf.length) (hpieces : pieces.flatten = frame ++ following) :
    (∃ tokens rest, kvsRecvSingleCommand recvfd buf pieces = some (.ok (cmd :: tokens), rest) ∧
        rest.flatten = following) ↔
      (pieces.headD []).take buf.length = frame := by
  obtain ⟨rfl, hint⟩ := sent_frame hsend
  have hbuf : 0 < buf.length := by
    rw [Kvsp.frameOf_length, Kvsp.headOf_length] at hfit
    omega
  constructor
  · rintro ⟨tokens, rest, h, hrest⟩
    exact (recv_exact hfd hbuf hpieces h).mp hrest
  · intro hfirst
    have h := recvSingleCommand_eq pieces hfd hbuf
    rw [hfirst, parseReceived_frame buf (by simp [maxTokens]) hint, Option.map_some] at h
    exact ⟨[], _, h, (recv_exact hfd hbuf hpieces h).mpr hfirst⟩

def handshakeBuffer : Bytes := List.replicate syncBufferSize 0

theorem handshakeBuffer_length : handshakeBuffer.length = 1024 := List.length_replicate

def noFile : Bytes := Kvsp.frameOf [masterFullsyncOk 0]

theorem noFile_length : noFile.length = 24 := by decide +kernel

theorem noFile_sent : kvsSendSingleCommand 4 (masterFullsyncOk 0) true 24 = some (0, noFile) := by decide +kernel

theorem control_message_received_whole :
    ∃ tokens rest, kvsRecvSingleCommand 3 handshakeBuffer [noFile, [35]] = some (.ok (masterFullsyncOk 0 :: tokens), rest) ∧
      rest.flatten = [35] := by
  refine (control_message_received_iff _ 4 24 3 true _ [35] _ _ noFile_sent (by decide) ?_ rfl).mpr ?_
  · rw [noFile_length, handshakeBuffer_length]
    decide
  · exact List.take_of_length_le (by rw [handshakeBuffer_length, List.headD_cons, noFile_length]; decide)

/-- In two pieces the frame is refused; joined with the byte that follows it, that byte is dropped. -/
theorem control_message_cut_or_joined :
    kvsSendSingleCommand 4 (masterFullsyncOk 0) true 24 = some (0, noFile) ∧ noFile.length ≤ handshakeBuffer.length ∧
    (¬ ∃ tokens rest, kvsRecvSingleCommand 3 handshakeBuffer [noFile.take 10, noFile.drop 10] =
        some (.ok (masterFullsyncOk 0 :: tokens), rest) ∧ rest.flatten = []) ∧
    ¬ ∃ tokens rest, kvsRecvSingleCommand 3 handshakeBuffer [noFile ++ [35]] =
        some (.ok (masterFullsyncOk 0 :: tokens), rest) ∧ rest.flatten = [35] := by
  have hbuf : 0 < handshakeBuffer.length := by
    rw [handshakeBuffer_length]
    decide
  refine ⟨noFile_sent, by rw [noFile_length, handshakeBuffer_length]; decide, ?_, ?_⟩
  · rintro ⟨tokens, rest, h, -⟩
    have hq : noFile.drop 10 ≠ [] := by
      intro hnil
      have := congrArg List.length hnil
      rw [List.length_drop, noFile_length] at this
      exact absurd this (by decide)
    have hcut : parseReceived handshakeBuffer (noFile.take 10) = some (.error (-2)) :=
      parseReceived_cut _ (noFile_length.le.trans (by decide)) (List.take_append_drop 10 noFile) hq
    rw [recvSingleCommand_eq _ (by decide) hbuf, List.headD_cons, List.take_take, handshakeBuffer_length,
      show min 1024 10 = 10 from rfl, hcut] at h
    simp at h
  · rintro ⟨tokens, rest, h, hrest⟩
    have hjoined : [noFile ++ [35]].flatten = noFile ++ [35] := List.flatten_singleton
    have hlong := (recv_exact (by decide) hbuf hjoined h).mp hrest
    rw [handshakeBuffer_length, List.headD_cons, List.take_of_length_le (by simp [noFile_length])] at hlong
    simp at hlong

/-- Apart from the stream, which it does not follow, the slave's and the master's handshakes are modelled on this call. -/
theorem recvSingleCommand_handshake {sockfd : ℤ} (pieces : List Bytes) (hfd : 0 ≤ sockfd) (h : pieces.headD [] ≠ []) :
    (kvsRecvSingleCommand sockfd handshakeBuffer pieces).map Prod.fst =
      (Lidis.kvsRecvSingleCommand (some (pieces.headD []))).map (fun answer => answer.elim (.error (-2)) .ok) := by
  have hbuf : 0 < handshakeBuffer.length := by
    rw [handshakeBuffer_length]
    decide
  rw [recvSingleCommand_eq pieces hfd hbuf, Option.map_map, handshakeBuffer_length]
  generalize pieces.headD [] = bytes at h
  have hpos : (bytes.take 1024).length ≠ 0 := by
    have := List.length_pos_iff.mpr h
    simp only [List.length_take]
    omega
  have hle : (bytes.take 1024).length ≤ intMax := (List.length_take_le _ _).trans (by decide)
  have hdrop : handshakeBuffer.drop (bytes.take 1024).length = List.replicate (syncBufferSize - bytes.length) 0 := by
    rw [handshakeBuffer, List.drop_replicate, List.length_take]
    congr 1
    simp only [syncBufferSize]
    omega
  rw [parseReceived, if_neg hpos, toInt_of_le hle, if_neg (by omega), Int.toNat_natCast, List.take_length, hdrop]
  simp only [Lidis.kvsRecvSingleCommand]
  rw [show syncBufferSize = 1024 from rfl]
  cases hparse : Kvsp.kvspParseBulkSize (bytes.take 1024) with
  | error e => rfl
  | more => rfl
  | frame total head =>
    dsimp only
    cases Kvsp.splitToken (bytes.take 1024 ++ List.replicate (1024 - bytes.length) 0) head total with
    | none => rfl
    | some p => cases htok : p.2.mapM (CString.read p.1) <;> simp [htok]

end Lidis.Control
