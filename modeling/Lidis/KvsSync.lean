import Lidis.SnapshotLoad

namespace Lidis

open Engine Store

def syncBufferSize : ℕ := 1024

def kvsSyncRetError : ℤ := -100

def kvsSyncRetBusy : ℤ := -101

def masterFullsyncBusy : CString := .lit "FULLSYNC BUSY"

def masterFullsyncError : CString := .lit "FULLSYNC ERROR"

def masterFullsyncOk (fileSize : ℕ) : CString where
  bytes := ascii "FULLSYNC OK " ++ decimal fileSize
  nul_free := by
    intro h
    rcases List.mem_append.mp h with h | h
    · exact absurd h (by decide)
    · exact absurd (decimal_digits fileSize 0 h) (by decide)

/-- `received` is what the one recv call brought, `none` when it brought nothing. The outer `none` is a read outside
the buffer, the inner one a negative return. -/
def kvsRecvSingleCommand (received : Option Bytes) : Option (Option (List CString)) :=
  match received with
  | none => some none
  | some bytes =>
    match Kvsp.kvspParseBulkSize (bytes.take syncBufferSize) with
    | .error _ => some none
    | .more => some none
    | .frame total head =>
      let buf := bytes.take syncBufferSize ++ List.replicate (syncBufferSize - bytes.length) 0
      match Kvsp.splitToken buf head total with
      | none => some none
      | some (buf, tokens) => do
        let tokens ← tokens.mapM (CString.read buf)
        some (some tokens)

/-- What the slave meets during one full sync: whether SYNC and READY are sent whole, the master's answer, how sscanf
reads it against "FULLSYNC OK %zu", the memory for the file, what the recv calls bring before one of them brings
nothing, and the outcomes of the load. -/
structure SyncEnv where
  request : Bool
  reply : Option Bytes
  sscanf : CString → Option ℕ
  buffer : Bool
  ready : Bool
  chunks : List Bytes
  load : FileEnv
  sys : ℕ → Sys

def kvsSlaveObtainFileSize (env : SyncEnv) : Option ℤ :=
  if ¬ env.request then some (-2)
  else do
    match ← kvsRecvSingleCommand env.reply with
    | none => some (-2)
    | some [] => none
    | some (command :: _) =>
      if command = masterFullsyncBusy then some kvsSyncRetBusy
      else if command = masterFullsyncError then some kvsSyncRetError
      else
        match env.sscanf command with
        | none => some kvsSyncRetError
        | some fileSize => if 2 ^ 63 - 1 < fileSize then some kvsSyncRetError else some (fileSize : ℤ)

def recvFile (fileSize : ℕ) : List Bytes → Bytes → Bytes
  | [], buf => buf
  | chunk :: chunks, buf =>
    if fileSize ≤ buf.length then buf
    else if chunk = [] then buf
    else recvFile fileSize chunks (buf ++ chunk.take (fileSize - buf.length))

def kvsSlaveObtainFile (env : SyncEnv) (fileSize : ℕ) : Option Bytes :=
  if ¬ env.buffer then none
  else if ¬ env.ready then none
  else
    let buf := recvFile fileSize env.chunks []
    if buf.length < fileSize then none else some buf

def kvsSlaveFullSync (P : Params) (env : SyncEnv) (s : Store) : Option (ℤ × Store) := do
  let fileSize ← kvsSlaveObtainFileSize env
  if fileSize = kvsSyncRetBusy then some (kvsSyncRetBusy, s)
  else if fileSize = kvsSyncRetError then some (kvsSyncRetError, s)
  else if fileSize = 0 then some (0, s)
  else if fileSize < 0 then some (-2, s)
  else
    match kvsSlaveObtainFile env fileSize.toNat with
    | none => some (-3, s)
    | some buf => do
      let (code, s) ← kvsFileRead (kvsSaveHandler P env.sys) env.load buf s
      if code ≠ 0 then some (-3, s) else some (0, s)

structure SyncEnv.Delivers (env : SyncEnv) (file : Bytes) : Prop where
  request : env.request = true
  reply : env.reply = some (Kvsp.frameOf [masterFullsyncOk file.length])
  sscanf : env.sscanf (masterFullsyncOk file.length) = some file.length
  buffer : env.buffer = true
  ready : env.ready = true
  chunks : env.chunks.flatten = file
  nonempty : ∀ chunk ∈ env.chunks, chunk ≠ []
  load : env.load.Granted
  sys : ∀ i, (env.sys i).AllocOk

theorem recvFile_all {fileSize : ℕ} (chunks : List Bytes) (buf : Bytes) (h : (buf ++ chunks.flatten).length = fileSize)
    (hne : ∀ chunk ∈ chunks, chunk ≠ []) : recvFile fileSize chunks buf = buf ++ chunks.flatten := by
  induction chunks generalizing buf with
  | nil => rw [recvFile, List.flatten_nil, List.append_nil]
  | cons chunk chunks ih =>
    have hc := hne chunk List.mem_cons_self
    have hpos : 0 < chunk.length := List.length_pos_iff.mpr hc
    simp only [List.flatten_cons, List.length_append] at h
    have htake : chunk.take (fileSize - buf.length) = chunk := List.take_of_length_le (by omega)
    rw [recvFile, if_neg (by omega), if_neg hc, htake, ih, List.flatten_cons, List.append_assoc]
    · simp only [List.length_append]
      omega
    · intro d hd
      exact hne d (List.mem_cons_of_mem chunk hd)

theorem masterFullsyncOk_frame {n : ℕ} (h : n < 2 ^ 31) : (Kvsp.frameOf [masterFullsyncOk n]).length ≤ 40 := by
  have h1 : (decimal n).length ≤ 10 := decimal_length_le (by omega) (by norm_num)
  have hlen : (masterFullsyncOk n).length = (decimal n).length + 12 := by
    simp only [CString.length, masterFullsyncOk, List.length_append]
    rw [show (ascii "FULLSYNC OK ").length = 12 by decide, Nat.add_comm]
  have h2 : (decimal (masterFullsyncOk n).length).length ≤ 2 := decimal_length_le (by omega) (by norm_num)
  have hbody : (Kvsp.body [masterFullsyncOk n]).length ≤ 28 := by
    rw [Kvsp.body_length]
    simp only [List.map_cons, List.map_nil, List.sum_cons, List.sum_nil, Kvsp.item_length]
    omega
  have h3 : (decimal (Kvsp.body [masterFullsyncOk n]).length).length ≤ 2 := decimal_length_le (by omega) (by norm_num)
  rw [Kvsp.frameOf_length, Kvsp.headOf_length]
  omega

theorem recvSingleCommand_frame {ts : List CString} (hmax : ts.length ≤ maxTokens)
    (hl : (Kvsp.frameOf ts).length ≤ syncBufferSize) : kvsRecvSingleCommand (some (Kvsp.frameOf ts)) = some (some ts) := by
  have hint : (Kvsp.frameOf ts).length ≤ intMax := hl.trans (by decide)
  have htake : (Kvsp.frameOf ts).take syncBufferSize = Kvsp.frameOf ts := List.take_of_length_le hl
  have hparse := Kvsp.parse_frame [] hint
  rw [List.append_nil] at hparse
  obtain ⟨mem, tokens, hsplit, hread, -⟩ :=
    Kvsp.splitToken_frame (List.replicate (syncBufferSize - (Kvsp.frameOf ts).length) 0) hmax hint
  simp only [kvsRecvSingleCommand, htake, hparse, hsplit, hread, bind, Option.bind]

theorem obtainFileSize_delivered {env : SyncEnv} {file : Bytes} (h : env.Delivers file) (hsize : file.length < 2 ^ 31) :
    kvsSlaveObtainFileSize env = some (file.length : ℤ) := by
  have hframe := masterFullsyncOk_frame hsize
  have hrecv : kvsRecvSingleCommand env.reply = some (some [masterFullsyncOk file.length]) := by
    rw [h.reply]
    exact recvSingleCommand_frame (by simp [maxTokens]) (hframe.trans (by decide))
  have hbusy : masterFullsyncOk file.length ≠ masterFullsyncBusy := by
    intro he
    have := congrArg (fun s : CString => s.bytes[9]?) he
    simp [masterFullsyncOk, masterFullsyncBusy, CString.lit, CString.prefixOf, ascii] at this
  have herror : masterFullsyncOk file.length ≠ masterFullsyncError := by
    intro he
    have := congrArg (fun s : CString => s.bytes[9]?) he
    simp [masterFullsyncOk, masterFullsyncError, CString.lit, CString.prefixOf, ascii] at this
  simp only [kvsSlaveObtainFileSize, h.request, not_true_eq_false, ↓reduceIte, hrecv, bind, Option.bind, hbusy, herror,
    h.sscanf]
  rw [if_neg (by omega)]

theorem slaveFullSync_delivered {P : Params} {env : SyncEnv} {file : Bytes} {s s' : Store} (h : env.Delivers file)
    (hsize : file.length < 2 ^ 31)
    (hread : file ≠ [] → kvsFileRead (kvsSaveHandler P env.sys) env.load file s = some (0, s'))
    (hempty : file = [] → s' = s) : kvsSlaveFullSync P env s = some (0, s') := by
  have hfile : kvsSlaveObtainFile env file.length = some file := by
    have hrecv := recvFile_all env.chunks [] (by rw [List.nil_append, h.chunks]) h.nonempty
    rw [List.nil_append, h.chunks] at hrecv
    simp only [kvsSlaveObtainFile, h.buffer, h.ready, not_true_eq_false, ↓reduceIte, hrecv, lt_irrefl]
  simp only [kvsSlaveFullSync, obtainFileSize_delivered h hsize, bind, Option.bind]
  rw [if_neg (by simp only [kvsSyncRetBusy]; omega), if_neg (by simp only [kvsSyncRetError]; omega)]
  by_cases hnil : file = []
  · rw [hempty hnil, hnil]
    rfl
  · have hpos : 0 < file.length := List.length_pos_iff.mpr hnil
    rw [if_neg (by omega), if_neg (by omega), Int.toNat_natCast, hfile]
    simp only [hread hnil, ne_eq, not_true_eq_false, ↓reduceIte]

def scanFileSize (command : CString) : Option ℕ :=
  if command.bytes.take 12 = ascii "FULLSYNC OK " then
    some (valueFrom 0 ((command.bytes.drop 12).takeWhile isDigit))
  else none

theorem scanFileSize_ok (n : ℕ) : scanFileSize (masterFullsyncOk n) = some n := by
  have hlen : (ascii "FULLSYNC OK ").length = 12 := by decide
  have htake : (ascii "FULLSYNC OK " ++ decimal n).take 12 = ascii "FULLSYNC OK " := by
    rw [← hlen]
    exact List.take_left
  have hdrop : (ascii "FULLSYNC OK " ++ decimal n).drop 12 = decimal n := by
    rw [← hlen]
    exact List.drop_left
  have hdigits : (decimal n).takeWhile isDigit = decimal n := List.takeWhile_eq_self_iff.mpr (decimal_digits n)
  simp only [scanFileSize, masterFullsyncOk, htake, ↓reduceIte, hdrop, hdigits, valueFrom_decimal]

def SyncEnv.delivering (file : Bytes) : SyncEnv where
  request := true
  reply := some (Kvsp.frameOf [masterFullsyncOk file.length])
  sscanf := scanFileSize
  buffer := true
  ready := true
  chunks := if file = [] then [] else [file]
  load := .granted
  sys := fun _ => .granted

theorem SyncEnv.delivering_delivers (file : Bytes) : (SyncEnv.delivering file).Delivers file where
  request := rfl
  reply := rfl
  sscanf := scanFileSize_ok _
  buffer := rfl
  ready := rfl
  chunks := by
    by_cases h : file = [] <;> simp [SyncEnv.delivering, h]
  nonempty := by
    by_cases h : file = [] <;> simp [SyncEnv.delivering, h]
  load := FileEnv.granted_granted
  sys := fun _ => Sys.granted_allocOk

end Lidis
