import Lidis.Lib.ByteOrder
import Lidis.Lib.Decimal

namespace Lidis.Rdma

/-- On a little-endian host. -/
def htobe64 (x : UInt64) : UInt64 := .ofNat (mirror 256 8 x.toNat)

def be64toh (x : UInt64) : UInt64 := .ofNat (mirror 256 8 x.toNat)

def htonl (x : UInt32) : UInt32 := .ofNat (mirror 256 4 x.toNat)

def ntohl (x : UInt32) : UInt32 := .ofNat (mirror 256 4 x.toNat)

structure Pdata where
  bufSize : UInt64
  raddr : UInt64
  rkey : UInt32
  deriving DecidableEq

/-- What rdma_server stores in its private data; htonl takes 32 bits of the size and gives 32 bits back. -/
def serverData (size raddr : UInt64) (rkey : UInt32) : Pdata where
  bufSize := (htonl size.toUInt32).toUInt64
  raddr := htobe64 raddr
  rkey := htonl rkey

def remoteBufSize (d : Pdata) : UInt64 := be64toh d.bufSize

def remoteAddr (d : Pdata) : UInt64 := be64toh d.raddr

def remoteRkey (d : Pdata) : UInt32 := ntohl d.rkey

def msgLength : ℕ := 32

def ibvWcSuccess : ℕ := 0

/-- One call of ibv_poll_cq: its return value and, if that is positive, the status it stores in wc. -/
structure Poll where
  ret : ℤ
  status : ℕ
  deriving DecidableEq

def Poll.store (p : Poll) (wc : ℕ) : ℕ := if 0 < p.ret then p.status else wc

inductive Polled where
  | failed
  | left (wc : ℕ) (polls : List Poll)

/-- `none` is a loop that is still polling when the given results are used up. -/
def pollLoop : List Poll → ℕ → Option Polled
  | [], _ => none
  | p :: polls, wc =>
    if p.ret = 0 then
      -- the test for an error stands in the body, which runs only for the return value 0
      if p.ret < 0 ∨ p.store wc ≠ ibvWcSuccess then some .failed else pollLoop polls (p.store wc)
    else some (.left (p.store wc) polls)

inductive Request where
  | write (size raddr : UInt64) (rkey : UInt32)
  | send (msg : Bytes)
  deriving DecidableEq

/-- snprintf into the zeroed message buffer. -/
def message (text : Bytes) : Bytes := text ++ List.replicate (msgLength - text.length) 0

def refusal : Bytes := message (ascii "buffer size is not enough\n")

/-- The outcomes of the library calls, true for success, what the server's private data is if there is any of the
expected length, and the results of ibv_poll_cq in order. -/
structure ClientEnv where
  arguments : Bool
  getaddrinfo : Bool
  createEp : Bool
  regMr : Bool
  regSendMr : Bool
  connect : Bool
  privateData : Option Pdata
  postWrite : Bool
  postSend : Bool
  polls : List Poll

/-- `ret` is `none` while the function is still polling; `posted` are the work requests it handed to the library. -/
structure ClientRun where
  ret : Option ℤ
  posted : List Request

def transfer (env : ClientEnv) (write notification : Request) : ClientRun :=
  if env.postWrite = false then ⟨some (-2), [write]⟩
  else
    match pollLoop env.polls ibvWcSuccess with
    | none => ⟨none, [write]⟩
    | some .failed => ⟨some (-3), [write]⟩
    | some (.left wc polls) =>
      if env.postSend = false then ⟨some (-2), [write, notification]⟩
      else
        -- wc is not cleared between the two loops
        match pollLoop polls wc with
        | none => ⟨none, [write, notification]⟩
        | some .failed => ⟨some (-3), [write, notification]⟩
        | some (.left _ _) => ⟨some 0, [write, notification]⟩

/-- The client up to the server's private data; `error` is its return value. -/
def clientSetup (size : UInt64) (env : ClientEnv) : Except ℤ Pdata :=
  if env.arguments = false ∨ size = 0 then .error (-1)
  else if env.getaddrinfo = false then .error (-2)
  else if env.createEp = false then .error (-2)
  else if env.regMr = false then .error (-2)
  else if env.regSendMr = false then .error (-2)
  else if env.connect = false then .error (-2)
  else
    match env.privateData with
    | none => .error (-3)
    | some d => .ok d

def rdmaClient (size : UInt64) (env : ClientEnv) : ClientRun :=
  match clientSetup size env with
  | .error code => ⟨some code, []⟩
  | .ok d =>
    if remoteBufSize d < size then
      if env.postSend = false then ⟨some (-2), [.send refusal]⟩
      else ⟨(pollLoop env.polls ibvWcSuccess).map (fun _ => -3), [.send refusal]⟩
    else transfer env (.write size (remoteAddr d) (remoteRkey d)) (.send (message (decimal size.toNat)))

def ssizeMax : ℕ := 2 ^ 63 - 1

/-- The digits of the notification: the size so far and the characters the loop stops at. -/
def readSize (fileSize : ℕ) : Bytes → ℕ × Bytes
  | [] => (fileSize, [])
  | c :: rest =>
    if isDigit c then
      if (ssizeMax - digitValue c) / 10 < fileSize then (fileSize, c :: rest)
      else readSize (fileSize * 10 + digitValue c) rest
    else (fileSize, c :: rest)

/-- `ready` is the READY command sent to the master, `regMr` the rkey of the registered buffer, `notify` what
notify_msg holds when the polling is over. -/
structure ServerEnv where
  arguments : Bool
  getaddrinfo : Bool
  createEp : Bool
  listen : Bool
  ready : Bool
  getRequest : Bool
  regMr : Option UInt32
  regRecvMr : Bool
  postRecv : Bool
  accept : Bool
  polls : List Poll
  notify : Bytes

structure ServerRun where
  ret : Option ℤ
  published : Option Pdata

def notified (notify : Bytes) : ℤ :=
  let msg := (notify.take msgLength).takeWhile (fun c => c ≠ 0)
  if (readSize 0 msg).1 ≤ 0 ∨ (readSize 0 msg).2 ≠ [] then -4 else (readSize 0 msg).1

/-- The server up to the registered memory and the posted receive; it gives the key of its buffer. -/
def serverSetup (size : UInt64) (env : ServerEnv) : Except ℤ UInt32 :=
  if env.arguments = false ∨ size = 0 then .error (-1)
  else if env.getaddrinfo = false then .error (-2)
  else if env.createEp = false then .error (-2)
  else if env.listen = false then .error (-2)
  else if env.ready = false then .error (-2)
  else if env.getRequest = false then .error (-2)
  else
    match env.regMr with
    | none => .error (-2)
    | some rkey =>
      if env.regRecvMr = false then .error (-2)
      else if env.postRecv = false then .error (-2)
      else .ok rkey

def rdmaServer (rdmaBuf size : UInt64) (env : ServerEnv) : ServerRun :=
  match serverSetup size env with
  | .error code => ⟨some code, none⟩
  | .ok rkey =>
    if env.accept = false then ⟨some (-2), some (serverData size rdmaBuf rkey)⟩
    else
      match pollLoop env.polls ibvWcSuccess with
      | none => ⟨none, some (serverData size rdmaBuf rkey)⟩
      | some .failed => ⟨some (-3), some (serverData size rdmaBuf rkey)⟩
      | some (.left _ _) => ⟨some (notified env.notify), some (serverData size rdmaBuf rkey)⟩

theorem htobe64_round_trip (x : UInt64) : be64toh (htobe64 x) = x := by
  have h : mirror 256 8 x.toNat < 2 ^ 64 := mirror_lt (by decide) 8 x.toNat
  have hx : x.toNat % 256 ^ 8 = x.toNat := Nat.mod_eq_of_lt x.toNat_lt
  rw [be64toh, htobe64, UInt64.toNat_ofNat_of_lt' h, mirror_mirror (by decide), hx, UInt64.ofNat_toNat]

theorem htonl_round_trip (x : UInt32) : ntohl (htonl x) = x := by
  have h : mirror 256 4 x.toNat < 2 ^ 32 := mirror_lt (by decide) 4 x.toNat
  have hx : x.toNat % 256 ^ 4 = x.toNat := Nat.mod_eq_of_lt x.toNat_lt
  rw [ntohl, htonl, UInt32.toNat_ofNat_of_lt' h, mirror_mirror (by decide), hx, UInt32.ofNat_toNat]

/-- The client finds the low 32 bits of the size in the high half of what it decodes. -/
theorem remoteBufSize_serverData (size raddr : UInt64) (rkey : UInt32) :
    (remoteBufSize (serverData size raddr rkey)).toNat = size.toNat % 2 ^ 32 * 2 ^ 32 := by
  have h32 : mirror 256 4 (size.toNat % 2 ^ 32) < 256 ^ 4 := mirror_lt (by decide) 4 _
  have hpub : (serverData size raddr rkey).bufSize.toNat = mirror 256 4 (size.toNat % 2 ^ 32) := by
    rw [serverData, htonl, UInt32.toNat_toUInt64, UInt64.toNat_toUInt32, UInt32.toNat_ofNat_of_lt' h32]
  have hdec : mirror 256 8 (mirror 256 4 (size.toNat % 2 ^ 32)) = size.toNat % 2 ^ 32 * 2 ^ 32 := by
    rw [show 8 = 4 + 4 from rfl, mirror_of_lt 4 h32, mirror_mirror (by decide)]
    exact congrArg (· * 2 ^ 32) (Nat.mod_mod _ _)
  rw [remoteBufSize, be64toh, hpub, hdec, UInt64.toNat_ofNat_of_lt']
  have := Nat.mod_lt size.toNat (show 0 < 2 ^ 32 by decide)
  simp only [UInt64.size]
  omega

structure ClientEnv.Connected (env : ClientEnv) (d : Pdata) : Prop where
  arguments : env.arguments = true
  getaddrinfo : env.getaddrinfo = true
  createEp : env.createEp = true
  regMr : env.regMr = true
  regSendMr : env.regSendMr = true
  connect : env.connect = true
  privateData : env.privateData = some d

theorem ite_error_eq_ok {α : Type} {c : Prop} [Decidable c] {code : ℤ} {x : Except ℤ α} {a : α} :
    (if c then .error code else x) = .ok a ↔ ¬ c ∧ x = .ok a := by
  by_cases hc : c
  · simp [hc]
  · simp [hc]

theorem clientSetup_ok_iff {size : UInt64} {env : ClientEnv} {d : Pdata} :
    clientSetup size env = .ok d ↔ env.Connected d ∧ size ≠ 0 := by
  rw [clientSetup]
  simp only [ite_error_eq_ok, not_or, Bool.not_eq_false]
  constructor
  · rintro ⟨⟨harguments, h0⟩, hgetaddrinfo, hcreateEp, hregMr, hregSendMr, hconnect, h⟩
    cases hd : env.privateData with
    | none => simp [hd] at h
    | some d' =>
      obtain rfl : d' = d := by simpa [hd] using h
      exact ⟨⟨harguments, hgetaddrinfo, hcreateEp, hregMr, hregSendMr, hconnect, hd⟩, h0⟩
  · rintro ⟨h, h0⟩
    rw [h.privateData]
    exact ⟨⟨h.arguments, h0⟩, h.getaddrinfo, h.createEp, h.regMr, h.regSendMr, h.connect, rfl⟩

theorem rdmaClient_refused {env : ClientEnv} {d : Pdata} {size : UInt64} (h : clientSetup size env = .ok d)
    (hsize : remoteBufSize d < size) :
    rdmaClient size env = ⟨if env.postSend = false then some (-2)
      else (pollLoop env.polls ibvWcSuccess).map (fun _ => -3), [.send refusal]⟩ := by
  rw [rdmaClient, h]
  dsimp only
  rw [if_pos hsize]
  split_ifs <;> rfl

theorem rdmaClient_transfer {env : ClientEnv} {d : Pdata} {size : UInt64} (h : clientSetup size env = .ok d)
    (hsize : ¬ remoteBufSize d < size) :
    rdmaClient size env =
      transfer env (.write size (remoteAddr d) (remoteRkey d)) (.send (message (decimal size.toNat))) := by
  rw [rdmaClient, h]
  exact if_neg hsize

theorem posted_of_transfer (env : ClientEnv) (write notification : Request) :
    ∀ r ∈ (transfer env write notification).posted, r = write ∨ r = notification := by
  intro r hr
  rw [transfer] at hr
  split at hr
  · exact Or.inl (List.mem_singleton.mp hr)
  split at hr
  · exact Or.inl (List.mem_singleton.mp hr)
  · exact Or.inl (List.mem_singleton.mp hr)
  split at hr
  · simpa using hr
  split at hr <;> simpa using hr

theorem notification_ne_refusal (n : ℕ) : message (decimal n) ≠ refusal := by
  intro h
  cases hd : decimal n with
  | nil => exact decimal_ne_nil n hd
  | cons c ds =>
    have hc := decimal_digits n c (hd ▸ List.mem_cons_self)
    have hb : refusal.head? = some 98 := by decide +kernel
    rw [← h, hd, message, List.cons_append, List.head?_cons] at hb
    rw [Option.some.inj hb] at hc
    exact absurd hc (by decide)

theorem refuses_iff {env : ClientEnv} {d : Pdata} (size : UInt64) (h : env.Connected d) :
    Request.send refusal ∈ (rdmaClient size env).posted ↔ remoteBufSize d < size := by
  by_cases h0 : size = 0
  · subst h0
    simp [rdmaClient, clientSetup, UInt64.lt_iff_toNat_lt]
  have hok := clientSetup_ok_iff.mpr ⟨h, h0⟩
  by_cases hsize : remoteBufSize d < size
  · simp [rdmaClient_refused hok hsize, hsize]
  · rw [rdmaClient_transfer hok hsize]
    refine iff_of_false ?_ hsize
    -- of the two requests the notification is the one that could be mistaken for the refusal
    intro hmem
    rcases posted_of_transfer env _ _ _ hmem with hr | hr
    · exact Request.noConfusion hr
    · exact notification_ne_refusal _ (Request.send.inj hr).symm

/-- The guard goes wrong in two ways: a snapshot that does not fit is written, and one that fits is refused. -/
theorem guard_right_iff {env : ClientEnv} (size raddr snapshot : UInt64) (rkey : UInt32)
    (h : env.Connected (serverData size raddr rkey)) :
    (Request.send refusal ∈ (rdmaClient snapshot env).posted ↔ size < snapshot) ↔
      ¬ (size.toNat < snapshot.toNat ∧ snapshot.toNat ≤ size.toNat % 2 ^ 32 * 2 ^ 32) ∧
      ¬ (size.toNat % 2 ^ 32 * 2 ^ 32 < snapshot.toNat ∧ snapshot.toNat ≤ size.toNat) := by
  rw [refuses_iff snapshot h, UInt64.lt_iff_toNat_lt, UInt64.lt_iff_toNat_lt, remoteBufSize_serverData]
  omega

theorem remoteBufSize_eq_iff (size raddr : UInt64) (rkey : UInt32) :
    remoteBufSize (serverData size raddr rkey) = size ↔ size = 0 := by
  have hlt := size.toNat_lt
  rw [← UInt64.toNat_inj, ← UInt64.toNat_inj, remoteBufSize_serverData, UInt64.toNat_zero]
  omega

theorem size_negotiation_iff (size raddr snapshot : UInt64) (rkey : UInt32) (env : ClientEnv)
    (h : env.Connected (serverData size raddr rkey)) :
    (remoteBufSize (serverData size raddr rkey) = size ∧ remoteAddr (serverData size raddr rkey) = raddr ∧
        remoteRkey (serverData size raddr rkey) = rkey ∧
        (Request.send refusal ∈ (rdmaClient snapshot env).posted ↔ size < snapshot)) ↔
      size = 0 := by
  rw [remoteBufSize_eq_iff]
  constructor
  · rintro ⟨hzero, -⟩
    exact hzero
  · rintro rfl
    refine ⟨rfl, htobe64_round_trip raddr, htonl_round_trip rkey, ?_⟩
    rw [refuses_iff snapshot h, (remoteBufSize_eq_iff 0 raddr rkey).mpr rfl]

def clientOf (d : Pdata) (polls : List Poll) : ClientEnv :=
  ⟨true, true, true, true, true, true, some d, true, true, polls⟩

def serverOf (polls : List Poll) (notify : Bytes) : ServerEnv :=
  ⟨true, true, true, true, true, true, some 7, true, true, true, polls, notify⟩

theorem clientOf_connected (d : Pdata) (polls : List Poll) : (clientOf d polls).Connected d :=
  ⟨rfl, rfl, rfl, rfl, rfl, rfl, rfl⟩

theorem size_negotiation_zero :
    remoteBufSize (serverData 0 4096 7) = 0 ∧ remoteAddr (serverData 0 4096 7) = 4096 ∧
      remoteRkey (serverData 0 4096 7) = 7 ∧
      (Request.send refusal ∈ (rdmaClient 5 (clientOf (serverData 0 4096 7) [])).posted ↔ (0 : UInt64) < 5) :=
  (size_negotiation_iff 0 4096 5 7 _ (clientOf_connected _ _)).mpr rfl

/-- A buffer of one mebibyte is taken for one of 2^52 bytes, and a snapshot twice its size is written into it. -/
theorem larger_snapshot_is_written :
    (rdmaServer 4096 0x100000 (serverOf [] [])).published = some (serverData 0x100000 4096 7) ∧
    remoteBufSize (serverData 0x100000 4096 7) = 0x10000000000000 ∧
    (clientOf (serverData 0x100000 4096 7) []).Connected (serverData 0x100000 4096 7) ∧
    ¬ (Request.send refusal ∈ (rdmaClient 0x200000 (clientOf (serverData 0x100000 4096 7) [])).posted ↔
        (0x100000 : UInt64) < 0x200000) ∧
    Request.write 0x200000 4096 7 ∈ (rdmaClient 0x200000 (clientOf (serverData 0x100000 4096 7) [])).posted := by
  refine ⟨by decide +kernel, by decide +kernel, clientOf_connected _ _, ?_, by decide +kernel⟩
  rw [guard_right_iff _ _ _ _ (clientOf_connected _ _)]
  decide +kernel

end Lidis.Rdma
