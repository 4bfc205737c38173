import Lidis.Lib.ListScan
import Lidis.RdmaCom

namespace Lidis.Rdma

def Poll.Succeeded (p : Poll) : Prop := 0 < p.ret ∧ p.status = ibvWcSuccess

instance (p : Poll) : Decidable p.Succeeded := inferInstanceAs (Decidable (_ ∧ _))

def Idle (polls : List Poll) : Prop := ∀ p ∈ polls, p.ret = 0

/-- The polls that do not come back empty: the first ends the first loop, the second the second one. -/
def terminals (polls : List Poll) : List Poll := polls.filter (fun p => p.ret ≠ 0)

theorem terminals_of_idle {before : List Poll} (h : Idle before) (p : Poll) (after : List Poll) (hp : p.ret ≠ 0) :
    terminals (before ++ p :: after) = p :: terminals after := by
  have hnil : before.filter (fun p => p.ret ≠ 0) = [] := by
    rw [List.filter_eq_nil_iff]
    intro q hq
    simp [h q hq]
  rw [terminals, List.filter_append, hnil, List.nil_append, List.filter_cons_of_pos (by simpa using hp), terminals]

theorem idle_or_split (polls : List Poll) :
    Idle polls ∨ ∃ before p after, polls = before ++ p :: after ∧ Idle before ∧ p.ret ≠ 0 := by
  rcases first_split (fun p : Poll => decide (p.ret ≠ 0)) polls with h | ⟨before, p, after, hpolls, hbefore, hp⟩
  · exact Or.inl (by simpa [Idle] using h)
  · exact Or.inr ⟨before, p, after, hpolls, by simpa [Idle] using hbefore, by simpa using hp⟩

theorem store_idle {p : Poll} (h : p.ret = 0) (wc : ℕ) : p.store wc = wc := if_neg (by omega)

theorem store_clear_iff {p : Poll} : p.store ibvWcSuccess ≠ ibvWcSuccess ↔ 0 < p.ret ∧ p.status ≠ ibvWcSuccess := by
  rw [Poll.store]
  split_ifs with h <;> simp [h]

theorem pollLoop_idle {polls : List Poll} (h : Idle polls) : pollLoop polls ibvWcSuccess = none := by
  induction polls with
  | nil => rfl
  | cons p polls ih =>
    obtain ⟨hp, hrest⟩ := List.forall_mem_cons.mp h
    rw [pollLoop, if_pos hp, store_idle hp, if_neg (by simp [hp]), ih hrest]

theorem pollLoop_clear {before : List Poll} (h : Idle before) {p : Poll} (after : List Poll) (hp : p.ret ≠ 0) :
    pollLoop (before ++ p :: after) ibvWcSuccess = some (.left (p.store ibvWcSuccess) after) := by
  induction before with
  | nil => rw [List.nil_append, pollLoop, if_neg hp]
  | cons q before ih =>
    obtain ⟨hq, hrest⟩ := List.forall_mem_cons.mp h
    rw [List.cons_append, pollLoop, if_pos hq, store_idle hq, if_neg (by simp [hq]), ih hrest]

/-- A loop entered with the failed status of an earlier completion looks at it only after an empty poll. -/
theorem pollLoop_stale {wc : ℕ} (hwc : wc ≠ ibvWcSuccess) {p : Poll} (polls : List Poll) :
    pollLoop (p :: polls) wc = some (if p.ret = 0 then .failed else .left (p.store wc) polls) := by
  rw [pollLoop]
  split_ifs with hp hs
  · rfl
  · exact absurd (Or.inr (by rwa [store_idle hp])) hs
  · rfl

/-- `w` and `n` are the polls that end the two loops of the client, `between` the empty ones the second loop starts with. -/
def Ends (polls between : List Poll) (w n : Poll) : Prop :=
  ∃ before after, polls = before ++ w :: (between ++ n :: after) ∧ Idle before ∧ Idle between ∧ w.ret ≠ 0 ∧ n.ret ≠ 0

theorem Ends.terminals_eq {polls between : List Poll} {w n : Poll} (h : Ends polls between w n) :
    ∃ after, terminals polls = w :: n :: after := by
  obtain ⟨before, after, rfl, hbefore, hbetween, hw, hn⟩ := h
  exact ⟨terminals after, by rw [terminals_of_idle hbefore w _ hw, terminals_of_idle hbetween n _ hn]⟩

theorem transfer_done {env : ClientEnv} {between : List Poll} {w n : Poll} (write notification : Request)
    (hwrite : env.postWrite = true) (hsend : env.postSend = true) (hends : Ends env.polls between w n)
    (h : w.store ibvWcSuccess = ibvWcSuccess ∨ between = []) : (transfer env write notification).ret = some 0 := by
  obtain ⟨before, after, hpolls, hbefore, hbetween, hw, hn⟩ := hends
  rw [transfer, if_neg (by simp [hwrite]), hpolls, pollLoop_clear hbefore _ hw]
  dsimp only
  rw [if_neg (by simp [hsend])]
  rcases h with hclear | rfl
  · rw [hclear, pollLoop_clear hbetween _ hn]
  · rw [List.nil_append, pollLoop, if_neg hn]

theorem transfer_done_of_ret {env : ClientEnv} {write notification : Request}
    (h : (transfer env write notification).ret = some 0) :
    env.postWrite = true ∧ env.postSend = true ∧ ∃ between w n, Ends env.polls between w n ∧
      (w.store ibvWcSuccess = ibvWcSuccess ∨ between = []) := by
  rw [transfer] at h
  cases hwrite : env.postWrite with
  | false => simp [hwrite] at h
  | true =>
    rw [if_neg (by simp [hwrite])] at h
    rcases idle_or_split env.polls with hidle | ⟨before, w, rest, hpolls, hbefore, hw⟩
    · simp [pollLoop_idle hidle] at h
    rw [hpolls, pollLoop_clear hbefore _ hw] at h
    dsimp only at h
    cases hsend : env.postSend with
    | false => simp [hsend] at h
    | true =>
      rw [if_neg (by simp [hsend])] at h
      refine ⟨rfl, rfl, ?_⟩
      by_cases hclear : w.store ibvWcSuccess = ibvWcSuccess
      · rw [hclear] at h
        rcases idle_or_split rest with hidle | ⟨between, n, after, rfl, hbetween, hn⟩
        · simp [pollLoop_idle hidle] at h
        · exact ⟨between, w, n, ⟨before, after, hpolls, hbefore, hbetween, hw, hn⟩, Or.inl hclear⟩
      · -- the status of a failed write is still in wc, and only an empty poll would show it
        cases rest with
        | nil => simp [pollLoop] at h
        | cons n after =>
          rw [pollLoop_stale hclear] at h
          by_cases hn : n.ret = 0
          · simp [hn] at h
          · exact ⟨[], w, n, ⟨before, after, hpolls, hbefore, by simp [Idle], hw, hn⟩, Or.inr rfl⟩

/-- The client gets as far as posting its two requests. -/
def Transfers (size : UInt64) (env : ClientEnv) : Prop :=
  ∃ d, env.Connected d ∧ size ≠ 0 ∧ size ≤ remoteBufSize d ∧ env.postWrite = true ∧ env.postSend = true

def FailsNegative {α : Type} (x : Except ℤ α) : Prop := ∀ code, x = .error code → code < 0

theorem FailsNegative.error {α : Type} {code : ℤ} (h : code < 0) : FailsNegative (.error code : Except ℤ α) := by
  intro code' he
  rwa [← Except.error.inj he]

theorem FailsNegative.ok {α : Type} (a : α) : FailsNegative (.ok a) := by
  intro code h
  cases h

theorem FailsNegative.guard {α : Type} {c : Prop} [Decidable c] {code : ℤ} {x : Except ℤ α} (h : code < 0)
    (hx : FailsNegative x) : FailsNegative (if c then .error code else x) := by
  split_ifs
  · exact .error h
  · exact hx

theorem clientSetup_error (size : UInt64) (env : ClientEnv) : FailsNegative (clientSetup size env) := by
  rw [clientSetup]
  iterate 6 apply FailsNegative.guard (by decide)
  cases env.privateData with
  | none => exact .error (by decide)
  | some d => exact .ok d

theorem rdmaClient_zero {size : UInt64} {env : ClientEnv} (h : (rdmaClient size env).ret = some 0) :
    Transfers size env ∧ ∃ between w n, Ends env.polls between w n ∧
      (w.store ibvWcSuccess = ibvWcSuccess ∨ between = []) := by
  cases hs : clientSetup size env with
  | error code =>
    have := clientSetup_error size env code hs
    rw [rdmaClient, hs] at h
    obtain rfl := Option.some.inj h
    omega
  | ok d =>
    obtain ⟨hconn, h0⟩ := clientSetup_ok_iff.mp hs
    by_cases hsize : remoteBufSize d < size
    · rw [rdmaClient_refused hs hsize] at h
      dsimp only at h
      split_ifs at h
      · simp at h
      · simp at h
    · rw [rdmaClient_transfer hs hsize] at h
      obtain ⟨hwrite, hsend, hends⟩ := transfer_done_of_ret h
      exact ⟨⟨d, hconn, h0, UInt64.not_lt.mp hsize, hwrite, hsend⟩, hends⟩

structure ServerEnv.Listening (env : ServerEnv) (rkey : UInt32) : Prop where
  arguments : env.arguments = true
  getaddrinfo : env.getaddrinfo = true
  createEp : env.createEp = true
  listen : env.listen = true
  ready : env.ready = true
  getRequest : env.getRequest = true
  regMr : env.regMr = some rkey
  regRecvMr : env.regRecvMr = true
  postRecv : env.postRecv = true

theorem serverSetup_ok_iff {size : UInt64} {env : ServerEnv} {rkey : UInt32} :
    serverSetup size env = .ok rkey ↔ env.Listening rkey ∧ size ≠ 0 := by
  rw [serverSetup]
  simp only [ite_error_eq_ok, not_or, Bool.not_eq_false]
  constructor
  · rintro ⟨⟨harguments, h0⟩, hgetaddrinfo, hcreateEp, hlisten, hready, hgetRequest, h⟩
    cases hk : env.regMr with
    | none => simp [hk] at h
    | some rkey' =>
      simp only [hk, ite_error_eq_ok, Bool.not_eq_false] at h
      obtain ⟨hregRecvMr, hpostRecv, hok⟩ := h
      obtain rfl := Except.ok.inj hok
      exact ⟨⟨harguments, hgetaddrinfo, hcreateEp, hlisten, hready, hgetRequest, hk, hregRecvMr, hpostRecv⟩, h0⟩
  · rintro ⟨h, h0⟩
    simp only [h.regMr, ite_error_eq_ok, Bool.not_eq_false]
    exact ⟨⟨h.arguments, h0⟩, h.getaddrinfo, h.createEp, h.listen, h.ready, h.getRequest, h.regRecvMr, h.postRecv, trivial⟩

theorem serverSetup_error (size : UInt64) (env : ServerEnv) : FailsNegative (serverSetup size env) := by
  rw [serverSetup]
  iterate 6 apply FailsNegative.guard (by decide)
  cases env.regMr with
  | none => exact .error (by decide)
  | some rkey =>
    apply FailsNegative.guard (by decide)
    apply FailsNegative.guard (by decide)
    exact .ok rkey

/-- The notification is a decimal number between 1 and SSIZE_MAX that ends at a NUL or at the end of the message. -/
def SizeMessage (notify : Bytes) : Prop :=
  let msg := (notify.take msgLength).takeWhile (fun c => c ≠ 0)
  (∀ c ∈ msg, isDigit c = true) ∧ 0 < valueFrom 0 msg ∧ valueFrom 0 msg ≤ ssizeMax

theorem readSize_all {fileSize : ℕ} {msg : Bytes} (hd : ∀ c ∈ msg, isDigit c = true)
    (h : valueFrom fileSize msg ≤ ssizeMax) : readSize fileSize msg = (valueFrom fileSize msg, []) := by
  induction msg generalizing fileSize with
  | nil => rfl
  | cons c msg ih =>
    obtain ⟨hc, hrest⟩ := List.forall_mem_cons.mp hd
    have hstep : valueFrom fileSize (c :: msg) = valueFrom (10 * fileSize + digitValue c) msg := rfl
    have hfits : 10 * fileSize + digitValue c ≤ ssizeMax := (le_valueFrom _ msg).trans h
    rw [readSize, if_pos hc, if_neg (room_of_fits hfits), Nat.mul_comm, ih hrest (hstep ▸ h), hstep]

theorem readSize_end {fileSize : ℕ} {msg : Bytes} (hle : fileSize ≤ ssizeMax) (h : (readSize fileSize msg).2 = []) :
    (∀ c ∈ msg, isDigit c = true) ∧ valueFrom fileSize msg ≤ ssizeMax := by
  induction msg generalizing fileSize with
  | nil => exact ⟨by simp, hle⟩
  | cons c msg ih =>
    rw [readSize] at h
    split_ifs at h with hc hroom
    · rw [Nat.mul_comm] at h
      obtain ⟨hd, hval⟩ := ih (fits_of_room (by decide) hc hroom) h
      exact ⟨List.forall_mem_cons.mpr ⟨hc, hd⟩, hval⟩

theorem notified_pos_iff (notify : Bytes) : 0 < notified notify ↔ SizeMessage notify := by
  simp only [notified, SizeMessage]
  generalize (notify.take msgLength).takeWhile (fun c => c ≠ 0) = msg
  constructor
  · intro h
    split_ifs at h with hbad
    · exact absurd h (by decide)
    rw [not_or, not_not] at hbad
    obtain ⟨hd, hle⟩ := readSize_end (Nat.zero_le _) hbad.2
    rw [readSize_all hd hle] at h
    exact ⟨hd, by exact_mod_cast h, hle⟩
  · rintro ⟨hd, hpos, hle⟩
    rw [readSize_all hd hle, if_neg]
    · exact_mod_cast hpos
    · simp only [ne_eq, not_true_eq_false, or_false]
      omega

theorem pollLoop_terminals (polls : List Poll) :
    pollLoop polls ibvWcSuccess = none ∧ terminals polls = [] ∨
      ∃ p wc after rest, pollLoop polls ibvWcSuccess = some (.left wc after) ∧ terminals polls = p :: rest := by
  rcases idle_or_split polls with hidle | ⟨before, p, after, rfl, hidle, hp⟩
  · refine Or.inl ⟨pollLoop_idle hidle, ?_⟩
    rw [terminals, List.filter_eq_nil_iff]
    intro q hq
    simp [hidle q hq]
  · exact Or.inr ⟨p, _, after, _, pollLoop_clear hidle after hp, terminals_of_idle hidle p after hp⟩

def Receives (size : UInt64) (env : ServerEnv) : Prop := (∃ rkey, env.Listening rkey) ∧ size ≠ 0 ∧ env.accept = true

theorem rdmaServer_pos_iff (rdmaBuf size : UInt64) (env : ServerEnv) :
    (∃ ret, (rdmaServer rdmaBuf size env).ret = some ret ∧ 0 < ret) ↔
      Receives size env ∧ SizeMessage env.notify ∧ terminals env.polls ≠ [] := by
  rw [← notified_pos_iff]
  cases hs : serverSetup size env with
  | error code =>
    have hcode := serverSetup_error size env code hs
    refine iff_of_false ?_ ?_
    · rintro ⟨ret, h, hpos⟩
      rw [rdmaServer, hs] at h
      obtain rfl := Option.some.inj h
      omega
    · rintro ⟨⟨⟨rkey, hl⟩, h0, -⟩, -⟩
      rw [serverSetup_ok_iff.mpr ⟨hl, h0⟩] at hs
      simp at hs
  | ok rkey =>
    obtain ⟨hl, h0⟩ := serverSetup_ok_iff.mp hs
    rw [rdmaServer, hs]
    dsimp only
    cases ha : env.accept with
    | false => simp [Receives, ha]
    | true =>
      rw [if_neg (by decide)]
      rcases pollLoop_terminals env.polls with ⟨hloop, hterm⟩ | ⟨p, wc, after, rest, hloop, hterm⟩
      · simp [hloop, hterm]
      · have hrec : Receives size env := ⟨⟨rkey, hl⟩, h0, ha⟩
        simp [hloop, hterm, hrec]

theorem transfer_errors_detected_iff (size rdmaBuf bufSize : UInt64) (client : ClientEnv) (server : ServerEnv) :
    (((rdmaClient size client).ret = some 0 →
        ∃ w n after, terminals client.polls = w :: n :: after ∧ w.Succeeded ∧ n.Succeeded) ↔
      (Transfers size client → ∀ between w n, Ends client.polls between w n →
        (w.Succeeded ∧ n.Succeeded) ∨ (0 < w.ret ∧ w.status ≠ ibvWcSuccess ∧ between ≠ []))) ∧
    ((∀ ret, (rdmaServer rdmaBuf bufSize server).ret = some ret → 0 < ret →
        ∃ p after, terminals server.polls = p :: after ∧ p.Succeeded) ↔
      (Receives bufSize server → SizeMessage server.notify → ∀ p ∈ (terminals server.polls).head?, p.Succeeded)) := by
  refine ⟨⟨?_, ?_⟩, ⟨?_, ?_⟩⟩
  · rintro hprop ⟨d, hconn, h0, hsize, hwrite, hsend⟩ between w n hends
    by_cases hseen : w.store ibvWcSuccess = ibvWcSuccess ∨ between = []
    · have hret : (rdmaClient size client).ret = some 0 := by
        rw [rdmaClient_transfer (clientSetup_ok_iff.mpr ⟨hconn, h0⟩) (UInt64.not_lt.mpr hsize)]
        exact transfer_done _ _ hwrite hsend hends hseen
      obtain ⟨w', n', after', hterm', hw, hn⟩ := hprop hret
      obtain ⟨after, hterm⟩ := hends.terminals_eq
      rw [hterm] at hterm'
      simp only [List.cons.injEq] at hterm'
      obtain ⟨rfl, rfl, -⟩ := hterm'
      exact Or.inl ⟨hw, hn⟩
    · rw [not_or, ← ne_eq, store_clear_iff] at hseen
      exact Or.inr ⟨hseen.1.1, hseen.1.2, hseen.2⟩
  · intro hcond hret
    obtain ⟨htransfers, between, w, n, hends, hseen⟩ := rdmaClient_zero hret
    obtain ⟨after, hterm⟩ := hends.terminals_eq
    rcases hcond htransfers between w n hends with ⟨hw, hn⟩ | ⟨hpos, hstatus, hne⟩
    · exact ⟨w, n, after, hterm, hw, hn⟩
    · rcases hseen with hclear | hnil
      · exact absurd hclear (store_clear_iff.mpr ⟨hpos, hstatus⟩)
      · exact absurd hnil hne
  · intro hprop hrec hmsg p hp
    have hne : terminals server.polls ≠ [] := by
      intro hnil
      simp [hnil] at hp
    obtain ⟨ret, hret, hpos⟩ := (rdmaServer_pos_iff rdmaBuf bufSize server).mpr ⟨hrec, hmsg, hne⟩
    obtain ⟨q, after, hterm, hq⟩ := hprop ret hret hpos
    rw [hterm] at hp
    obtain rfl : q = p := by simpa using hp
    exact hq
  · intro hcond ret hret hpos
    obtain ⟨hrec, hmsg, hne⟩ := (rdmaServer_pos_iff rdmaBuf bufSize server).mp ⟨ret, hret, hpos⟩
    cases hterm : terminals server.polls with
    | nil => exact absurd hterm hne
    | cons p after => exact ⟨p, after, rfl, hcond hrec hmsg p (by rw [hterm]; rfl)⟩

theorem transfer_errors_detected_polled :
    ((rdmaClient 5 (clientOf (serverData 1 4096 7) [⟨0, 0⟩, ⟨1, 0⟩, ⟨1, 0⟩])).ret = some 0 →
      ∃ w n after, terminals [⟨0, 0⟩, ⟨1, 0⟩, ⟨1, 0⟩] = w :: n :: after ∧ w.Succeeded ∧ n.Succeeded) ∧
    (∃ ret, (rdmaServer 4096 1 (serverOf [⟨0, 0⟩, ⟨1, 0⟩] (ascii "5"))).ret = some ret ∧ 0 < ret) ∧
    ∃ p after, terminals [⟨0, 0⟩, ⟨1, 0⟩] = p :: after ∧ p.Succeeded := by
  obtain ⟨hclient, hserver⟩ := transfer_errors_detected_iff 5 4096 1
    (clientOf (serverData 1 4096 7) [⟨0, 0⟩, ⟨1, 0⟩, ⟨1, 0⟩]) (serverOf [⟨0, 0⟩, ⟨1, 0⟩] (ascii "5"))
  refine ⟨hclient.mpr ?_, ⟨5, by decide +kernel, by decide⟩, hserver.mpr ?_ 5 (by decide +kernel) (by decide)⟩
  · intro _ between w n hends
    obtain ⟨after, hterm⟩ := hends.terminals_eq
    obtain ⟨rfl, rfl, -⟩ : ⟨1, 0⟩ = w ∧ ⟨1, 0⟩ = n ∧ [] = after := by simpa [terminals, clientOf] using hterm
    exact Or.inl ⟨by decide, by decide⟩
  · intro _ _ p hp
    obtain rfl : ⟨1, 0⟩ = p := by simpa [terminals, serverOf] using hp
    decide

/-- A write that failed with IBV_WC_RETRY_EXC_ERR (12) is reported as done, and so is one whose polls fail; the server
takes a failed poll for a receive. -/
theorem failed_transfer_is_reported_done :
    (¬ ((rdmaClient 5 (clientOf (serverData 1 4096 7) [⟨1, 12⟩, ⟨1, 0⟩])).ret = some 0 →
      ∃ w n after, terminals [⟨1, 12⟩, ⟨1, 0⟩] = w :: n :: after ∧ w.Succeeded ∧ n.Succeeded)) ∧
    (¬ ((rdmaClient 5 (clientOf (serverData 1 4096 7) [⟨-1, 0⟩, ⟨-1, 0⟩])).ret = some 0 →
      ∃ w n after, terminals [⟨-1, 0⟩, ⟨-1, 0⟩] = w :: n :: after ∧ w.Succeeded ∧ n.Succeeded)) ∧
    ¬ ∀ ret, (rdmaServer 4096 1 (serverOf [⟨-1, 0⟩] (ascii "5"))).ret = some ret → 0 < ret →
      ∃ p after, terminals [⟨-1, 0⟩] = p :: after ∧ p.Succeeded := by
  refine ⟨?_, ?_, ?_⟩
  · intro h
    obtain ⟨w, n, after, hterm, hw, -⟩ := h (by decide +kernel)
    obtain ⟨rfl, -⟩ : ⟨1, 12⟩ = w ∧ _ := by simpa [terminals] using hterm
    exact absurd hw (by decide)
  · intro h
    obtain ⟨w, n, after, hterm, hw, -⟩ := h (by decide +kernel)
    obtain ⟨rfl, -⟩ : ⟨-1, 0⟩ = w ∧ _ := by simpa [terminals] using hterm
    exact absurd hw (by decide)
  · intro h
    obtain ⟨p, after, hterm, hp⟩ := h 5 (by decide +kernel) (by decide)
    obtain ⟨rfl, -⟩ : ⟨-1, 0⟩ = p ∧ _ := by simpa [terminals] using hterm
    exact absurd hp (by decide)

end Lidis.Rdma
