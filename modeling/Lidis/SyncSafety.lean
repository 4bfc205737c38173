import Lidis.SyncSession

namespace Lidis.Sessions

def okFrame (n : ℕ) : Bytes := Kvsp.frameOf [masterFullsyncOk n]

def errorFrame : Bytes := Kvsp.frameOf [masterFullsyncError]

def busyFrame : Bytes := Kvsp.frameOf [masterFullsyncBusy]

def syncBytes : Bytes := Kvsp.frameOf [syncCommand]

theorem sendCommand_begins {cmd : CString} {env : SendEnv} {whole : Bool} {bytes : Bytes}
    (h : sendCommand cmd env = some (whole, bytes)) :
    bytes <+: Kvsp.frameOf [cmd] ∧ (whole = true → bytes = Kvsp.frameOf [cmd]) := by
  obtain ⟨⟨ret, sent⟩, hsend, he⟩ := Option.map_eq_some_iff.mp h
  obtain ⟨rfl, rfl⟩ := Prod.mk.inj he
  rw [Control.kvsSendSingleCommand, if_neg (by decide)] at hsend
  obtain ⟨built, hbuilt, hsend⟩ := Option.bind_eq_some_iff.mp hsend
  cases built with
  | none =>
    obtain ⟨rfl, rfl⟩ := Prod.mk.inj (Option.some.inj hsend)
    exact ⟨List.nil_prefix, by simp⟩
  | some frame =>
    obtain ⟨rfl, -, -⟩ := Kvsp.buildKvspFrame_some hbuilt
    dsimp only at hsend
    split_ifs at hsend
    · obtain ⟨rfl, rfl⟩ := Prod.mk.inj (Option.some.inj hsend)
      exact ⟨List.take_prefix _ _, by simp⟩
    · obtain ⟨rfl, rfl⟩ := Prod.mk.inj (Option.some.inj hsend)
      exact ⟨List.prefix_refl _, fun _ => rfl⟩

theorem available_begins (out : Bytes) (taken size n : ℕ) : available out taken size n <+: out.drop taken :=
  (List.take_prefix n _).trans (List.take_prefix size _)

theorem available_length (out : Bytes) (taken size n : ℕ) : (available out taken size n).length ≤ size := by
  rw [available, List.length_take, List.length_take]
  omega

/-- A frame that did not come whole is no command. -/
theorem recvCommand_cut {ts : List CString} {p : Bytes} (hp : p <+: Kvsp.frameOf ts) (hne : p ≠ Kvsp.frameOf ts)
    (hsize : p.length ≤ syncBufferSize) (hint : (Kvsp.frameOf ts).length ≤ intMax) : recvCommand p = some none := by
  obtain ⟨q, hq⟩ := hp
  by_cases hnil : p = []
  · rw [recvCommand, if_pos hnil]
    rfl
  · have hqne : q ≠ [] := by
      rintro rfl
      exact hne (by rw [← hq, List.append_nil])
    rw [recvCommand, if_neg hnil]
    simp only [kvsRecvSingleCommand, List.take_of_length_le hsize, Kvsp.parse_cut hint hq hnil hqne]

theorem recvCommand_prefix {ts : List CString} {p : Bytes} {tokens : List CString} (hp : p <+: Kvsp.frameOf ts)
    (hsize : p.length ≤ syncBufferSize) (hint : (Kvsp.frameOf ts).length ≤ intMax) (hmax : ts.length ≤ maxTokens)
    (h : recvCommand p = some (some tokens)) : p = Kvsp.frameOf ts ∧ tokens = ts := by
  have hwhole : p = Kvsp.frameOf ts := by
    by_contra hne
    rw [recvCommand_cut hp hne hsize hint] at h
    simp at h
  subst hwhole
  refine ⟨rfl, ?_⟩
  have hne : Kvsp.frameOf ts ≠ [] := by
    intro hnil
    have := congrArg List.length hnil
    rw [Kvsp.frameOf_length, Kvsp.headOf_length, List.length_nil] at this
    omega
  rw [recvCommand, if_neg hne, recvSingleCommand_frame hmax hsize] at h
  exact (Option.some.inj (Option.some.inj h)).symm

theorem okFrame_length {n : ℕ} (h : n < 2 ^ 63) : (okFrame n).length ≤ intMax := by
  have h1 : (decimal n).length ≤ 19 := decimal_length_le (by omega) (by norm_num)
  have hlen : (masterFullsyncOk n).length = (decimal n).length + 12 := by
    simp only [CString.length, masterFullsyncOk, List.length_append]
    rw [show (ascii "FULLSYNC OK ").length = 12 by decide, Nat.add_comm]
  have h2 : (decimal (masterFullsyncOk n).length).length ≤ 2 := decimal_length_le (by omega) (by norm_num)
  have hbody : (Kvsp.body [masterFullsyncOk n]).length ≤ 37 := by
    rw [Kvsp.body_length]
    simp only [List.map_cons, List.map_nil, List.sum_cons, List.sum_nil, Kvsp.item_length]
    omega
  have h3 : (decimal (Kvsp.body [masterFullsyncOk n]).length).length ≤ 2 := decimal_length_le (by omega) (by norm_num)
  rw [okFrame, Kvsp.frameOf_length, Kvsp.headOf_length]
  simp only [intMax]
  omega

theorem busyFrame_length : busyFrame.length ≤ intMax := by decide +kernel

section

variable {sscanf : CString → Option ℕ} {x y : Session} {flag flag' : Bool} {tmp tmp' : Bytes}

/-- What a slave does. Of a slave that gives up without a file nothing else matters. -/
inductive SlaveMove (sscanf : CString → Option ℕ) (x : Session) : Session → Prop where
  | request (h : x.slave = .start) :
    SlaveMove sscanf x { x with slave := .requested, slaveOut := x.slaveOut ++ syncBytes }
  | quit (code : ℤ) (out : Bytes) (taken : ℕ) :
    SlaveMove sscanf x { x with slave := .finished code none, slaveOut := out, slaveTaken := taken }
  | sized {command : CString} {rest : List CString} {size : ℕ} (p out : Bytes) (h : x.slave = .requested)
    (hp : p <+: x.masterOut.drop x.slaveTaken) (hlen : p.length ≤ syncBufferSize)
    (hcmd : recvCommand p = some (some (command :: rest))) (hbusy : command ≠ masterFullsyncBusy)
    (hscan : sscanf command = some size) (hpos : 0 < size) :
    SlaveMove sscanf x { x with
      slave := .receiving size [], slaveTaken := x.slaveTaken + p.length, base := x.slaveTaken + p.length, slaveOut := out }
  | part {size : ℕ} {buf : Bytes} (p : Bytes) (h : x.slave = .receiving size buf) (hp : p <+: x.masterOut.drop x.slaveTaken)
    (hlt : (buf ++ p).length < size) :
    SlaveMove sscanf x { x with slave := .receiving size (buf ++ p), slaveTaken := x.slaveTaken + p.length }
  | full {size : ℕ} {buf : Bytes} (p out : Bytes) (code : ℤ) (h : x.slave = .receiving size buf)
    (hp : p <+: x.masterOut.drop x.slaveTaken) (hsize : (buf ++ p).length = size) :
    SlaveMove sscanf x { x with
      slave := .finished code (some (buf ++ p)), slaveTaken := x.slaveTaken + p.length, slaveOut := out }

/-- What the master does on one connection, to the flag and to the file. -/
inductive MasterMove (flag : Bool) (tmp : Bytes) (x : Session) : Bool → Bytes → Session → Prop where
  | pass (out : Bytes) (h : x.master = .idle) (hsync : syncBytes <+: x.slaveOut.drop x.masterTaken)
    (hout : out <+: busyFrame) :
    MasterMove flag tmp x flag tmp { x with
      master := .served, masterOut := x.masterOut ++ out, masterTaken := x.masterTaken + syncBytes.length }
  | begin (h : x.master = .idle) (hsync : syncBytes <+: x.slaveOut.drop x.masterTaken) (hflag : flag = false) :
    MasterMove flag tmp x true [] { x with
      master := .snapshotting, masterTaken := x.masterTaken + syncBytes.length }
  | refused (out file : Bytes) (h : x.master = .idle) (hsync : syncBytes <+: x.slaveOut.drop x.masterTaken)
    (hflag : flag = false) (hout : out <+: errorFrame) :
    MasterMove flag tmp x flag file { x with
      master := .closed, masterOut := x.masterOut ++ out, masterTaken := x.masterTaken + syncBytes.length }
  | fail (size : ℕ) (snapshot head tail file : Bytes) (h : x.master = .snapshotting) (hsize : size < 2 ^ 63)
    (hhead : head <+: okFrame size) (htail : tail <+: errorFrame) :
    MasterMove flag tmp x false file { x with
      master := .closed, masterOut := x.masterOut ++ (head ++ tail), size := size, snapshot := snapshot }
  | empty (h : x.master = .snapshotting) :
    MasterMove flag tmp x false [] { x with
      master := .served, masterOut := x.masterOut ++ okFrame 0, size := 0, snapshot := [] }
  | announce (content : Bytes) (h : x.master = .snapshotting) (hsize : content.length < 2 ^ 63) (hne : content ≠ []) :
    MasterMove flag tmp x flag content { x with
      master := .waiting, masterOut := x.masterOut ++ okFrame content.length, size := content.length, snapshot := content }
  | deny (out : Bytes) (taken : ℕ) (h : x.master = .waiting) (hout : out <+: errorFrame) :
    MasterMove flag tmp x false tmp { x with master := .closed, masterOut := x.masterOut ++ out, masterTaken := taken }
  | accept (taken : ℕ) (h : x.master = .waiting) (hne : x.slaveOut.drop x.masterTaken ≠ []) :
    MasterMove flag tmp x flag tmp { x with master := .sending 0, masterTaken := taken }
  | stop {sent : ℕ} (h : x.master = .sending sent) : MasterMove flag tmp x false tmp { x with master := .closed }
  | part {sent : ℕ} (bytes : Bytes) (h : x.master = .sending sent) (hbytes : bytes <+: (tmp.drop sent).take (x.size - sent))
    (hlt : sent + bytes.length < x.size) :
    MasterMove flag tmp x flag tmp { x with
      master := .sending (sent + bytes.length), masterOut := x.masterOut ++ bytes }
  | last {sent : ℕ} (bytes : Bytes) (h : x.master = .sending sent) (hbytes : bytes <+: (tmp.drop sent).take (x.size - sent))
    (hall : sent + bytes.length = x.size) :
    MasterMove flag tmp x false tmp { x with master := .served, masterOut := x.masterOut ++ bytes }

theorem Session.refuse_spec {err : SendEnv} (h : x.refuse err = some y) :
    ∃ out, out <+: errorFrame ∧ y = { x with master := .closed, masterOut := x.masterOut ++ out } := by
  obtain ⟨⟨whole, bytes⟩, hsend, h⟩ := Option.bind_eq_some_iff.mp h
  exact ⟨bytes, (sendCommand_begins hsend).1, (Option.some.inj h).symm⟩

theorem Session.giveUp_spec {code : ℤ} {file : Option Bytes} {err : SendEnv} (h : x.giveUp code file err = some y) :
    ∃ out, y = { x with slave := .finished code file, slaveOut := out } := by
  obtain ⟨⟨whole, bytes⟩, hsend, h⟩ := Option.bind_eq_some_iff.mp h
  exact ⟨_, (Option.some.inj h).symm⟩

theorem Session.request_moves {env err : SendEnv} (hx : x.slave = .start) (h : x.request env err = some y) :
    SlaveMove sscanf x y := by
  obtain ⟨⟨whole, bytes⟩, hsend, h⟩ := Option.bind_eq_some_iff.mp h
  obtain ⟨-, hwhole⟩ := sendCommand_begins hsend
  dsimp only at h
  split_ifs at h with hw
  · obtain rfl := hwhole hw
    exact Option.some.inj h ▸ .request hx
  · obtain ⟨out, rfl⟩ := giveUp_spec h
    exact .quit _ _ _

theorem Session.answer_moves {n : ℕ} {buffer : Bool} {ready err : SendEnv} (hx : x.slave = .requested)
    (h : x.answer sscanf n buffer ready err = some y) : SlaveMove sscanf x y := by
  simp only [answer] at h
  obtain ⟨received, hrecv, h⟩ := Option.bind_eq_some_iff.mp h
  have hquit : ∀ {z : Session} {code : ℤ} {env : SendEnv}, z.giveUp code none env = some y →
      (∀ out, SlaveMove sscanf x { z with slave := .finished code none, slaveOut := out }) → SlaveMove sscanf x y := by
    intro z code env hz hmove
    obtain ⟨out, rfl⟩ := giveUp_spec hz
    exact hmove out
  cases received with
  | none => exact hquit h (fun out => .quit _ _ _)
  | some tokens =>
    cases tokens with
    | nil => simp at h
    | cons command rest =>
      dsimp only at h
      split at h
      · exact Option.some.inj h ▸ .quit _ _ _
      next hbusy =>
      split at h
      · exact Option.some.inj h ▸ .quit _ _ _
      split at h
      · exact Option.some.inj h ▸ .quit _ _ _
      next size hscan =>
      split at h
      · exact Option.some.inj h ▸ .quit _ _ _
      split at h
      · exact Option.some.inj h ▸ .quit _ _ _
      next hzero =>
      split at h
      · exact hquit h (fun out => .quit _ _ _)
      obtain ⟨⟨whole, bytes⟩, hsend, h⟩ := Option.bind_eq_some_iff.mp h
      dsimp only at h
      split at h
      · exact Option.some.inj h ▸ .sized _ _ hx (available_begins _ _ _ _) (available_length _ _ _ _) hrecv hbusy hscan
          (Nat.pos_of_ne_zero hzero)
      · exact hquit h (fun out => .quit _ _ _)

theorem Session.chunk_moves {size : ℕ} {buf : Bytes} {n : ℕ} {loaded : Bool} {err : SendEnv}
    (hx : x.slave = .receiving size buf) (h : x.chunk size buf n loaded err = some y) : SlaveMove sscanf x y := by
  simp only [chunk] at h
  have hp := available_begins x.masterOut x.slaveTaken (size - buf.length) n
  have hle := available_length x.masterOut x.slaveTaken (size - buf.length) n
  split at h
  · obtain ⟨out, rfl⟩ := giveUp_spec h
    exact .quit _ _ _
  next hne =>
  split at h
  next hlt => exact Option.some.inj h ▸ .part _ hx hp hlt
  next hge =>
  have hsize : (buf ++ available x.masterOut x.slaveTaken (size - buf.length) n).length = size := by
    have := List.length_pos_of_ne_nil hne
    rw [List.length_append] at hge ⊢
    omega
  split at h
  · exact Option.some.inj h ▸ .full _ _ _ hx hp hsize
  · obtain ⟨out, rfl⟩ := giveUp_spec h
    exact .full _ _ _ hx hp hsize

/-- A step moves one side of its connection, or nothing. -/
inductive Moves (sscanf : CString → Option ℕ) (k : System) (i : ℕ) : System → Prop where
  | idle : Moves sscanf k i k
  | slave {y : Session} (h : SlaveMove sscanf (k.sessions i) y) : Moves sscanf k i (k.put i y)
  | master {flag : Bool} {tmp : Bytes} {y : Session} (h : MasterMove k.isFullSync k.tmp (k.sessions i) flag tmp y) :
    Moves sscanf k i ⟨flag, tmp, Function.update k.sessions i y⟩

variable {enableSync : Bool} {k k' : System} {i : ℕ}

theorem System.sync_moves {opened paired forked : Bool} {reply : SendEnv} (hx : (k.sessions i).master = .idle)
    (hsync : syncBytes <+: (k.sessions i).slaveOut.drop (k.sessions i).masterTaken)
    (h : k.sync enableSync i opened paired forked reply = some k') : Moves sscanf k i k' := by
  simp only [sync] at h
  split at h
  · have hm : MasterMove k.isFullSync k.tmp (k.sessions i) _ _ _ := .pass [] hx hsync List.nil_prefix
    rw [List.append_nil] at hm
    exact Option.some.inj h ▸ .master hm
  split at h
  · obtain ⟨⟨whole, bytes⟩, hsend, h⟩ := Option.bind_eq_some_iff.mp h
    exact Option.some.inj h ▸ .master (.pass bytes hx hsync (sendCommand_begins hsend).1)
  next hflag =>
  have hflag : k.isFullSync = false := by simpa using hflag
  split at h
  next hall =>
    rw [if_pos hall.1] at h
    exact Option.some.inj h ▸ .master (.begin hx hsync hflag)
  · obtain ⟨y, hy, h⟩ := Option.bind_eq_some_iff.mp h
    obtain ⟨out, hout, rfl⟩ := Session.refuse_spec hy
    exact Option.some.inj h ▸ .master (.refused out _ hx hsync hflag hout)

theorem System.snapshot_moves {report stat : Bool} {content : Bytes} {ok err : SendEnv}
    (hx : (k.sessions i).master = .snapshotting) (hold : (k.sessions i).size < 2 ^ 63) (hsize : content.length < 2 ^ 63)
    (h : k.snapshot i report stat content ok err = some k') :
    Moves sscanf k i k' := by
  simp only [snapshot] at h
  split at h
  · obtain ⟨y, hy, h⟩ := Option.bind_eq_some_iff.mp h
    obtain ⟨out, hout, rfl⟩ := Session.refuse_spec hy
    exact Option.some.inj h ▸ .master (.fail (k.sessions i).size (k.sessions i).snapshot [] out _ hx hold List.nil_prefix hout)
  obtain ⟨⟨whole, bytes⟩, hsend, h⟩ := Option.bind_eq_some_iff.mp h
  obtain ⟨hpre, hwhole⟩ := sendCommand_begins hsend
  dsimp only at h
  split at h
  · obtain ⟨y, hy, h⟩ := Option.bind_eq_some_iff.mp h
    obtain ⟨out, hout, rfl⟩ := Session.refuse_spec hy
    have hm : MasterMove k.isFullSync k.tmp (k.sessions i) _ _ _ :=
      .fail content.length content bytes out content hx hsize hpre hout
    rw [← List.append_assoc] at hm
    exact Option.some.inj h ▸ .master hm
  next hw =>
  obtain rfl := hwhole (by simpa using hw)
  split at h
  next hzero =>
    obtain rfl := List.eq_nil_of_length_eq_zero hzero
    exact Option.some.inj h ▸ .master (.empty hx)
  next hpos =>
    exact Option.some.inj h ▸ .master (.announce content hx hsize (fun hnil => hpos (by rw [hnil]; rfl)))

theorem System.ready_moves {n : ℕ} {err : SendEnv} (hx : (k.sessions i).master = .waiting)
    (h : k.ready i n err = some k') : Moves sscanf k i k' := by
  simp only [ready] at h
  obtain ⟨received, hrecv, h⟩ := Option.bind_eq_some_iff.mp h
  have hdeny : ∀ {z : Session}, (z.refuse err).bind (fun z => some { k.put i z with isFullSync := false }) = some k' →
      (∀ out, out <+: errorFrame → Moves sscanf k i { k.put i { z with
        master := .closed, masterOut := z.masterOut ++ out } with isFullSync := false }) → Moves sscanf k i k' := by
    intro z hz hmove
    obtain ⟨y, hy, hz⟩ := Option.bind_eq_some_iff.mp hz
    obtain ⟨out, hout, rfl⟩ := Session.refuse_spec hy
    exact Option.some.inj hz ▸ hmove out hout
  cases received with
  | none => exact hdeny h (fun out hout => .master (.deny out _ hx hout))
  | some tokens =>
    cases tokens with
    | nil => simp at h
    | cons command rest =>
      dsimp only at h
      split at h
      · refine Option.some.inj h ▸ .master (.accept _ hx ?_)
        -- a command needs bytes
        intro hnil
        have hp := available_begins (k.sessions i).slaveOut (k.sessions i).masterTaken syncBufferSize n
        rw [hnil, List.prefix_nil] at hp
        rw [hp, recvCommand, if_pos rfl] at hrecv
        simp [kvsRecvSingleCommand] at hrecv
      · exact hdeny h (fun out hout => .master (.deny out _ hx hout))

theorem System.sendfile_moves {sent n : ℕ} (hx : (k.sessions i).master = .sending sent) (hlt : sent < (k.sessions i).size) :
    Moves sscanf k i (k.sendfile i sent n) := by
  simp only [sendfile]
  have hp : ((k.tmp.drop sent).take ((k.sessions i).size - sent)).take n <+:
      (k.tmp.drop sent).take ((k.sessions i).size - sent) := List.take_prefix _ _
  split
  · exact .master (.stop hx)
  split
  next hall => exact .master (.last _ hx hp hall)
  next hne =>
    refine .master (.part _ hx hp ?_)
    have hle := hp.length_le
    have hmax := List.length_take_le ((k.sessions i).size - sent) (k.tmp.drop sent)
    omega

/-- What the master has put into the connection. -/
def MasterOk (x : Session) : Prop :=
  match x.master with
  | .idle => x.masterOut = [] ∧ x.masterTaken = 0
  | .snapshotting => x.masterOut = [] ∧ x.masterTaken = syncBytes.length
  | .waiting => x.masterOut = okFrame x.size ∧ x.masterTaken = syncBytes.length ∧ x.size = x.snapshot.length ∧ 0 < x.size
  | .sending sent => x.masterOut = okFrame x.size ++ x.snapshot.take sent ∧ sent < x.size ∧ x.size = x.snapshot.length
  | .served => x.masterOut <+: busyFrame ∨ x.masterOut = okFrame x.size ++ x.snapshot ∧ x.size = x.snapshot.length
  | .closed =>
    (∃ sent, x.masterOut = okFrame x.size ++ x.snapshot.take sent ∧ sent < x.size ∧ x.size = x.snapshot.length) ∨
      ∃ head tail, x.masterOut = head ++ tail ∧ head <+: okFrame x.size ∧ tail <+: errorFrame

/-- The `n` bytes that the slave was told of: those of the snapshot, or, with the connection given up by the master
before the file, those of its error message. -/
def Source (x : Session) (n : ℕ) : Prop :=
  (n = x.size ∧ x.size = x.snapshot.length ∧ x.base = (okFrame x.size).length ∧
      ∃ data, x.masterOut = okFrame x.size ++ data ∧ data <+: x.snapshot) ∨
    (x.master = .closed ∧ ∃ head tail, x.masterOut = head ++ tail ∧ head.length ≤ x.base ∧ tail <+: errorFrame)

structure Transfer (x : Session) (n : ℕ) (buf : Bytes) : Prop where
  taken : x.slaveTaken = x.base + buf.length
  le : x.slaveTaken ≤ x.masterOut.length
  pos : 0 < x.base
  bytes : buf = (x.masterOut.drop x.base).take buf.length
  source : Source x n

def SlaveOk (x : Session) : Prop :=
  match x.slave with
  | .start => x.slaveOut = [] ∧ x.slaveTaken = 0
  | .requested => x.slaveOut = syncBytes ∧ x.slaveTaken = 0
  | .receiving n buf => Transfer x n buf ∧ buf.length < n
  | .finished _ none => True
  | .finished _ (some file) => Transfer x file.length file

/-- What a slave that has asked may still find: nothing of a file. -/
def Unread (x : Session) : Prop :=
  (∀ sent, x.master ≠ .sending sent) ∧
    (x.masterOut <+: busyFrame ∨
      (x.masterOut = okFrame x.size ∧ (x.size = 0 ∨ x.master = .waiting ∧ x.size = x.snapshot.length)) ∨
      (x.master = .closed ∧ ∃ head tail, x.masterOut = head ++ tail ∧ head <+: okFrame x.size ∧ tail <+: errorFrame))

structure SessionOk (x : Session) : Prop where
  master : MasterOk x
  slave : SlaveOk x
  joined : x.master ≠ .idle → x.slave ≠ .start
  unread : x.slave = .requested → Unread x
  bound : x.size < 2 ^ 63

theorem Session.fresh_ok : SessionOk .fresh :=
  ⟨⟨rfl, rfl⟩, ⟨rfl, rfl⟩, fun h => absurd rfl h, fun h => by simp [Session.fresh] at h, by decide⟩

theorem Transfer.out_ne {n : ℕ} {buf : Bytes} (h : Transfer x n buf) : x.masterOut ≠ [] := by
  intro hnil
  have h1 := h.taken
  have h2 := h.le
  have h3 := h.pos
  rw [hnil, List.length_nil] at h2
  omega

/-- The bytes taken so far stay what they are when the master puts more behind them. -/
theorem Transfer.append {n : ℕ} {buf more : Bytes} (h : Transfer x n buf) (hy : y.masterOut = x.masterOut ++ more)
    (hbase : y.base = x.base) (htaken : y.slaveTaken = x.slaveTaken) (hs : Source y n) : Transfer y n buf := by
  have h1 := h.taken
  have h2 := h.le
  refine ⟨by rw [htaken, hbase, h1], by rw [htaken, hy, List.length_append]; omega, hbase ▸ h.pos, ?_, hs⟩
  rw [hy, hbase, List.drop_append_of_le_length (by omega), List.take_append_of_le_length]
  · exact h.bytes
  · rw [List.length_drop]
    omega

theorem slaveOk_congr {more : Bytes} (h : SlaveOk x) (hslave : y.slave = x.slave) (hsout : y.slaveOut = x.slaveOut)
    (hbase : y.base = x.base) (htaken : y.slaveTaken = x.slaveTaken) (hout : y.masterOut = x.masterOut ++ more)
    (hs : ∀ n, x.masterOut ≠ [] → Source x n → Source y n) : SlaveOk y := by
  rw [SlaveOk] at h ⊢
  rw [hslave]
  split at h
  · exact ⟨hsout.trans h.1, htaken.trans h.2⟩
  · exact ⟨hsout.trans h.1, htaken.trans h.2⟩
  · exact ⟨h.1.append hout hbase htaken (hs _ h.1.out_ne h.1.source), h.2⟩
  · trivial
  · exact h.append hout hbase htaken (hs _ h.out_ne h.source)

theorem Transfer.extend {n : ℕ} {buf p : Bytes} (h : Transfer x n buf) (hp : p <+: x.masterOut.drop x.slaveTaken)
    (hy : y.masterOut = x.masterOut) (hbase : y.base = x.base) (htaken : y.slaveTaken = x.slaveTaken + p.length)
    (hs : Source y n) : Transfer y n (buf ++ p) := by
  have h1 := h.taken
  have h2 := h.le
  have hlen := hp.length_le
  rw [List.length_drop] at hlen
  refine ⟨by rw [htaken, hbase, h1, List.length_append]; omega, by rw [htaken, hy]; omega, hbase ▸ h.pos, ?_, hs⟩
  rw [hy, hbase, List.length_append, List.take_add, ← h.bytes, List.drop_drop, ← h1]
  exact congrArg (buf ++ ·) (List.prefix_iff_eq_take.mp hp)

/-- Where the slave reads the size, the file has not begun. -/
theorem Unread.sized {p : Bytes} {command : CString} {rest : List CString} {size : ℕ} (h : Unread x)
    (hscan : ∀ n < 2 ^ 63, sscanf (masterFullsyncOk n) = some n) (hbound : x.size < 2 ^ 63) (htaken : x.slaveTaken = 0)
    (hp : p <+: x.masterOut.drop x.slaveTaken) (hlen : p.length ≤ syncBufferSize)
    (hcmd : recvCommand p = some (some (command :: rest))) (hbusy : command ≠ masterFullsyncBusy)
    (hsize : sscanf command = some size) (hpos : 0 < size) (hbase : y.base = p.length) (hmaster : y.master = x.master)
    (hout : y.masterOut = x.masterOut) (hsz : y.size = x.size) (hsnap : y.snapshot = x.snapshot) : Source y size := by
  rw [htaken, List.drop_zero] at hp
  rcases h.2 with hb | ⟨hok, hwhy⟩ | ⟨hclosed, head, tail, heq, hhead, htail⟩
  · obtain ⟨-, he⟩ := recvCommand_prefix (hp.trans hb) hlen busyFrame_length (by decide) hcmd
    exact absurd (List.cons.inj he).1 hbusy
  · rw [hok] at hp
    obtain ⟨rfl, he⟩ := recvCommand_prefix hp hlen (okFrame_length hbound) (by simp [maxTokens]) hcmd
    obtain ⟨rfl, -⟩ := List.cons.inj he
    obtain rfl : x.size = size := Option.some.inj ((hscan x.size hbound).symm.trans hsize)
    obtain ⟨-, hsnapshot⟩ := hwhy.resolve_left hpos.ne'
    exact Or.inl ⟨hsz.symm, by rw [hsz, hsnap, hsnapshot], by rw [hbase, hsz]; rfl, [], by rw [hout, hok, hsz, List.append_nil],
      List.nil_prefix⟩
  · refine Or.inr ⟨hmaster.trans hclosed, head, tail, hout.trans heq, ?_, htail⟩
    rw [hbase]
    -- a piece that ends within the beginning of FULLSYNC OK is no command
    by_contra hlt
    rw [heq] at hp
    have hsub : p <+: head := List.prefix_of_prefix_length_le hp (List.prefix_append head tail) (by omega)
    have hne : p ≠ okFrame x.size := by
      rintro rfl
      have := hhead.length_le
      omega
    rw [recvCommand_cut (hsub.trans hhead) hne hlen (okFrame_length hbound)] at hcmd
    simp at hcmd

theorem SessionOk.slaveMove (hx : SessionOk x) (h : SlaveMove sscanf x y)
    (hscan : ∀ n < 2 ^ 63, sscanf (masterFullsyncOk n) = some n) : SessionOk y := by
  have hslave := hx.slave
  cases h with
  | request hs =>
    have hidle : x.master = .idle := by
      by_contra hne
      exact hx.joined hne hs
    have hm := hx.master
    rw [MasterOk, hidle] at hm
    rw [SlaveOk, hs] at hslave
    refine ⟨hx.master, ⟨by simp [hslave.1], hslave.2⟩, fun _ => by simp, fun _ => ?_, hx.bound⟩
    exact ⟨by simp [hidle], Or.inl (by simp [hm.1])⟩
  | quit code out taken => exact ⟨hx.master, trivial, fun _ => by simp, fun hr => by simp at hr, hx.bound⟩
  | @sized command rest size p out hs hp hlen hcmd hbusy hsize hpos =>
    have htaken : x.slaveTaken = 0 := by
      rw [SlaveOk, hs] at hslave
      exact hslave.2
    have hsource : Source { x with
        slave := .receiving size [], slaveTaken := x.slaveTaken + p.length, base := x.slaveTaken + p.length,
        slaveOut := out } size :=
      (hx.unread hs).sized hscan hx.bound htaken hp hlen hcmd hbusy hsize hpos (by simp [htaken]) rfl rfl rfl rfl
    have hple := hp.length_le
    rw [List.length_drop] at hple
    have hppos : 0 < p.length := by
      refine List.length_pos_of_ne_nil ?_
      rintro rfl
      simp [recvCommand, kvsRecvSingleCommand] at hcmd
    refine ⟨hx.master, ⟨⟨rfl, ?_, ?_, ?_, hsource⟩, hpos⟩, fun _ => by simp, fun hr => by simp at hr, hx.bound⟩
    · change x.slaveTaken + p.length ≤ x.masterOut.length
      omega
    · change 0 < x.slaveTaken + p.length
      omega
    · simp
  | part p hs hp hlt =>
    rw [SlaveOk, hs] at hslave
    exact ⟨hx.master, ⟨hslave.1.extend hp rfl rfl rfl hslave.1.source, hlt⟩, fun _ => by simp, fun hr => by simp at hr, hx.bound⟩
  | @full size buf p out code hs hp hsize =>
    rw [SlaveOk, hs] at hslave
    have ht : Transfer { x with
        slave := .finished code (some (buf ++ p)), slaveTaken := x.slaveTaken + p.length, slaveOut := out } size (buf ++ p) :=
      hslave.1.extend hp rfl rfl rfl hslave.1.source
    rw [← hsize] at ht
    exact ⟨hx.master, ht, fun _ => by simp, fun hr => by simp at hr, hx.bound⟩

def Transferring (x : Session) : Prop := x.master = .waiting ∨ ∃ sent, x.master = .sending sent

def Active (x : Session) : Prop := x.master = .snapshotting ∨ Transferring x

theorem SessionOk.not_start (hx : SessionOk x) (hsync : syncBytes <+: x.slaveOut.drop x.masterTaken) :
    x.slave ≠ .start := by
  intro hs
  have hslave := hx.slave
  rw [SlaveOk, hs] at hslave
  rw [hslave.1, List.drop_nil, List.prefix_nil] at hsync
  exact absurd hsync (by decide +kernel)

/-- The first thing the master puts into a connection. -/
theorem SessionOk.opening (hx : SessionOk x) (hnil : x.masterOut = []) (hstart : x.slave ≠ .start)
    (hslave : y.slave = x.slave) (hsout : y.slaveOut = x.slaveOut) (hbase : y.base = x.base)
    (htaken : y.slaveTaken = x.slaveTaken) (hm : MasterOk y) (hu : Unread y) (hb : y.size < 2 ^ 63) : SessionOk y := by
  refine ⟨hm, ?_, fun _ => hslave ▸ hstart, fun _ => hu, hb⟩
  exact slaveOk_congr hx.slave hslave hsout hbase htaken (by rw [hnil, List.nil_append]) (fun _ hne => absurd hnil hne)

/-- What the master puts behind FULLSYNC OK. -/
theorem SessionOk.following {more : Bytes} (hx : SessionOk x) (hstart : x.slave ≠ .start) (hslave : y.slave = x.slave)
    (hsout : y.slaveOut = x.slaveOut) (hbase : y.base = x.base) (htaken : y.slaveTaken = x.slaveTaken)
    (hout : y.masterOut = x.masterOut ++ more) (hsize : y.size = x.size) (hs : ∀ n, Source x n → Source y n)
    (hm : MasterOk y) (hu : x.slave = .requested → Unread y) : SessionOk y := by
  refine ⟨hm, ?_, fun _ => hslave ▸ hstart, fun hr => hu (hslave ▸ hr), hsize ▸ hx.bound⟩
  exact slaveOk_congr hx.slave hslave hsout hbase htaken hout (fun n _ => hs n)

theorem Source.resend {n : ℕ} (h : Source x n) (hopen : x.master ≠ .closed) {data : Bytes} (hsize : y.size = x.size)
    (hsnap : y.snapshot = x.snapshot) (hbase : y.base = x.base) (hout : y.masterOut = okFrame x.size ++ data)
    (hdata : data <+: x.snapshot) : Source y n := by
  rcases h with ⟨rfl, hlen, hb, -⟩ | ⟨hclosed, -⟩
  · exact Or.inl ⟨hsize.symm, by rw [hsize, hsnap, hlen], by rw [hbase, hsize, hb], data, by rw [hout, hsize], hsnap ▸ hdata⟩
  · exact absurd hclosed hopen

/-- sendfile goes on where it stopped. -/
theorem sent_append {s bytes : Bytes} {sent size : ℕ} (h : bytes <+: (s.drop sent).take (size - sent)) :
    s.take sent ++ bytes = s.take (sent + bytes.length) := by
  have hpre : bytes <+: s.drop sent := h.trans (List.take_prefix _ _)
  rw [List.take_add]
  exact congrArg (s.take sent ++ ·) (List.prefix_iff_eq_take.mp hpre)

theorem SessionOk.masterMove (hx : SessionOk x) (h : MasterMove flag tmp x flag' tmp' y)
    (htmp : Transferring x → tmp = x.snapshot) : SessionOk y ∧ (Transferring y → tmp' = y.snapshot) := by
  have hm := hx.master
  rw [MasterOk] at hm
  cases h with
  | pass out hi hsync hb =>
    rw [hi] at hm
    have hb' : x.masterOut ++ out <+: busyFrame := by rwa [hm.1, List.nil_append]
    exact ⟨hx.opening hm.1 (hx.not_start hsync) rfl rfl rfl rfl (Or.inl hb') ⟨by simp, Or.inl hb'⟩ hx.bound,
      by simp [Transferring]⟩
  | begin hi hsync hflag =>
    rw [hi] at hm
    refine ⟨hx.opening hm.1 (hx.not_start hsync) rfl rfl rfl rfl ⟨hm.1, by simp [hm.2]⟩ ⟨by simp, Or.inl ?_⟩ hx.bound,
      by simp [Transferring]⟩
    rw [hm.1]
    exact List.nil_prefix
  | refused out file hi hsync hflag he =>
    rw [hi] at hm
    have hform : ∃ head tail, x.masterOut ++ out = head ++ tail ∧ head <+: okFrame x.size ∧ tail <+: errorFrame :=
      ⟨[], out, by rw [hm.1], List.nil_prefix, he⟩
    exact ⟨hx.opening hm.1 (hx.not_start hsync) rfl rfl rfl rfl (Or.inr hform) ⟨by simp, Or.inr (Or.inr ⟨rfl, hform⟩)⟩
      hx.bound, by simp [Transferring]⟩
  | fail size snapshot head tail file hs hsize hhead htail =>
    rw [hs] at hm
    have hform : ∃ head' tail', x.masterOut ++ (head ++ tail) = head' ++ tail' ∧ head' <+: okFrame size ∧
        tail' <+: errorFrame := ⟨head, tail, by rw [hm.1, List.nil_append], hhead, htail⟩
    exact ⟨hx.opening hm.1 (hx.joined (by simp [hs])) rfl rfl rfl rfl (Or.inr hform)
      ⟨by simp, Or.inr (Or.inr ⟨rfl, hform⟩)⟩ hsize, by simp [Transferring]⟩
  | empty hs =>
    rw [hs] at hm
    have hform : x.masterOut ++ okFrame 0 = okFrame 0 := by rw [hm.1, List.nil_append]
    exact ⟨hx.opening hm.1 (hx.joined (by simp [hs])) rfl rfl rfl rfl (Or.inr ⟨by simp [hform], rfl⟩)
      ⟨by simp, Or.inr (Or.inl ⟨hform, Or.inl rfl⟩)⟩ (by simp), by simp [Transferring]⟩
  | announce _ hs hsize hne =>
    rw [hs] at hm
    have hform : x.masterOut ++ okFrame tmp'.length = okFrame tmp'.length := by rw [hm.1, List.nil_append]
    exact ⟨hx.opening hm.1 (hx.joined (by simp [hs])) rfl rfl rfl rfl
      ⟨hform, hm.2, rfl, List.length_pos_of_ne_nil hne⟩ ⟨by simp, Or.inr (Or.inl ⟨hform, Or.inr ⟨rfl, rfl⟩⟩)⟩ hsize,
      fun _ => rfl⟩
  | deny out taken hw he =>
    rw [hw] at hm
    have hform : ∃ head tail, x.masterOut ++ out = head ++ tail ∧ head <+: okFrame x.size ∧ tail <+: errorFrame :=
      ⟨okFrame x.size, out, by rw [hm.1], List.prefix_refl _, he⟩
    refine ⟨hx.following (hx.joined (by simp [hw])) rfl rfl rfl rfl rfl rfl (fun n hn => ?_) (Or.inr hform)
      (fun _ => ⟨by simp, Or.inr (Or.inr ⟨rfl, hform⟩)⟩), by simp [Transferring]⟩
    rcases hn with ⟨-, -, hb, -⟩ | ⟨hclosed, -⟩
    · exact Or.inr ⟨rfl, okFrame x.size, out, by simp [hm.1], hb.ge, he⟩
    · simp [hw] at hclosed
  | accept taken hw hne =>
    rw [hw] at hm
    refine ⟨hx.following (hx.joined (by simp [hw])) rfl rfl rfl rfl (List.append_nil _).symm rfl
      (fun n hn => hn.resend (by simp [hw]) rfl rfl rfl (by simp [hm.1]) List.nil_prefix)
      ⟨by simp [hm.1], hm.2.2.2, hm.2.2.1⟩ (fun hr => ?_), fun _ => htmp (Or.inl hw)⟩
    -- a slave that has only asked has sent nothing more
    have hslave := hx.slave
    rw [SlaveOk, hr] at hslave
    rw [hslave.1, hm.2.1, List.drop_length] at hne
    exact absurd rfl hne
  | stop hs =>
    rw [hs] at hm
    refine ⟨hx.following (hx.joined (by simp [hs])) rfl rfl rfl rfl (List.append_nil _).symm rfl
      (fun n hn => hn.resend (by simp [hs]) rfl rfl rfl hm.1 (List.take_prefix _ _))
      (Or.inl ⟨_, hm.1, hm.2.1, hm.2.2⟩) (fun hr => absurd hs ((hx.unread hr).1 _)), by simp [Transferring]⟩
  | @part sent bytes hs hbytes hlt =>
    rw [hs] at hm
    rw [htmp (Or.inr ⟨sent, hs⟩)] at hbytes ⊢
    have hform : x.masterOut ++ bytes = okFrame x.size ++ x.snapshot.take (sent + bytes.length) := by
      rw [hm.1, List.append_assoc, sent_append hbytes]
    exact ⟨hx.following (hx.joined (by simp [hs])) rfl rfl rfl rfl rfl rfl
      (fun n hn => hn.resend (by simp [hs]) rfl rfl rfl hform (List.take_prefix _ _)) ⟨hform, hlt, hm.2.2⟩
      (fun hr => absurd hs ((hx.unread hr).1 _)), fun _ => rfl⟩
  | @last sent bytes hs hbytes hall =>
    rw [hs] at hm
    rw [htmp (Or.inr ⟨sent, hs⟩)] at hbytes
    have hform : x.masterOut ++ bytes = okFrame x.size ++ x.snapshot := by
      rw [hm.1, List.append_assoc, sent_append hbytes, hall, hm.2.2, List.take_length]
    exact ⟨hx.following (hx.joined (by simp [hs])) rfl rfl rfl rfl rfl rfl
      (fun n hn => hn.resend (by simp [hs]) rfl rfl rfl hform (List.prefix_refl _)) (Or.inr ⟨hform, hm.2.2⟩)
      (fun hr => absurd hs ((hx.unread hr).1 _)), by simp [Transferring]⟩

/-- The flag is raised by the move that makes a session active and lowered by the one that ends it; only then, or when
no session is active, does the file change. -/
theorem MasterMove.active (h : MasterMove flag tmp x flag' tmp' y) :
    (Active x ∧ (Active y ∧ flag' = flag ∨ ¬ Active y ∧ flag' = false)) ∨
      (¬ Active x ∧ (¬ Active y ∧ flag' = flag ∧ (tmp' = tmp ∨ flag = false) ∨ Active y ∧ flag = false ∧ flag' = true)) := by
  cases h with
  | pass out hi => exact Or.inr ⟨by simp [Active, Transferring, hi], Or.inl ⟨by simp [Active, Transferring], rfl, Or.inl rfl⟩⟩
  | begin hi hsync hflag =>
    exact Or.inr ⟨by simp [Active, Transferring, hi], Or.inr ⟨by simp [Active], hflag, rfl⟩⟩
  | refused out file hi hsync hflag =>
    exact Or.inr ⟨by simp [Active, Transferring, hi], Or.inl ⟨by simp [Active, Transferring], rfl, Or.inr hflag⟩⟩
  | fail size snapshot head tail file hs =>
    exact Or.inl ⟨Or.inl hs, Or.inr ⟨by simp [Active, Transferring], rfl⟩⟩
  | empty hs => exact Or.inl ⟨Or.inl hs, Or.inr ⟨by simp [Active, Transferring], rfl⟩⟩
  | announce _ hs => exact Or.inl ⟨Or.inl hs, Or.inl ⟨by simp [Active, Transferring], rfl⟩⟩
  | deny out taken hw => exact Or.inl ⟨Or.inr (Or.inl hw), Or.inr ⟨by simp [Active, Transferring], rfl⟩⟩
  | accept taken hw => exact Or.inl ⟨Or.inr (Or.inl hw), Or.inl ⟨by simp [Active, Transferring], rfl⟩⟩
  | stop hs => exact Or.inl ⟨Or.inr (Or.inr ⟨_, hs⟩), Or.inr ⟨by simp [Active, Transferring], rfl⟩⟩
  | part bytes hs => exact Or.inl ⟨Or.inr (Or.inr ⟨_, hs⟩), Or.inl ⟨by simp [Active, Transferring], rfl⟩⟩
  | last bytes hs => exact Or.inl ⟨Or.inr (Or.inr ⟨_, hs⟩), Or.inr ⟨by simp [Active, Transferring], rfl⟩⟩

theorem SlaveMove.master_eq (h : SlaveMove sscanf x y) : y.master = x.master ∧ y.snapshot = x.snapshot := by
  cases h <;> exact ⟨rfl, rfl⟩

structure System.Inv (k : System) : Prop where
  each : ∀ i, SessionOk (k.sessions i)
  flag : k.isFullSync = true ↔ ∃ i, Active (k.sessions i)
  unique : ∀ i j, Active (k.sessions i) → Active (k.sessions j) → i = j
  file : ∀ i, Transferring (k.sessions i) → k.tmp = (k.sessions i).snapshot

theorem System.start_inv (tmp : Bytes) : (System.start tmp).Inv where
  each := fun _ => Session.fresh_ok
  flag := by simp [System.start, Session.fresh, Active, Transferring]
  unique := by simp [System.start, Session.fresh, Active, Transferring]
  file := by simp [System.start, Session.fresh, Transferring]

theorem System.Inv.slave (hk : k.Inv) (h : SlaveMove sscanf (k.sessions i) y)
    (hscan : ∀ n < 2 ^ 63, sscanf (masterFullsyncOk n) = some n) : (k.put i y).Inv := by
  obtain ⟨hmaster, hsnap⟩ := h.master_eq
  have hsame : ∀ j, ((k.put i y).sessions j).master = (k.sessions j).master ∧
      ((k.put i y).sessions j).snapshot = (k.sessions j).snapshot := by
    intro j
    by_cases hj : j = i
    · subst hj
      simpa [System.put] using ⟨hmaster, hsnap⟩
    · simp [System.put, hj]
  have hactive : ∀ j, Active ((k.put i y).sessions j) ↔ Active (k.sessions j) := by
    intro j
    simp only [Active, Transferring, (hsame j).1]
  refine ⟨fun j => ?_, ?_, fun a b ha hb => hk.unique a b ((hactive a).mp ha) ((hactive b).mp hb), fun j hj => ?_⟩
  · by_cases hj : j = i
    · subst hj
      simpa [System.put] using (hk.each j).slaveMove h hscan
    · simpa [System.put, hj] using hk.each j
  · simp only [hactive]
    exact hk.flag
  · rw [(hsame j).2]
    refine hk.file j ?_
    simpa only [Transferring, (hsame j).1] using hj

theorem System.Inv.master (hk : k.Inv) (h : MasterMove k.isFullSync k.tmp (k.sessions i) flag' tmp' y) :
    System.Inv ⟨flag', tmp', Function.update k.sessions i y⟩ := by
  obtain ⟨hok, hfile⟩ := (hk.each i).masterMove h (hk.file i)
  have hother : ∀ j, j ≠ i → (System.mk flag' tmp' (Function.update k.sessions i y)).sessions j = k.sessions j :=
    fun j hj => Function.update_of_ne hj _ _
  have hself : (System.mk flag' tmp' (Function.update k.sessions i y)).sessions i = y := Function.update_self _ _ _
  -- the others that are active, given what the move does to this one
  have hcases := h.active
  have hnone : ∀ j, j ≠ i → Active (k.sessions j) →
      ¬ Active (k.sessions i) ∧ ¬ Active y ∧ flag' = k.isFullSync ∧ tmp' = k.tmp := by
    intro j hj hact
    have hflag : k.isFullSync = true := hk.flag.mpr ⟨j, hact⟩
    rcases hcases with ⟨hi, -⟩ | ⟨hi, ⟨hy, hf, ht⟩ | ⟨-, hf, -⟩⟩
    · exact absurd (hk.unique j i hact hi) hj
    · exact ⟨hi, hy, hf, ht.resolve_right (by simp [hflag])⟩
    · simp [hflag] at hf
  refine ⟨fun j => ?_, ⟨fun hf => ?_, fun ⟨j, hj⟩ => ?_⟩, fun a b ha hb => ?_, fun j hj => ?_⟩
  · by_cases hj : j = i
    · subst hj
      rw [hself]
      exact hok
    · rw [hother j hj]
      exact hk.each j
  · change flag' = true at hf
    rcases hcases with ⟨-, ⟨hy, -⟩ | ⟨-, hf'⟩⟩ | ⟨hi, ⟨-, hf', -⟩ | ⟨hy, -⟩⟩
    · exact ⟨i, by rwa [hself]⟩
    · simp [hf] at hf'
    · obtain ⟨j, hj⟩ := hk.flag.mp (hf'.symm.trans hf)
      have hji : j ≠ i := by
        rintro rfl
        exact hi hj
      exact ⟨j, by rwa [hother j hji]⟩
    · exact ⟨i, by rwa [hself]⟩
  · change flag' = true
    by_cases hji : j = i
    · subst hji
      rw [hself] at hj
      rcases hcases with ⟨hi, ⟨-, hf⟩ | ⟨hy, -⟩⟩ | ⟨hi, ⟨hy, -⟩ | ⟨-, -, hf⟩⟩
      · exact hf.trans (hk.flag.mpr ⟨j, hi⟩)
      · exact absurd hj hy
      · exact absurd hj hy
      · exact hf
    · rw [hother j hji] at hj
      exact (hnone j hji hj).2.2.1.trans (hk.flag.mpr ⟨j, hj⟩)
  · by_cases hai : a = i
    · by_cases hbi : b = i
      · exact hai.trans hbi.symm
      · rw [hai, hself] at ha
        rw [hother b hbi] at hb
        exact absurd ha (hnone b hbi hb).2.1
    · rw [hother a hai] at ha
      by_cases hbi : b = i
      · rw [hbi, hself] at hb
        exact absurd hb (hnone a hai ha).2.1
      · rw [hother b hbi] at hb
        exact hk.unique a b ha hb
  · by_cases hji : j = i
    · subst hji
      rw [hself] at hj ⊢
      exact hfile hj
    · rw [hother j hji] at hj ⊢
      exact (hnone j hji (Or.inr hj)).2.2.2.trans (hk.file j hj)

/-- A file has a size that an off_t can hold. -/
def Act.Within : Act → Prop
  | .snapshot _ _ _ content _ _ => content.length < 2 ^ 63
  | _ => True

def Act.conn : Act → ℕ
  | .request i _ _ | .sync i _ _ _ _ | .snapshot i _ _ _ _ _ | .ready i _ _ | .sendfile i _ | .answer i _ _ _ _
  | .chunk i _ _ _ => i

theorem System.Inv.moves {act : Act} (hk : k.Inv) (hact : act.Within) (h : k.step enableSync sscanf act = some k') :
    Moves sscanf k act.conn k' := by
  have hidle : some k = some k' → Moves sscanf k act.conn k' := fun he => Option.some.inj he ▸ .idle
  cases act with
  | request i env err =>
    rw [step] at h
    split_ifs at h with hs
    · obtain ⟨y, hy, rfl⟩ := Option.map_eq_some_iff.mp h
      exact .slave (Session.request_moves hs hy)
    · exact hidle h
  | sync i opened paired forked reply =>
    rw [step] at h
    split_ifs at h with hs
    · exact sync_moves hs.1 hs.2 h
    · exact hidle h
  | snapshot i report stat content ok err =>
    rw [step] at h
    split_ifs at h with hs
    · exact snapshot_moves hs (hk.each i).bound hact h
    · exact hidle h
  | ready i n err =>
    rw [step] at h
    split_ifs at h with hs
    · exact ready_moves hs h
    · exact hidle h
  | sendfile i n =>
    rw [step] at h
    split at h
    next sent hs =>
      have hm := (hk.each i).master
      rw [MasterOk, hs] at hm
      exact Option.some.inj h ▸ sendfile_moves hs hm.2.1
    · exact hidle h
  | answer i n buffer ready err =>
    rw [step] at h
    split_ifs at h with hs
    · obtain ⟨y, hy, rfl⟩ := Option.map_eq_some_iff.mp h
      exact .slave (Session.answer_moves hs hy)
    · exact hidle h
  | chunk i n loaded err =>
    rw [step] at h
    split at h
    next size buf hs =>
      obtain ⟨y, hy, rfl⟩ := Option.map_eq_some_iff.mp h
      exact .slave (Session.chunk_moves hs hy)
    · exact hidle h

theorem System.Inv.step {act : Act} (hk : k.Inv) (hscan : ∀ n < 2 ^ 63, sscanf (masterFullsyncOk n) = some n)
    (hact : act.Within)
    (h : k.step enableSync sscanf act = some k') : k'.Inv := by
  cases hk.moves hact h with
  | idle => exact hk
  | slave hmove => exact hk.slave hmove hscan
  | master hmove => exact hk.master hmove

theorem System.Inv.run {acts : List Act} (hk : k.Inv) (hscan : ∀ n < 2 ^ 63, sscanf (masterFullsyncOk n) = some n)
    (hacts : ∀ act ∈ acts, act.Within) (h : System.run enableSync sscanf acts k = some k') : k'.Inv := by
  induction acts generalizing k with
  | nil => exact Option.some.inj h ▸ hk
  | cons act acts ih =>
    obtain ⟨mid, hstep, hrun⟩ := Option.bind_eq_some_iff.mp h
    exact ih (hk.step hscan (hacts act List.mem_cons_self) hstep) (fun a ha => hacts a (List.mem_cons_of_mem act ha)) hrun

theorem Transfer.file {file : Bytes} (h : Transfer x file.length file) :
    file = x.snapshot ∨ x.master = .closed ∧ file <:+: errorFrame := by
  have h1 := h.taken
  have h2 := h.le
  have hbytes := h.bytes
  rcases h.source with ⟨hn, hlen, hb, data, hout, hdata⟩ | ⟨hclosed, head, tail, hout, hhead, htail⟩
  · refine Or.inl ?_
    rw [hout, List.length_append] at h2
    have hall : data = x.snapshot := hdata.eq_of_length_le (by omega)
    rw [hout, hb, List.drop_left, hall, hn, hlen, List.take_length] at hbytes
    exact hbytes
  · refine Or.inr ⟨hclosed, ?_⟩
    rw [hout, List.drop_append, List.drop_eq_nil_of_le hhead, List.nil_append] at hbytes
    rw [hbytes]
    exact (List.take_prefix _ _).isInfix.trans ((List.drop_suffix _ _).isInfix.trans htail.isInfix)

/-- What the protocol keeps apart: one session at a time, each with the file it announced, and no slave that replays
anything but its snapshot or, after a master that gave up, that master's error message. -/
structure System.Isolated (k : System) : Prop where
  flag : k.isFullSync = true ↔ ∃ i, Active (k.sessions i)
  unique : ∀ i j, Active (k.sessions i) → Active (k.sessions j) → i = j
  file : ∀ i, Transferring (k.sessions i) → k.tmp = (k.sessions i).snapshot
  stream : ∀ i sent, (k.sessions i).master = .sending sent →
    (k.sessions i).masterOut = okFrame (k.sessions i).snapshot.length ++ (k.sessions i).snapshot.take sent
  replayed : ∀ i code file, (k.sessions i).slave = .finished code (some file) →
    file = (k.sessions i).snapshot ∨ (k.sessions i).master = .closed ∧ file <:+: errorFrame

/-- Any number of slaves, any order of their steps and the master's, any split of what is sent and any failure. -/
theorem full_sync_sessions_are_isolated (hscan : ∀ n < 2 ^ 63, sscanf (masterFullsyncOk n) = some n)
    (tmp : Bytes) {acts : List Act}
    (hacts : ∀ act ∈ acts, act.Within) (h : System.run enableSync sscanf acts (System.start tmp) = some k) : k.Isolated := by
  have hk := (System.start_inv tmp).run hscan hacts h
  refine ⟨hk.flag, hk.unique, hk.file, fun i sent hs => ?_, fun i code file hs => ?_⟩
  · have hm := (hk.each i).master
    rw [MasterOk, hs] at hm
    rw [hm.1, hm.2.2]
  · have hslave := (hk.each i).slave
    rw [SlaveOk, hs] at hslave
    exact hslave.file

def sentWhole (cmd : CString) : SendEnv := ⟨true, (Kvsp.frameOf [cmd]).length⟩

def unsent : SendEnv := ⟨false, -1⟩

/-- Slave 1 asks while the snapshot for slave 0 is on its way, which takes two sendfile calls and two recv calls. -/
def twoSlaves (content : Bytes) : List Act :=
  [.request 0 (sentWhole syncCommand) unsent, .sync 0 true true true unsent, .request 1 (sentWhole syncCommand) unsent,
    .snapshot 0 true true content (sentWhole (masterFullsyncOk content.length)) unsent,
    .sync 1 true true true (sentWhole masterFullsyncBusy), .answer 0 1024 true (sentWhole slaveFullsyncReady) unsent,
    .ready 0 1024 unsent, .sendfile 0 3, .chunk 0 2 true unsent, .answer 1 1024 true unsent unsent, .sendfile 0 1024,
    .chunk 0 1024 true unsent]

theorem full_sync_sessions_are_isolated_example :
    ∃ k, System.run true scanFileSize (twoSlaves [35, 53, 13, 10, 94]) (System.start []) = some k ∧
      (k.sessions 0).slave = .finished 0 (some [35, 53, 13, 10, 94]) ∧
      (k.sessions 1).slave = .finished kvsSyncRetBusy none ∧ k.Isolated := by
  obtain ⟨k, hk⟩ := Option.isSome_iff_exists.mp
    (show (System.run true scanFileSize (twoSlaves [35, 53, 13, 10, 94]) (System.start [])).isSome = true by decide +kernel)
  have hslaves : (System.run true scanFileSize (twoSlaves [35, 53, 13, 10, 94]) (System.start [])).map
      (fun k => ((k.sessions 0).slave, (k.sessions 1).slave)) =
        some (.finished 0 (some [35, 53, 13, 10, 94]), .finished kvsSyncRetBusy none) := by decide +kernel
  rw [hk] at hslaves
  injection hslaves with hslaves
  injection hslaves with h0 h1
  exact ⟨k, hk, h0, h1, full_sync_sessions_are_isolated (fun n _ => scanFileSize_ok n) [] (by simp [twoSlaves, Act.Within]) hk⟩

/-- What becomes of the master while it waits in session `i`: who asks is told that it is busy. -/
structure Held (i : ℕ) (k k' : System) : Prop where
  self : (k'.sessions i).master = .waiting ∧ (k'.sessions i).masterOut = (k.sessions i).masterOut
  flag : k'.isFullSync = true
  file : k'.tmp = k.tmp
  others : ∀ j, j ≠ i →
    (k'.sessions j).master = (k.sessions j).master ∧ (k'.sessions j).masterOut = (k.sessions j).masterOut ∨
      (k.sessions j).master = .idle ∧ (k'.sessions j).master = .served ∧ (k'.sessions j).masterOut <+: busyFrame

theorem Held.refl (hflag : k.isFullSync = true) (hi : (k.sessions i).master = .waiting) : Held i k k :=
  ⟨⟨hi, rfl⟩, hflag, rfl, fun _ _ => Or.inl ⟨rfl, rfl⟩⟩

theorem Held.trans {k'' : System} (h : Held i k k') (h' : Held i k' k'') : Held i k k'' where
  self := ⟨h'.self.1, h'.self.2.trans h.self.2⟩
  flag := h'.flag
  file := h'.file.trans h.file
  others := by
    intro j hj
    rcases h.others j hj with ⟨hphase, hout⟩ | ⟨hidle, hserved, hbusy⟩
    · rw [← hphase, ← hout]
      exact h'.others j hj
    · rcases h'.others j hj with ⟨hphase, hout⟩ | ⟨hidle', -⟩
      · exact Or.inr ⟨hidle, hphase.trans hserved, hout ▸ hbusy⟩
      · rw [hserved] at hidle'
        cases hidle'

theorem SlaveMove.masterOut_eq (h : SlaveMove sscanf x y) : y.masterOut = x.masterOut := by
  cases h <;> rfl

/-- A connection that is not in a session can only be passed over while there is one. -/
theorem MasterMove.held (h : MasterMove true tmp x flag' tmp' y) (hx : ¬ Active x) (hok : MasterOk x) :
    flag' = true ∧ tmp' = tmp ∧ x.master = .idle ∧ y.master = .served ∧ y.masterOut <+: busyFrame := by
  cases h with
  | pass out hi hsync hout =>
    rw [MasterOk, hi] at hok
    refine ⟨rfl, rfl, hi, rfl, ?_⟩
    rw [hok.1]
    exact hout
  | begin _ _ hflag => cases hflag
  | refused _ _ _ _ hflag => cases hflag
  | fail _ _ _ _ _ hs => exact absurd (Or.inl hs) hx
  | empty hs => exact absurd (Or.inl hs) hx
  | announce _ hs => exact absurd (Or.inl hs) hx
  | deny _ _ hw => exact absurd (Or.inr (Or.inl hw)) hx
  | accept _ hw => exact absurd (Or.inr (Or.inl hw)) hx
  | stop hs => exact absurd (Or.inr (Or.inr ⟨_, hs⟩)) hx
  | part _ hs => exact absurd (Or.inr (Or.inr ⟨_, hs⟩)) hx
  | last _ hs => exact absurd (Or.inr (Or.inr ⟨_, hs⟩)) hx

/-- A waiting master moves in its session when the receive there returns, and not before. -/
theorem System.step_waiting {act : Act} (hi : (k.sessions i).master = .waiting) (hact : act.conn = i)
    (hready : ∀ n err, act ≠ .ready i n err) (h : k.step enableSync sscanf act = some k') :
    k' = k ∨ ∃ y, SlaveMove sscanf (k.sessions i) y ∧ k' = k.put i y := by
  subst hact
  cases act with
  | request i env err =>
    rw [step] at h
    split_ifs at h with hs
    · obtain ⟨y, hy, rfl⟩ := Option.map_eq_some_iff.mp h
      exact Or.inr ⟨y, Session.request_moves hs hy, rfl⟩
    · exact Or.inl (Option.some.inj h).symm
  | sync i opened paired forked reply =>
    rw [step, if_neg (by simp [show (k.sessions i).master = .waiting from hi])] at h
    exact Or.inl (Option.some.inj h).symm
  | snapshot i report stat content ok err =>
    rw [step, if_neg (by simp [show (k.sessions i).master = .waiting from hi])] at h
    exact Or.inl (Option.some.inj h).symm
  | ready i n err => exact absurd rfl (hready n err)
  | sendfile i n =>
    rw [step, show (k.sessions i).master = .waiting from hi] at h
    exact Or.inl (Option.some.inj h).symm
  | answer i n buffer ready err =>
    rw [step] at h
    split_ifs at h with hs
    · obtain ⟨y, hy, rfl⟩ := Option.map_eq_some_iff.mp h
      exact Or.inr ⟨y, Session.answer_moves hs hy, rfl⟩
    · exact Or.inl (Option.some.inj h).symm
  | chunk i n loaded err =>
    rw [step] at h
    split at h
    next size buf hs =>
      obtain ⟨y, hy, rfl⟩ := Option.map_eq_some_iff.mp h
      exact Or.inr ⟨y, Session.chunk_moves hs hy, rfl⟩
    · exact Or.inl (Option.some.inj h).symm

theorem Held.of_slave {j : ℕ} (hflag : k.isFullSync = true) (hi : (k.sessions i).master = .waiting)
    (hmove : SlaveMove sscanf (k.sessions j) y) : Held i k (k.put j y) := by
  have hsame : ∀ l, ((k.put j y).sessions l).master = (k.sessions l).master ∧
      ((k.put j y).sessions l).masterOut = (k.sessions l).masterOut := by
    intro l
    by_cases hl : l = j
    · subst hl
      simpa [System.put] using ⟨hmove.master_eq.1, hmove.masterOut_eq⟩
    · simp [System.put, hl]
  exact ⟨⟨(hsame i).1.trans hi, (hsame i).2⟩, hflag, rfl, fun l _ => Or.inl (hsame l)⟩

theorem System.Inv.held_step {act : Act} (hk : k.Inv) (hi : (k.sessions i).master = .waiting) (hact : act.Within)
    (hready : ∀ n err, act ≠ .ready i n err) (h : k.step enableSync sscanf act = some k') : Held i k k' := by
  have hactive : Active (k.sessions i) := Or.inr (Or.inl hi)
  have hflag : k.isFullSync = true := hk.flag.mpr ⟨i, hactive⟩
  by_cases hne : act.conn = i
  · rcases System.step_waiting hi hne hready h with rfl | ⟨y, hmove, rfl⟩
    · exact .refl hflag hi
    · exact .of_slave hflag hi hmove
  cases hk.moves hact h with
  | idle => exact .refl hflag hi
  | slave hmove => exact .of_slave hflag hi hmove
  | @master flag tmp y hmove =>
    rw [hflag] at hmove
    have hinactive : ¬ Active (k.sessions act.conn) := fun ha => hne (hk.unique act.conn i ha hactive)
    obtain ⟨hf, ht, hidle, hserved, hbusy⟩ := hmove.held hinactive (hk.each act.conn).master
    have hself : Function.update k.sessions act.conn y i = k.sessions i := Function.update_of_ne (Ne.symm hne) _ _
    refine ⟨⟨(congrArg Session.master hself).trans hi, congrArg Session.masterOut hself⟩, hf, ht, fun j _ => ?_⟩
    by_cases hj : j = act.conn
    · subst hj
      exact Or.inr ⟨hidle, by simpa using hserved, by simpa using hbusy⟩
    · exact Or.inl (by simp [hj])

theorem System.Inv.held_run {acts : List Act} (hk : k.Inv) (hscan : ∀ n < 2 ^ 63, sscanf (masterFullsyncOk n) = some n)
    (hi : (k.sessions i).master = .waiting) (hacts : ∀ act ∈ acts, act.Within ∧ ∀ n err, act ≠ .ready i n err)
    (h : System.run enableSync sscanf acts k = some k') : Held i k k' := by
  induction acts generalizing k with
  | nil =>
    obtain rfl := Option.some.inj h
    exact .refl (hk.flag.mpr ⟨i, Or.inr (Or.inl hi)⟩) hi
  | cons act acts ih =>
    obtain ⟨mid, hstep, hrun⟩ := Option.bind_eq_some_iff.mp h
    obtain ⟨hwithin, hready⟩ := hacts act List.mem_cons_self
    have hheld := hk.held_step hi hwithin hready hstep
    exact hheld.trans (ih (hk.step hscan hwithin hstep) hheld.self.1
      (fun a ha => hacts a (List.mem_cons_of_mem act ha)) hrun)

/-- The master waits for FULLSYNC READY without a bound: as long as its receive on that connection does not return, no
other slave is served, whatever the slaves and the master's other coroutines do. -/
theorem silent_slave_holds_full_sync (hscan : ∀ n < 2 ^ 63, sscanf (masterFullsyncOk n) = some n) (tmp : Bytes)
    {before acts : List Act} (hbefore : ∀ act ∈ before, act.Within)
    (hk : System.run enableSync sscanf before (System.start tmp) = some k) (hi : (k.sessions i).master = .waiting)
    (hacts : ∀ act ∈ acts, act.Within ∧ ∀ n err, act ≠ .ready i n err)
    (h : System.run enableSync sscanf acts k = some k') :
    ((k'.sessions i).master = .waiting ∧ (k'.sessions i).masterOut = (k.sessions i).masterOut) ∧ k'.isFullSync = true ∧
      k'.tmp = k.tmp ∧
      ∀ j, j ≠ i → (k.sessions j).master = .idle → (k'.sessions j).master = .idle ∨
        (k'.sessions j).master = .served ∧ (k'.sessions j).masterOut <+: busyFrame := by
  have hheld := ((System.start_inv tmp).run hscan hbefore hk).held_run hscan hi hacts h
  refine ⟨hheld.self, hheld.flag, hheld.file, fun j hj hidle => ?_⟩
  rcases hheld.others j hj with ⟨hphase, -⟩ | ⟨-, hserved, hbusy⟩
  · exact Or.inl (hphase.trans hidle)
  · exact Or.inr ⟨hserved, hbusy⟩

theorem silent_slave_holds_full_sync_example :
    ∃ k k', System.run true scanFileSize ((twoSlaves [35]).take 4) (System.start []) = some k ∧
      (k.sessions 0).master = .waiting ∧
      System.run true scanFileSize [.snapshot 0 false true [] unsent unsent,
        .sync 1 true true true (sentWhole masterFullsyncBusy)] k = some k' ∧
      (k'.sessions 1).master = .served ∧ k'.isFullSync = true ∧ (k'.sessions 0).master = .waiting := by
  obtain ⟨k, hk⟩ := Option.isSome_iff_exists.mp
    (show (System.run true scanFileSize ((twoSlaves [35]).take 4) (System.start [])).isSome = true by decide +kernel)
  have hphase : (System.run true scanFileSize ((twoSlaves [35]).take 4) (System.start [])).map
      (fun k => (k.sessions 0).master) = some .waiting := by decide +kernel
  have hnext : (System.run true scanFileSize ((twoSlaves [35]).take 4) (System.start [])).bind (fun k =>
      (System.run true scanFileSize [.snapshot 0 false true [] unsent unsent,
        .sync 1 true true true (sentWhole masterFullsyncBusy)] k).map
        (fun k' => (k'.sessions 1).master)) = some .served := by decide +kernel
  rw [hk] at hphase hnext
  have hwait : (k.sessions 0).master = .waiting := Option.some.inj hphase
  obtain ⟨k', hk', hserved⟩ := Option.map_eq_some_iff.mp hnext
  obtain ⟨⟨hself, -⟩, hflag, -⟩ := silent_slave_holds_full_sync (fun n _ => scanFileSize_ok n) []
    (by simp [twoSlaves, Act.Within]) hk hwait (by simp [Act.Within]) hk'
  exact ⟨k, k', hk, hwait, hk', hserved, hflag, hself⟩

end

end Lidis.Sessions
