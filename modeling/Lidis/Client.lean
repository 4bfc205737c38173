import Lidis.KvsMempool
import Lidis.KvspTokens
import Lidis.RespFrame

namespace Lidis

inductive Protocol where
  | unknown
  | resp
  | kvsp
  deriving DecidableEq

/-- A connection: `rbuf` and `wbuf` are the whole allocated blocks. -/
structure Client where
  rbuf : Bytes
  rCap : ℕ
  rPos : ℕ
  cmdTl : ℕ
  cmdHl : ℕ
  wbuf : Bytes
  wCap : ℕ
  wPos : ℕ
  role : ℕ
  protocol : Protocol

open Mempool (Grant)

/-- A block of `n` bytes with the old content kept; `fresh` is what the added memory holds. -/
def stretch (fresh : ℕ → UInt8) (mem : Bytes) (n : ℕ) : Bytes :=
  mem.take n ++ (List.range (n - mem.length)).map fresh

/-- The block that mp_realloc answers with for `n` bytes, see `Mempool.Arena.Stands.realloc_room`. That it copies more
than the old block is another matter. -/
def kvsRealloc (fresh : ℕ → UInt8) (mem : Bytes) (n : ℕ) (grant : Grant) : Option Bytes :=
  (grant.room mem.length n).map (stretch fresh mem)

def sprintf (mem : Bytes) (pos : ℕ) (text : Bytes) : Option Bytes :=
  if pos + text.length + 1 ≤ mem.length then
    some (mem.take pos ++ (text ++ 0 :: mem.drop (pos + text.length + 1)))
  else none

def kvsDetectProtocol (cli : Client) : Client × ℤ :=
  if cli.rPos = 0 then (cli, 1)
  else if cli.rbuf[0]? = some 42 then ({ cli with protocol := .resp }, 0)
  else if cli.rbuf[0]? = some 35 then ({ cli with protocol := .kvsp }, 0)
  else (cli, -2)

def recvProtocol (cli : Client) : Option BulkSize :=
  match cli.protocol with
  | .kvsp => some (Kvsp.kvspParseBulkSize (cli.rbuf.take cli.rPos))
  | .resp => Resp.respParseBulkSize cli.rbuf cli.rPos
  | .unknown => none

/-- The memory and the addresses of the tokens; the outer `none` is an access outside the memory or the token
array, the inner one a negative return. -/
def kvsSplitToken (cli : Client) : Option (Option (Bytes × List ℕ)) :=
  match cli.protocol with
  | .kvsp => some (Kvsp.splitToken cli.rbuf cli.cmdHl cli.cmdTl)
  | .resp => Resp.splitToken cli.rbuf cli.cmdHl
  | .unknown => some none

theorem stretch_length (fresh : ℕ → UInt8) {mem : Bytes} {n : ℕ} (h : mem.length ≤ n) :
    (stretch fresh mem n).length = n := by
  simp only [stretch, List.length_append, List.length_take, List.length_map, List.length_range]
  omega

theorem Grant.room_bounds {grant : Grant} {old n k : ℕ} (h : grant.room old n = some k) (hold : old ≤ n)
    (hn : n ≤ intMax) : old ≤ k ∧ k ≤ n ∧ (grant = .whole → k = n) := by
  have husable := Mempool.le_usableSize (show old + 31 < Mempool.sizeT by simp only [intMax, Mempool.sizeT] at *; omega)
  rw [Mempool.Grant.room] at h
  split_ifs at h with hwhole <;> obtain rfl := Option.some.inj h
  · exact ⟨hold, le_rfl, fun _ => rfl⟩
  · exact ⟨le_min hold husable, min_le_left _ _, fun hg => absurd hg hwhole⟩
  · exact ⟨hold, le_rfl, fun _ => rfl⟩

theorem Grant.room_of_larger {grant : Grant} {old n k : ℕ} (h : grant.room old n = some k)
    (hn : max Mempool.largeThreshold old < n) : k = n := by
  have hle := Mempool.recordedSize_le old
  rw [Mempool.Grant.room, if_neg (show ¬ n ≤ Mempool.recordedSize old by omega)] at h
  split_ifs at h <;> exact (Option.some.inj h).symm

theorem kvsRealloc_room {fresh : ℕ → UInt8} {mem b : Bytes} {n : ℕ} {grant : Grant}
    (h : kvsRealloc fresh mem n grant = some b) (hmem : mem.length ≤ n) (hn : n ≤ intMax) :
    grant.room mem.length n = some b.length := by
  obtain ⟨k, hroom, rfl⟩ := Option.map_eq_some_iff.mp h
  have hle := (Grant.room_bounds hroom hmem hn).1
  rw [hroom, stretch_length fresh hle]

theorem kvsRealloc_spec {fresh : ℕ → UInt8} {mem b : Bytes} {n : ℕ} {grant : Grant}
    (h : kvsRealloc fresh mem n grant = some b) (hmem : mem.length ≤ n) (hn : n ≤ intMax) :
    mem.length ≤ b.length ∧ b.length ≤ n ∧ (grant = .whole ∨ Mempool.largeThreshold < n ∧ mem.length < n → b.length = n) ∧
      ∀ k ≤ mem.length, b.take k = mem.take k := by
  have hroom := kvsRealloc_room h hmem hn
  obtain ⟨hle, hlen, hwhole⟩ := Grant.room_bounds hroom hmem hn
  refine ⟨hle, hlen, fun hfull => hfull.elim hwhole fun hlarge => Grant.room_of_larger hroom (max_lt hlarge.1 hlarge.2),
    fun j hj => ?_⟩
  obtain ⟨k, hk, rfl⟩ := Option.map_eq_some_iff.mp h
  have hjk := hj.trans (Grant.room_bounds hk hmem hn).1
  rw [stretch, List.take_append_of_le_length (by rw [List.length_take]; omega), List.take_take, min_eq_left hjk]

theorem kvsRealloc_whole (fresh : ℕ → UInt8) {mem : Bytes} {n : ℕ} (h : mem.length ≤ n) :
    ∃ b, kvsRealloc fresh mem n .whole = some b ∧ b.length = n := ⟨_, rfl, stretch_length fresh h⟩

@[simp] theorem kvsRealloc_whole_ne_none (fresh : ℕ → UInt8) (mem : Bytes) (n : ℕ) :
    kvsRealloc fresh mem n .whole ≠ none := nofun

theorem kvsRealloc_refused {fresh : ℕ → UInt8} {mem : Bytes} {n : ℕ} {grant : Grant}
    (h : kvsRealloc fresh mem n grant = none) : grant = .refused := by
  rw [kvsRealloc, Option.map_eq_none_iff, Mempool.Grant.room] at h
  split_ifs at h with _ _ hrefused
  exact hrefused

theorem sprintf_spec {mem mem' : Bytes} {pos : ℕ} {text : Bytes} (h : sprintf mem pos text = some mem') :
    pos + text.length + 1 ≤ mem.length ∧ mem'.length = mem.length ∧
      mem'.take (pos + text.length) = mem.take pos ++ text := by
  rw [sprintf] at h
  split_ifs at h with hfit
  obtain rfl := Option.some.inj h
  refine ⟨hfit, ?_, ?_⟩
  · simp only [List.length_append, List.length_take, List.length_cons, List.length_drop]
    omega
  · have hlen : pos + text.length = (mem.take pos ++ text).length := by
      rw [List.length_append, List.length_take, min_eq_left (by omega)]
    rw [← List.append_assoc, hlen, List.take_left]

structure Client.Fits (cli : Client) : Prop where
  cap_pos : 0 < cli.wCap
  le_cap : cli.wbuf.length ≤ cli.wCap + 1
  pos_le : cli.wPos ≤ cli.wCap
  written : cli.wPos ≤ cli.wbuf.length

structure Client.WriteOk (cli : Client) : Prop extends cli.Fits where
  cap_le : cli.wCap ≤ cli.wbuf.length

theorem Client.Fits.congr {a b : Client} (h : a.Fits) (hb : b.wbuf.length = a.wbuf.length) (hc : b.wCap = a.wCap)
    (hp : b.wPos = a.wPos) : b.Fits := by
  constructor
  · rw [hc]; exact h.cap_pos
  · rw [hb, hc]; exact h.le_cap
  · rw [hp, hc]; exact h.pos_le
  · rw [hp, hb]; exact h.written

theorem Client.Fits.flushed {cli : Client} (h : cli.Fits) : Client.Fits { cli with wPos := 0 } :=
  ⟨h.cap_pos, h.le_cap, Nat.zero_le _, Nat.zero_le _⟩

theorem Client.WriteOk.congr {a b : Client} (h : a.WriteOk) (hb : b.wbuf.length = a.wbuf.length) (hc : b.wCap = a.wCap)
    (hp : b.wPos = a.wPos) : b.WriteOk :=
  ⟨h.toFits.congr hb hc hp, by rw [hb, hc]; exact h.cap_le⟩

structure Client.Extends (cli cli' : Client) (text : Bytes) : Prop where
  same : ∃ b c, cli' = { cli with wbuf := b, wCap := c }
  kept : cli'.wbuf.take (cli.wPos + text.length) = cli.wbuf.take cli.wPos ++ text
  fits : cli'.Fits
  room : cli.wPos + text.length ≤ cli'.wCap
  held : cli.wPos + text.length ≤ cli'.wbuf.length
  grown : cli.wCap ≤ cli'.wCap

theorem Client.Extends.wPos {cli cli' : Client} {text : Bytes} (h : cli.Extends cli' text) : cli'.wPos = cli.wPos := by
  obtain ⟨b, c, rfl⟩ := h.same
  rfl

theorem Client.Extends.appended {cli cli' : Client} {text : Bytes} (h : cli.Extends cli' text) (hw : cli.Fits) :
    (cli'.wbuf.drop cli.wPos).take text.length = text := by
  have hlen : (cli.wbuf.take cli.wPos).length = cli.wPos := by rw [List.length_take, min_eq_left hw.written]
  have hdrop := congrArg (List.drop cli.wPos) h.kept
  rwa [List.drop_take, Nat.add_sub_cancel_left, List.drop_left' hlen] at hdrop

theorem Client.Fits.extends_self {cli : Client} (h : cli.Fits) : cli.Extends cli [] :=
  ⟨⟨cli.wbuf, cli.wCap, rfl⟩, by simp, h, by simpa using h.pos_le, by simpa using h.written, le_rfl⟩

theorem Client.Extends.trans {a b c : Client} {text : Bytes} (h : a.Extends b []) (h' : b.Extends c text) :
    a.Extends c text := by
  have hpos := h.wPos
  obtain ⟨x, y, rfl⟩ := h.same
  obtain ⟨x', y', rfl⟩ := h'.same
  refine ⟨⟨x', y', rfl⟩, ?_, h'.fits, h'.room, h'.held, h.grown.trans h'.grown⟩
  rw [h'.kept]
  have hk := h.kept
  simp only [List.length_nil, Nat.add_zero, List.append_nil] at hk
  rw [hk]

theorem Client.Fits.realloc {cli : Client} (h : cli.Fits) {fresh : ℕ → UInt8} {n c : ℕ} {grant : Grant} {b : Bytes}
    (hb : kvsRealloc fresh cli.wbuf n grant = some b) (hint : n ≤ intMax) (hc : cli.wCap < c) (hn : n = c ∨ n = c + 1) :
    cli.Extends { cli with wbuf := b, wCap := c } [] ∧ (grant = .whole → c ≤ b.length) := by
  have hcap := h.le_cap
  have hpos := h.pos_le
  have hwritten := h.written
  obtain ⟨hlonger, hle, hwhole, htake⟩ := kvsRealloc_spec hb (by omega) hint
  refine ⟨⟨⟨_, _, rfl⟩, ?_, ⟨Nat.zero_lt_of_lt hc, ?_, ?_, ?_⟩, ?_, ?_, hc.le⟩, fun hg => ?_⟩
  · rw [List.length_nil, Nat.add_zero, List.append_nil]
    exact htake _ hwritten
  · exact hle.trans (show n ≤ c + 1 by omega)
  · exact hpos.trans hc.le
  · exact hwritten.trans hlonger
  · exact hpos.trans hc.le
  · exact hwritten.trans hlonger
  · have hlen := hwhole (.inl hg)
    omega

end Lidis
