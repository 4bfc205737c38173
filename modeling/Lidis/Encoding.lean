import Lidis.Client

namespace Lidis

inductive Encoding where
  | kvsp
  | resp
  deriving DecidableEq

namespace Encoding

def protocol : Encoding → Protocol
  | kvsp => .kvsp
  | resp => .resp

/-- The frame of a request whose tokens are any byte strings. -/
def rawFrame : Encoding → List Bytes → Bytes
  | kvsp, cs => Kvsp.rawFrame cs
  | resp, cs => Resp.rawFrame cs

def rawHeadLen : Encoding → List Bytes → ℕ
  | kvsp, cs => (Kvsp.headOf (Kvsp.rawBody cs).length).length
  | resp, cs => (Resp.headOf cs.length).length

def frame (e : Encoding) (ts : List CString) : Bytes := e.rawFrame (ts.map CString.bytes)

def headLen (e : Encoding) (ts : List CString) : ℕ := e.rawHeadLen (ts.map CString.bytes)

def mark : Encoding → UInt8
  | kvsp => 35
  | resp => 42

def stream (e : Encoding) (tss : List (List CString)) : Bytes := tss.flatMap e.frame

@[simp] theorem stream_nil (e : Encoding) : e.stream [] = [] := rfl

@[simp] theorem stream_cons (e : Encoding) (ts : List CString) (tss : List (List CString)) :
    e.stream (ts :: tss) = e.frame ts ++ e.stream tss := by simp [stream]

theorem stream_append (e : Encoding) (tss uss : List (List CString)) :
    e.stream (tss ++ uss) = e.stream tss ++ e.stream uss := List.flatMap_append

theorem kvsp_frame (ts : List CString) : Encoding.kvsp.frame ts = Kvsp.frameOf ts := rfl

theorem rawFrame_eq_cons (e : Encoding) (cs : List Bytes) : ∃ rest, e.rawFrame cs = e.mark :: rest := by
  cases e with
  | kvsp => exact ⟨_, rfl⟩
  | resp => exact ⟨_, rfl⟩

theorem frame_eq_cons (e : Encoding) (ts : List CString) : ∃ rest, e.frame ts = e.mark :: rest := e.rawFrame_eq_cons _

theorem rawFrame_pos (e : Encoding) (cs : List Bytes) : 0 < (e.rawFrame cs).length := by
  obtain ⟨rest, h⟩ := e.rawFrame_eq_cons cs
  rw [h]
  exact Nat.succ_pos _

theorem frame_pos (e : Encoding) (ts : List CString) : 0 < (e.frame ts).length := e.rawFrame_pos _

theorem protocol_ne_unknown (e : Encoding) : e.protocol ≠ .unknown := by cases e <;> simp [protocol]

end Encoding

variable {e : Encoding} {cli : Client} {ts : List CString}

theorem recvProtocol_rawFrame {cs : List Bytes} {more : Bytes} (hp : cli.protocol = e.protocol)
    (hk : cli.rbuf.take cli.rPos = (e.rawFrame cs ++ more).take cli.rPos) (h0 : 0 < cli.rPos)
    (hs : (e.rawFrame cs).length ≤ intMax) :
    recvProtocol cli =
      some (if (e.rawFrame cs).length ≤ cli.rPos then .frame (e.rawFrame cs).length (e.rawHeadLen cs) else .more) := by
  cases e with
  | resp =>
    rw [recvProtocol, hp]
    exact Resp.parse_rawFrame hk h0 hs
  | kvsp =>
    have hrecv : recvProtocol cli =
        some (Kvsp.kvspParseBulkSize ((Encoding.kvsp.rawFrame cs ++ more).take cli.rPos)) := by
      rw [recvProtocol, hp, ← hk]
      rfl
    rw [hrecv, Option.some.injEq]
    by_cases hfit : (Encoding.kvsp.rawFrame cs).length ≤ cli.rPos
    · rw [if_pos hfit, List.take_append, List.take_of_length_le hfit]
      exact Kvsp.parse_rawFrame _ hs
    · rw [if_neg hfit, List.take_append_of_le_length (by omega)]
      refine Kvsp.parse_cut hs (List.take_append_drop cli.rPos _) ?_ ?_
      · exact List.ne_nil_of_length_pos (by rw [List.length_take]; omega)
      · exact List.ne_nil_of_length_pos (by rw [List.length_drop]; omega)

theorem recvProtocol_frame {more : Bytes} (hp : cli.protocol = e.protocol)
    (hk : cli.rbuf.take cli.rPos = (e.frame ts ++ more).take cli.rPos) (h0 : 0 < cli.rPos)
    (hs : (e.frame ts).length ≤ intMax) :
    recvProtocol cli =
      some (if (e.frame ts).length ≤ cli.rPos then .frame (e.frame ts).length (e.headLen ts) else .more) :=
  recvProtocol_rawFrame hp hk h0 hs

theorem kvsSplitToken_rawFrame {cs : List Bytes} {junk : Bytes} (hp : cli.protocol = e.protocol)
    (hb : cli.rbuf = e.rawFrame cs ++ 0 :: junk) (htl : cli.cmdTl = (e.rawFrame cs).length)
    (hhl : cli.cmdHl = e.rawHeadLen cs) (hmax : cs.length ≤ maxTokens) (hs : (e.rawFrame cs).length ≤ intMax) :
    ∃ mem addresses, kvsSplitToken cli = some (some (mem, addresses)) ∧
      addresses.mapM (CString.read mem) = some (cs.map CString.prefixOf) ∧
      mem.drop (e.rawFrame cs).length = 0 :: junk := by
  rw [kvsSplitToken, hp, hb, htl, hhl]
  cases e with
  | kvsp =>
    obtain ⟨mem, addresses, hsplit, hread, -, hdrop⟩ := Kvsp.splitToken_rawFrame (0 :: junk) hmax hs
    exact ⟨mem, addresses, congrArg some hsplit, hread, hdrop⟩
  | resp =>
    obtain ⟨mem, addresses, hsplit, hread, hdrop⟩ := Resp.splitToken_rawFrame junk hmax hs
    exact ⟨mem, addresses, hsplit, hread, hdrop⟩

theorem kvsSplitToken_frame {junk : Bytes} (hp : cli.protocol = e.protocol) (hb : cli.rbuf = e.frame ts ++ 0 :: junk)
    (htl : cli.cmdTl = (e.frame ts).length) (hhl : cli.cmdHl = e.headLen ts) (hmax : ts.length ≤ maxTokens)
    (hs : (e.frame ts).length ≤ intMax) :
    ∃ mem addresses, kvsSplitToken cli = some (some (mem, addresses)) ∧
      addresses.mapM (CString.read mem) = some ts ∧ mem.drop (e.frame ts).length = 0 :: junk := by
  obtain ⟨mem, addresses, hsplit, hread, hdrop⟩ := kvsSplitToken_rawFrame hp hb htl hhl (by rwa [List.length_map]) hs
  rw [CString.map_prefixOf_bytes] at hread
  exact ⟨mem, addresses, hsplit, hread, hdrop⟩

theorem kvsDetectProtocol_mark (h0 : 0 < cli.rPos) (hm : cli.rbuf[0]? = some e.mark) :
    kvsDetectProtocol cli = ({ cli with protocol := e.protocol }, 0) := by
  rw [kvsDetectProtocol, if_neg h0.ne', hm]
  cases e <;> rfl

end Lidis
