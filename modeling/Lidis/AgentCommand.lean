import Lidis.AgentRelay
import Lidis.Fragmentation

namespace Lidis

open Agent Kvsp

/-- A body that begins with a well-formed item and ends as a body should; what stands between is open. -/
def OpensWith (text : Bytes) (x : Item) : Prop :=
  x.content.length ≤ intMax ∧ ∃ more, text = x.bytes ++ (more ++ crlf)

theorem Kvsp.IsBody.opens {text : Bytes} {x : Item} {xs : List Item} (h : IsBody text (x :: xs)) : OpensWith text x := by
  refine ⟨h.small x List.mem_cons_self, xs.flatMap Item.bytes, ?_⟩
  rw [h.text_eq, List.flatMap_cons, List.append_assoc]

theorem OpensWith.ne_nil {text : Bytes} {x : Item} {xs : List Item} (h : OpensWith text x) (hbody : IsBody text xs) :
    xs ≠ [] := by
  rintro rfl
  obtain ⟨-, more, htext⟩ := h
  have hlen := congrArg List.length (htext.symm.trans hbody.text_eq)
  rw [List.length_append, x.bytes_length] at hlen
  simp only [List.length_append, List.flatMap_nil, List.length_nil] at hlen
  omega

section

variable {buf : Bytes} {head total : ℕ}

theorem parseCommand_inv {alloc : Bool} {s : CString} (h : kvsAgentParseCommand buf head total alloc = some s) :
    alloc = true ∧ ∃ x, OpensWith ((buf.drop head).take (total - head)) x ∧ s = .prefixOf x.content := by
  rw [kvsAgentParseCommand] at h
  by_cases hshort : total - head < 2
  · simp [hshort] at h
  rw [if_neg hshort] at h
  dsimp only at h
  by_cases hend : (buf.drop (head + (total - head - 2))).take 2 ≠ crlf
  · simp [hend] at h
  rw [if_neg hend] at h
  have htext : (buf.drop head).take (total - head) = (buf.drop head).take (total - head - 2) ++ crlf := by
    rw [← not_not.mp hend, ← List.drop_drop, ← List.take_add]
    congr 1
    omega
  rcases hdrop : buf.drop head with _ | ⟨c, rest⟩
  · simp [hdrop] at h
  rw [hdrop] at h htext
  dsimp only at h
  by_cases hc : c ≠ 94
  · simp [hc] at h
  rw [if_neg hc] at h
  rcases hn : total - head - 2 with _ | n
  · simp [hn, scanDigits] at h
  rw [hn, List.take_succ_cons] at htext
  rw [hn, List.take_succ_cons, List.drop_one, List.tail_cons] at h
  rcases hscan : scanDigits intMax 0 (rest.take n) with _ | ⟨len, tail⟩
  · simp only [hscan] at h
    cases h
  simp only [hscan] at h
  by_cases hdig : tail.length = (rest.take n).length
  · rw [if_pos hdig] at h
    cases h
  rw [if_neg hdig] at h
  rcases tail with _ | ⟨d, content⟩
  · simp at h
  dsimp only at h
  by_cases hd : d ≠ 38
  · simp [hd] at h
  rw [if_neg hd] at h
  by_cases hlen : content.length < len
  · simp [hlen] at h
  rw [if_neg hlen] at h
  obtain rfl := not_not.mp hc
  obtain rfl := not_not.mp hd
  obtain ⟨x, hx, hcontent, hsmall⟩ := Item.of_scan hscan hdig (not_lt.mp hlen)
  cases alloc with
  | false => simp at h
  | true =>
    refine ⟨rfl, x, ⟨hsmall, content.drop len, ?_⟩, ?_⟩
    · rw [htext, hx, List.append_assoc]
    · rw [hcontent]
      exact (Option.some.inj h).symm

theorem parseCommand_iff (hh : head ≤ total) (ht : total ≤ buf.length) {alloc : Bool} {s : CString} :
    kvsAgentParseCommand buf head total alloc = some s ↔
      alloc = true ∧ ∃ x, OpensWith ((buf.drop head).take (total - head)) x ∧ s = .prefixOf x.content := by
  refine ⟨parseCommand_inv, ?_⟩
  rintro ⟨rfl, x, ⟨hx, more, htext⟩, rfl⟩
  obtain ⟨hbuf, hhead, htotal⟩ := take_drop_parts hh ht
  have hitem := parseCommand_item x hx (buf.take head) more (buf.drop total) true
  rw [← htext, ← hbuf, hhead, htotal] at hitem
  exact hitem

theorem splitToken_iff (hh : head ≤ total) (ht : total ≤ buf.length) {s : CString} :
    (∃ mem a tokens, splitToken buf head total = some (mem, a :: tokens) ∧ CString.read mem a = some s) ↔
      ∃ x xs, IsBody ((buf.drop head).take (total - head)) (x :: xs) ∧ s = .prefixOf x.content := by
  have hread : ∀ x xs, IsBody ((buf.drop head).take (total - head)) (x :: xs) → ∃ mem,
      splitToken buf head total = some (mem, Item.contents head (x :: xs)) ∧
        CString.read mem (head + x.digits.length + 2) = some (.prefixOf x.content) := by
    intro x xs hbody
    refine ⟨_, splitToken_isBody hh ht hbody, ?_⟩
    have hhead : (buf.take head).length = head := (take_drop_parts hh ht).2.1
    have hall := Item.read_contents (x :: xs) (buf.take head) (10 :: buf.drop total) true
    rw [hhead, List.map_cons, Item.contents, List.mapM_cons] at hall
    obtain ⟨t, ht, hall⟩ := Option.bind_eq_some_iff.mp hall
    obtain ⟨ts, -, hall⟩ := Option.bind_eq_some_iff.mp hall
    rw [ht, (List.cons.inj (Option.some.inj hall)).1]
  constructor
  · rintro ⟨mem, a, tokens, hsplit, hs⟩
    obtain ⟨-, -, xs, hbody⟩ := splitToken_some hsplit
    cases xs with
    | nil =>
      rw [splitToken_isBody hh ht hbody] at hsplit
      cases hsplit
    | cons x xs =>
      obtain ⟨mem', hsplit', hx⟩ := hread x xs hbody
      rw [hsplit] at hsplit'
      obtain ⟨rfl, hcons⟩ := Prod.mk.inj (Option.some.inj hsplit')
      rw [(List.cons.inj hcons).1, hx] at hs
      exact ⟨x, xs, hbody, (Option.some.inj hs).symm⟩
  · rintro ⟨x, xs, hbody, rfl⟩
    obtain ⟨mem, hsplit, hx⟩ := hread x xs hbody
    exact ⟨mem, _, _, hsplit, hx⟩

theorem splitToken_none_iff (hh : head ≤ total) (ht : total ≤ buf.length) :
    splitToken buf head total = none ↔ ¬ ∃ xs, IsBody ((buf.drop head).take (total - head)) xs := by
  constructor
  · rintro hnone ⟨xs, hbody⟩
    rw [splitToken_isBody hh ht hbody] at hnone
    cases hnone
  · intro hbody
    cases hsplit : splitToken buf head total with
    | none => rfl
    | some r => exact absurd (splitToken_some hsplit).2.2 hbody

/-- The agent has a command where the server has a first token, and it is that token. -/
def SameCommand (buf : Bytes) (head total : ℕ) (alloc : Bool) : Prop :=
  ∀ s, kvsAgentParseCommand buf head total alloc = some s ↔
    ∃ mem a tokens, splitToken buf head total = some (mem, a :: tokens) ∧ CString.read mem a = some s

/-- A frame that the server rejects is neither sent on nor kept. -/
def Withheld (buf : Bytes) (head total : ℕ) (alloc : Bool) : Prop :=
  splitToken buf head total = none → ∀ env i (a : AgentInfo), a.buf = buf → env.command i = alloc →
    kvsAgentHandler env i head total a = some (-2, a)

theorem SameCommand.withheld {alloc : Bool} (h : SameCommand buf head total alloc) : Withheld buf head total alloc := by
  intro hnone env i a ha halloc
  have hcommand : kvsAgentParseCommand a.buf head total (env.command i) = none := by
    rw [ha, halloc]
    rcases hc : kvsAgentParseCommand buf head total alloc with _ | s
    · rfl
    · obtain ⟨mem, b, tokens, hsplit, -⟩ := (h s).mp hc
      rw [hnone] at hsplit
      cases hsplit
  rw [kvsAgentHandler, hcommand]

end

theorem agent_server_agree_iff (buf : Bytes) (total head : ℕ) (alloc : Bool)
    (h : Kvsp.kvspParseBulkSize buf = .frame total head) :
    (SameCommand buf head total alloc ∧ Withheld buf head total alloc) ↔
      if alloc then ∀ x, OpensWith ((buf.drop head).take (total - head)) x →
        ∃ xs, IsBody ((buf.drop head).take (total - head)) xs
      else ∀ xs, IsBody ((buf.drop head).take (total - head)) xs → xs = [] := by
  obtain ⟨hh, ht⟩ := parse_frame_bounds h
  have hagree : SameCommand buf head total alloc ↔ ∀ s : CString,
      (alloc = true ∧ ∃ x, OpensWith ((buf.drop head).take (total - head)) x ∧ s = .prefixOf x.content) ↔
        ∃ x xs, IsBody ((buf.drop head).take (total - head)) (x :: xs) ∧ s = .prefixOf x.content := by
    simp only [SameCommand, parseCommand_iff hh ht, splitToken_iff hh ht]
  rw [and_iff_left_of_imp SameCommand.withheld, hagree]
  cases alloc with
  | false =>
    rw [if_neg Bool.false_ne_true]
    constructor
    · intro hall xs hbody
      cases xs with
      | nil => rfl
      | cons x xs => exact absurd ((hall _).mpr ⟨x, xs, hbody, rfl⟩).1 Bool.false_ne_true
    · intro hnone s
      constructor
      · rintro ⟨hfalse, -⟩
        exact absurd hfalse Bool.false_ne_true
      · rintro ⟨x, xs, hbody, -⟩
        exact absurd (hnone _ hbody) (List.cons_ne_nil x xs)
  | true =>
    rw [if_pos rfl]
    constructor
    · intro hall x hx
      obtain ⟨y, ys, hbody, -⟩ := (hall _).mp ⟨rfl, x, hx, rfl⟩
      exact ⟨y :: ys, hbody⟩
    · intro hwhole s
      constructor
      · rintro ⟨-, x, hx, rfl⟩
        obtain ⟨xs, hbody⟩ := hwhole x hx
        obtain ⟨y, ys, rfl⟩ := List.exists_cons_of_ne_nil (hx.ne_nil hbody)
        refine ⟨y, ys, hbody, ?_⟩
        -- both items are what the agent reads
        have hfirst := (parseCommand_iff hh ht).mpr ⟨rfl, x, hx, rfl⟩
        have hsame := (parseCommand_iff hh ht).mpr ⟨rfl, y, hbody.opens, rfl⟩
        exact Option.some.inj (hfirst.symm.trans hsame)
      · rintro ⟨x, xs, hbody, rfl⟩
        exact ⟨rfl, x, hbody.opens, rfl⟩

theorem agent_server_agree_iff_set :
    SameCommand (ascii "#16\r\n^3&SET^1&k^1&v\r\n") 5 21 true ∧
      Withheld (ascii "#16\r\n^3&SET^1&k^1&v\r\n") 5 21 true := by
  apply (agent_server_agree_iff _ 21 5 true (by decide +kernel)).mpr
  intro x _
  have htext : ((ascii "#16\r\n^3&SET^1&k^1&v\r\n").drop 5).take (21 - 5) = body [.lit "SET", .lit "k", .lit "v"] := by
    decide +kernel
  rw [htext]
  exact ⟨_, rawBody_isBody (by decide) (by decide +kernel)⟩

/-- A connection that holds a frame the splitter rejects is closed. -/
theorem handleFrame_refused {P : Params} {env : ℕ → Env} {c : Conn Global} {frame rest : Bytes} {x : UInt8} {head : ℕ}
    (hp : c.cli.protocol = .kvsp) (hbuf : c.cli.rbuf = frame ++ x :: rest) (hhead : head ≤ frame.length)
    (h : splitToken frame head frame.length = none) :
    ∃ c', handleFrame (protocolHandler P env) frame.length head c = some (c', some (.handler (some (-1)))) := by
  have htext : ((frame ++ 0 :: rest).drop head).take (frame.length - head) =
      (frame.drop head).take (frame.length - head) := by
    rw [List.drop_append_of_le_length hhead, List.take_append_of_le_length (by rw [List.length_drop])]
  have hrefused : splitToken (frame ++ 0 :: rest) head frame.length = none := by
    rw [splitToken_none_iff hhead (by simp), htext]
    exact (splitToken_none_iff hhead le_rfl).mp h
  have hhandler : protocolHandler P env c.calls (c.cli.load (frame ++ 0 :: rest) frame.length head) c.state =
      some (-1, c.cli.load (frame ++ 0 :: rest) frame.length head, c.state) := by
    apply kvsProtocol_refused
    simp only [kvsSplitToken, Client.load, hp, hrefused]
  rw [handleFrame, hbuf, byteAt_cell, Resp.poke_cell]
  simp only [Option.bind_eq_bind, Option.bind_some, hhandler]
  simp only [finishFrame, Client.load, Resp.poke_cell, Option.bind_eq_bind, Option.bind_some]
  exact ⟨_, rfl⟩

def brokenFrame : Bytes := ascii "#10\r\n^3&SETxx\r\n"

def oneSlave : AgentInfo := { kvsAgentInfoInit 64 [] ⟨[5], 1⟩ with state := .incrSync, buf := brokenFrame }

theorem broken_frame_is_forwarded :
    Kvsp.kvspParseBulkSize brokenFrame = .frame 15 5 ∧ splitToken brokenFrame 5 15 = none ∧
    kvsAgentParseCommand brokenFrame 5 15 true = some (.lit "SET") ∧
    (kvsAgentHandler .granting 0 5 15 oneSlave).map (fun r => (r.1, r.2.sent 5)) = some (0, brokenFrame) ∧
    ∀ P env (c : Conn Global) x rest, c.cli.protocol = .kvsp → c.cli.rbuf = brokenFrame ++ x :: rest →
      ∃ c', handleFrame (protocolHandler P env) 15 5 c = some (c', some (.handler (some (-1)))) := by
  have hsplit : splitToken brokenFrame 5 15 = none := by decide +kernel
  refine ⟨by decide +kernel, hsplit, by decide +kernel, by decide +kernel, ?_⟩
  intro P env c x rest hp hbuf
  exact handleFrame_refused hp hbuf (by decide) hsplit

end Lidis
