import Lidis.Agreement
import Lidis.Encoding
import Lidis.ReplyRoom
import Lidis.SnapshotContent

namespace Lidis

open Engine Store

namespace Engine

variable {S T : Type}

/-- A set answered 0 makes the key readable, unless its node was there before, and leaves the other keys alone. -/
def Stores (e : Engine S) (R : S → Prop) : Prop :=
  ∀ s s' k v sys, R s → e.call s (.set k v, sys) = some (s', .code 0) →
    (e.exist s (some k) ≠ some 0 → e.get s' (some k) = some (some v)) ∧
      ∀ j, j ≠ k → e.get s' (some j) = e.get s (some j)

theorem Tolerates.stores {e : Engine S} {c : FMap.Contract} {R : S → Map → Prop} (h : e.Tolerates c R (fun _ => True))
    (hget : ∀ s m k, R s m → e.get s (some k) = some (m.get k)) : e.Stores (fun s => ∃ m, R s m) := by
  rintro s s' k v sys ⟨m, hR⟩ hc
  rcases h s m _ s' _ hR trivial hc with ⟨ha, hR'⟩ | ⟨ha, -⟩
  · simp only [FMap.step] at ha hR'
    split_ifs at ha hR' with hfull hsome
    · exact absurd (MapAnswer.code.inj ha) (by decide)
    · exact absurd (MapAnswer.code.inj ha) (by decide)
    · constructor
      · intro _
        rw [hget s' _ k hR', FMap.insert_get, if_pos rfl]
      · intro j hj
        rw [hget s' _ j hR', hget s m j hR, FMap.insert_get, if_neg hj]
  · exact absurd (MapAnswer.code.inj ha) (by decide)

theorem Stores.within {e : Engine S} {R : S → Prop} {Q : T → Prop} (view : T → S) (put : T → S → T) (h : e.Stores R)
    (hput : ∀ t, put t (view t) = t) (hview : ∀ t s, view (put t s) = s) (hQ : ∀ t, Q t → R (view t)) :
    (e.within view put).Stores Q := by
  intro t t' k v sys hq hc
  rw [within_call hput] at hc
  obtain ⟨⟨s', a⟩, hr, he⟩ := Option.map_eq_some_iff.mp hc
  obtain ⟨rfl, rfl⟩ := Prod.mk.inj he
  have hs := h (view t) s' k v sys (hQ t hq) hr
  simpa only [Engine.within, hview] using hs

end Engine

theorem Rbtree.engine_stores : Rbtree.engine.Stores (fun T => ∃ l, Rbtree.Lists T l) := by
  rintro T T' k v sys ⟨l, hl⟩ hc
  obtain ⟨⟨T1, n⟩, hset, he⟩ := Option.map_eq_some_iff.mp hc
  obtain ⟨rfl, hn⟩ := Prod.mk.inj he
  obtain rfl := MapAnswer.code.inj hn
  obtain ⟨l', hl', -, hnew, hother⟩ := Rbtree.set_zero hl hset
  constructor
  · intro habs
    have hk : k ∉ FMap.keys l := by
      intro hk
      apply habs
      change Rbtree.kvsRbtreeExist T (some k) = some 0
      rw [Rbtree.exist_keys hl, if_pos hk]
    change Rbtree.kvsRbtreeGet T1 (some k) = some (some v)
    rw [Rbtree.get_lookup hl', hnew hk]
    rfl
  · intro j hj
    change Rbtree.kvsRbtreeGet T1 (some j) = Rbtree.kvsRbtreeGet T (some j)
    rw [Rbtree.get_lookup hl', Rbtree.get_lookup hl, hother j hj]

theorem Store.engine_stores (P : Params) (id : EngineId) : (engine P id).Stores (Formed P) := by
  cases id with
  | array =>
    exact Stores.within Store.array (fun s a => { s with array := a })
      ((KvsArray.engine_tolerates P).stores (fun _ _ k h => KvsArray.get_stands h k)) (fun _ => rfl) (fun _ _ => rfl)
      (fun _ h => Formed.array h)
  | rbtree =>
    exact Stores.within Store.rbtree (fun s t => { s with rbtree := t }) Rbtree.engine_stores (fun _ => rfl)
      (fun _ _ => rfl) (fun _ h => Formed.rbtree h)
  | hash =>
    exact Stores.within Store.hash (fun s h => { s with hash := h })
      ((KvsHash.engine_tolerates P).stores (fun _ _ k h => KvsHash.get_stands h k)) (fun _ => rfl) (fun _ _ => rfl)
      (fun _ h => Formed.hash h)
  | skiplist =>
    exact Stores.within Store.skiplist (fun s l => { s with skiplist := l })
      (Skiplist.engine_tolerates.stores (fun _ _ k h => Skiplist.get_stands h k)) (fun _ => rfl) (fun _ _ => rfl)
      (fun _ h => Formed.skiplist h)

def valueReply : Option CString → Reply
  | none => .noExist
  | some v => .value v

/-- A request that stands whole in the read buffer is cut out, split and executed. The outer `none` is undefined
behaviour, the inner one a request that is not answered. -/
def exchange (P : Params) (e : Encoding) (contents : List Bytes) (s : Setting) (g : Global) :
    Option (Option Bytes × Global) :=
  let cli := { s.cli with
    protocol := e.protocol, rbuf := e.rawFrame contents ++ 0 :: s.cli.rbuf, rPos := (e.rawFrame contents).length }
  do
    match ← recvProtocol cli with
    | .frame total head => do
      let rbuf ← poke cli.rbuf total 0
      let (length, cli', g) ← kvsProtocol P (cli.load rbuf total head) g s.env
      some (if length < 0 then none else some ((cli'.wbuf.drop cli.wPos).take length.toNat), g)
    | _ => some (none, g)

def answerOf (wPos : ℕ) (r : ℤ × Client × Global) : Option Bytes × Global :=
  (if r.1 < 0 then none else some ((r.2.1.wbuf.drop wPos).take r.1.toNat), r.2.2)

theorem exchange_eq (P : Params) {e : Encoding} {contents : List Bytes} (s : Setting) (hmax : contents.length ≤ maxTokens)
    (hs : (e.rawFrame contents).length ≤ intMax) :
    ∃ cli : Client, (∃ a b c d f, cli = { s.cli with protocol := a, rbuf := b, rPos := c, cmdTl := d, cmdHl := f }) ∧
      ∀ g, exchange P e contents s g =
        (kvsFilterProtocol P (contents.map CString.prefixOf) cli g s.env).map (answerOf s.cli.wPos) := by
  let cli : Client := { s.cli with
    protocol := e.protocol, rbuf := e.rawFrame contents ++ 0 :: s.cli.rbuf, rPos := (e.rawFrame contents).length }
  let loaded : Client := cli.load cli.rbuf (e.rawFrame contents).length (e.rawHeadLen contents)
  have hrecv : recvProtocol cli = some (.frame (e.rawFrame contents).length (e.rawHeadLen contents)) := by
    have h := recvProtocol_rawFrame (show cli.protocol = e.protocol from rfl) rfl (e.rawFrame_pos contents) hs
    rwa [if_pos (show (e.rawFrame contents).length ≤ cli.rPos from le_rfl)] at h
  have hpoke : poke cli.rbuf (e.rawFrame contents).length 0 = some cli.rbuf := Resp.poke_cell _ _ 0 0
  obtain ⟨mem, addresses, hsplit, hread, -⟩ :=
    kvsSplitToken_rawFrame (show loaded.protocol = e.protocol from rfl) rfl rfl rfl hmax hs
  refine ⟨{ loaded with rbuf := mem }, ⟨_, _, _, _, _, rfl⟩, ?_⟩
  intro g
  have hcall : kvsProtocol P loaded g s.env = _ := kvsProtocol_tokens hsplit hread
  change (recvProtocol cli).bind _ = _
  rw [hrecv, Option.bind_some]
  change (poke cli.rbuf (e.rawFrame contents).length 0).bind _ = _
  rw [hpoke, Option.bind_some]
  change (kvsProtocol P loaded g s.env).bind _ = _
  rw [hcall]
  cases kvsFilterProtocol P (contents.map CString.prefixOf) { loaded with rbuf := mem } g s.env with
  | none => rfl
  | some r => rfl

def counted (g : Global) (tokens : List CString) : Global := { g with executed := g.executed ++ [tokens] }

theorem filter_get (P : Params) (id : EngineId) (k : CString) (cli : Client) (g : Global) (env : Env) :
    kvsFilterProtocol P (commandFor id (.get k)) cli g env =
      (reserveReply cli env).bind (fun
        | none => some (-1, cli, g)
        | some cli => ((engine P id).get g.store (some k)).bind (fun found =>
          (writeReply cli (valueReply found) env).map (fun
            | none => (-1, cli, counted g (commandFor id (.get k)))
            | some r => (r.1, r.2, counted g (commandFor id (.get k)))))) := by
  have hrun := runCommand_request P (counted g (commandFor id (.get k))) env (requestOf_commandFor id (.get k))
  simp only [commandFor] at hrun ⊢
  simp only [kvsFilterProtocol, bind]
  congr 1
  funext room
  cases room with
  | none => rfl
  | some mid =>
    dsimp only
    change (runCommand P _ _ _ (counted g _) env).bind _ = _
    rw [hrun, call]
    cases hfound : (engine P id).get g.store (some k) with
    | none => simp [counted, hfound]
    | some found =>
      simp only [counted, hfound, Option.map_some, Option.bind_some]
      have hreply : replyTo (.get k) (.value found) = (valueReply found, false) := by cases found <;> rfl
      rw [hreply]
      cases hw : writeReply mid (valueReply found) env with
      | none => rfl
      | some r =>
        cases r with
        | none => rfl
        | some r =>
          simp [logCommand]

/-- A connection whose write buffer takes the value, with all the memory it asks for. -/
structure Setting.Ready (s : Setting) (v : CString) : Prop where
  writeOk : s.cli.WriteOk
  reserve : s.env.reserve = .whole
  grow : s.env.grow = .whole
  least : 32 ≤ s.cli.wCap
  most : s.cli.wCap ≤ intMax
  takes : s.cli.Takes (.value v)

theorem exchange_get (P : Params) {e : Encoding} {id : EngineId} {key : Bytes} (s : Setting)
    (hs : (e.rawFrame [(commandName id .get).bytes, key]).length ≤ intMax) :
    ∃ cli : Client, (∃ a b c d f, cli = { s.cli with protocol := a, rbuf := b, rPos := c, cmdTl := d, cmdHl := f }) ∧
      ∀ g, exchange P e [(commandName id .get).bytes, key] s g =
        (kvsFilterProtocol P (commandFor id (.get (.prefixOf key))) cli g s.env).map (answerOf s.cli.wPos) := by
  obtain ⟨cli, hcli, heq⟩ := exchange_eq P s (by simp [maxTokens]) hs
  refine ⟨cli, hcli, fun g => ?_⟩
  rw [heq]
  simp only [List.map_cons, List.map_nil, CString.prefixOf_bytes, commandFor]

theorem exchange_get_value {P : Params} {e : Encoding} {id : EngineId} {key : Bytes} {v : CString} {s : Setting} {g : Global}
    (hs : (e.rawFrame [(commandName id .get).bytes, key]).length ≤ intMax) (hr : s.Ready v)
    (hg : (engine P id).get g.store (some (.prefixOf key)) = some (some v)) :
    ∃ g', exchange P e [(commandName id .get).bytes, key] s g = some (some (Reply.value v).text, g') := by
  obtain ⟨cli, ⟨a, b, c, d, f, rfl⟩, heq⟩ := exchange_get P s hs
  let cli : Client := { s.cli with protocol := a, rbuf := b, rPos := c, cmdTl := d, cmdHl := f }
  have hcli : cli.WriteOk := hr.writeOk.congr rfl rfl rfl
  obtain ⟨mid, ⟨length, last⟩, hmid, hwrite⟩ :=
    (takes_iff hcli hr.least hr.reserve hr.grow (fun _ _ => .inr hr.most)).mpr hr.takes
  have hpos := writeReply_nonneg (by simp) hwrite
  obtain ⟨hext, -⟩ := reserveReply_spec hcli.toFits hmid
  obtain ⟨hlen, hlast, -⟩ := writeReply_spec hext.fits (by simp) hwrite hpos
  have htext := (hext.trans hlast).appended hcli.toFits
  refine ⟨counted g (commandFor id (.get (.prefixOf key))), ?_⟩
  rw [heq, filter_get, hmid, Option.bind_some]
  simp only [hg, Option.bind_some, valueReply, hwrite, Option.map_some, answerOf]
  rw [if_neg (not_lt.mpr hpos), hlen, Int.toNat_natCast]
  exact congrArg (fun t => some (some t, counted g (commandFor id (.get (.prefixOf key))))) htext

theorem exchange_get_congr {P : Params} {e : Encoding} {id : EngineId} {key : Bytes} {g g' : Global} (s : Setting)
    (hs : (e.rawFrame [(commandName id .get).bytes, key]).length ≤ intMax)
    (hg : (engine P id).get g'.store (some (.prefixOf key)) = (engine P id).get g.store (some (.prefixOf key))) :
    (exchange P e [(commandName id .get).bytes, key] s g').map Prod.fst =
      (exchange P e [(commandName id .get).bytes, key] s g).map Prod.fst := by
  obtain ⟨cli, -, heq⟩ := exchange_get P s hs
  rw [heq, heq, filter_get, filter_get, hg]
  cases reserveReply cli s.env with
  | none => rfl
  | some room =>
    cases room with
    | none => rfl
    | some mid =>
      cases (engine P id).get g.store (some (.prefixOf key)) with
      | none => rfl
      | some found =>
        simp only [Option.bind_some, Option.map_map]
        congr 1
        funext r
        cases r <;> rfl

theorem set_answered_ok {k v : CString} {a : Answer} (h : (replyTo (.set k v) a).1.text = Reply.ok.text) : a = .code 0 := by
  cases a with
  | value w =>
    change Reply.noExist.text = Reply.ok.text at h
    exact absurd h (by decide +kernel)
  | code n =>
    simp only [replyTo, replyOf] at h
    split_ifs at h with hneg hzero
    · exact absurd h (by decide +kernel)
    · rw [hzero]
    · exact absurd h (by decide +kernel)

theorem exchange_set_ok {P : Params} {e : Encoding} {id : EngineId} {key value : Bytes} {s : Setting} {g g' : Global}
    (hs : (e.rawFrame [(commandName id .set).bytes, key, value]).length ≤ intMax) (hw : s.cli.WriteOk)
    (h : exchange P e [(commandName id .set).bytes, key, value] s g = some (some Reply.ok.text, g')) :
    (engine P id).call g.store (.set (.prefixOf key) (.prefixOf value), s.env.sys) = some (g'.store, .code 0) := by
  obtain ⟨cli, ⟨a, b, c, d, f, rfl⟩, heq⟩ := exchange_eq P s (by simp [maxTokens]) hs
  rw [heq] at h
  simp only [List.map_cons, List.map_nil, CString.prefixOf_bytes] at h
  obtain ⟨⟨length, last, g1⟩, hf, ha⟩ := Option.map_eq_some_iff.mp h
  simp only [answerOf, Prod.mk.injEq] at ha
  obtain ⟨ha, rfl⟩ := ha
  split_ifs at ha with hneg
  have hcli : { s.cli with protocol := a, rbuf := b, rPos := c, cmdTl := d, cmdHl := f : Client }.WriteOk :=
    hw.congr rfl rfl rfl
  obtain ⟨reply, heff, rfl, hext, -⟩ := filter_returns hcli.toFits hf (not_lt.mp hneg)
  have htext : reply.text = Reply.ok.text := by
    rw [← Option.some.inj ha, Int.toNat_natCast]
    exact (hext.appended hcli.toFits).symm
  change effect P (commandFor id (.set (.prefixOf key) (.prefixOf value))) g s.env = _ at heff
  rw [effect_request P g s.env (requestOf_commandFor id (.set (.prefixOf key) (.prefixOf value)))] at heff
  obtain ⟨⟨st, answer⟩, hcall, heff⟩ := Option.bind_eq_some_iff.mp heff
  obtain ⟨g2, hlog, he⟩ := Option.map_eq_some_iff.mp heff
  obtain ⟨rfl, rfl⟩ := Prod.mk.inj he
  have hzero : answer = .code 0 := set_answered_ok htext
  rw [hcall, hzero, logCommand_store hlog]

/-- A SET of a string that is answered +OK is read back byte for byte, and no GET of a key that differs from it as a
string is answered differently. -/
theorem strings_are_carried_unchanged (P : Params) (g g' : Global) (hg : Reachable P g.store) (id : EngineId)
    (key value : Bytes) (hvalue : 0 ∉ value) (habsent : (engine P id).exist g.store (some (.prefixOf key)) ≠ some 0)
    (e : Encoding) (s : Setting) (hw : s.cli.WriteOk)
    (hfit : (e.rawFrame [(commandName id .set).bytes, key, value]).length ≤ intMax)
    (hset : exchange P e [(commandName id .set).bytes, key, value] s g = some (some (ascii "+OK\r\n"), g')) :
    (∀ (e' : Encoding) (t : Setting), t.Ready ⟨value, hvalue⟩ →
        (e'.rawFrame [(commandName id .get).bytes, key]).length ≤ intMax →
        ∃ g'', exchange P e' [(commandName id .get).bytes, key] t g' =
          some (some (ascii "$" ++ (decimal value.length ++ (ascii "\r\n" ++ (value ++ ascii "\r\n")))), g'')) ∧
      ∀ (e' : Encoding) (t : Setting) (other : Bytes), CString.prefixOf other ≠ CString.prefixOf key →
        (e'.rawFrame [(commandName id .get).bytes, other]).length ≤ intMax →
        (exchange P e' [(commandName id .get).bytes, other] t g').map Prod.fst =
          (exchange P e' [(commandName id .get).bytes, other] t g).map Prod.fst := by
  have hcall := exchange_set_ok hfit hw hset
  obtain ⟨hself, hother⟩ := engine_stores P id _ _ _ _ _ hg.formed hcall
  have hv : CString.prefixOf value = ⟨value, hvalue⟩ := CString.prefixOf_bytes ⟨value, hvalue⟩
  constructor
  · intro e' t ht hs
    exact exchange_get_value hs ht (hv ▸ hself habsent)
  · intro e' t other hne hs
    exact exchange_get_congr t hs (hother _ hne)

theorem strings_are_carried_unchanged_example :
    ∃ g', exchange .small .resp [ascii "HSET", ascii "k", ascii "a\r\nb"] .plain (.start .small) =
        some (some (ascii "+OK\r\n"), g') ∧
      ∃ g'', exchange .small .kvsp [ascii "HGET", ascii "k"] .plain g' =
        some (some (ascii "$4\r\na\r\nb\r\n"), g'') := by
  have hset : (exchange .small .resp [ascii "HSET", ascii "k", ascii "a\r\nb"] .plain (.start .small)).map Prod.fst =
      some (some (ascii "+OK\r\n")) := by decide +kernel
  obtain ⟨⟨answer, g'⟩, hex, hans⟩ := Option.map_eq_some_iff.mp hset
  obtain rfl : answer = some (ascii "+OK\r\n") := hans
  refine ⟨g', hex, ?_⟩
  have hname : (commandName .hash .set).bytes = ascii "HSET" := by decide +kernel
  have hname' : (commandName .hash .get).bytes = ascii "HGET" := by decide +kernel
  have hread := (strings_are_carried_unchanged .small (.start .small) g' (.empty (fresh_empty .small)) .hash (ascii "k")
    (ascii "a\r\nb") (by decide +kernel) (by decide +kernel) .resp .plain Setting.plain_granted.writeOk
    (by rw [hname]; decide +kernel) (by rw [hname]; exact hex)).1 .kvsp .plain
    ⟨Setting.plain_granted.writeOk, rfl, rfl, by decide +kernel, by decide +kernel,
      by decide +kernel, by rw [Reply.Needs]; decide +kernel⟩
    (by rw [hname']; decide +kernel)
  rw [hname'] at hread
  obtain ⟨g'', hg''⟩ := hread
  exact ⟨g'', hg''.trans (by congr 3)⟩

/-- Three bytes are sent and one comes back, and a key with a byte more is answered with the value. -/
theorem value_cut_at_nul :
    (exchange .small .resp [ascii "SET", ascii "k", [97, 0, 98]] .plain (.start .small)).map Prod.fst =
        some (some (ascii "+OK\r\n")) ∧
      ((exchange .small .resp [ascii "SET", ascii "k", [97, 0, 98]] .plain (.start .small)).bind
        (fun r => (exchange .small .kvsp [ascii "GET", ascii "k"] .plain r.2).map Prod.fst)) =
        some (some (ascii "$1\r\na\r\n")) ∧
      (exchange .small .kvsp [ascii "GET", [107, 0, 107]] .plain (.start .small)).map Prod.fst =
        some (some (ascii "$-1\r\n")) ∧
      ((exchange .small .resp [ascii "SET", ascii "k", [97, 0, 98]] .plain (.start .small)).bind
        (fun r => (exchange .small .kvsp [ascii "GET", [107, 0, 107]] .plain r.2).map Prod.fst)) =
        some (some (ascii "$1\r\na\r\n")) := by
  refine ⟨?_, ?_, ?_, ?_⟩ <;> decide +kernel

end Lidis
