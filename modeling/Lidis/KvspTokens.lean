import Lidis.KvspItems

namespace Lidis.Kvsp

open Item

theorem itemOf_length (content : Bytes) :
    (itemOf content).length = (decimal content.length).length + content.length + 2 := (ofContent content).bytes_length

theorem item_length (s : CString) : (item s).length = (decimal s.length).length + s.length + 2 := itemOf_length s.bytes

theorem rawBody_isBody {contents : List Bytes} (hmax : contents.length ≤ maxTokens)
    (hl : (rawBody contents).length ≤ intMax) : IsBody (rawBody contents) (contents.map ofContent) := by
  refine ⟨by rwa [List.length_map], ?_, ?_⟩
  · intro x hx
    obtain ⟨content, hmem, rfl⟩ := List.mem_map.mp hx
    have hle := itemOf_le_rawBody hmem
    rw [itemOf_length] at hle
    change content.length ≤ intMax
    omega
  · rw [List.flatMap_map]
    rfl

theorem splitToken_rawFrame {contents : List Bytes} (rest : Bytes) (hmax : contents.length ≤ maxTokens)
    (hl : (rawFrame contents).length ≤ intMax) :
    ∃ mem tokens, splitToken (rawFrame contents ++ rest) (headOf (rawBody contents).length).length
        (rawFrame contents).length = some (mem, tokens) ∧
      tokens.mapM (CString.read mem) = some (contents.map CString.prefixOf) ∧
      mem.length = (rawFrame contents ++ rest).length ∧ mem.drop (rawFrame contents).length = rest := by
  rw [rawFrame_length] at hl
  obtain ⟨mem, tokens, hsplit, hread, hlen, hdrop⟩ :=
    splitToken_items (rawBody_isBody hmax (by omega)) (headOf (rawBody contents).length) rest
  exact ⟨mem, tokens, hsplit, by rw [hread, List.map_map]; rfl, hlen, hdrop⟩

theorem splitToken_frame {ts : List CString} (rest : Bytes) (hmax : ts.length ≤ maxTokens)
    (hl : (frameOf ts).length ≤ intMax) :
    ∃ mem tokens, splitToken (frameOf ts ++ rest) (headOf (body ts).length).length (frameOf ts).length =
        some (mem, tokens) ∧ tokens.mapM (CString.read mem) = some ts ∧ mem.length = (frameOf ts ++ rest).length ∧
      mem.drop (frameOf ts).length = rest := by
  obtain ⟨mem, tokens, hsplit, hread, hlen, hdrop⟩ := splitToken_rawFrame rest (by rwa [List.length_map]) hl
  rw [CString.map_prefixOf_bytes] at hread
  exact ⟨mem, tokens, hsplit, hread, hlen, hdrop⟩

theorem splitToken_no_end {mem : Bytes} {head total : ℕ} (h : mem[total - 1]? ≠ some 10) (ht : head + 2 ≤ total) :
    splitToken mem head total = none := by
  have hne : (mem.drop (head + (total - head - 2))).take 2 ≠ crlf := by
    intro he
    have hpos : head + (total - head - 2) = total - 2 := by omega
    rw [hpos] at he
    have hget := congrArg (fun l : Bytes => l[1]?) he
    simp only [crlf, List.getElem?_take, List.getElem?_drop] at hget
    rw [show total - 2 + 1 = total - 1 by omega] at hget
    exact h (by simpa using hget)
  simp [splitToken, hne]

theorem splitToken_bounds {mem mem' : Bytes} {head total : ℕ} {addresses : List ℕ}
    (h : splitToken mem head total = some (mem', addresses)) :
    mem'[total - 2]? = some 0 ∧ ∀ a ∈ addresses, a ≤ total - 2 := by
  obtain ⟨hh, ht, xs, hbody⟩ := splitToken_some h
  obtain ⟨-, hhead, htotal⟩ := take_drop_parts hh ht
  rw [splitToken_isBody hh ht hbody] at h
  obtain ⟨rfl, rfl⟩ := Prod.mk.inj (Option.some.inj h)
  rw [hbody.text_eq, List.length_append] at htotal
  have hend : head + (xs.flatMap bytes).length = total - 2 := by
    rw [← htotal]
    rfl
  constructor
  · have hfront : (mem.take head ++ marked true xs).length = total - 2 := by
      rw [List.length_append, hhead, marked_length, hend]
    rw [← hfront, List.getElem?_append_right le_rfl, Nat.sub_self]
    rfl
  · rw [← hend]
    exact contents_le head xs

def bufLen (argv : List CString) : ℕ :=
  let bodyLen := (argv.map (fun s => (item s).length)).sum + 2
  (headOf bodyLen).length + bodyLen

theorem bufLen_eq (ts : List CString) : bufLen ts = (frameOf ts).length := by
  rw [bufLen, ← body_length, frameOf_length]

def RoundTrip (ts : List CString) : Prop :=
  ∃ buf, kvsBuildKvspFrame ts true = some (some buf) ∧ buf.length = bufLen ts ∧
    ∀ rest, kvspParseBulkSize (buf ++ rest) = .frame (bufLen ts) (headOf (body ts).length).length ∧
      ∃ mem tokens, splitToken (buf ++ rest) (headOf (body ts).length).length (bufLen ts) = some (mem, tokens) ∧
        tokens.length = ts.length ∧ tokens.mapM (CString.read mem) = some ts ∧ mem.drop buf.length = rest

theorem buildKvspFrame_overflow {ts : List CString} {alloc : Bool} (h : ts ≠ []) (hl : (frameOf ts).length = intMax) :
    kvsBuildKvspFrame ts alloc = none := by
  have hany := items_fit hl.le
  rw [frameOf_length] at hl
  have hover : intMax < (headOf (body ts).length).length + (body ts).length + 1 := by omega
  simp only [kvsBuildKvspFrame, ← body_length, h, hany, hover, ↓reduceIte, Bool.false_eq_true]

theorem kvsp_decode_undoes_encode_iff (ts : List CString) (hne : ts ≠ []) (hmax : ts.length ≤ maxTokens)
    (hl : (frameOf ts).length ≤ intMax) : RoundTrip ts ↔ bufLen ts < intMax := by
  rw [bufLen_eq]
  constructor
  · rintro ⟨buf, hbuild, -⟩
    exact (buildKvspFrame_some hbuild).2.2
  · intro hlt
    refine ⟨frameOf ts, buildKvspFrame_eq hne hlt, (bufLen_eq ts).symm, fun rest => ?_⟩
    obtain ⟨mem, tokens, hsplit, hread, -, hdrop⟩ := splitToken_frame rest hmax hl
    rw [bufLen_eq]
    exact ⟨parse_frame rest hl, mem, tokens, hsplit, CString.readAll_length hread, hread, hdrop⟩

theorem kvsp_decode_undoes_encode_example :
    (frameOf [.lit "SET", .lit "", .lit "^3&#\r\n"]).length ≤ intMax ∧
      (RoundTrip [.lit "SET", .lit "", .lit "^3&#\r\n"] ↔ bufLen [.lit "SET", .lit "", .lit "^3&#\r\n"] < intMax) ∧
      bufLen [.lit "SET", .lit "", .lit "^3&#\r\n"] < intMax :=
  ⟨by decide +kernel, kvsp_decode_undoes_encode_iff _ (by simp) (by decide) (by decide +kernel), by decide +kernel⟩

theorem ofLength_frame {n m k l : ℕ} (hn : (decimal n).length = k) (hm : n + k + 4 = m) (hl : (decimal m).length = l) :
    (frameOf [.ofLength n]).length = l + 3 + m := by
  have hlen : (CString.ofLength n).length = n := CString.ofLength_length n
  have hbody : (body [.ofLength n]).length = m := by
    rw [body_length]
    simp only [List.map_cons, List.map_nil, List.sum_cons, List.sum_nil, item_length, hlen]
    omega
  rw [frameOf_length, headOf_length, hbody, hl]

theorem longest_frame : (frameOf [.ofLength 2147483620]).length = intMax :=
  ofLength_frame (n := 2147483620) (m := 2147483634) (k := 10) (l := 10) (by decide +kernel) rfl (by decide +kernel)

theorem longest_frame_not_built :
    [CString.ofLength 2147483620].length ≤ maxTokens ∧ (frameOf [.ofLength 2147483620]).length ≤ intMax ∧
      ¬ RoundTrip [.ofLength 2147483620] := by
  refine ⟨Nat.succ_le_succ (Nat.zero_le _), longest_frame.le, ?_⟩
  rintro ⟨buf, hbuild, -⟩
  rw [buildKvspFrame_overflow (List.cons_ne_nil _ _) longest_frame] at hbuild
  exact absurd hbuild (by simp)

end Lidis.Kvsp
