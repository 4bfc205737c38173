import Lidis.Kvsp

namespace Lidis.Kvsp

theorem headOf_length (n : ℕ) : (headOf n).length = (decimal n).length + 3 := by
  simp [headOf, crlf]

theorem crlf_not_digit (rest : Bytes) : ∀ c ∈ (crlf ++ rest).head?, isDigit c = false := by
  intro c hc
  obtain rfl : c = 13 := by simpa [crlf] using hc.symm
  decide

structure Head where
  digits : Bytes
  digits_ne_nil : digits ≠ []
  all_digits : ∀ c ∈ digits, isDigit c = true

namespace Head

def bytes (h : Head) : Bytes := 35 :: (h.digits ++ crlf)

def bodyLen (h : Head) : ℕ := valueFrom 0 h.digits

def ofNat (n : ℕ) : Head := ⟨decimal n, decimal_ne_nil n, decimal_digits n⟩

theorem bytes_ofNat (n : ℕ) : (ofNat n).bytes = headOf n := rfl

theorem bodyLen_ofNat (n : ℕ) : (ofNat n).bodyLen = n := valueFrom_decimal n

theorem bytes_length (h : Head) : h.bytes.length = h.digits.length + 3 := by
  simp [bytes, crlf]

theorem parse (h : Head) (rest : Bytes) (hn : h.bytes.length + h.bodyLen ≤ intMax) :
    kvspParseBulkSize (h.bytes ++ rest) =
      if rest.length < h.bodyLen then .more else .frame (h.bytes.length + h.bodyLen) h.bytes.length := by
  have hscan : scanDigits intMax 0 (h.digits ++ (crlf ++ rest)) = some (h.bodyLen, crlf ++ rest) :=
    scanDigits_append h.all_digits (crlf_not_digit rest) (by change h.bodyLen ≤ intMax; omega)
  have hpos : (h.bytes ++ rest).length - (crlf ++ rest).length + 2 = h.bytes.length := by
    simp only [bytes_length, List.length_append, crlf, List.length_cons, List.length_nil]
    omega
  have hbuf : h.bytes ++ rest = 35 :: (h.digits ++ (crlf ++ rest)) := by simp [bytes]
  rw [hbuf] at hpos ⊢
  simp only [kvspParseBulkSize, hscan, hpos]
  rw [if_neg (by simp), if_neg (by simp [h.digits_ne_nil]), if_neg (by simp [crlf]), if_neg (by simp [crlf]),
    if_neg (by omega)]
  have hsize : (35 :: (h.digits ++ (crlf ++ rest))).length = h.bytes.length + rest.length := by
    rw [← hbuf, List.length_append]
  rw [hsize]
  by_cases hlt : rest.length < h.bodyLen
  · rw [if_pos (by omega), if_pos hlt]
  · rw [if_neg (by omega), if_neg hlt, Nat.add_comm]

theorem parse_short (h : Head) {p q : Bytes} (hn : h.bodyLen ≤ intMax) (hpq : p ++ q = h.bytes) (hp : p ≠ [])
    (hq : q ≠ []) : kvspParseBulkSize p = .more := by
  obtain ⟨c, p, rfl⟩ := List.exists_cons_of_ne_nil hp
  simp only [bytes, List.cons_append, List.cons.injEq] at hpq
  obtain ⟨rfl, hpq⟩ := hpq
  rcases List.append_eq_append_iff.mp hpq with ⟨ds, hd, hrest⟩ | ⟨ds, hd, hrest⟩
  · rw [bodyLen, hd] at hn
    obtain ⟨v, hv⟩ := scanDigits_cut [] (hd ▸ h.all_digits) hn (by simp)
    rw [List.append_nil] at hv
    simp only [kvspParseBulkSize, hv, ne_eq, not_true_eq_false, ↓reduceIte, List.length_nil]
    by_cases hnil : p = []
    · simp [hnil]
    · rw [if_neg (fun he => hnil (List.length_eq_zero_iff.mp he.symm)), if_pos (by omega)]
  · have hlen : ds.length < 2 := by
      have h2 : ds.length + q.length = 2 := by
        rw [← List.length_append, ← hrest]; rfl
      have := List.length_pos_of_ne_nil hq
      omega
    have hnd : ∀ c ∈ ds.head?, isDigit c = false := by
      intro c hc
      refine crlf_not_digit [] c ?_
      rw [hrest, List.append_nil]
      cases ds with
      | nil => simp at hc
      | cons d ds => simpa using hc
    have hscan : scanDigits intMax 0 p = some (h.bodyLen, ds) := by
      rw [hd]
      exact scanDigits_append h.all_digits hnd hn
    have hdig : 0 < h.digits.length := List.length_pos_of_ne_nil h.digits_ne_nil
    have hlen' : ds.length ≠ p.length := by
      rw [hd, List.length_append]
      omega
    simp only [kvspParseBulkSize, hscan, ne_eq, not_true_eq_false, ↓reduceIte, hlen', hlen]

theorem parse_cut (h : Head) {text p q : Bytes} (htext : text.length = h.bodyLen)
    (hn : h.bytes.length + h.bodyLen ≤ intMax) (hpq : p ++ q = h.bytes ++ text) (hp : p ≠ []) (hq : q ≠ []) :
    kvspParseBulkSize p = .more := by
  rcases List.append_eq_append_iff.mp hpq with ⟨r, hr, hrest⟩ | ⟨r, hr, hrest⟩
  · by_cases hrn : r = []
    · subst hrn
      rw [List.append_nil] at hr
      rw [List.nil_append] at hrest
      rw [← hr, ← List.append_nil h.bytes, h.parse [] hn, if_pos]
      rw [← htext, ← hrest]
      exact List.length_pos_of_ne_nil hq
    · exact h.parse_short (by omega) hr.symm hp hrn
  · rw [hr, h.parse r hn, if_pos]
    have := congrArg List.length hrest
    have := List.length_pos_of_ne_nil hq
    simp only [List.length_append] at *
    omega

theorem of_parse {w : Bytes} {total head : ℕ} (hp : kvspParseBulkSize w = .frame total head) :
    ∃ (h : Head) (rest : Bytes), w = h.bytes ++ rest ∧ head = h.bytes.length ∧ total = h.bytes.length + h.bodyLen := by
  rcases w with _ | ⟨c, w⟩
  · cases hp
  rw [kvspParseBulkSize] at hp
  by_cases hc : c ≠ 35
  · rw [if_pos hc] at hp
    cases hp
  rw [if_neg hc] at hp
  obtain rfl := not_not.mp hc
  rcases hscan : scanDigits intMax 0 w with _ | ⟨n, tail⟩
  · simp only [hscan] at hp
    cases hp
  obtain ⟨ds, rfl, hds, hval, -, -⟩ := scanDigits_some hscan (by decide) (Nat.zero_le _)
  simp only [hscan] at hp
  by_cases hdig : tail.length = (ds ++ tail).length
  · rw [if_pos hdig] at hp
    split_ifs at hp
  have hds0 : ds ≠ [] := by
    rintro rfl
    exact hdig rfl
  rw [if_neg hdig] at hp
  by_cases htwo : tail.length < 2
  · rw [if_pos htwo] at hp
    cases hp
  rw [if_neg htwo] at hp
  by_cases hend : tail.take 2 ≠ crlf
  · rw [if_pos hend] at hp
    cases hp
  rw [if_neg hend] at hp
  have htail : tail = crlf ++ tail.drop 2 := by
    rw [← not_not.mp hend, List.take_append_drop]
  have hpos : (35 :: (ds ++ tail)).length - tail.length + 2 = (Head.bytes ⟨ds, hds0, hds⟩).length := by
    rw [bytes_length, List.length_cons, List.length_append]
    dsimp only
    omega
  rw [hpos] at hp
  split_ifs at hp with hbig hshort
  obtain ⟨rfl, rfl⟩ := BulkSize.frame.inj hp
  refine ⟨⟨ds, hds0, hds⟩, tail.drop 2, ?_, rfl, ?_⟩
  · rw [bytes, List.cons_append, List.append_assoc, ← htail]
  · rw [bodyLen, hval, Nat.add_comm]

end Head

theorem parse_head {n : ℕ} {rest : Bytes} (hn : (headOf n).length + n ≤ intMax) :
    kvspParseBulkSize (headOf n ++ rest) =
      if rest.length < n then .more else .frame ((headOf n).length + n) (headOf n).length := by
  have h := (Head.ofNat n).parse rest (by rwa [Head.bytes_ofNat, Head.bodyLen_ofNat])
  rwa [Head.bytes_ofNat, Head.bodyLen_ofNat] at h

theorem parse_rawFrame {contents : List Bytes} (rest : Bytes) (hl : (rawFrame contents).length ≤ intMax) :
    kvspParseBulkSize (rawFrame contents ++ rest) =
      .frame (rawFrame contents).length (headOf (rawBody contents).length).length := by
  rw [rawFrame_length] at hl ⊢
  rw [rawFrame, List.append_assoc, parse_head hl, if_neg]
  simp

theorem parse_frame {ts : List CString} (rest : Bytes) (hl : (frameOf ts).length ≤ intMax) :
    kvspParseBulkSize (frameOf ts ++ rest) = .frame (frameOf ts).length (headOf (body ts).length).length :=
  parse_rawFrame rest hl

theorem parse_frame_bounds {w : Bytes} {total head : ℕ} (h : kvspParseBulkSize w = .frame total head) :
    head ≤ total ∧ total ≤ w.length := by
  cases w with
  | nil => simp [kvspParseBulkSize] at h
  | cons c rest =>
    simp only [kvspParseBulkSize] at h
    split_ifs at h
    split at h
    · simp at h
    · split_ifs at h with h1 h2 h3 h4 h5 h6
      obtain ⟨rfl, rfl⟩ := BulkSize.frame.inj h
      omega

theorem parse_take {w : Bytes} {total head : ℕ} (hw : w.length ≤ intMax) (hp : kvspParseBulkSize w = .frame total head) :
    kvspParseBulkSize (w.take total) = .frame total head := by
  have hle := (parse_frame_bounds hp).2
  obtain ⟨h, rest, rfl, rfl, rfl⟩ := Head.of_parse hp
  rw [List.length_append] at hle hw
  rw [List.take_length_add_append, h.parse _ (by omega), if_neg]
  rw [List.length_take]
  omega

theorem parse_cut {contents : List Bytes} {p q : Bytes} (hl : (rawFrame contents).length ≤ intMax)
    (hpq : p ++ q = rawFrame contents) (hp : p ≠ []) (hq : q ≠ []) : kvspParseBulkSize p = .more := by
  rw [rawFrame_length] at hl
  exact (Head.ofNat (rawBody contents).length).parse_cut (Head.bodyLen_ofNat _).symm (by rwa [Head.bodyLen_ofNat]) hpq hp hq

end Lidis.Kvsp
