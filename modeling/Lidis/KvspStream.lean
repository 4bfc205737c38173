import Lidis.KvspItems

namespace Lidis.Kvsp

structure Frame where
  head : Head
  first : Item
  others : List Item
  denotes : head.bodyLen = ((first :: others).flatMap Item.bytes ++ crlf).length
  fits : head.bytes.length + head.bodyLen ≤ intMax

namespace Frame

def body (f : Frame) : Bytes := (f.first :: f.others).flatMap Item.bytes ++ crlf

def bytes (f : Frame) : Bytes := f.head.bytes ++ f.body

def command (f : Frame) : CString := .prefixOf f.first.content

theorem body_length (f : Frame) : f.body.length = f.head.bodyLen := f.denotes.symm

theorem bytes_length (f : Frame) : f.bytes.length = f.head.bytes.length + f.head.bodyLen := by
  rw [bytes, List.length_append, body_length]

theorem bytes_ge (f : Frame) : 8 ≤ f.bytes.length := by
  have hdigits := List.length_pos_of_ne_nil f.head.digits_ne_nil
  have hfirst := List.length_pos_of_ne_nil f.first.digits_ne_nil
  have hcrlf : crlf.length = 2 := rfl
  rw [bytes_length, Head.bytes_length, f.denotes, List.length_append, List.flatMap_cons, List.length_append,
    Item.bytes_length]
  omega

theorem bytes_pos (f : Frame) : 0 < f.bytes.length := Nat.lt_of_lt_of_le (by decide) f.bytes_ge

theorem small (f : Frame) : f.bytes.length ≤ 2 ^ 64 - 1 - 8 := by
  rw [bytes_length]
  exact f.fits.trans (by decide)

theorem first_le (f : Frame) : f.first.content.length ≤ intMax := by
  have hd := f.denotes
  have hf := f.fits
  rw [List.flatMap_cons, List.length_append, List.length_append, Item.bytes_length] at hd
  omega

theorem parse (f : Frame) (rest : Bytes) :
    kvspParseBulkSize (f.bytes ++ rest) = .frame f.bytes.length f.head.bytes.length := by
  rw [bytes, List.append_assoc, f.head.parse _ f.fits, if_neg, List.length_append, body_length]
  rw [List.length_append, body_length]
  omega

theorem parse_cut (f : Frame) {p q : Bytes} (hpq : p ++ q = f.bytes) (hp : p ≠ []) (hq : q ≠ []) :
    kvspParseBulkSize p = .more := f.head.parse_cut f.body_length f.fits hpq hp hq

def ofTokens (t : CString) (ts : List CString) (h : (frameOf (t :: ts)).length ≤ intMax) : Frame where
  head := .ofNat (Kvsp.body (t :: ts)).length
  first := .ofToken t
  others := ts.map Item.ofToken
  denotes := by
    rw [Head.bodyLen_ofNat, body_eq, ← List.map_cons, List.flatMap_map]
    rfl
  fits := by rwa [Head.bytes_ofNat, Head.bodyLen_ofNat, ← frameOf_length]

end Frame

def stream (fs : List Frame) : Bytes := fs.flatMap Frame.bytes

@[simp] theorem stream_nil : stream [] = [] := rfl

@[simp] theorem stream_cons (f : Frame) (fs : List Frame) : stream (f :: fs) = f.bytes ++ stream fs := rfl

theorem stream_append (fs gs : List Frame) : stream (fs ++ gs) = stream fs ++ stream gs := List.flatMap_append

theorem stream_cut {fs : List Frame} {p q : Bytes} (h : p ++ q = stream fs) :
    ∃ done todo part, fs = done ++ todo ∧ p = stream done ++ part ∧ part ++ q = stream todo ∧
      (part = [] ∨ ∃ f rest after, todo = f :: rest ∧ part ++ after = f.bytes ∧ after ≠ []) := by
  induction fs generalizing p with
  | nil =>
    obtain ⟨rfl, rfl⟩ := List.append_eq_nil_iff.mp h
    exact ⟨[], [], [], rfl, rfl, rfl, Or.inl rfl⟩
  | cons f fs ih =>
    rw [stream_cons] at h
    rcases List.append_eq_append_iff.mp h with ⟨r, hr, hrest⟩ | ⟨r, hr, hrest⟩
    · by_cases hrn : r = []
      · subst hrn
        rw [List.append_nil] at hr
        exact ⟨[f], fs, [], rfl, by simp [hr], by simpa using hrest, Or.inl rfl⟩
      · exact ⟨[], f :: fs, p, rfl, rfl, h, Or.inr ⟨f, fs, r, rfl, hr.symm, hrn⟩⟩
    · obtain ⟨done, todo, part, rfl, rfl, hq, hpart⟩ := ih hrest.symm
      exact ⟨f :: done, todo, part, rfl, by rw [hr, stream_cons, List.append_assoc], hq, hpart⟩

theorem Frame.ofTokens_bytes (t : CString) (ts : List CString) (h : (frameOf (t :: ts)).length ≤ intMax) :
    (ofTokens t ts h).bytes = frameOf (t :: ts) := by
  have hbody : (ofTokens t ts h).body = Kvsp.body (t :: ts) := by
    change (Item.ofToken t :: ts.map Item.ofToken).flatMap Item.bytes ++ crlf = _
    rw [← List.map_cons, List.flatMap_map, body_eq]
    rfl
  rw [Frame.bytes, hbody]
  rfl

theorem Frame.ofTokens_command (t : CString) (ts : List CString) (h : (frameOf (t :: ts)).length ≤ intMax) :
    (ofTokens t ts h).command = t := CString.prefixOf_bytes t

def toFrame : List CString → Frame
  | [] => .ofTokens (.lit "") [] (by decide +kernel)
  | t :: ts =>
    if h : (frameOf (t :: ts)).length ≤ intMax then .ofTokens t ts h else .ofTokens (.lit "") [] (by decide +kernel)

def Framed (ts : List CString) : Prop := ts ≠ [] ∧ (frameOf ts).length ≤ intMax

theorem toFrame_bytes {ts : List CString} (h : Framed ts) : (toFrame ts).bytes = frameOf ts := by
  obtain ⟨t, ts, rfl⟩ := List.exists_cons_of_ne_nil h.1
  rw [toFrame, dif_pos h.2, Frame.ofTokens_bytes]

theorem toFrame_command {t : CString} {ts : List CString} (h : Framed (t :: ts)) : (toFrame (t :: ts)).command = t := by
  rw [toFrame, dif_pos h.2, Frame.ofTokens_command]

theorem stream_toFrame {tss : List (List CString)} (h : ∀ ts ∈ tss, Framed ts) :
    stream (tss.map toFrame) = tss.flatMap frameOf := by
  induction tss with
  | nil => rfl
  | cons ts tss ih =>
    rw [List.map_cons, stream_cons, List.flatMap_cons, toFrame_bytes (h ts List.mem_cons_self),
      ih (fun us hus => h us (List.mem_cons_of_mem ts hus))]

end Lidis.Kvsp
