import Lidis.KvsFile

namespace Lidis

namespace Kvsp

def NoFrame (r : BulkSize) : Prop := r = .more ∨ ∃ code, r = .error code

theorem parse_bad_end {rest tail : Bytes} {v : ℕ} (hs : scanDigits intMax 0 rest = some (v, tail)) (ht : tail ≠ [])
    (hc : tail.take 2 ≠ crlf) : NoFrame (kvspParseBulkSize (35 :: rest)) := by
  simp only [kvspParseBulkSize, hs, ht, hc, ne_eq, not_true_eq_false, ↓reduceIte, not_false_eq_true]
  split_ifs
  · exact Or.inr ⟨_, rfl⟩
  · exact Or.inl rfl
  · exact Or.inr ⟨_, rfl⟩

theorem parse_broken_head {n : ℕ} {p q t : Bytes} {c : UInt8} (hn : n ≤ intMax) (hpq : p ++ q = headOf n) (hp : p ≠ [])
    (hq : q ≠ []) (hd : isDigit c = false) (h13 : c ≠ 13) (h10 : c ≠ 10) : NoFrame (kvspParseBulkSize (p ++ c :: t)) := by
  obtain ⟨b, p, rfl⟩ := List.exists_cons_of_ne_nil hp
  simp only [headOf, List.cons_append, List.cons.injEq] at hpq
  obtain ⟨rfl, hpq⟩ := hpq
  have hc : ∀ x ∈ (c :: t).head?, isDigit x = false := by simpa using hd
  have hbad : (c :: t).take 2 ≠ crlf := by
    intro he
    exact h13 (List.cons.inj he).1
  rw [List.cons_append]
  rcases List.append_eq_append_iff.mp hpq with ⟨ds, hds, -⟩ | ⟨ds, hds, hrest⟩
  · have hle : valueFrom 0 (p ++ ds) ≤ intMax := by rwa [← hds, valueFrom_decimal]
    obtain ⟨v, hv⟩ := scanDigits_cut (c :: t) (hds ▸ decimal_digits _) hle hc
    exact parse_bad_end hv (by simp) hbad
  · rcases ds with _ | ⟨d, ds⟩
    · rw [hds, List.append_nil]
      exact parse_bad_end (scanDigits_decimal hn hc) (by simp) hbad
    · have hds' : d = 13 ∧ ds = [] := by
        simp only [crlf, List.cons_append, List.cons.injEq] at hrest
        refine ⟨hrest.1.symm, ?_⟩
        rcases ds with _ | ⟨e, ds⟩
        · rfl
        · have hlen := congrArg List.length hrest.2
          have := List.length_pos_of_ne_nil hq
          simp only [List.length_cons, List.length_nil, List.length_append] at hlen
          omega
      obtain ⟨rfl, rfl⟩ := hds'
      rw [hds, List.append_assoc]
      have h13' : ∀ x ∈ ([13] ++ c :: t).head?, isDigit x = false := by
        intro x hx
        obtain rfl : x = 13 := by simpa using hx.symm
        decide
      refine parse_bad_end (scanDigits_decimal hn h13') (by simp) ?_
      intro he
      exact h10 (List.cons.inj (List.cons.inj he).2).1

/-- A frame that breaks off and goes on with something else: no frame is seen, or one of the full length. -/
theorem parse_interrupted {ts : List CString} {p q t : Bytes} {c : UInt8} (hl : (frameOf ts).length ≤ intMax)
    (hpq : p ++ q = frameOf ts) (hp : p ≠ []) (hd : isDigit c = false) (h13 : c ≠ 13) (h10 : c ≠ 10) :
    NoFrame (kvspParseBulkSize (p ++ c :: t)) ∨
      kvspParseBulkSize (p ++ c :: t) = .frame (frameOf ts).length (headOf (body ts).length).length := by
  rw [frameOf_length] at hl ⊢
  have hwhole : ∀ r, NoFrame (kvspParseBulkSize (headOf (body ts).length ++ r)) ∨
      kvspParseBulkSize (headOf (body ts).length ++ r) =
        .frame ((headOf (body ts).length).length + (body ts).length) (headOf (body ts).length).length := by
    intro r
    rw [parse_head hl]
    split_ifs
    · exact Or.inl (Or.inl rfl)
    · exact Or.inr rfl
  change p ++ q = headOf (body ts).length ++ body ts at hpq
  rcases List.append_eq_append_iff.mp hpq with ⟨r, hr, -⟩ | ⟨r, rfl, -⟩
  · by_cases hrn : r = []
    · rw [hrn, List.append_nil] at hr
      rw [← hr]
      exact hwhole _
    · exact Or.inl (parse_broken_head (by omega) hr.symm hp hrn hd h13 h10)
  · rw [List.append_assoc]
    exact hwhole _

theorem parse_torn {ts : List CString} {p q junk w : Bytes} (hl : (frameOf ts).length ≤ intMax)
    (hpq : p ++ q = frameOf ts) (hq : q ≠ []) (hw : w <+: p ++ (List.replicate q.length 0 ++ junk)) :
    NoFrame (kvspParseBulkSize w) ∨
      kvspParseBulkSize w = .frame (frameOf ts).length (headOf (body ts).length).length := by
  by_cases hnil : w = []
  · subst hnil
    exact Or.inl (Or.inr ⟨-1, rfl⟩)
  obtain ⟨v, hv⟩ := hw
  rcases List.append_eq_append_iff.mp hv with ⟨w', rfl, -⟩ | ⟨u, rfl, hu⟩
  · rw [List.append_assoc] at hpq
    exact Or.inl (Or.inl (parse_cut hl hpq hnil (by simp [hq])))
  · rcases u with _ | ⟨c, t⟩
    · rw [List.append_nil] at hnil ⊢
      exact Or.inl (Or.inl (parse_cut hl hpq hnil hq))
    · obtain ⟨x, q, rfl⟩ := List.exists_cons_of_ne_nil hq
      obtain rfl : c = 0 := by
        rw [List.length_cons, List.replicate_succ, List.cons_append, List.cons_append, List.cons.injEq] at hu
        exact hu.1.symm
      by_cases hp : p = []
      · subst hp
        exact Or.inl (Or.inr ⟨-2, rfl⟩)
      · exact parse_interrupted hl hpq hp (by decide) (by decide) (by decide)

end Kvsp

theorem visible_cut (rest : Bytes) : visible rest <+: rest := by
  rw [visible]
  split_ifs
  · exact List.take_prefix _ _
  · exact List.nil_prefix

section

variable {G : Type} {handler : Handler G} {apply : ℕ → List CString → G → Option (ℤ × G)} {ok : List CString → Prop}
  {env : FileEnv}

theorem readFrames_noFrame {n i : ℕ} {rest : Bytes} {cli : Client} {g : G}
    (h : rest = [] ∨ Kvsp.NoFrame (Kvsp.kvspParseBulkSize (visible rest))) :
    readFrames handler env (n + 1) i rest cli g = some g := by
  rw [readFrames]
  rcases h with h | h | ⟨code, h⟩
  · rw [if_pos h]
  · split_ifs
    · rfl
    · rw [h]
  · split_ifs
    · rfl
    · rw [h]

theorem fileRead_oversized (handler : Handler G) (he : env.Granted) {file : Bytes} (h : intMax < file.length % 2 ^ 32)
    (g : G) : kvsFileRead handler env file g = some (0, g) := by
  have hne : file ≠ [] := by
    rintro rfl
    simp at h
  have hvis : visible file = [] := by rw [visible, if_neg (not_le.mpr h)]
  rw [kvsFileRead, if_neg hne, if_neg (by simp [he.1]), if_neg (by simp [he.2.1]),
    readFrames_noFrame (Or.inr (by rw [hvis]; exact Or.inr ⟨-1, rfl⟩))]
  rfl

/-- What a crash leaves of a frame: a part of it up to the end of the file, or followed by NULs over its whole area. -/
def TornAt (p q rest : Bytes) : Prop := rest = p ∨ ∃ junk, rest = p ++ (List.replicate q.length 0 ++ junk)

theorem readFrames_torn (h : Handles handler apply ok) (he : env.Granted) {n i : ℕ} {ts : List CString}
    {p q rest : Bytes} {cli : Client} {g : G} (hs : cli.Sized) (hl : (Kvsp.frameOf ts).length < intMax)
    (hpq : p ++ q = Kvsp.frameOf ts) (hq : q ≠ []) (ht : TornAt p q rest) :
    readFrames handler env (n + 1) i rest cli g = some g := by
  have hlen : p.length + q.length = (Kvsp.frameOf ts).length := by rw [← List.length_append, hpq]
  have hqpos := List.length_pos_of_ne_nil hq
  rcases ht with rfl | ⟨junk, rfl⟩
  · refine readFrames_noFrame (Or.inr ?_)
    have hpre : visible rest <+: rest ++ (List.replicate q.length 0 ++ []) :=
      (visible_cut rest).trans (List.prefix_append _ _)
    rcases Kvsp.parse_torn hl.le hpq hq hpre with hno | hframe
    · exact hno
    · have h1 := (Kvsp.parse_frame_bounds hframe).2
      have h2 := (visible_cut rest).length_le
      omega
  · have hpre := visible_cut (p ++ (List.replicate q.length 0 ++ junk))
    rcases Kvsp.parse_torn hl.le hpq hq hpre with hno | hframe
    · exact readFrames_noFrame (Or.inr hno)
    · -- the frame is complete in length, and its last byte is NUL
      have hne : p ++ (List.replicate q.length 0 ++ junk) ≠ [] := by
        intro hnil
        have := congrArg List.length hnil
        simp only [List.length_append, List.length_replicate, List.length_nil] at this
        omega
      have htake : (p ++ (List.replicate q.length 0 ++ junk)).take (Kvsp.frameOf ts).length =
          p ++ List.replicate q.length 0 := by
        rw [← hlen, ← List.append_assoc]
        exact List.take_left' (by simp)
      obtain ⟨cli1, hgrow, hs1, hcap⟩ := growRead_sized hs hl (he.gives i _ _)
      have hfl : (p ++ List.replicate q.length (0 : UInt8)).length = (Kvsp.frameOf ts).length := by simp [hlen]
      obtain ⟨hload, hs2⟩ := loadFrame_sized hs1 (Kvsp.headOf (Kvsp.body ts).length).length
        (show (p ++ List.replicate q.length 0).length ≤ cli1.rCap by rw [hfl, hcap]; exact le_max_right _ _)
      have hbody : 2 ≤ (Kvsp.body ts).length := by rw [Kvsp.body_length]; omega
      have hfo := Kvsp.frameOf_length ts
      obtain ⟨ret, hrun, hneg⟩ := h.refuses (i := i) (g := g) hs2 (by simp only [hfl]; omega) (by
        simp only [hfl]
        rw [List.append_assoc, List.getElem?_append_right (by omega), List.getElem?_append_left (by simp; omega),
          List.getElem?_replicate]
        simp)
      rw [readFrames, if_neg hne, hframe]
      simp only [hgrow, htake, hload, hrun, bind, Option.bind, hneg, ↓reduceIte]

theorem readFrames_short (h : Handles handler apply ok) (he : env.Granted) (tss : List (List CString)) (rest : Bytes)
    {n i : ℕ} {cli : Client} {g g' : G} (hs : cli.Sized) (hok : ∀ ts ∈ tss, ok ts) (hne : tss ≠ [])
    (hshort : intMax < (frames tss ++ rest).length % 2 ^ 32 ∨
      (frames tss ++ rest).length % 2 ^ 32 < (frames tss).length)
    (hlen : ∀ ts ∈ tss, (Kvsp.frameOf ts).length < intMax) (ha : applyAll apply i tss g = some g') :
    ∃ k < tss.length, ∃ g1, applyAll apply i (tss.take k) g = some g1 ∧
      readFrames handler env (n + tss.length) i (frames tss ++ rest) cli g = some g1 := by
  induction tss generalizing i cli g with
  | nil => exact absurd rfl hne
  | cons ts tss ih =>
    simp only [frames_cons, List.append_assoc] at hshort ⊢
    have hts := hlen ts List.mem_cons_self
    have hstop : intMax < (Kvsp.frameOf ts ++ (frames tss ++ rest)).length % 2 ^ 32 ∨
        (Kvsp.frameOf ts ++ (frames tss ++ rest)).length % 2 ^ 32 < (Kvsp.frameOf ts).length →
        ∃ k < (ts :: tss).length, ∃ g1, applyAll apply i ((ts :: tss).take k) g = some g1 ∧
          readFrames handler env (n + (ts :: tss).length) i (Kvsp.frameOf ts ++ (frames tss ++ rest)) cli g = some g1 := by
      intro hcut
      refine ⟨0, by simp, g, rfl, readFrames_noFrame (Or.inr ?_)⟩
      rw [visible]
      split_ifs with hmax
      · have hlt : (Kvsp.frameOf ts ++ (frames tss ++ rest)).length % 2 ^ 32 < (Kvsp.frameOf ts).length := by omega
        rw [List.take_append_of_le_length hlt.le]
        by_cases hnil : (Kvsp.frameOf ts).take ((Kvsp.frameOf ts ++ (frames tss ++ rest)).length % 2 ^ 32) = []
        · rw [hnil]
          exact Or.inr ⟨-1, rfl⟩
        · refine Or.inl (Kvsp.parse_cut hts.le (List.take_append_drop _ _) hnil ?_)
          rw [ne_eq, List.drop_eq_nil_iff, not_le]
          exact hlt
      · exact Or.inr ⟨-1, rfl⟩
    by_cases hfirst : intMax < (Kvsp.frameOf ts ++ (frames tss ++ rest)).length % 2 ^ 32 ∨
        (Kvsp.frameOf ts ++ (frames tss ++ rest)).length % 2 ^ 32 < (Kvsp.frameOf ts).length
    · exact hstop hfirst
    · rw [not_or, not_lt, not_lt] at hfirst
      obtain ⟨hmax, hfit⟩ := hfirst
      have hmod := mod_drop hfit
      have hsum : (Kvsp.frameOf ts ++ frames tss).length = (Kvsp.frameOf ts).length + (frames tss).length :=
        List.length_append
      obtain ⟨ret, g1, hap, hret, ha⟩ := applyAll_cons ha
      obtain ⟨cli1, hs1, -, hstep⟩ := readFrames_frame (n := n + tss.length) h hs (he.gives i _ _)
        (hok ts List.mem_cons_self) hmax hfit hts hap hret
      have hne' : tss ≠ [] := by
        rintro rfl
        simp only [frames_nil, List.append_nil, List.nil_append] at hshort hmax hfit
        omega
      obtain ⟨k, hk, g2, hg2, hread⟩ := ih hs1 (fun u hu => hok u (List.mem_cons_of_mem ts hu)) hne'
        (by rw [hmod]; omega) (fun u hu => hlen u (List.mem_cons_of_mem ts hu)) ha
      refine ⟨k + 1, by simpa using hk, g2, ?_, ?_⟩
      · simp only [List.take_succ_cons, applyAll, hap, bind, Option.bind, not_lt.mpr hret, ↓reduceIte, hg2]
      · rw [show n + (ts :: tss).length = (n + tss.length) + 1 by simp [Nat.add_assoc], hstep, hread]

end

end Lidis
