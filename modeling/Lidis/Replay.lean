import Lidis.KvsFile
import Lidis.Requests

namespace Lidis

open Engine Store

def protocolHandler (P : Params) (env : ℕ → Env) : Handler Global := fun i cli g => kvsProtocol P cli g (env i)

def applyCommand (P : Params) (env : ℕ → Env) (i : ℕ) (ts : List CString) (g : Global) : Option (ℤ × Global) :=
  (effect P ts g (env i)).map (fun r => ((r.2.text.length : ℤ), r.1))

def Loggable (ts : List CString) : Prop :=
  (∃ id o, requestOf ts = some (id, o) ∧ o.mutates = true) ∧ ts.length ≤ maxTokens ∧
    (Kvsp.frameOf ts).length < intMax

theorem loggable_reply {P : Params} {ts : List CString} {g g' : Global} {env : Env} {reply : Reply} (h : Loggable ts)
    (he : effect P ts g env = some (g', reply)) :
    reply = .ok ∨ reply = .error ∨ reply = .exist ∨ reply = .noExist := by
  obtain ⟨⟨id, o, hr, hmut⟩, -⟩ := h
  rw [effect_request P g env hr] at he
  obtain ⟨r, -, he⟩ := Option.bind_eq_some_iff.mp he
  obtain ⟨g1, -, he⟩ := Option.map_eq_some_iff.mp he
  obtain ⟨-, rfl⟩ := Prod.mk.inj he
  exact mutates_reply hmut r.2

theorem protocol_handles (P : Params) (env : ℕ → Env) :
    Handles (protocolHandler P env) (applyCommand P env) Loggable where
  accepts := by
    intro i cli g ts ret g' hload hok hap
    obtain ⟨⟨g1, reply⟩, he, hret⟩ := Option.map_eq_some_iff.mp hap
    obtain ⟨rfl, rfl⟩ := Prod.mk.inj hret
    obtain ⟨junk, hrbuf⟩ := hload.rbuf
    obtain ⟨mem, tokens, hsplit, hread, hlen, -⟩ := Kvsp.splitToken_frame (0 :: junk) hok.2.1 (le_of_lt hok.2.2)
    have hs := hload.sized
    have hwo : Client.WriteOk { cli with rbuf := mem } := hs.writeOk.congr rfl rfl rfl
    have hroom : cli.wPos + 32 ≤ cli.wCap := by
      have h1 := hs.wPos
      have h2 := hs.wCap
      simp only [fileBufferSize] at h2
      omega
    have hplain := loggable_reply hok he
    obtain ⟨wbuf, hfilter, hwl⟩ := filter_short hwo hroom he
      (by rintro result rfl; simp at hplain) (by rintro l rfl; simp at hplain)
      (by rcases hplain with rfl | rfl | rfl | rfl <;> trivial)
    refine ⟨{ cli with rbuf := mem, wbuf := wbuf }, ?_, ?_, rfl⟩
    · rw [← hrbuf, ← hload.cmdHl, ← hload.cmdTl] at hsplit
      rw [protocolHandler, kvsProtocol_tokens (by rw [kvsSplitToken, hs.protocol, hsplit]) hread]
      exact hfilter
    · exact ⟨by simp only [hlen, ← hrbuf, hs.rbuf], hs.writeOk.congr hwl rfl rfl, hs.wCap, hs.wPos, hs.protocol⟩
  refuses := by
    intro i cli g hs hlen hend
    refine ⟨-1, ?_, by decide⟩
    exact kvsProtocol_refused (by rw [kvsSplitToken, hs.protocol, Kvsp.splitToken_no_end hend hlen])

def requests (tss : List (List CString)) : List (EngineId × Op) := tss.filterMap requestOf

theorem requests_cons {ts : List CString} {r : EngineId × Op} (h : requestOf ts = some r) (tss : List (List CString)) :
    requests (ts :: tss) = r :: requests tss := List.filterMap_cons_some h

theorem requests_append (tss uss : List (List CString)) : requests (tss ++ uss) = requests tss ++ requests uss :=
  List.filterMap_append

theorem applyAll_recovering {P : Params} {env : ℕ → Env} (henv : ∀ i, (env i).sys.AllocOk) (tss : List (List CString))
    (hok : ∀ ts ∈ tss, Loggable ts) (i : ℕ) {g : Global} {m : Maps} (hH : Holds P g.store m) (hrec : g.recovering = true) :
    ∃ s', applyAll (applyCommand P env) i tss g =
        some { g with store := s', executed := g.executed ++ tss } ∧ Holds P s' (m.replay P (requests tss)) := by
  induction tss generalizing i g m with
  | nil => exact ⟨g.store, by simp [applyAll], hH⟩
  | cons ts tss ih =>
    obtain ⟨id, o, hr, hmut⟩ := (hok ts List.mem_cons_self).1
    obtain ⟨s1, he, hs1⟩ := effect_recovering hr hH (henv i) hrec
    obtain ⟨s2, hall, hs2⟩ := ih (fun u hu => hok u (List.mem_cons_of_mem ts hu)) (i + 1)
      (g := { g with store := s1, executed := g.executed ++ [ts] }) hs1 hrec
    refine ⟨s2, ?_, ?_⟩
    · have hpos : ∀ n : ℕ, ¬ ((n : ℤ) < 0) := fun n => by omega
      simp only [applyAll, applyCommand, he, Option.map_some, bind, Option.bind, hpos, ↓reduceIte]
      rw [hall]
      simp
    · rw [requests_cons hr]
      exact hs2

theorem fileRead_frames {P : Params} {env : ℕ → Env} {fe : FileEnv} (hfe : fe.Granted)
    (henv : ∀ i, (env i).sys.AllocOk) (tss : List (List CString)) (hok : ∀ ts ∈ tss, Loggable ts)
    (hlen : (frames tss).length < 2 ^ 31) {g : Global} {m : Maps} (hH : Holds P g.store m) (hrec : g.recovering = true) :
    ∃ ret s', kvsFileRead (protocolHandler P env) fe (frames tss) g =
        some (ret, { g with store := s', executed := g.executed ++ tss }) ∧ Holds P s' (m.replay P (requests tss)) := by
  obtain ⟨s', hall, hs'⟩ := applyAll_recovering henv tss hok 0 hH hrec
  obtain ⟨ret, hread⟩ := fileRead_all (protocol_handles P env) hfe.1 hfe.2.1 tss (hfe.fills _ _ _) hok
    (fun ts hts => (hok ts hts).2.2) hlen hall
  exact ⟨ret, s', hread, hs'⟩

end Lidis
