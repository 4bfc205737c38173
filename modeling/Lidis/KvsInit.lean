import Lidis.Replay

namespace Lidis

open Engine Store

def kvsLogInit (P : Params) (file : Bytes) (load : LoadEnv) (env : ℕ → Env) (g : Global) : Option (ℤ × Global) :=
  if ¬ g.config.enableLog then some (0, g)
  else if ¬ load.opened then some (-1, { g with log := { g.log with fdLog := false } })
  else
    let log := { g.log with fdLog := true, ringLogInited := true }
    if ¬ load.fstat then some (-1, { g with log := log })
    else if file = [] then some (0, { g with log := log })
    else
      let log := { log with globalLogOffset := file.length }
      if ¬ load.mmap then some (-2, { g with log := { log with fdLog := false } })
      else do
        let (_, g) ← kvsFileRead (protocolHandler P env) load.read file { g with log := log }
        some (0, g)

/-- kvs_init after the configuration is read; what the two loaders return is not looked at. -/
def kvsInit (P : Params) (memory : Store) (sys : Sys) (dump aof : Bytes) (loadDump loadAof : LoadEnv)
    (dumpSys : ℕ → Sys) (aofEnv : ℕ → Env) (g : Global) : Option Global := do
  let s ← initKvengine P memory sys
  let (_, s) ← kvsSaveInit P g.config.enableSave dump loadDump dumpSys s
  let (_, g) ← kvsLogInit P aof loadAof aofEnv { g with store := s }
  some g

def LoadEnv.granted : LoadEnv := ⟨true, true, true, .granted⟩

structure LoadEnv.Granted (load : LoadEnv) : Prop where
  opened : load.opened = true
  fstat : load.fstat = true
  mmap : load.mmap = true
  read : load.read.Granted

theorem LoadEnv.granted_granted : LoadEnv.granted.Granted := ⟨rfl, rfl, rfl, FileEnv.granted_granted⟩

def LogState.opened (log : LogState) (file : Bytes) : LogState where
  fdLog := true
  ringLogInited := true
  globalLogOffset := if file = [] then log.globalLogOffset else file.length
  queued := log.queued

theorem kvsSaveInit_read {P : Params} {file : Bytes} {load : LoadEnv} {sys : ℕ → Sys} {s s' : Store} {code : ℤ}
    (hl : load.Granted) (h : kvsFileRead (kvsSaveHandler P sys) load.read file s = some (code, s')) :
    kvsSaveInit P true file load sys s = some (0, s') := by
  by_cases hnil : file = []
  · subst hnil
    simp only [kvsFileRead, ↓reduceIte, Option.some.injEq, Prod.mk.injEq] at h
    simp [kvsSaveInit, hl.opened, hl.fstat, h.2]
  · simp [kvsSaveInit, hl.opened, hl.fstat, hl.mmap, hnil, h]

theorem kvsLogInit_read {P : Params} {file : Bytes} {load : LoadEnv} {env : ℕ → Env} {g g' : Global} {code : ℤ}
    (hg : g.config.enableLog = true) (hl : load.Granted)
    (h : kvsFileRead (protocolHandler P env) load.read file { g with log := g.log.opened file } = some (code, g')) :
    kvsLogInit P file load env g = some (0, g') := by
  by_cases hnil : file = []
  · subst hnil
    simp only [kvsFileRead, ↓reduceIte, Option.some.injEq, Prod.mk.injEq] at h
    simp [kvsLogInit, hg, hl.opened, hl.fstat, ← h.2, LogState.opened]
  · simp only [LogState.opened, hnil, ↓reduceIte] at h
    simp [kvsLogInit, hg, hl.opened, hl.fstat, hl.mmap, hnil, h]

theorem kvsLogInit_inv {P : Params} {file : Bytes} {load : LoadEnv} {env : ℕ → Env} {g g' : Global} {ret : ℤ}
    (hg : g.config.enableLog = true) (hl : load.Granted) (hne : file ≠ [])
    (h : kvsLogInit P file load env g = some (ret, g')) :
    ∃ code, kvsFileRead (protocolHandler P env) load.read file { g with log := g.log.opened file } = some (code, g') := by
  simp only [kvsLogInit, hg, hl.opened, hl.fstat, hl.mmap, hne, not_true_eq_false, ↓reduceIte] at h
  obtain ⟨⟨code, g1⟩, hread, h⟩ := Option.bind_eq_some_iff.mp h
  obtain ⟨-, rfl⟩ := Prod.mk.inj (Option.some.inj h)
  exact ⟨code, by simpa [LogState.opened, hne] using hread⟩

end Lidis
