import LnDso.Logic.Blocks
import LnDso.Logic.Pages
import LnDso.Theorems.Session

/-!
# Sessions as commands on a store

SETADDR, ERASE and data blocks at any address, as functions of what lasts from
one download to the next. A session of such downloads is the fold of these
functions over the store.
-/

namespace LnDso

open Lib

variable {cfg : Config} {σ : Dev} {s : Store}

/-- A download that works on the flash. -/
inductive FlashCmd
  | setaddr (addr : Word)
  | erase (addr : Word)
  | block (blocknum : { n : Half // n ≠ 0 }) (data : Payload)

/-- The bytes of a block in memory. -/
def Payload.mem (data : Payload) : Mem := fun i => data.bytes.getD i 0xff

namespace FlashCmd

/-- The download the host sends. -/
def download : FlashCmd → Download
  | .setaddr a => ⟨0, cmdSetaddr :: operandBytes a, Nat.succ_pos _, show 5 ≤ 1024 by decide⟩
  | .erase a => ⟨0, cmdErase :: operandBytes a, Nat.succ_pos _, show 5 ≤ 1024 by decide⟩
  | .block n data => ⟨n, data.bytes, data.pos, data.le⟩

/-- What the download does to the store. -/
def run (cfg : Config) (s : Store) : FlashCmd → Store
  | .setaddr a => { s with addr := a }
  | .erase a =>
      { s with
        erased := s.erased || cfg.enableSafewrite
        cells := if eraseGuard cfg a then readyCells cfg s.erased s.cells a
          else wipedCells cfg s.erased s.cells }
  | .block n data =>
      let base := blockAddr s.addr n
      { s with
        erased := s.erased || cfg.enableSafewrite
        cells := if blockGuard cfg base (BitVec.ofNat 16 data.bytes.length) then
            Nor.programHalves cfg.reprogram data.mem.halves base (data.bytes.length / 2) 0
              (readyCells cfg s.erased s.cells base)
          else wipedCells cfg s.erased s.cells }

/-- Several downloads, one after the other. -/
def runAll (cfg : Config) (s : Store) (cmds : List FlashCmd) : Store := cmds.foldl (run cfg) s

/-- The DNBUSY branch on a download is the command on the store. -/
theorem next_run {c : FlashCmd} {d : Dfu} (h : d.prog.Holds c.download) (m : Nor.Cells 32) :
    d.next cfg m = c.run cfg ⟨d.erased, d.prog.addr, m⟩ := by
  cases c with
  | setaddr a =>
      have hzero : d.prog.blocknum = 0 := h.blocknum
      have hcmd : d.prog.buf 0 = cmdSetaddr := h.byte rfl
      have hwrites : ¬ d.Writes := not_or.mpr
        ⟨not_not.mpr hzero, fun he => cmdSetaddr_ne_cmdErase (hcmd.symm.trans he)⟩
      rw [Dfu.next, dnbusyCells_else hwrites, Dfu.nextErased, decide_eq_false hwrites,
        Dfu.nextAddr, if_pos ⟨hzero, hcmd⟩, h.operand rfl, Bool.and_false, Bool.or_false, run]
  | erase a =>
      have hzero : d.prog.blocknum = 0 := h.blocknum
      have hcmd : d.prog.buf 0 = cmdErase := h.byte rfl
      have hnot : ¬ (d.prog.blocknum = 0 ∧ d.prog.buf 0 = cmdSetaddr) :=
        fun hset => cmdSetaddr_ne_cmdErase (hset.2.symm.trans hcmd)
      rw [Dfu.next, dnbusyCells, if_pos hzero, commandCells, if_pos hcmd, Dfu.nextErased,
        decide_eq_true (show d.Writes from .inr hcmd), Bool.and_true, Dfu.nextAddr, if_neg hnot,
        h.operand rfl, run]
      rfl
  | block n data =>
      have hnumber : d.prog.blocknum = n := h.blocknum
      have hzero : d.prog.blocknum ≠ 0 := hnumber ▸ n.property
      have hlen : d.prog.len.toNat = data.bytes.length := h.len
      have hlen' : d.prog.len = BitVec.ofNat 16 data.bytes.length := by
        rw [← hlen, BitVec.ofNat_toNat, BitVec.setWidth_eq]
      have hbuf : ∀ i < data.bytes.length, d.prog.buf i = data.mem i := fun i hi => by
        refine h.byte (b := data.mem i) ?_
        show data.bytes[i]? = some (data.bytes.getD i 0xff)
        rw [List.getD_eq_getElem?_getD, List.getElem?_eq_getElem hi, Option.getD_some]
      have hprogram : ∀ (base : Word) m, Nor.programHalves cfg.reprogram d.prog.buf.halves base
          (data.bytes.length / 2) 0 m = Nor.programHalves cfg.reprogram data.mem.halves base
          (data.bytes.length / 2) 0 m := fun base m => by
        refine Nor.programHalves_congr fun k _ hk => ?_
        rw [Mem.halves, Mem.halves, hbuf _ (by omega), hbuf _ (by omega)]
      rw [Dfu.next, dnbusyCells, if_neg hzero, blockCells, Dfu.nextErased,
        decide_eq_true (show d.Writes from .inl hzero), Bool.and_true, Dfu.nextAddr,
        if_neg fun hset => hzero hset.1, run]
      dsimp only
      rw [hnumber, hlen, hlen', hprogram]
      rfl

end FlashCmd

open FlashCmd

/-- The store is what the commands make of `s0`. -/
def Commanded (cfg : Config) (s0 : Store) (Ds : List Download) (s : Store) : Prop :=
  ∀ cmds : List FlashCmd, Ds = cmds.map FlashCmd.download → s = runAll cfg s0 cmds

theorem commanded_carried (cfg : Config) (s0 : Store) : Carried cfg (Commanded cfg s0) := by
  intro done D d m hdone hholds cmds hcmds
  obtain ⟨cmds', last, rfl, hmap, hlast⟩ := List.append_eq_map_iff.mp hcmds
  obtain ⟨c, rfl, rfl⟩ : ∃ c, last = [c] ∧ D = c.download := by
    obtain ⟨c, rest, rfl, hc, hrest⟩ := List.map_eq_cons_iff.mp hlast
    rw [List.map_eq_nil_iff] at hrest
    exact ⟨c, by rw [hrest], hc.symm⟩
  rw [next_run hholds, hdone cmds' hmap.symm, runAll, runAll, List.foldl_append]
  rfl

/-- A session of commands, from any state at rest. -/
theorem session_commands (cfg : Config) (htidy : σ.Tidy) (hidle : σ.flash.Idle) (hrest : σ.AtRest)
    {es : List Event} {cmds : List FlashCmd}
    (hrun : HostRun (.rest []) es (.rest (cmds.map FlashCmd.download))) :
    ((machine cfg).run σ es).flash.mem =
      (runAll cfg ⟨σ.dfu.erased, σ.dfu.prog.addr, σ.flash.mem⟩ cmds).cells := by
  have hstart : Commanded cfg ⟨σ.dfu.erased, σ.dfu.prog.addr, σ.flash.mem⟩ []
      ⟨σ.dfu.erased, σ.dfu.prog.addr, σ.flash.mem⟩ := by
    intro cmds' hnil
    obtain rfl := List.map_eq_nil_iff.mp hnil.symm
    rfl
  exact congrArg Store.cells (session (commanded_carried cfg _) htidy hidle hrest hstart hrun cmds rfl)

end LnDso
