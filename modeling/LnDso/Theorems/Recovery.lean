import LnDso.Theorems.LifeCycle
import LnDso.Theorems.Server

/-!
# Every part can be recovered

For each image that fits and that `main` boots there is one conversation that installs
it, whatever flash, RAM and marker the bootloader finds: the pointer, the pages, the
request to leave and its GETSTATUS.
-/

namespace LnDso

open Lib Lib.Packets

variable {cfg : Config} {s : DfuServer} {σ : Dev} {image : List Byte} {D : Download}

/-! ## Whole downloads -/

/-- The packets of a download. -/
def Download.outs (D : Download) : List Packet := (packets 64 false D.bytes).map .ofBytes

/-- A download and the GETSTATUS after it. -/
def Download.whole (D : Download) : List Event :=
  (.setup (D.request 0) :: (D.outs.map .out ++ [.inDone])) ++
    (.setup (getstatusRequest 0 0 6) :: ([.inDone] ++ [.out (.ofBytes [])]))

/-- The downloads of an image: the pointer to the first page, and the pages. -/
def updateDownloads (cfg : Config) (ops : List PageOp) : List Download :=
  (PageOp.setaddr cfg.firstPage :: ops).map PageOp.download

/-- What the host sends: a bus reset, the downloads, the request to leave. -/
def update (cfg : Config) (ops : List PageOp) : List Event :=
  .reset :: (updateDownloads cfg ops).flatMap Download.whole ++
    ([.setup (DfuRequest.leave 0 0).setup, .inDone] ++ [.setup (getstatusRequest 0 0 6)])

theorem InPages.cmd {k : Nat} {ops : List PageOp} (h : InPages k image ops) :
    ∀ D ∈ ops.map PageOp.download, ∃ c : FlashCmd, D = c.download := by
  induction h with
  | nil => exact fun D hD => absurd hD List.not_mem_nil
  | cons n data _ _ _ ih =>
      intro D hD
      rcases List.mem_cons.mp hD with rfl | hD
      · exact ⟨.block n data, rfl⟩
      · exact ih D hD

end LnDso
