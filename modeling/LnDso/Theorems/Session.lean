import LnDso.Logic.Applied
import LnDso.Logic.FlashMem
import LnDso.Logic.QuietPolls
import LnDso.Logic.Stable
import LnDso.Theorems.Downloads
import LnDso.Theorems.InStage
import LnDso.Theorems.OutStage

/-!
# A host session

The host sends downloads one after the other, each completed by a GETSTATUS
transfer; between two of them anything may happen on the bus but the SETUP of
a download. `Host` is where the host stands, `HostRun` what it does; the polls
without a packet, which may come anywhere, change nothing (`run_withPolls`).
`Follows` says in which state that finds the device, for any property of the
address pointer and the cells that each DNBUSY run carries over.
-/

namespace LnDso

open Lib UsbPeriph

/-! ## The host -/

/-- The request of a download, to interface `i`. -/
def Download.request (D : Download) (i : Half) : UsbSetupData :=
  ⟨0x21, 1, D.blocknum, i, BitVec.ofNat 16 D.bytes.length⟩

/-- A request for `w` bytes of the DFU status. -/
def getstatusRequest (v i w : Half) : UsbSetupData := ⟨0xA1, 3, v, i, w⟩

/-- The request downloads data. -/
def UsbSetupData.Downloads (r : UsbSetupData) : Prop :=
  r.ClassInterface ∧ DfuReq.ofByte r.bRequest = some .dnload ∧ r.wLength ≠ 0

/-- The request leaves a waiting block alone. -/
def UsbSetupData.Quiet (r : UsbSetupData) : Prop :=
  r.ClassInterface → DfuReq.ofByte r.bRequest = none ∨
    DfuReq.ofByte r.bRequest = some .getstate ∨ DfuReq.ofByte r.bRequest = some .clrstatus

/-- Where the host stands, and the downloads it has completed. -/
inductive Host
  /-- Between two downloads. -/
  | rest (done : List Download)
  /-- `n` bytes of a download are sent. -/
  | sending (done : List Download) (D : Download) (n : Nat)
  /-- The download is sent. -/
  | sent (done : List Download) (D : Download)
  /-- The status is asked for. -/
  | asked (done : List Download) (D : Download)
  /-- The status has been read. -/
  | answered (done : List Download) (D : Download)

/-- What the host does on the bus. -/
inductive HostStep : Host → Event → Host → Prop
  | other {done : List Download} {e : Event} :
      e.Brings (fun r => ¬ r.Downloads) → HostStep (.rest done) e (.rest done)
  | start {done : List Download} (D : Download) (i : Half) :
      HostStep (.rest done) (.setup (D.request i)) (.sending done D 0)
  | more {done : List Download} {D : Download} {n : Nat} {pkt : Packet} :
      64 < D.bytes.length - n → pkt.bytes = (D.bytes.drop n).take 64 →
      HostStep (.sending done D n) (.out pkt) (.sending done D (n + 64))
  | last {done : List Download} {D : Download} {n : Nat} {pkt : Packet} :
      D.bytes.length - n ≤ 64 → pkt.bytes = D.bytes.drop n →
      HostStep (.sending done D n) (.out pkt) (.sent done D)
  | wait {done : List Download} {D : Download} {e : Event} :
      e.Brings UsbSetupData.Quiet → HostStep (.sent done D) e (.sent done D)
  | ask {done : List Download} {D : Download} {v i w : Half} :
      w ≠ 0 → HostStep (.sent done D) (.setup (getstatusRequest v i w)) (.asked done D)
  | read {done : List Download} {D : Download} :
      HostStep (.asked done D) .inDone (.answered done D)
  | status {done : List Download} {D : Download} (pkt : Packet) :
      HostStep (.answered done D) (.out pkt) (.rest (done ++ [D]))

/-- What the host does over a sequence of events. -/
inductive HostRun : Host → List Event → Host → Prop
  | nil {h : Host} : HostRun h [] h
  | cons {h h' h'' : Host} {e : Event} {es : List Event} :
      HostStep h e h' → HostRun h' es h'' → HostRun h (e :: es) h''

theorem HostRun.append {h h' h'' : Host} {es es' : List Event} (hrun : HostRun h es h')
    (hrun' : HostRun h' es' h'') : HostRun h (es ++ es') h'' := by
  induction hrun with
  | nil => exact hrun'
  | cons hstep _ ih => exact .cons hstep (ih hrun')

/-- Downloads of one packet each, with nothing between them. -/
def sendAll (Ds : List Download) : List Event :=
  Ds.flatMap fun D => download D.blocknum (.ofBytes D.bytes)

theorem sendAll_run {done Ds : List Download} (hshort : ∀ D ∈ Ds, D.bytes.length ≤ 64) :
    HostRun (.rest done) (sendAll Ds) (.rest (done ++ Ds)) := by
  induction Ds generalizing done with
  | nil =>
      rw [List.append_nil]
      exact .nil
  | cons D Ds ih =>
      have hlen := hshort D List.mem_cons_self
      have hbytes : (Packet.ofBytes D.bytes).bytes = D.bytes := List.take_of_length_le (by omega)
      have hsetup : (⟨0x21, 1, D.blocknum, 0,
          BitVec.ofNat 16 (Packet.ofBytes D.bytes).bytes.length⟩ : UsbSetupData) = D.request 0 := by
        rw [hbytes]
        rfl
      have hone : HostRun (.rest done) (download D.blocknum (.ofBytes D.bytes)) (.rest (done ++ [D])) := by
        unfold download
        rw [hsetup]
        refine .cons (.start D 0) (.cons (.last (by omega) hbytes) (.cons (.wait trivial) ?_))
        refine .cons (.ask (v := 0) (i := 0) (w := 6) (by decide)) (.cons .read ?_)
        exact .cons (.status _) .nil
      have hrest : HostRun (.rest (done ++ [D])) (sendAll Ds) (.rest (done ++ [D] ++ Ds)) :=
        ih fun D' hD' => hshort D' (List.mem_cons_of_mem D hD')
      rw [List.append_assoc] at hrest
      exact hone.append hrest

/-! ## The device -/

variable {cfg : Config} {σ : Dev} {I : List Download → Store → Prop}
  {done : List Download} {D : Download} {n : Nat}

/-- The flash is at rest, and the property holds of address pointer and cells. -/
def Clean (I : List Download → Store → Prop) (done : List Download) (d : Dfu)
    (fl : Flash) : Prop :=
  fl.Idle ∧ I done ⟨d.erased, d.prog.addr, fl.mem⟩

/-- No block waits. -/
def Resting (I : List Download → Store → Prop) (done : List Download) (d : Dfu)
    (fl : Flash) : Prop :=
  ¬ d.Pending ∧ Clean I done d fl

/-- The block waits for a GETSTATUS. -/
def Waiting (I : List Download → Store → Prop) (done : List Download) (D : Download)
    (d : Dfu) (fl : Flash) : Prop :=
  d.usbdfuState = .dfuDnloadSync ∧ d.prog.Holds D ∧ Clean I done d fl

/-- The DNBUSY branch is due on the block, once the transfer is over. -/
structure Due (I : List Download → Store → Prop) (done : List Download)
    (D : Download) (σ : Dev) : Prop where
  cb : σ.pipe.usbCompleteCb = some .usbdfuGetstatusComplete
  state : σ.dfu.usbdfuState = .dfuDnbusy
  holds : σ.dfu.prog.Holds D
  clean : Clean I done σ.dfu σ.flash

/-- The device, as the host's doings leave it. -/
def Follows (I : List Download → Store → Prop) : Host → Dev → Prop
  | .rest done, σ => σ.Stays (fun r => ¬ r.Downloads) (Resting I done)
  | .sending done D n, σ => (∃ i, σ.Receiving (D.request i) n) ∧
      σ.usbdControlBuffer.read 0 n = D.bytes.take n ∧ Clean I done σ.dfu σ.flash
  | .sent done D, σ => σ.Stays UsbSetupData.Quiet (Waiting I done D)
  | .asked done D, σ => σ.Calm ∧ σ.pipe.usbFsmState = .lastDataIn ∧ Due I done D σ
  | .answered done D, σ => σ.pipe.usbFsmState = .statusOut ∧ Due I done D σ

/-! ## Requests that leave it so -/

/-- No request moves the address pointer or changes a cell. -/
theorem usbdfuControlRequest_clean (h : Clean I done σ.dfu σ.flash) :
    Clean I done (usbdfuControlRequest cfg σ).2.dfu (usbdfuControlRequest cfg σ).2.flash := by
  have hflash := usbdfuControlRequest_over cfg (σ := σ) ⟨h.1, rfl⟩
  refine ⟨hflash.rest, ?_⟩
  rw [usbdfuControlRequest_erased, usbdfuControlRequest_addr, hflash.mem]
  exact h.2

/-- A request that downloads nothing makes no block wait. -/
theorem usbdfuControlRequest_notPending (hreq : σ.pipe.usbReq.ClassInterface)
    (hno : ¬ σ.pipe.usbReq.Downloads) (h : ¬ σ.dfu.Pending) :
    ¬ (usbdfuControlRequest cfg σ.toHandler).2.dfu.Pending := by
  have hset : ∀ {s : DfuState}, s ≠ .dfuDnloadSync → s ≠ .dfuDnbusy →
      ¬ ({ σ.dfu with usbdfuState := s } : Dfu).Pending := fun hs hb => not_or.mpr ⟨hs, hb⟩
  unfold usbdfuControlRequest
  split
  · next hq =>
    have hlen : σ.pipe.usbReq.wLength = 0 := not_not.mp fun hw => hno ⟨hreq, hq, hw⟩
    unfold dfuDnload
    rw [if_pos (show σ.toHandler.pipe.datasize = 0 from hlen)]
    exact hset (by simp) (by simp)
  · dsimp only
    split
    · exact hset (by simp) (by simp)
    · exact h
  · exact hset (by simp) (by simp)
  · exact hset (by simp) (by simp)
  · unfold dfuUpload dfuUploadBlock
    dsimp only
    split
    · exact hset (by simp) (by simp)
    split
    · split
      · exact hset (by simp) (by simp)
      · exact hset (by simp) (by simp)
    · exact hset (by simp) (by simp)
  · exact mt (dfuGetstatus_pending σ.toHandler).mp h
  · exact h
  · exact h

/-- Between two downloads, requests that download nothing. -/
theorem resting_stable (cfg : Config) (I : List Download → Store → Prop)
    (done : List Download) : Stable cfg (fun r => ¬ r.Downloads) (Resting I done) where
  request hclass hno h :=
    ⟨usbdfuControlRequest_notPending hclass hno h.1, usbdfuControlRequest_clean h.2⟩
  complete {σ} h := by
    rw [usbdfuGetstatusComplete_else fun hs => h.1 (.inr hs)]
    exact h

/-- After a download, requests that leave the block alone. -/
theorem waiting_stable (cfg : Config) (I : List Download → Store → Prop)
    (done : List Download) (D : Download) :
    Stable cfg UsbSetupData.Quiet (Waiting I done D) where
  request {σ} hclass hquiet h := by
    have hcode : σ.toHandler.pipe.usbReq.bRequest = σ.pipe.usbReq.bRequest := rfl
    unfold usbdfuControlRequest
    rw [hcode]
    rcases hquiet hclass with hq | hq | hq
    · rw [hq]
      exact h
    · rw [hq]
      exact h
    · have hstate : σ.toHandler.dfu.usbdfuState ≠ .dfuError := fun he => by
        rw [show σ.toHandler.dfu.usbdfuState = .dfuDnloadSync from h.1] at he
        cases he
      rw [hq]
      dsimp only
      rw [if_neg hstate]
      exact h
  complete {σ} h := by
    have hstate : σ.dfu.usbdfuState ≠ .dfuDnbusy := by rw [h.1]; simp
    rw [usbdfuGetstatusComplete_else hstate]
    exact h

/-! ## The transfers of a download -/

theorem Download.request_not_dirIn (D : Download) (i : Half) : ¬ (D.request i).DirIn :=
  show ¬ (0x21 : Byte) &&& 0x80 ≠ 0 by decide

theorem Download.request_class (D : Download) (i : Half) : (D.request i).ClassInterface :=
  show (0x21 : Byte) &&& (usbReqTypeType ||| usbReqTypeRecipient) =
    usbReqTypeClass ||| usbReqTypeInterface by decide

theorem Download.request_dnload (D : Download) (i : Half) :
    DfuReq.ofByte (D.request i).bRequest = some .dnload := rfl

theorem Download.request_wLength (D : Download) (i : Half) :
    (D.request i).wLength.toNat = D.bytes.length := by
  have hle := D.le
  simp only [dfuTransferSize] at hle
  rw [request, BitVec.toNat_ofNat]
  exact Nat.mod_eq_of_lt (by omega)

theorem Download.request_wLength_ne (D : Download) (i : Half) : (D.request i).wLength ≠ 0 := by
  intro h
  have hlen := congrArg BitVec.toNat h
  rw [D.request_wLength] at hlen
  exact absurd hlen (Nat.ne_of_gt D.pos)

/-- The SETUP of a download opens its data stage, whatever came before. -/
theorem start_sending (h : Clean I done σ.dfu σ.flash) (htidy : σ.Tidy) (D : Download) (i : Half) :
    Follows I (.sending done D 0) (poll cfg σ (.setup (D.request i))) ∧
      (poll cfg σ (.setup (D.request i))).dfu = σ.dfu := by
  have hfit : (D.request i).wLength.toNat ≤ controlBufferSize := by
    rw [D.request_wLength]
    exact D.le
  obtain ⟨hrecv, -, -, hdfu, hflash⟩ := poll_setup_write cfg htidy.noReset
    (p := D.request i) (D.request_not_dirIn i) (D.request_wLength_ne i) hfit
  refine ⟨⟨⟨i, hrecv⟩, rfl, ?_⟩, hdfu⟩
  rw [hdfu, hflash]
  exact h

theorem start_follows (h : Follows I (.rest done) σ) (htidy : σ.Tidy) (D : Download) (i : Half) :
    Follows I (.sending done D 0) (poll cfg σ (.setup (D.request i))) :=
  (start_sending h.holds.2 htidy D i).1

theorem more_follows (h : Follows I (.sending done D n) σ) (hmore : 64 < D.bytes.length - n)
    {pkt : Packet} (hpkt : pkt.bytes = (D.bytes.drop n).take 64) :
    Follows I (.sending done D (n + 64)) (poll cfg σ (.out pkt)) := by
  obtain ⟨⟨i, hrecv⟩, hread, hclean⟩ := h
  have htake : pkt.bytes.take 64 = (D.bytes.drop n).take 64 := by
    rw [hpkt, List.take_take, Nat.min_self]
  have hlen : ((D.bytes.drop n).take 64).length = 64 := by
    rw [List.length_take, List.length_drop]
    omega
  obtain ⟨hnext, -, hbuf, hdfu, hflash⟩ := hrecv.out_more cfg
    (by rw [D.request_wLength]; exact hmore) (show 64 ≤ pkt.bytes.length by rw [hpkt, hlen])
  refine ⟨⟨i, hnext⟩, ?_, ?_⟩
  · have happend := Mem.read_write_append σ.usbdControlBuffer n ((D.bytes.drop n).take 64)
    rw [hlen] at happend
    rw [hbuf, htake, happend, hread, List.take_add]
  · rw [hdfu, hflash]
    exact hclean

/-- The state of DFU_DNLOAD with all data received. -/
theorem dnload_waiting {i : Half} (hreq : σ.pipe.usbReq = D.request i)
    (hread : σ.usbdControlBuffer.read 0 D.bytes.length = D.bytes) (h : Clean I done σ.dfu σ.flash) :
    Waiting I done D (dfuDnload σ.toHandler).dfu (dfuDnload σ.toHandler).flash := by
  have hsize : σ.toHandler.pipe.datasize = (D.request i).wLength :=
    congrArg UsbSetupData.wLength hreq
  have hfit : ¬ (1024 : Half) < σ.toHandler.pipe.datasize := by
    rw [hsize, BitVec.lt_def, D.request_wLength]
    exact Nat.not_lt.mpr D.le
  unfold dfuDnload
  rw [if_neg (by rw [hsize]; exact D.request_wLength_ne i)]
  dsimp only
  rw [if_neg hfit, hsize, D.request_wLength]
  refine ⟨rfl, ⟨congrArg UsbSetupData.wValue hreq, D.request_wLength i, ?_⟩, h⟩
  show (σ.dfu.prog.buf.write 0 (σ.usbdControlBuffer.read 0 D.bytes.length)).read 0 _ = _
  rw [hread, Mem.read_write]

theorem last_follows (h : Follows I (.sending done D n) σ) (hlast : D.bytes.length - n ≤ 64)
    {pkt : Packet} (hpkt : pkt.bytes = D.bytes.drop n) :
    Follows I (.sent done D) (poll cfg σ (.out pkt)) := by
  obtain ⟨⟨i, hrecv⟩, hread, hclean⟩ := h
  have hw := D.request_wLength i
  have hlen : pkt.bytes.length = D.bytes.length - n := by rw [hpkt, List.length_drop]
  obtain ⟨v, istr, hpoll⟩ := hrecv.poll_last cfg (by rw [hw]; exact hlast)
    (show (D.request i).wLength.toNat - n ≤ pkt.bytes.length by rw [hw, hlen])
  rw [hw, ← hlen, List.take_length] at hpoll
  let τ := σ.received v (σ.usbdControlBuffer.write n pkt.bytes)
  have hreq : τ.pipe.usbReq = D.request i := hrecv.usbReq
  have hle : n + pkt.bytes.length = D.bytes.length := by
    have hlt := hrecv.lt
    rw [hw] at hlt
    omega
  have hdata : τ.usbdControlBuffer.read 0 D.bytes.length = D.bytes := by
    rw [← hle]
    show (σ.usbdControlBuffer.write n pkt.bytes).read 0 _ = _
    rw [Mem.read_write_append, hread, hpkt, List.take_append_drop]
  have hdisp : usbControlRequestDispatch cfg τ = (.handled, dfuDnload τ.toHandler) :=
    usbControlRequestDispatch_dnload (by rw [hreq]; exact D.request_class i)
      (by rw [hreq]; exact D.request_dnload i)
  have hwaiting : Waiting I done D (dfuDnload τ.toHandler).dfu (dfuDnload τ.toHandler).flash :=
    dnload_waiting hreq hdata hclean
  rw [hpoll, show usbControlRequestDispatch cfg (σ.received v _) = _ from hdisp,
    if_neg (show ¬ ReqCode.handled = .notsupp by simp)]
  exact .of_noDataOut hwaiting (.of_fsm (s := .statusIn) rfl (by simp) (by simp))

/-! ## The GETSTATUS transfer -/

theorem getstatusRequest_dirIn (v i w : Half) : (getstatusRequest v i w).DirIn :=
  show (0xA1 : Byte) &&& 0x80 ≠ 0 by decide

theorem getstatusRequest_class (v i w : Half) : (getstatusRequest v i w).ClassInterface :=
  show (0xA1 : Byte) &&& (usbReqTypeType ||| usbReqTypeRecipient) =
    usbReqTypeClass ||| usbReqTypeInterface by decide

/-- A reply of at most six bytes goes out in one packet. -/
theorem answer_short {w : Half} (hw : w ≠ 0) (hsize : σ.pipe.datasize = 6) :
    (σ.answer w).pipe.usbFsmState = .lastDataIn := by
  have hpos : 0 < w.toNat := Nat.pos_of_ne_zero fun h => hw (BitVec.eq_of_toNat_eq h)
  have htrunc : (truncate w σ.pipe.datasize).toNat = min 6 w.toNat := by
    rw [truncate_toNat, hsize]
    rfl
  have hzlp : needsZlp (truncate w σ.pipe.datasize) w bMaxPacketSize0 = false := by
    have hmod : truncate w σ.pipe.datasize % bMaxPacketSize0.setWidth 16 ≠ 0 := fun h => by
      have hnat := congrArg BitVec.toNat h
      rw [BitVec.toNat_umod, htrunc] at hnat
      change min 6 w.toNat % 64 = 0 at hnat
      omega
    rw [needsZlp, decide_eq_false hmod, Bool.and_false, Bool.and_false]
  unfold Dev.answer
  dsimp only
  rw [if_pos hw, usbControlSendChunk_last (show (truncate w σ.pipe.datasize).toNat ≤ 64 by omega)]
  dsimp only
  rw [hzlp]
  rfl

/-- GETSTATUS turns to the waiting block. -/
theorem getstatus_due (h : Waiting I done D σ.dfu σ.flash) : Due I done D (dfuGetstatus σ) := by
  obtain ⟨hs, hholds, hclean⟩ := h
  unfold dfuGetstatus
  rw [hs]
  exact ⟨rfl, rfl, hholds, hclean⟩

theorem ask_follows (h : Follows I (.sent done D) σ) (htidy : σ.Tidy) {v i w : Half} (hw : w ≠ 0) :
    Follows I (.asked done D) (poll cfg σ (.setup (getstatusRequest v i w))) := by
  let p := getstatusRequest v i w
  have hnext := poll_noReset cfg σ (.setup p)
  obtain ⟨u, istr, hclear, -, -, hpoll⟩ := poll_setup cfg htidy.noReset p
  let τ : Dev := { σ.began p u with pipe := { (σ.began p u).pipe with dataoff := 0 } }
  have hdisp : usbControlRequestDispatch cfg τ = (.handled, dfuGetstatus τ.toHandler) :=
    usbControlRequestDispatch_getstatus (getstatusRequest_class v i w) rfl
  have hdue : Due I done D (dfuGetstatus τ.toHandler) := getstatus_due h.holds
  have hstage : (σ.began p u).setupStage cfg p = (dfuGetstatus τ.toHandler).answer w :=
    setupStage_answered (.inr (getstatusRequest_dirIn v i w)) rfl (by simp) hdisp
  have hsw := setupStage_sw cfg p (σ.began p u)
  have hrx := hsw.ctrRx hclear.ctrRx
  rw [hpoll] at hnext ⊢
  rw [hstage] at hnext hrx ⊢
  have hfsm := answer_short (σ := dfuGetstatus τ.toHandler) hw (by unfold dfuGetstatus; rfl)
  obtain ⟨hdfu, hflash⟩ := answer_sameDfu w (dfuGetstatus τ.toHandler)
  refine ⟨.tail hrx hnext, hfsm, ?_, ?_, ?_, ?_⟩
  · show ((dfuGetstatus τ.toHandler).answer w).pipe.usbCompleteCb = _
    rw [answer_cb]
    exact hdue.cb
  · show ((dfuGetstatus τ.toHandler).answer w).dfu.usbdfuState = _
    rw [hdfu]
    exact hdue.state
  · show ((dfuGetstatus τ.toHandler).answer w).dfu.prog.Holds D
    rw [hdfu]
    exact hdue.holds
  · show Clean I done ((dfuGetstatus τ.toHandler).answer w).dfu
      ((dfuGetstatus τ.toHandler).answer w).flash
    rw [hdfu, hflash]
    exact hdue.clean

theorem read_follows (h : Follows I (.asked done D) σ) :
    Follows I (.answered done D) (poll cfg σ .inDone) := by
  obtain ⟨hcalm, hfsm, hdue⟩ := h
  obtain ⟨u, istr, -, -, hpoll⟩ := poll_in cfg hcalm.noReset hcalm.ctrRx
  have hin : usbdControlIn cfg { σ with usb := u } =
      usbdEpNakSet 0 false ({ σ with usb := u }.setFsm .statusOut) := by
    rw [usbdControlIn, hfsm]
  rw [hpoll, hin]
  exact ⟨rfl, hdue.cb, hdue.state, hdue.holds, hdue.clean⟩

/-- The property is carried over by every run of the DNBUSY branch. -/
def Carried (cfg : Config) (I : List Download → Store → Prop) : Prop :=
  ∀ (done : List Download) (D : Download) (d : Dfu) (m : Nor.Cells 32),
    I done ⟨d.erased, d.prog.addr, m⟩ → d.prog.Holds D → I (done ++ [D]) (d.next cfg m)

/-- The completion callback applies the block. -/
theorem complete_resting (hI : Carried cfg I) (h : Due I done D σ) :
    Resting I (done ++ [D]) (usbdfuGetstatusComplete cfg σ).dfu
      (usbdfuGetstatusComplete cfg σ).flash := by
  obtain ⟨-, hs, hholds, hidle, hinv⟩ := h
  have hover := usbdfuGetstatusComplete_over cfg hs ⟨hidle, rfl⟩
  have hstate : (usbdfuGetstatusComplete cfg σ).dfu.usbdfuState = .dfuDnloadIdle := by
    rw [usbdfuGetstatusComplete_state, if_pos hs]
  refine ⟨fun hpend => ?_, hover.rest, ?_⟩
  · rw [Dfu.Pending, hstate] at hpend
    exact hpend.elim (by simp) (by simp)
  · rw [usbdfuGetstatusComplete_erased hs, usbdfuGetstatusComplete_addr hs, hover.mem]
    exact hI done D σ.dfu σ.flash.mem hinv hholds

/-- The packet of an OUT status stage: the registered callback runs. -/
theorem poll_statusOut (cfg : Config) (hreset : σ.usb.NoReset)
    (hfsm : σ.pipe.usbFsmState = .statusOut)
    (hcb : σ.pipe.usbCompleteCb = some .usbdfuGetstatusComplete) (pkt : Packet) :
    ∃ (τ : Dev) (P : Pipe) (istr : Half), τ.pipe.usbCompleteCb = some .usbdfuGetstatusComplete ∧
      τ.dfu = σ.dfu ∧ τ.flash = σ.flash ∧ τ.calls = σ.calls ++ [.complete .statusOut] ∧
      P.usbFsmState = .idle ∧
      poll cfg σ (.out pkt) = ({ usbdfuGetstatusComplete cfg τ with pipe := P } : Dev).tail istr := by
  obtain ⟨u, istr, -, -, -, hpoll⟩ := poll_out cfg hreset pkt
  let v := (usbdEpReadPacket σ.pipe.usbForceNak 0 (fun _ => 0) 0 0 u).2.2
  let σ' : Dev := { σ with usb := v }.setFsm .idle
  obtain ⟨-, hpipe, -⟩ := completeTransfer_sameUsb cfg .statusOut σ'
  have hrun : completeTransfer cfg .statusOut σ' =
      usbdfuGetstatusComplete cfg (σ'.call (.complete .statusOut)) :=
    completeTransfer_registered (σ := σ') hcb .statusOut
  refine ⟨σ'.call (.complete .statusOut), { σ'.pipe with usbCompleteCb := none }, istr, hcb, rfl,
    rfl, rfl, rfl, ?_⟩
  rw [hpoll, ← hrun, ← hpipe]
  unfold usbdControlOut
  rw [hfsm]

theorem status_follows (hI : Carried cfg I) (h : Follows I (.answered done D) σ) (htidy : σ.Tidy)
    (pkt : Packet) : Follows I (.rest (done ++ [D])) (poll cfg σ (.out pkt)) := by
  obtain ⟨hfsm, hdue⟩ := h
  obtain ⟨τ, P, istr, hcb, hdfu, hflash, -, hidle, hpoll⟩ :=
    poll_statusOut cfg htidy.noReset hfsm hdue.cb pkt
  have hrest := complete_resting (σ := τ) hI
    ⟨hcb, by rw [hdfu]; exact hdue.state, by rw [hdfu]; exact hdue.holds,
      by rw [hdfu, hflash]; exact hdue.clean⟩
  rw [hpoll]
  exact .of_noDataOut hrest (.of_fsm hidle (by simp) (by simp))

/-! ## Steps and runs -/

/-- The device follows every step of the host. -/
theorem hostStep_follows (hI : Carried cfg I) {h h' : Host} {e : Event} (hstep : HostStep h e h')
    (htidy : σ.Tidy) (hσ : Follows I h σ) : Follows I h' (poll cfg σ e) := by
  cases hstep with
  | other he => exact poll_stays (resting_stable cfg I _) htidy hσ he
  | start D i => exact start_follows hσ htidy D i
  | more hmore hpkt => exact more_follows hσ hmore hpkt
  | last hlast hpkt => exact last_follows hσ hlast hpkt
  | wait he => exact poll_stays (waiting_stable cfg I _ _) htidy hσ he
  | ask hw => exact ask_follows hσ htidy hw
  | read => exact read_follows hσ
  | status pkt => exact status_follows hI hσ htidy pkt

/-- The device follows the host over every session. -/
theorem hostRun_follows (hI : Carried cfg I) {h h' : Host} {es : List Event}
    (hrun : HostRun h es h') (htidy : σ.Tidy) (hσ : Follows I h σ) :
    Follows I h' ((machine cfg).run σ es) := by
  induction hrun generalizing σ with
  | nil => exact hσ
  | cons hstep _ ih => exact ih (poll_tidy _ htidy _) (hostStep_follows hI hstep htidy hσ)

/-- No block waits, and no download is half sent. -/
def Dev.AtRest (σ : Dev) : Prop := σ.Stays (fun r => ¬ r.Downloads) fun d _ => ¬ d.Pending

theorem Dev.Boot.atRest (hboot : σ.Boot) : σ.AtRest := by
  refine .of_noDataOut (fun hpend => ?_) (.of_fsm hboot.usbFsmState (by simp) (by simp))
  rw [Dfu.Pending, hboot.usbdfuState] at hpend
  exact hpend.elim (by simp) (by simp)

/-- The session rule: what holds of the store at rest, and is carried over by
every DNBUSY run, holds between any two downloads. -/
theorem session (hI : Carried cfg I) (htidy : σ.Tidy) (hidle : σ.flash.Idle) (hrest : σ.AtRest)
    (h0 : I [] ⟨σ.dfu.erased, σ.dfu.prog.addr, σ.flash.mem⟩) {es : List Event} {Ds : List Download}
    (hrun : HostRun (.rest []) es (.rest Ds)) :
    let τ := (machine cfg).run σ es
    I Ds ⟨τ.dfu.erased, τ.dfu.prog.addr, τ.flash.mem⟩ := by
  have hstart : Follows I (.rest []) σ := ⟨⟨hrest.holds, hidle, h0⟩, hrest.more, hrest.last⟩
  exact (hostRun_follows hI hrun htidy hstart).holds.2.2

end LnDso
