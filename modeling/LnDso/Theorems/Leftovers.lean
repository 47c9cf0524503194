import LnDso.Logic.Stable
import LnDso.Theorems.Confidentiality
import LnDso.Theorems.EndpointIndex
import LnDso.Theorems.ReplyBounds

/-!
# Leftovers in replies

A request that stages a reply sets its length and writes every byte of it, so
nothing that earlier transfers left in the control buffer shows. A read request
that is handled without a reply does neither: its data stage has the length and
the bytes it finds.
-/

namespace LnDso

open Lib Lib.Packets UsbPeriph

variable {cfg : Config} {p : UsbSetupData} {σ τ : Dev}

/-! ## What a reply may depend on -/

/-- The endpoint registers: those of the eight endpoints, and the one that a
request for an endpoint past 7 takes for one. -/
def UsbSetupData.EndpointReg (p : UsbSetupData) (n : Nat) : Prop :=
  n < 8 ∨ p.PastEndpoints ∧ n = (Half.lo p.wIndex &&& 0x7F).toNat

/-- The two devices agree on what a reply to `p` may depend on. -/
structure Dev.Agrees (p : UsbSetupData) (σ τ : Dev) : Prop where
  usbdfuState : τ.dfu.usbdfuState = σ.dfu.usbdfuState
  addr : τ.dfu.prog.addr = σ.dfu.prog.addr
  flash : τ.flash.mem = σ.flash.mem
  reg : ∀ n, p.EndpointReg n → τ.usb.reg n = σ.usb.reg n

/-- The same register of endpoint 0, and the same register `n`. -/
structure UsbPeriph.SameAt (n : Nat) (u v : UsbPeriph) : Prop where
  zero : v.reg 0 = u.reg 0
  reg : v.reg n = u.reg n

theorem UsbPeriph.SameAt.rmw {u v : UsbPeriph} {n : Nat} (h : u.SameAt n v) (f : Half → Half) :
    (epRegRmw 0 f u).SameAt n (epRegRmw 0 f v) := by
  have hzero : (epRegRmw 0 f v).reg 0 = (epRegRmw 0 f u).reg 0 := by
    rw [epRegRmw_reg_self (by decide), epRegRmw_reg_self (by decide), h.zero]
  refine ⟨hzero, ?_⟩
  by_cases hn : n = 0
  · rw [hn]
    exact hzero
  · rw [epRegRmw_reg_ne hn, epRegRmw_reg_ne hn, h.reg]

theorem hwSetup_sameAt {u v : UsbPeriph} {n : Nat} (h : u.SameAt n v) (bytes : List Byte) :
    (hwSetup bytes u).SameAt n (hwSetup bytes v) := by
  have hzero : (hwSetup bytes v).reg 0 = (hwSetup bytes u).reg 0 := by
    simp only [hwSetup, storeRx_reg, Function.update_self, h.zero]
  refine ⟨hzero, ?_⟩
  by_cases hn : n = 0
  · rw [hn]
    exact hzero
  · rw [hwSetup_reg_ne hn, hwSetup_reg_ne hn, h.reg]

theorem usbdEpReadPacket_sameAt {u v : UsbPeriph} {n : Nat} (h : u.SameAt n v)
    (force force' : Nat → Bool) (hforce : force' 0 = force 0) (buf buf' : Mem) (off : Nat)
    (len : Half) :
    (usbdEpReadPacket force 0 buf off len u).2.2.SameAt n
      (usbdEpReadPacket force' 0 buf' off len v).2.2 := by
  have hzero : (v.touch 0).getReg 0 = (u.touch 0).getReg 0 := by
    rw [getReg_zero, getReg_zero]
    exact h.zero
  have htouch : (u.touch 0).SameAt n (v.touch 0) := ⟨h.zero, h.reg⟩
  have hclr := htouch.rmw clrRxCtrVal
  unfold usbdEpReadPacket
  dsimp only
  rw [show (v.touch (0 : Byte).toNat).getReg (0 : Byte).toNat =
    (u.touch (0 : Byte).toNat).getReg (0 : Byte).toNat from hzero]
  split
  · exact htouch
  · dsimp only
    rw [show force' (0 : Byte).toNat = force (0 : Byte).toNat from hforce]
    split
    · exact hclr
    · exact hclr.rmw _

/-- The registers at the dispatch follow from what they were. -/
theorem asked_reg {n : Nat} (h0 : τ.usb.reg 0 = σ.usb.reg 0) (hn : τ.usb.reg n = σ.usb.reg n) :
    (τ.asked p).usb.reg n = (σ.asked p).usb.reg n := by
  have hbus : ((hwSetup p.bytes σ.usb).touch 0).SameAt n ((hwSetup p.bytes τ.usb).touch 0) :=
    ⟨(hwSetup_sameAt ⟨h0, hn⟩ p.bytes).zero, (hwSetup_sameAt ⟨h0, hn⟩ p.bytes).reg⟩
  exact (usbdEpReadPacket_sameAt (hbus.rmw (setRxStatVal · usbEpRxStatNak))
    (Function.update σ.pipe.usbForceNak 0 true) (Function.update τ.pipe.usbForceNak 0 true) rfl
    σ.pipe.usbReq.toMem τ.pipe.usbReq.toMem 0 8).reg

/-- What `_ep_stall_get` answers for the endpoint of `p`. -/
theorem asked_stallGet (h : σ.Agrees p τ)
    (hpast : ¬ (Half.lo p.wIndex &&& 0x7F).toNat < 8 → p.PastEndpoints) :
    (epStallGet (Half.lo p.wIndex) (τ.asked p).usb).1 =
      (epStallGet (Half.lo p.wIndex) (σ.asked p).usb).1 := by
  have hfile : ∀ n < 8, (τ.asked p).usb.reg n = (σ.asked p).usb.reg n := fun n hn =>
    asked_reg (h.reg 0 (.inl (by decide))) (h.reg n (.inl hn))
  let i := (Half.lo p.wIndex &&& 0x7F).toNat
  have hindex : p.EndpointReg i := by
    by_cases hi : i < 8
    · exact .inl hi
    · exact .inr ⟨hpast hi, rfl⟩
  have hi := getReg_congr hfile (asked_reg (h.reg 0 (.inl (by decide))) (h.reg i hindex))
  unfold epStallGet
  dsimp only
  split
  · rw [hi]
  · next hout =>
    rw [← and_7F_of_out _ hout, hi]

/-! ## Replies staged in full -/

/-- Two outcomes of a dispatch that make the same reply. -/
structure SameReply (x y : ReqCode × Dev) : Prop where
  code : y.1 = x.1
  datasize : x.1 ≠ .notsupp → y.2.pipe.datasize = x.2.pipe.datasize
  bytes : x.1 ≠ .notsupp → ∀ i < x.2.pipe.datasize.toNat,
    y.2.usbdControlBuffer i = x.2.usbdControlBuffer i

namespace SameReply

theorem refused (σ τ : Dev) : SameReply (.notsupp, σ) (.notsupp, τ) :=
  ⟨rfl, fun h => absurd rfl h, fun h => absurd rfl h⟩

/-- The bytes of the reply are written at the start of the buffer, all of them. -/
theorem staged {r : ReqCode} {bytes : List Byte} {n : Half} (hn : n.toNat ≤ bytes.length)
    {m m' : Mem} (hsize : σ.pipe.datasize = n) (hbuf : σ.usbdControlBuffer = m.write 0 bytes)
    (hsize' : τ.pipe.datasize = n) (hbuf' : τ.usbdControlBuffer = m'.write 0 bytes) :
    SameReply (r, σ) (r, τ) := by
  refine ⟨rfl, fun _ => hsize'.trans hsize.symm, fun _ i hi => ?_⟩
  rw [hsize] at hi
  have hlt : i < bytes.length := Nat.lt_of_lt_of_le hi hn
  have hat := Mem.write_at m 0 bytes hlt
  have hat' := Mem.write_at m' 0 bytes hlt
  rw [Nat.zero_add] at hat hat'
  rw [hbuf, hbuf', hat, hat']

theorem reply {r : ReqCode} {bytes : List Byte} {n : Half} (hn : n.toNat ≤ bytes.length)
    (σ τ : Dev) : SameReply (r, σ.reply bytes n) (r, τ.reply bytes n) :=
  staged hn rfl rfl rfl rfl

theorem call {r : ReqCode} {c d : Call} (h : SameReply (r, σ) (r, τ)) :
    SameReply (r, σ.call c) (r, τ.call d) :=
  ⟨h.code, h.datasize, h.bytes⟩

end SameReply

theorem replyString_sameReply (wData : List Half) (σ τ : Dev) :
    SameReply (.handled, replyString wData σ) (.handled, replyString wData τ) := by
  refine .reply ?_ σ τ
  have hlen := length_stringDescriptor wData
  rw [hlen, BitVec.toNat_setWidth, BitVec.toNat_ofNat]
  omega

theorem usbStandardGetDescriptor_sameReply (h : τ.pipe.usbReq = σ.pipe.usbReq) :
    SameReply (usbStandardGetDescriptor cfg σ) (usbStandardGetDescriptor cfg τ) := by
  unfold usbStandardGetDescriptor
  dsimp only
  rw [h]
  split
  · refine .reply ?_ σ τ
    exact Nat.le_refl 18
  split
  · refine .reply ?_ σ τ
    exact Nat.le_refl 27
  split
  · split
    · exact replyString_sameReply _ _ _
    · split
      · exact .refused _ _
      · split
        · exact .refused _ _
        · exact replyString_sameReply _ _ _
  · exact .refused σ τ

/-- Unless it keeps the length, a standard read request for the device stages its reply. -/
theorem usbdStandardRequestDevice_sameReply (h : τ.pipe.usbReq = σ.pipe.usbReq)
    (hdir : σ.pipe.usbReq.DirIn)
    (hkeeps : ¬ (σ.pipe.usbReq.bRequest = usbReqSetConfiguration ∧
      σ.pipe.usbReq.wValue = bConfigurationValue.setWidth 16)) :
    SameReply (usbdStandardRequestDevice cfg σ) (usbdStandardRequestDevice cfg τ) := by
  unfold usbdStandardRequestDevice
  dsimp only
  rw [h]
  split
  · split
    · exact .refused σ τ
    · next hset =>
      -- SET_ADDRESS with the direction bit is refused
      have hzero : σ.pipe.usbReq.bmRequestType = 0 := not_not.mp (not_or.mp hset).1
      exact absurd (by rw [hzero]; decide) hdir
  split
  · next hconfig =>
    split
    · next hvalue => exact absurd ⟨hconfig, hvalue⟩ hkeeps
    · exact .refused σ τ
  split
  · exact .reply (by simp) σ τ
  split
  · exact usbStandardGetDescriptor_sameReply h
  split
  · exact .reply (by simp) σ τ
  · exact .refused σ τ

theorem usbdStandardRequestInterface_sameReply (h : τ.pipe.usbReq = σ.pipe.usbReq) :
    SameReply (usbdStandardRequestInterface σ) (usbdStandardRequestInterface τ) := by
  unfold usbdStandardRequestInterface
  dsimp only
  rw [h]
  split
  · exact .reply (by simp) σ τ
  split
  · exact .reply (by simp) σ τ
  split
  · exact .refused _ _
  · exact .refused σ τ

/-- Unless it keeps the length, so does one for an endpoint; what it stages
follows from the register of the endpoint. -/
theorem usbdStandardRequestEndpoint_sameReply (h : τ.pipe.usbReq = σ.pipe.usbReq)
    (hkeeps : ¬ ((σ.pipe.usbReq.bRequest = usbReqClearFeature ∨
      σ.pipe.usbReq.bRequest = usbReqSetFeature) ∧ σ.pipe.usbReq.wValue = usbFeatEndpointHalt))
    (hget : σ.pipe.usbReq.bRequest = usbReqGetStatus →
      (epStallGet (Half.lo σ.pipe.usbReq.wIndex) τ.usb).1 =
        (epStallGet (Half.lo σ.pipe.usbReq.wIndex) σ.usb).1) :
    SameReply (usbdStandardRequestEndpoint σ) (usbdStandardRequestEndpoint τ) := by
  unfold usbdStandardRequestEndpoint
  dsimp only
  rw [h]
  split
  · next hfeature =>
    split
    · next hhalt => exact absurd ⟨hfeature, hhalt⟩ hkeeps
    · exact .refused σ τ
  split
  · next hstatus =>
    rw [hget hstatus]
    exact .reply (by simp) _ _
  · exact .refused σ τ

/-- What a standard read request replies follows from the request, and for an
endpoint from its register. -/
theorem usbdStandardRequest_sameReply (h : τ.pipe.usbReq = σ.pipe.usbReq)
    (hdir : σ.pipe.usbReq.DirIn) (hkeeps : ¬ σ.pipe.usbReq.KeepsLen)
    (hget : σ.pipe.usbReq.bmRequestType &&& usbReqTypeType = usbReqTypeStandard →
      σ.pipe.usbReq.bmRequestType &&& usbReqTypeRecipient = usbReqTypeEndpoint →
      σ.pipe.usbReq.bRequest = usbReqGetStatus →
      (epStallGet (Half.lo σ.pipe.usbReq.wIndex) τ.usb).1 =
        (epStallGet (Half.lo σ.pipe.usbReq.wIndex) σ.usb).1) :
    SameReply (usbdStandardRequest cfg σ) (usbdStandardRequest cfg τ) := by
  unfold usbdStandardRequest
  dsimp only
  rw [h]
  split
  · exact .refused σ τ
  next htype =>
  have hstd := not_not.mp htype
  split
  · next hdevice =>
    exact usbdStandardRequestDevice_sameReply h hdir
      fun hset => hkeeps ⟨hstd, .inl ⟨hdevice, hset.1, hset.2⟩⟩
  split
  · exact usbdStandardRequestInterface_sameReply h
  split
  · next hendpoint =>
    exact usbdStandardRequestEndpoint_sameReply h
      (fun hset => hkeeps ⟨hstd, .inr ⟨hendpoint, hset.1, hset.2⟩⟩) (hget hstd hendpoint)
  · exact .refused σ τ

theorem refuseUpload_sameReply (σ τ : Dev) :
    SameReply (.handled, (σ.setDfuState .dfuError).reply [] 0)
      (.handled, (τ.setDfuState .dfuError).reply [] 0) :=
  .reply (by simp) _ _

theorem dfuUploadBlock_sameReply (h : τ.pipe.usbReq = σ.pipe.usbReq)
    (haddr : τ.dfu.prog.addr = σ.dfu.prog.addr) (hmem : τ.flash.mem = σ.flash.mem) :
    SameReply (.handled, dfuUploadBlock cfg σ) (.handled, dfuUploadBlock cfg τ) := by
  unfold dfuUploadBlock
  dsimp only
  rw [h, haddr, hmem]
  generalize uploadLoads _ dfuTransferSize 0 σ.flash = fl
  generalize uploadLoads _ dfuTransferSize 0 τ.flash = fl'
  split
  · exact (SameReply.reply (by simp [dfuTransferSize]) _ _).call
  · exact refuseUpload_sameReply σ τ

theorem dfuUpload_sameReply (h : τ.pipe.usbReq = σ.pipe.usbReq)
    (haddr : τ.dfu.prog.addr = σ.dfu.prog.addr) (hmem : τ.flash.mem = σ.flash.mem) :
    SameReply (.handled, dfuUpload cfg σ) (.handled, dfuUpload cfg τ) := by
  unfold dfuUpload
  dsimp only
  rw [show (τ.setDfuState .dfuUploadIdle).pipe.usbReq =
    (σ.setDfuState .dfuUploadIdle).pipe.usbReq from h]
  split
  · exact .reply (by simp) _ _
  split
  · exact dfuUploadBlock_sameReply h haddr hmem
  · exact refuseUpload_sameReply _ _

/-- A DFU request that stages a reply: what it stages follows from the request,
the DFU state and what an upload reads. -/
theorem usbdfuControlRequest_sameReply {r : DfuReq}
    (hreq : DfuReq.ofByte σ.pipe.usbReq.bRequest = some r) (hreplies : r.Replies)
    (h : τ.pipe.usbReq = σ.pipe.usbReq)
    (hstate : τ.dfu.usbdfuState = σ.dfu.usbdfuState) (haddr : τ.dfu.prog.addr = σ.dfu.prog.addr)
    (hmem : τ.flash.mem = σ.flash.mem) :
    SameReply (usbdfuControlRequest cfg σ) (usbdfuControlRequest cfg τ) := by
  unfold usbdfuControlRequest
  rw [h, hreq]
  cases r with
  | upload => exact dfuUpload_sameReply h haddr hmem
  | getstatus =>
      unfold dfuGetstatus
      dsimp only
      rw [hstate]
      refine .staged ?_ rfl rfl rfl rfl
      exact Nat.le_refl 6
  | getstate =>
      dsimp only
      rw [hstate]
      exact .reply (by simp) σ τ
  | dnload => exact absurd hreplies not_false
  | clrstatus => exact absurd hreplies not_false
  | abort => exact absurd hreplies not_false
  | detach => exact absurd hreplies not_false

/-- Devices that agree make the same reply to a request that stages one. -/
theorem dispatch_sameReply (hσ : σ.usb.NoReset) (hτ : τ.usb.NoReset) (h : σ.Agrees p τ)
    (hdir : p.DirIn) (hstages : ¬ (p.EchoesLen ∨ p.KeepsLen)) :
    SameReply (usbControlRequestDispatch cfg (σ.asked p))
      (usbControlRequestDispatch cfg (τ.asked p)) := by
  obtain ⟨hecho, hkeeps⟩ := not_or.mp hstages
  obtain ⟨hdfu, hflash, hreq, -⟩ := asked_fields hσ p
  obtain ⟨hdfu', hflash', hreq', -⟩ := asked_fields hτ p
  have hsame : (τ.asked p).pipe.usbReq = (σ.asked p).pipe.usbReq := hreq'.trans hreq.symm
  by_cases hclass : p.ClassInterface
  · have hclassσ : (σ.asked p).pipe.usbReq.ClassInterface := by rw [hreq]; exact hclass
    have hclassτ : (τ.asked p).pipe.usbReq.ClassInterface := by rw [hreq']; exact hclass
    cases hr : DfuReq.ofByte p.bRequest with
    | none =>
        rw [usbControlRequestDispatch_unknown hclassσ (by rw [hreq]; exact hr),
          usbControlRequestDispatch_unknown hclassτ (by rw [hreq']; exact hr)]
        exact .refused _ _
    | some r =>
        have hreplies : r.Replies := by
          by_contra hno
          exact hecho ⟨hclass, r, hr, hno⟩
        have hrσ : DfuReq.ofByte (σ.asked p).pipe.usbReq.bRequest = some r := by
          rw [hreq]
          exact hr
        have hrτ : DfuReq.ofByte (τ.asked p).pipe.usbReq.bRequest = some r := by
          rw [hreq']
          exact hr
        rw [usbControlRequestDispatch_class hclassσ hrσ,
          usbControlRequestDispatch_class hclassτ hrτ]
        refine usbdfuControlRequest_sameReply hrσ hreplies hsame ?_ ?_ ?_
        · show (τ.asked p).dfu.usbdfuState = (σ.asked p).dfu.usbdfuState
          rw [hdfu, hdfu', h.usbdfuState]
        · show (τ.asked p).dfu.prog.addr = (σ.asked p).dfu.prog.addr
          rw [hdfu, hdfu', h.addr]
        · show (τ.asked p).flash.mem = (σ.asked p).flash.mem
          rw [hflash, hflash', h.flash]
  · rw [usbControlRequestDispatch_pass (by rw [hreq]; exact hclass),
      usbControlRequestDispatch_pass (by rw [hreq']; exact hclass)]
    refine usbdStandardRequest_sameReply hsame ?_ ?_ ?_
    · show (σ.asked p).pipe.usbReq.DirIn
      rw [hreq]
      exact hdir
    · show ¬ (σ.asked p).pipe.usbReq.KeepsLen
      rw [hreq]
      exact hkeeps
    · intro hstd hendpoint hstatus
      rw [Dev.call_pipe, hreq] at hstd hendpoint hstatus ⊢
      exact asked_stallGet h fun hpast =>
        ⟨hstd, hendpoint, .inr hstatus, Nat.lt_of_not_le fun hle => hpast (Nat.lt_succ_of_le hle)⟩

/-! ## The data stage -/

/-- The packets that the SETUP of `p` and `j` IN completions after it queue. -/
def Dev.dataStage (cfg : Config) (p : UsbSetupData) (j : Nat) (σ : Dev) : List (List Byte) :=
  ((machine cfg).run σ (.setup p :: List.replicate j .inDone)).usb.queued.drop σ.usb.queued.length

/-- `_usb_control_setup_read` stalls the request. -/
def Dev.Stalls (cfg : Config) (p : UsbSetupData) (σ : Dev) : Prop :=
  (usbControlRequestDispatch cfg (σ.asked p)).1 = .notsupp

theorem dataStage_stalls (hσ : σ.usb.NoReset) (hdir : p.DirIn) (hs : σ.Stalls cfg p) (j : Nat) :
    σ.dataStage cfg p j = [] := by
  rw [Dev.dataStage, refused_queues hσ hdir hs, List.drop_length]

/-- The data stage of a request that is handled: the packets of its reply. -/
theorem dataStage_handled (hσ : σ.usb.NoReset) (hdir : p.DirIn) (hw : p.wLength ≠ 0)
    (hs : ¬ σ.Stalls cfg p) :
    let ρ := (usbControlRequestDispatch cfg (σ.asked p)).2
    let data := ρ.usbdControlBuffer.read 0 (min ρ.pipe.datasize.toNat p.wLength.toNat)
    ∃ zlp, (zlp = true ↔ NeedsZlp 64 p.wLength.toNat data) ∧
      ∀ j, σ.dataStage cfg p j = (packets 64 zlp data).take (j + 1) := by
  intro ρ data
  have hd : usbControlRequestDispatch cfg (σ.asked p) =
      ((usbControlRequestDispatch cfg (σ.asked p)).1, ρ) := rfl
  obtain ⟨zlp, hzlp, hqueues⟩ := read_queues hσ hdir hw hd hs
  refine ⟨zlp, hzlp, fun j => ?_⟩
  rw [Dev.dataStage, (hqueues j).1, List.drop_left]

/-- The same reply is the same data stage. -/
theorem SameReply.dataStage (hσ : σ.usb.NoReset) (hτ : τ.usb.NoReset) (hdir : p.DirIn)
    (hw : p.wLength ≠ 0)
    (h : SameReply (usbControlRequestDispatch cfg (σ.asked p))
      (usbControlRequestDispatch cfg (τ.asked p))) :
    (τ.Stalls cfg p ↔ σ.Stalls cfg p) ∧ ∀ j, τ.dataStage cfg p j = σ.dataStage cfg p j := by
  have hcode : τ.Stalls cfg p ↔ σ.Stalls cfg p := by
    rw [Dev.Stalls, Dev.Stalls, h.code]
  refine ⟨hcode, fun j => ?_⟩
  by_cases hs : σ.Stalls cfg p
  · rw [dataStage_stalls hσ hdir hs, dataStage_stalls hτ hdir (hcode.mpr hs)]
  · obtain ⟨zlp, hzlp, hstage⟩ := dataStage_handled hσ hdir hw hs
    obtain ⟨zlp', hzlp', hstage'⟩ := dataStage_handled hτ hdir hw (mt hcode.mp hs)
    have hdata : (usbControlRequestDispatch cfg (τ.asked p)).2.usbdControlBuffer.read 0
        (min (usbControlRequestDispatch cfg (τ.asked p)).2.pipe.datasize.toNat p.wLength.toNat) =
      (usbControlRequestDispatch cfg (σ.asked p)).2.usbdControlBuffer.read 0
        (min (usbControlRequestDispatch cfg (σ.asked p)).2.pipe.datasize.toNat p.wLength.toNat) := by
      rw [h.datasize hs]
      refine Mem.read_ext fun i hi => ?_
      rw [Nat.zero_add]
      exact h.bytes hs i (Nat.lt_of_lt_of_le hi (Nat.min_le_left _ _))
    rw [hdata] at hzlp' hstage'
    rw [hstage, hstage', Bool.eq_iff_iff.mpr (hzlp'.trans hzlp.symm)]

/-! ## A request that leaves a byte -/

/-- A request of a type the firmware knows nothing of, with one byte of data. -/
def unknownRequest : UsbSetupData := ⟨0x40, 0, 0, 0, 1⟩

/-- It leaves the byte in the control buffer, and is refused. -/
def leaving (b : Byte) : List Event := [.setup unknownRequest, .out (.ofBytes [b])]

/-- The packet is received, then the request refused. -/
theorem run_leaving (cfg : Config) (hσ : σ.usb.NoReset) (b : Byte) :
    let τ := (machine cfg).run σ (leaving b)
    τ.dfu = σ.dfu ∧ τ.flash = σ.flash ∧ τ.pipe.datasize = 1 ∧ τ.usbdControlBuffer 0 = b := by
  intro τ
  obtain ⟨hrecv, -, -, hdfu, hflash⟩ := poll_setup_write cfg (p := unknownRequest) hσ (by decide)
    (by decide) (by decide)
  have hfull : unknownRequest.wLength.toNat - 0 ≤ (Packet.ofBytes [b]).bytes.length := Nat.le_refl 1
  obtain ⟨v, istr, hpoll⟩ := hrecv.poll_last cfg (by decide) hfull
  have hbytes : (Packet.ofBytes [b]).bytes.take (unknownRequest.wLength.toNat - 0) = [b] := rfl
  rw [hbytes] at hpoll
  change τ = _ at hpoll
  generalize poll cfg σ (.setup unknownRequest) = σ' at hrecv hdfu hflash hpoll
  obtain ⟨ρ, hρ⟩ : ∃ ρ, ρ = σ'.received v (σ'.usbdControlBuffer.write 0 [b]) := ⟨_, rfl⟩
  rw [← hρ] at hpoll
  have hreq : ρ.pipe.usbReq = unknownRequest := by
    rw [hρ]
    exact hrecv.usbReq
  have hd : usbControlRequestDispatch cfg ρ =
      (.notsupp, ρ.call (.dispatch ρ.pipe.usbReq ρ.usbdControlBuffer)) := by
    rw [usbControlRequestDispatch_pass (by rw [hreq]; decide)]
    exact usbdStandardRequest_type (by rw [Dev.call_pipe, hreq]; decide)
  have hτ : τ =
      (stallTransaction (ρ.call (.dispatch ρ.pipe.usbReq ρ.usbdControlBuffer))).tail istr := by
    rw [hpoll, hd]
    rfl
  rw [hτ]
  subst hρ
  exact ⟨hdfu, hflash, congrArg UsbSetupData.wLength hreq, rfl⟩

/-- The registers do not show which byte it was. -/
theorem run_leaving_reg (cfg : Config) (hσ : σ.usb.NoReset) (b c : Byte) :
    ((machine cfg).run σ (leaving c)).usb.reg = ((machine cfg).run σ (leaving b)).usb.reg := by
  obtain ⟨hrecv, -⟩ := poll_setup_write cfg (p := unknownRequest) hσ (by decide) (by decide)
    (by decide)
  show (poll cfg (poll cfg σ (.setup unknownRequest)) (.out (.ofBytes [c]))).usb.reg =
    (poll cfg (poll cfg σ (.setup unknownRequest)) (.out (.ofBytes [b]))).usb.reg
  generalize poll cfg σ (.setup unknownRequest) = σ' at hrecv ⊢
  obtain ⟨-, -, hb⟩ := poll_out_exact cfg hrecv.noReset (.ofBytes [b])
  obtain ⟨-, -, hc⟩ := poll_out_exact cfg hrecv.noReset (.ofBytes [c])
  have hbus : (σ'.onBus (.out (.ofBytes [b]))).Alike False AnyFlash
      (σ'.onBus (.out (.ofBytes [c]))) :=
    ⟨⟨rfl, rfl, fun h => absurd h not_false⟩, rfl, rfl, fun h => absurd h not_false,
      fun h => absurd h not_false, trivial⟩
  have htouch : (σ'.onBus (.out (.ofBytes [b]))).touch0.Alike False AnyFlash
      (σ'.onBus (.out (.ofBytes [c]))).touch0 := hbus.setUsb (hbus.usb.touch 0)
  have hout := usbdControlOut_alike (anyFlash_rel cfg) htouch ?_ fun h => absurd h not_false
  · rw [hb, hc, hbus.usb.getReg]
    exact (tail_alike hout _).usb.reg
  · intro _ _ hdnload
    rw [(usbControlRecvChunk_sameDfu _).2.2] at hdnload
    have hreq : (σ'.onBus (.out (.ofBytes [b]))).touch0.pipe.usbReq = unknownRequest := hrecv.usbReq
    rw [hreq] at hdnload
    cases hdnload

/-- Two devices with different bytes left agree on all that a reply may depend on. -/
theorem leaving_agrees (cfg : Config) (hσ : σ.usb.NoReset) (p : UsbSetupData) (b c : Byte) :
    ((machine cfg).run σ (leaving b)).Agrees p ((machine cfg).run σ (leaving c)) := by
  obtain ⟨hdfu, hflash, -⟩ := run_leaving cfg hσ b
  obtain ⟨hdfu', hflash', -⟩ := run_leaving cfg hσ c
  have hreg := run_leaving_reg cfg hσ b c
  constructor
  · rw [hdfu, hdfu']
  · rw [hdfu, hdfu']
  · rw [hflash, hflash']
  · intro n _
    rw [hreg]

/-! ## Requests that stage nothing -/

/-- A request that is handled without a reply leaves a length that is not 0, and the buffer. -/
theorem dispatch_leaves (cfg : Config) (h : σ.pipe.usbReq.EchoesLen ∨ σ.pipe.usbReq.KeepsLen)
    (hw : σ.pipe.usbReq.wLength ≠ 0) (hsize : σ.pipe.datasize ≠ 0) :
    (usbControlRequestDispatch cfg σ).2.pipe.datasize ≠ 0 ∧
      (usbControlRequestDispatch cfg σ).2.usbdControlBuffer = σ.usbdControlBuffer := by
  rcases h with ⟨hclass, r, hreq, hno⟩ | hkeeps
  · obtain ⟨-, -, hecho⟩ := usbdfuControlRequest_datasize cfg (σ := σ.toHandler) hreq
    obtain ⟨hlen, hbuf⟩ := hecho hno
    rw [usbControlRequestDispatch_class hclass hreq, hlen, hbuf]
    exact ⟨hw, rfl⟩
  · have hclass : ¬ σ.pipe.usbReq.ClassInterface := fun h => classInterface_not_standard h hkeeps.1
    obtain ⟨-, hlen, hbuf⟩ := usbdStandardRequest_keeps cfg (σ := σ.call _) hkeeps
    rw [usbControlRequestDispatch_pass hclass, hlen, hbuf]
    exact ⟨hsize, rfl⟩

/-- Its data stage starts with the byte that was left. -/
theorem dataStage_leftover (cfg : Config) (hσ : σ.usb.NoReset) (hdir : p.DirIn) (hw : p.wLength ≠ 0)
    (h : p.EchoesLen ∨ p.KeepsLen) (hsize : σ.pipe.datasize ≠ 0) :
    ∃ k, ∀ j, k ≤ j → (σ.dataStage cfg p j).flatten.head? = some (σ.usbdControlBuffer 0) := by
  obtain ⟨-, -, hreq, hlen, hbuf⟩ := asked_fields hσ p
  have hhandled : ¬ σ.Stalls cfg p := dispatch_handled (by rw [hreq]; exact h)
  obtain ⟨hleft, hkept⟩ := dispatch_leaves cfg (σ := σ.asked p) (by rw [hreq]; exact h)
    (by rw [hreq]; exact hw) (by rw [hlen]; exact hsize)
  obtain ⟨zlp, -, hstage⟩ := dataStage_handled hσ hdir hw hhandled
  rw [hkept, hbuf] at hstage
  generalize (usbControlRequestDispatch cfg (σ.asked p)).2.pipe.datasize = size at hleft hstage
  have hpos : ∀ {x : Half}, x ≠ 0 → 0 < x.toNat := fun hx =>
    Nat.pos_of_ne_zero fun h0 => hx (BitVec.eq_of_toNat_eq h0)
  have hone : 0 < min size.toNat p.wLength.toNat := Nat.lt_min.mpr ⟨hpos hleft, hpos hw⟩
  generalize min size.toNat p.wLength.toNat = n at hone hstage
  refine ⟨(packets 64 zlp (σ.usbdControlBuffer.read 0 n)).length, fun j hj => ?_⟩
  rw [hstage, List.take_of_length_le (Nat.le_succ_of_le hj), flatten_packets,
    List.head?_eq_getElem?, Mem.getElem?_read, if_pos hone]

/-! ## Replies without leftovers -/

/-- Reachable devices that agree on what a reply to `p` may depend on handle or
stall it alike, with the same data stage. -/
def RepliesFresh (cfg : Config) (p : UsbSetupData) : Prop :=
  ∀ σ τ : Dev, (machine cfg).Reachable σ → (machine cfg).Reachable τ → σ.Agrees p τ →
    (τ.Stalls cfg p ↔ σ.Stalls cfg p) ∧ ∀ j, τ.dataStage cfg p j = σ.dataStage cfg p j

theorem not_repliesFresh (cfg : Config) (hdir : p.DirIn) (hw : p.wLength ≠ 0)
    (h : p.EchoesLen ∨ p.KeepsLen) : ¬ RepliesFresh cfg p := by
  intro hfresh
  obtain ⟨σ₀, hboot⟩ : ∃ σ₀ : Dev, σ₀.Boot := ⟨_, Dev.fresh_boot fun _ => 0xff⟩
  have hreset := noReset_invariant cfg σ₀ (.init hboot)
  have hreach : ∀ b, (machine cfg).Reachable ((machine cfg).run σ₀ (leaving b)) :=
    fun b => TSys.Reachable.run _ (.init hboot) (leaving b)
  have hshows : ∀ b, ∃ k, ∀ j, k ≤ j →
      (((machine cfg).run σ₀ (leaving b)).dataStage cfg p j).flatten.head? = some b := by
    intro b
    obtain ⟨-, -, hsize, hbyte⟩ := run_leaving cfg hreset b
    have hleft := dataStage_leftover cfg (noReset_invariant cfg _ (hreach b)) hdir hw h
      (by rw [hsize]; decide)
    rw [hbyte] at hleft
    exact hleft
  obtain ⟨k, hk⟩ := hshows 0
  obtain ⟨k', hk'⟩ := hshows 1
  have hsame := (hfresh _ _ (hreach 0) (hreach 1) (leaving_agrees cfg hreset p 0 1)).2 (k + k')
  have hzero := hk (k + k') (Nat.le_add_right k k')
  have hone := hk' (k + k') (Nat.le_add_left k' k)
  rw [hsame, hzero] at hone
  exact absurd (Option.some.inj hone) (by decide)

/-- **No leftovers in replies.** A reply is the same from any two reachable
states that agree on the DFU state, the address pointer, the flash and the
endpoint registers, whatever earlier transfers left in the buffers and counters,
exactly for the read requests that are refused or stage a reply of their own. -/
theorem repliesFresh_iff (cfg : Config) (hdir : p.DirIn) (hw : p.wLength ≠ 0) :
    RepliesFresh cfg p ↔ ¬ (p.EchoesLen ∨ p.KeepsLen) := by
  constructor
  · intro hfresh h
    exact not_repliesFresh cfg hdir hw h hfresh
  · intro hstages σ τ hσ hτ h
    have hσreset := noReset_invariant cfg σ hσ
    have hτreset := noReset_invariant cfg τ hτ
    exact (dispatch_sameReply hσreset hτreset h hdir hstages).dataStage hσreset hτreset hdir hw

/-- DFU_GETSTATUS. -/
theorem repliesFresh_getstatus : RepliesFresh .stm32f103 ⟨0xA1, 3, 0, 0, 6⟩ := by
  refine (repliesFresh_iff .stm32f103 (by decide) (by decide)).mpr ?_
  rintro (⟨-, r, hr, hno⟩ | hkeeps)
  · cases hr
    exact hno trivial
  · exact absurd hkeeps.1 (by decide)

/-- DFU_ABORT read with a wLength of 4 sends the byte that a refused request left. -/
theorem abort_sends_leftover :
    let cfg := Config.stm32f103
    let p : UsbSetupData := ⟨0xA1, 6, 0, 0, 4⟩
    let σ := (machine cfg).run (Dev.fresh fun _ => 0xff) (leaving 0xAA)
    let τ := (machine cfg).run (Dev.fresh fun _ => 0xff) (leaving 0xBB)
    p.DirIn ∧ σ.Agrees p τ ∧ σ.dataStage cfg p 0 = [[0xAA, 0, 0, 0]] ∧
      τ.dataStage cfg p 0 = [[0xBB, 0, 0, 0]] ∧ ¬ RepliesFresh cfg p := by
  intro cfg p σ τ
  have hreach : ∀ b,
      (machine cfg).Reachable ((machine cfg).run (Dev.fresh fun _ => 0xff) (leaving b)) := fun b =>
    TSys.Reachable.run _ (.init (Dev.fresh_boot _)) (leaving b)
  have hagrees : σ.Agrees p τ :=
    leaving_agrees cfg (noReset_invariant cfg _ (.init (Dev.fresh_boot _))) p 0xAA 0xBB
  have hσ : σ.dataStage cfg p 0 = [[0xAA, 0, 0, 0]] := by decide +kernel
  have hτ : τ.dataStage cfg p 0 = [[0xBB, 0, 0, 0]] := by decide +kernel
  refine ⟨by decide, hagrees, hσ, hτ, fun hfresh => ?_⟩
  have hsame := (hfresh σ τ (hreach 0xAA) (hreach 0xBB) hagrees).2 0
  rw [hσ, hτ] at hsame
  exact absurd hsame (by decide)

end LnDso
