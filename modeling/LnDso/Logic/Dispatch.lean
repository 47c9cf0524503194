import LnDso.Logic.Acts

/-!
# The footprint of a request

What `usb_control_request_dispatch` leaves alone, whatever the request: the
request and the progress of the transfer, everything past the control buffer,
a transmit status that is not VALID. And it dispatches once.
-/

namespace LnDso

open Lib UsbPeriph

variable {cfg : Config}

def Call.IsDispatch : Call → Prop
  | .dispatch .. => True
  | _ => False

/-- The calls a request handler records. -/
def Call.ByHandler : Call → Prop
  | .dnload _ | .upload _ | .getstatus => True
  | _ => False

theorem Call.ByHandler.not_dispatch {c : Call} (h : c.ByHandler) : ¬ c.IsDispatch := by
  cases c <;> first | exact not_false | exact absurd h not_false

/-- Anything but a run of the DNBUSY branch. -/
def Call.NotDnbusy : Call → Prop
  | .dnbusy _ => False
  | _ => True

theorem Call.ByHandler.notDnbusy {c : Call} (h : c.ByHandler) : c.NotDnbusy := by
  cases c <;> first | exact trivial | exact absurd h not_false

/-- Between the two states only calls that meet `P` are recorded. -/
def Dev.Records (P : Call → Prop) (σ τ : Dev) : Prop :=
  ∃ l, τ.calls = σ.calls ++ l ∧ ∀ c ∈ l, P c

namespace Dev.Records

variable {P Q : Call → Prop} {σ τ υ : Dev}

theorem of_eq (h : τ.calls = σ.calls) : Records P σ τ :=
  ⟨[], by rw [h, List.append_nil], fun _ hc => absurd hc List.not_mem_nil⟩

theorem one {c : Call} (h : τ.calls = σ.calls ++ [c]) (hc : P c) : Records P σ τ :=
  ⟨[c], h, fun _ hd => List.mem_singleton.mp hd ▸ hc⟩

theorem trans (h : Records P σ τ) (h' : Records P τ υ) : Records P σ υ := by
  obtain ⟨l, hl, hP⟩ := h
  obtain ⟨l', hl', hP'⟩ := h'
  refine ⟨l ++ l', by rw [hl', hl, List.append_assoc], fun c hc => ?_⟩
  rcases List.mem_append.mp hc with hc | hc
  · exact hP c hc
  · exact hP' c hc

theorem mono (hPQ : ∀ c, P c → Q c) (h : Records P σ τ) : Records Q σ τ := by
  obtain ⟨l, hl, hP⟩ := h
  exact ⟨l, hl, fun c hc => hPQ c (hP c hc)⟩

end Dev.Records

/-- What a request handler may do. -/
structure Dev.Handles (σ τ : Dev) : Prop where
  usbReq : τ.pipe.usbReq = σ.pipe.usbReq
  dataoff : τ.pipe.dataoff = σ.pipe.dataoff
  calls : σ.Records Call.ByHandler τ
  above : ∀ j, controlBufferSize ≤ j → τ.usbdControlBuffer j = σ.usbdControlBuffer j
  statTx : (σ.usb.ep 0).statTx ≠ 3 → (τ.usb.ep 0).statTx ≠ 3
  queued : τ.usb.queued = σ.usb.queued

namespace Dev.Handles

variable {σ τ υ : Dev}

theorem refl (σ : Dev) : σ.Handles σ :=
  ⟨rfl, rfl, .of_eq rfl, fun _ _ => rfl, id, rfl⟩

theorem trans (h : σ.Handles τ) (h' : τ.Handles υ) : σ.Handles υ where
  usbReq := h'.usbReq.trans h.usbReq
  dataoff := h'.dataoff.trans h.dataoff
  calls := h.calls.trans h'.calls
  above := fun j hj => (h'.above j hj).trans (h.above j hj)
  statTx := fun hs => h'.statTx (h.statTx hs)
  queued := h'.queued.trans h.queued

/-- Staging a reply that fits the control buffer. -/
theorem reply (bytes : List Byte) (len : Half) (σ : Dev) (h : bytes.length ≤ controlBufferSize) :
    σ.Handles (σ.reply bytes len) :=
  { refl σ with above := fun j hj => Mem.write_above σ.usbdControlBuffer 0 bytes (by omega) }

theorem setDfuState (s : DfuState) (σ : Dev) : σ.Handles (σ.setDfuState s) := { refl σ with }

theorem flash (fl : Flash) (σ : Dev) : σ.Handles { σ with flash := fl } := { refl σ with }

theorem call {c : Call} (h : c.ByHandler) (σ : Dev) : σ.Handles (σ.call c) :=
  { refl σ with calls := .one rfl h }

/-- Work on the peripheral that offers nothing on endpoint 0. -/
theorem usb {u : UsbPeriph} (h : (σ.usb.ep 0).statTx ≠ 3 → (u.ep 0).statTx ≠ 3)
    (hq : u.queued = σ.usb.queued) : σ.Handles { σ with usb := u } :=
  { refl σ with statTx := h, queued := hq }

end Dev.Handles

open Dev

/-! ## DFU requests -/

theorem dfuDnload_handles (σ : Dev) : σ.Handles (dfuDnload σ) := by
  unfold dfuDnload
  split
  · exact Handles.setDfuState _ σ
  · exact { Handles.refl σ with
      calls := .one rfl trivial }

theorem Dev.Handles.refuse (τ : Dev) : τ.Handles ((τ.setDfuState .dfuError).reply [] 0) :=
  (Handles.setDfuState .dfuError τ).trans (Handles.reply [] 0 _ (Nat.zero_le _))

theorem dfuUploadBlock_handles (cfg : Config) (σ : Dev) : σ.Handles (dfuUploadBlock cfg σ) := by
  unfold dfuUploadBlock
  dsimp only
  generalize uploadLoads _ dfuTransferSize 0 σ.flash = fl
  split
  · have hlength : ((List.range dfuTransferSize).map fun i => σ.flash.mem
        (blockAddr σ.dfu.prog.addr σ.pipe.usbReq.wValue + BitVec.ofNat 32 i)).length ≤
        controlBufferSize := by
      rw [List.length_map, List.length_range]
      exact Nat.le_refl _
    exact ((Handles.flash fl σ).trans (Handles.reply _ _ _ hlength)).trans
      (Handles.call (c := .upload σ.dfu.erased) trivial _)
  · exact Handles.refuse σ

theorem dfuUpload_handles (cfg : Config) (σ : Dev) : σ.Handles (dfuUpload cfg σ) := by
  have hstate := Handles.setDfuState .dfuUploadIdle σ
  unfold dfuUpload
  dsimp only
  split
  · exact hstate.trans (Handles.reply _ _ _ (by decide))
  split
  · refine hstate.trans (dfuUploadBlock_handles cfg _)
  · exact hstate.trans (Handles.refuse _)

theorem dfuGetstatus_handles (σ : Dev) : σ.Handles (dfuGetstatus σ) := by
  rcases h : usbdfuGetstatus σ.dfu.usbdfuState with ⟨status, bwPollTimeout, s⟩
  have hreply := (Handles.setDfuState s σ).trans (Handles.reply
    [status, Word.byte bwPollTimeout 0, Word.byte bwPollTimeout 1, Word.byte bwPollTimeout 2,
      s.toByte, 0] 6 _ (show 6 ≤ controlBufferSize by decide))
  rw [dfuGetstatus, h]
  exact { hreply with
    calls := .one rfl trivial }

theorem usbdfuControlRequest_handles (cfg : Config) (σ : Dev) :
    σ.Handles (usbdfuControlRequest cfg σ).2 := by
  unfold usbdfuControlRequest
  split
  · exact dfuDnload_handles σ
  · dsimp only
    split
    · exact Handles.setDfuState _ σ
    · exact Handles.refl σ
  · exact Handles.setDfuState _ σ
  · exact Handles.setDfuState _ σ
  · exact dfuUpload_handles cfg σ
  · exact dfuGetstatus_handles σ
  · exact Handles.reply _ _ σ (show 1 ≤ controlBufferSize by decide)
  · exact Handles.refl σ

/-! ## Descriptors -/

theorem length_cString (s : String) : (cString s).length = s.length := by
  rw [cString, List.length_map, String.length_toList]

/-- A decimal numeral of a value below `10 ^ k`. -/
theorem length_toString_le {n k : Nat} (hk : 0 < k) (h : n < 10 ^ k) : (toString n).length ≤ k :=
  (Nat.length_repr_le_iff hk).mpr h

/-- Every string of the device fits a string descriptor. -/
theorem length_usbStrings (cfg : Config) : ∀ s ∈ usbStrings cfg, s.length ≤ 126 := by
  have hfits := cfg.fits
  have hsize : ∀ n, n ≤ cfg.flashSizeKb → (toString n).length ≤ 7 :=
    fun n hn => length_toString_le (by decide) (by omega)
  have hboot := hsize _ (Nat.le_of_lt cfg.bootldr_lt)
  have hpayload := hsize _ cfg.payload_le
  have hversion := cfg.version_le
  have hwatchdog : ∀ n, cfg.enableWatchdog = some n →
      ("WtDg[" ++ toString n ++ "s] ").length ≤ 10 := by
    intro n hn
    have hle := cfg.watchdog_le n hn
    have hlen : (toString n).length ≤ 2 := length_toString_le (by decide) (by omega)
    simp only [String.length_append, show "WtDg[".length = 5 from rfl,
      show "s] ".length = 3 from rfl]
    omega
  have hflag : ∀ (b : Bool) (s : String), (if b then s else "").length ≤ s.length := by
    intro b s
    cases b
    · exact Nat.zero_le _
    · exact Nat.le_refl _
  have hsafewrite := hflag cfg.enableSafewrite "SafeWr "
  have hprotections := hflag cfg.enableProtections "RDO/DBG "
  have hchecksum := hflag cfg.enableChecksum "FW-CRC "
  intro s hs
  simp only [usbStrings, List.mem_cons, List.not_mem_nil, or_false] at hs
  rcases hs with rfl | rfl | rfl | rfl | rfl
  · decide
  · simp only [length_cString, String.length_append, show "lnDSO bootloader [".length = 18 from rfl,
      show "]".length = 1 from rfl]
    omega
  · exact show 24 ≤ 126 by decide
  · simp only [length_cString, String.length_append,
      show "@Internal Flash /0x08000000/".length = 28 from rfl,
      show "*001Ka,".length = 7 from rfl, show "*001Kg".length = 6 from rfl]
    omega
  · rw [length_cString, String.length_append, String.length_append, String.length_append,
      String.length_append, show "Bootloader config: ".length = 19 from rfl]
    simp only [show "SafeWr ".length = 7 from rfl, show "RDO/DBG ".length = 8 from rfl,
      show "FW-CRC ".length = 7 from rfl] at hsafewrite hprotections hchecksum
    split
    · next n hn =>
      have := hwatchdog n hn
      omega
    · rw [show "".length = 0 from rfl]
      omega

theorem length_le16 (l : List Half) : (l.flatMap le16).length = 2 * l.length := by
  induction l with
  | nil => rfl
  | cons h l ih =>
      rw [List.flatMap_cons, List.length_append, ih, List.length_cons]
      show 2 + 2 * l.length = _
      omega

theorem length_stringDescriptor (wData : List Half) :
    (stringDescriptor wData).length = 2 + 2 * wData.length := by
  rw [stringDescriptor, List.length_append, length_le16]
  rfl

theorem replyString_handles {wData : List Half} (h : wData.length ≤ 126) (σ : Dev) :
    σ.Handles (replyString wData σ) :=
  Handles.reply _ _ σ (by
    rw [length_stringDescriptor, controlBufferSize, dfuTransferSize]
    omega)

theorem usbStandardGetDescriptor_handles (cfg : Config) (σ : Dev) :
    σ.Handles (usbStandardGetDescriptor cfg σ).2 := by
  have htype : σ.Handles
      { σ with usbdControlBuffer := σ.usbdControlBuffer.write 1 [usbDtString] } :=
    { Handles.refl σ with
      above := fun j hj => Mem.write_above σ.usbdControlBuffer 1 [usbDtString] (by
        rw [controlBufferSize, dfuTransferSize] at hj
        rw [List.length_singleton]
        omega) }
  unfold usbStandardGetDescriptor
  dsimp only
  split
  · exact Handles.reply _ _ σ (show 18 ≤ controlBufferSize by decide)
  split
  · exact Handles.reply _ _ σ (show 27 ≤ controlBufferSize by decide)
  split
  · split
    · have hlangid : [usbLangidEnglishUs].length ≤ 126 := by decide
      exact htype.trans (replyString_handles hlangid _)
    · split
      · exact htype
      · next s hs =>
        split
        · exact htype
        · refine htype.trans (replyString_handles ?_ _)
          rw [List.length_map, List.length_take]
          have := length_usbStrings cfg s (List.mem_of_getElem? hs)
          omega
  · exact Handles.refl σ

/-! ## Standard requests -/

/-- Endpoint 0 offers no packet. -/
def UsbPeriph.NoOffer (u : UsbPeriph) : Prop := (u.ep 0).statTx ≠ 3

/-- The macros keep `NoOffer`, at any endpoint index, unless they set STAT_TX to VALID. -/
theorem epRegRmw_noOffer {n : Nat} {f : Half → Half} {u : UsbPeriph}
    (h0 : ((epRegRmw 0 f u).ep 0).statTx ≠ 3) (hu : u.NoOffer) : (epRegRmw n f u).NoOffer := by
  by_cases hn : n = 0
  · subst hn
    exact h0
  · rw [NoOffer, epRegRmw_ep_ne (Ne.symm hn)]
    exact hu

theorem usbSetEpTxStat_noOffer (n : Nat) {s : Half} (hs : s &&& ~~~usbEpTxStat = 0#16)
    (hne : s.extractLsb' 4 2 ≠ 3) {u : UsbPeriph} (hu : u.NoOffer) :
    (usbSetEpTxStat n s u).NoOffer := by
  refine epRegRmw_noOffer ?_ hu
  rw [show epRegRmw 0 (setTxStatVal · s) u = usbSetEpTxStat 0 s u from rfl,
    usbSetEpTxStat_ep (by decide) hs]
  exact hne

theorem usbSetEpRxStat_noOffer (n : Nat) {s : Half} (hs : s &&& ~~~usbEpRxStat = 0#16)
    {u : UsbPeriph} (hu : u.NoOffer) : (usbSetEpRxStat n s u).NoOffer := by
  refine epRegRmw_noOffer ?_ hu
  rw [show epRegRmw 0 (setRxStatVal · s) u = usbSetEpRxStat 0 s u from rfl,
    usbSetEpRxStat_ep (by decide) hs]
  exact hu

theorem usbClrEpTxDtog_noOffer (n : Nat) {u : UsbPeriph} (hu : u.NoOffer) :
    (usbClrEpTxDtog n u).NoOffer := by
  refine epRegRmw_noOffer ?_ hu
  rw [show epRegRmw 0 clrTxDtogVal u = usbClrEpTxDtog 0 u from rfl, usbClrEpTxDtog_ep (by decide)]
  exact hu

theorem usbClrEpRxDtog_noOffer (n : Nat) {u : UsbPeriph} (hu : u.NoOffer) :
    (usbClrEpRxDtog n u).NoOffer := by
  refine epRegRmw_noOffer ?_ hu
  rw [show epRegRmw 0 clrRxDtogVal u = usbClrEpRxDtog 0 u from rfl, usbClrEpRxDtog_ep (by decide)]
  exact hu

theorem epStallSet_noOffer (addr : Byte) (stall : Bool) {u : UsbPeriph} (hu : u.NoOffer) :
    (epStallSet addr stall u).NoOffer := by
  have htx : ∀ n {v : UsbPeriph}, v.NoOffer →
      (usbSetEpTxStat n (if stall then usbEpTxStatStall else usbEpTxStatNak) v).NoOffer :=
    fun n _ hv => usbSetEpTxStat_noOffer n (by cases stall <;> decide) (by cases stall <;> decide) hv
  have hrx : ∀ n {v : UsbPeriph}, v.NoOffer →
      (usbSetEpRxStat n (if stall then usbEpRxStatStall else usbEpRxStatValid) v).NoOffer :=
    fun n _ hv => usbSetEpRxStat_noOffer n (by cases stall <;> decide) hv
  have hfirst : (if addr = 0 then usbSetEpTxStat addr.toNat
      (if stall then usbEpTxStatStall else usbEpTxStatNak) u else u).NoOffer := by
    split
    · exact htx addr.toNat hu
    · exact hu
  have hin := htx (addr &&& 0x7F).toNat hfirst
  unfold epStallSet
  dsimp only
  split
  · cases stall with
    | true => exact hin
    | false => exact usbClrEpTxDtog_noOffer (addr &&& 0x7F).toNat hin
  · refine hrx addr.toNat ?_
    cases stall with
    | true => exact hfirst
    | false => exact usbClrEpRxDtog_noOffer addr.toNat hfirst

/-- SET_CONFIGURATION leaves endpoint 0 alone. -/
theorem resetEndpoints_ep {n i : Nat} (hi : 0 < i) (u : UsbPeriph) :
    (resetEndpoints n i u).ep 0 = u.ep 0 := by
  induction n generalizing i u with
  | zero => rfl
  | succ n ih =>
      rw [resetEndpoints, ih (by omega)]
      exact (epRegRmw_ep_ne (by omega) _ _).trans (epRegRmw_ep_ne (by omega) _ _)

theorem resetEndpoints_queued (n i : Nat) (u : UsbPeriph) :
    (resetEndpoints n i u).queued = u.queued := by
  induction n generalizing i u with
  | zero => rfl
  | succ n ih => exact ih (i + 1) _

theorem epStallSet_queued (addr : Byte) (stall : Bool) (u : UsbPeriph) :
    (epStallSet addr stall u).queued = u.queued := by
  have hfirst : (if addr = 0 then usbSetEpTxStat addr.toNat
      (if stall then usbEpTxStatStall else usbEpTxStatNak) u else u).queued = u.queued := by
    split <;> rfl
  unfold epStallSet
  dsimp only
  split
  · cases stall <;> exact hfirst
  · cases stall <;> exact hfirst

theorem usbdStandardRequestDevice_handles (cfg : Config) (σ : Dev) :
    σ.Handles (usbdStandardRequestDevice cfg σ).2 := by
  unfold usbdStandardRequestDevice
  dsimp only
  split
  · split <;> exact Handles.refl σ
  split
  · split
    · exact { Handles.refl σ with
        statTx := fun hs => by
          rw [resetEndpoints_ep (by decide)]
          exact hs
        queued := resetEndpoints_queued 7 1 σ.usb }
    · exact Handles.refl σ
  split
  · exact Handles.reply _ _ σ (show 1 ≤ controlBufferSize by decide)
  split
  · exact usbStandardGetDescriptor_handles cfg σ
  split
  · exact Handles.reply _ _ σ (show 2 ≤ controlBufferSize by decide)
  · exact Handles.refl σ

theorem usbdStandardRequestInterface_handles (σ : Dev) :
    σ.Handles (usbdStandardRequestInterface σ).2 := by
  unfold usbdStandardRequestInterface
  dsimp only
  split
  · exact Handles.reply _ _ σ (show 1 ≤ controlBufferSize by decide)
  split
  · exact Handles.reply _ _ σ (Nat.zero_le _)
  split
  · exact Handles.reply _ _ σ (show 2 ≤ controlBufferSize by decide)
  · exact Handles.refl σ

theorem usbdStandardRequestEndpoint_handles (σ : Dev) :
    σ.Handles (usbdStandardRequestEndpoint σ).2 := by
  unfold usbdStandardRequestEndpoint
  dsimp only
  split
  · split
    · exact Handles.usb (epStallSet_noOffer _ _) (epStallSet_queued _ _ _)
    · exact Handles.refl σ
  split
  · refine .trans (Handles.usb (u := (epStallGet (Half.lo σ.pipe.usbReq.wIndex) σ.usb).2) ?_ ?_)
      (Handles.reply _ _ _ (show 2 ≤ controlBufferSize by decide))
    · unfold epStallGet
      split <;> exact id
    · unfold epStallGet
      split <;> rfl
  · exact Handles.refl σ

theorem usbdStandardRequest_handles (cfg : Config) (σ : Dev) :
    σ.Handles (usbdStandardRequest cfg σ).2 := by
  unfold usbdStandardRequest
  dsimp only
  split
  · exact Handles.refl σ
  split
  · exact usbdStandardRequestDevice_handles cfg σ
  split
  · exact usbdStandardRequestInterface_handles σ
  split
  · exact usbdStandardRequestEndpoint_handles σ
  · exact Handles.refl σ

/-! ## The dispatch -/

theorem classInterface_not_standard {r : UsbSetupData} (h : r.ClassInterface) :
    r.bmRequestType &&& usbReqTypeType ≠ usbReqTypeStandard := by
  intro hstd
  have hclass : r.bmRequestType &&& (usbReqTypeType ||| usbReqTypeRecipient) &&& usbReqTypeType =
      (usbReqTypeClass ||| usbReqTypeInterface) &&& usbReqTypeType := congrArg (· &&& usbReqTypeType) h
  rw [BitVec.and_assoc, show (usbReqTypeType ||| usbReqTypeRecipient) &&& usbReqTypeType =
    usbReqTypeType from by decide, hstd] at hclass
  exact absurd hclass (by decide)

/-- A request of another type is not a standard one. -/
theorem usbdStandardRequest_type {σ : Dev}
    (h : σ.pipe.usbReq.bmRequestType &&& usbReqTypeType ≠ usbReqTypeStandard) :
    usbdStandardRequest cfg σ = (.notsupp, σ) := by
  rw [usbdStandardRequest, if_pos h]

theorem usbdfuControlRequest_handled {σ : Dev} {r : DfuReq}
    (hreq : DfuReq.ofByte σ.pipe.usbReq.bRequest = some r) :
    (usbdfuControlRequest cfg σ).1 = .handled := by
  unfold usbdfuControlRequest
  rw [hreq]
  cases r <;> rfl

/-- A DFU request goes to the DFU handler alone. -/
theorem usbControlRequestDispatch_class {σ : Dev} (hclass : σ.pipe.usbReq.ClassInterface)
    {r : DfuReq} (hreq : DfuReq.ofByte σ.pipe.usbReq.bRequest = some r) :
    usbControlRequestDispatch cfg σ = usbdfuControlRequest cfg σ.toHandler := by
  have hhandled : (usbdfuControlRequest cfg σ.toHandler).1 = .handled :=
    usbdfuControlRequest_handled hreq
  unfold usbControlRequestDispatch
  dsimp only
  rw [if_pos (show (σ.call _).pipe.usbReq.ClassInterface from hclass)]
  split
  · next τ heq => cases hhandled.symm.trans (congrArg Prod.fst heq)
  · next heq => exact heq.symm

/-- A class request to the interface with a DFU code goes to the DFU handler. -/
theorem usbControlRequestDispatch_dfu {σ : Dev} {q : DfuReq} (hclass : σ.pipe.usbReq.ClassInterface)
    (hq : DfuReq.ofByte σ.pipe.usbReq.bRequest = some q) :
    usbControlRequestDispatch cfg σ = (.handled, (usbdfuControlRequest cfg σ.toHandler).2) := by
  have hcode : (usbdfuControlRequest cfg σ.toHandler).1 = .handled :=
    usbdfuControlRequest_handled hq
  rw [usbControlRequestDispatch_class hclass hq, ← hcode]

theorem usbControlRequestDispatch_dnload {σ : Dev} (hclass : σ.pipe.usbReq.ClassInterface)
    (hq : DfuReq.ofByte σ.pipe.usbReq.bRequest = some .dnload) :
    usbControlRequestDispatch cfg σ = (.handled, dfuDnload σ.toHandler) := by
  rw [usbControlRequestDispatch_dfu hclass hq, usbdfuControlRequest,
    show σ.toHandler.pipe.usbReq.bRequest = σ.pipe.usbReq.bRequest from rfl, hq]

theorem usbControlRequestDispatch_getstatus {σ : Dev} (hclass : σ.pipe.usbReq.ClassInterface)
    (hq : DfuReq.ofByte σ.pipe.usbReq.bRequest = some .getstatus) :
    usbControlRequestDispatch cfg σ = (.handled, dfuGetstatus σ.toHandler) := by
  rw [usbControlRequestDispatch_dfu hclass hq, usbdfuControlRequest,
    show σ.toHandler.pipe.usbReq.bRequest = σ.pipe.usbReq.bRequest from rfl, hq]

theorem usbControlRequestDispatch_upload {σ : Dev} (hclass : σ.pipe.usbReq.ClassInterface)
    (hq : DfuReq.ofByte σ.pipe.usbReq.bRequest = some .upload) :
    usbControlRequestDispatch cfg σ = (.handled, dfuUpload cfg σ.toHandler) := by
  rw [usbControlRequestDispatch_dfu hclass hq, usbdfuControlRequest,
    show σ.toHandler.pipe.usbReq.bRequest = σ.pipe.usbReq.bRequest from rfl, hq]

/-- Another class request is refused. -/
theorem usbControlRequestDispatch_unknown {σ : Dev} (hclass : σ.pipe.usbReq.ClassInterface)
    (hreq : DfuReq.ofByte σ.pipe.usbReq.bRequest = none) :
    usbControlRequestDispatch cfg σ = (.notsupp, σ.toHandler) := by
  have hnext : usbdfuControlRequest cfg σ.toHandler = (.nextCallback, σ.toHandler) := by
    unfold usbdfuControlRequest
    rw [show σ.toHandler.pipe.usbReq = σ.pipe.usbReq from rfl, hreq]
  unfold usbControlRequestDispatch
  dsimp only
  rw [if_pos (show (σ.call _).pipe.usbReq.ClassInterface from hclass)]
  split
  · next τ heq =>
    obtain rfl : σ.toHandler = τ := congrArg Prod.snd (hnext.symm.trans heq)
    exact usbdStandardRequest_type (classInterface_not_standard hclass)
  · next hpass heq => exact absurd (congrArg Prod.fst (heq.symm.trans hnext)) hpass

/-- Any other request goes to the standard handler alone. -/
theorem usbControlRequestDispatch_pass {σ : Dev} (hclass : ¬ σ.pipe.usbReq.ClassInterface) :
    usbControlRequestDispatch cfg σ =
      usbdStandardRequest cfg (σ.call (.dispatch σ.pipe.usbReq σ.usbdControlBuffer)) := by
  unfold usbControlRequestDispatch
  dsimp only
  rw [if_neg (show ¬ (σ.call _).pipe.usbReq.ClassInterface from hclass)]

/-- After the dispatch is recorded, only what a handler may do. -/
theorem usbControlRequestDispatch_handles (cfg : Config) (σ : Dev) :
    (σ.call (.dispatch σ.pipe.usbReq σ.usbdControlBuffer)).Handles
      (usbControlRequestDispatch cfg σ).2 := by
  have hstart : (σ.call (.dispatch σ.pipe.usbReq σ.usbdControlBuffer)).Handles σ.toHandler :=
    { Handles.refl _ with }
  by_cases hclass : σ.pipe.usbReq.ClassInterface
  · cases hreq : DfuReq.ofByte σ.pipe.usbReq.bRequest with
    | none =>
        rw [usbControlRequestDispatch_unknown hclass hreq]
        exact hstart
    | some r =>
        rw [usbControlRequestDispatch_class hclass hreq]
        exact hstart.trans (usbdfuControlRequest_handles cfg σ.toHandler)
  · rw [usbControlRequestDispatch_pass hclass]
    exact usbdStandardRequest_handles cfg _

end LnDso
