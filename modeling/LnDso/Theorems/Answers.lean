import LnDso.Logic.Serving
import LnDso.Theorems.RefusedRequest

/-!
# The answers to standard reads

What the device answers to the standard reads of its descriptors and its status is a
function of the request alone: in every reachable state a host reads the same bytes.
-/

namespace LnDso

open Lib Packets

variable {cfg : Config} {σ : Dev} {p : UsbSetupData} {a : Option (List Byte)} {n : Nat}

/-! ## The answers -/

/-- The descriptor of string `n`; string 0 lists the languages. -/
def stringAnswer (cfg : Config) (n : Nat) (lang : Half) : Option (List Byte) :=
  if n = 0 then some (stringDescriptor [usbLangidEnglishUs])
  else if lang = usbLangidEnglishUs then
    (usbStrings cfg)[n - 1]?.map fun s => stringDescriptor ((s.takeWhile (· ≠ 0)).map (·.setWidth 16))
  else none

/-- The descriptor that a request asks for. -/
def descriptorAnswer (cfg : Config) (p : UsbSetupData) : Option (List Byte) :=
  if Half.hi p.wValue = usbDtDevice then some devDesc
  else if Half.hi p.wValue = usbDtConfiguration then some (configDesc cfg)
  else if Half.hi p.wValue = usbDtString then stringAnswer cfg (Half.lo p.wValue).toNat p.wIndex
  else none

/-- The answer to a standard read, none if it is refused. -/
def standardAnswer (cfg : Config) (p : UsbSetupData) : Option (List Byte) :=
  if p.bmRequestType &&& usbReqTypeRecipient = usbReqTypeDevice then
    if p.bRequest = usbReqGetStatus then some [0, 0]
    else if p.bRequest = usbReqGetConfiguration then some [bConfigurationValue]
    else if p.bRequest = usbReqGetDescriptor then descriptorAnswer cfg p
    else none
  else if p.bmRequestType &&& usbReqTypeRecipient = usbReqTypeInterface then
    if p.bRequest = usbReqGetInterface then some [1]
    else if p.bRequest = usbReqSetInterface then some []
    else none
  else none

/-- A standard read to anything but an endpoint. SET_CONFIGURATION with the read
direction is none: it answers with what is staged. -/
structure UsbSetupData.Reads (p : UsbSetupData) : Prop where
  dirIn : p.DirIn
  standard : p.bmRequestType &&& usbReqTypeType = usbReqTypeStandard
  recipient : p.bmRequestType &&& usbReqTypeRecipient ≠ usbReqTypeEndpoint
  code : p.bRequest ≠ usbReqSetConfiguration

/-- The packets of an answer to a request for `w` bytes. -/
def answerPackets (w : Nat) : Option (List Byte) → List (List Byte)
  | none => []
  | some data => replyPackets w (data.take w)

/-! ## The handlers -/

/-- The handler answers `a`: it refuses, or the answer is what the host is sent. -/
def Answered : Option (List Byte) → ReqCode × Dev → Prop
  | none, r => r.1 = .notsupp
  | some data, r => r.1 = .handled ∧
      ∀ w, r.2.usbdControlBuffer.read 0 (min r.2.pipe.datasize.toNat w) = data.take w

theorem Answered.refused : Answered none (.notsupp, σ) := rfl

theorem Answered.reply {bytes : List Byte} {len : Half} (hlen : len.toNat = bytes.length) :
    Answered (some bytes) (.handled, σ.reply bytes len) := ⟨rfl, reply_read σ hlen⟩

theorem Answered.replyString {wData : List Half} (hlen : wData.length ≤ 126) :
    Answered (some (stringDescriptor wData)) (.handled, replyString wData σ) := by
  refine .reply ?_
  rw [length_stringDescriptor, BitVec.toNat_setWidth, BitVec.toNat_ofNat]
  omega

theorem take_strlen (s : List Byte) : s.take (strlen s) = s.takeWhile (· ≠ 0) :=
  (List.prefix_iff_eq_take.mp (List.takeWhile_prefix _)).symm

theorem usbStandardGetDescriptor_answered (cfg : Config) (σ : Dev) :
    Answered (descriptorAnswer cfg σ.pipe.usbReq) (usbStandardGetDescriptor cfg σ) := by
  unfold usbStandardGetDescriptor descriptorAnswer
  dsimp only
  split
  · exact .reply rfl
  split
  · exact .reply rfl
  split
  · unfold stringAnswer
    by_cases hindex : Half.lo σ.pipe.usbReq.wValue = 0
    · have hzero : (Half.lo σ.pipe.usbReq.wValue).toNat = 0 := congrArg BitVec.toNat hindex
      rw [if_pos hindex, if_pos hzero]
      exact .replyString (show 1 ≤ 126 by decide)
    -- index 0 is the list of languages; the others are the strings, in English only
    have hpos : (Half.lo σ.pipe.usbReq.wValue).toNat ≠ 0 := fun hzero =>
      hindex (BitVec.eq_of_toNat_eq hzero)
    rw [if_neg hindex, if_neg hpos]
    by_cases hlang : σ.pipe.usbReq.wIndex = usbLangidEnglishUs
    · rw [if_pos hlang]
      split
      · next hnone =>
        rw [hnone]
        exact .refused
      next s hs =>
      rw [hs, if_neg (not_not.mpr hlang), take_strlen]
      refine .replyString ?_
      rw [List.length_map]
      exact Nat.le_trans (List.takeWhile_prefix _).length_le
        (length_usbStrings cfg s (List.mem_of_getElem? hs))
    · rw [if_neg hlang]
      split
      · exact .refused
      rw [if_pos hlang]
      exact .refused
  · exact .refused

theorem usbdStandardRequestDevice_answered (h : σ.pipe.usbReq.Reads)
    (hto : σ.pipe.usbReq.bmRequestType &&& usbReqTypeRecipient = usbReqTypeDevice) :
    Answered (standardAnswer cfg σ.pipe.usbReq) (usbdStandardRequestDevice cfg σ) := by
  unfold usbdStandardRequestDevice standardAnswer
  dsimp only
  rw [if_pos hto, if_neg h.code]
  by_cases haddr : σ.pipe.usbReq.bRequest = usbReqSetAddress
  · -- A read is no SET_ADDRESS, whose bmRequestType is 0.
    have htype : σ.pipe.usbReq.bmRequestType ≠ 0 := by
      intro hzero
      exact h.dirIn (by rw [hzero]; decide)
    rw [if_pos haddr, if_pos (Or.inl htype), haddr, if_neg (by decide), if_neg (by decide),
      if_neg (by decide)]
    exact .refused
  rw [if_neg haddr]
  by_cases hconfiguration : σ.pipe.usbReq.bRequest = usbReqGetConfiguration
  · rw [if_pos hconfiguration, if_pos hconfiguration, if_neg (by rw [hconfiguration]; decide)]
    exact .reply rfl
  rw [if_neg hconfiguration, if_neg hconfiguration]
  by_cases hdescriptor : σ.pipe.usbReq.bRequest = usbReqGetDescriptor
  · rw [if_pos hdescriptor, if_pos hdescriptor, if_neg (by rw [hdescriptor]; decide)]
    exact usbStandardGetDescriptor_answered cfg σ
  rw [if_neg hdescriptor, if_neg hdescriptor]
  split
  · exact .reply rfl
  · exact .refused

theorem usbdStandardRequestInterface_answered
    (hto : σ.pipe.usbReq.bmRequestType &&& usbReqTypeRecipient = usbReqTypeInterface) :
    Answered (standardAnswer cfg σ.pipe.usbReq) (usbdStandardRequestInterface σ) := by
  unfold usbdStandardRequestInterface standardAnswer
  dsimp only
  rw [hto, if_neg (by decide), if_pos rfl]
  by_cases hget : σ.pipe.usbReq.bRequest = usbReqGetInterface
  · rw [if_pos hget, if_pos hget]
    exact .reply rfl
  rw [if_neg hget, if_neg hget]
  by_cases hset : σ.pipe.usbReq.bRequest = usbReqSetInterface
  · rw [if_pos hset, if_pos hset]
    exact .reply rfl
  rw [if_neg hset, if_neg hset]
  split <;> exact .refused

theorem usbdStandardRequest_answered (h : σ.pipe.usbReq.Reads) :
    Answered (standardAnswer cfg σ.pipe.usbReq) (usbdStandardRequest cfg σ) := by
  unfold usbdStandardRequest
  dsimp only
  rw [if_neg (not_not.mpr h.standard)]
  split
  · next hto => exact usbdStandardRequestDevice_answered h hto
  next hdevice =>
  split
  · next hto => exact usbdStandardRequestInterface_answered hto
  next hinterface =>
  rw [if_neg h.recipient, standardAnswer, if_neg hdevice, if_neg hinterface]
  exact .refused

theorem usbControlRequestDispatch_answered (cfg : Config) (h : σ.pipe.usbReq.Reads) :
    Answered (standardAnswer cfg σ.pipe.usbReq) (usbControlRequestDispatch cfg σ) := by
  rw [usbControlRequestDispatch_pass fun hclass => classInterface_not_standard hclass h.standard]
  exact usbdStandardRequest_answered (σ := σ.call _) h

/-! ## What the host reads -/

/-- The dispatch of a standard read, in the state in which the SETUP is handled. -/
theorem asked_answered (cfg : Config) (hreset : σ.usb.NoReset) (hp : p.Reads) :
    Answered (standardAnswer cfg p) (usbControlRequestDispatch cfg (σ.asked p)) := by
  obtain ⟨-, -, hreq, -⟩ := asked_fields hreset p
  have hanswered := usbControlRequestDispatch_answered cfg (σ := σ.asked p) (by rwa [hreq])
  rwa [hreq] at hanswered

theorem queued_answer (hreset : σ.usb.NoReset) (hp : p.Reads) (hw : p.wLength ≠ 0) {data : List Byte}
    (hdata : standardAnswer cfg p = some data) (j : Nat) :
    ((machine cfg).run σ (.setup p :: List.replicate j .inDone)).usb.queued =
      σ.usb.queued ++ (replyPackets p.wLength.toNat (data.take p.wLength.toNat)).take (j + 1) := by
  have hanswered := asked_answered cfg hreset hp
  rw [hdata] at hanswered
  obtain ⟨hcode, hread⟩ := hanswered
  obtain ⟨zlp, hzlp, hqueues⟩ := read_queues hreset hp.dirIn hw (Prod.ext hcode rfl) (by simp)
  rw [hread] at hzlp hqueues
  rw [← replyPackets_eq hzlp]
  exact (hqueues j).1

/-- **The answers.** In every reachable state the packets that a standard read
brings, one with each IN completion, are those of its answer. -/
theorem answers_standard (cfg : Config) {σ : Dev} (hσ : (machine cfg).Reachable σ) {p : UsbSetupData}
    (hp : p.Reads) (hw : p.wLength ≠ 0) (j : Nat) :
    ((machine cfg).run σ (.setup p :: List.replicate j .inDone)).usb.queued =
      σ.usb.queued ++ (answerPackets p.wLength.toNat (standardAnswer cfg p)).take (j + 1) := by
  have hreset := noReset_invariant cfg σ hσ
  cases hanswer : standardAnswer cfg p with
  | none =>
      have hanswered := asked_answered cfg hreset hp
      rw [hanswer] at hanswered
      rw [refused_queues hreset hp.dirIn hanswered]
      exact (List.append_nil _).symm
  | some data => exact queued_answer hreset hp hw hanswer j

/-- After a page of a download the device descriptor comes back in one packet. -/
theorem answers_standard_download :
    let σ := (machine .stm32f103).run (Dev.fresh fun _ => 0xff)
      [.reset, .setup ⟨0x21, 1, 2, 0, 2⟩, .out (.ofBytes [0x12, 0x34]), .inDone]
    ((machine .stm32f103).run σ [.setup ⟨0x80, 6, 0x0100, 0, 64⟩]).usb.queued =
      σ.usb.queued ++ [devDesc] := by
  intro σ
  have hreach : (machine .stm32f103).Reachable σ :=
    TSys.Reachable.run (machine .stm32f103) (.init (Dev.fresh_boot fun _ => 0xff)) _
  have hreads : (⟨0x80, 6, 0x0100, 0, 64⟩ : UsbSetupData).Reads :=
    ⟨by decide, by decide, by decide, by decide⟩
  have hone : answerPackets 64 (standardAnswer .stm32f103 ⟨0x80, 6, 0x0100, 0, 64⟩) = [devDesc] := by
    have hanswer : standardAnswer .stm32f103 ⟨0x80, 6, 0x0100, 0, 64⟩ = some devDesc := by decide
    rw [hanswer, answerPackets, replyPackets, packets_last (by decide)]
    rfl
  have hqueued := answers_standard .stm32f103 hreach hreads (by decide) 0
  rw [show ((⟨0x80, 6, 0x0100, 0, 64⟩ : UsbSetupData).wLength).toNat = 64 from rfl, hone] at hqueued
  exact hqueued

end LnDso
