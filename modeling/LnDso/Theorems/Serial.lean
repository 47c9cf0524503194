import Mathlib.Data.List.TakeWhile
import LnDso.Theorems.Answers

/-!
# The serial number

The serial number that a host reads, packet by packet, tells the identifiers of two
chips apart.
-/

namespace LnDso

open Lib

variable {cfg : Config} {σ : Dev} {i n : Nat} {w : Half} {s : List Byte}

/-! ## Reading a string -/

/-- GET_DESCRIPTOR for string `i`, counted from 0, in English. -/
def getString (i : Nat) (w : Half) : UsbSetupData :=
  ⟨0x80, usbReqGetDescriptor, 0x0300 + BitVec.ofNat 16 (i + 1), usbLangidEnglishUs, w⟩

theorem getString_reads (i : Nat) (w : Half) : (getString i w).Reads where
  dirIn := show (0x80 : Byte) &&& 0x80 ≠ 0 by decide
  standard := show (0x80 : Byte) &&& usbReqTypeType = usbReqTypeStandard by decide
  recipient := show (0x80 : Byte) &&& usbReqTypeRecipient ≠ usbReqTypeEndpoint by decide
  code := show usbReqGetDescriptor ≠ usbReqSetConfiguration by decide

theorem getString_value (hi : i < 5) : Half.hi (getString i w).wValue = usbDtString ∧
    (Half.lo (getString i w).wValue).toNat = i + 1 := by
  have hvalue : (getString i w).wValue.toNat = 0x0300 + (i + 1) := by
    show (0x0300 + BitVec.ofNat 16 (i + 1)).toNat = _
    rw [BitVec.toNat_add, BitVec.toNat_ofNat]
    have hbase : (0x0300 : Half).toNat = 0x0300 := rfl
    omega
  constructor
  · apply BitVec.eq_of_toNat_eq
    have htype : usbDtString.toNat = 3 := rfl
    rw [Half.hi, BitVec.toNat_ofNat, hvalue, htype]
    omega
  · rw [Half.lo, BitVec.toNat_ofNat, hvalue]
    omega

/-- The answer is the descriptor of the string up to its NUL. -/
theorem standardAnswer_getString (hi : (usbStrings cfg)[i]? = some s) :
    standardAnswer cfg (getString i w) =
      some (stringDescriptor ((s.takeWhile (· ≠ 0)).map (·.setWidth 16))) := by
  have hfive : i < 5 := (List.getElem?_eq_some_iff.mp hi).1
  obtain ⟨htype, hindex⟩ := getString_value (w := w) hfive
  have hto : (getString i w).bmRequestType &&& usbReqTypeRecipient = usbReqTypeDevice :=
    show (0x80 : Byte) &&& usbReqTypeRecipient = usbReqTypeDevice by decide
  have hcode : (getString i w).bRequest = usbReqGetDescriptor := rfl
  have hlang : (getString i w).wIndex = usbLangidEnglishUs := rfl
  rw [standardAnswer, if_pos hto, hcode, if_neg (by decide), if_neg (by decide), if_pos rfl,
    descriptorAnswer, htype, if_neg (by decide), if_neg (by decide), if_pos rfl, stringAnswer,
    if_neg (by omega), if_pos hlang, hindex, Nat.add_sub_cancel, hi]
  rfl

/-- The bytes that come back for a request, after `n` IN completions. -/
def Dev.readBack (cfg : Config) (p : UsbSetupData) (n : Nat) (σ : Dev) : List Byte :=
  (((machine cfg).run σ (.setup p :: List.replicate n .inDone)).usb.queued.drop
    σ.usb.queued.length).flatten

/-- From any reachable state the whole descriptor comes back. -/
theorem readBack_getString (hσ : (machine cfg).Reachable σ) (hi : (usbStrings cfg)[i]? = some s)
    (hw : 254 ≤ w.toNat) (hn : 4 ≤ n) :
    σ.readBack cfg (getString i w) n =
      stringDescriptor ((s.takeWhile (· ≠ 0)).map (·.setWidth 16)) := by
  have hpos : w ≠ 0 := by
    rintro rfl
    exact absurd hw (by decide)
  have hshort : strlen s ≤ 126 := Nat.le_trans (List.takeWhile_prefix _).length_le
    (length_usbStrings cfg s (List.mem_of_getElem? hi))
  let d := stringDescriptor ((s.takeWhile (· ≠ 0)).map fun b : Byte => (b.setWidth 16 : Half))
  have hlen : d.length = 2 + 2 * strlen s := by
    rw [length_stringDescriptor, List.length_map]
    rfl
  have htake : d.take w.toNat = d := List.take_of_length_le (by omega)
  have hcount : (replyPackets w.toNat d).length ≤ d.length / 64 + 2 :=
    Packets.length_packets_le (by decide) _ d
  have hqueued : ((machine cfg).run σ (.setup (getString i w) :: List.replicate n .inDone)).usb.queued =
      σ.usb.queued ++ (replyPackets w.toNat (d.take w.toNat)).take (n + 1) :=
    queued_answer (noReset_invariant cfg σ hσ) (getString_reads i w) hpos
      (standardAnswer_getString hi) n
  rw [htake] at hqueued
  rw [Dev.readBack, hqueued, List.drop_left, List.take_of_length_le (by omega), replyPackets,
    Packets.flatten_packets]

/-! ## The serial number -/

/-- The characters of a string descriptor: low bytes of the half-words behind its
first two bytes. -/
def stringOf : List Byte → List Byte
  | lo :: _ :: rest => lo :: stringOf rest
  | _ => []

theorem stringOf_descriptor (cs : List Byte) :
    stringOf ((stringDescriptor (cs.map (·.setWidth 16))).drop 2) = cs := by
  have hlow : ∀ c : Byte, Half.lo (c.setWidth 16) = c := by
    intro c
    apply BitVec.eq_of_toNat_eq
    have hlt := c.isLt
    rw [Half.lo, BitVec.toNat_ofNat, BitVec.toNat_setWidth]
    omega
  show stringOf ((cs.map (·.setWidth 16)).flatMap le16) = cs
  induction cs with
  | nil => rfl
  | cons c cs ih =>
      rw [List.map_cons, List.flatMap_cons, le16, hlow]
      exact congrArg (c :: ·) ih

/-- The two hexadecimal digits of a byte. -/
def hexDigits (b : Byte) : List Byte :=
  [hcharset.getD (b / 16).toNat 0, hcharset.getD (b % 16).toNat 0]

theorem hcharset_digit : ∀ k < 16, hcharset.idxOf (hcharset.getD k 0) = k ∧ hcharset.getD k 0 ≠ 0 := by
  decide

theorem toNat_nibbles (b : Byte) : (b / 16).toNat = b.toNat / 16 ∧ (b % 16).toNat = b.toNat % 16 :=
  ⟨BitVec.toNat_udiv, BitVec.toNat_umod⟩

theorem nibbles_lt (b : Byte) : (b / 16).toNat < 16 ∧ (b % 16).toNat < 16 := by
  have hlt := b.isLt
  rw [(toNat_nibbles b).1, (toNat_nibbles b).2]
  omega

theorem hexDigits_inj {b c : Byte} (h : hexDigits b = hexDigits c) : b = c := by
  obtain ⟨hb, hb'⟩ := nibbles_lt b
  obtain ⟨hc, hc'⟩ := nibbles_lt c
  rw [hexDigits, hexDigits, List.cons.injEq, List.cons.injEq] at h
  have hhigh : (b / 16).toNat = (c / 16).toNat := by
    rw [← (hcharset_digit _ hb).1, h.1, (hcharset_digit _ hc).1]
  have hlow : (b % 16).toNat = (c % 16).toNat := by
    rw [← (hcharset_digit _ hb').1, h.2.1, (hcharset_digit _ hc').1]
  rw [(toNat_nibbles b).1, (toNat_nibbles c).1] at hhigh
  rw [(toNat_nibbles b).2, (toNat_nibbles c).2] at hlow
  apply BitVec.eq_of_toNat_eq
  omega

/-- Lists of pieces of one length are equal only piece by piece. -/
theorem eq_of_flatMap_eq {α β : Type} {f g : α → List β} (hlen : ∀ a, (f a).length = (g a).length)
    {l : List α} (h : l.flatMap f = l.flatMap g) : ∀ a ∈ l, f a = g a := by
  induction l with
  | nil => exact fun a ha => absurd ha List.not_mem_nil
  | cons a l ih =>
      rw [List.flatMap_cons, List.flatMap_cons] at h
      obtain ⟨hhead, htail⟩ := List.append_inj h (hlen a)
      intro x hx
      rcases List.mem_cons.mp hx with rfl | hx
      · exact hhead
      · exact ih htail x hx

theorem getDevUniqueId_inj {cfg' : Config} :
    getDevUniqueId cfg = getDevUniqueId cfg' ↔ cfg.uniqueId = cfg'.uniqueId := by
  constructor
  · intro h
    funext i
    exact hexDigits_inj (eq_of_flatMap_eq (f := fun i => hexDigits (cfg.uniqueId i))
      (g := fun i => hexDigits (cfg'.uniqueId i)) (fun _ => rfl) (List.append_cancel_left h) i
      (List.mem_finRange i))
  · intro h
    rw [getDevUniqueId, getDevUniqueId, h]

/-- The serial number has no NUL. -/
theorem getDevUniqueId_ne_zero : ∀ c ∈ getDevUniqueId cfg, c ≠ 0 := by
  intro c hc
  rcases List.mem_append.mp hc with hc | hc
  · exact (by decide : ∀ c ∈ cString "DSO150", c ≠ 0) c hc
  · obtain ⟨i, -, hi⟩ := List.mem_flatMap.mp hc
    obtain ⟨hhigh, hlow⟩ := nibbles_lt (cfg.uniqueId i)
    rcases List.mem_pair.mp hi with rfl | rfl
    · exact (hcharset_digit _ hhigh).2
    · exact (hcharset_digit _ hlow).2

/-- **The serial number.** Two devices answer the request for the serial number
alike, whatever their states and builds, exactly when the nine bytes of their chips'
identifiers that are read are the same. -/
theorem serial_identifies {cfg cfg' : Config} {σ σ' : Dev} (hσ : (machine cfg).Reachable σ)
    (hσ' : (machine cfg').Reachable σ') {w w' : Half} (hw : 254 ≤ w.toNat) (hw' : 254 ≤ w'.toNat)
    {n n' : Nat} (hn : 4 ≤ n) (hn' : 4 ≤ n') :
    σ.readBack cfg (getString 2 w) n = σ'.readBack cfg' (getString 2 w') n' ↔
      cfg.uniqueId = cfg'.uniqueId := by
  have hall (cfg : Config) : (getDevUniqueId cfg).takeWhile (· ≠ 0) = getDevUniqueId cfg := by
    rw [List.takeWhile_eq_self_iff]
    intro c hc
    exact decide_eq_true (getDevUniqueId_ne_zero c hc)
  rw [readBack_getString hσ (s := getDevUniqueId cfg) rfl hw hn,
    readBack_getString hσ' (s := getDevUniqueId cfg') rfl hw' hn', hall, hall,
    ← getDevUniqueId_inj]
  constructor
  · intro h
    rw [← stringOf_descriptor (getDevUniqueId cfg), h, stringOf_descriptor]
  · intro h
    rw [h]

/-- Two chips whose identifiers differ in the last byte that is read. -/
theorem serial_identifies_two :
    let cfg' := { Config.stm32f103 with uniqueId := fun i => if i = 8 then 1 else 0 }
    (Dev.fresh fun _ => 0xff).readBack .stm32f103 (getString 2 255) 4 ≠
      (Dev.fresh fun _ => 0xff).readBack cfg' (getString 2 255) 4 := by
  intro cfg' h
  have heq : Config.stm32f103.uniqueId = cfg'.uniqueId := (serial_identifies
    (.init (Dev.fresh_boot _)) (.init (Dev.fresh_boot _)) (by decide) (by decide) (Nat.le_refl 4) (Nat.le_refl 4)).mp h
  exact absurd (congrFun heq 8) (by decide)

end LnDso
