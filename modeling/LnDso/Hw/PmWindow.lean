import LnDso.Hw.PacketMemory

/-!
# Packet memory as the processor addresses it

The window at `USB_PMA_BASE` is memory in bytes, in which word `k` of packet
memory is the lower half of the 32-bit slot at offset `4 * k`. Here are the copy
loops of `usb.cpp` with the pointers they step: 32-bit stores into the window one
way, every other half-word of it the other way. On the words of the window they
are the loops of `PacketMemory` (`pmWord_copyToPm`, `copyFromPm_eq`).
-/

namespace LnDso

open Lib

namespace PmWindow

/-! ## Loads and stores -/

/-- `*(uint16_t *)p` -/
def load16 (m : Mem) (p : Nat) : Half := Half.ofBytes (m p) (m (p + 1))

/-- `*(uint16_t *)p = v` -/
def store16 (p : Nat) (v : Half) (m : Mem) : Mem :=
  Function.update (Function.update m p (Half.lo v)) (p + 1) (Half.hi v)

/-- `*(uint32_t *)p = v` -/
def store32 (p : Nat) (v : Word) (m : Mem) : Mem :=
  m.write p [Word.byte v 0, Word.byte v 1, Word.byte v 2, Word.byte v 3]

/-- Word `k` of packet memory. -/
def pmWord (W : Mem) (k : Nat) : Half := load16 W (4 * k)

/-! ## The copy loops -/

/-- The loop of `st_usbfs_copy_to_pm`: `*PM++ = *lbuf++`, the half-word widened to
32 bits. -/
def copyToPmLoop (m : Mem) : (len PM lbuf : Nat) → Mem → Mem
  | 0, _, _, W => W
  | len + 1, PM, lbuf, W =>
      copyToPmLoop m len (PM + 4) (lbuf + 2) (store32 PM ((load16 m lbuf).setWidth 32) W)

/-- `st_usbfs_copy_to_pm` -/
def stUsbfsCopyToPm (vPM : Nat) (m : Mem) (buf : Nat) (len : Half) (W : Mem) : Mem :=
  copyToPmLoop m ((len.toNat + 1) >>> 1) vPM buf W

/-- The loop of `st_usbfs_copy_from_pm`, `PM` a pointer to half-words that steps by
two of them; then the odd byte, from where the pointers stopped. -/
def copyFromPmLoop (W : Mem) (odd : Bool) : (len PM lbuf : Nat) → Mem → Mem
  | 0, PM, lbuf, m => if odd then Function.update m lbuf (W PM) else m
  | len + 1, PM, lbuf, m =>
      copyFromPmLoop W odd len (PM + 4) (lbuf + 2) (store16 lbuf (load16 W PM) m)

/-- `st_usbfs_copy_from_pm` -/
def stUsbfsCopyFromPm (m : Mem) (buf : Nat) (W : Mem) (vPM : Nat) (len : Half) : Mem :=
  copyFromPmLoop W (decide (len &&& 1 ≠ 0)) (len.toNat >>> 1) vPM buf m

/-! ## Words of the window -/

theorem byte_zero_setWidth (h : Half) : Word.byte (h.setWidth 32) 0 = Half.lo h := by
  apply BitVec.eq_of_toNat_eq
  simp [Word.byte, Half.lo]

theorem byte_one_setWidth (h : Half) : Word.byte (h.setWidth 32) 1 = Half.hi h := by
  apply BitVec.eq_of_toNat_eq
  simp [Word.byte, Half.hi]
  omega

/-- A 32-bit store of a half-word sets the word of its slot, and no other. -/
theorem pmWord_store32 (k : Nat) (h : Half) (W : Mem) :
    pmWord (store32 (4 * k) (h.setWidth 32) W) = Function.update (pmWord W) k h := by
  funext i
  rw [pmWord, load16, store32, byte_zero_setWidth, byte_one_setWidth, Mem.write_apply,
    Mem.write_apply]
  by_cases hi : i = k
  · subst hi
    rw [Function.update_self, if_pos (Nat.le_refl _), if_pos (Nat.le_succ _), Nat.sub_self,
      Nat.add_sub_cancel_left]
    exact Half.ofBytes_lo_hi h
  · rw [Function.update_of_ne hi, pmWord, load16]
    by_cases hlt : 4 * i < 4 * k
    · rw [if_neg (by omega), if_neg (by omega)]
    · rw [if_pos (by omega), if_pos (by omega), List.getElem?_eq_none (by simp; omega),
        List.getElem?_eq_none (by simp; omega), Option.getD_none, Option.getD_none]

theorem pmWord_copyToPmLoop (m : Mem) (n k p : Nat) (W : Mem) :
    pmWord (copyToPmLoop m n (4 * k) p W) = LnDso.copyToPmLoop m n k p (pmWord W) := by
  induction n generalizing k p W with
  | zero => rfl
  | succ n ih =>
      rw [copyToPmLoop, LnDso.copyToPmLoop, show 4 * k + 4 = 4 * (k + 1) by omega, ih,
        pmWord_store32]
      rfl

theorem copyFromPmLoop_eq (W : Mem) (odd : Bool) (n k p : Nat) (m : Mem) :
    copyFromPmLoop W odd n (4 * k) p m =
      let m' := LnDso.copyFromPmLoop (pmWord W) n k p m
      if odd then Function.update m' (p + 2 * n) (Half.lo (pmWord W (k + n))) else m' := by
  induction n generalizing k p m with
  | zero =>
      rw [copyFromPmLoop, pmWord, load16, Half.lo_ofBytes]
      rfl
  | succ n ih =>
      rw [copyFromPmLoop, show 4 * k + 4 = 4 * (k + 1) by omega, ih,
        show p + 2 + 2 * n = p + 2 * (n + 1) by omega, show k + 1 + n = k + (n + 1) by omega]
      rfl

/-! ## The copies on words -/

theorem and_one_ne_zero (len : Half) : len &&& 1 ≠ 0 ↔ len.toNat % 2 = 1 := by
  have hval : (len &&& 1).toNat = len.toNat % 2 := by
    rw [BitVec.toNat_and]
    exact Nat.and_one_is_mod _
  rw [ne_eq, ← BitVec.toNat_inj, hval]
  exact Nat.mod_two_ne_zero

theorem pmWord_copyToPm (k : Nat) (m : Mem) (buf : Nat) (len : Half) (W : Mem) :
    pmWord (stUsbfsCopyToPm (4 * k) m buf len W) =
      LnDso.stUsbfsCopyToPm k (m.from_ buf) len (pmWord W) := by
  rw [stUsbfsCopyToPm, pmWord_copyToPmLoop, Nat.shiftRight_one, LnDso.stUsbfsCopyToPm]
  funext i
  rw [copyToPmLoop_apply, copyToPmLoop_apply, Mem.from_, Mem.from_, Nat.zero_add, Nat.add_assoc]

theorem copyFromPm_eq (m : Mem) (buf : Nat) (W : Mem) (k : Nat) (len : Half) :
    stUsbfsCopyFromPm m buf W (4 * k) len = LnDso.stUsbfsCopyFromPm m buf (pmWord W) k len := by
  rw [stUsbfsCopyFromPm, copyFromPmLoop_eq, Nat.shiftRight_one, LnDso.stUsbfsCopyFromPm]
  simp only [decide_eq_true_eq, and_one_ne_zero]

end PmWindow

end LnDso
