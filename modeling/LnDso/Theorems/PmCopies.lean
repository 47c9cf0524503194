import LnDso.Hw.PmWindow

/-!
# What the packet-memory copies move

`st_usbfs_copy_to_pm` rounds the length up to half-words, `st_usbfs_copy_from_pm`
rounds it down and takes the odd byte by itself. One undoes the other on the
bytes asked for, for every length.
-/

namespace LnDso

open Lib PmWindow

variable {len : Half} {m V W : Mem} {k p j : Nat}

/-- Copied out: the half-words of the buffer, the last one whole. -/
theorem copyToPm_words (k : Nat) (m : Mem) (p : Nat) (len : Half) (W : Mem) (i : Nat) :
    pmWord (PmWindow.stUsbfsCopyToPm (4 * k) m p len W) i =
      if k ≤ i ∧ i < k + (len.toNat + 1) / 2 then load16 m (p + 2 * (i - k)) else pmWord W i := by
  rw [PmWindow.stUsbfsCopyToPm, pmWord_copyToPmLoop, copyToPmLoop_apply, Nat.shiftRight_one]
  rfl

/-- Copied in: the first `len` bytes of the packet-memory buffer. -/
theorem copyFromPm_bytes (m : Mem) (p : Nat) (W : Mem) (k : Nat) (len : Half) :
    PmWindow.stUsbfsCopyFromPm m p W (4 * k) len = m.write p (pmBytes (pmWord W) k len.toNat) := by
  rw [copyFromPm_eq, stUsbfsCopyFromPm_eq]

theorem copyFromPm_outside (h : j < p ∨ p + len.toNat ≤ j) :
    PmWindow.stUsbfsCopyFromPm m p W (4 * k) len j = m j := by
  rw [copyFromPm_bytes]
  rcases h with hbelow | habove
  · exact Mem.write_below m p _ hbelow
  · exact Mem.write_above m p _ (by rw [length_pmBytes]; exact habove)

/-- Out and in again. -/
theorem copyFromPm_copyToPm (m : Mem) (p : Nat) (src : Mem) (buf k : Nat) (len : Half) (W : Mem) :
    PmWindow.stUsbfsCopyFromPm m p (PmWindow.stUsbfsCopyToPm (4 * k) src buf len W) (4 * k) len =
      m.write p (src.read buf len.toNat) := by
  rw [copyFromPm_bytes, pmWord_copyToPm, pmBytes_copyToPm, Mem.read_from, Nat.add_zero]

/-- **The copies are inverse and stay in bounds.** From any buffer, at any word of
packet memory and for any length: the words stored are the ⌈len/2⌉ from `k` on;
copied back, they are the first `len` bytes of the buffer; and whatever packet
memory holds, no byte outside the `len` bytes at the destination is stored to. -/
theorem pm_copies (src : Mem) (buf : Nat) (len : Half) (k : Nat) (W : Mem) :
    let W' := PmWindow.stUsbfsCopyToPm (4 * k) src buf len W
    (∀ i, pmWord W' i = if k ≤ i ∧ i < k + (len.toNat + 1) / 2 then load16 src (buf + 2 * (i - k))
      else pmWord W i) ∧
    (∀ (dst : Mem) (p i : Nat), i < len.toNat →
      PmWindow.stUsbfsCopyFromPm dst p W' (4 * k) len (p + i) = src (buf + i)) ∧
    ∀ (dst V : Mem) (p j : Nat), j < p ∨ p + len.toNat ≤ j →
      PmWindow.stUsbfsCopyFromPm dst p V (4 * k) len j = dst j := by
  intro W'
  refine ⟨copyToPm_words k src buf len W, fun dst p i hi => ?_,
    fun dst V p j hj => copyFromPm_outside hj⟩
  have hlen : i < (src.read buf len.toNat).length := by
    rw [Mem.length_read]
    exact hi
  rw [copyFromPm_copyToPm, Mem.write_at dst p _ hlen]
  simp [Mem.read]

end LnDso
