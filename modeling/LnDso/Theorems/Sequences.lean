import LnDso.Machine.Ili

/-!
# The tables of the driver

`sendSequence` runs through a table of bytes. A table spells out the entries one
after the other and ends in 0; the tables that `sendSequence` reads within their
bounds are exactly these, and it does what they spell.
-/

namespace LnDso

open Lib

namespace SeqEntry

/-- An entry as the table has it. -/
def encode : SeqEntry → List Byte
  | .delay ms => [fakeDelayCommand, ms]
  | .cmdParam cmd data => cmd :: BitVec.ofNat 8 data.length :: data

/-- The entries that a table can have. -/
def Fits : SeqEntry → Prop
  | .delay _ => True
  | .cmdParam cmd data => cmd ≠ 0 ∧ cmd ≠ fakeDelayCommand ∧ data.length < 256

instance : (e : SeqEntry) → Decidable e.Fits
  | .delay _ => inferInstanceAs (Decidable True)
  | .cmdParam _ _ => inferInstanceAs (Decidable (_ ∧ _ ∧ _))

/-- A table of entries. -/
def table (entries : List SeqEntry) : List Byte := entries.flatMap encode ++ [0]

end SeqEntry

open SeqEntry

variable {data : List Byte} {entries : List SeqEntry}

theorem fakeDelayCommand_ne : fakeDelayCommand ≠ 0 := by decide

/-- The table of some entries is read, whatever follows it. -/
theorem sendSequence_table (h : ∀ e ∈ entries, e.Fits) (rest : List Byte) :
    sendSequence (table entries ++ rest) = some entries := by
  induction entries with
  | nil => cases rest <;> simp [table, sendSequence]
  | cons e entries ih =>
      obtain ⟨he, hrest⟩ := List.forall_mem_cons.mp h
      have htail := ih hrest
      cases e with
      | delay ms =>
          have hbytes : table (delay ms :: entries) ++ rest =
              fakeDelayCommand :: ms :: (table entries ++ rest) := rfl
          rw [hbytes, sendSequence, if_neg fakeDelayCommand_ne, if_pos rfl, htail]
          rfl
      | cmdParam cmd data =>
          obtain ⟨hzero, hdelay, hlen⟩ := he
          have hbytes : table (cmdParam cmd data :: entries) ++ rest =
              cmd :: BitVec.ofNat 8 data.length :: (data ++ (table entries ++ rest)) := by
            simp [table, encode]
          have hcount : (BitVec.ofNat 8 data.length).toNat = data.length := by
            rw [BitVec.toNat_ofNat]
            exact Nat.mod_eq_of_lt hlen
          rw [hbytes, sendSequence, if_neg hzero, if_neg hdelay, hcount, if_neg (by simp),
            List.drop_left, List.take_left, htail]
          rfl

/-- What is read is the table of what it spells. -/
theorem sendSequence_reads (h : sendSequence data = some entries) :
    (∀ e ∈ entries, e.Fits) ∧ ∃ rest, data = table entries ++ rest := by
  induction data using sendSequence.induct generalizing entries with
  | case1 => simp [sendSequence] at h
  | case2 =>
      obtain rfl : entries = [] := by simpa [sendSequence, eq_comm] using h
      exact ⟨by simp, [], rfl⟩
  | case3 cmd hcmd =>
      rw [sendSequence, if_neg hcmd] at h
      cases h
  | case4 len data =>
      obtain rfl : entries = [] := by simpa [sendSequence, eq_comm] using h
      exact ⟨by simp, len :: data, rfl⟩
  | case5 len data hzero ih =>
      rw [sendSequence, if_neg fakeDelayCommand_ne, if_pos rfl] at h
      obtain ⟨rest, hrest, rfl⟩ := Option.map_eq_some_iff.mp h
      obtain ⟨hfits, tail, rfl⟩ := ih hrest
      exact ⟨List.forall_mem_cons.mpr ⟨trivial, hfits⟩, tail, rfl⟩
  | case6 cmd len data hzero hdelay hshort =>
      rw [sendSequence, if_neg hzero, if_neg hdelay, if_pos hshort] at h
      cases h
  | case7 cmd len data hzero hdelay hlong ih =>
      rw [sendSequence, if_neg hzero, if_neg hdelay, if_neg hlong] at h
      obtain ⟨rest, hrest, rfl⟩ := Option.map_eq_some_iff.mp h
      obtain ⟨hfits, tail, hdrop⟩ := ih hrest
      have hlen : (data.take len.toNat).length = len.toNat :=
        List.length_take_of_le (Nat.not_lt.mp hlong)
      refine ⟨List.forall_mem_cons.mpr ⟨⟨hzero, hdelay, ?_⟩, hfits⟩, tail, ?_⟩
      · rw [hlen]
        exact len.isLt
      · have hbyte : BitVec.ofNat 8 (data.take len.toNat).length = len := by
          rw [hlen, BitVec.ofNat_toNat, BitVec.setWidth_eq]
        have hsplit : data.take len.toNat ++ (table rest ++ tail) = data := by
          rw [← hdrop, List.take_append_drop]
        have hbytes : table (cmdParam cmd (data.take len.toNat) :: rest) ++ tail =
            cmd :: BitVec.ofNat 8 (data.take len.toNat).length ::
              (data.take len.toNat ++ (table rest ++ tail)) := by
          simp [table, encode]
        rw [hbytes, hbyte, hsplit]

/-- **Exactly the tables.** `sendSequence` reads `data` within its bounds just if
it starts with the table of some entries, and then it does these. -/
theorem sendSequence_iff (data : List Byte) (entries : List SeqEntry) :
    sendSequence data = some entries ↔
      (∀ e ∈ entries, e.Fits) ∧ ∃ rest, data = table entries ++ rest := by
  constructor
  · exact sendSequence_reads
  · rintro ⟨hfits, rest, rfl⟩
    exact sendSequence_table hfits rest

/-- The entries of `dso_resetOff` and `dso_wakeOn`. -/
def resetOffEntries : List SeqEntry :=
  [.cmdParam 0x01 [], .delay 150, .cmdParam 0x28 [], .cmdParam 0x3A [0x55]]

def wakeOnEntries : List SeqEntry :=
  [.cmdParam 0x11 [], .delay 150, .cmdParam 0x29 [], .cmdParam 0x20 [], .cmdParam 0x36 [0x48],
    .cmdParam 0xB0 [0x40]]

theorem sendSequence_resetOff : sendSequence dsoResetOff = some resetOffEntries := by
  have htable : sendSequence (table resetOffEntries ++ []) = _ := sendSequence_table (by decide) []
  exact htable

theorem sendSequence_wakeOn : sendSequence dsoWakeOn = some wakeOnEntries := by
  have htable : sendSequence (table wakeOnEntries ++ []) = _ := sendSequence_table (by decide) []
  exact htable

end LnDso
