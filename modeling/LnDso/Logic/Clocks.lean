import LnDso.Machine.Setup

/-!
# What is known of the clocks

The registers under masks, what the events keep of that, and what the statements of
`clock_setup_in_hse_8mhz_out_72mhz` make of it.
-/

namespace LnDso

open Lib Register

variable {r : Rcc}

/-! ## What is known of the registers -/

/-- Masks, and what the registers are under them. -/
structure Known where
  cr : Word
  crIs : Word
  cfgr : Word
  cfgrIs : Word
  acr : Word
  acrIs : Word
  /-- Clocks that are on. -/
  apb2en : Word
deriving DecidableEq

namespace Known

variable {k : Known}

/-- The registers are as known; the clock in use is the internal oscillator or the
one selected. -/
structure Holds (k : Known) (r : Rcc) : Prop where
  cr : r.cr &&& k.cr = k.crIs
  cfgr : r.cfgr &&& k.cfgr = k.cfgrIs
  acr : r.acr &&& k.acr = k.acrIs
  apb2en : r.apb2en &&& k.apb2en = k.apb2en
  sws : r.cfgr &&& rccCfgrSws = 0 ∨ r.cfgr &&& rccCfgrSws = (r.cfgr &&& 3) <<< 2

/-- What is known stays so under the events: the selection is known, the clock in use
is not, the flags are known only where they are set or where the PLL is known off. -/
structure Steady (k : Known) : Prop where
  sw : k.cfgr &&& 3 = 3
  sws : k.cfgr &&& rccCfgrSws = 0
  cfgrIs : k.cfgrIs &&& k.cfgr = k.cfgrIs
  hserdy : (k.crIs ||| rccCrHserdy) &&& k.cr = k.crIs
  pllrdy : (k.cr &&& rccCrPllon = rccCrPllon ∧ k.crIs &&& rccCrPllon = 0) ∨
    (k.crIs ||| rccCrPllrdy) &&& k.cr = k.crIs

instance (k : Known) : Decidable k.Steady :=
  decidable_of_iff (k.cfgr &&& 3 = 3 ∧ k.cfgr &&& rccCfgrSws = 0 ∧ k.cfgrIs &&& k.cfgr = k.cfgrIs ∧
      (k.crIs ||| rccCrHserdy) &&& k.cr = k.crIs ∧
      ((k.cr &&& rccCrPllon = rccCrPllon ∧ k.crIs &&& rccCrPllon = 0) ∨
        (k.crIs ||| rccCrPllrdy) &&& k.cr = k.crIs))
    ⟨fun h => ⟨h.1, h.2.1, h.2.2.1, h.2.2.2.1, h.2.2.2.2⟩,
      fun h => ⟨h.sw, h.sws, h.cfgrIs, h.hserdy, h.pllrdy⟩⟩

/-- What is known while the internal oscillator is selected. -/
def Internal (k : Known) : Prop := k.cfgrIs &&& 3 = 0

instance (k : Known) : Decidable k.Internal := inferInstanceAs (Decidable (_ = _))

/-- The internal oscillator is in use as long as it is selected. -/
theorem Holds.used (h : k.Holds r) (hk : k.Steady) (hsw : k.Internal) : r.cfgr &&& rccCfgrSws = 0 := by
  have hselected : r.cfgr &&& 3 = 0 := (and_of_and h.cfgr hk.sw).trans hsw
  rcases h.sws with hzero | hsame
  · exact hzero
  · rw [hsame, hselected]
    rfl

theorem Holds.hseStarts (hk : k.Steady) (h : k.Holds r) : k.Holds r.hseStarts := by
  unfold Rcc.hseStarts
  split
  · exact { h with cr := or_and h.cr hk.hserdy }
  · exact h

theorem Holds.pllLocks (hk : k.Steady) (h : k.Holds r) : k.Holds r.pllLocks := by
  unfold Rcc.pllLocks
  split
  · next hon =>
    rcases hk.pllrdy with ⟨hmask, hoff⟩ | hset
    · -- the PLL is known to be off, so it does not lock
      exact absurd ((and_of_and h.cr hmask).trans hoff) hon.1
    · exact { h with cr := or_and h.cr hset }
  · exact h

/-- The selection as the field of the clock in use. -/
theorem selection_and (x : Word) : ((x &&& 3) <<< 2) &&& rccCfgrSws = (x &&& 3) <<< 2 := by
  rw [BitVec.shiftLeft_and_distrib, BitVec.and_assoc]
  rfl

/-- The switch writes no other field than that of the clock in use. -/
theorem switch_and (x : Word) {m : Word} (hm : m &&& rccCfgrSws = 0) :
    assign (~~~rccCfgrSws) ((x &&& 3) <<< 2) x &&& m = x &&& m := by
  refine assign_and_of_disjoint ?_ ?_
  · rw [BitVec.not_not, BitVec.and_comm, hm]
  · rw [← selection_and, BitVec.and_assoc, BitVec.and_comm rccCfgrSws, hm]
    exact BitVec.and_zero

theorem Holds.switches (hk : k.Steady) (h : k.Holds r) : k.Holds r.switches := by
  unfold Rcc.switches
  split
  · exact { h with
      cfgr := (switch_and _ hk.sws).trans h.cfgr
      sws := by
        right
        rw [switch_and _ (by decide : (3 : Word) &&& rccCfgrSws = 0)]
        exact assign_and_field (by decide) (selection_and _) }
  · exact h

/-! ## Statements -/

theorem Holds.writeCr (h : k.Holds r) {v m c : Word}
    (hsub : (k.cr ||| (v &&& ~~~rccCrFlags) ||| ~~~(BitVec.allOnes 32 ||| rccCrFlags)) &&& m = m)
    (hc : ((k.crIs &&& (BitVec.allOnes 32 ||| rccCrFlags)) ||| (v &&& ~~~rccCrFlags)) &&& m = c) :
    Holds { k with cr := m, crIs := c } (r.writeCr (r.cr ||| v)) := by
  have hassign : r.cr ||| v = assign (BitVec.allOnes 32) v r.cr := by
    rw [assign, BitVec.and_allOnes]
  refine { h with cr := ?_ }
  show Register.write rccCrFlags r.cr (r.cr ||| v) &&& m = c
  rw [hassign, write_assign]
  exact assign_and h.cr hsub hc

/-- A flag that was waited for is set. -/
theorem Holds.crWait (h : k.Holds r) {i : Nat} (hset : r.cr &&& BitVec.twoPow 32 i ≠ 0) :
    Holds { k with cr := k.cr ||| BitVec.twoPow 32 i, crIs := k.crIs ||| BitVec.twoPow 32 i } r := by
  have hflag : r.cr &&& BitVec.twoPow 32 i = BitVec.twoPow 32 i := by
    rw [BitVec.and_twoPow] at hset ⊢
    split at hset
    · next hbit => rw [if_pos hbit]
    · exact absurd rfl hset
  refine { h with cr := ?_ }
  show r.cr &&& (k.cr ||| BitVec.twoPow 32 i) = _
  rw [← h.cr, BitVec.and_or_distrib_left, hflag]

/-- A change of CFGR while the internal oscillator is selected. -/
theorem Holds.writeCfgr (h : k.Holds r) (hk : k.Steady) (hsw : k.Internal) {kept keep v m c : Word}
    (hkept : ~~~(keep ||| kept) &&& rccCfgrSws = 0) (hv : (v &&& ~~~kept) &&& rccCfgrSws = 0)
    (hsub : (k.cfgr ||| (v &&& ~~~kept) ||| ~~~(keep ||| kept)) &&& m = m)
    (hc : ((k.cfgrIs &&& (keep ||| kept)) ||| (v &&& ~~~kept)) &&& m = c) :
    Holds { k with cfgr := m, cfgrIs := c }
      { r with cfgr := Register.write kept r.cfgr (assign keep v r.cfgr) } := by
  refine { h with cfgr := ?_, sws := .inl ?_ }
  · show Register.write kept r.cfgr (assign keep v r.cfgr) &&& m = c
    rw [write_assign]
    exact assign_and h.cfgr hsub hc
  · show Register.write kept r.cfgr (assign keep v r.cfgr) &&& rccCfgrSws = 0
    rw [write_assign, assign_and_of_disjoint hkept hv, h.used hk hsw]

theorem Holds.writeAcr (h : k.Holds r) {keep v m c : Word}
    (hsub : (k.acr ||| (v &&& ~~~flashAcrPrftbs) ||| ~~~(keep ||| flashAcrPrftbs)) &&& m = m)
    (hc : ((k.acrIs &&& (keep ||| flashAcrPrftbs)) ||| (v &&& ~~~flashAcrPrftbs)) &&& m = c) :
    Holds { k with acr := m, acrIs := c } (r.writeAcr (assign keep v r.acr)) := by
  refine { h with acr := ?_ }
  show Register.write flashAcrPrftbs r.acr (assign keep v r.acr) &&& m = c
  rw [write_assign]
  exact assign_and h.acr hsub hc

theorem Holds.enable (h : k.Holds r) {bit : Word} :
    Holds { k with apb2en := k.apb2en ||| bit } { r with apb2en := r.apb2en ||| bit } := by
  refine { h with apb2en := ?_ }
  show (r.apb2en ||| bit) &&& (k.apb2en ||| bit) = k.apb2en ||| bit
  have hsome := h.apb2en
  apply BitVec.eq_of_getLsbD_eq
  intro i hi
  have hbit := congrArg (BitVec.getLsbD · i) hsome
  simp only [BitVec.getLsbD_and] at hbit
  simp only [BitVec.getLsbD_and, BitVec.getLsbD_or]
  cases hk : k.apb2en.getLsbD i <;> simp_all

end Known

variable {k : Known}

/-! ## Within the limits -/

/-- 72 MHz from the PLL are selected, 36 MHz for APB1 and 48 MHz for the USB. -/
structure Rcc.At72 (r : Rcc) : Prop where
  selected : r.sw = 2
  runs : r.Runs 2
  hclk : r.hclk 2 = 72000
  pclk1 : r.pclk1 2 = 36000
  pclk2 : r.pclk2 2 = 72000
  adcclk : r.adcclk 2 = 9000
  usbclk : r.usbclk = 48000
  latency : r.latency = 2

/-- The field of the clock in use is that of the selected one. -/
theorem Rcc.sws_of_selection {x : Word} (hsws : r.cfgr &&& rccCfgrSws = (x &&& 3) <<< 2)
    (hsw : r.cfgr &&& 3 = x &&& 3) : r.sws = r.sw := by
  rw [← hsw] at hsws
  apply BitVec.eq_of_getLsbD_eq
  intro i hi
  have hbit := congrArg (BitVec.getLsbD · (2 + i)) hsws
  rw [Rcc.sws, Rcc.sw, BitVec.getLsbD_extractLsb', BitVec.getLsbD_extractLsb']
  obtain rfl | rfl : i = 0 ∨ i = 1 := by omega
  · simpa [rccCfgrSws] using hbit
  · simpa [rccCfgrSws] using hbit

theorem Known.Holds.sws_or (h : k.Holds r) : r.sws = 0 ∨ r.sws = r.sw := by
  rcases h.sws with hzero | hsame
  · exact .inl (extract_of_and hzero (by decide))
  · exact .inr (Rcc.sws_of_selection hsame rfl)

theorem Rcc.safe_of_hsi (h : r.sws = 0) : r.Safe := by
  have hhclk : r.hclk r.sws ≤ 8000 := by
    rw [h]
    exact Nat.div_le_self 8000 r.hpre
  have hpclk1 : r.pclk1 r.sws ≤ 8000 := Nat.le_trans (Nat.div_le_self _ _) hhclk
  have hadcclk : r.adcclk r.sws ≤ 8000 :=
    Nat.le_trans (Nat.div_le_self _ _) (Nat.le_trans (Nat.div_le_self _ _) hhclk)
  exact ⟨.inl h, by omega, by omega, by omega, by omega⟩

theorem Known.Holds.safe (h : k.Holds r) (hk : k.Steady) (hsw : k.Internal) : r.Safe :=
  Rcc.safe_of_hsi (extract_of_and (h.used hk hsw) (by decide))

/-- What is known at the end of `clock_setup_in_hse_8mhz_out_72mhz`. -/
def known72 : Known := ⟨0x03030000, 0x03030000, 0x7FFFF3, 0x1DC402, 7, 2, 0⟩

theorem Rcc.at72_of_known (hcr : r.cr &&& 0x03030000 = 0x03030000)
    (hcfgr : r.cfgr &&& 0x7FFFF3 = 0x1DC402) (hacr : r.acr &&& 7 = 2) : r.At72 := by
  have hfield : ∀ {i n : Nat}, (0x7FFFF3 : Word).extractLsb' i n = BitVec.allOnes n →
      r.cfgr.extractLsb' i n = (0x1DC402 : Word).extractLsb' i n := fun h => extract_of_and hcfgr h
  have hbit : ∀ {i : Nat}, (0x7FFFF3 : Word).getLsbD i = true →
      r.cfgr.getLsbD i = (0x1DC402 : Word).getLsbD i := fun h => getLsbD_of_and hcfgr h
  have hpll : r.pllclk = 72000 := by
    rw [Rcc.pllclk, hbit (i := 16) (by decide), hbit (i := 17) (by decide),
      hfield (i := 18) (n := 4) (by decide)]
    rfl
  have hhclk : r.hclk 2 = 72000 := by
    rw [Rcc.hclk, Rcc.hpre, hfield (i := 4) (n := 4) (by decide), Rcc.sysclk, hpll]
    rfl
  have hpclk2 : r.pclk2 2 = 72000 := by
    rw [Rcc.pclk2, hhclk, hfield (i := 11) (n := 3) (by decide)]
    rfl
  have hready : r.cr &&& rccCrPllrdy = rccCrPllrdy := and_of_and hcr (by decide)
  refine ⟨hfield (by decide), .inr (.inr ⟨rfl, ?_⟩), hhclk, ?_, hpclk2, ?_, ?_,
    extract_of_and hacr (by decide)⟩
  · rw [hready]
    decide
  · rw [Rcc.pclk1, hhclk, hfield (i := 8) (n := 3) (by decide)]
    rfl
  · rw [Rcc.adcclk, hpclk2, hfield (i := 14) (n := 2) (by decide)]
    rfl
  · rw [Rcc.usbclk, Rcc.usbpre, hbit (i := 22) (by decide), hpll]
    rfl

/-- The clocks are safe too while the system clock is still to follow. -/
theorem Rcc.At72.safe (h : r.At72) (hsws : r.sws = 0 ∨ r.sws = 2) : r.Safe := by
  rcases hsws with hzero | htwo
  · exact Rcc.safe_of_hsi hzero
  · refine ⟨htwo ▸ h.runs, ?_, ?_, ?_, ?_⟩
    · rw [htwo, h.hclk, h.latency]
      decide
    · rw [htwo, h.hclk]
    · rw [htwo, h.pclk1]
    · rw [htwo, h.adcclk]
      decide

/-- What is known is steady, and safe. -/
structure Known.Good (k : Known) : Prop where
  steady : k.Steady
  safe : ∀ r, k.Holds r → r.Safe

theorem Known.Good.internal (hk : k.Steady) (hsw : k.Internal) : k.Good :=
  ⟨hk, fun _ h => h.safe hk hsw⟩

/-- The clocks `w` of the ports are on as well. -/
def knownPorts (w : Word) : Known := { known72 with apb2en := w }

theorem Known.Good.at72 (w : Word) : (knownPorts w).Good := by
  have hsteady : known72.Steady := by decide
  refine ⟨⟨hsteady.sw, hsteady.sws, hsteady.cfgrIs, hsteady.hserdy, hsteady.pllrdy⟩, fun r h => ?_⟩
  refine (Rcc.at72_of_known h.cr h.cfgr h.acr).safe ?_
  rcases h.sws with hzero | hsame
  · exact .inl (extract_of_and hzero (by decide))
  · have hmask : (0x7FFFF3 : Word) &&& 3 = 3 := by decide
    have hcfgr : r.cfgr &&& 0x7FFFF3 = 0x1DC402 := h.cfgr
    have hselected : r.cfgr &&& 3 = 2 := (and_of_and hcfgr hmask).trans (by decide)
    rw [hselected] at hsame
    exact .inr (extract_of_and hsame (by decide))

end LnDso
