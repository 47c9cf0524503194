import LnDso.Theorems.Screen

/-!
# The logo and the animation

From any pins and any panel `runLcd` leaves the logo on black in the panel's memory,
and each `animate` the next frame below it.
-/

namespace LnDso

open Lib

variable {flash : Mem} {g : Pictures} {β τ : Board} {istat : Nat → Word} {d : Ili}

/-! ## The pictures of the program -/

/-- The pictures of `lcd.cpp`, with the sizes of their headers, and where they
are. -/
structure Pictures where
  /-- `dfu_usb` -/
  dfuUsb : Image
  dfuUsbAt : Nat
  /-- `animation_step` -/
  frame : Fin 6 → Image
  frameAt : Fin 6 → Nat
  dfuUsb_width : dfuUsb.width = 80
  dfuUsb_height : dfuUsb.height = 52
  frame_width : ∀ i, (frame i).width = 56
  frame_height : ∀ i, (frame i).height = 36

/-- They are in `flash`. -/
structure Pictures.In (flash : Mem) (g : Pictures) : Prop where
  dfuUsb : g.dfuUsb.Stored flash g.dfuUsbAt
  frame : ∀ i, (g.frame i).Stored flash (g.frameAt i)

namespace Pictures

variable (g : Pictures)

/-- `animation_step`, each pointer as the reader it is for. -/
def animationStep : List IliHS := List.ofFn fun i => IliHS.init (g.frameAt i)

/-- The screen with the logo. -/
def still : Nat → Nat → Half := g.dfuUsb.over 120 48 fun _ _ => iliColorBlack

/-- The screen after `n` calls of `animate`. -/
def screen : (n : Nat) → Nat → Nat → Half
  | 0 => g.still
  | n + 1 => (g.frame (Fin.ofNat 6 n)).over 132 140 g.still

/-- What `runLcd` and then `n` calls of `animate` can leave: the step, and the
board. -/
inductive Shown (flash : Mem) (istat : Nat → Word) (d : Ili) (β : Board) : Nat → Nat → Board → Prop
  | runLcd {fuel temp d' τ} : LnDso.runLcd (IliHS.next flash) fuel (IliHS.init g.dfuUsbAt) temp
      istat d β = some (d', τ) → Shown flash istat d β 0 0 τ
  | animate {n step τ fuel temp step' υ} : Shown flash istat d β n step τ →
      LnDso.animate (IliHS.next flash) fuel g.animationStep temp step τ = some (step', υ) →
      Shown flash istat d β (n + 1) step' υ

end Pictures

/-! ## Starting -/

/-- A cell of a ring that one word has gone round. -/
theorem fill_replicate {N n c : Nat} {w : Half} {pixels : Nat → Half} (hN : c < N) (hc : c < n) :
    Ring.fill N (List.replicate n w) pixels c = w := by
  have hlen : c < (List.replicate n w).length := by
    rw [List.length_replicate]
    exact hc
  have hlast := lastWord_lt (N := N) hc
  rw [fill_lastWord hN hlen, List.length_replicate, List.getElem?_replicate, if_pos hlast]
  rfl

/-- Words enough for the whole screen. -/
theorem takeAll_screen (color : Half) {n : Nat} (hn : 320 * 240 ≤ n) (dat : Bool) (p : Panel)
    {x y : Nat} (hx : x < 320) (hy : y < 240) :
    (p.takeAll (Bus.bytes dat (drawing 0 0 (320 - 1) (240 - 1) (List.replicate n color)))).mem x y =
      color := by
  have hzero : (0 : Half).toNat = 0 := by decide
  have hlast : ((320 : Half) - 1).toNat = 319 := by decide
  have hlast' : ((240 : Half) - 1).toNat = 239 := by decide
  have hwidth : (p.opened 0 0 (320 - 1) (240 - 1)).width = 320 := by
    rw [Panel.width, Panel.opened, hlast, hzero]
  have hheight : (p.opened 0 0 (320 - 1) (240 - 1)).height = 240 := by
    rw [Panel.height, Panel.opened, hlast', hzero]
  have hin : (p.opened 0 0 (320 - 1) (240 - 1)).InWindow x y := by
    refine ⟨?_, ?_, ?_, ?_⟩
    · exact hzero ▸ Nat.zero_le x
    · rw [hwidth, Panel.opened, hzero, Nat.zero_add]
      exact hx
    · exact hzero ▸ Nat.zero_le y
    · rw [hheight, Panel.opened, hzero, Nat.zero_add]
      exact hy
  obtain ⟨hinside, -⟩ := takeAll_drawing dat p (Nat.lt_of_lt_of_eq (Nat.succ_pos 319) hwidth.symm)
    (Nat.lt_of_lt_of_eq (Nat.succ_pos 239) hheight.symm) (List.replicate n color) x y
  rw [hinside hin, Panel.filled, hwidth, hheight]
  refine fill_replicate ?_ ?_
  · simp only [Panel.opened, hzero]
    omega
  · simp only [Panel.opened, hzero]
    omega

/-- The whole screen in one color. -/
theorem fillScreen_color (color : Half) {d : Ili} (hwidth : d.tftwidth = 320)
    (hheight : d.tftheight = 240) (dat : Bool) (p : Panel) {x y : Nat} (hx : x < 320)
    (hy : y < 240) : (p.takeAll (Bus.bytes dat (iliFillScreen color d))).mem x y = color := by
  rw [iliFillScreen_eq, hwidth, hheight]
  exact takeAll_screen color (by decide) dat p hx hy

/-- The second orientation is one of the tables' for either display. -/
theorem rotate_one (d : Ili) : ∃ t, iliRotateDisplay 1 d =
    some (⟨320, 240, d.is7789⟩, writeCmdParam iliMadctl [t]) := by
  cases hid : d.is7789 with
  | true => exact ⟨0x80 ||| 0x20, by simp [iliRotateDisplay, hid, mad7789]⟩
  | false => exact ⟨0x40 ||| 0x80 ||| 0x20, by simp [iliRotateDisplay, hid, mad9341]⟩

/-- Two panels with the same screen. -/
theorem over_congr {image : Image} {wx wy : Nat} {mem mem' : Nat → Nat → Half} {x y : Nat}
    (h : mem x y = mem' x y) : image.over wx wy mem x y = image.over wx wy mem' x y := by
  rw [Image.over, Image.over, h]

/-- A picture hides one of its size. -/
theorem over_over {image image' : Image} {wx wy : Nat} {mem : Nat → Nat → Half}
    (hwidth : image.width = image'.width) (hheight : image.height = image'.height) :
    image.over wx wy (image'.over wx wy mem) = image.over wx wy mem := by
  funext x y
  rw [Image.over, Image.over, Image.over, hwidth, hheight]
  split <;> rfl

/-- The display shows `f`: it has taken bytes that leave `f` in the memory of any
panel, whatever it held before. -/
structure Shows (β : Board) (f : Nat → Nat → Half) (τ : Board) : Prop where
  wired : ∃ dat, Wired dat τ
  takes : ∃ bs, τ.latched = β.latched ++ bs.map some ∧
    ∀ (p : Panel), ∀ x < 320, ∀ y < 240, (p.takeAll bs).mem x y = f x y

/-- A picture on top of what is shown. -/
theorem Shows.draw {f : Nat → Nat → Half} (h : Shows β f τ) {image : Image} {data : Nat}
    (hstored : image.Stored flash data) {W H : Nat} (hW : image.width = W) (hH : image.height = H)
    (hwhole : 8 ∣ W) (hfit : W * H ≤ 2 ^ 31 - 8) (wx wy : Word) (hx : wx.toNat + W ≤ 2 ^ 16)
    (hy : wy.toNat + H ≤ 2 ^ 16) (temp : Nat → Half) :
    ∃ fuel υ, drawOnBoard (IliHS.next flash) fuel (BitVec.ofNat 32 W) (BitVec.ofNat 32 H) wx wy
        (IliHS.init data) temp τ = some υ ∧ Shows β (image.over wx.toNat wy.toNat f) υ := by
  subst hW hH
  obtain ⟨dat, hdat⟩ := h.wired
  obtain ⟨bs, hlatched, hshows⟩ := h.takes
  obtain ⟨fuel, υ, hdraw, hwired, -, bs', hlatched', hover⟩ :=
    drawOnBoard_over hstored hwhole hfit hx hy temp hdat
  refine ⟨fuel, υ, hdraw, ⟨false, hwired⟩, bs ++ bs', ?_, fun p x hx y hy => ?_⟩
  · rw [hlatched', hlatched, List.map_append, List.append_assoc]
  · -- outside of the picture the screen is as it was shown before
    rw [Panel.takeAll_append, hover]
    exact over_congr (hshows p x hx y hy)

namespace Pictures

theorem In.runLcd_shows (hg : g.In flash) (istat : Nat → Word) (d : Ili) (β : Board)
    (temp : Nat → Half) :
    ∃ fuel d' τ, LnDso.runLcd (IliHS.next flash) fuel (IliHS.init g.dfuUsbAt) temp istat d β =
        some (d', τ) ∧ Shows β (g.screen 0) τ := by
  obtain ⟨τ₀, hinit, hwired, hlatched⟩ := iliInit_wired istat d β
  obtain ⟨t, hrotate⟩ := rotate_one (d.detected istat β.reads)
  let d' : Ili := ⟨320, 240, (d.detected istat β.reads).is7789⟩
  obtain ⟨hwired₁, -, hlatched₁⟩ := hwired.run (writeCmdParam iliMadctl [t])
  obtain ⟨hwired₂, -, hlatched₂⟩ := hwired₁.run (iliFillScreen iliColorBlack d')
  have hblack : Shows β (fun _ _ => iliColorBlack) (Board.bus.run (iliFillScreen iliColorBlack d')
      (Board.bus.run (writeCmdParam iliMadctl [t]) τ₀)) := by
    refine ⟨⟨_, hwired₂⟩, initBytes ++ Bus.bytes true (writeCmdParam iliMadctl [t]) ++
      Bus.bytes (Bus.line true (writeCmdParam iliMadctl [t])) (iliFillScreen iliColorBlack d'),
      ?_, fun p x hx y hy => ?_⟩
    · rw [hlatched₂, hlatched₁, hlatched, List.map_append, List.map_append, List.append_assoc,
        List.append_assoc, List.append_assoc]
    · rw [Panel.takeAll_append]
      exact fillScreen_color iliColorBlack (d := d') rfl rfl _ _ hx hy
  obtain ⟨fuel, υ, hdraw, hshows⟩ := hblack.draw hg.dfuUsb g.dfuUsb_width g.dfuUsb_height
    (by decide) (by decide) ((320 - 80) / 2) 48 (by decide) (by decide) temp
  refine ⟨fuel, d', υ, ?_, hshows⟩
  simp only [LnDso.runLcd, hinit, hrotate, Option.bind_eq_bind, Option.bind_some]
  exact congrArg (Option.bind · _) hdraw

theorem animationStep_at (g : Pictures) (n : Nat) :
    g.animationStep[n % 6]? = some (IliHS.init (g.frameAt (Fin.ofNat 6 n))) := by
  have hlt : n % 6 < 6 := Nat.mod_lt n (by decide)
  rw [animationStep, List.getElem?_ofFn, dif_pos hlt]
  rfl

/-- The next frame comes over the one before it. -/
theorem over_screen (g : Pictures) (n : Nat) :
    (g.frame (Fin.ofNat 6 n)).over 132 140 (g.screen n) = g.screen (n + 1) := by
  cases n with
  | zero => rfl
  | succ n =>
      rw [screen, screen]
      exact over_over ((g.frame_width _).trans (g.frame_width _).symm)
        ((g.frame_height _).trans (g.frame_height _).symm)

theorem In.draw_next (hg : g.In flash) {n : Nat} (h : Shows β (g.screen n) τ) (temp : Nat → Half) :
    ∃ fuel υ, drawOnBoard (IliHS.next flash) fuel 56 36 ((320 - 56) / 2) 140
        (IliHS.init (g.frameAt (Fin.ofNat 6 n))) temp τ = some υ ∧
      Shows β (g.screen (n + 1)) υ := by
  rw [← g.over_screen n]
  exact h.draw (hg.frame _) (g.frame_width _) (g.frame_height _) (by decide) (by decide)
    ((320 - 56) / 2) 140 (by decide) (by decide) temp

theorem step_next (n : Nat) : (if n % 6 + 1 ≥ 6 then 0 else n % 6 + 1) = (n + 1) % 6 := by
  split <;> omega

/-- One call of `animate`. -/
theorem In.animate_shows (hg : g.In flash) {n : Nat} (h : Shows β (g.screen n) τ)
    (temp : Nat → Half) :
    ∃ fuel υ, LnDso.animate (IliHS.next flash) fuel g.animationStep temp (n % 6) τ =
      some ((n + 1) % 6, υ) ∧ Shows β (g.screen (n + 1)) υ := by
  obtain ⟨fuel, υ, hdraw, hshows⟩ := hg.draw_next h temp
  refine ⟨fuel, υ, ?_, hshows⟩
  simp only [LnDso.animate, g.animationStep_at n, Option.bind_eq_bind, Option.bind_some, step_next]
  exact congrArg (Option.bind · _) hdraw

theorem animate_unique {next : IliHS → Option (Byte × IliHS)} {fuel fuel' : Nat}
    {steps : List IliHS} {temp : Nat → Half} {step : Nat} {r r' : Nat × Board}
    (h : LnDso.animate next fuel steps temp step τ = some r)
    (h' : LnDso.animate next fuel' steps temp step τ = some r') : r = r' := by
  obtain ⟨hs, hget, hrest⟩ := Option.bind_eq_some_iff.mp h
  obtain ⟨υ, hdraw, hstep⟩ := Option.bind_eq_some_iff.mp hrest
  obtain ⟨hs', hget', hrest'⟩ := Option.bind_eq_some_iff.mp h'
  obtain ⟨υ', hdraw', hstep'⟩ := Option.bind_eq_some_iff.mp hrest'
  cases Option.some.inj (hget.symm.trans hget')
  cases drawOnBoard_unique hdraw hdraw'
  exact Option.some.inj (hstep.symm.trans hstep')

theorem runLcd_unique {next : IliHS → Option (Byte × IliHS)} {fuel fuel' : Nat} {hs : IliHS}
    {temp : Nat → Half} {r r' : Ili × Board}
    (h : LnDso.runLcd next fuel hs temp istat d β = some r)
    (h' : LnDso.runLcd next fuel' hs temp istat d β = some r') : r = r' := by
  obtain ⟨i, hinit, hrest⟩ := Option.bind_eq_some_iff.mp h
  obtain ⟨o, hrotate, hrest⟩ := Option.bind_eq_some_iff.mp hrest
  obtain ⟨υ, hdraw, hlast⟩ := Option.bind_eq_some_iff.mp hrest
  obtain ⟨i', hinit', hrest'⟩ := Option.bind_eq_some_iff.mp h'
  obtain ⟨o', hrotate', hrest'⟩ := Option.bind_eq_some_iff.mp hrest'
  obtain ⟨υ', hdraw', hlast'⟩ := Option.bind_eq_some_iff.mp hrest'
  cases Option.some.inj (hinit.symm.trans hinit')
  cases Option.some.inj (hrotate.symm.trans hrotate')
  cases drawOnBoard_unique hdraw hdraw'
  exact Option.some.inj (hlast.symm.trans hlast')

/-- What a run can leave. -/
theorem Shown.shows (hg : g.In flash) {n step : Nat}
    (h : g.Shown flash istat d β n step τ) :
    step = n % 6 ∧ Shows β (g.screen n) τ := by
  induction h with
  | @runLcd fuel temp d' τ hrun =>
      obtain ⟨fuel', d'', υ, hrun', hshows⟩ := hg.runLcd_shows istat d β temp
      cases runLcd_unique hrun hrun'
      exact ⟨rfl, hshows⟩
  | @animate n step τ fuel temp step' υ _ hrun ih =>
      obtain ⟨rfl, hτ⟩ := ih
      obtain ⟨fuel', υ', hrun', hshows⟩ := hg.animate_shows hτ temp
      cases animate_unique hrun hrun'
      exact ⟨rfl, hshows⟩

/-- Every number of frames can be drawn. -/
theorem In.exists_shown (hg : g.In flash) (istat : Nat → Word) (d : Ili) (β : Board) (n : Nat) :
    ∃ step τ, g.Shown flash istat d β n step τ := by
  induction n with
  | zero =>
      obtain ⟨fuel, d', τ, hrun, -⟩ := hg.runLcd_shows istat d β fun _ => 0
      exact ⟨0, τ, .runLcd hrun⟩
  | succ n ih =>
      obtain ⟨step, τ, hshown⟩ := ih
      obtain ⟨rfl, hshows⟩ := hshown.shows hg
      obtain ⟨fuel, υ, hrun, -⟩ := hg.animate_shows hshows fun _ => 0
      exact ⟨_, υ, .animate hshown hrun⟩

end Pictures

/-- From any pins and any panel, and whatever the display says it is: starting
leaves the logo on black, `n` calls of `animate` the frame of their last one
below it, and the next call always returns. -/
theorem screen_shows (flash : Mem) (g : Pictures) (hg : g.In flash) (istat : Nat → Word) (d : Ili)
    (β : Board) :
    (∀ temp, ∃ fuel d' τ, runLcd (IliHS.next flash) fuel (IliHS.init g.dfuUsbAt) temp istat d β =
      some (d', τ)) ∧
    ∀ n step τ, g.Shown flash istat d β n step τ →
      step = n % 6 ∧
      (∃ bs, τ.latched = β.latched ++ bs.map some ∧
        ∀ (p : Panel), ∀ x < 320, ∀ y < 240, (p.takeAll bs).mem x y = g.screen n x y) ∧
      ∀ temp, ∃ fuel r, animate (IliHS.next flash) fuel g.animationStep temp step τ = some r := by
  constructor
  · intro temp
    obtain ⟨fuel, d', τ, hrun, -⟩ := hg.runLcd_shows istat d β temp
    exact ⟨fuel, d', τ, hrun⟩
  · intro n step τ h
    obtain ⟨rfl, hshows⟩ := h.shows hg
    refine ⟨rfl, hshows.takes, fun temp => ?_⟩
    obtain ⟨fuel, υ, hrun, -⟩ := hg.animate_shows hshows temp
    exact ⟨fuel, _, hrun⟩

/-! ## Any pictures -/

/-- One picture after the other from `base` on, a kilobyte each, as literals. -/
def kilobytes (base : Nat) (image : Nat → Image) : Mem := fun j =>
  (Lzss.encode 8 4 (Lzss.literals ((convert (image ((j - base) / 1024))).getD []))).getD
    ((j - base) % 1024) 0

theorem kilobytes_tokens (base : Nat) (image : Nat → Image) {k : Nat}
    (hfits : (image k).width * (image k).height ≤ 4160) :
    ∃ toks, convert (image k) = some (Lzss.meaning toks) ∧ (∀ t ∈ toks, t.Fits 8 4) ∧
      (kilobytes base image).read (base + 1024 * k) (Lzss.encode 8 4 toks).length =
        Lzss.encode 8 4 toks ∧
      (Lzss.encode 8 4 toks).length ≤ 1024 := by
  obtain ⟨out, hout, hlen, -⟩ := convert_stream (image k)
  have hshort : (Lzss.encode 8 4 (Lzss.literals out)).length ≤ 1024 := by
    rw [Lzss.length_encode_literals]
    omega
  refine ⟨Lzss.literals out, ?_, Lzss.literals_fit out, ?_, hshort⟩
  · rw [Lzss.meaning_literals, hout]
  · refine List.ext_getElem? fun i => ?_
    by_cases hi : i < (Lzss.encode 8 4 (Lzss.literals out)).length
    · have hdiv : (base + 1024 * k + i - base) / 1024 = k := by omega
      have hmod : (base + 1024 * k + i - base) % 1024 = i := by omega
      rw [Mem.read, List.getElem?_map, List.getElem?_range hi, Option.map_some, kilobytes, hdiv,
        hmod, hout, Option.getD_some, List.getD_eq_getElem?_getD, List.getElem?_eq_getElem hi,
        Option.getD_some]
    · rw [List.getElem?_eq_none (by simpa [Mem.read] using hi), List.getElem?_eq_none (by omega)]

theorem kilobytes_stored (base : Nat) (image : Nat → Image) {k : Nat}
    (hfits : (image k).width * (image k).height ≤ 4160) :
    (image k).Stored (kilobytes base image) (base + 1024 * k) := by
  obtain ⟨toks, hout, hfit, hread, -⟩ := kilobytes_tokens base image hfits
  exact stored_encode _ hout hfit hread

/-- Any pictures of the two sizes. -/
def Pictures.ofImages (base : Nat) (image : Nat → Image)
    (hlogo : (image 6).width = 80 ∧ (image 6).height = 52)
    (hframe : ∀ k < 6, (image k).width = 56 ∧ (image k).height = 36) : Pictures where
  dfuUsb := image 6
  dfuUsbAt := base + 1024 * 6
  frame i := image i
  frameAt i := base + 1024 * i
  dfuUsb_width := hlogo.1
  dfuUsb_height := hlogo.2
  frame_width i := (hframe i i.isLt).1
  frame_height i := (hframe i i.isLt).2

theorem Pictures.ofImages_in {base : Nat} {image : Nat → Image}
    {hlogo : (image 6).width = 80 ∧ (image 6).height = 52}
    {hframe : ∀ k < 6, (image k).width = 56 ∧ (image k).height = 36} :
    (Pictures.ofImages base image hlogo hframe).In (kilobytes base image) where
  dfuUsb := kilobytes_stored base image (by rw [hlogo.1, hlogo.2])
  frame i := kilobytes_stored base image (by
    rw [(hframe i i.isLt).1, (hframe i i.isLt).2]
    decide)

/-- The logo and the frames as bars. -/
def barred (k : Nat) : Image := if k = 6 then bars 80 52 else bars 56 36

theorem barred_frame {k : Nat} (hk : k < 6) : (barred k).width = 56 ∧ (barred k).height = 36 := by
  rw [barred, if_neg (Nat.ne_of_lt hk)]
  exact ⟨rfl, rfl⟩

def barredPictures (base : Nat) : Pictures :=
  .ofImages base barred ⟨rfl, rfl⟩ fun _ hk => barred_frame hk

/-- Eight frames on: the step variable has gone round, and the screen shows the
second picture. -/
theorem screen_shows_bars : ∃ τ,
    (barredPictures 0).Shown (kilobytes 0 barred) (fun _ => 0) .initial listening 8 2 τ ∧
      ∃ bs, τ.latched = listening.latched ++ bs.map some ∧
        ∀ (p : Panel), ∀ x < 320, ∀ y < 240,
          (p.takeAll bs).mem x y = (barredPictures 0).screen 8 x y := by
  have hin : (barredPictures 0).In (kilobytes 0 barred) := Pictures.ofImages_in
  obtain ⟨step, τ, hshown⟩ := hin.exists_shown (fun _ => 0) .initial listening 8
  obtain ⟨rfl, hshows, -⟩ :=
    (screen_shows (kilobytes 0 barred) (barredPictures 0) hin (fun _ => 0) .initial listening).2 8
      step τ hshown
  exact ⟨τ, hshown, hshows⟩

end LnDso
