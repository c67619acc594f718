import Stonemite.Lib.HalfAway

/-!
# The strip of thumbnails

`compute` cuts a strip at an edge of the monitor's work area into one cell for each thumbnail. A thumbnail is at least 40
or 60 pixels of the desktop's scale and at most a quarter of the monitor, and the two bounds come from different inputs.
The numbers are exact. `Fits` is the condition on the input, clamp by clamp; `LaidOut` is what the result has to satisfy,
and `laidOut_iff` the equivalence for both orientations, with one lemma for the strip and one for its cells.
-/

namespace Stonemite.Overlay

/-! ### Rectangles -/

/-- `RECT`, whose right and bottom edges lie outside. -/
structure Rect where
  left : Int
  top : Int
  right : Int
  bottom : Int
deriving DecidableEq, Repr

namespace Rect

/-- From the left edge to the right one. -/
def width (r : Rect) : Int := r.right - r.left
/-- From the top edge to the bottom one. -/
def height (r : Rect) : Int := r.bottom - r.top

/-- The pixels of a rectangle. -/
def points (r : Rect) : Set (Int × Int) := Set.Ico r.left r.right ×ˢ Set.Ico r.top r.bottom

/-- Something of the rectangle can be seen. -/
def Positive (r : Rect) : Prop := r.left < r.right ∧ r.top < r.bottom

instance (r : Rect) : Decidable r.Positive := inferInstanceAs (Decidable (_ ∧ _))

theorem disjoint_of_right_le {r r' : Rect} (h : r.right ≤ r'.left) : Disjoint r.points r'.points := by
  rw [Set.disjoint_left]
  rintro ⟨x, y⟩ hr hr'
  exact absurd (hr.1.2.trans_le h) (not_lt.mpr hr'.1.1)

theorem disjoint_of_bottom_le {r r' : Rect} (h : r.bottom ≤ r'.top) : Disjoint r.points r'.points := by
  rw [Set.disjoint_left]
  rintro ⟨x, y⟩ hr hr'
  exact absurd (hr.2.2.trans_le h) (not_lt.mpr hr'.2.1)

end Rect

/-! ### The computation -/

/-- The edge of the monitor that the strip lies on. -/
inductive PipEdge
  | right
  | left
  | top
  | bottom
deriving DecidableEq, Repr

/-- The place and the size that the user gave a slot. -/
structure PipPosition where
  slot : Nat
  x : Int
  y : Int
  width : UInt32
  height : UInt32
deriving DecidableEq, Repr

def maxStripWidthFraction : ℚ := 25 / 100
def minStripWidthFraction : ℚ := 5 / 100

/-- A length of the settings in pixels of the monitor. -/
def scale (value : Int) (dpiScale : ℚ) : Int := roundAway (value * dpiScale)

/-- `LayoutInput`, with the monitor's scale as an exact number and its coordinates as integers without a bound: an
overflow of `i32`, and the `pip_count as i32` of a count beyond it, are not modelled. -/
structure LayoutInput where
  dpiScale : ℚ
  monitorRect : Rect
  pipCount : Nat
  pipEdge : PipEdge
  customStripWidth : Option Int
  customPositions : List PipPosition
  gap : Int
  border : Int

/-- The rectangles of the pips and the size of the strip. -/
structure LayoutPlan where
  rects : List Rect
  stripWidth : Int
  stripHeight : Int
deriving DecidableEq, Repr

/-- Where the strip starts and the size of its cells. -/
structure Strip where
  x : Int
  y : Int
  cellWidth : Int
  cellHeight : Int
deriving DecidableEq, Repr

namespace LayoutInput
variable (input : LayoutInput)

/-- The strip runs down the left or the right edge. -/
def vertical : Bool := input.pipEdge = .right || input.pipEdge = .left

/-- What a cell gets of a length of the monitor. -/
def cellShare (length : Int) : Int :=
  (length - max (input.pipCount - 1 : Int) 0 * input.gap).tdiv input.pipCount

/-- The strip at the left or the right edge, if there is room for one. -/
def verticalStrip : Option Strip := do
  let monitorWidth := input.monitorRect.width
  let maxStripWidth := roundAway (monitorWidth * maxStripWidthFraction)
  let minStripWidth := roundAway (monitorWidth * minStripWidthFraction)
  let autoMaxThumbnailWidth := maxStripWidth - 2 * input.border
  let autoMaxThumbnailHeight := roundAway (autoMaxThumbnailWidth * 9 / 16)
  let autoMaxCellHeight := input.cellShare input.monitorRect.height
  let autoThumbnailHeight ←
    clamp (autoMaxCellHeight - 2 * input.border) (scale 40 input.dpiScale) autoMaxThumbnailHeight
  let autoThumbnailWidth := roundAway (autoThumbnailHeight * 16 / 9)
  let autoStripWidth := autoThumbnailWidth + 2 * input.border
  let effectiveWidth ←
    input.customStripWidth.elim (some autoStripWidth) fun width => clamp width minStripWidth maxStripWidth
  let thumbnailWidth := effectiveWidth - 2 * input.border
  let thumbnailHeight := roundAway (thumbnailWidth * 9 / 16)
  let cellWidth := effectiveWidth
  let cellHeight := thumbnailHeight + 2 * input.border
  let x := if input.pipEdge = .left then input.monitorRect.left else input.monitorRect.right - cellWidth
  some ⟨x, input.monitorRect.top, cellWidth, cellHeight⟩

/-- The strip at the top or the bottom edge, if there is room for one. -/
def horizontalStrip : Option Strip := do
  let monitorHeight := input.monitorRect.height
  let maxStripHeight := roundAway (monitorHeight * maxStripWidthFraction)
  let minStripHeight := roundAway (monitorHeight * minStripWidthFraction)
  let autoMaxThumbnailHeight := maxStripHeight - 2 * input.border
  let autoMaxThumbnailWidth := roundAway (autoMaxThumbnailHeight * 16 / 9)
  let autoMaxCellWidth := input.cellShare input.monitorRect.width
  let autoThumbnailWidth ←
    clamp (autoMaxCellWidth - 2 * input.border) (scale 60 input.dpiScale) autoMaxThumbnailWidth
  let autoThumbnailHeight := roundAway (autoThumbnailWidth * 9 / 16)
  let autoCellHeight := autoThumbnailHeight + 2 * input.border
  let effectiveHeight ←
    input.customStripWidth.elim (some autoCellHeight) fun height => clamp height minStripHeight maxStripHeight
  let thumbnailHeight := effectiveHeight - 2 * input.border
  let thumbnailWidth := roundAway (thumbnailHeight * 16 / 9)
  let cellWidth := thumbnailWidth + 2 * input.border
  let cellHeight := effectiveHeight
  let totalWidth := input.pipCount * cellWidth + max (input.pipCount - 1 : Int) 0 * input.gap
  let y := if input.pipEdge = .top then input.monitorRect.top else input.monitorRect.bottom - cellHeight
  some ⟨input.monitorRect.right - totalWidth, y, cellWidth, cellHeight⟩

/-- The strip at the edge of the settings. -/
def strip : Option Strip := if input.vertical then input.verticalStrip else input.horizontalStrip

/-- The cell of an index. -/
def cell (strip : Strip) (index : Nat) : Rect :=
  let xOffset := if input.vertical then 0 else index * (strip.cellWidth + input.gap)
  let yOffset := if input.vertical then index * (strip.cellHeight + input.gap) else 0
  { left := strip.x + xOffset
    top := strip.y + yOffset
    right := strip.x + xOffset + strip.cellWidth
    bottom := strip.y + yOffset + strip.cellHeight }

end LayoutInput

/-- The rectangle that the user gave. -/
def PipPosition.rect (position : PipPosition) : Rect where
  left := position.x
  top := position.y
  right := position.x + position.width.toInt32.toInt
  bottom := position.y + position.height.toInt32.toInt

/-- The loop body over the custom positions. -/
def placeCustom (rects : List Rect) (position : PipPosition) : List Rect :=
  if position.slot < rects.length then rects.set position.slot position.rect else rects

/-- From the near side of the first rectangle to the far side of the last. -/
def extent (far near : Rect → Int) (rects : List Rect) : Int :=
  match rects.head?, rects.getLast? with
  | some first, some last => far last - near first
  | _, _ => 0

/-- `compute`, without a plan when a clamp panics. No sum or product overflows here. -/
def compute (input : LayoutInput) : Option LayoutPlan :=
  if input.pipCount = 0 then some ⟨[], 0, 0⟩
  else do
    let strip ← input.strip
    let rects := (List.range input.pipCount).map (input.cell strip)
    some {
      rects := input.customPositions.foldl placeCustom rects
      stripWidth := extent (·.right) (·.left) rects
      stripHeight := extent (·.bottom) (·.top) rects }

/-! ### What a layout should be -/

/-- There is a plan with one rectangle for each thumbnail, the automatic cells are disjoint and not empty, and custom
positions change nothing but their slots. -/
def LaidOut (input : LayoutInput) : Prop :=
  ∃ plan automatic, compute input = some plan ∧ compute { input with customPositions := [] } = some automatic ∧
    plan.rects.length = input.pipCount ∧
    automatic.rects.Pairwise (fun r r' => Disjoint r.points r'.points) ∧ (∀ r ∈ automatic.rects, r.Positive) ∧
    (∀ slot, (∀ position ∈ input.customPositions, position.slot ≠ slot) →
      plan.rects[slot]? = automatic.rects[slot]?) ∧
    plan.stripWidth = automatic.stripWidth ∧ plan.stripHeight = automatic.stripHeight

namespace LayoutInput
variable (input : LayoutInput)

/-- A quarter of the monitor holds a thumbnail of the least size, and a custom strip is not lost in its border. -/
def Fits : Prop :=
  if input.vertical then
    scale 40 input.dpiScale ≤
        roundAway (((roundAway (input.monitorRect.width / 4) - 2 * input.border : Int) : ℚ) * 9 / 16) ∧
      ∀ width ∈ input.customStripWidth, 0 < max width (roundAway (input.monitorRect.width / 20))
  else
    scale 60 input.dpiScale ≤
        roundAway (((roundAway (input.monitorRect.height / 4) - 2 * input.border : Int) : ℚ) * 16 / 9) ∧
      ∀ height ∈ input.customStripWidth,
        28 * input.border + 9 < 32 * max height (roundAway (input.monitorRect.height / 20))

/-! ### The strip -/

variable {input : LayoutInput} {strip : Strip}

theorem quarter (length : Int) : (length : ℚ) * maxStripWidthFraction = length / 4 := by
  rw [maxStripWidthFraction]
  ring

theorem twentieth (length : Int) : (length : ℚ) * minStripWidthFraction = length / 20 := by
  rw [minStripWidthFraction]
  ring

theorem strip_limits {length : Int} (h : 0 ≤ length) :
    roundAway ((length : ℚ) / 20) ≤ roundAway ((length : ℚ) / 4) := by
  have hlength : (0 : ℚ) ≤ length := by exact_mod_cast h
  exact roundAway_mono (by linarith)

theorem scale_nonneg {value : Int} (hvalue : 0 ≤ value) (hdpi : 0 < input.dpiScale) :
    0 ≤ scale value input.dpiScale := by
  have hq : (0 : ℚ) ≤ value := by exact_mod_cast hvalue
  exact roundAway_nonneg (mul_nonneg hq hdpi.le)

theorem borders_le {side border : Int} {ratio : ℚ} (hratio : 9 / 16 ≤ ratio)
    (h : 0 ≤ roundAway (((side - 2 * border : Int) : ℚ) * ratio)) : 2 * border ≤ side := by
  by_contra hlt
  have hneg : ((side - 2 * border : Int) : ℚ) ≤ -1 := by
    have hint : side - 2 * border ≤ -1 := by omega
    exact_mod_cast hint
  have hround := roundAway_nonneg_iff.mp h
  nlinarith

theorem cellHeight_pos {width border : Int} (hwidth : 0 < width) (hborder : 0 < border) :
    0 < roundAway (((width - 2 * border : Int) : ℚ) * 9 / 16) + 2 * border := by
  have hq : (1 : ℚ) ≤ width := by exact_mod_cast hwidth
  have hb : (1 : ℚ) ≤ border := by exact_mod_cast hborder
  have h := (lt_roundAway_iff (x := ((width - 2 * border : Int) : ℚ) * 9 / 16) (n := -(2 * border)) (by omega)).mpr
  push_cast at h
  have hlow := h (by linarith)
  push_cast at hlow ⊢
  omega

theorem cellWidth_pos_iff {height border : Int} (hborder : 0 < border) :
    0 < roundAway (((height - 2 * border : Int) : ℚ) * 16 / 9) + 2 * border ↔ 28 * border + 9 < 32 * height := by
  have h := lt_roundAway_iff (x := ((height - 2 * border : Int) : ℚ) * 16 / 9) (n := -(2 * border)) (by omega)
  have hround : 0 < roundAway (((height - 2 * border : Int) : ℚ) * 16 / 9) + 2 * border ↔
      -(2 * border) < roundAway (((height - 2 * border : Int) : ℚ) * 16 / 9) := by omega
  rw [hround, h]
  have hcast : 28 * border + 9 < 32 * height ↔ (28 * border + 9 : ℚ) < 32 * height := by exact_mod_cast Iff.rfl
  rw [hcast]
  push_cast
  constructor <;> intro hlt <;> linarith

theorem elim_clamp {custom : Option Int} {auto lower upper : Int} (h : lower ≤ upper) :
    custom.elim (some auto) (fun size => clamp size lower upper) =
      some (custom.elim auto fun size => max lower (min size upper)) := by
  cases custom with
  | none => rfl
  | some size => exact clamp_of_le h

theorem exists_some_iff {α : Type} {a : α} {P : α → Prop} : (∃ x, some a = some x ∧ P x) ↔ P a :=
  ⟨fun ⟨_, h, hP⟩ => Option.some.inj h ▸ hP, fun h => ⟨a, rfl, h⟩⟩

theorem verticalStrip_spec (hwidth : 0 < input.monitorRect.width) (hdpi : 0 < input.dpiScale)
    (hborder : 0 < input.border) :
    (∃ strip, input.verticalStrip = some strip ∧ 0 < strip.cellWidth ∧ 0 < strip.cellHeight) ↔
      scale 40 input.dpiScale ≤
          roundAway (((roundAway (input.monitorRect.width / 4) - 2 * input.border : Int) : ℚ) * 9 / 16) ∧
        ∀ width ∈ input.customStripWidth, 0 < max width (roundAway (input.monitorRect.width / 20)) := by
  have hlimits := strip_limits hwidth.le
  have hscale : 0 ≤ scale 40 input.dpiScale := scale_nonneg (by decide) hdpi
  unfold verticalStrip
  simp only [quarter, twentieth, elim_clamp hlimits]
  generalize roundAway ((input.monitorRect.width : ℚ) / 4) = upper at hlimits ⊢
  generalize roundAway ((input.monitorRect.width : ℚ) / 20) = lower at hlimits ⊢
  generalize scale 40 input.dpiScale = least at hscale ⊢
  by_cases hbounds : least ≤ roundAway (((upper - 2 * input.border : Int) : ℚ) * 9 / 16)
  · rw [and_iff_right hbounds, clamp_of_le hbounds]
    have hupper : 2 * input.border ≤ upper := by
      refine borders_le (le_refl (9 / 16 : ℚ)) ?_
      rw [← mul_div_assoc]
      exact hscale.trans hbounds
    generalize hauto : max least (min (input.cellShare input.monitorRect.height - 2 * input.border) _) = auto
    have hautoNonneg : 0 ≤ auto := by
      rw [← hauto]
      exact hscale.trans (le_max_left _ _)
    refine exists_some_iff.trans ?_
    dsimp only
    cases input.customStripWidth with
    | none =>
      refine iff_of_true ?_ fun width hmem => absurd hmem (Option.not_mem_none width)
      have hthumbnail : (0 : ℚ) ≤ (auto : ℚ) * 16 / 9 := by
        have hq : (0 : ℚ) ≤ auto := by exact_mod_cast hautoNonneg
        linarith
      have hwidth := roundAway_nonneg hthumbnail
      exact ⟨by dsimp only [Option.elim]; omega, cellHeight_pos (by dsimp only [Option.elim]; omega) hborder⟩
    | some width =>
      refine (and_iff_left_of_imp fun h => cellHeight_pos h hborder).trans ?_
      simp only [Option.elim, Option.mem_some_iff, forall_eq']
      omega
  · refine iff_of_false ?_ fun h => hbounds h.1
    rintro ⟨strip, hstrip, -⟩
    rw [clamp, if_neg hbounds] at hstrip
    cases hstrip

theorem horizontalStrip_spec (hheight : 0 < input.monitorRect.height) (hdpi : 0 < input.dpiScale)
    (hborder : 0 < input.border) :
    (∃ strip, input.horizontalStrip = some strip ∧ 0 < strip.cellWidth ∧ 0 < strip.cellHeight) ↔
      scale 60 input.dpiScale ≤
          roundAway (((roundAway (input.monitorRect.height / 4) - 2 * input.border : Int) : ℚ) * 16 / 9) ∧
        ∀ height ∈ input.customStripWidth,
          28 * input.border + 9 < 32 * max height (roundAway (input.monitorRect.height / 20)) := by
  have hlimits := strip_limits hheight.le
  have hscale : 0 ≤ scale 60 input.dpiScale := scale_nonneg (by decide) hdpi
  unfold horizontalStrip
  simp only [quarter, twentieth, elim_clamp hlimits]
  generalize roundAway ((input.monitorRect.height : ℚ) / 4) = upper at hlimits ⊢
  generalize roundAway ((input.monitorRect.height : ℚ) / 20) = lower at hlimits ⊢
  generalize scale 60 input.dpiScale = least at hscale ⊢
  by_cases hbounds : least ≤ roundAway (((upper - 2 * input.border : Int) : ℚ) * 16 / 9)
  · rw [and_iff_right hbounds, clamp_of_le hbounds]
    have hupper : 2 * input.border ≤ upper := by
      refine borders_le (show (9 / 16 : ℚ) ≤ 16 / 9 by norm_num) ?_
      rw [← mul_div_assoc]
      exact hscale.trans hbounds
    generalize hauto : max least (min (input.cellShare input.monitorRect.width - 2 * input.border) _) = auto
    have hautoNonneg : 0 ≤ auto := by
      rw [← hauto]
      exact hscale.trans (le_max_left _ _)
    refine exists_some_iff.trans ?_
    dsimp only
    rw [cellWidth_pos_iff hborder]
    cases input.customStripWidth with
    | none =>
      refine iff_of_true ?_ fun height hmem => absurd hmem (Option.not_mem_none height)
      have hthumbnail : (0 : ℚ) ≤ (auto : ℚ) * 9 / 16 := by
        have hq : (0 : ℚ) ≤ auto := by exact_mod_cast hautoNonneg
        linarith
      have hheight := roundAway_nonneg hthumbnail
      dsimp only [Option.elim]
      omega
    | some height =>
      simp only [Option.elim, Option.mem_some_iff, forall_eq']
      omega
  · refine iff_of_false ?_ fun h => hbounds h.1
    rintro ⟨strip, hstrip, -⟩
    rw [clamp, if_neg hbounds] at hstrip
    cases hstrip

/-- There is a strip of cells that are not empty exactly when the input fits. -/
theorem strip_spec (hwork : input.monitorRect.Positive) (hdpi : 0 < input.dpiScale) (hborder : 0 < input.border) :
    (∃ strip, input.strip = some strip ∧ 0 < strip.cellWidth ∧ 0 < strip.cellHeight) ↔ input.Fits := by
  have hwidth : 0 < input.monitorRect.width := sub_pos.mpr hwork.1
  have hheight : 0 < input.monitorRect.height := sub_pos.mpr hwork.2
  unfold LayoutInput.strip Fits
  cases input.vertical with
  | true => exact verticalStrip_spec hwidth hdpi hborder
  | false => exact horizontalStrip_spec hheight hdpi hborder

/-! ### The cells -/

theorem cell_positive_iff (index : Nat) :
    (input.cell strip index).Positive ↔ 0 < strip.cellWidth ∧ 0 < strip.cellHeight := by
  unfold Rect.Positive cell
  dsimp only
  constructor
  · rintro ⟨hwidth, hheight⟩
    constructor <;> omega
  · rintro ⟨hwidth, hheight⟩
    constructor <;> omega

theorem cells_disjoint (hgap : 0 ≤ input.gap) (hwidth : 0 < strip.cellWidth) (hheight : 0 < strip.cellHeight)
    {i j : Nat} (hij : i < j) : Disjoint (input.cell strip i).points (input.cell strip j).points := by
  have hstep (size : Int) (hsize : 0 < size) : i * (size + input.gap) + size ≤ j * (size + input.gap) := by
    have hnext : ((i : Int) + 1) * (size + input.gap) ≤ j * (size + input.gap) :=
      mul_le_mul_of_nonneg_right (by omega) (by omega)
    linarith
  cases hvertical : input.vertical with
  | true =>
    have hrow := hstep strip.cellHeight hheight
    apply Rect.disjoint_of_bottom_le
    unfold cell
    rw [hvertical]
    dsimp only
    rw [if_pos rfl, if_pos rfl]
    omega
  | false =>
    have hcolumn := hstep strip.cellWidth hwidth
    apply Rect.disjoint_of_right_le
    unfold cell
    rw [hvertical]
    dsimp only
    rw [if_neg Bool.false_ne_true, if_neg Bool.false_ne_true]
    omega

end LayoutInput

/-! ### Custom positions -/

section custom
variable {positions : List PipPosition} {rects : List Rect}

theorem length_placeCustom (position : PipPosition) : (placeCustom rects position).length = rects.length := by
  unfold placeCustom
  split_ifs
  · exact List.length_set
  · rfl

theorem getElem?_placeCustom {position : PipPosition} {slot : Nat} (h : position.slot ≠ slot) :
    (placeCustom rects position)[slot]? = rects[slot]? := by
  unfold placeCustom
  split_ifs
  · exact List.getElem?_set_ne h
  · rfl

theorem length_placeCustoms : (positions.foldl placeCustom rects).length = rects.length := by
  induction positions generalizing rects with
  | nil => rfl
  | cons position positions ih => exact ih.trans (length_placeCustom position)

theorem getElem?_placeCustoms {slot : Nat} (h : ∀ position ∈ positions, position.slot ≠ slot) :
    (positions.foldl placeCustom rects)[slot]? = rects[slot]? := by
  induction positions generalizing rects with
  | nil => rfl
  | cons position positions ih =>
    obtain ⟨hslot, hslots⟩ := List.forall_mem_cons.mp h
    exact (ih hslots).trans (getElem?_placeCustom hslot)

end custom

/-! ### The layout -/

section layout
variable {input : LayoutInput} {plan : LayoutPlan}

theorem compute_of_strip (hcount : input.pipCount ≠ 0) {strip : Strip} (hstrip : input.strip = some strip) :
    compute input = some {
      rects := input.customPositions.foldl placeCustom ((List.range input.pipCount).map (input.cell strip))
      stripWidth := extent (·.right) (·.left) ((List.range input.pipCount).map (input.cell strip))
      stripHeight := extent (·.bottom) (·.top) ((List.range input.pipCount).map (input.cell strip)) } := by
  rw [compute, if_neg hcount, hstrip]
  rfl

theorem strip_of_compute (hcount : input.pipCount ≠ 0) (h : compute input = some plan) :
    ∃ strip, input.strip = some strip := by
  rw [compute, if_neg hcount] at h
  obtain ⟨strip, hstrip, -⟩ := Option.bind_eq_some_iff.mp h
  exact ⟨strip, hstrip⟩

end layout

/-- A layout is as it should be exactly when there is nothing to lay out or the input fits. -/
theorem laidOut_iff (input : LayoutInput) (hwork : input.monitorRect.Positive) (hdpi : 0 < input.dpiScale)
    (hgap : 0 ≤ input.gap) (hborder : 0 < input.border) : LaidOut input ↔ input.pipCount = 0 ∨ input.Fits := by
  by_cases hcount : input.pipCount = 0
  · refine iff_of_true ?_ (.inl hcount)
    exact ⟨⟨[], 0, 0⟩, ⟨[], 0, 0⟩, if_pos hcount, if_pos hcount, hcount.symm, .nil, nofun, fun _ _ => rfl, rfl, rfl⟩
  rw [or_iff_right hcount, ← LayoutInput.strip_spec hwork hdpi hborder]
  constructor
  · rintro ⟨plan, automatic, hplan, hautomatic, -, -, hpositive, -⟩
    obtain ⟨strip, hstrip⟩ := strip_of_compute hcount hplan
    have hcells := @compute_of_strip { input with customPositions := [] } hcount _ hstrip
    rw [hautomatic] at hcells
    obtain rfl := Option.some.inj hcells
    have hfirst : (input.cell strip 0).Positive :=
      hpositive _ (List.mem_map.mpr ⟨0, List.mem_range.mpr (Nat.pos_of_ne_zero hcount), rfl⟩)
    exact ⟨strip, hstrip, (LayoutInput.cell_positive_iff 0).mp hfirst⟩
  · rintro ⟨strip, hstrip, hwidth, hheight⟩
    refine ⟨_, _, compute_of_strip hcount hstrip,
      @compute_of_strip { input with customPositions := [] } hcount _ hstrip, ?_, ?_, ?_, ?_, rfl, rfl⟩
    · rw [length_placeCustoms, List.length_map, List.length_range]
    · refine List.pairwise_map.mpr (List.pairwise_lt_range.imp fun hij => ?_)
      exact LayoutInput.cells_disjoint hgap hwidth hheight hij
    · intro r hr
      obtain ⟨index, -, rfl⟩ := List.mem_map.mp hr
      exact (LayoutInput.cell_positive_iff index).mpr ⟨hwidth, hheight⟩
    · exact fun slot hslot => getElem?_placeCustoms hslot

/-- Two thumbnails at the right edge of an ordinary desktop. -/
def desktop : LayoutInput where
  dpiScale := 1
  monitorRect := ⟨0, 0, 1920, 1080⟩
  pipCount := 2
  pipEdge := .right
  customStripWidth := none
  customPositions := []
  gap := 4
  border := 3

theorem laidOut_desktop : LaidOut desktop :=
  (laidOut_iff desktop (by decide) (by decide) (by decide) (by decide)).mpr
    (.inr ⟨by decide +kernel, fun width hmem => absurd hmem (Option.not_mem_none width)⟩)

/-- One thumbnail on a small monitor at four times the scale. -/
def smallDesktop : LayoutInput :=
  { desktop with dpiScale := 4, monitorRect := ⟨0, 0, 1024, 768⟩, pipCount := 1, gap := 16, border := 12 }

/-- At four times the scale a quarter of a small monitor is lower than the least thumbnail. -/
theorem small_desktop_panics :
    ¬ ∀ input : LayoutInput, input.monitorRect.Positive → 0 < input.dpiScale → 0 ≤ input.gap → 0 < input.border →
      LaidOut input := by
  intro h
  obtain ⟨plan, -, hplan, -⟩ := h smallDesktop (by decide) (by decide) (by decide) (by decide)
  have hnone : compute smallDesktop = none := by decide +kernel
  rw [hnone] at hplan
  cases hplan

end Stonemite.Overlay
