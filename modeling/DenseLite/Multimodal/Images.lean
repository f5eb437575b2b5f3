import DenseLite.Infer.State
import DenseLite.Lib.Raster

/-! # Pictures

`MultimodalEngine::generate_image` makes noise in a grid of one eighth of the size, takes the noise out of it step by
step, and shows each pixel in the color of its cell. Indices are computed in `int`, and neither they nor the buffers
are checked. `generateImage_eq_some_iff` says for which sizes that goes well, and what the picture is then. -/

namespace DenseLite.Multimodal.Images

open DenseLite.Lib.ByteStream DenseLite.Lib.Raster
open DenseLite.Infer.State (ascii)

/-! ### The engine -/

/-- What is computed in floats: the samples of a seed, a step that takes noise out, and the byte of a channel. -/
structure Diffusion (φ : Type) where
  sample : Int32 → ℕ → φ
  denoise : ℕ → ℕ → φ → φ
  channel : φ → UInt8

/-- `ImageGenerationResult`, without what it repeats of the call and how the model was leased. -/
structure ImageGenerationResult where
  success : Bool := false
  format : Bytes := ascii "png"
  dataBytes : ℕ := 0
  rgbaData : List UInt8 := []
  errorMessage : Bytes := []
deriving DecidableEq, Repr

/-- Arithmetic in `int`, on numbers that are not negative; beyond the range it is undefined. -/
def int (n : ℕ) : Option ℕ := if n < 2 ^ 31 then some n else none

/-- `latent_w` and `latent_h`. -/
def latentSize (n : ℕ) : ℕ := max 1 (n / 8)

section Engine

variable {φ : Type} (d : Diffusion φ)

/-- `latents`, after the denoising steps. -/
def latents (seed : Int32) (steps count : ℕ) : List φ :=
  (List.range steps).foldl (fun ls step => ls.map (d.denoise step steps)) ((List.range count).map (d.sample seed))

/-- The bytes of a pixel from `l_idx` on, which must be inside `latents`. -/
def rgba (ls : List φ) (idx : ℕ) : Option (List UInt8) := do
  let r ← ls[idx]?
  let g ← ls[idx + 1]?
  let b ← ls[idx + 2]?
  return [d.channel r, d.channel g, d.channel b, 255]

/-- `l_idx`. -/
def latentIndex (width latentW ly x : ℕ) : Option ℕ := do
  let lx := (← int (x * latentW)) / width
  int ((← int ((← int (ly * latentW)) + lx)) * 4)

/-- The body of the loop over a row. -/
def renderPixel (ls : List φ) (width latentW ly y : ℕ) (buf : List UInt8) (x : ℕ) : Option (List UInt8) := do
  let bytes ← rgba d ls (← latentIndex width latentW ly x)
  writeBlock buf ((← int ((← int (y * width)) + x)) * 4) bytes

/-- The body of the loop over the rows. -/
def renderRow (ls : List φ) (width height : ℕ) (buf : List UInt8) (y : ℕ) : Option (List UInt8) := do
  let ly := (← int (y * latentSize height)) / height
  (List.range width).foldlM (renderPixel d ls width (latentSize width) ly y) buf

/-- `rgba_data`. -/
def render (ls : List φ) (width height : ℕ) : Option (List UInt8) :=
  (List.range height).foldlM (renderRow d ls width height) (List.replicate (width * height * 4) 0)

/-- `MultimodalEngine::generate_image` for sizes that are positive; `admitted` is what `can_generate_image` says. Where
there is no result the behaviour is undefined. -/
def generateImage (admitted : Bool) (prompt : Bytes) (width height steps : ℕ) (seed : Int32) :
    Option ImageGenerationResult :=
  if prompt = [] then some { errorMessage := ascii "Empty prompt for image generation" }
  else if ¬ admitted then
    some { errorMessage := ascii "Insufficient memory headroom for local image generation; route to cloud" }
  else
    let ls := latents d seed steps (4 * (latentSize width * latentSize height))
    (render d ls width height).map fun data =>
      { success := true, rgbaData := data, dataBytes := data.length }

/-! ### The picture -/

/-- A latent value after the steps. -/
def latent (seed : Int32) (steps i : ℕ) : φ :=
  (List.range steps).foldl (fun v step => d.denoise step steps v) (d.sample seed i)

/-- The cell that a pixel shows. -/
def cell (width height x y : ℕ) : ℕ :=
  y * latentSize height / height * latentSize width + x * latentSize width / width

/-- The bytes of a pixel. -/
def color (seed : Int32) (steps cell : ℕ) : List UInt8 :=
  [d.channel (latent d seed steps (cell * 4)), d.channel (latent d seed steps (cell * 4 + 1)),
    d.channel (latent d seed steps (cell * 4 + 2)), 255]

/-- The picture, row by row. -/
def picture (width height steps : ℕ) (seed : Int32) : List UInt8 :=
  (List.range height).flatMap fun y => (List.range width).flatMap fun x => color d seed steps (cell width height x y)

/-- No number in the loops leaves the range of `int`. -/
structure InRange (width height : ℕ) : Prop where
  rows : (height - 1) * latentSize height < 2 ^ 31
  columns : (width - 1) * latentSize width < 2 ^ 31
  pixels : width * height ≤ 2 ^ 31

variable {d} {width height steps x y : ℕ} {seed : Int32} {ls : List φ}

/-! ### The loops -/

/-- What the loop over a row writes for a pixel. -/
def pixelBlock (d : Diffusion φ) (ls : List φ) (width latentW ly y x : ℕ) : Option (List UInt8) := do
  let bytes ← rgba d ls (← latentIndex width latentW ly x)
  let _ ← int ((← int (y * width)) + x)
  return bytes

/-- What the loop over the rows writes for a row. -/
def rowBlock (d : Diffusion φ) (ls : List φ) (width height y : ℕ) : Option (List UInt8) := do
  let ly := (← int (y * latentSize height)) / height
  return (← (List.range width).mapM (pixelBlock d ls width (latentSize width) ly y)).flatten

theorem int_eq_some_iff {n m : ℕ} : int n = some m ↔ n < 2 ^ 31 ∧ n = m := by
  unfold int
  split_ifs with h
  · simp only [Option.some.injEq, h, true_and]
  · simp only [h, false_and]

theorem length_rgba {i : ℕ} {bytes : List UInt8} (h : rgba d ls i = some bytes) : bytes.length = 4 := by
  simp only [rgba, Option.bind_eq_bind, Option.pure_def, Option.bind_eq_some_iff, Option.some.injEq] at h
  obtain ⟨r, -, g, -, b, -, rfl⟩ := h
  rfl

theorem length_pixelBlock {latentW ly : ℕ} {bytes : List UInt8}
    (h : pixelBlock d ls width latentW ly y x = some bytes) : bytes.length = 4 := by
  simp only [pixelBlock, Option.bind_eq_bind, Option.pure_def, Option.bind_eq_some_iff, Option.some.injEq] at h
  obtain ⟨i, -, bs, hbs, -, -, -, -, rfl⟩ := h
  exact length_rgba hbs

theorem length_rowBlock {bytes : List UInt8} (h : rowBlock d ls width height y = some bytes) :
    bytes.length = width * 4 := by
  simp only [rowBlock, Option.bind_eq_bind, Option.pure_def, Option.bind_eq_some_iff, Option.some.injEq] at h
  obtain ⟨ly, -, bss, hbss, rfl⟩ := h
  exact length_flatten_mapM (fun _ _ => length_pixelBlock) hbss

theorem fills_renderPixel {latentW ly : ℕ} : Fills 0 (y * (width * 4)) 4 (pixelBlock d ls width latentW ly y)
    (renderPixel d ls width latentW ly y) := by
  intro x before m hbefore
  unfold renderPixel pixelBlock
  cases hidx : latentIndex width latentW ly x with
  | none => rfl
  | some i =>
    simp only [Option.bind_eq_bind, Option.bind_some]
    cases hbytes : rgba d ls i with
    | none => rfl
    | some bytes =>
      simp only [Option.bind_some]
      cases hrow : int (y * width) with
      | none => rfl
      | some row =>
        obtain ⟨-, rfl⟩ := int_eq_some_iff.mp hrow
        simp only [Option.bind_some]
        cases hpx : int (y * width + x) with
        | none => rfl
        | some px =>
          obtain ⟨-, rfl⟩ := int_eq_some_iff.mp hpx
          have hat : before.length = (y * width + x) * 4 := by
            rw [hbefore]
            ring
          have hfill : writeBlock (before ++ List.replicate (bytes.length + m) 0) ((y * width + x) * 4) bytes =
              some (before ++ bytes ++ List.replicate m 0) := writeBlock_fill hat
          rw [length_rgba hbytes] at hfill
          exact hfill

theorem fills_renderRow : Fills 0 0 (width * 4) (rowBlock d ls width height) (renderRow d ls width height) := by
  intro y before m hbefore
  unfold renderRow rowBlock
  cases hrow : int (y * latentSize height) with
  | none => rfl
  | some row =>
    have hat : before.length = y * (width * 4) := by
      rw [hbefore, Nat.zero_add]
    simp only [Option.bind_eq_bind, Option.bind_some, Option.pure_def]
    rw [foldlM_fill fills_renderPixel (fun _ _ => length_pixelBlock) hat]
    cases (List.range width).mapM (pixelBlock d ls width (latentSize width) (row / height) y) <;> rfl

theorem render_eq (ls : List φ) (width height : ℕ) :
    render d ls width height = ((List.range height).mapM (rowBlock d ls width height)).map List.flatten := by
  have hloop : (List.range height).foldlM (renderRow d ls width height)
      ([] ++ List.replicate (height * (width * 4) + 0) 0) =
      ((List.range height).mapM (rowBlock d ls width height)).map fun bss => [] ++ bss.flatten ++ List.replicate 0 0 :=
    foldlM_fill fills_renderRow (fun _ _ h => length_rowBlock h) rfl
  have hzeros : width * height * 4 = height * (width * 4) + 0 := by
    ring
  unfold render
  rw [hzeros, ← List.nil_append (List.replicate _ _), hloop]
  cases (List.range height).mapM (rowBlock d ls width height) <;> simp

/-! ### Indices -/

theorem latentSize_pos (n : ℕ) : 0 < latentSize n := lt_of_lt_of_le one_pos (le_max_left ..)

/-- A pixel inside the picture shows a cell inside the grid. -/
theorem mul_latentSize_div_lt {n i : ℕ} (h : i < n) : i * latentSize n / n < latentSize n := by
  rw [Nat.div_lt_iff_lt_mul (by omega), mul_comm (latentSize n) n]
  exact Nat.mul_lt_mul_of_pos_right h (latentSize_pos n)

theorem cell_lt (hx : x < width) (hy : y < height) :
    cell width height x y < latentSize width * latentSize height := by
  have hrow := mul_latentSize_div_lt hy
  have hcolumn := mul_latentSize_div_lt hx
  calc cell width height x y
      < y * latentSize height / height * latentSize width + latentSize width := Nat.add_lt_add_left hcolumn _
    _ = (y * latentSize height / height + 1) * latentSize width := by ring
    _ ≤ latentSize height * latentSize width := Nat.mul_le_mul_right _ hrow
    _ = latentSize width * latentSize height := mul_comm ..

/-- The grid has few cells beside the picture, except where it is a single one. -/
theorem latentSize_mul_le (hwidth : width < 2 ^ 31) (hheight : height < 2 ^ 31) (h : width * height ≤ 2 ^ 31) :
    (latentSize width * latentSize height - 1) * 4 < 2 ^ 31 := by
  unfold latentSize
  rcases Nat.lt_or_ge width 8 with hw | hw
  · have hone : max 1 (width / 8) = 1 := by omega
    rw [hone]
    omega
  · rcases Nat.lt_or_ge height 8 with hh | hh
    · have hone : max 1 (height / 8) = 1 := by omega
      rw [hone]
      omega
    · have hw' : max 1 (width / 8) = width / 8 := by omega
      have hh' : max 1 (height / 8) = height / 8 := by omega
      have hle : width / 8 * (height / 8) * 64 ≤ width * height := by
        calc width / 8 * (height / 8) * 64 = (width / 8 * 8) * (height / 8 * 8) := by ring
          _ ≤ width * height := Nat.mul_le_mul (Nat.div_mul_le_self ..) (Nat.div_mul_le_self ..)
      rw [hw', hh']
      omega

theorem getElem?_latents {count i : ℕ} (h : i < count) :
    (latents d seed steps count)[i]? = some (latent d seed steps i) := by
  have hfold : ∀ (ks : List ℕ) (ls : List φ),
      (ks.foldl (fun ls step => ls.map (d.denoise step steps)) ls)[i]? =
        ls[i]?.map fun v => ks.foldl (fun v step => d.denoise step steps v) v := by
    intro ks
    induction ks with
    | nil => simp
    | cons k ks ih =>
      intro ls
      rw [List.foldl_cons, ih, List.getElem?_map, Option.map_map]
      rfl
  rw [latents, hfold, List.getElem?_map, List.getElem?_range h]
  rfl

theorem rgba_latents {count cell : ℕ} (h : cell < count) :
    rgba d (latents d seed steps (4 * count)) (cell * 4) = some (color d seed steps cell) := by
  unfold rgba
  rw [getElem?_latents (by omega), getElem?_latents (by omega), getElem?_latents (by omega)]
  rfl

/-! ### Which pictures are drawn -/

theorem pixelBlock_latents (h : InRange width height) (hwidth : width < 2 ^ 31) (hheight : height < 2 ^ 31)
    (hx : x < width) (hy : y < height) :
    pixelBlock d (latents d seed steps (4 * (latentSize width * latentSize height))) width (latentSize width)
      (y * latentSize height / height) y x = some (color d seed steps (cell width height x y)) := by
  have hcell := cell_lt hx hy
  have hcells := latentSize_mul_le hwidth hheight h.pixels
  have hcolumn : x * latentSize width < 2 ^ 31 :=
    lt_of_le_of_lt (Nat.mul_le_mul_right _ (by omega)) h.columns
  have hpixel : y * width + x < width * height := by
    calc y * width + x < y * width + width := Nat.add_lt_add_left hx _
      _ = (y + 1) * width := by ring
      _ ≤ height * width := Nat.mul_le_mul_right _ hy
      _ = width * height := mul_comm ..
  have hindex : latentIndex width (latentSize width) (y * latentSize height / height) x =
      some (cell width height x y * 4) := by
    have hcell' : y * latentSize height / height * latentSize width + x * latentSize width / width < 2 ^ 31 := by
      unfold cell at hcell
      omega
    have hfour : (y * latentSize height / height * latentSize width + x * latentSize width / width) * 4 < 2 ^ 31 := by
      unfold cell at hcell
      omega
    have hrow := lt_of_le_of_lt (Nat.le_add_right _ _) hcell'
    simp only [latentIndex, int, hcolumn, hrow, hcell', hfour, if_true, Option.bind_eq_bind, Option.bind_some, cell]
  have hpixel' : y * width + x < 2 ^ 31 := lt_of_lt_of_le hpixel h.pixels
  have hrow := lt_of_le_of_lt (Nat.le_add_right _ _) hpixel'
  simp only [pixelBlock, hindex, rgba_latents hcell, int, hrow, hpixel', if_true, Option.bind_eq_bind, Option.bind_some,
    Option.pure_def]

theorem render_latents (h : InRange width height) (hwidth : width < 2 ^ 31) (hheight : height < 2 ^ 31) :
    render d (latents d seed steps (4 * (latentSize width * latentSize height))) width height =
      some (picture d width height steps seed) := by
  have hrow : ∀ y ∈ List.range height,
      rowBlock d (latents d seed steps (4 * (latentSize width * latentSize height))) width height y =
        some ((List.range width).flatMap fun x => color d seed steps (cell width height x y)) := by
    intro y hy
    have hy := List.mem_range.mp hy
    have hint : y * latentSize height < 2 ^ 31 := lt_of_le_of_lt (Nat.mul_le_mul_right _ (by omega)) h.rows
    unfold rowBlock
    simp only [int, hint, if_true, Option.bind_eq_bind, Option.bind_some, Option.pure_def]
    rw [mapM_eq_some_map fun x hx => pixelBlock_latents h hwidth hheight (List.mem_range.mp hx) hy, Option.bind_some,
      List.flatMap_def]
  rw [render_eq, mapM_eq_some_map hrow, Option.map_some, picture, List.flatMap_def]

/-- The last pixel of a picture needs the greatest numbers. -/
theorem inRange_of_render (hwidth : 0 < width) (hheight : 0 < height) {data : List UInt8}
    (h : render d ls width height = some data) : InRange width height := by
  rw [render_eq] at h
  obtain ⟨rows, hrows, -⟩ := Option.map_eq_some_iff.mp h
  have hrow : rowBlock d ls width height (height - 1) ∈ (List.range height).map (rowBlock d ls width height) :=
    List.mem_map_of_mem (List.mem_range.mpr (by omega))
  rw [mapM_eq_some_iff.mp hrows] at hrow
  obtain ⟨row, -, hrow⟩ := List.mem_map.mp hrow
  simp only [rowBlock, Option.bind_eq_bind, Option.pure_def] at hrow
  obtain ⟨ly, hly, hrow⟩ := Option.bind_eq_some_iff.mp hrow.symm
  obtain ⟨pixels, hpixels, -⟩ := Option.bind_eq_some_iff.mp hrow
  have hpixel : pixelBlock d ls width (latentSize width) (ly / height) (height - 1) (width - 1) ∈
      (List.range width).map (pixelBlock d ls width (latentSize width) (ly / height) (height - 1)) :=
    List.mem_map_of_mem (List.mem_range.mpr (by omega))
  rw [mapM_eq_some_iff.mp hpixels] at hpixel
  obtain ⟨pixel, -, hpixel⟩ := List.mem_map.mp hpixel
  simp only [pixelBlock, latentIndex, Option.bind_eq_bind, Option.pure_def] at hpixel
  obtain ⟨i, hi, hpixel⟩ := Option.bind_eq_some_iff.mp hpixel.symm
  obtain ⟨lx, hlx, -⟩ := Option.bind_eq_some_iff.mp hi
  obtain ⟨bytes, -, hpixel⟩ := Option.bind_eq_some_iff.mp hpixel
  obtain ⟨first, hfirst, hpixel⟩ := Option.bind_eq_some_iff.mp hpixel
  obtain ⟨px, hpx, -⟩ := Option.bind_eq_some_iff.mp hpixel
  refine ⟨(int_eq_some_iff.mp hly).1, (int_eq_some_iff.mp hlx).1, ?_⟩
  obtain ⟨-, rfl⟩ := int_eq_some_iff.mp hfirst
  have hlast := (int_eq_some_iff.mp hpx).1
  have hcount : width * height = (height - 1) * width + (width - 1) + 1 := by
    obtain ⟨w, rfl⟩ := Nat.exists_eq_add_one.mpr hwidth
    obtain ⟨h, rfl⟩ := Nat.exists_eq_add_one.mpr hheight
    simp only [Nat.add_sub_cancel]
    ring
  omega

theorem length_picture : (picture d width height steps seed).length = width * height * 4 := by
  simp [picture, color, List.length_flatMap, List.map_const']
  ring

/-- **The picture**: for a size that is positive it is drawn without leaving a buffer or the range of `int` if and only
if the numbers of the last pixel are in range, and then each pixel shows its cell. -/
theorem generateImage_eq_some_iff {prompt : Bytes} {r : ImageGenerationResult} (hprompt : prompt ≠ [])
    (hwidth : 0 < width ∧ width < 2 ^ 31) (hheight : 0 < height ∧ height < 2 ^ 31) :
    generateImage d true prompt width height steps seed = some r ↔ InRange width height ∧
      r = { success := true, dataBytes := width * height * 4, rgbaData := picture d width height steps seed } := by
  have hrun : generateImage d true prompt width height steps seed =
      (render d (latents d seed steps (4 * (latentSize width * latentSize height))) width height).map fun data =>
        { success := true, rgbaData := data, dataBytes := data.length } := by
    simp [generateImage, hprompt]
  rw [hrun]
  constructor
  · intro h
    obtain ⟨data, hdata, rfl⟩ := Option.map_eq_some_iff.mp h
    have hrange := inRange_of_render hwidth.1 hheight.1 hdata
    rw [render_latents hrange hwidth.2 hheight.2] at hdata
    obtain rfl := Option.some.inj hdata
    exact ⟨hrange, by rw [length_picture]⟩
  · rintro ⟨hrange, rfl⟩
    rw [render_latents hrange hwidth.2 hheight.2, Option.map_some, length_picture]

end Engine

/-- Samples that count, and steps that change nothing. -/
def counting : Diffusion UInt8 where
  sample _ i := UInt8.ofNat i
  denoise _ _ v := v
  channel v := v

theorem generateImage_eq_some_iff_strip : generateImage counting true (ascii "strip") 16 1 1 0 =
    some { success := true, dataBytes := 64, rgbaData := picture counting 16 1 1 0 } :=
  (generateImage_eq_some_iff (by decide) (by decide) (by decide)).mpr ⟨⟨by decide, by decide, by decide⟩, rfl⟩

example : (picture counting 16 1 1 0).drop 28 = [0, 1, 2, 255, 4, 5, 6, 255, 4, 5, 6, 255, 4, 5, 6, 255, 4, 5, 6, 255,
    4, 5, 6, 255, 4, 5, 6, 255, 4, 5, 6, 255, 4, 5, 6, 255] := by decide

end DenseLite.Multimodal.Images
