import RocketAp.ProgramLogic.Placement

/-!
# The firmware's image

`metal.default.lds` is the script the firmware is linked with. It places code, data, stack and
heap in one region, `ram`, from `0x80000100` upwards. What it fixes is the order of the
sections and their alignments; how long they are depends on what is linked (`Image`).
-/

namespace RocketAp.Device

open ProgramLogic

/-- `ORIGIN` of `ram`. -/
def ramOrigin : ℕ := 0x80000100

/-- The sections that take space in `ram`: those placed there, and `.itim`, which is kept there
until it is copied. -/
inductive RamSection where
  | init | fini | preinitArray | initArray | finiArray | ctors | dtors | rodata | itim | lim
  | text | data | tdata | tbssSpace | bss | stack | heap
  deriving DecidableEq, Repr

namespace RamSection

/-- The order of the script. -/
def order : List RamSection :=
  [init, fini, preinitArray, initArray, finiArray, ctors, dtors, rodata, itim, lim, text, data,
    tdata, tbssSpace, bss, stack, heap]

/-- `ALIGN` of a section, `1` when the script has none. -/
def align : RamSection → ℕ
  | init | fini | ctors | dtors | rodata | text => 1
  | stack => 16
  | _ => 8

theorem align_dvd (x : RamSection) : x.align ∣ 256 := by
  cases x <;> decide

end RamSection

/-- What is linked: for each section its size, and an alignment its contents ask for. None asks
for more than the region starts with. -/
structure Image where
  size : RamSection → ℕ
  align : RamSection → ℕ
  align_dvd : ∀ x, align x ∣ 256

namespace Image

variable (img : Image)

/-- The alignment of a section: that of the script, and that of its contents. -/
def alignOf (x : RamSection) : ℕ := Nat.lcm x.align (img.align x)

theorem alignOf_dvd (x : RamSection) : img.alignOf x ∣ 256 :=
  Nat.lcm_dvd x.align_dvd (img.align_dvd x)

/-- The sections of the image. -/
def sections : List OutputSection :=
  RamSection.order.map fun x =>
    ⟨img.alignOf x, Nat.pos_of_dvd_of_pos (img.alignOf_dvd x) (by decide), img.size x⟩

/-- Where the image ends. -/
def finish : ℕ := placeEnd ramOrigin img.sections

/-- The byte at `a` is the firmware's. -/
def Owns (a : ℕ) : Prop := InSection a ramOrigin img.sections

/-- A multiple of `256` between the start and the end is the firmware's. -/
theorem owns_of_dvd {a : ℕ} (hdvd : 256 ∣ a) (hlo : ramOrigin ≤ a) (hhi : a < img.finish) :
    img.Owns a := by
  refine inSection_of_dvd (fun s hs => ?_) hlo hhi
  obtain ⟨x, -, rfl⟩ := List.mem_map.mp hs
  exact (img.alignOf_dvd x).trans hdvd

end Image

end RocketAp.Device
