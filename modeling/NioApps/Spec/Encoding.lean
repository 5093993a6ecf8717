import NioApps.Spec.Loader

/-! The o65 modules that the loader is for, and their bytes: TEXT and DATA linked
at address 0, BSS, options, and one relocation site after another in each segment.
`Module.image` is what has to be in memory after such a module was loaded. -/

namespace NioApps.Loader

inductive Width
  | word
  | low
  | high (low : Byte)
deriving DecidableEq, Repr

inductive Segment
  | text
  | data
  | bss
  | zp
deriving DecidableEq, Repr

/-- A place in a segment that holds a linked address, or one byte of it. For a high
byte the file also has the low byte of the address. -/
structure Site where
  offset : ℕ
  width : Width
  segment : Segment
deriving DecidableEq, Repr

namespace Site

def size (s : Site) : ℕ :=
  match s.width with
  | .word => 2
  | _ => 1

def shift (n : ℕ) (s : Site) : Site := { s with offset := n + s.offset }

def segmentByte (s : Site) : Byte :=
  match s.segment with
  | .text => segText
  | .data => segData
  | .bss => segBss
  | .zp => segZp

/-- The record after the delta. -/
def record (s : Site) : List Byte :=
  match s.width with
  | .word => [rtWord + s.segmentByte]
  | .low => [rtLow + s.segmentByte]
  | .high low => [rtHigh + s.segmentByte, low]

/-- What the loader has to add to the linked address. -/
def base (start : Word) (s : Site) : Word :=
  match s.segment with
  | .zp => cc65Zp
  | _ => start

/-- An address of which the linked `image` holds the site's bytes. -/
def linked (image : ℕ → Byte) (s : Site) : Word :=
  match s.width with
  | .word => BitVec.ofNat 16 (le [image s.offset, image (s.offset + 1)])
  | .low => BitVec.ofNat 16 (le [image s.offset, 0])
  | .high low => BitVec.ofNat 16 (le [low, image s.offset])

/-- Byte `k` of the site after relocation. -/
def byte (start : Word) (image : ℕ → Byte) (s : Site) (k : ℕ) : Byte :=
  let address := s.linked image + s.base start
  match s.width with
  | .word => if k = 0 then lo address else hi address
  | .low => lo address
  | .high _ => hi address

/-- Whether byte `i` of the segment belongs to the site. -/
def covers (i : ℕ) (s : Site) : Bool := s.offset ≤ i && i < s.offset + s.size

end Site

/-- Sites one after another, from `k` on, without overlap, inside of `size` bytes. -/
def Spaced (size : ℕ) : ℕ → List Site → Prop
  | _, [] => True
  | k, s :: ss => k ≤ s.offset ∧ s.offset + s.size ≤ size ∧ Spaced size (s.offset + s.size) ss

instance decidableSpaced (size k : ℕ) (ss : List Site) : Decidable (Spaced size k ss) :=
  match ss with
  | [] => isTrue trivial
  | s :: ss =>
    have := decidableSpaced size (s.offset + s.size) ss
    inferInstanceAs (Decidable (_ ∧ _ ∧ _))

structure Module where
  text : List Byte
  data : List Byte
  bss : ℕ
  /-- The bytes of each option after its length. -/
  options : List (List Byte)
  textSites : List Site
  dataSites : List Site
  fits : text.length + data.length + bss < 2 ^ 16
  options_ok : ∀ o ∈ options, 1 ≤ o.length ∧ o.length ≤ 254
  text_ok : Spaced text.length 0 textSites
  data_ok : Spaced data.length 0 dataSites

/-! ### The file -/

def wordBytes (n : ℕ) : List Byte := [lo (BitVec.ofNat 16 n), hi (BitVec.ofNat 16 n)]

/-- The distance to the next site, from 1 on. -/
def delta (n : ℕ) : List Byte := List.replicate ((n - 1) / 254) 0xff ++ [BitVec.ofNat 8 ((n - 1) % 254 + 1)]

/-- A relocation table, `k` being the offset after that of the site before. -/
def siteTable : ℕ → List Site → List Byte
  | _, [] => [0]
  | k, s :: ss => delta (s.offset + 1 - k) ++ s.record ++ siteTable (s.offset + 1) ss

def optionBytes (o : List Byte) : List Byte := BitVec.ofNat 8 (o.length + 1) :: o

namespace Module

def header (m : Module) : List Byte :=
  [1, 0, 0x6f, 0x36, 0x35, 0, 0, 8] ++
    [0, m.text.length, m.text.length, m.data.length, m.text.length + m.data.length, m.bss, 0, cc65ZpSize.toNat, 0].flatMap
      wordBytes

/-- The module after its header. -/
def stream (m : Module) : List Byte :=
  m.options.flatMap optionBytes ++ 0 :: (m.text ++ m.data ++
    (0 :: 0 :: (siteTable 0 m.textSites ++ (siteTable 0 m.dataSites ++ [0, 0]))))

def bytes (m : Module) : List Byte := m.header ++ m.stream

/-- The FNR1 wrapper and the module. -/
def package (m : Module) (entry table marker cstack : ℕ) : List Byte :=
  [0x46, 0x4e, 0x52, 0x31, 1, 22] ++
    [entry, table, marker, m.bytes.length, m.text.length + m.data.length + m.bss, m.text.length + m.data.length, cstack,
      cc65ZpSize.toNat].flatMap wordBytes ++
    m.bytes

/-! ### In memory -/

def size (m : Module) : ℕ := m.text.length + m.data.length + m.bss

/-- The bytes as linked. -/
def linked (m : Module) (i : ℕ) : Byte := (m.text ++ m.data).getD i 0

/-- All sites by their offset in the module. -/
def sites (m : Module) : List Site := m.textSites ++ m.dataSites.map (Site.shift m.text.length)

/-- Byte `i` of the module at `start`. -/
def image (m : Module) (start : Word) (i : ℕ) : Byte :=
  match m.sites.find? (Site.covers i) with
  | some s => s.byte start m.linked (i - s.offset)
  | none => m.linked i

end Module

end NioApps.Loader
