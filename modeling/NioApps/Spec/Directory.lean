import NioApps.Spec.Service

/-! A directory, the pages of a service that lists it, and the course of a listing. -/

namespace NioApps.Service

/-- An entry as the service has it. -/
structure Entry where
  flags : Byte
  name : List Byte
  size : BitVec 64
  mtime : BitVec 64
  short : name.length ≤ 220
  plain : 0 ∉ name

namespace Entry

def bytes (compact : Bool) (e : Entry) : List Byte :=
  [e.flags, BitVec.ofNat 8 e.name.length] ++
    (e.name ++ if compact then [] else leBytes 8 e.size.toNat ++ leBytes 8 e.mtime.toNat)

/-- The call of the callback for an entry. -/
def delivered (compact : Bool) (e : Entry) : Listed :=
  ⟨e.flags &&& 1, e.name, if compact then 0 else e.size.setWidth 32, if compact then 0 else e.mtime.setWidth 32⟩

end Entry

/-! ### Entries in any response -/

section Scan

variable (flags : Byte) (b : ℕ → Byte) (len : ℕ)

/-- The length of the name of the entry at `p`. -/
def nameLenAt (p : ℕ) : ℕ := (b (p + 1)).toNat

/-- The length of the entry at `p`. -/
def entrySize (p : ℕ) : ℕ := 2 + nameLenAt b p + if flags &&& 0x02 = 0 then 16 else 0

/-- The entry at `p` is among the first `len` bytes, and its name has at most 220 bytes. -/
structure Complete (p : ℕ) : Prop where
  head : p + 2 ≤ len
  whole : p + entrySize flags b p ≤ len
  short : nameLenAt b p < listNameSize

instance (p : ℕ) : Decidable (Complete flags b len p) :=
  decidable_of_iff (p + 2 ≤ len ∧ p + entrySize flags b p ≤ len ∧ nameLenAt b p < listNameSize)
    ⟨fun h => ⟨h.1, h.2.1, h.2.2⟩, fun h => ⟨h.1, h.2, h.3⟩⟩

/-- The fields of the entry at `p`. -/
def entryAt (p : ℕ) : Listed where
  isDir := b p &&& 1
  name := (slice b (p + 2) (nameLenAt b p)).takeWhile (· ≠ 0)
  size := if flags &&& 0x02 = 0 then BitVec.ofNat 32 (le (slice b (p + 2 + nameLenAt b p) 4)) else 0
  mtime := if flags &&& 0x02 = 0 then BitVec.ofNat 32 (le (slice b (p + 2 + nameLenAt b p + 8) 4)) else 0

/-- The first `n` entries from `p` on, up to one that is not complete, and whether there was none. -/
def scan : ℕ → ℕ → List Listed × Bool
  | 0, _ => ([], true)
  | n + 1, p =>
    if Complete flags b len p then
      let (ls, ok) := scan n (p + entrySize flags b p)
      (entryAt flags b p :: ls, ok)
    else ([], false)

/-- The 16-bit positions at which the loop starts an entry, by its own tests. -/
inductive AtEntry (respLen : Word) : Word → Prop
  | first : AtEntry respLen 10
  | compact (pos : Word) (before : AtEntry respLen pos) (head : ¬pos + 2 > respLen)
      (name : ¬(pos + 2 + (b (pos + 1).toNat).setWidth 16 > respLen ∨ (b (pos + 1).toNat).toNat ≥ listNameSize))
      (short : flags &&& 0x02 ≠ 0) : AtEntry respLen (pos + 2 + (b (pos + 1).toNat).setWidth 16)
  | full (pos : Word) (before : AtEntry respLen pos) (head : ¬pos + 2 > respLen)
      (name : ¬(pos + 2 + (b (pos + 1).toNat).setWidth 16 > respLen ∨ (b (pos + 1).toNat).toNat ≥ listNameSize))
      (tail : ¬pos + 2 + (b (pos + 1).toNat).setWidth 16 + 16 > respLen) :
      AtEntry respLen (pos + 2 + (b (pos + 1).toNat).setWidth 16 + 16)

end Scan

namespace Reply

variable (r : Reply)

/-- The header of a page lets its entries be read. -/
def Opens : Prop :=
  r.result = 0 ∧ r.status = statusOk ∧ 10 ≤ r.length.toNat ∧ r.data 0 = fileVersion ∧
    ¬10 + BitVec.ofNat 16 (le (slice r.data 8 2)) > r.length

instance : Decidable r.Opens := inferInstanceAs (Decidable (_ ∧ _ ∧ _ ∧ _ ∧ ¬_))

/-- The entries of a page, as many as its header says. -/
def entries : List Listed × Bool := scan (r.data 1) r.data r.length.toNat (le (slice r.data 6 2)) 10

/-- What the callback is told of a page. -/
def told : List Listed := if r.Opens then r.entries.1 else []

/-- The next entry of the page is not complete, or its name is too long. -/
def Cut : Prop := r.Opens ∧ r.entries.2 = false

end Reply

/-- The replies to the requests `qs`, sent after `before`. -/
def replies (answer : List Request → Reply) (before qs : List Request) : List Reply :=
  (List.range qs.length).map fun i => answer (before ++ qs.take (i + 1))

/-! ### A directory -/

def pageBytes (compact : Bool) (es : List Entry) : List Byte := es.flatMap (Entry.bytes compact)

/-- A version-1 page with the entries `es`; the bytes 2 to 5, the other flags and what
follows the entries are free. -/
structure IsPage (r : Reply) (es : List Entry) (compact more : Bool) : Prop where
  result : r.result = 0
  status : r.status = statusOk
  fits : r.length.toNat ≤ maxData
  version : r.data 0 = fileVersion
  flagMore : r.data 1 &&& 0x01 ≠ 0 ↔ more = true
  flagCompact : r.data 1 &&& 0x02 ≠ 0 ↔ compact = true
  count : le (slice r.data 6 2) = es.length
  entriesLen : le (slice r.data 8 2) = (pageBytes compact es).length
  length : 10 + (pageBytes compact es).length ≤ r.length.toNat
  entries : slice r.data 10 (pageBytes compact es).length = pageBytes compact es

def listBytes (uri : List Byte) (uriLen start : Word) : List Byte :=
  [fileVersion] ++ u16le uriLen ++ uri.take uriLen.toNat ++ u16le start ++ u16le listMaxPayload ++ [0x02]

/-- The request for the page from `start` on. -/
def listing (uri : List Byte) (start : Word) : Request :=
  ⟨deviceFile, fileListDirectory, listBytes uri (BitVec.ofNat 16 uri.length) start, 512⟩

/-- A service that lists `dir`, in pages of its choice. -/
def Lists (uri : List Byte) (dir : List Entry) (answer : List Request → Reply) : Prop :=
  ∀ (before : List Request) (s : ℕ), s ≤ dir.length → ∃ k compact, (s < dir.length → 0 < k) ∧ s + k ≤ dir.length ∧
    IsPage (answer (before ++ [listing uri (BitVec.ofNat 16 s)])) ((dir.drop s).take k) compact (s + k < dir.length)

/-- A listing of `es`, of which the first has the number `s`: the requests, and the calls of the callback. -/
inductive Course (uri : List Byte) (answer : List Request → Reply) :
    List Request → ℕ → List Entry → List Request → List Listed → Prop
  | last (before s es compact)
      (page : IsPage (answer (before ++ [listing uri (BitVec.ofNat 16 s)])) es compact false) :
      Course uri answer before s es [listing uri (BitVec.ofNat 16 s)] (es.map (Entry.delivered compact))
  | more (before s es compact rest qs ls) (some : es ≠ [])
      (page : IsPage (answer (before ++ [listing uri (BitVec.ofNat 16 s)])) es compact true)
      (tail : Course uri answer (before ++ [listing uri (BitVec.ofNat 16 s)]) (s + es.length) rest qs ls) :
      Course uri answer before s (es ++ rest) (listing uri (BitVec.ofNat 16 s) :: qs) (es.map (Entry.delivered compact) ++ ls)

end NioApps.Service
