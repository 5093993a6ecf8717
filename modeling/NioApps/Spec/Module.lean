import NioApps.Lib.Image
import NioApps.Spec.Loader

/-! What the bytes of an o65 module after its header ask of the loader: the edits
of target memory, in order, by their offset from its start, and how reading ends.
`plan` is a function of the bytes alone; it does not know where they come from. -/

namespace NioApps.Loader

open Image

/-- The next `n` bytes that `read_byte` returns, as far as it does. -/
def feedN (b : Build) : ℕ → Ram → List Byte
  | 0, _ => []
  | n + 1, w =>
    match (readByte b).run w with
    | .ok a w => a :: feedN b n w
    | .error _ _ => []

/-- The bytes that `read_byte` returns from here on. -/
def feed (b : Build) (w : Ram) : List Byte := feedN b (unread w) w

/-- The end of a part of the module: more bytes follow, the part is refused, or
the bytes end inside it. -/
inductive Ending
  | done (rest : List Byte)
  | rejected
  | truncated
deriving DecidableEq, Repr

structure Plan where
  edits : List Edit
  ending : Ending
deriving DecidableEq, Repr

namespace Plan

def stop (e : Ending) : Plan := ⟨[], e⟩

/-- The plan `q` for the bytes that `p` leaves. -/
def andThen (p : Plan) (q : List Byte → Plan) : Plan :=
  match p.ending with
  | .done rest => ⟨p.edits ++ (q rest).edits, (q rest).ending⟩
  | e => ⟨p.edits, e⟩

end Plan

/-- The header options, with `n` bytes of one still to be skipped. -/
def options : ℕ → List Byte → Ending
  | _, [] => .truncated
  | n + 1, _ :: bs => options n bs
  | 0, a :: bs => if a = 0 then .done bs else if a < 2 then .rejected else options (a - 1).toNat bs

/-- TEXT and DATA, then BSS. -/
def segments (init bss : Word) (bs : List Byte) : Plan :=
  if bs.length < init.toNat then ⟨puts 0 bs, .truncated⟩
  else ⟨puts 0 (bs.take init.toNat ++ List.replicate bss.toNat 0), .done (bs.drop init.toNat)⟩

/-- No imports, or no exports. -/
def noSymbols : List Byte → Ending
  | [] => .truncated
  | a :: bs =>
    if a ≠ 0 then .rejected
    else
      match bs with
      | [] => .truncated
      | b :: bs => if b ≠ 0 then .rejected else .done bs

/-- One record of a relocation table after its delta, for the byte at `off` of the
`size` bytes at `segment`. -/
def entry (start segment size off : Word) : List Byte → Plan
  | [] => .stop .truncated
  | d :: bs =>
    match relocBase d start with
    | none => .stop .rejected
    | some v =>
      if d &&& 0xe0 = rtWord then
        if off + 1 < size then ⟨[⟨segment + off, .word v⟩], .done bs⟩ else .stop .rejected
      else if d &&& 0xe0 = rtHigh then
        if off < size then
          match bs with
          | [] => .stop .truncated
          | l :: bs => ⟨[⟨segment + off, .high l v⟩], .done bs⟩
        else .stop .rejected
      else if d &&& 0xe0 = rtLow then
        if off < size then ⟨[⟨segment + off, .low v⟩], .done bs⟩ else .stop .rejected
      else .stop .rejected

/-- The relocation table of the `size` bytes at `segment`, of at most `n` records
and skips, `off` being the running offset. -/
def tableN (start segment size : Word) : ℕ → Word → List Byte → Plan
  | 0, _, _ => .stop .truncated
  | _ + 1, _, [] => .stop .truncated
  | n + 1, off, a :: bs =>
    if a = 0 then .stop (.done bs)
    else if a = 0xff then tableN start segment size n (off + 0xfe) bs
    else (entry start segment size (off + a.setWidth 16) bs).andThen (tableN start segment size n (off + a.setWidth 16))

/-- Every record and skip is at least one byte. -/
def table (start segment size : Word) (bs : List Byte) : Plan := tableN start segment size (bs.length + 1) 0xffff bs

/-- The relocation tables between the imports and the exports. -/
def tables (start text data : Word) (bs : List Byte) : Plan :=
  (Plan.stop (noSymbols bs)).andThen fun bs =>
    (table start 0 text bs).andThen fun bs => (table start text data bs).andThen fun bs => .stop (noSymbols bs)

/-- The module after its header. -/
def plan (start text data init bss : Word) (bs : List Byte) : Plan :=
  (Plan.stop (options 0 bs)).andThen fun bs => (segments init bss bs).andThen (tables start text data)

end NioApps.Loader
