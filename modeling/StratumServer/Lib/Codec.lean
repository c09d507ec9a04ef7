import Mathlib.Data.UInt
import Mathlib.Logic.Equiv.Defs

/-!
# Byte formats

A `Codec` writes values as bytes and reads them back from the front of a
longer text.  The law that it carries says that reading stops where writing
did, so codecs can be put one after the other.

* `bytes n` takes a fixed number of bytes.
* `pair` and `equiv` build the codec of a record.
* `compactSize` is the length of variable width of the Bitcoin formats: one
  byte, or a marker followed by two, four or eight bytes.
* `vec` is a list with its length in front, and `blob` the same for bytes.
-/

/-- A format: how a value is written, and how it is read from the front. -/
structure Codec (α : Type) where
  encode : α → List UInt8
  decode : List UInt8 → Option (α × List UInt8)
  decode_encode : ∀ a rest, decode (encode a ++ rest) = some (a, rest)

namespace Codec

variable {α β : Type}

/-! ## Bytes, pairs and records -/

/-- Bytes of a fixed number. -/
abbrev Field (n : Nat) := { bs : List UInt8 // bs.length = n }

/-- A fixed number of bytes. -/
def bytes (n : Nat) : Codec (Field n) where
  encode bs := bs.1
  decode bs :=
    if h : n ≤ bs.length then
      some (⟨bs.take n, List.length_take_of_le h⟩, bs.drop n)
    else none
  decode_encode bs rest := by
    have hle : n ≤ (bs.1 ++ rest).length := by
      rw [List.length_append, bs.2]
      exact Nat.le_add_right _ _
    rw [dif_pos hle]
    congr 2
    · refine Subtype.ext ?_
      change (bs.1 ++ rest).take n = bs.1
      rw [List.take_append_of_le_length (le_of_eq bs.2.symm)]
      exact List.take_of_length_le (le_of_eq bs.2)
    · rw [List.drop_append_of_le_length (le_of_eq bs.2.symm),
        List.drop_of_length_le (le_of_eq bs.2), List.nil_append]

/-- One value after the other. -/
def pair (a : Codec α) (b : Codec β) : Codec (α × β) where
  encode x := a.encode x.1 ++ b.encode x.2
  decode bs := (a.decode bs).bind fun x =>
    (b.decode x.2).map fun y => ((x.1, y.1), y.2)
  decode_encode x rest := by
    rw [List.append_assoc, a.decode_encode, Option.bind_some,
      b.decode_encode, Option.map_some]

theorem pair_decode_iff {a : Codec α} {b : Codec β} {bs rest : List UInt8}
    {x : α × β} : (a.pair b).decode bs = some (x, rest) ↔
      ∃ mid, a.decode bs = some (x.1, mid) ∧ b.decode mid = some (x.2, rest) := by
  constructor
  · intro h
    obtain ⟨⟨y, mid⟩, hy, hrest⟩ := Option.bind_eq_some_iff.1 h
    obtain ⟨⟨z, _⟩, hz, heq⟩ := Option.map_eq_some_iff.1 hrest
    cases heq
    exact ⟨mid, hy, hz⟩
  · rintro ⟨mid, hx, hy⟩
    change (a.decode bs).bind _ = _
    rw [hx, Option.bind_some, hy]
    rfl

/-- The same format for another type. -/
def equiv (a : Codec α) (e : α ≃ β) : Codec β where
  encode y := a.encode (e.symm y)
  decode bs := (a.decode bs).map fun x => (e x.1, x.2)
  decode_encode y rest := by
    rw [a.decode_encode, Option.map_some, e.apply_symm_apply]

theorem equiv_decode_iff {a : Codec α} {e : α ≃ β} {bs rest : List UInt8}
    {y : β} : (a.equiv e).decode bs = some (y, rest) ↔
      a.decode bs = some (e.symm y, rest) := by
  constructor
  · intro h
    obtain ⟨⟨x, _⟩, hx, heq⟩ := Option.map_eq_some_iff.1 h
    cases heq
    rw [e.symm_apply_apply]
    exact hx
  · intro h
    change (a.decode bs).map _ = _
    rw [h, Option.map_some, e.apply_symm_apply]

/-! ## Numbers -/

/-- The lowest `width` bytes of a number, the lowest first. -/
def le : (width : Nat) → Nat → List UInt8
  | 0, _ => []
  | width + 1, n => UInt8.ofNat n :: le width (n / 256)

/-- The number that bytes stand for, the lowest first. -/
def ofLe : List UInt8 → Nat
  | [] => 0
  | b :: bs => b.toNat + 256 * ofLe bs

@[simp]
theorem length_le (width n : Nat) : (le width n).length = width := by
  induction width generalizing n with
  | zero => rfl
  | succ width ih => rw [le, List.length_cons, ih]

theorem ofLe_le {width n : Nat} (h : n < 256 ^ width) :
    ofLe (le width n) = n := by
  induction width generalizing n with
  | zero =>
    rw [pow_zero] at h
    rw [le, ofLe]
    omega
  | succ width ih =>
    have hdiv : n / 256 < 256 ^ width := by
      rw [Nat.div_lt_iff_lt_mul (by decide), ← pow_succ]
      exact h
    rw [le, ofLe, ih hdiv, UInt8.toNat_ofNat']
    change n % 256 + 256 * (n / 256) = n
    omega

theorem ofLe_lt (bs : List UInt8) : ofLe bs < 256 ^ bs.length := by
  induction bs with
  | nil => exact Nat.one_pos
  | cons b bs ih =>
    have hb := b.toNat_lt
    rw [ofLe, List.length_cons, pow_succ]
    omega

/-- How many bytes follow a marker. -/
def markerWidth (marker : UInt8) : Nat :=
  if marker = 0xfd then 2 else if marker = 0xfe then 4 else 8

theorem markerWidth_le (marker : UInt8) : markerWidth marker ≤ 8 := by
  unfold markerWidth
  split_ifs <;> decide

/-- The numbers that `compactSize` can write. -/
abbrev Size := { n : Nat // n < 2 ^ 64 }

/-- The bytes of a number in the shortest form. -/
def encodeSize (n : Nat) : List UInt8 :=
  if n < 0xfd then [UInt8.ofNat n]
  else if n < 2 ^ 16 then 0xfd :: le 2 n
  else if n < 2 ^ 32 then 0xfe :: le 4 n
  else 0xff :: le 8 n

/-- Reads any form of a number. -/
def decodeSize : List UInt8 → Option (Size × List UInt8)
  | [] => none
  | b :: bs =>
    if b.toNat < 0xfd then
      some (⟨b.toNat, lt_of_lt_of_le b.toNat_lt (by decide)⟩, bs)
    else
      ((bytes (markerWidth b)).decode bs).map fun x =>
        (⟨ofLe x.1.1, lt_of_lt_of_le (ofLe_lt _) (by
          rw [x.1.2]
          exact Nat.pow_le_pow_right (by decide) (markerWidth_le b))⟩, x.2)

theorem decodeSize_marker (marker : UInt8) (hmarker : ¬ marker.toNat < 0xfd)
    {n : Size} (hn : n.1 < 256 ^ markerWidth marker) (rest : List UInt8) :
    decodeSize (marker :: le (markerWidth marker) n.1 ++ rest) =
      some (n, rest) := by
  have hread := (bytes (markerWidth marker)).decode_encode
    ⟨le (markerWidth marker) n.1, length_le _ _⟩ rest
  rw [List.cons_append, decodeSize, if_neg hmarker]
  change Option.map _ ((bytes (markerWidth marker)).decode
    ((bytes (markerWidth marker)).encode ⟨le _ n.1, length_le _ _⟩ ++ rest)) = _
  rw [hread, Option.map_some]
  congr 2
  exact Subtype.ext (ofLe_le hn)

/-- A number in the shortest form. -/
def compactSize : Codec Size where
  encode n := encodeSize n.1
  decode := decodeSize
  decode_encode n rest := by
    unfold encodeSize
    split_ifs with hbyte htwo hfour
    · have hn : (UInt8.ofNat n.1).toNat = n.1 := by
        rw [UInt8.toNat_ofNat']
        exact Nat.mod_eq_of_lt (lt_of_lt_of_le hbyte (by decide))
      rw [List.singleton_append, decodeSize, if_pos (by rw [hn]; exact hbyte)]
      congr 2
      exact Subtype.ext hn
    · exact decodeSize_marker 0xfd (by decide) htwo rest
    · exact decodeSize_marker 0xfe (by decide) hfour rest
    · exact decodeSize_marker 0xff (by decide) n.2 rest

/-! ## Lists -/

/-- The lists whose length can be written. -/
abbrev Vec (α : Type) := { as : List α // as.length < 2 ^ 64 }

/-- Reads a number of values. -/
def decodeMany (a : Codec α) : Nat → List UInt8 → Option (List α × List UInt8)
  | 0, bs => some ([], bs)
  | n + 1, bs => (a.decode bs).bind fun x =>
    (decodeMany a n x.2).map fun y => (x.1 :: y.1, y.2)

theorem decodeMany_flatMap (a : Codec α) (as : List α) (rest : List UInt8) :
    decodeMany a as.length (as.flatMap a.encode ++ rest) = some (as, rest) := by
  induction as with
  | nil => rfl
  | cons x as ih =>
    rw [List.length_cons, List.flatMap_cons, List.append_assoc, decodeMany,
      a.decode_encode, Option.bind_some, ih, Option.map_some]

theorem length_decodeMany (a : Codec α) {n : Nat} {bs : List UInt8}
    {x : List α × List UInt8} (h : decodeMany a n bs = some x) :
    x.1.length = n := by
  induction n generalizing bs x with
  | zero =>
    cases h
    rfl
  | succ n ih =>
    obtain ⟨y, _, hy⟩ := Option.bind_eq_some_iff.1 h
    obtain ⟨z, hz, rfl⟩ := Option.map_eq_some_iff.1 hy
    rw [List.length_cons, ih hz]

/-- A list with its length in front. -/
def vec (a : Codec α) : Codec (Vec α) where
  encode as := compactSize.encode ⟨as.1.length, as.2⟩ ++ as.1.flatMap a.encode
  decode bs :=
    match compactSize.decode bs with
    | none => none
    | some (n, bs) =>
      match h : decodeMany a n.1 bs with
      | none => none
      | some x => some (⟨x.1, by rw [length_decodeMany a h]; exact n.2⟩, x.2)
  decode_encode as rest := by
    rw [List.append_assoc, compactSize.decode_encode]
    have hread := decodeMany_flatMap a as.1 rest
    dsimp only
    split
    · rename_i hnone
      rw [hread] at hnone
      cases hnone
    · rename_i x hsome
      rw [hread] at hsome
      cases hsome
      rfl

theorem vec_decode_iff {a : Codec α} {bs rest : List UInt8} {as : Vec α} :
    a.vec.decode bs = some (as, rest) ↔ ∃ n mid,
      decodeSize bs = some (n, mid) ∧ decodeMany a n.1 mid = some (as.1, rest) := by
  change (match decodeSize bs with
    | none => none
    | some (n, bs) =>
      match h : decodeMany a n.1 bs with
      | none => none
      | some x => some (⟨x.1, by rw [length_decodeMany a h]; exact n.2⟩, x.2)) =
    some (as, rest) ↔ _
  split
  · rename_i hsize
    constructor
    · intro h
      cases h
    · rintro ⟨n, mid, h, _⟩
      rw [hsize] at h
      cases h
  · rename_i n mid hsize
    split
    · rename_i hmany
      constructor
      · intro h
        cases h
      · rintro ⟨n', mid', h, hmany'⟩
        cases hsize.symm.trans h
        cases hmany.symm.trans hmany'
    · rename_i x hmany
      constructor
      · intro h
        cases h
        exact ⟨n, mid, hsize, hmany⟩
      · rintro ⟨n', mid', h, hmany'⟩
        cases hsize.symm.trans h
        cases hmany.symm.trans hmany'
        rfl

/-- Bytes with their number in front. -/
def blob : Codec (Vec UInt8) where
  encode as := compactSize.encode ⟨as.1.length, as.2⟩ ++ as.1
  decode bs := (compactSize.decode bs).bind fun n =>
    ((bytes n.1.1).decode n.2).map fun x =>
      (⟨x.1.1, by rw [x.1.2]; exact n.1.2⟩, x.2)
  decode_encode as rest := by
    have hread := (bytes as.1.length).decode_encode ⟨as.1, rfl⟩ rest
    change (bytes as.1.length).decode (as.1 ++ rest) = _ at hread
    rw [List.append_assoc, compactSize.decode_encode, Option.bind_some, hread,
      Option.map_some]

/-- Bytes with their number in front, in any form. -/
theorem blob_decode {size : List UInt8} {n : Size} {as rest : List UInt8}
    (hsize : ∀ rest, decodeSize (size ++ rest) = some (n, rest))
    (hlength : as.length = n.1) :
    blob.decode (size ++ (as ++ rest)) =
      some (⟨as, hlength ▸ n.2⟩, rest) := by
  obtain ⟨n, hn⟩ := n
  cases hlength
  have hread := (bytes as.length).decode_encode ⟨as, rfl⟩ rest
  change (bytes as.length).decode (as ++ rest) = _ at hread
  change (decodeSize _).bind _ = _
  rw [hsize, Option.bind_some, hread]
  rfl

end Codec
