import Mathlib.Data.List.Infix

/-!
# Hexadecimal text and `LIKE` patterns

Small pieces of text processing that a program leaves to its libraries.

* `hexEncode` writes bytes with the digits `0` to `9` and `a` to `f`, as
  `hex::encode` does.  `hexDecode` reads both letter cases, as `hex::decode`
  does, so two texts may stand for the same bytes.
* `hexPadded` writes a number with as many digits as asked for.  It is read
  byte by byte: `hexPadded_succ` splits off the last one.
* `like` is the `LIKE` operator of SQLite: `%` stands for any text, `_` for
  any character, and ASCII letters match in both cases.

`like_hex_append` puts them together.  A text that starts with hex digits in
lower case matches a pattern of as many such digits and a `%` only when the
digits are the same, although `like` itself does not look at the case.
-/

namespace Text

/-! ## Hexadecimal text -/

/-- The characters that `hexEncode` writes. -/
def IsHexDigit (c : Char) : Prop := c ∈ "0123456789abcdef".toList

instance (c : Char) : Decidable (IsHexDigit c) :=
  inferInstanceAs (Decidable (c ∈ "0123456789abcdef".toList))

/-- The value of a hex digit, in either case. -/
def hexValue (c : Char) : Option Nat :=
  if '0' ≤ c ∧ c ≤ '9' then some (c.toNat - 48)
  else if 'a' ≤ c ∧ c ≤ 'f' then some (c.toNat - 87)
  else if 'A' ≤ c ∧ c ≤ 'F' then some (c.toNat - 55)
  else none

/-- The two digits of a byte. -/
def hexByte (b : UInt8) : List Char :=
  [Nat.digitChar (b.toNat / 16), Nat.digitChar (b.toNat % 16)]

/-- Bytes as hexadecimal text in lower case. -/
def hexEncode (bs : List UInt8) : String := String.ofList (bs.flatMap hexByte)

/-- The bytes that pairs of hex digits stand for. -/
def hexDecodeChars : List Char → Option (List UInt8)
  | [] => some []
  | [_] => none
  | a :: b :: cs =>
    match hexValue a, hexValue b, hexDecodeChars cs with
    | some x, some y, some bs => some (UInt8.ofNat (16 * x + y) :: bs)
    | _, _, _ => none

/-- The bytes that a hexadecimal text stands for. -/
def hexDecode (s : String) : Option (List UInt8) := hexDecodeChars s.toList

theorem isHexDigit_digitChar {n : Nat} (h : n < 16) :
    IsHexDigit (Nat.digitChar n) := by
  have hall : ∀ m : Fin 16, IsHexDigit (Nat.digitChar m) := by decide
  exact hall ⟨n, h⟩

/-- `hexEncode` writes hex digits in lower case. -/
theorem isHexDigit_of_mem_hexEncode {bs : List UInt8} {c : Char}
    (h : c ∈ (hexEncode bs).toList) : IsHexDigit c := by
  rw [hexEncode, String.toList_ofList, List.mem_flatMap] at h
  obtain ⟨b, _, hc⟩ := h
  have hb := b.toNat_lt
  rcases List.mem_cons.1 hc with rfl | hc
  · exact isHexDigit_digitChar (by omega)
  · rw [List.mem_singleton.1 hc]
    exact isHexDigit_digitChar (by omega)

theorem length_hexEncode (bs : List UInt8) :
    (hexEncode bs).toList.length = 2 * bs.length := by
  rw [hexEncode, String.toList_ofList]
  induction bs with
  | nil => rfl
  | cons b bs ih =>
    rw [List.flatMap_cons, List.length_append, ih, List.length_cons]
    change 2 + 2 * bs.length = _
    omega

theorem hexValue_digitChar {n : Nat} (h : n < 16) :
    hexValue (Nat.digitChar n) = some n := by
  have hall : ∀ m : Fin 16, hexValue (Nat.digitChar m) = some m.1 := by decide
  exact hall ⟨n, h⟩

/-- Reading what `hexEncode` wrote gives the bytes back. -/
theorem hexDecode_hexEncode (bs : List UInt8) :
    hexDecode (hexEncode bs) = some bs := by
  rw [hexDecode, hexEncode, String.toList_ofList]
  induction bs with
  | nil => rfl
  | cons b bs ih =>
    have hb := b.toNat_lt
    have hbyte : 16 * (b.toNat / 16) + b.toNat % 16 = b.toNat := by omega
    rw [List.flatMap_cons, hexByte]
    simp only [List.cons_append, List.nil_append, hexDecodeChars, ih,
      hexValue_digitChar (show b.toNat / 16 < 16 by omega),
      hexValue_digitChar (show b.toNat % 16 < 16 by omega), hbyte,
      UInt8.ofNat_toNat]

theorem hexEncode_inj {bs bs' : List UInt8}
    (h : hexEncode bs = hexEncode bs') : bs = bs' := by
  have hdecode := hexDecode_hexEncode bs
  rw [h, hexDecode_hexEncode] at hdecode
  exact (Option.some.inj hdecode).symm

/-- Two texts of whole bytes stand for the bytes of the first and then those
of the second. -/
theorem hexDecodeChars_append {cs cs' : List Char} {bs bs' : List UInt8}
    (hs : hexDecodeChars cs = some bs) (ht : hexDecodeChars cs' = some bs') :
    hexDecodeChars (cs ++ cs') = some (bs ++ bs') := by
  fun_induction hexDecodeChars cs generalizing bs with
  | case1 =>
    cases hs
    exact ht
  | case2 => cases hs
  | case3 a b cs x y bs₀ hbs hy hx ih =>
    cases hs
    rw [List.cons_append, List.cons_append, hexDecodeChars, hx, hy, ih hbs]
    rfl
  | case4 => cases hs

theorem hexDecode_append {s t : String} {bs bs' : List UInt8}
    (hs : hexDecode s = some bs) (ht : hexDecode t = some bs') :
    hexDecode (s ++ t) = some (bs ++ bs') := by
  rw [hexDecode, String.toList_append]
  exact hexDecodeChars_append hs ht

/-- Hex digits of an even number stand for half as many bytes. -/
theorem hexDecodeChars_of_all {cs : List Char}
    (hdigits : ∀ c ∈ cs, (hexValue c).isSome = true)
    (heven : cs.length % 2 = 0) :
    ∃ bs, hexDecodeChars cs = some bs := by
  fun_induction hexDecodeChars cs with
  | case1 => exact ⟨_, rfl⟩
  | case2 => cases heven
  | case3 => exact ⟨_, rfl⟩
  | case4 a b cs hnone ih =>
    obtain ⟨x, hx⟩ := Option.isSome_iff_exists.1 (hdigits a (by simp))
    obtain ⟨y, hy⟩ := Option.isSome_iff_exists.1 (hdigits b (by simp))
    obtain ⟨bs, hbs⟩ := ih (fun c hc => hdigits c (by simp [hc]))
      (by rw [List.length_cons, List.length_cons] at heven; omega)
    exact absurd hbs (hnone x y bs hx hy)

/-- Only hex digits are read, two for a byte. -/
theorem hexDecodeChars_some {cs : List Char} {bs : List UInt8}
    (h : hexDecodeChars cs = some bs) :
    (∀ c ∈ cs, (hexValue c).isSome = true) ∧ cs.length = 2 * bs.length := by
  fun_induction hexDecodeChars cs generalizing bs with
  | case1 =>
    cases h
    exact ⟨fun c hc => (by cases hc), rfl⟩
  | case2 => cases h
  | case3 a b cs x y bs₀ hbs hy hx ih =>
    cases h
    obtain ⟨hdigits, hlength⟩ := ih hbs
    constructor
    · intro c hc
      rcases List.mem_cons.1 hc with rfl | hc
      · rw [hx]
        rfl
      · rcases List.mem_cons.1 hc with rfl | hc
        · rw [hy]
          rfl
        · exact hdigits c hc
    · simp only [List.length_cons, hlength]
      omega
  | case4 => cases h

/-- A text is read in two parts where whole bytes meet. -/
theorem hexDecodeChars_append_inv {cs cs' : List Char} {bs bs' : List UInt8}
    (h : hexDecodeChars (cs ++ cs') = some (bs ++ bs'))
    (hlength : cs.length = 2 * bs.length) :
    hexDecodeChars cs = some bs ∧ hexDecodeChars cs' = some bs' := by
  obtain ⟨hdigits, htotal⟩ := hexDecodeChars_some h
  rw [List.length_append, List.length_append] at htotal
  obtain ⟨b, hb⟩ := hexDecodeChars_of_all
    (fun c hc => hdigits c (List.mem_append_left _ hc)) (by omega)
  obtain ⟨b', hb'⟩ := hexDecodeChars_of_all
    (fun c hc => hdigits c (List.mem_append_right _ hc)) (by omega)
  have hparts := hexDecodeChars_append hb hb'
  rw [h] at hparts
  have hb_length := (hexDecodeChars_some hb).2
  obtain ⟨rfl, rfl⟩ := List.append_inj (Option.some.inj hparts) (by omega)
  exact ⟨hb, hb'⟩

/-- Digits are replaced by as many others. -/
theorem hexDecodeChars_replace {f m m' b : List Char} {bs : List UInt8}
    (h : hexDecodeChars (f ++ m ++ b) = some bs)
    (hdigits : ∀ c ∈ m', (hexValue c).isSome = true)
    (hlength : m'.length = m.length) :
    ∃ bs', bs'.length = bs.length ∧
      hexDecodeChars (f ++ m' ++ b) = some bs' := by
  obtain ⟨hold, holdLength⟩ := hexDecodeChars_some h
  simp only [List.length_append, List.mem_append] at hold holdLength
  obtain ⟨bs', hbs'⟩ : ∃ bs', hexDecodeChars (f ++ m' ++ b) = some bs' := by
    apply hexDecodeChars_of_all
    · intro c hc
      simp only [List.mem_append] at hc
      rcases hc with (hc | hc) | hc
      · exact hold c (Or.inl (Or.inl hc))
      · exact hdigits c hc
      · exact hold c (Or.inr hc)
    · simp only [List.length_append]
      omega
  have hnewLength := (hexDecodeChars_some hbs').2
  simp only [List.length_append] at hnewLength
  exact ⟨bs', by omega, hbs'⟩

/-- The bytes before and after those that the replaced digits touch stay. -/
theorem hexDecode_replace {front mid mid' back : String}
    {head script tail : List UInt8}
    (h : hexDecode (front ++ mid ++ back) = some (head ++ (script ++ tail)))
    (hstart : 2 * head.length ≤ front.toList.length)
    (hend : front.toList.length + mid.toList.length ≤
      2 * (head.length + script.length))
    (hdigits : ∀ c ∈ mid'.toList, (hexValue c).isSome = true)
    (hlength : mid'.toList.length = mid.toList.length) :
    ∃ script', script'.length = script.length ∧
      hexDecode (front ++ mid' ++ back) = some (head ++ (script' ++ tail)) := by
  unfold hexDecode at h ⊢
  simp only [String.toList_append] at h ⊢
  generalize front.toList = f at *
  generalize mid.toList = m at *
  generalize mid'.toList = m' at *
  generalize back.toList = b at *
  obtain ⟨k, hk⟩ : ∃ k, f.length + m.length + k =
    2 * (head.length + script.length) := ⟨_, Nat.add_sub_of_le hend⟩
  have hsplit : ∀ x, f ++ x ++ b = f.take (2 * head.length) ++
      ((f.drop (2 * head.length) ++ x ++ b.take k) ++ b.drop k) := by
    intro x
    conv_lhs => rw [← List.take_append_drop (2 * head.length) f,
      ← List.take_append_drop k b]
    simp only [List.append_assoc]
  have htotal := (hexDecodeChars_some h).2
  simp only [List.length_append] at htotal
  rw [hsplit] at h
  obtain ⟨hhead, h⟩ := hexDecodeChars_append_inv h
    (List.length_take_of_le hstart)
  obtain ⟨hscript, htail⟩ := hexDecodeChars_append_inv h (by
    simp only [List.length_append, List.length_drop, List.length_take]
    omega)
  obtain ⟨script', hsame, hscript'⟩ :=
    hexDecodeChars_replace hscript hdigits hlength
  refine ⟨script', hsame, ?_⟩
  rw [hsplit]
  exact hexDecodeChars_append hhead (hexDecodeChars_append hscript' htail)

theorem utf8Size_of_hexValue {c : Char} (h : (hexValue c).isSome = true) :
    c.utf8Size = 1 := by
  rw [Char.utf8Size_eq_one_iff]
  unfold hexValue at h
  split_ifs at h with hdigit hlower hupper
  · exact UInt32.le_trans hdigit.2 (by decide)
  · exact UInt32.le_trans hlower.2 (by decide)
  · exact UInt32.le_trans hupper.2 (by decide)
  · cases h

/-- A hex digit takes one byte of UTF-8. -/
theorem utf8ByteSize_of_all {s : String}
    (h : ∀ c ∈ s.toList, (hexValue c).isSome = true) :
    s.utf8ByteSize = s.toList.length := by
  rw [← String.ofList_toList (s := s)]
  generalize s.toList = cs at h
  rw [String.toList_ofList]
  induction cs with
  | nil => rfl
  | cons c cs ih =>
    rw [String.ofList_cons, String.utf8ByteSize_append,
      String.utf8ByteSize_singleton, utf8Size_of_hexValue (h c (by simp)),
      ih fun a ha => h a (by simp [ha]), List.length_cons]
    omega

/-! ## Numbers of a fixed width -/

/-- A number in hexadecimal, with zeros in front up to a width: the format
`{:0width$x}` of Rust. -/
def hexPadded (width n : Nat) : String :=
  String.ofList ((Nat.toDigits 16 n).leftpad width '0')

/-- The last digit of a number. -/
theorem leftpad_toDigits_succ {width : Nat} (hwidth : 0 < width) (n : Nat) :
    (Nat.toDigits 16 n).leftpad (width + 1) '0' =
      (Nat.toDigits 16 (n / 16)).leftpad width '0' ++
        [Nat.digitChar (n % 16)] := by
  unfold List.leftpad
  rcases Nat.lt_or_ge n 16 with hsmall | hlarge
  · rw [Nat.toDigits_of_lt_base hsmall, Nat.div_eq_of_lt hsmall,
      Nat.toDigits_zero, Nat.mod_eq_of_lt hsmall]
    obtain ⟨width, rfl⟩ := Nat.exists_eq_succ_of_ne_zero hwidth.ne'
    simp [List.replicate_succ']
  · rw [Nat.toDigits_of_base_le (by decide) hlarge, List.length_append,
      List.length_singleton, Nat.add_sub_add_right, List.append_assoc]

theorem hexByte_ofNat (n : Nat) : hexByte (UInt8.ofNat n) =
    [Nat.digitChar (n / 16 % 16), Nat.digitChar (n % 16)] := by
  have hhigh : n % 2 ^ 8 / 16 = n / 16 % 16 := by omega
  have hlow : n % 2 ^ 8 % 16 = n % 16 := by omega
  rw [hexByte, UInt8.toNat_ofNat', hhigh, hlow]

/-- The last byte of a number. -/
theorem hexPadded_succ {k : Nat} (hk : 0 < k) (n : Nat) :
    (hexPadded (2 * (k + 1)) n).toList =
      (hexPadded (2 * k) (n / 256)).toList ++ hexByte (UInt8.ofNat n) := by
  rw [hexPadded, hexPadded, String.toList_ofList, String.toList_ofList,
    hexByte_ofNat, show 2 * (k + 1) = 2 * k + 1 + 1 by omega,
    leftpad_toDigits_succ (by omega), leftpad_toDigits_succ (by omega),
    Nat.div_div_eq_div_mul, List.append_assoc]
  rfl

/-- A number of one byte. -/
theorem hexPadded_byte {n : Nat} (h : n < 256) :
    (hexPadded 2 n).toList = hexByte (UInt8.ofNat n) := by
  have hhigh : n / 16 < 16 := by omega
  rw [hexPadded, String.toList_ofList, hexByte_ofNat,
    leftpad_toDigits_succ (by decide), Nat.toDigits_of_lt_base hhigh,
    Nat.mod_eq_of_lt hhigh]
  rfl

/-! ## `LIKE` patterns -/

/-- One character of a pattern against one character of a text. -/
def likeChar (p c : Char) : Bool := p == '_' || p.toLower == c.toLower

/-- The `LIKE` operator, with the pattern first. -/
def like : List Char → List Char → Bool
  | [], t => t.isEmpty
  | p :: ps, t =>
    if p = '%' then t.tails.any (like ps)
    else
      match t with
      | [] => false
      | c :: cs => likeChar p c && like ps cs

theorem likeChar_hex {p c : Char} (hp : IsHexDigit p) (hc : IsHexDigit c) :
    likeChar p c = true ↔ p = c := by
  have hall : ("0123456789abcdef".toList.all fun a =>
      "0123456789abcdef".toList.all fun b =>
        decide (likeChar a b = true ↔ a = b)) = true := by
    decide
  have hp' := List.all_eq_true.1 hall p hp
  exact of_decide_eq_true (List.all_eq_true.1 hp' c hc)

theorem like_percent (t : List Char) : like ['%'] t = true := by
  simp only [like, if_true, List.any_eq_true]
  exact ⟨[], (List.mem_tails _ _).2 List.nil_suffix, rfl⟩

/-- Hex digits followed by `%` against a text that starts with as many hex
digits: the digits have to be the same. -/
theorem like_hex_append {h h' : List Char} (rest : List Char)
    (hh : ∀ c ∈ h, IsHexDigit c) (hh' : ∀ c ∈ h', IsHexDigit c)
    (hlen : h.length = h'.length) :
    like (h ++ ['%']) (h' ++ rest) = true ↔ h = h' := by
  induction h generalizing h' with
  | nil =>
    have hnil : h' = [] := List.length_eq_zero_iff.1 hlen.symm
    subst hnil
    exact ⟨fun _ => rfl, fun _ => like_percent _⟩
  | cons p ps ih =>
    cases h' with
    | nil => exact absurd hlen (by simp)
    | cons c cs =>
      have hp : IsHexDigit p := hh p (by simp)
      have hc : IsHexDigit c := hh' c (by simp)
      have hne : p ≠ '%' := by
        rintro rfl
        exact absurd hp (by decide)
      have htail := @ih cs (fun a ha => hh a (by simp [ha]))
        (fun a ha => hh' a (by simp [ha])) (by simpa using hlen)
      simp only [List.cons_append, like, if_neg hne, Bool.and_eq_true,
        likeChar_hex hp hc, htail, List.cons.injEq]

end Text
