import StratumServer.Lib.Codec

/-!
# Transactions as bytes

The format of a transaction in the Bitcoin family: version, inputs, outputs
and lock time, where lists and scripts have their length in front.

A `Coinbase` is a transaction that is cut in the script of its only input.
`encode_transaction` says that whatever is put into the cut gives a
transaction, as long as it has the length that the script length was written
for.
-/

open Codec

/-- An input. -/
structure TxIn where
  prevOut : Field 36
  script : Vec UInt8
  sequence : Field 4
  deriving DecidableEq

/-- An output. -/
structure TxOut where
  value : Field 8
  script : Vec UInt8
  deriving DecidableEq

/-- A transaction. -/
structure Transaction where
  version : Field 4
  inputs : Vec TxIn
  outputs : Vec TxOut
  lockTime : Field 4
  deriving DecidableEq

namespace Codec

def txIn : Codec TxIn :=
  ((bytes 36).pair (blob.pair (bytes 4))).equiv
    { toFun := fun x => ⟨x.1, x.2.1, x.2.2⟩
      invFun := fun t => (t.prevOut, t.script, t.sequence)
      left_inv := fun _ => rfl
      right_inv := fun _ => rfl }

def txOut : Codec TxOut :=
  ((bytes 8).pair blob).equiv
    { toFun := fun x => ⟨x.1, x.2⟩
      invFun := fun t => (t.value, t.script)
      left_inv := fun _ => rfl
      right_inv := fun _ => rfl }

/-- The format of a transaction. -/
def transaction : Codec Transaction :=
  ((bytes 4).pair (txIn.vec.pair (txOut.vec.pair (bytes 4)))).equiv
    { toFun := fun x => ⟨x.1, x.2.1, x.2.2.1, x.2.2.2⟩
      invFun := fun t => (t.version, t.inputs, t.outputs, t.lockTime)
      left_inv := fun _ => rfl
      right_inv := fun _ => rfl }

end Codec

/-- A transaction with one input, whose script is cut.  Its length counts
`gap` bytes that are to be put in. -/
structure Coinbase (gap : Nat) where
  version : Field 4
  prevOut : Field 36
  before : List UInt8
  after : List UInt8
  bound : before.length + gap + after.length < 2 ^ 64
  sequence : Field 4
  outputs : Vec TxOut
  lockTime : Field 4

namespace Coinbase

variable {gap : Nat} (c : Coinbase gap)

/-- The bytes up to the cut.  The length of the script is among them. -/
def part1 : List UInt8 :=
  c.version.1 ++ (encodeSize 1 ++ (c.prevOut.1 ++
    (encodeSize (c.before.length + gap + c.after.length) ++ c.before)))

/-- The bytes from the cut on. -/
def part2 : List UInt8 :=
  c.after ++ (c.sequence.1 ++ (txOut.vec.encode c.outputs ++ c.lockTime.1))

/-- The script with the cut filled in. -/
def script (x : Field gap) : Vec UInt8 :=
  ⟨c.before ++ x.1 ++ c.after, by
    rw [List.length_append, List.length_append, x.2]
    exact c.bound⟩

/-- The transaction with the cut filled in. -/
def transaction (x : Field gap) : Transaction where
  version := c.version
  inputs := ⟨[⟨c.prevOut, c.script x, c.sequence⟩], by
    rw [List.length_singleton]
    decide⟩
  outputs := c.outputs
  lockTime := c.lockTime

/-- Filling the cut of the bytes gives the bytes of a transaction. -/
theorem encode_transaction (x : Field gap) :
    Codec.transaction.encode (c.transaction x) = c.part1 ++ x.1 ++ c.part2 := by
  have hlength : (c.script x).1.length =
      c.before.length + gap + c.after.length := by
    change (c.before ++ x.1 ++ c.after).length = _
    rw [List.length_append, List.length_append, x.2]
  have hinput : txIn.encode ⟨c.prevOut, c.script x, c.sequence⟩ =
      c.prevOut.1 ++ (encodeSize (c.script x).1.length ++ (c.script x).1 ++
        c.sequence.1) := rfl
  change c.version.1 ++ (encodeSize 1 ++ (txIn.encode _ ++ []) ++
    (txOut.vec.encode c.outputs ++ c.lockTime.1)) = _
  rw [hinput, hlength]
  change _ ++ (_ ++ (_ ++ (_ ++ (c.before ++ x.1 ++ c.after) ++ _) ++ _) ++ _) = _
  unfold part1 part2
  simp only [List.append_assoc, List.nil_append]

end Coinbase

/-! ## The script of the first input -/

/-- What stands in front of the script of the first input: the version, the
number of inputs, the outpoint and the length of the script.  The two numbers
may be written in any form. -/
structure ScriptHead where
  version : Field 4
  count : List UInt8
  inputs : Size
  count_reads : ∀ rest, decodeSize (count ++ rest) = some (inputs, rest)
  inputs_pos : 0 < inputs.1
  prevOut : Field 36
  size : List UInt8
  length : Size
  size_reads : ∀ rest, decodeSize (size ++ rest) = some (length, rest)

namespace ScriptHead

variable (h : ScriptHead)

def bytes : List UInt8 :=
  h.version.1 ++ (h.count ++ (h.prevOut.1 ++ h.size))

/-- The same with the numbers in their shortest form. -/
def shortest : List UInt8 :=
  h.version.1 ++ (encodeSize h.inputs.1 ++
    (h.prevOut.1 ++ encodeSize h.length.1))

/-- A number that is read from the front of two texts that are equal. -/
theorem size_append_inj {size x y : List UInt8} {n : Size}
    (hsize : ∀ rest, decodeSize (size ++ rest) = some (n, rest))
    (heq : size ++ x = encodeSize n.1 ++ y) : size = encodeSize n.1 ∧ x = y := by
  have hread := hsize x
  rw [heq] at hread
  have hxy := (compactSize.decode_encode n y).symm.trans hread
  cases hxy
  exact ⟨List.append_cancel_right heq, rfl⟩

theorem bytes_append_inj {x y : List UInt8}
    (heq : h.bytes ++ x = h.shortest ++ y) : h.bytes = h.shortest ∧ x = y := by
  unfold bytes shortest at heq ⊢
  simp only [List.append_assoc] at heq
  obtain ⟨hcount, heq⟩ :=
    size_append_inj h.count_reads (List.append_cancel_left heq)
  obtain ⟨hsize, heq⟩ :=
    size_append_inj h.size_reads (List.append_cancel_left heq)
  exact ⟨by rw [hcount, hsize], heq⟩

/-- What follows the script. -/
structure Rest where
  sequence : Field 4
  more : List TxIn
  length_more : more.length + 1 = h.inputs.1
  outputs : Vec TxOut
  lockTime : Field 4

variable {h}

def Rest.bytes (r : h.Rest) : List UInt8 :=
  r.sequence.1 ++ (r.more.flatMap txIn.encode ++
    (txOut.vec.encode r.outputs ++ r.lockTime.1))

/-- The rest is read from the front of a text. -/
def Rest.ReadFrom (r : h.Rest) (tail unread : List UInt8) : Prop :=
  ∃ b₁ b₂ b₃, (Codec.bytes 4).decode tail = some (r.sequence, b₁) ∧
    decodeMany txIn r.more.length b₁ = some (r.more, b₂) ∧
    txOut.vec.decode b₂ = some (r.outputs, b₃) ∧
    (Codec.bytes 4).decode b₃ = some (r.lockTime, unread)

/-- The first input with a script of the right length. -/
def input (h : ScriptHead) (script : List UInt8)
    (hscript : script.length = h.length.1) (sequence : Field 4) : TxIn :=
  ⟨h.prevOut, ⟨script, hscript ▸ h.length.2⟩, sequence⟩

/-- The transaction with a script of the right length. -/
def transaction (h : ScriptHead) (script : List UInt8)
    (hscript : script.length = h.length.1) (r : h.Rest) : Transaction where
  version := h.version
  inputs := ⟨h.input script hscript r.sequence :: r.more, by
    rw [List.length_cons, r.length_more]
    exact h.inputs.2⟩
  outputs := r.outputs
  lockTime := r.lockTime

variable {script tail unread : List UInt8}
  (hscript : script.length = h.length.1)

theorem encode_transaction (r : h.Rest) :
    Codec.transaction.encode (h.transaction script hscript r) =
      h.shortest ++ (script ++ r.bytes) := by
  have hinput : txIn.encode (h.input script hscript r.sequence) =
      h.prevOut.1 ++ (encodeSize script.length ++ script ++ r.sequence.1) := rfl
  change h.version.1 ++ (encodeSize (r.more.length + 1) ++
    (txIn.encode (h.input script hscript r.sequence) ++
      r.more.flatMap txIn.encode) ++
    (txOut.vec.encode r.outputs ++ r.lockTime.1)) = _
  rw [hinput, hscript, r.length_more]
  unfold shortest Rest.bytes
  simp only [List.append_assoc]

/-- The first input is read up to its script, whatever the script is. -/
theorem txIn_decode_iff {first : TxIn} :
    txIn.decode (h.prevOut.1 ++ (h.size ++ (script ++ tail))) =
        some (first, unread) ↔
      ∃ sequence, (Codec.bytes 4).decode tail = some (sequence, unread) ∧
        first = h.input script hscript sequence := by
  have hprevOut := (Codec.bytes 36).decode_encode h.prevOut
    (h.size ++ (script ++ tail))
  change (Codec.bytes 36).decode (h.prevOut.1 ++ _) = _ at hprevOut
  have hblob : blob.decode (h.size ++ (script ++ tail)) =
      some (⟨script, hscript ▸ h.length.2⟩, tail) :=
    blob_decode h.size_reads hscript
  unfold txIn
  rw [equiv_decode_iff, pair_decode_iff]
  constructor
  · rintro ⟨b₁, hfirst, hrest⟩
    obtain ⟨prevOut, script', sequence⟩ := first
    obtain ⟨b₂, hscript', hsequence⟩ := pair_decode_iff.1 hrest
    cases hprevOut.symm.trans hfirst
    cases hblob.symm.trans hscript'
    exact ⟨sequence, hsequence, rfl⟩
  · rintro ⟨sequence, hsequence, rfl⟩
    exact ⟨_, hprevOut, pair_decode_iff.2 ⟨_, hblob, hsequence⟩⟩

/-- The inputs are read likewise. -/
theorem inputs_decode_iff {inputs : Vec TxIn} :
    txIn.vec.decode (h.count ++ (h.prevOut.1 ++ (h.size ++ (script ++ tail)))) =
        some (inputs, unread) ↔
      ∃ sequence b₁ more, (Codec.bytes 4).decode tail = some (sequence, b₁) ∧
        decodeMany txIn (h.inputs.1 - 1) b₁ = some (more, unread) ∧
        inputs.1 = h.input script hscript sequence :: more := by
  have hpos := h.inputs_pos
  obtain ⟨m, hm⟩ : ∃ m, h.inputs.1 = m + 1 := ⟨h.inputs.1 - 1, by omega⟩
  rw [vec_decode_iff, hm, Nat.add_sub_cancel]
  constructor
  · rintro ⟨n, mid, hcount, hmany⟩
    cases (h.count_reads _).symm.trans hcount
    rw [hm, decodeMany] at hmany
    obtain ⟨⟨first, b₁⟩, hfirst, hmapped⟩ := Option.bind_eq_some_iff.1 hmany
    obtain ⟨⟨more, _⟩, hmore, heq⟩ := Option.map_eq_some_iff.1 hmapped
    obtain ⟨sequence, hsequence, rfl⟩ := (txIn_decode_iff hscript).1 hfirst
    obtain ⟨inputs, _⟩ := inputs
    cases heq
    exact ⟨sequence, b₁, more, hsequence, hmore, rfl⟩
  · rintro ⟨sequence, b₁, more, hsequence, hmore, hinputs⟩
    refine ⟨h.inputs, _, h.count_reads _, ?_⟩
    rw [hm, decodeMany, (txIn_decode_iff hscript).2 ⟨sequence, hsequence, rfl⟩,
      Option.bind_some, hmore, Option.map_some, hinputs]

/-- A transaction is read likewise. -/
theorem decode_iff {tx : Transaction} :
    Codec.transaction.decode (h.bytes ++ (script ++ tail)) =
        some (tx, unread) ↔
      ∃ r : h.Rest, r.ReadFrom tail unread ∧
        tx = h.transaction script hscript r := by
  have hversion := (Codec.bytes 4).decode_encode h.version
    (h.count ++ (h.prevOut.1 ++ (h.size ++ (script ++ tail))))
  change (Codec.bytes 4).decode (h.version.1 ++ _) = _ at hversion
  have hbytes : h.bytes ++ (script ++ tail) = h.version.1 ++
      (h.count ++ (h.prevOut.1 ++ (h.size ++ (script ++ tail)))) := by
    unfold bytes
    simp only [List.append_assoc]
  unfold Codec.transaction
  rw [equiv_decode_iff, pair_decode_iff, hbytes, hversion]
  constructor
  · rintro ⟨b₁, hfirst, hrest⟩
    obtain ⟨version, inputs, outputs, lockTime⟩ := tx
    cases hfirst
    obtain ⟨b₂, hinputs, hrest⟩ := pair_decode_iff.1 hrest
    obtain ⟨b₃, houtputs, hlockTime⟩ := pair_decode_iff.1 hrest
    obtain ⟨sequence, b, more, hsequence, hmore, hcons⟩ :=
      (inputs_decode_iff hscript).1 hinputs
    have hlength : more.length = h.inputs.1 - 1 := length_decodeMany txIn hmore
    have hpos := h.inputs_pos
    rw [← hlength] at hmore
    refine ⟨⟨sequence, more, by omega, outputs, lockTime⟩, ?_, ?_⟩
    · exact ⟨b, b₂, b₃, hsequence, hmore, houtputs, hlockTime⟩
    · obtain ⟨inputs, _⟩ := inputs
      cases hcons
      rfl
  · rintro ⟨r, ⟨b, b₂, b₃, hsequence, hmore, houtputs, hlockTime⟩, rfl⟩
    have hlength : r.more.length = h.inputs.1 - 1 := by
      have := r.length_more
      omega
    rw [hlength] at hmore
    refine ⟨_, rfl, pair_decode_iff.2 ⟨b₂, ?_, pair_decode_iff.2
      ⟨b₃, houtputs, hlockTime⟩⟩⟩
    exact (inputs_decode_iff hscript).2 ⟨r.sequence, b, r.more, hsequence, hmore, rfl⟩

end ScriptHead
