import EvmCore.Create
import EvmCore.Proofs.WordRange
import Mathlib

/-!
# What contract addresses are made from

The address of a new contract is cut from a hash. Two contracts can meet at one address only by a
collision of the hash, because what is hashed tells everything: which of the two ways of creating it
was, who created it, and at which nonce or from which salt and code. This is
`Address.Origin.preimage_injective`.

The encoded list of a creator and a nonce is taken apart by sizes alone. A longer payload has no
shorter header, so the size of the whole fixes that of the payload
(`Rlp.strictMono_size_header_add`). Hence putting a header before a payload loses nothing
(`Rlp.header_append_injective`), for strings and for lists, and whatever the base of the header is.
Only where a byte stands for itself does the encoding of a string look at what it encodes
(`Rlp.encodeBytes_injective`).

The other preimage starts with the byte `0xff` and has 85 bytes. A list of that size has a header
that starts with a lower byte (`Address.createPreimage_ne_saltedPreimage`).
-/

namespace EvmCore

/-! ### Byte strings and the numbers they write -/

namespace Bytes

/-- Two strings that are split at one place agree on both sides of it. -/
theorem append_inj {a a' b b' : ByteArray} (h : a ++ b = a' ++ b') (hsize : a.size = a'.size) :
    a = a' ∧ b = b' := by
  obtain rfl : a = a' := ByteArray.append_inj_left h hsize
  exact ⟨rfl, (ByteArray.append_right_inj a).mp h⟩

/-- One more byte, behind the others. -/
theorem toNat_push (b : ByteArray) (x : UInt8) : toNat (b.push x) = toNat b * 256 + x.toNat := by
  rw [toNat, ByteArray.data_push, Array.foldl_push]
  rfl

/-- The lowest bytes of a number write its remainder. -/
theorem toNat_ofNat (k n : Nat) : toNat (ofNat k n) = n % 256 ^ k := by
  -- by induction on the number of bytes, of which the last is the remainder
  induction k generalizing n with
  | zero => rw [pow_zero, Nat.mod_one]; rfl
  | succ k ih =>
    have hbyte : (UInt8.ofNat (n % 256)).toNat = n % 256 :=
      UInt8.toNat_ofNat_of_lt' (Nat.mod_lt n (by decide))
    calc toNat (ofNat (k + 1) n)
        = toNat (ofNat k (n / 256)) * 256 + n % 256 := by rw [ofNat, toNat_push, hbyte]
      _ = n % 256 + 256 * (n / 256 % 256 ^ k) := by rw [ih]; ring
      _ = n % 256 ^ (k + 1) := by rw [← Nat.mod_mul, pow_succ']

/-- Numbers that fit are told by their bytes. -/
theorem ofNat_inj {k m n : Nat} (hm : m < 256 ^ k) (hn : n < 256 ^ k) (h : ofNat k m = ofNat k n) :
    m = n := by
  calc m = toNat (ofNat k m) := by rw [toNat_ofNat, Nat.mod_eq_of_lt hm]
    _ = toNat (ofNat k n) := by rw [h]
    _ = n := by rw [toNat_ofNat, Nat.mod_eq_of_lt hn]

/-- The 32 bytes of a word tell the word. -/
theorem ofNat_toNat_inj {v w : Word} (hv : Word.InRange v) (hw : Word.InRange w)
    (h : ofNat 32 v.toNat = ofNat 32 w.toNat) : v = w := by
  have hpow : 2 ^ 256 = 256 ^ 32 := by norm_num
  obtain ⟨m, rfl, hm⟩ := hv.exists_nat
  obtain ⟨n, rfl, hn⟩ := hw.exists_nat
  rw [Int.toNat_natCast, Int.toNat_natCast] at h
  exact congrArg _ (ofNat_inj (hpow ▸ hm) (hpow ▸ hn) h)

end Bytes

/-- A number can be written in `k` bytes exactly if it is below `256 ^ k`. -/
theorem Word.byteLength_le_iff {n k : Nat} : byteLength n ≤ k ↔ n < 256 ^ k := by
  rw [byteLength, Int.natAbs_natCast]
  split
  · next hzero =>
    obtain rfl : n = 0 := Int.ofNat_eq_zero.mp hzero
    simp
  · next hne =>
    calc (Nat.log2 n + 8) / 8 ≤ k ↔ Nat.log2 n < 8 * k := by omega
      _ ↔ n < 2 ^ (8 * k) := Nat.log2_lt (by omega)
      _ ↔ n < 256 ^ k := by rw [pow_mul]; norm_num

/-! ### Encodings -/

namespace Rlp

theorem size_digits (n : Nat) : (digits n).size = Word.byteLength n := Bytes.size_ofNat _ n

theorem toNat_digits (n : Nat) : Bytes.toNat (digits n) = n := by
  rw [digits, Bytes.toNat_ofNat, Nat.mod_eq_of_lt (Word.byteLength_le_iff.mp le_rfl)]

/-- **Numbers of any size** have digits of their own. -/
theorem digits_injective : Function.Injective digits :=
  Function.LeftInverse.injective toNat_digits

/-- The size of a header. -/
theorem size_header (base n : Nat) :
    (header base n).size = if n < 56 then 1 else 1 + Word.byteLength n := by
  rw [header]
  split
  · rfl
  · rw [ByteArray.size_append, size_digits]
    rfl

/-- The first byte of a header, whatever follows it. -/
theorem header_append_getElem?_zero (base n : Nat) (b : ByteArray) : (header base n ++ b).data[0]? =
    some (UInt8.ofNat (if n < 56 then base + n else base + 55 + Word.byteLength n)) := by
  rw [header]
  split
  · rw [ByteArray.data_append, Array.getElem?_append_left Nat.zero_lt_one]
    rfl
  · rw [ByteArray.append_assoc, ByteArray.data_append, Array.getElem?_append_left Nat.zero_lt_one,
      size_digits]
    rfl

/-- **Header and payload together** are the longer, the longer the payload is. -/
theorem strictMono_size_header_add (base : Nat) : StrictMono fun n => (header base n).size + n := by
  intro m n hlt
  have hlength : Word.byteLength m ≤ Word.byteLength n :=
    Word.byteLength_le_iff.mpr (hlt.trans (Word.byteLength_le_iff.mp le_rfl))
  -- a payload that is long enough for a longer header is longer by itself
  simp only [size_header]
  split <;> split <;> omega

/-- **A header loses nothing** of the payload that follows it. -/
theorem header_append_injective (base : Nat) :
    Function.Injective fun payload : ByteArray => header base payload.size ++ payload := by
  intro p q h
  have hwhole : (header base p.size).size + p.size = (header base q.size).size + q.size := by
    simpa only [ByteArray.size_append] using congrArg ByteArray.size h
  have hsize : p.size = q.size := (strictMono_size_header_add base).injective hwhole
  exact (Bytes.append_inj h (by rw [hsize])).2

/-- A byte that stands for itself is not the encoding of any other string. -/
theorem ne_header_append {b : ByteArray} (hb : b.size = 1 ∧ b.data[0]?.getD 0 < 0x80)
    (c : ByteArray) :
    b ≠ header 0x80 c.size ++ c := by
  intro h
  have hsize : 1 = (header 0x80 c.size).size + c.size := by
    rw [← hb.1, h, ByteArray.size_append]
  have hempty : c.size = 0 := by
    rw [size_header] at hsize
    split at hsize <;> omega
  -- the empty string is encoded as the byte `0x80`, which does not stand for itself
  rw [ByteArray.size_eq_zero_iff.mp hempty] at h
  rw [h] at hb
  exact absurd hb.2 (by decide)

/-- A short string takes one byte more when it is encoded. -/
theorem size_encodeBytes_of_lt {b : ByteArray} (hlong : 1 < b.size) (hshort : b.size < 56) :
    (encodeBytes b).size = 1 + b.size := by
  rw [encodeBytes, if_neg (by omega), ByteArray.size_append, size_header, if_pos hshort]

/-- **Strings** have encodings of their own. -/
theorem encodeBytes_injective : Function.Injective encodeBytes := by
  intro b c h
  rw [encodeBytes, encodeBytes] at h
  -- each of the two either stands for itself or has a header
  split at h
  · next hb =>
    split at h
    · exact h
    · exact absurd h (ne_header_append hb c)
  · split at h
    · next hc => exact absurd h.symm (ne_header_append hc b)
    · exact header_append_injective 0x80 h

end Rlp

/-! ### Preimages -/

namespace Address

variable {sender sender' salt salt' codeHash codeHash' : ByteArray} {nonce nonce' : Nat}

theorem size_toBytes (a : Address) : a.toBytes.size = 20 := Bytes.size_ofNat 20 _

/-- The payload of the list of a creator and a nonce. -/
theorem createPreimage_eq (sender : ByteArray) (nonce : Nat) :
    createPreimage sender nonce =
      Rlp.header 0xc0 (Rlp.encodeBytes sender ++ Rlp.encodeBytes (Rlp.digits nonce)).size ++
        (Rlp.encodeBytes sender ++ Rlp.encodeBytes (Rlp.digits nonce)) := by
  simp only [createPreimage, Rlp.Item.ofNat, Rlp.encode, Rlp.encodeAll, ByteArray.append_empty]

/-- **What is hashed at a nonce** tells the creator and the nonce. -/
theorem createPreimage_inj (hsender : sender.size = 20) (hsender' : sender'.size = 20)
    (h : createPreimage sender nonce = createPreimage sender' nonce') :
    sender = sender' ∧ nonce = nonce' := by
  rw [createPreimage_eq, createPreimage_eq] at h
  have hpayload := Rlp.header_append_injective 0xc0 h
  -- creators have encodings of the same size, so the list can be cut after the first
  have hsize : (Rlp.encodeBytes sender).size = (Rlp.encodeBytes sender').size := by
    rw [Rlp.size_encodeBytes_of_lt (by omega) (by omega),
      Rlp.size_encodeBytes_of_lt (by omega) (by omega), hsender, hsender']
  obtain ⟨hfirst, hsecond⟩ := Bytes.append_inj hpayload hsize
  exact ⟨Rlp.encodeBytes_injective hfirst, Rlp.digits_injective (Rlp.encodeBytes_injective hsecond)⟩

/-- A preimage with a salt has 85 bytes. -/
theorem size_saltedPreimage (hsender : sender.size = 20) (hsalt : salt.size = 32)
    (hhash : codeHash.size = 32) : (saltedPreimage sender salt codeHash).size = 85 := by
  simp only [saltedPreimage, ByteArray.size_append, hsender, hsalt, hhash]
  rfl

/-- **What is hashed with a salt** tells the creator, the salt and the code hash. -/
theorem saltedPreimage_inj (hsender : sender.size = sender'.size) (hsalt : salt.size = salt'.size)
    (h : saltedPreimage sender salt codeHash = saltedPreimage sender' salt' codeHash') :
    sender = sender' ∧ salt = salt' ∧ codeHash = codeHash' := by
  -- its parts have sizes of their own, so it can be cut from behind
  obtain ⟨h, hhash⟩ := Bytes.append_inj h (by simp only [ByteArray.size_append, hsender, hsalt])
  obtain ⟨h, hsalt⟩ := Bytes.append_inj h (by simp only [ByteArray.size_append, hsender])
  exact ⟨(Bytes.append_inj h rfl).2, hsalt, hhash⟩

/-- It starts with the byte that no list of this size starts with. -/
theorem saltedPreimage_getElem?_zero (sender salt codeHash : ByteArray) :
    (saltedPreimage sender salt codeHash).data[0]? = some 0xff := by
  rw [saltedPreimage, ByteArray.append_assoc, ByteArray.append_assoc, ByteArray.data_append,
    Array.getElem?_append_left Nat.zero_lt_one]
  rfl

/-- **The two kinds of preimage have nothing in common**, at any nonce. -/
theorem createPreimage_ne_saltedPreimage (hsender : sender'.size = 20) (hsalt : salt.size = 32)
    (hhash : codeHash.size = 32) (sender : ByteArray) (nonce : Nat) :
    createPreimage sender nonce ≠ saltedPreimage sender' salt codeHash := by
  intro h
  have hsize := size_saltedPreimage hsender hsalt hhash
  have hfirst := saltedPreimage_getElem?_zero sender' salt codeHash
  rw [← h, createPreimage_eq] at hsize hfirst
  rw [ByteArray.size_append, Rlp.size_header] at hsize
  rw [Rlp.header_append_getElem?_zero] at hfirst
  generalize (Rlp.encodeBytes sender ++ Rlp.encodeBytes (Rlp.digits nonce)).size = n at hsize hfirst
  -- a payload that leaves room for its header within 85 bytes has at most one digit of length
  have hlength : Word.byteLength n ≤ 1 := by
    rw [Word.byteLength_le_iff]
    split at hsize <;> omega
  have hbyte := congrArg UInt8.toNat (Option.some.inj hfirst)
  rw [UInt8.toNat_ofNat'] at hbyte
  change _ = 255 at hbyte
  split at hbyte <;> omega

/-- What the address of a new contract is made from. -/
inductive Origin where
  /-- Created by the account with the address `sender` at a nonce. -/
  | atNonce (sender : ByteArray) (nonce : Nat) (hsender : sender.size = 20)
  /-- Created by the account with the address `sender` with a salt, from init
  code with the hash `codeHash`. -/
  | withSalt (sender : ByteArray) (salt : Word) (codeHash : ByteArray) (hsender : sender.size = 20)
      (hsalt : Word.InRange salt) (hhash : codeHash.size = 32)

namespace Origin

/-- What is hashed for the address. -/
def preimage : Origin → ByteArray
  | .atNonce sender nonce _ => createPreimage sender nonce
  | .withSalt sender salt codeHash _ _ _ =>
    saltedPreimage sender (Bytes.ofNat 32 salt.toNat) codeHash

/-- **What is hashed tells the origin.** -/
theorem preimage_injective : Function.Injective preimage := by
  intro o o' h
  cases o with
  | atNonce sender nonce hsender =>
    cases o' with
    | atNonce sender' nonce' hsender' =>
      obtain ⟨rfl, rfl⟩ := createPreimage_inj hsender hsender' h
      rfl
    | withSalt sender' salt' codeHash' hsender' hsalt' hhash' =>
      exact absurd h (createPreimage_ne_saltedPreimage hsender' (Bytes.size_ofNat 32 _) hhash'
        sender nonce)
  | withSalt sender salt codeHash hsender hsalt hhash =>
    cases o' with
    | atNonce sender' nonce' hsender' =>
      exact absurd h.symm
        (createPreimage_ne_saltedPreimage hsender (Bytes.size_ofNat 32 _) hhash sender' nonce')
    | withSalt sender' salt' codeHash' hsender' hsalt' hhash' =>
      have hsizes : (Bytes.ofNat 32 salt.toNat).size = (Bytes.ofNat 32 salt'.toNat).size := by
        rw [Bytes.size_ofNat, Bytes.size_ofNat]
      obtain ⟨rfl, hbytes, rfl⟩ := saltedPreimage_inj (hsender.trans hsender'.symm) hsizes h
      obtain rfl : salt = salt' := Bytes.ofNat_toNat_inj hsalt hsalt' hbytes
      rfl

end Origin

/-- **Preimages of contract addresses never clash.** What is hashed tells apart the two ways of
creating a contract. In the one it tells apart all creators of 20 bytes and all nonces; in the other
all creators of 20 bytes, all words as salts and all code hashes of 32 bytes. It is this that is
hashed for the address of a contract, at every nonce and from every salt. -/
theorem contract_preimages_never_clash :
    Function.Injective Origin.preimage ∧
    (∀ (creator : Address) (nonce : Nat), Creation.addressAt creator nonce =
      .ok (ofHash (Keccak.hash
        (Origin.atNonce creator.toBytes nonce creator.size_toBytes).preimage))) ∧
    (∀ (creator : Address) (salt : Word) (initCode : ByteArray) (hsalt : Word.InRange salt),
      Creation.saltedAddress creator salt initCode =
        .ok (ofHash (Keccak.hash (Origin.withSalt creator.toBytes salt (Keccak.hash initCode)
          creator.size_toBytes hsalt (Keccak.size_hash initCode)).preimage))) := by
  refine ⟨Origin.preimage_injective, fun creator nonce => ?_, fun creator salt initCode hsalt => ?_⟩
  · rw [Creation.addressAt, if_neg (by omega)]
    rfl
  · rw [Creation.saltedAddress, Bytes.ofWord?, if_pos hsalt]
    rfl

/-- The nonces 127 and 128, of which the first is encoded as itself, and a salt. -/
theorem preimages_around_a_longer_nonce :
    let plain (nonce : Nat) := Origin.atNonce (toBytes 5) nonce (size_toBytes 5)
    (plain 127).preimage ≠ (plain 128).preimage ∧ Word.InRange 1 ∧
      ∃ o : Origin, (plain 128).preimage ≠ o.preimage ∧
        Creation.saltedAddress 5 1 .empty = .ok (ofHash (Keccak.hash o.preimage)) := by
  intro plain
  obtain ⟨hinjective, -, hsalted⟩ := contract_preimages_never_clash
  have hsalt : Word.InRange 1 := by decide
  refine ⟨hinjective.ne ?_, hsalt, _, hinjective.ne ?_, hsalted 5 1 .empty hsalt⟩
  · simp [plain]
  · simp [plain]

end Address

end EvmCore
