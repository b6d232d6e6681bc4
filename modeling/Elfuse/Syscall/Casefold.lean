/-
The escape codec for names on a case-folding volume.

A guest name that the volume could confuse with another is stored under an
escape: the prefix `.ef=` and either its bytes in lowercase hexadecimal or, for
names too long for that, its length and its bits in 12-bit symbols, each
written as one CJK ideograph. The functions below follow `casefold.c`; a C
string is the list of its bytes before the terminator.

* `escape_codec_bijective` — every name has one escape, which reads back as it.
-/
import Elfuse.Lib.Digits
import Mathlib.Data.Nat.Bitwise

namespace Elfuse

open Digits List Option Nat

/-- A C string, as its bytes before the terminating NUL. -/
abbrev Name := List UInt8

/-! ### Constants -/

/-- Model of `CASEFOLD_PREFIX`, the bytes of `.ef=`. -/
def casefoldPrefix : Name := [0x2E, 0x65, 0x66, 0x3D]

def casefoldGuestNameMax : ℕ := 255
def casefoldUnitMax : ℕ := 255

/-- Model of `CASEFOLD_HEX_MAX`: the longest name the hexadecimal tier holds. -/
def casefoldHexMax : ℕ := (casefoldUnitMax - casefoldPrefix.length) / 2

def casefoldSymBits : ℕ := 12

/-- Model of `CASEFOLD_SYMBOLS(n)`: the length symbol and one per 12 bits. -/
def casefoldSymbols (n : ℕ) : ℕ := 1 + (8 * n + casefoldSymBits - 1) / casefoldSymBits

def casefoldHostNameMax : ℕ :=
  casefoldPrefix.length + 3 * casefoldSymbols casefoldGuestNameMax

def casefoldSymBase : ℕ := 0x4E00
def casefoldSymCount : ℕ := 1 <<< casefoldSymBits

/-- The values of `errno` the codec sets. -/
inductive CodecError where
  | einval
  | enametoolong
  deriving DecidableEq, Repr

/-! ### Digits and symbols -/

def isHexDigit (c : UInt8) : Bool := (0x30 ≤ c && c ≤ 0x39) || (0x61 ≤ c && c ≤ 0x66)

def hexValue (c : UInt8) : ℕ := if c ≤ 0x39 then c.toNat - 0x30 else c.toNat - 0x61 + 10

/-- Model of `hex[v]`, the table of `casefold_escape`. -/
def hexChar (v : ℕ) : UInt8 := UInt8.ofNat (if v < 10 then 0x30 + v else 0x61 + (v - 10))

def symbolRead (p0 p1 p2 : UInt8) : Option ℕ :=
  if p0.toNat &&& 0xF0 ≠ 0xE0 ∨ p1.toNat &&& 0xC0 ≠ 0x80 ∨ p2.toNat &&& 0xC0 ≠ 0x80 then none
  else
    let cp := (p0.toNat &&& 0x0F) <<< 12 ||| (p1.toNat &&& 0x3F) <<< 6 ||| (p2.toNat &&& 0x3F)
    if cp < casefoldSymBase ∨ casefoldSymBase + casefoldSymCount ≤ cp then none
    else some (cp - casefoldSymBase)

/-- Model of `symbol_write`: the three bytes of a code point of the block. -/
def symbolWrite (value : ℕ) : Name :=
  let cp := casefoldSymBase + value
  [UInt8.ofNat (0xE0 ||| cp >>> 12), UInt8.ofNat (0x80 ||| (cp >>> 6 &&& 0x3F)),
    UInt8.ofNat (0x80 ||| (cp &&& 0x3F))]

/-- Model of `bit_at`: one bit, most significant first, or 0 past the end. -/
def bitAt (bytes : Name) (pos : ℕ) : ℕ :=
  if bytes.length ≤ pos / 8 then 0
  else (bytes.getD (pos / 8) 0).toNat >>> (7 - pos % 8) &&& 1

/-! ### Decoding -/

/-- The byte pairs of the hexadecimal tier. -/
def hexPairs : Name → Name
  | a :: b :: rest => UInt8.ofNat (hexValue a <<< 4 ||| hexValue b) :: hexPairs rest
  | _ => []

/-- The hexadecimal branch of `decode_payload`. -/
def decodeHex (tail : Name) : Option Name :=
  let n := tail.length / 2
  if tail.length % 2 ≠ 0 ∨ n = 0 ∨ casefoldHexMax < n then none
  else if tail.all isHexDigit then some (hexPairs tail)
  else none

/-- The loop of `decode_payload` that reads symbols; `room` is what the array
still holds. -/
def readSymbols : ℕ → Name → Option (List ℕ)
  | _, [] => some []
  | room + 1, p0 :: p1 :: p2 :: rest =>
    (symbolRead p0 p1 p2).bind fun v => (readSymbols room rest).map (v :: ·)
  | _, _ => none

/-- The state of the drain of `decode_payload`: the bytes produced, and the
bits not yet handed out. -/
structure Drain where
  out : Name
  acc : ℕ
  accBits : ℕ
  deriving DecidableEq, Repr

/-- The inner loop of the drain. Each round takes 8 bits, so `accBits` rounds
are enough. -/
def drainBytes (n : ℕ) : ℕ → Drain → Drain
  | 0, d => d
  | fuel + 1, d =>
    if 8 ≤ d.accBits ∧ d.out.length < n then
      drainBytes n fuel
        { out := d.out ++ [UInt8.ofNat (d.acc >>> (d.accBits - 8) &&& 0xFF)]
          acc := d.acc
          accBits := d.accBits - 8 }
    else d

/-- One round of the drain: shift a symbol in, hand out whole bytes, mask. -/
def drainSymbol (n : ℕ) (d : Drain) (sym : ℕ) : Drain :=
  let d := { d with acc := (d.acc <<< casefoldSymBits ||| sym) % 2 ^ 32
                    accBits := d.accBits + casefoldSymBits }
  let d := drainBytes n d.accBits d
  { d with acc := d.acc &&& (1 <<< d.accBits - 1) }

/-- The symbol branch of `decode_payload`, once the symbols are read. -/
def decodeSymbols : List ℕ → Option Name
  | [] => none
  | n :: payload =>
    if n ≤ casefoldHexMax ∨ casefoldGuestNameMax < n then none
    else if payload.length + 1 ≠ casefoldSymbols n then none
    else
      let d := payload.foldl (drainSymbol n) ⟨[], 0, 0⟩
      if d.out.length ≠ n then none
      else if d.acc ≠ 0 then none
      else some d.out

def decodePayload (host : Name) : Option Name :=
  if host.take casefoldPrefix.length ≠ casefoldPrefix then none
  else
    match host.drop casefoldPrefix.length with
    | [] => none
    | c :: tail =>
      if isHexDigit c then decodeHex (c :: tail)
      else (readSymbols (casefoldSymbols casefoldGuestNameMax) (c :: tail)).bind decodeSymbols

/-- Model of `decoded_is_legal`: what a directory could hold as a name. -/
def decodedIsLegal (name : Name) : Bool :=
  name.length ≠ 0 && name.length ≤ casefoldGuestNameMax &&
    name.all (fun b => b ≠ 0x2F && b ≠ 0) && name ≠ [0x2E] && name ≠ [0x2E, 0x2E]

/-- What `casefold_is_escaped` and `casefold_to_guest` both ask for: a payload
that decodes to a legal name. -/
def decodeLegal (host : Name) : Option Name :=
  (decodePayload host).filter fun name => 0 < name.length && decodedIsLegal name

def casefoldIsEscaped (host : Name) : Bool := (decodeLegal host).isSome

def casefoldNeedsEscape (name : Name) : Bool :=
  if name = [] then false
  else if name.any (fun b => 0x80 ≤ b || (0x41 ≤ b && b ≤ 0x5A)) then true
  else casefoldIsEscaped name

/-! ### Encoding -/

def hexBytes (g : Name) : Name :=
  g.flatMap fun b => [hexChar (b.toNat >>> 4), hexChar (b.toNat &&& 0x0F)]

def symbolValue (g : Name) (i : ℕ) : ℕ :=
  (List.range casefoldSymBits).foldl
    (fun value k => value <<< 1 ||| bitAt g (i * casefoldSymBits + k)) 0

/-- The symbols of the long tier: the length, then the payload. -/
def symbolsOf (g : Name) : List ℕ :=
  g.length :: (List.range (casefoldSymbols g.length - 1)).map (symbolValue g)

/-- Model of `casefold_escape` with an output buffer of `outsz` bytes. -/
def casefoldEscape (guest : Name) (outsz : ℕ) : Except CodecError Name :=
  let n := guest.length
  if n = 0 ∨ casefoldGuestNameMax < n ∨ 0x2F ∈ guest then .error .einval
  else if guest = [0x2E] ∨ guest = [0x2E, 0x2E] then .error .einval
  else if n ≤ casefoldHexMax then
    if outsz < casefoldPrefix.length + 2 * n + 1 then .error .enametoolong
    else .ok (casefoldPrefix ++ hexBytes guest)
  else
    if outsz < casefoldPrefix.length + 3 * casefoldSymbols n + 1 then .error .enametoolong
    else .ok (casefoldPrefix ++ (symbolsOf guest).flatMap symbolWrite)

/-- Model of `casefold_to_guest` with an output buffer of `outsz` bytes. -/
def casefoldToGuest (host : Name) (outsz : ℕ) : Except CodecError Name :=
  if outsz = 0 then .error .einval
  else
    match decodeLegal host with
    | some name => if outsz < name.length + 1 then .error .enametoolong else .ok name
    | none => if outsz < host.length + 1 then .error .enametoolong else .ok host

/-- Model of `name_by_rule` of `casefold-walk.c`: the spelling that follows
from the name alone. -/
def nameByRule (guest : Name) (outsz : ℕ) : Except CodecError Name :=
  if casefoldNeedsEscape guest then casefoldEscape guest outsz
  else if outsz < guest.length + 1 then .error .enametoolong
  else .ok guest

/-! ### Bytes -/

lemma forall_byte {P : UInt8 → Prop} (h : ∀ n < 256, P (UInt8.ofNat n)) (b : UInt8) : P b := by
  have hb := h b.toNat (UInt8.toNat_lt b)
  rwa [UInt8.ofNat_toNat] at hb

/-! ### Hexadecimal digits -/

lemma hexChar_spec : ∀ v < 16, isHexDigit (hexChar v) ∧ hexValue (hexChar v) = v := by
  decide

lemma hexValue_spec (c : UInt8) (h : isHexDigit c) :
    hexValue c < 16 ∧ hexChar (hexValue c) = c := by
  revert h
  apply forall_byte _ c
  decide +kernel

lemma hexPair_byte (b : UInt8) :
    UInt8.ofNat (hexValue (hexChar (b.toNat >>> 4)) <<< 4 ||| hexValue (hexChar (b.toNat &&& 0x0F)))
      = b := by
  apply forall_byte _ b
  decide +kernel

lemma byte_halves : ∀ x < 16, ∀ y < 16, (UInt8.ofNat (x <<< 4 ||| y)).toNat >>> 4 = x ∧
      (UInt8.ofNat (x <<< 4 ||| y)).toNat &&& 0x0F = y := by
  decide +kernel

lemma hexPairs_hexBytes (g : Name) : hexPairs (hexBytes g) = g := by
  induction g with
  | nil => rfl
  | cons b g ih =>
    change _ :: hexPairs (hexBytes g) = _
    rw [hexPair_byte, ih]

lemma hexBytes_length (g : Name) : (hexBytes g).length = 2 * g.length := by
  induction g with
  | nil => rfl
  | cons b g ih =>
    change (hexBytes g).length + 1 + 1 = 2 * (g.length + 1)
    omega

lemma isHexDigit_hexBytes (g : Name) : ∀ c ∈ hexBytes g, isHexDigit c := by
  intro c hc
  obtain ⟨b, -, hb⟩ := mem_flatMap.mp hc
  have hlt := UInt8.toNat_lt b
  have hhi : b.toNat >>> 4 < 16 := by
    rw [shiftRight_eq_div_pow]
    omega
  have hlo : b.toNat &&& 0x0F < 16 := and_lt_two_pow _ (by decide : 0x0F < 2 ^ 4)
  rcases mem_pair.mp hb with rfl | rfl
  · exact (hexChar_spec _ hhi).1
  · exact (hexChar_spec _ hlo).1

lemma hexBytes_hexPairs : ∀ (t : Name), t.length % 2 = 0 → (∀ c ∈ t, isHexDigit c) →
    hexBytes (hexPairs t) = t
  | [], _, _ => rfl
  | [_], h, _ => absurd h (by simp)
  | a :: b :: t, hlen, hall => by
    have ha := hexValue_spec a (hall a (by simp))
    have hb := hexValue_spec b (hall b (by simp))
    have hbyte := byte_halves _ ha.1 _ hb.1
    have ih := hexBytes_hexPairs t (by simp at hlen; omega) fun c hc => hall c (by simp [hc])
    change hexChar _ :: hexChar _ :: hexBytes (hexPairs t) = _
    rw [hbyte.1, hbyte.2, ha.2, hb.2, ih]

lemma hexPairs_length : ∀ t : Name, (hexPairs t).length = t.length / 2
  | [] => rfl
  | [_] => by simp [hexPairs]
  | a :: b :: t => by
    change (hexPairs t).length + 1 = (t.length + 1 + 1) / 2
    rw [hexPairs_length t]
    omega

/-! ### Symbols -/

lemma lead_byte (p : UInt8) (h : p.toNat &&& 0xF0 = 0xE0) :
    p = UInt8.ofNat (0xE0 + (p.toNat &&& 0x0F)) := by
  revert h
  apply forall_byte _ p
  decide +kernel

lemma tail_byte (p : UInt8) (h : p.toNat &&& 0xC0 = 0x80) :
    p = UInt8.ofNat (0x80 + (p.toNat &&& 0x3F)) := by
  revert h
  apply forall_byte _ p
  decide +kernel

lemma lead_fields : ∀ a < 16, 0xE0 ||| a = 0xE0 + a ∧
    (UInt8.ofNat (0xE0 + a)).toNat &&& 0xF0 = 0xE0 ∧
      (UInt8.ofNat (0xE0 + a)).toNat &&& 0x0F = a := by
  decide +kernel

lemma tail_fields : ∀ b < 64, 0x80 ||| b = 0x80 + b ∧
    (UInt8.ofNat (0x80 + b)).toNat &&& 0xC0 = 0x80 ∧
      (UInt8.ofNat (0x80 + b)).toNat &&& 0x3F = b := by
  decide +kernel

variable {v : ℕ} {l : List ℕ}

lemma symbolWrite_eq (hv : v < 4096) : symbolWrite v = [UInt8.ofNat (0xE0 + (0x4E00 + v) / 4096),
      UInt8.ofNat (0x80 + (0x4E00 + v) / 64 % 64), UInt8.ofNat (0x80 + (0x4E00 + v) % 64)] := by
  have h64 (x : ℕ) : x &&& 0x3F = x % 64 := and_two_pow_sub_one_eq_mod x 6
  simp only [symbolWrite, casefoldSymBase, h64, shiftRight_eq_div_pow]
  rw [(lead_fields _ (by omega)).1, (tail_fields _ (by omega)).1, (tail_fields _ (by omega)).1]

lemma symbolRead_eq (ha : a < 16) (hb : b < 64) (hc : c < 64) :
    symbolRead (UInt8.ofNat (0xE0 + a)) (UInt8.ofNat (0x80 + b)) (UInt8.ofNat (0x80 + c)) =
      if 0x4E00 ≤ a * 4096 + b * 64 + c ∧ a * 4096 + b * 64 + c < 0x4E00 + 4096
      then some (a * 4096 + b * 64 + c - 0x4E00) else none := by
  obtain ⟨-, ha1, ha2⟩ := lead_fields a ha
  obtain ⟨-, hb1, hb2⟩ := tail_fields b hb
  obtain ⟨-, hc1, hc2⟩ := tail_fields c hc
  have hcp : a <<< 12 ||| b <<< 6 ||| c = a * 4096 + b * 64 + c := by
    rw [Nat.or_assoc, ← Nat.shiftLeft_add_eq_or_of_lt (show c < 2 ^ 6 by omega),
      ← Nat.shiftLeft_add_eq_or_of_lt (show b <<< 6 + c < 2 ^ 12 by rw [Nat.shiftLeft_eq]; omega),
      Nat.shiftLeft_eq, Nat.shiftLeft_eq]
    omega
  have hcount : casefoldSymCount = 4096 := rfl
  simp only [symbolRead, ha1, hb1, hc1, ha2, hb2, hc2, hcp, hcount, casefoldSymBase]
  by_cases hin : 0x4E00 ≤ a * 4096 + b * 64 + c ∧ a * 4096 + b * 64 + c < 0x4E00 + 4096
  · rw [if_pos hin, if_neg (by simp), if_neg (by omega)]
  · rw [if_neg hin, if_neg (by simp), if_pos (by omega)]

lemma symbolRead_symbolWrite (hv : v < 4096) :
    ∃ p0 p1 p2, symbolWrite v = [p0, p1, p2] ∧ symbolRead p0 p1 p2 = some v := by
  refine ⟨_, _, _, symbolWrite_eq hv, ?_⟩
  rw [symbolRead_eq (by omega) (by omega) (by omega), if_pos (by omega), some.injEq]
  omega

lemma symbolRead_some (h : symbolRead p0 p1 p2 = some v) :
    v < 4096 ∧ symbolWrite v = [p0, p1, p2] := by
  by_cases hform : p0.toNat &&& 0xF0 ≠ 0xE0 ∨ p1.toNat &&& 0xC0 ≠ 0x80 ∨ p2.toNat &&& 0xC0 ≠ 0x80
  · rw [symbolRead, if_pos hform] at h
    cases h
  simp only [not_or, not_not] at hform
  have ha : p0.toNat &&& 0x0F < 16 := and_lt_two_pow _ (by decide : 0x0F < 2 ^ 4)
  have hb : p1.toNat &&& 0x3F < 64 := and_lt_two_pow _ (by decide : 0x3F < 2 ^ 6)
  have hc : p2.toNat &&& 0x3F < 64 := and_lt_two_pow _ (by decide : 0x3F < 2 ^ 6)
  have h0 := lead_byte p0 hform.1
  have h1 := tail_byte p1 hform.2.1
  have h2 := tail_byte p2 hform.2.2
  generalize p0.toNat &&& 0x0F = a at ha h0
  generalize p1.toNat &&& 0x3F = b at hb h1
  generalize p2.toNat &&& 0x3F = c at hc h2
  subst h0 h1 h2
  rw [symbolRead_eq ha hb hc] at h
  split at h
  case isTrue hin =>
    obtain rfl := some.inj h
    have hcp : 0x4E00 + (a * 4096 + b * 64 + c - 0x4E00) = a * 4096 + b * 64 + c := by omega
    refine ⟨by omega, ?_⟩
    rw [symbolWrite_eq (by omega), hcp, show (a * 4096 + b * 64 + c) / 4096 = a by omega,
      show (a * 4096 + b * 64 + c) / 64 % 64 = b by omega,
      show (a * 4096 + b * 64 + c) % 64 = c by omega]
  case isFalse => cases h

lemma readSymbols_write (hl : ∀ v ∈ l, v < 4096) :
    ∀ {room : ℕ}, l.length ≤ room → readSymbols room (l.flatMap symbolWrite) = some l := by
  induction l with
  | nil =>
    intro room _
    rw [flatMap_nil, readSymbols]
  | cons v l ih =>
    intro room hroom
    obtain ⟨p0, p1, p2, hw, hr⟩ := symbolRead_symbolWrite (hl v (by simp))
    obtain ⟨room, rfl⟩ : ∃ r, room = r + 1 := ⟨room - 1, by simp at hroom; omega⟩
    have hrest := ih (fun u hu => hl u (by simp [hu])) (show l.length ≤ room by simpa using hroom)
    rw [flatMap_cons, hw]
    simp only [cons_append, nil_append, readSymbols, hr, hrest, bind_some, map_some]

lemma readSymbols_some : ∀ {room : ℕ} {p : Name} {l : List ℕ}, readSymbols room p = some l →
    (∀ v ∈ l, v < 4096) ∧ p = l.flatMap symbolWrite := by
  intro room p
  fun_induction readSymbols room p with
  | case1 room =>
    rintro l h
    obtain rfl := some.inj h
    simp
  | case2 room p0 p1 p2 rest ih =>
    intro l h
    obtain ⟨v, hv, h⟩ := bind_eq_some_iff.mp h
    obtain ⟨vs, hvs, rfl⟩ := map_eq_some_iff.mp h
    obtain ⟨hlt, hwrite⟩ := symbolRead_some hv
    obtain ⟨hall, rfl⟩ := ih hvs
    constructor
    · exact forall_mem_cons.mpr ⟨hlt, hall⟩
    · rw [flatMap_cons, hwrite]
      rfl
  | case3 =>
    intro l h
    cases h

/-! ### The bit stream of a name -/

/-- The number the bytes of a name spell. -/
def nameValue (g : Name) : ℕ := ofBE 256 (g.map UInt8.toNat)

lemma nameValue_eq (g : Name) :
    nameValue g = streamValue 256 (fun i => (g.getD i 0).toNat) g.length := by
  rw [nameValue, ← ofBE_map_range]
  congr 1
  apply ext_getElem
  · simp
  intro i hi _
  have hi' : i < g.length := by simpa using hi
  simp [getElem?_eq_getElem hi']

variable {g k : Name}

lemma nameValue_inj (hlen : g.length = k.length) (h : nameValue g = nameValue k) : g = k := by
  have hbyte (l : Name) : ∀ d ∈ l.map UInt8.toNat, d < 256 :=
    forall_mem_map.mpr fun b _ => UInt8.toNat_lt b
  have hmap := ofBE_inj (by decide) (by simpa using hlen) (hbyte g) (hbyte k) h
  exact map_injective_iff.mpr (fun _ _ => UInt8.toNat_inj.mp) hmap

lemma bitAt_eq (g : Name) (i : ℕ) (hj : j < 8) :
    bitAt g (8 * i + j) = (g.getD i 0).toNat / 2 ^ (8 - 1 - j) % 2 := by
  have hdiv : (8 * i + j) / 8 = i := by omega
  have hmod : (8 * i + j) % 8 = j := by omega
  rw [bitAt, hdiv, hmod]
  by_cases hi : g.length ≤ i
  · rw [if_pos hi, getD_eq_default _ _ hi]
    simp
  · rw [if_neg hi, shiftRight_eq_div_pow, and_one_is_mod]

lemma bitAt_lt (g : Name) (pos : ℕ) : bitAt g pos < 2 := by
  rw [bitAt]
  split
  · decide
  · rw [and_one_is_mod]
    omega

lemma bits_bytes (g : Name) (t : ℕ) :
    streamValue 2 (bitAt g) (8 * t) = streamValue 256 (fun i => (g.getD i 0).toNat) t := by
  rw [streamValue_group]
  apply streamValue_congr
  intro i _
  rw [streamValue_congr fun j hj => bitAt_eq g i hj,
    streamValue_shifts (UInt8.toNat_lt _) (le_refl 8), Nat.sub_self, Nat.pow_zero, Nat.div_one]

lemma bits_padded (g : Name) (p : ℕ) :
    streamValue 2 (bitAt g) (8 * g.length + p) = nameValue g * 2 ^ p := by
  have hpad : ∀ i < p, bitAt g (8 * g.length + i) = 0 := by
    intro i _
    rw [bitAt, if_pos (by omega)]
  rw [streamValue_add, bits_bytes, ← nameValue_eq, streamValue_zeros hpad, add_zero]

lemma gather_eq (hf : ∀ i, f i < 2) (t : ℕ) :
    (range t).foldl (fun value k => value <<< 1 ||| f k) 0 = streamValue 2 f t := by
  induction t with
  | zero => rfl
  | succ t ih =>
    rw [range_succ, foldl_append, foldl_cons, foldl_nil, ih,
      ← shiftLeft_add_eq_or_of_lt (show f t < 2 ^ 1 from hf t), shiftLeft_eq, streamValue]

lemma symbolValue_eq (g : Name) (i : ℕ) :
    symbolValue g i = streamValue 2 (fun k => bitAt g (12 * i + k)) 12 := by
  rw [symbolValue, gather_eq fun k => bitAt_lt g _]
  apply streamValue_congr
  intro k _
  rw [show i * casefoldSymBits = 12 * i from mul_comm i 12]

lemma symbolValue_lt (g : Name) (i : ℕ) : symbolValue g i < 4096 := by
  rw [symbolValue_eq]
  exact streamValue_lt (fun k => bitAt_lt g _) 12

lemma payload_value (g : Name) {k : ℕ} (hk : 8 * g.length ≤ 12 * k) :
    ofBE 4096 ((range k).map (symbolValue g)) = nameValue g * 2 ^ (12 * k - 8 * g.length) := by
  rw [ofBE_map_range, ← bits_padded, show 8 * g.length + (12 * k - 8 * g.length) = 12 * k by omega,
    streamValue_group]
  exact streamValue_congr fun i _ => symbolValue_eq g i

/-! ### The drain -/

/-- The drain after the symbols `seen`: what it produced and what it holds back
spell what it has seen, and it holds back less than a byte until it is done. -/
structure Drained (n : ℕ) (seen : List ℕ) (d : Drain) : Prop where
  bits : 12 * seen.length = 8 * d.out.length + d.accBits
  value : ofBE 4096 seen = nameValue d.out * 2 ^ d.accBits + d.acc
  acc_lt : d.acc < 2 ^ d.accBits
  le : d.out.length ≤ n
  rest : d.accBits < 8 ∨ d.out.length = n

lemma nameValue_concat (g : Name) (b : UInt8) :
    nameValue (g ++ [b]) = nameValue g * 256 + b.toNat := by
  rw [nameValue, map_append, map_singleton, ofBE_concat, nameValue]

lemma drainBytes_spec : ∀ {fuel : ℕ} {d : Drain}, d.accBits ≤ fuel → d.out.length ≤ n →
    ∃ d', drainBytes n fuel d = d' ∧ d'.acc = d.acc ∧
      8 * d'.out.length + d'.accBits = 8 * d.out.length + d.accBits ∧
      nameValue d'.out * 2 ^ d'.accBits + d'.acc % 2 ^ d'.accBits =
        nameValue d.out * 2 ^ d.accBits + d.acc % 2 ^ d.accBits ∧
      d'.out.length ≤ n ∧ (d'.accBits < 8 ∨ d'.out.length = n) := by
  intro fuel
  induction fuel with
  | zero =>
    intro d hfuel hle
    exact ⟨d, rfl, rfl, rfl, rfl, hle, .inl (by omega)⟩
  | succ fuel ih =>
    intro d hfuel hle
    by_cases hgo : 8 ≤ d.accBits ∧ d.out.length < n
    · rw [drainBytes, if_pos hgo]
      obtain ⟨d', hd', hacc, hbits, hval, hle', hrest⟩ := @ih
        ⟨d.out ++ [UInt8.ofNat (d.acc >>> (d.accBits - 8) &&& 0xFF)], d.acc, d.accBits - 8⟩
        (by change d.accBits - 8 ≤ fuel; omega) (by simpa using hgo.2)
      dsimp only at hbits hval
      refine ⟨d', hd', hacc, ?_, ?_, hle', hrest⟩
      · rw [hbits, length_append, length_singleton]
        omega
      have hbyte : (UInt8.ofNat (d.acc >>> (d.accBits - 8) &&& 0xFF)).toNat =
          d.acc / 2 ^ (d.accBits - 8) % 2 ^ 8 := by
        have h255 (x : ℕ) : x &&& 0xFF = x % 2 ^ 8 := and_two_pow_sub_one_eq_mod x 8
        rw [h255, shiftRight_eq_div_pow, UInt8.toNat_ofNat', mod_mod]
      have hpow : 2 ^ d.accBits = 2 ^ (d.accBits - 8) * 2 ^ 8 := by
        rw [← pow_add]
        congr 1
        omega
      rw [hval, nameValue_concat, hbyte, hpow, mod_mul]
      ring
    · rw [drainBytes, if_neg hgo]
      exact ⟨d, rfl, rfl, rfl, rfl, hle, by omega⟩

/-- One symbol, taken while bytes are still wanted. -/
lemma drainSymbol_drained (h : Drained n seen d)
    (hsym : sym < 4096) (hmore : 12 * seen.length < 8 * n) :
    Drained n (seen ++ [sym]) (drainSymbol n d sym) := by
  have hsmall : d.accBits ≤ 7 := by
    have := h.bits
    have := h.rest
    omega
  have hacc : d.acc < 128 := lt_of_lt_of_le h.acc_lt (Nat.pow_le_pow_right (by decide) hsmall)
  have hshift : (d.acc <<< casefoldSymBits ||| sym) % 2 ^ 32 = d.acc * 4096 + sym := by
    rw [← Nat.shiftLeft_add_eq_or_of_lt (show sym < 2 ^ casefoldSymBits from hsym),
      Nat.shiftLeft_eq, show 2 ^ casefoldSymBits = 4096 from rfl]
    omega
  obtain ⟨d', hd', hacc', hbits, hval, hle, hrest⟩ := @drainBytes_spec n (d.accBits + 12)
    ⟨d.out, d.acc * 4096 + sym, d.accBits + 12⟩ (le_refl _) h.le
  dsimp only at hbits hval
  have hstep : drainSymbol n d sym = ⟨d'.out, d'.acc % 2 ^ d'.accBits, d'.accBits⟩ := by
    simp only [drainSymbol, hshift]
    rw [show d.accBits + casefoldSymBits = d.accBits + 12 from rfl, hd', Nat.one_shiftLeft,
      Nat.and_two_pow_sub_one_eq_mod]
  have hfit : d.acc * 4096 + sym < 2 ^ (d.accBits + 12) := by
    have := h.acc_lt
    rw [Nat.pow_add]
    omega
  rw [hstep]
  refine ⟨?_, ?_, Nat.mod_lt _ (Nat.two_pow_pos _), hle, hrest⟩
  · rw [hbits, length_append, length_singleton]
    have := h.bits
    omega
  · rw [hval, ofBE_concat, h.value, Nat.mod_eq_of_lt hfit, Nat.pow_add]
    ring

lemma drain_drained {rest : List ℕ} : ∀ {seen : List ℕ} {d : Drain}, Drained n seen d →
    (∀ v ∈ rest, v < 4096) → 12 * (seen.length + rest.length) < 8 * n + 12 →
    Drained n (seen ++ rest) (rest.foldl (drainSymbol n) d) := by
  induction rest with
  | nil =>
    intro seen d h _ _
    simpa using h
  | cons v rest ih =>
    intro seen d h hlt hlen
    rw [length_cons] at hlen
    have hv := drainSymbol_drained h (hlt v (by simp)) (by omega)
    have := ih hv (fun u hu => hlt u (by simp [hu])) (by simp; omega)
    simpa using this

/-- What the symbol tier accepts: a length it is meant for, the symbols that
length takes, and a payload that spells the name with zeros behind it. -/
lemma decodeSymbols_eq_some_iff {v : List ℕ} (hv : ∀ x ∈ v, x < 4096) :
    decodeSymbols (n :: v) = some g ↔
      (casefoldHexMax < n ∧ n ≤ casefoldGuestNameMax) ∧ v.length + 1 = casefoldSymbols n ∧
        g.length = n ∧ ofBE 4096 v = nameValue g * 2 ^ (12 * v.length - 8 * n) := by
  by_cases hn : n ≤ casefoldHexMax ∨ casefoldGuestNameMax < n
  · rw [decodeSymbols, if_pos hn]
    constructor
    · intro h
      cases h
    · intro h
      omega
  by_cases hlen : v.length + 1 = casefoldSymbols n
  swap
  · rw [decodeSymbols, if_neg hn, if_pos hlen]
    simp [hlen]
  have hcount : 8 * n ≤ 12 * v.length ∧ 12 * v.length < 8 * n + 12 := by
    simp only [casefoldSymbols, casefoldSymBits] at hlen
    omega
  have hd : Drained n ([] ++ v) (v.foldl (drainSymbol n) ⟨[], 0, 0⟩) :=
    drain_drained ⟨rfl, rfl, Nat.one_pos, Nat.zero_le n, .inl (by decide)⟩ hv
      (by rw [length_nil]; omega)
  rw [decodeSymbols, if_neg hn, if_neg (not_not.mpr hlen)]
  generalize v.foldl (drainSymbol n) ⟨[], 0, 0⟩ = d at hd
  obtain ⟨hbits, hval, hacc, hle, hrest⟩ := hd
  rw [nil_append] at hbits hval
  -- the symbols leave no room for an unfinished name
  have hout : d.out.length = n := by omega
  have hpad : d.accBits = 12 * v.length - 8 * n := by omega
  rw [if_neg (not_not.mpr hout), ← hpad]
  constructor
  · intro h
    split at h
    · cases h
    rename_i hzero
    obtain rfl := some.inj h
    rw [hval, not_not.mp hzero, Nat.add_zero]
    exact ⟨by omega, hlen, hout, rfl⟩
  rintro ⟨-, -, hg, hvalue⟩
  have hpos := Nat.two_pow_pos d.accBits
  rw [hval] at hvalue
  have hzero : d.acc = 0 := by
    have := congrArg (· % 2 ^ d.accBits) hvalue
    simpa [Nat.mul_add_mod_of_lt, Nat.mod_eq_of_lt hacc] using this
  rw [hzero, Nat.add_zero] at hvalue
  rw [if_neg (not_not.mpr hzero), some.injEq]
  exact nameValue_inj (by omega) (Nat.eq_of_mul_eq_mul_right hpos hvalue)

/-! ### Escapes -/

def escapeOf (g : Name) : Name :=
  casefoldPrefix ++
    if g.length ≤ casefoldHexMax then hexBytes g else (symbolsOf g).flatMap symbolWrite

lemma symbolsOf_lt (h : g.length ≤ casefoldGuestNameMax) : ∀ v ∈ symbolsOf g, v < 4096 := by
  exact forall_mem_cons.mpr ⟨lt_of_le_of_lt h (by decide),
    forall_mem_map.mpr fun i _ => symbolValue_lt g i⟩

lemma casefoldSymbols_mono (h : m ≤ n) : casefoldSymbols m ≤ casefoldSymbols n := by
  simp only [casefoldSymbols, casefoldSymBits]
  omega

lemma decodedIsLegal_iff (g : Name) : decodedIsLegal g ↔
    g.length ≠ 0 ∧ g.length ≤ casefoldGuestNameMax ∧ (∀ b ∈ g, b ≠ 0x2F ∧ b ≠ 0) ∧
      g ≠ [0x2E] ∧ g ≠ [0x2E, 0x2E] := by
  simp [decodedIsLegal, and_assoc]

variable {outsz : ℕ} {h : Name}

lemma casefoldEscape_eq (hg : decodedIsLegal g) (hsz : casefoldHostNameMax < outsz) :
    casefoldEscape g outsz = .ok (escapeOf g) := by
  obtain ⟨hpos, hmax, hbytes, hdot, hdotdot⟩ := (decodedIsLegal_iff g).mp hg
  have hslash : 0x2F ∉ g := fun h => (hbytes _ h).1 rfl
  have hsyms := casefoldSymbols_mono hmax
  have hhost : casefoldHostNameMax = 517 := rfl
  have hfull : casefoldSymbols casefoldGuestNameMax = 171 := rfl
  have hhex : casefoldHexMax = 125 := rfl
  have hprefix : casefoldPrefix.length = 4 := rfl
  simp only [casefoldEscape, escapeOf]
  rw [if_neg (by simp only [hslash, or_false]; omega), if_neg (by simp [hdot, hdotdot])]
  split
  · rw [if_neg (by omega)]
  · rw [if_neg (by omega)]

lemma decodePayload_append {c : UInt8} {tail : Name} : decodePayload (casefoldPrefix ++ c :: tail) =
      if isHexDigit c then decodeHex (c :: tail)
      else (readSymbols (casefoldSymbols casefoldGuestNameMax) (c :: tail)).bind decodeSymbols := by
  rw [decodePayload, take_left, drop_left, if_neg (not_not.mpr rfl)]

lemma symbolWrite_not_hex (hv : v < 4096) :
    ∃ c s, symbolWrite v = c :: s ∧ isHexDigit c = false := by
  have hlead : ∀ a < 16, isHexDigit (UInt8.ofNat (0xE0 + a)) = false := by decide
  exact ⟨_, _, symbolWrite_eq hv, hlead _ (by omega)⟩

lemma decodeHex_hexBytes (hpos : g.length ≠ 0) (hmax : g.length ≤ casefoldHexMax) :
    decodeHex (hexBytes g) = some g := by
  have hall : (hexBytes g).all isHexDigit := all_eq_true.mpr (isHexDigit_hexBytes g)
  simp only [decodeHex, hexBytes_length, hall, hexPairs_hexBytes, if_true]
  rw [if_neg (by omega)]

lemma decodeSymbols_symbolsOf (hlong : casefoldHexMax < g.length)
    (hmax : g.length ≤ casefoldGuestNameMax) : decodeSymbols (symbolsOf g) = some g := by
  have hlt := symbolsOf_lt hmax
  have hcount : 8 * g.length ≤ 12 * (casefoldSymbols g.length - 1) := by
    simp only [casefoldSymbols, casefoldSymBits]
    omega
  have hpos : casefoldSymbols g.length - 1 + 1 = casefoldSymbols g.length :=
    Nat.sub_add_cancel (Nat.le_add_right 1 _)
  rw [symbolsOf, decodeSymbols_eq_some_iff fun v hv => hlt v (mem_cons_of_mem _ hv),
    payload_value g hcount, length_map, length_range]
  exact ⟨⟨hlong, hmax⟩, hpos, rfl, rfl⟩

lemma escape_decode (hpos : g.length ≠ 0) (hmax : g.length ≤ casefoldGuestNameMax) :
    decodePayload (escapeOf g) = some g := by
  by_cases hshort : g.length ≤ casefoldHexMax
  · rw [escapeOf, if_pos hshort]
    have hdecode := decodeHex_hexBytes hpos hshort
    have hdigit := isHexDigit_hexBytes g
    cases htail : hexBytes g with
    | nil =>
      have := hexBytes_length g
      rw [htail, length_nil] at this
      omega
    | cons c tail =>
      rw [htail] at hdecode hdigit
      rw [decodePayload_append, if_pos (hdigit c (by simp)), hdecode]
  rw [escapeOf, if_neg hshort]
  have hlt := symbolsOf_lt hmax
  have hread : readSymbols (casefoldSymbols casefoldGuestNameMax)
      ((symbolsOf g).flatMap symbolWrite) = some (symbolsOf g) := by
    apply readSymbols_write hlt
    have hmono := casefoldSymbols_mono hmax
    have hone : 1 ≤ casefoldSymbols g.length := le_add_right _ _
    rw [symbolsOf, length_cons, length_map, length_range]
    omega
  obtain ⟨c, s, hwrite, hhex⟩ := symbolWrite_not_hex (hlt g.length (by simp [symbolsOf]))
  rw [symbolsOf, flatMap_cons, hwrite, cons_append] at hread ⊢
  rw [decodePayload_append, hhex, if_neg (by simp), hread]
  exact decodeSymbols_symbolsOf (by omega) hmax

lemma decode_escape (hdec : decodePayload h = some g) : escapeOf g = h := by
  rw [decodePayload] at hdec
  split at hdec
  · cases hdec
  rename_i hpre
  have hsplit : h = casefoldPrefix ++ h.drop casefoldPrefix.length := by
    conv_lhs => rw [← take_append_drop casefoldPrefix.length h, not_not.mp hpre]
  rw [hsplit]
  generalize h.drop casefoldPrefix.length = tail at hdec
  cases tail with
  | nil => cases hdec
  | cons c tail =>
    dsimp only at hdec
    rw [escapeOf]
    congr 1
    split at hdec
    · rw [decodeHex] at hdec
      split at hdec
      · cases hdec
      split at hdec
      · rename_i hall
        obtain rfl := some.inj hdec
        rw [if_pos (by rw [hexPairs_length]; omega)]
        exact hexBytes_hexPairs _ (by omega) (all_eq_true.mp hall)
      · cases hdec
    obtain ⟨l, hread, hdec⟩ := bind_eq_some_iff.mp hdec
    obtain ⟨hlt, htail⟩ := readSymbols_some hread
    cases l with
    | nil => cases hdec
    | cons n v =>
      have hv : ∀ x ∈ v, x < 4096 := fun x hx => hlt x (mem_cons_of_mem _ hx)
      obtain ⟨⟨hlong, -⟩, hcount, rfl, hvalue⟩ := (decodeSymbols_eq_some_iff hv).mp hdec
      rw [if_neg (by omega), htail]
      congr 1
      rw [symbolsOf, cons.injEq]
      refine ⟨rfl, ofBE_inj (show 1 < 4096 by decide) ?_ ?_ hv ?_⟩
      · rw [length_map, length_range]
        omega
      · exact forall_mem_map.mpr fun i _ => symbolValue_lt g i
      have hlen : casefoldSymbols g.length - 1 = v.length := by omega
      rw [hlen, hvalue, payload_value]
      simp only [casefoldSymbols, casefoldSymBits] at hcount
      omega

lemma decodeLegal_eq_some_iff : decodeLegal h = some g ↔ decodedIsLegal g ∧ h = escapeOf g := by
  rw [decodeLegal, filter_eq_some_iff]
  constructor
  · rintro ⟨hdec, hlegal⟩
    rw [Bool.and_eq_true] at hlegal
    exact ⟨hlegal.2, (decode_escape hdec).symm⟩
  rintro ⟨hlegal, rfl⟩
  obtain ⟨hpos, hmax, -⟩ := (decodedIsLegal_iff g).mp hlegal
  refine ⟨escape_decode hpos hmax, ?_⟩
  rw [hlegal, Bool.and_true, decide_eq_true_eq]
  omega

lemma escapeOf_inj (hg : decodedIsLegal g) (hk : decodedIsLegal k) (h : escapeOf g = escapeOf k) :
    g = k := by
  have hdec := decodeLegal_eq_some_iff.mpr ⟨hg, rfl⟩
  rw [h, decodeLegal_eq_some_iff.mpr ⟨hk, rfl⟩] at hdec
  exact (some.inj hdec).symm

lemma isEscaped_escapeOf (hg : decodedIsLegal g) : casefoldIsEscaped (escapeOf g) := by
  rw [casefoldIsEscaped, decodeLegal_eq_some_iff.mpr ⟨hg, rfl⟩]
  rfl

lemma casefoldToGuest_escapeOf (hg : decodedIsLegal g) (hsz : g.length < outsz) :
    casefoldToGuest (escapeOf g) outsz = .ok g := by
  rw [casefoldToGuest, decodeLegal_eq_some_iff.mpr ⟨hg, rfl⟩, if_neg (by omega)]
  exact if_neg (by omega)

/-! ### Names no fold identifies -/

/-- Strings of ASCII characters that are not uppercase letters, and of payload
symbols. -/
inductive PlainName : Name → Prop
  | nil : PlainName []
  | ascii {b : UInt8} {s : Name} : b < 0x80 → ¬ (0x41 ≤ b ∧ b ≤ 0x5A) → PlainName s →
      PlainName (b :: s)
  | symbol {v : ℕ} {s : Name} : v < casefoldSymCount → PlainName s →
      PlainName (symbolWrite v ++ s)

variable {s : Name}

lemma plainName_of_ascii (h : ∀ b ∈ s, b < 0x80 ∧ ¬ (0x41 ≤ b ∧ b ≤ 0x5A)) : PlainName s := by
  induction s with
  | nil => exact .nil
  | cons b s ih =>
    have hb := h b (by simp)
    exact .ascii hb.1 hb.2 (ih fun c hc => h c (by simp [hc]))

lemma plainName_of_symbols (h : ∀ v ∈ l, v < 4096) : PlainName (l.flatMap symbolWrite) := by
  induction l with
  | nil => exact .nil
  | cons v l ih =>
    rw [flatMap_cons]
    exact .symbol (h v (by simp)) (ih fun u hu => h u (by simp [hu]))

lemma plainName_prefix (h : PlainName s) : PlainName (casefoldPrefix ++ s) :=
  .ascii (by decide) (by decide) <| .ascii (by decide) (by decide) <|
    .ascii (by decide) (by decide) <| .ascii (by decide) (by decide) h

lemma escapeOf_plain (hmax : g.length ≤ casefoldGuestNameMax) : PlainName (escapeOf g) := by
  apply plainName_prefix
  split
  · apply plainName_of_ascii
    intro c hc
    obtain ⟨hlt, hchar⟩ := hexValue_spec c (isHexDigit_hexBytes g c hc)
    have hplain : ∀ v < 16, hexChar v < 0x80 ∧ ¬ (0x41 ≤ hexChar v ∧ hexChar v ≤ 0x5A) := by
      decide
    rw [← hchar]
    exact hplain _ hlt
  · exact plainName_of_symbols (symbolsOf_lt hmax)

lemma needsEscape_eq_false (hne : g ≠ []) (h : casefoldNeedsEscape g = false) :
    PlainName g ∧ casefoldIsEscaped g = false := by
  rw [casefoldNeedsEscape, if_neg hne] at h
  split at h
  · cases h
  rename_i hany
  refine ⟨plainName_of_ascii fun b hb => ?_, h⟩
  have hgood : ¬ (0x80 ≤ b ∨ 0x41 ≤ b ∧ b ≤ 0x5A) := by
    intro hbad
    exact hany (any_eq_true.mpr ⟨b, hb, by simpa using hbad⟩)
  rw [not_or] at hgood
  exact ⟨UInt8.not_le.mp hgood.1, hgood.2⟩

lemma nameByRule_eq (hg : decodedIsLegal g) (hsz : casefoldHostNameMax < outsz) :
    nameByRule g outsz = .ok (if casefoldNeedsEscape g then escapeOf g else g) := by
  obtain ⟨-, hmax, -⟩ := (decodedIsLegal_iff g).mp hg
  rw [nameByRule]
  split
  · exact casefoldEscape_eq hg hsz
  have hhost : casefoldHostNameMax = 517 := rfl
  have hguest : casefoldGuestNameMax = 255 := rfl
  rw [if_neg (by omega)]

lemma nameByRule_plain (hg : decodedIsLegal g)
    (hs : s = if casefoldNeedsEscape g then escapeOf g else g) : PlainName s := by
  obtain ⟨hpos, hmax, -⟩ := (decodedIsLegal_iff g).mp hg
  subst hs
  split
  · exact escapeOf_plain hmax
  · rename_i hneed
    exact (needsEscape_eq_false (by rintro rfl; exact hpos rfl) (by simpa using hneed)).1

lemma nameByRule_inj (hg : decodedIsLegal g) (hk : decodedIsLegal k)
    (h : (if casefoldNeedsEscape g then escapeOf g else g) =
      if casefoldNeedsEscape k then escapeOf k else k) : g = k := by
  have hlit {a b : Name} (ha : decodedIsLegal a) (hb : decodedIsLegal b)
      (hneed : ¬ casefoldNeedsEscape a) : a ≠ escapeOf b := by
    intro heq
    obtain ⟨hpos, -⟩ := (decodedIsLegal_iff a).mp ha
    have hne : a ≠ [] := length_pos_iff.mp (by omega)
    have hno := (needsEscape_eq_false hne (by simpa using hneed)).2
    rw [heq, isEscaped_escapeOf hb] at hno
    cases hno
  split at h <;> split at h
  · exact escapeOf_inj hg hk h
  · rename_i hneed
    exact absurd h.symm (hlit hk hg hneed)
  · rename_i hneed _
    exact absurd h (hlit hg hk hneed)
  · exact h

/-- The codec is a bijection: every legal name has an escape that reads back as
it, every name that reads as an escape is the one escape of what it reads as,
and the spellings taken by rule survive every fold that keeps plain names
apart. -/
theorem escape_codec_bijective :
    (∀ g, decodedIsLegal g → ∃ h, casefoldEscape g (casefoldHostNameMax + 1) = .ok h ∧
      casefoldIsEscaped h ∧ ∀ outsz, g.length < outsz → casefoldToGuest h outsz = .ok g) ∧
    (∀ h, casefoldIsEscaped h → ∃ g,
      (∀ outsz, casefoldGuestNameMax < outsz → casefoldToGuest h outsz = .ok g) ∧
        casefoldEscape g (casefoldHostNameMax + 1) = .ok h) ∧
    (∀ {κ : Type*} (fold : Name → κ), (∀ s t, PlainName s → PlainName t → fold s = fold t → s = t) →
      ∀ g k, decodedIsLegal g → decodedIsLegal k →
        ∃ s t, nameByRule g (casefoldHostNameMax + 1) = .ok s ∧
          nameByRule k (casefoldHostNameMax + 1) = .ok t ∧ (fold s = fold t → g = k)) := by
  refine ⟨?_, ?_, ?_⟩
  · intro g hg
    exact ⟨escapeOf g, casefoldEscape_eq hg (lt_succ_self _), isEscaped_escapeOf hg,
      fun outsz hsz => casefoldToGuest_escapeOf hg hsz⟩
  · intro h hesc
    obtain ⟨g, hdec⟩ := isSome_iff_exists.mp hesc
    obtain ⟨hg, rfl⟩ := decodeLegal_eq_some_iff.mp hdec
    obtain ⟨-, hmax, -⟩ := (decodedIsLegal_iff g).mp hg
    exact ⟨g, fun outsz hsz => casefoldToGuest_escapeOf hg (by omega),
      casefoldEscape_eq hg (lt_succ_self _)⟩
  · intro κ fold hfold g k hg hk
    refine ⟨_, _, nameByRule_eq hg (lt_succ_self _), nameByRule_eq hk (lt_succ_self _), ?_⟩
    intro h
    exact nameByRule_inj hg hk (hfold _ _ (nameByRule_plain hg rfl) (nameByRule_plain hk rfl) h)

/-- The name `Foo`, through the first part. -/
theorem escape_codec_foo : decodedIsLegal [0x46, 0x6F, 0x6F] ∧
    ∃ h, casefoldEscape [0x46, 0x6F, 0x6F] (casefoldHostNameMax + 1) = .ok h ∧ casefoldIsEscaped h ∧
        ∀ outsz, 3 < outsz → casefoldToGuest h outsz = .ok [0x46, 0x6F, 0x6F] :=
  ⟨by decide, escape_codec_bijective.{0}.1 [0x46, 0x6F, 0x6F] (by decide)⟩

end Elfuse
