import CairnQ.Numerals.FixedWidth
import CairnQ.Protocol.Execution
import Mathlib.Data.Char

/-!
# Task ids

The ULIDs of the two SDKs: 48 bits of milliseconds and 80 random bits, written by a loop that
takes five bits at a time from the low end.  Both write 26 digits, two bits more than there are
to write, and both draw ten random bytes; Python reads them as one number, Node goes through
their hexadecimal text.

Main results:

- Theorem `newUlid_eq`: either SDK writes the numeral of the whole 128-bit value.
- Theorem `newUlid_sound`: so ids are read back, agree between the SDKs, and are ordered like
  the pairs they were made from.
-/

namespace CairnQ

open Numerals

variable {J : Type}

/-! ## The two functions -/

/-- `_CROCKFORD`. -/
def crockford : List Char :=
  "0123456789ABCDEFGHJKMNPQRSTVWXYZ".toList

theorem length_crockford : crockford.length = 32 := by
  decide

/-- A digit of the alphabet. -/
def crockfordDigit (digit : Fin 32) : Char :=
  crockford.get (digit.cast length_crockford.symm)

/-- `_CROCKFORD[value & 0x1F]`. -/
def lowChar (value : Nat) : Char :=
  crockfordDigit ⟨value &&& 0x1F, Nat.and_lt_two_pow (n := 5) value (by decide)⟩

/-- The loop of `new_ulid`: so many rounds of `chars.append` and `value >>= 5`. -/
def ulidLoop : Nat → Nat → List Char → List Char
  | 0, _, chars => chars
  | rounds + 1, value, chars => ulidLoop rounds (value >>> 5) (chars ++ [lowChar value])

/-- `"".join(reversed(chars))`. -/
def ulidText (value : Nat) : String :=
  String.ofList (ulidLoop 26 value []).reverse

/-- `os.urandom(10)`, `randomBytes(10)`. -/
abbrev RandomBytes := Vector (Fin 256) 10

/-- `int.from_bytes(random, "big")`. -/
def RandomBytes.number (random : RandomBytes) : Nat :=
  random.toList.foldl (fun n byte => n * 256 + byte.val) 0

/-- A digit of a hexadecimal text. -/
def hexChar (digit : Fin 16) : Char :=
  "0123456789abcdef".toList.get (digit.cast (by decide))

/-- `random.toString("hex")`. -/
def RandomBytes.hex (random : RandomBytes) : List Char :=
  random.toList.flatMap fun byte =>
    [hexChar ⟨byte.val / 16, by omega⟩, hexChar ⟨byte.val % 16, by omega⟩]

/-- `BigInt("0x" + hex)`. -/
def bigIntOfHex (hex : List Char) : Nat :=
  hex.foldl (fun n c => n * 16 + "0123456789abcdef".toList.idxOf c) 0

/-- `new_ulid`. -/
def Python.newUlid (tsMs : Nat) (random : RandomBytes) : String :=
  ulidText (tsMs <<< 80 ||| random.number)

/-- `newUlid`. -/
def Node.newUlid (tsMs : Nat) (random : RandomBytes) : String :=
  ulidText (tsMs <<< 80 ||| bigIntOfHex random.hex)

/-- `new_ulid` of an SDK. -/
def newUlid (sdk : Sdk) (tsMs : Nat) (random : RandomBytes) : String :=
  match sdk with
  | .python => Python.newUlid tsMs random
  | .node => Node.newUlid tsMs random

/-- `new_id`. -/
def newId (sdk : Sdk) (kind : String) (tsMs : Nat) (random : RandomBytes) : String :=
  kind ++ "_" ++ newUlid sdk tsMs random

/-- The timestamp and the random bytes of a ULID. -/
def decodeUlid (text : String) : Nat × RandomBytes :=
  let value := text.toList.foldl (fun n c => n * 32 + crockford.idxOf c) 0
  (value / 2 ^ 80, ⟨(numeral 256 10 (value % 2 ^ 80)).toArray, by simp⟩)

/-! ## What is written -/

theorem strictMono_crockfordDigit : StrictMono crockfordDigit := by
  decide +kernel

theorem idxOf_crockfordDigit (digit : Fin 32) :
    crockford.idxOf (crockfordDigit digit) = digit.val := by
  revert digit
  decide +kernel

theorem idxOf_hexChar (digit : Fin 16) :
    "0123456789abcdef".toList.idxOf (hexChar digit) = digit.val := by
  revert digit
  decide +kernel

theorem lowChar_eq (value : Nat) : lowChar value = crockfordDigit (Fin.ofNat 32 value) := by
  refine congrArg crockfordDigit (Fin.ext ?_)
  exact Nat.and_two_pow_sub_one_eq_mod value 5

/-- The loop appends the low digits. -/
theorem ulidLoop_eq (rounds value : Nat) (chars : List Char) :
    ulidLoop rounds value chars = chars ++ (lowDigits 32 rounds value).map crockfordDigit := by
  induction rounds generalizing value chars with
  | zero => simp [ulidLoop, lowDigits]
  | succ rounds ih =>
      rw [ulidLoop, ih, lowDigits, List.map_cons, lowChar_eq, Nat.shiftRight_eq_div_pow]
      simp

theorem toList_ulidText (value : Nat) :
    (ulidText value).toList = (numeral 32 26 value).map crockfordDigit := by
  rw [ulidText, String.toList_ofList, ulidLoop_eq, List.nil_append, ← List.map_reverse,
    reverse_lowDigits]

theorem RandomBytes.number_lt (random : RandomBytes) : random.number < 2 ^ 80 := by
  have h := Numerals.value_lt random.toList
  rw [Vector.length_toList] at h
  exact h

/-- The random bytes are the numeral of their number. -/
theorem RandomBytes.numeral_number (random : RandomBytes) :
    numeral 256 10 random.number = random.toList := by
  have h := Numerals.numeral_value random.toList
  rwa [Vector.length_toList] at h

/-- Reading the hexadecimal text gives the number Python reads. -/
theorem bigIntOfHex_hex (random : RandomBytes) : bigIntOfHex random.hex = random.number := by
  have hbytes : ∀ bytes : List (Fin 256),
      bigIntOfHex (bytes.flatMap fun byte =>
        [hexChar ⟨byte.val / 16, by omega⟩, hexChar ⟨byte.val % 16, by omega⟩]) =
        Numerals.value bytes := by
    intro bytes
    induction bytes using List.reverseRecOn with
    | nil => rfl
    | append_singleton bytes byte ih =>
        rw [List.flatMap_append, bigIntOfHex, List.foldl_append]
        rw [bigIntOfHex] at ih
        rw [ih, Numerals.value_concat]
        simp only [List.flatMap_singleton, List.foldl_cons, List.foldl_nil, idxOf_hexChar]
        omega
  exact hbytes random.toList

/-- Either SDK writes the numeral of the whole value. -/
theorem newUlid_eq (sdk : Sdk) (tsMs : Nat) (random : RandomBytes) :
    newUlid sdk tsMs random = ulidText (tsMs * 2 ^ 80 + random.number) := by
  have hvalue : tsMs <<< 80 ||| random.number = tsMs * 2 ^ 80 + random.number := by
    rw [← Nat.shiftLeft_add_eq_or_of_lt random.number_lt, Nat.shiftLeft_eq]
  cases sdk with
  | python => rw [newUlid, Python.newUlid, hvalue]
  | node => rw [newUlid, Node.newUlid, bigIntOfHex_hex, hvalue]

/-! ## Reading back and order -/

/-- The characters of a ULID stand for the value they were made from. -/
theorem foldl_idxOf_map (digits : List (Fin 32)) :
    (digits.map crockfordDigit).foldl (fun n c => n * 32 + crockford.idxOf c) 0 =
      Numerals.value digits := by
  simp only [List.foldl_map, idxOf_crockfordDigit, Numerals.value]

section Pairs

variable {tsMs tsMs' : Nat}

/-- A value of 128 bits fits into 26 digits. -/
theorem pair_lt (h : tsMs < 2 ^ 48) (random : RandomBytes) :
    tsMs * 2 ^ 80 + random.number < 32 ^ 26 := by
  have hrandom := random.number_lt
  omega

theorem decodeUlid_newUlid (h : tsMs < 2 ^ 48) (sdk : Sdk) (random : RandomBytes) :
    decodeUlid (newUlid sdk tsMs random) = (tsMs, random) := by
  have hrandom := random.number_lt
  have hvalue : (newUlid sdk tsMs random).toList.foldl
      (fun n c => n * 32 + crockford.idxOf c) 0 = tsMs * 2 ^ 80 + random.number := by
    rw [newUlid_eq, toList_ulidText, foldl_idxOf_map, value_numeral_of_lt (pair_lt h random)]
  have hhigh : (tsMs * 2 ^ 80 + random.number) / 2 ^ 80 = tsMs := by omega
  have hlow : (tsMs * 2 ^ 80 + random.number) % 2 ^ 80 = random.number := by omega
  simp only [decodeUlid, hvalue, hhigh, hlow, random.numeral_number, Vector.toArray_toList]

/-- Two ULIDs compare like the pairs they were made from. -/
theorem newUlid_lt_iff (h : tsMs < 2 ^ 48) (h' : tsMs' < 2 ^ 48) (sdk sdk' : Sdk)
    (random random' : RandomBytes) : newUlid sdk tsMs random < newUlid sdk' tsMs' random' ↔
      tsMs < tsMs' ∨ (tsMs = tsMs' ∧ random.number < random'.number) := by
  have hrandom := random.number_lt
  have hrandom' := random'.number_lt
  rw [String.lt_iff, newUlid_eq, newUlid_eq, toList_ulidText, toList_ulidText,
    map_lt_map_iff strictMono_crockfordDigit,
    numeral_lt_numeral_iff (pair_lt h random) (pair_lt h' random')]
  omega

/-- Ids of one kind compare like their ULIDs. -/
theorem newId_lt_iff (kind : String) (sdk sdk' : Sdk) (random random' : RandomBytes) :
    newId sdk kind tsMs random < newId sdk' kind tsMs' random' ↔
      newUlid sdk tsMs random < newUlid sdk' tsMs' random' := by
  have hshared : ∀ (l : List Char) (a b : List Char), l ++ a < l ++ b ↔ a < b := by
    intro l a b
    induction l with
    | nil => rfl
    | cons c l ih => simp [ih]
  simp only [newId, String.lt_iff, String.toList_append, hshared]

end Pairs

/-- The ULIDs of the two SDKs: for every timestamp below 2^48 and every ten random bytes they
are the same 26 characters of the alphabet, both parts are read back from them, and for any two
pairs the order of the texts is the order of the pairs, so that the claim order breaks a tie of
two tasks in favour of the one whose id was made earlier, whichever SDKs made them. -/
theorem newUlid_sound {tsMs tsMs' : Nat} (h : tsMs < 2 ^ 48) (h' : tsMs' < 2 ^ 48)
    (random random' : RandomBytes) (sdk sdk' : Sdk) :
    (newUlid sdk tsMs random).length = 26 ∧
      (∀ c ∈ (newUlid sdk tsMs random).toList, c ∈ crockford) ∧
      decodeUlid (newUlid sdk tsMs random) = (tsMs, random) ∧
      newUlid sdk tsMs random = newUlid sdk' tsMs random ∧
      (newUlid sdk tsMs random < newUlid sdk' tsMs' random' ↔
        tsMs < tsMs' ∨ (tsMs = tsMs' ∧ random.number < random'.number)) ∧
      ∀ (kind : String) (a b : Task J), a.id = newId sdk kind tsMs random →
        b.id = newId sdk' kind tsMs' random' → a.priority = b.priority → a.runAtMs = b.runAtMs →
        tsMs < tsMs' → claimOrder a b ∧ ¬claimOrder b a := by
  refine ⟨?_, ?_, decodeUlid_newUlid h sdk random, ?_, newUlid_lt_iff h h' sdk sdk' random random',
    ?_⟩
  · rw [← String.length_toList, newUlid_eq, toList_ulidText, List.length_map, length_numeral]
  · intro c hc
    rw [newUlid_eq, toList_ulidText, List.mem_map] at hc
    rcases hc with ⟨digit, -, rfl⟩
    exact List.get_mem _ _
  · rw [newUlid_eq, newUlid_eq]
  · intro kind a b ha hb hpriority hrun hts
    have hlt : a.id < b.id := by
      rw [ha, hb, newId_lt_iff, newUlid_lt_iff h h']
      exact Or.inl hts
    constructor
    · exact Or.inr ⟨hpriority, Or.inr ⟨hrun, String.not_lt.mp (String.lt_asymm hlt)⟩⟩
    · rintro (hless | ⟨-, hless | ⟨-, hle⟩⟩)
      · exact absurd hless (by omega)
      · exact absurd hless (by omega)
      · exact absurd hlt (String.not_lt.mpr hle)

/-- Two ids of one millisecond, the second with a greater random part. -/
theorem newUlid_sound_sameMillisecond :
    newUlid .python 1700000000000 (Vector.replicate 10 7) <
      newUlid .node 1700000000000 (Vector.replicate 10 8) :=
  (newUlid_sound (J := Nat) (by decide) (by decide) (Vector.replicate 10 7)
    (Vector.replicate 10 8) .python .node).2.2.2.2.1.mpr (Or.inr ⟨rfl, by decide⟩)

end CairnQ
