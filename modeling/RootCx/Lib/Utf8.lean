import RootCx.Lib.Text

/-! # Byte offsets

Strings are indexed by the bytes of their UTF-8 encoding, and an index that is not
a character boundary panics.  `Cut text offset rest` says that `offset` is one, with
the characters `rest` behind it.
-/

namespace RootCx.Text

open List

/-! ## Slices -/

/-- `&text[..bytes]` -/
def sliceTo : Nat → Text → Option Text
  | 0, _ => some []
  | _ + 1, [] => none
  | bytes + 1, c :: rest =>
    if c.utf8Size ≤ bytes + 1 then (sliceTo (bytes + 1 - c.utf8Size) rest).map (c :: ·) else none

/-- A text can be cut behind so many bytes. -/
def IsBoundary (bytes : Nat) (text : Text) : Prop := ∃ front, front <+: text ∧ byteLength front = bytes

variable (front rest : Text) {byte : UInt8} {P : Char → Bool}

theorem byteLength_cons_succ (c : Char) (rest : Text) :
    ∃ bytes, byteLength (c :: rest) = bytes + 1 ∧ c.utf8Size ≤ bytes + 1 ∧ bytes + 1 - c.utf8Size = byteLength rest := by
  have visible : 0 < c.utf8Size := c.utf8Size_pos
  refine ⟨c.utf8Size + byteLength rest - 1, ?_, ?_, ?_⟩
  · rw [byteLength_cons]
    omega
  · omega
  · omega

theorem sliceTo_append : sliceTo (byteLength front) (front ++ rest) = some front := by
  induction front with
  | nil => cases rest <;> rfl
  | cons c front ih =>
    obtain ⟨bytes, same, fits, left⟩ := byteLength_cons_succ c front
    rw [same, cons_append, sliceTo, if_pos fits, left, ih]
    rfl

theorem isBoundary_of_sliceTo {bytes : Nat} {text front : Text} (cut : sliceTo bytes text = some front) :
    front <+: text ∧ byteLength front = bytes := by
  induction text generalizing bytes front with
  | nil =>
    cases bytes with
    | zero =>
      cases cut
      exact ⟨List.nil_prefix, rfl⟩
    | succ bytes => cases cut
  | cons c rest ih =>
    cases bytes with
    | zero =>
      cases cut
      exact ⟨List.nil_prefix, rfl⟩
    | succ bytes =>
      rw [sliceTo] at cut
      split at cut
      next fits =>
        obtain ⟨behind, found, rfl⟩ := Option.map_eq_some_iff.mp cut
        obtain ⟨inside, length⟩ := ih found
        refine ⟨prefix_cons_inj c |>.mpr inside, ?_⟩
        rw [byteLength_cons, length]
        omega
      next => cases cut

theorem sliceTo_isSome_iff {bytes : Nat} {text : Text} : (∃ front, sliceTo bytes text = some front) ↔ IsBoundary bytes text := by
  constructor
  · rintro ⟨front, cut⟩
    exact ⟨front, isBoundary_of_sliceTo cut⟩
  · rintro ⟨front, ⟨rest, rfl⟩, rfl⟩
    exact ⟨front, sliceTo_append front rest⟩

/-- `&text[bytes..]` -/
def sliceFrom : Nat → Text → Option Text
  | 0, text => some text
  | _ + 1, [] => none
  | bytes + 1, c :: rest => if c.utf8Size ≤ bytes + 1 then sliceFrom (bytes + 1 - c.utf8Size) rest else none

theorem sliceFrom_append : sliceFrom (byteLength front) (front ++ rest) = some rest := by
  induction front with
  | nil => cases rest <;> rfl
  | cons c front ih =>
    obtain ⟨bytes, same, fits, left⟩ := byteLength_cons_succ c front
    rw [same, cons_append, sliceFrom, if_pos fits, left, ih]

/-- `&text[first..last]` -/
def slice (first last : Nat) (text : Text) : Option Text :=
  if first ≤ last then (sliceFrom first text).bind (sliceTo (last - first)) else none

/-! ## Boundaries -/

def Cut (text : Text) (offset : Nat) (rest : Text) : Prop := ∃ front, text = front ++ rest ∧ byteLength front = offset

section Cut

variable {text rest mid : Text} {offset : Nat} {c : Char}

theorem Cut.first (text : Text) : Cut text 0 text := ⟨[], rfl, rfl⟩

theorem Cut.append (cut : Cut text offset (mid ++ rest)) : Cut text (offset + byteLength mid) rest := by
  obtain ⟨front, rfl, rfl⟩ := cut
  exact ⟨front ++ mid, (append_assoc front mid rest).symm, byteLength_append front mid⟩

theorem Cut.next (cut : Cut text offset (c :: rest)) : Cut text (offset + c.utf8Size) rest := by
  have ahead : Cut text (offset + byteLength [c]) rest := @Cut.append text rest [c] offset cut
  simpa using ahead

theorem Cut.length (cut : Cut text offset rest) : offset + byteLength rest = byteLength text := by
  obtain ⟨front, rfl, rfl⟩ := cut
  exact (byteLength_append front rest).symm

theorem Cut.sliceFrom (cut : Cut text offset rest) : Text.sliceFrom offset text = some rest := by
  obtain ⟨front, rfl, rfl⟩ := cut
  exact sliceFrom_append front rest

theorem Cut.slice (cut : Cut text offset (mid ++ rest)) : Text.slice offset (offset + byteLength mid) text = some mid := by
  rw [Text.slice, if_pos (Nat.le_add_right _ _), cut.sliceFrom, Nat.add_sub_cancel_left]
  exact sliceTo_append mid rest

end Cut

/-! ## Bytes -/

/-- `str::as_bytes` -/
def bytes (text : Text) : List UInt8 := text.flatMap String.utf8EncodeChar

/-- `u8 as char` -/
def asChar (byte : UInt8) : Char := Char.ofNat byte.toNat

theorem length_bytes (text : Text) : (bytes text).length = byteLength text := by
  induction text with
  | nil => rfl
  | cons c rest ih =>
    rw [bytes] at ih ⊢
    rw [flatMap_cons, length_append, ih, byteLength_cons, String.length_utf8EncodeChar]

theorem bytes_append : bytes (front ++ rest) = bytes front ++ bytes rest := by
  simp [bytes]

/-- The first byte of a character is the character itself where it is ASCII, and no ASCII
    byte otherwise. -/
def Starts (byte : UInt8) (c : Char) : Prop :=
  if isAscii c then asChar byte = c else isAscii (asChar byte) = false

theorem asChar_toNat (byte : UInt8) : (asChar byte).toNat = byte.toNat := by
  have small := byte.toNat_lt
  have valid : byte.toNat.isValidChar := Or.inl (by omega)
  rw [asChar, Char.ofNat, dif_pos valid]
  rfl

theorem isAscii_asChar : isAscii (asChar byte) = decide (byte.toNat < 128) := by
  rw [isAscii, asChar_toNat]

theorem isAscii_high {n : Nat} (high : 128 ≤ n) (small : n < 256) : isAscii (asChar (UInt8.ofNat n)) = false := by
  rw [isAscii_asChar, UInt8.toNat_ofNat', decide_eq_false_iff_not]
  omega

theorem exists_starts (c : Char) : ∃ byte more, String.utf8EncodeChar c = byte :: more ∧ Starts byte c := by
  unfold Starts
  cases ascii : isAscii c with
  | true =>
    have small : c.val.toNat < 128 := by simpa [isAscii] using ascii
    refine ⟨UInt8.ofNat c.val.toNat, [], if_pos (by omega), ?_⟩
    rw [if_pos rfl]
    apply Char.toNat_inj.mp
    rw [asChar_toNat, UInt8.toNat_ofNat', Nat.mod_eq_of_lt (by omega), Char.toNat_val]
  | false =>
    have large : 128 ≤ c.val.toNat := by simpa [isAscii] using ascii
    simp only [Bool.false_eq_true, if_false]
    unfold String.utf8EncodeChar
    rw [if_neg (by omega)]
    split
    · exact ⟨_, _, rfl, isAscii_high (by omega) (by omega)⟩
    split
    · exact ⟨_, _, rfl, isAscii_high (by omega) (by omega)⟩
    · exact ⟨_, _, rfl, isAscii_high (by omega) (by omega)⟩

section Bytes

variable {text rest : Text} {offset : Nat} {c : Char}

theorem Cut.bytes_get (cut : Cut text offset rest) (i : Nat) : (bytes text)[offset + i]? = (bytes rest)[i]? := by
  obtain ⟨front, rfl, rfl⟩ := cut
  rw [bytes_append, ← length_bytes, getElem?_append_right (by omega), Nat.add_sub_cancel_left]

theorem Cut.none_of_nil (cut : Cut text offset []) : (bytes text)[offset]? = none := cut.bytes_get 0

theorem Cut.starts (cut : Cut text offset (c :: rest)) : ∃ byte, (bytes text)[offset]? = some byte ∧ Starts byte c := by
  obtain ⟨byte, more, encoded, starts⟩ := exists_starts c
  refine ⟨byte, (cut.bytes_get 0).trans ?_, starts⟩
  simp [bytes, encoded]

/-- A property of ASCII characters is seen on the first byte. -/
theorem Starts.property (narrow : ∀ c, P c = true → isAscii c = true) (starts : Starts byte c) :
    P (asChar byte) = P c := by
  unfold Starts at starts
  split at starts
  next => rw [starts]
  next foreign =>
    have here : P c = false := by
      by_contra holds
      exact foreign (narrow c (by simpa using holds))
    have there : P (asChar byte) = false := by
      by_contra holds
      rw [narrow _ (by simpa using holds)] at starts
      cases starts
    rw [here, there]

/-- `while bytes.get(i).is_some_and(p) { i += 1 }` -/
def scanWhile (P : Char → Bool) (bytes : List UInt8) (i : Nat) : Nat :=
  if inside : i < bytes.length then if P (asChar bytes[i]) then scanWhile P bytes (i + 1) else i
  else i
termination_by bytes.length - i

theorem scanWhile_some {bytes : List UInt8} {i : Nat} (found : bytes[i]? = some byte) :
    scanWhile P bytes i = if P (asChar byte) then scanWhile P bytes (i + 1) else i := by
  obtain ⟨inside, rfl⟩ := List.getElem?_eq_some_iff.mp found
  rw [scanWhile, dif_pos inside]

theorem scanWhile_none {bytes : List UInt8} {i : Nat} (found : bytes[i]? = none) :
    scanWhile P bytes i = i := by
  rw [scanWhile, dif_neg (by simpa using found)]

theorem utf8Size_of_isAscii (ascii : isAscii c = true) : c.utf8Size = 1 := by
  have length : byteLength [c] = [c].length := byteLength_of_isAscii (by simpa using ascii)
  simpa using length

/-- A scan for ASCII characters ends at the end of their run. -/
theorem Cut.scanWhile (narrow : ∀ c, P c = true → isAscii c = true) (cut : Cut text offset rest) :
    Text.scanWhile P (bytes text) offset = offset + byteLength (rest.takeWhile P) := by
  induction rest generalizing offset with
  | nil => rw [scanWhile_none cut.none_of_nil, takeWhile_nil, byteLength_nil, Nat.add_zero]
  | cons c rest ih =>
    obtain ⟨byte, found, starts⟩ := cut.starts
    rw [scanWhile_some found, starts.property narrow, takeWhile_cons]
    cases holds : P c with
    | true =>
      have one := utf8Size_of_isAscii (narrow c holds)
      have behind : Cut text (offset + 1) rest := one ▸ cut.next
      simp only [if_true]
      rw [ih behind, byteLength_cons, one]
      omega
    | false => simp

theorem Cut.dropWhile {P : Char → Bool} (cut : Cut text offset rest) :
    Cut text (offset + byteLength (rest.takeWhile P)) (rest.dropWhile P) := by
  apply Cut.append
  rwa [takeWhile_append_dropWhile]

theorem Cut.slice_takeWhile {P : Char → Bool} (cut : Cut text offset rest) :
    Text.slice offset (offset + byteLength (rest.takeWhile P)) text = some (rest.takeWhile P) := by
  apply @Cut.slice text (rest.dropWhile P)
  rwa [takeWhile_append_dropWhile]

end Bytes

end RootCx.Text
