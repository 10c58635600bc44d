import Rp1.Support.Checked

/-!
# Support — byte strings, slices and little-endian words

Byte strings are lists.  This module holds what a byte-level codec needs of them:

* `getRange`, `getFrom`, `getTo`: the checked slices `b.get(lo..hi)`, `b.get(lo..)` and
  `b.get(..hi)`, which answer `none` outside the string;
* `leBytes` and `leNat`: a natural number as `w` bytes, least significant first, and back;
* `LeWord`: a fixed-width word, with `toLeBytes`, `fromLeBytes` and the checked read `readLe`.

The one rule the codecs use is `readLe_eq_some_iff`: a read succeeds with `x` exactly when the
string continues, at the offset, with the bytes of `x`.
-/

namespace Codec

abbrev Bytes := List UInt8

/-! ### Checked slices -/

/-- `bytes.get(lo..hi)`. -/
def getRange (bytes : Bytes) (lo hi : Nat) : Option Bytes :=
  if lo ≤ hi ∧ hi ≤ bytes.length then some ((bytes.drop lo).take (hi - lo)) else none

/-- `bytes.get(lo..)`. -/
def getFrom (bytes : Bytes) (lo : Nat) : Option Bytes :=
  if lo ≤ bytes.length then some (bytes.drop lo) else none

/-- `bytes.get(..hi)`. -/
def getTo (bytes : Bytes) (hi : Nat) : Option Bytes :=
  if hi ≤ bytes.length then some (bytes.take hi) else none

theorem getRange_of_le {bytes : Bytes} {lo hi : Nat} (h₁ : lo ≤ hi) (h₂ : hi ≤ bytes.length) :
    getRange bytes lo hi = some ((bytes.drop lo).take (hi - lo)) :=
  if_pos ⟨h₁, h₂⟩

theorem getRange_eq_some {bytes s : Bytes} {lo hi : Nat} :
    getRange bytes lo hi = some s ↔
      (lo ≤ hi ∧ hi ≤ bytes.length) ∧ s = (bytes.drop lo).take (hi - lo) := by
  rw [getRange, Option.ite_none_right_eq_some, Option.some_inj, @eq_comm _ _ s]

/-- A slice that ends inside the string does not see what follows. -/
theorem getRange_append {bytes : Bytes} {lo hi : Nat} (ext : Bytes) (h : hi ≤ bytes.length) :
    getRange (bytes ++ ext) lo hi = getRange bytes lo hi := by
  unfold getRange
  by_cases hlo : lo ≤ hi
  · have h' : hi ≤ (bytes ++ ext).length := by simp; omega
    rw [if_pos ⟨hlo, h'⟩, if_pos ⟨hlo, h⟩, List.drop_append_of_le_length (by omega),
      List.take_append_of_le_length (by simp; omega)]
  · rw [if_neg fun e => hlo e.1, if_neg fun e => hlo e.1]

/-- The slice between two known parts. -/
theorem getRange_middle (a b c : Bytes) {lo hi : Nat} (hlo : lo = a.length)
    (hhi : hi = a.length + b.length) : getRange (a ++ (b ++ c)) lo hi = some b := by
  subst hlo hhi
  rw [getRange_of_le (by omega) (by simp)]
  simp

theorem getFrom_of_le {bytes : Bytes} {lo : Nat} (h : lo ≤ bytes.length) :
    getFrom bytes lo = some (bytes.drop lo) :=
  if_pos h

theorem getFrom_eq_some {bytes s : Bytes} {lo : Nat} :
    getFrom bytes lo = some s ↔ lo ≤ bytes.length ∧ s = bytes.drop lo := by
  rw [getFrom, Option.ite_none_right_eq_some, Option.some_inj, @eq_comm _ _ s]

theorem getTo_of_le {bytes : Bytes} {hi : Nat} (h : hi ≤ bytes.length) :
    getTo bytes hi = some (bytes.take hi) :=
  if_pos h

/-! ### Little-endian digits -/

/-- `n` as `w` bytes, least significant first; what does not fit is cut off. -/
def leBytes : Nat → Nat → Bytes
  | 0, _ => []
  | w + 1, n => UInt8.ofNat n :: leBytes w (n / 256)

/-- The number a byte string denotes, least significant byte first. -/
def leNat : Bytes → Nat
  | [] => 0
  | b :: bs => b.toNat + 256 * leNat bs

@[simp] theorem length_leBytes : ∀ w n : Nat, (leBytes w n).length = w
  | 0, _ => rfl
  | w + 1, n => by simp [leBytes, length_leBytes w (n / 256)]

theorem leNat_lt : ∀ bs : Bytes, leNat bs < 256 ^ bs.length
  | [] => by simp [leNat]
  | b :: bs => by
      have hb : b.toNat < 256 := b.toNat_lt
      have ih := leNat_lt bs
      rw [leNat, List.length_cons, Nat.pow_succ]
      omega

theorem leNat_leBytes : ∀ {w n : Nat}, n < 256 ^ w → leNat (leBytes w n) = n
  | 0, n, h => by simp only [Nat.pow_zero] at h; simp only [leBytes, leNat]; omega
  | w + 1, n, h => by
      have hq : n / 256 < 256 ^ w := by rw [Nat.pow_succ] at h; omega
      rw [leBytes, leNat, leNat_leBytes hq, UInt8.toNat_ofNat']
      omega

theorem leBytes_leNat : ∀ bs : Bytes, leBytes bs.length (leNat bs) = bs
  | [] => rfl
  | b :: bs => by
      have hb : b.toNat < 256 := b.toNat_lt
      have hq : (b.toNat + 256 * leNat bs) / 256 = leNat bs := by omega
      have hr : UInt8.ofNat (b.toNat + 256 * leNat bs) = b := by
        rw [← UInt8.toNat_inj, UInt8.toNat_ofNat']
        omega
      rw [List.length_cons, leNat, leBytes, hq, hr, leBytes_leNat bs]

/-! ### Fixed-width words -/

/-- A word of `width` bytes, as a range of natural numbers. -/
class LeWord (W : Type) where
  width : Nat
  toNat : W → Nat
  ofNat : Nat → W
  toNat_lt : ∀ x, toNat x < 256 ^ width
  ofNat_toNat : ∀ x, ofNat (toNat x) = x
  toNat_ofNat : ∀ n, n < 256 ^ width → toNat (ofNat n) = n

instance : LeWord UInt16 where
  width := 2
  toNat := UInt16.toNat
  ofNat := UInt16.ofNat
  toNat_lt x := x.toNat_lt
  ofNat_toNat _ := UInt16.ofNat_toNat
  toNat_ofNat _ h := UInt16.toNat_ofNat_of_lt' h

instance : LeWord UInt32 where
  width := 4
  toNat := UInt32.toNat
  ofNat := UInt32.ofNat
  toNat_lt x := x.toNat_lt
  ofNat_toNat _ := UInt32.ofNat_toNat
  toNat_ofNat _ h := UInt32.toNat_ofNat_of_lt' h

instance : LeWord UInt64 where
  width := 8
  toNat := UInt64.toNat
  ofNat := UInt64.ofNat
  toNat_lt x := x.toNat_lt
  ofNat_toNat _ := UInt64.ofNat_toNat
  toNat_ofNat _ h := UInt64.toNat_ofNat_of_lt' h

@[simp] theorem width_u16 : LeWord.width UInt16 = 2 := rfl
@[simp] theorem width_u32 : LeWord.width UInt32 = 4 := rfl
@[simp] theorem width_u64 : LeWord.width UInt64 = 8 := rfl

section Words
variable {W : Type} [LeWord W]

/-- `x.to_le_bytes()`. -/
def toLeBytes (x : W) : Bytes := leBytes (LeWord.width W) (LeWord.toNat x)

/-- `W::from_le_bytes(bytes)`. -/
def fromLeBytes (bytes : Bytes) : W := LeWord.ofNat (leNat bytes)

/-- The little-endian word at `offset`, or `none` when it is out of bounds. -/
def readLe (W : Type) [LeWord W] (bytes : Bytes) (offset : Nat) : Option W := do
  let stop ← checkedAdd usizeMax offset (LeWord.width W)
  let slice ← getRange bytes offset stop
  some (fromLeBytes slice)

@[simp] theorem length_toLeBytes (x : W) : (toLeBytes x).length = LeWord.width W :=
  length_leBytes _ _

@[simp] theorem fromLeBytes_toLeBytes (x : W) : fromLeBytes (toLeBytes x) = x := by
  rw [fromLeBytes, toLeBytes, leNat_leBytes (LeWord.toNat_lt x), LeWord.ofNat_toNat]

theorem toLeBytes_fromLeBytes {bytes : Bytes} (h : bytes.length = LeWord.width W) :
    toLeBytes (fromLeBytes bytes : W) = bytes := by
  have hlt : leNat bytes < 256 ^ LeWord.width W := h ▸ leNat_lt bytes
  rw [fromLeBytes, toLeBytes, LeWord.toNat_ofNat _ hlt, ← h, leBytes_leNat]

theorem readLe_of_le {bytes : Bytes} {offset : Nat} (hb : offset + LeWord.width W ≤ usizeMax)
    (h : offset + LeWord.width W ≤ bytes.length) :
    readLe W bytes offset = some (fromLeBytes ((bytes.drop offset).take (LeWord.width W))) := by
  rw [readLe, checkedAdd_of_le hb]
  show (getRange bytes offset (offset + LeWord.width W)).bind _ = _
  rw [getRange_of_le (by omega) h, Nat.add_sub_cancel_left]
  rfl

theorem readLe_eq_none {bytes : Bytes} {offset : Nat} (hb : offset + LeWord.width W ≤ usizeMax)
    (h : bytes.length < offset + LeWord.width W) : readLe W bytes offset = none := by
  rw [readLe, checkedAdd_of_le hb]
  show (getRange bytes offset (offset + LeWord.width W)).bind _ = _
  rw [getRange, if_neg (by omega)]
  rfl

/-- **What a read sees.**  Reading `x` at `offset` is the string going on, at `offset`, with the
bytes of `x`. -/
theorem readLe_eq_some_iff {bytes : Bytes} {offset : Nat} {x : W}
    (hb : offset + LeWord.width W ≤ usizeMax) :
    readLe W bytes offset = some x ↔
      offset + LeWord.width W ≤ bytes.length ∧
        bytes.drop offset = toLeBytes x ++ bytes.drop (offset + LeWord.width W) := by
  by_cases h : offset + LeWord.width W ≤ bytes.length
  · rw [readLe_of_le hb h]
    have hlen : ((bytes.drop offset).take (LeWord.width W)).length = LeWord.width W := by
      simp; omega
    have hsplit : bytes.drop offset =
        (bytes.drop offset).take (LeWord.width W) ++ bytes.drop (offset + LeWord.width W) := by
      rw [← List.drop_drop, List.take_append_drop]
    constructor
    · intro e
      refine ⟨h, ?_⟩
      rw [← Option.some.inj e, toLeBytes_fromLeBytes hlen]
      exact hsplit
    · rintro ⟨-, e⟩
      have htake : (bytes.drop offset).take (LeWord.width W) = toLeBytes x := by
        rw [e, ← length_toLeBytes x, List.take_left]
      rw [htake, fromLeBytes_toLeBytes]
  · rw [readLe_eq_none hb (by omega)]
    exact ⟨fun e => (nomatch e), fun e => absurd e.1 h⟩

/-- Every string that is long enough begins with a word. -/
theorem exists_toLeBytes (W : Type) [LeWord W] (bytes : Bytes)
    (h : LeWord.width W ≤ bytes.length) :
    ∃ (x : W) (rest : Bytes), bytes = toLeBytes x ++ rest := by
  have hlen : (bytes.take (LeWord.width W)).length = LeWord.width W := List.length_take_of_le h
  refine ⟨fromLeBytes (bytes.take (LeWord.width W)), bytes.drop (LeWord.width W), ?_⟩
  rw [toLeBytes_fromLeBytes hlen, List.take_append_drop]

/-- Reading a word back from behind a known part. -/
theorem readLe_middle {bytes : Bytes} {offset : Nat} (a c : Bytes) (x : W)
    (e : bytes = a ++ (toLeBytes x ++ c)) (h : offset = a.length)
    (hb : offset + LeWord.width W ≤ usizeMax) : readLe W bytes offset = some x := by
  subst h e
  refine (readLe_eq_some_iff hb).mpr ⟨by simp, ?_⟩
  have hdrop : (a ++ (toLeBytes x ++ c)).drop (a.length + LeWord.width W) = c := by
    rw [← List.drop_drop, List.drop_left, ← length_toLeBytes x, List.drop_left]
  rw [hdrop, List.drop_left]

end Words

/-! ### A head of four words -/

section Head
variable {W₁ W₂ W₃ W₄ : Type} [LeWord W₁] [LeWord W₂] [LeWord W₃] [LeWord W₄]

/-- Every string that is long enough is a head of four words and a rest. -/
theorem exists_head (W₁ W₂ W₃ W₄ : Type) [LeWord W₁] [LeWord W₂] [LeWord W₃] [LeWord W₄]
    (bytes : Bytes) (h : LeWord.width W₁ + LeWord.width W₂ + LeWord.width W₃ + LeWord.width W₄ ≤
      bytes.length) :
    ∃ (x : W₁) (y : W₂) (z : W₃) (u : W₄) (rest : Bytes),
      bytes = toLeBytes x ++ (toLeBytes y ++ (toLeBytes z ++ (toLeBytes u ++ rest))) := by
  obtain ⟨x, rest, rfl⟩ := exists_toLeBytes W₁ bytes (by omega)
  rw [List.length_append, length_toLeBytes] at h
  obtain ⟨y, rest, rfl⟩ := exists_toLeBytes W₂ rest (by omega)
  rw [List.length_append, length_toLeBytes] at h
  obtain ⟨z, rest, rfl⟩ := exists_toLeBytes W₃ rest (by omega)
  rw [List.length_append, length_toLeBytes] at h
  obtain ⟨u, rest, rfl⟩ := exists_toLeBytes W₄ rest (by omega)
  exact ⟨x, y, z, u, rest, rfl⟩

/-- Reading a head of four words back, and the rest behind it. -/
theorem readLe_head {bytes rest : Bytes} {x : W₁} {y : W₂} {z : W₃} {u : W₄}
    (e : bytes = toLeBytes x ++ (toLeBytes y ++ (toLeBytes z ++ (toLeBytes u ++ rest))))
    (hb : LeWord.width W₁ + LeWord.width W₂ + LeWord.width W₃ + LeWord.width W₄ ≤ usizeMax) :
    readLe W₁ bytes 0 = some x ∧ readLe W₂ bytes (LeWord.width W₁) = some y ∧
      readLe W₃ bytes (LeWord.width W₁ + LeWord.width W₂) = some z ∧
      readLe W₄ bytes (LeWord.width W₁ + LeWord.width W₂ + LeWord.width W₃) = some u ∧
      getFrom bytes (LeWord.width W₁ + LeWord.width W₂ + LeWord.width W₃ + LeWord.width W₄) =
        some rest := by
  refine ⟨readLe_middle [] _ x e rfl (by omega),
    readLe_middle (toLeBytes x) _ y e (length_toLeBytes x).symm (by omega),
    readLe_middle (toLeBytes x ++ toLeBytes y) _ z (by rw [e, List.append_assoc]) ?_ (by omega),
    readLe_middle (toLeBytes x ++ toLeBytes y ++ toLeBytes z) rest u ?_ ?_ (by omega), ?_⟩
  · simp only [List.length_append, length_toLeBytes]
  · simp only [e, List.append_assoc]
  · simp only [List.length_append, length_toLeBytes]
  · have hhead : (toLeBytes x ++ toLeBytes y ++ toLeBytes z ++ toLeBytes u).length =
        LeWord.width W₁ + LeWord.width W₂ + LeWord.width W₃ + LeWord.width W₄ := by
      simp only [List.length_append, length_toLeBytes]
    have hbytes : bytes = toLeBytes x ++ toLeBytes y ++ toLeBytes z ++ toLeBytes u ++ rest := by
      simp only [e, List.append_assoc]
    rw [← hhead, hbytes, getFrom_of_le (List.prefix_append _ _).length_le, List.drop_left]

end Head

end Codec
