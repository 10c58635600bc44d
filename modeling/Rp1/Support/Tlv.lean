import Rp1.Support.Bytes

/-!
# Support — tagged, length-prefixed regions

A region is a concatenation of entries, each a `u16` tag, a `u16` length and that many value
bytes.  `concat` writes a list of entries and `parse` reads a region back, entry by entry, with
an accumulator.

`parse_eq_some_iff` is exactness: `parse` answers a list exactly when the region is the
concatenation of its entries, so the reader accepts nothing outside the writer's image.
`concat_inj` says that there is one such list, and `parse_eq_none_iff` that a region is refused
exactly when it ends inside an entry.
-/

namespace Codec.Tlv

/-- A tag and its value. -/
abbrev Entry := UInt16 × Bytes

/-- One entry on the wire. -/
def encodeEntry (e : Entry) : Bytes :=
  toLeBytes e.1 ++ (toLeBytes (UInt16.ofNat e.2.length) ++ e.2)

/-- A list of entries on the wire. -/
def concat (es : List Entry) : Bytes := es.flatMap encodeEntry

/-- The value fits its length field. -/
def Fits (e : Entry) : Prop := e.2.length < 2 ^ 16

instance (e : Entry) : Decidable (Fits e) := inferInstanceAs (Decidable (_ < _))

/-- The size of a list of entries on the wire. -/
def size (es : List Entry) : Nat := (es.map fun e => 4 + e.2.length).sum

/-- The entry at the head of a region, and what follows it. -/
def nextEntry (rest : Bytes) : Option (Entry × Bytes) := do
  let identifier ← readLe UInt16 rest 0
  let valueLength ← readLe UInt16 rest 2
  let entryLength ← checkedAdd usizeMax 4 valueLength.toNat
  if entryLength > rest.length then none
  else do
    let value ← getRange rest 4 entryLength
    let rest' ← getFrom rest entryLength
    some ((identifier, value), rest')

/-- The reading loop: `entries` are already read, `rest` is left.  Every round takes at least
four bytes, so the length of the region is fuel enough (`parse_eq_some_iff`). -/
def parseLoop {E : Type} (mk : UInt16 → Bytes → E) : Nat → List E → Bytes → Option (List E)
  | 0, entries, rest => if rest.isEmpty then some entries else none
  | fuel + 1, entries, rest =>
      if rest.isEmpty then some entries
      else do
        let (entry, rest') ← nextEntry rest
        parseLoop mk fuel (entries ++ [mk entry.1 entry.2]) rest'

/-- Reads a region whose entries must fill it exactly. -/
def parse {E : Type} (mk : UInt16 → Bytes → E) (region : Bytes) : Option (List E) :=
  parseLoop mk region.length [] region

/-! ### Writing -/

@[simp] theorem concat_nil : concat [] = [] := rfl

@[simp] theorem concat_cons (e : Entry) (es : List Entry) :
    concat (e :: es) = encodeEntry e ++ concat es := rfl

@[simp] theorem length_encodeEntry (e : Entry) : (encodeEntry e).length = 4 + e.2.length := by
  simp [encodeEntry]; omega

theorem length_concat : ∀ es : List Entry, (concat es).length = size es
  | [] => rfl
  | e :: es => by
      rw [concat_cons, List.length_append, length_encodeEntry, length_concat es]
      simp [size]

theorem le_size_of_mem {es : List Entry} {e : Entry} (h : e ∈ es) : 4 + e.2.length ≤ size es :=
  List.single_le_sum (by simp) _ (List.mem_map.mpr ⟨e, h, rfl⟩)

/-- A list whose size fits a length field holds only values that do. -/
theorem fits_of_size_lt {es : List Entry} (h : size es < 2 ^ 16) : ∀ e ∈ es, Fits e := by
  intro e he
  have := le_size_of_mem he
  show e.2.length < _
  omega

theorem encodeEntry_ne_nil (e : Entry) : encodeEntry e ≠ [] := by
  intro h
  have := congrArg List.length h
  simp at this

/-! ### Reading one entry -/

theorem fits_of_nextEntry {rest rest' : Bytes} {e : Entry}
    (h : nextEntry rest = some (e, rest')) : Fits e ∧ rest = encodeEntry e ++ rest' := by
  simp only [nextEntry, Option.bind_eq_bind, Option.bind_eq_some_iff] at h
  obtain ⟨identifier, h₀, valueLength, h₂, entryLength, h₄, h⟩ := h
  obtain ⟨-, rfl⟩ := checkedAdd_eq_some.mp h₄
  by_cases hgt : 4 + valueLength.toNat > rest.length
  · rw [if_pos hgt] at h
    cases h
  · rw [if_neg hgt] at h
    simp only [Option.bind_eq_some_iff, Option.some.injEq, Prod.mk.injEq] at h
    obtain ⟨value, hv, r, hr, rfl, rfl⟩ := h
    obtain ⟨-, rfl⟩ := getRange_eq_some.mp hv
    obtain ⟨-, rfl⟩ := getFrom_eq_some.mp hr
    have e₀ := ((readLe_eq_some_iff (by decide)).mp h₀).2
    have e₂ := ((readLe_eq_some_iff (by decide)).mp h₂).2
    simp only [List.drop_zero, width_u16, Nat.zero_add, Nat.reduceAdd] at e₀ e₂
    have hlen : ((rest.drop 4).take (4 + valueLength.toNat - 4)).length = valueLength.toNat := by
      rw [List.length_take, List.length_drop]
      omega
    constructor
    · show List.length _ < _
      rw [hlen]
      exact valueLength.toNat_lt
    · rw [encodeEntry, hlen, UInt16.ofNat_toNat, List.append_assoc, List.append_assoc,
        Nat.add_sub_cancel_left, ← List.drop_drop, List.take_append_drop, ← e₂, ← e₀]

theorem nextEntry_encodeEntry {e : Entry} (hfit : Fits e) (rest' : Bytes) :
    nextEntry (encodeEntry e ++ rest') = some (e, rest') := by
  obtain ⟨tag, value⟩ := e
  have hlen : (UInt16.ofNat value.length).toNat = value.length := UInt16.toNat_ofNat_of_lt' hfit
  have hmax : 4 + value.length ≤ usizeMax := by
    have : value.length < 2 ^ 16 := hfit
    simp only [usizeMax]; omega
  have r₀ : readLe UInt16 (encodeEntry (tag, value) ++ rest') 0 = some tag :=
    readLe_middle [] (toLeBytes (UInt16.ofNat value.length) ++ (value ++ rest')) tag
      (by simp [encodeEntry]) rfl (by decide)
  have r₂ : readLe UInt16 (encodeEntry (tag, value) ++ rest') 2 =
      some (UInt16.ofNat value.length) :=
    readLe_middle (toLeBytes tag) (value ++ rest') _ (by simp [encodeEntry]) rfl (by decide)
  have rv : getRange (encodeEntry (tag, value) ++ rest') 4 (4 + value.length) = some value := by
    rw [encodeEntry, ← List.append_assoc, List.append_assoc _ value]
    exact getRange_middle _ value rest' rfl rfl
  have hl : (encodeEntry (tag, value)).length = 4 + value.length := length_encodeEntry _
  have rr : getFrom (encodeEntry (tag, value) ++ rest') (4 + value.length) = some rest' := by
    rw [getFrom_of_le (by rw [List.length_append, hl]; omega), ← hl, List.drop_left]
  have hnot : ¬ 4 + value.length > (encodeEntry (tag, value) ++ rest').length := by
    rw [List.length_append, hl]; omega
  simp only [nextEntry, r₀, r₂, hlen, checkedAdd_of_le hmax, Option.bind_eq_bind,
    Option.bind_some, if_neg hnot, rv, rr]

/-- **One entry, both ways.**  The head of a region reads as `e` with `rest'` left exactly when
the region is `e` on the wire followed by `rest'`. -/
theorem nextEntry_eq_some_iff {rest rest' : Bytes} {e : Entry} :
    nextEntry rest = some (e, rest') ↔ Fits e ∧ rest = encodeEntry e ++ rest' := by
  constructor
  · exact fits_of_nextEntry
  · rintro ⟨hfit, rfl⟩
    exact nextEntry_encodeEntry hfit rest'

/-- A string that ends inside an entry: in its header, or before the end of its value. -/
def Cut (tail : Bytes) : Prop :=
  tail ≠ [] ∧ (tail.length < 4 ∨ ∃ (tag length : UInt16) (value : Bytes),
    tail = toLeBytes tag ++ (toLeBytes length ++ value) ∧ value.length < length.toNat)

theorem exists_nextEntry_of_not_cut {rest : Bytes} (hne : rest ≠ []) (h : ¬ Cut rest) :
    ∃ p, nextEntry rest = some p := by
  have hlen : 4 ≤ rest.length := Nat.not_lt.mp fun hlt => h ⟨hne, .inl hlt⟩
  obtain ⟨tag, rest, rfl⟩ := exists_toLeBytes UInt16 rest (by rw [width_u16]; omega)
  rw [List.length_append, length_toLeBytes, width_u16] at hlen
  obtain ⟨length, value, rfl⟩ := exists_toLeBytes UInt16 rest (by rw [width_u16]; omega)
  have hle : length.toNat ≤ value.length :=
    Nat.not_lt.mp fun hlt => h ⟨hne, .inr ⟨tag, length, value, rfl, hlt⟩⟩
  have hcut : (value.take length.toNat).length = length.toNat := List.length_take_of_le hle
  have hfit : Fits (tag, value.take length.toNat) := by
    rw [Fits, hcut]
    exact length.toNat_lt
  refine ⟨_, nextEntry_eq_some_iff.mpr ⟨hfit, (?_ : _ = _ ++ value.drop length.toNat)⟩⟩
  rw [encodeEntry, hcut, UInt16.ofNat_toNat, List.append_assoc, List.append_assoc,
    List.take_append_drop]

theorem nextEntry_of_cut {rest : Bytes} (h : Cut rest) : nextEntry rest = none := by
  refine Option.eq_none_iff_forall_ne_some.mpr fun p hp => ?_
  obtain ⟨hfit, rfl⟩ := nextEntry_eq_some_iff.mp hp
  obtain ⟨-, hlt | ⟨tag, length, value, he, hlt⟩⟩ := h
  · rw [List.length_append, length_encodeEntry] at hlt
    omega
  · -- the two headers are one, so the length is that of the value
    rw [encodeEntry, List.append_assoc, List.append_assoc] at he
    obtain ⟨-, he⟩ := List.append_inj he (by rw [length_toLeBytes, length_toLeBytes])
    obtain ⟨hl, rfl⟩ := List.append_inj he (by rw [length_toLeBytes, length_toLeBytes])
    have hlength : UInt16.ofNat p.1.2.length = length := by
      rw [← fromLeBytes_toLeBytes (UInt16.ofNat p.1.2.length), hl, fromLeBytes_toLeBytes]
    rw [← hlength, UInt16.toNat_ofNat_of_lt' hfit, List.length_append] at hlt
    omega

/-! ### Reading a region -/

theorem parseLoop_nil {E : Type} (mk : UInt16 → Bytes → E) (fuel : Nat) (entries : List E) :
    parseLoop mk fuel entries [] = some entries := by
  cases fuel <;> rfl

theorem concat_eq_nil {ps : List Entry} : concat ps = [] ↔ ps = [] := by
  cases ps with
  | nil => exact ⟨fun _ => rfl, fun _ => rfl⟩
  | cons p ps =>
      refine ⟨fun h => ?_, fun h => nomatch h⟩
      exact absurd (List.append_eq_nil_iff.mp h).1 (encodeEntry_ne_nil p)

/-- The loop returns what it had read, followed by the entries that make up what was left. -/
theorem parseLoop_eq_some_iff {E : Type} {mk : UInt16 → Bytes → E} {fuel : Nat}
    {entries es : List E} {rest : Bytes} (h : rest.length ≤ fuel) :
    parseLoop mk fuel entries rest = some es ↔
      ∃ ps : List Entry, (∀ p ∈ ps, Fits p) ∧ rest = concat ps ∧
        es = entries ++ ps.map fun p => mk p.1 p.2 := by
  -- on the fuel; the entries read so far grow while the region shrinks by at least four bytes
  induction fuel generalizing entries rest with
  | zero =>
      obtain rfl : rest = [] := List.length_eq_zero_iff.mp (Nat.le_zero.mp h)
      rw [parseLoop_nil, Option.some.injEq]
      constructor
      · rintro rfl
        exact ⟨[], List.forall_mem_nil _, rfl, (List.append_nil _).symm⟩
      · rintro ⟨ps, -, hc, rfl⟩
        rw [concat_eq_nil.mp hc.symm, List.map_nil, List.append_nil]
  | succ fuel ih =>
      by_cases hr : rest = []
      · subst hr
        rw [parseLoop_nil, ← parseLoop_nil mk fuel]
        exact ih (Nat.zero_le _)
      · have hne : rest.isEmpty = false := by simpa using hr
        simp only [parseLoop, hne, Bool.false_eq_true, if_false, Option.bind_eq_bind,
          Option.bind_eq_some_iff, Prod.exists]
        constructor
        · rintro ⟨tag, value, rest', hn, hloop⟩
          obtain ⟨hf, rfl⟩ := nextEntry_eq_some_iff.mp hn
          have hle : rest'.length ≤ fuel := by
            rw [List.length_append, length_encodeEntry] at h; omega
          obtain ⟨ps, hps, rfl, rfl⟩ := (ih hle).mp hloop
          exact ⟨(tag, value) :: ps, List.forall_mem_cons.mpr ⟨hf, hps⟩, rfl, by simp⟩
        · rintro ⟨ps, hps, rfl, rfl⟩
          cases ps with
          | nil => exact absurd rfl hr
          | cons p ps =>
              have hle : (concat ps).length ≤ fuel := by
                rw [concat_cons, List.length_append, length_encodeEntry] at h; omega
              obtain ⟨hf, hps'⟩ := List.forall_mem_cons.mp hps
              refine ⟨p.1, p.2, concat ps, nextEntry_eq_some_iff.mpr ⟨hf, rfl⟩, ?_⟩
              exact (ih hle).mpr ⟨ps, hps', rfl, by simp⟩

/-- **Exactness.**  A region reads as `es` exactly when it is the concatenation of entries that
make up `es`. -/
theorem parse_eq_some_iff {E : Type} {mk : UInt16 → Bytes → E} {region : Bytes} {es : List E} :
    parse mk region = some es ↔
      ∃ ps : List Entry, (∀ p ∈ ps, Fits p) ∧ region = concat ps ∧
        es = ps.map fun p => mk p.1 p.2 := by
  rw [parse, parseLoop_eq_some_iff le_rfl]
  simp

/-- What an entry is read as plays no part in the reading. -/
theorem parse_eq_map {E : Type} (mk : UInt16 → Bytes → E) (region : Bytes) :
    parse mk region = (parse Prod.mk region).map (List.map fun p => mk p.1 p.2) := by
  refine Option.ext fun es => ?_
  simp only [Option.map_eq_some_iff, parse_eq_some_iff]
  constructor
  · rintro ⟨ps, hps, hregion, rfl⟩
    exact ⟨ps, ⟨ps, hps, hregion, (List.map_id' ps).symm⟩, rfl⟩
  · rintro ⟨_, ⟨ps, hps, hregion, rfl⟩, rfl⟩
    exact ⟨ps, hps, hregion, by rw [List.map_id']⟩

/-- **Reading on.**  A region that begins with the entries `ps` reads as these and then as what
the rest of it reads as. -/
theorem exists_of_concat_eq_append {ps es : List Entry} {rest : Bytes} (hp : ∀ p ∈ ps, Fits p)
    (he : ∀ e ∈ es, Fits e) (h : concat es = concat ps ++ rest) :
    ∃ qs, es = ps ++ qs ∧ concat qs = rest := by
  induction ps generalizing es with
  | nil => exact ⟨es, rfl, h⟩
  | cons p ps ih =>
      obtain ⟨hfit, hps⟩ := List.forall_mem_cons.mp hp
      rw [concat_cons, List.append_assoc] at h
      cases es with
      | nil => exact absurd (List.append_eq_nil_iff.mp h.symm).1 (encodeEntry_ne_nil p)
      | cons e es =>
          obtain ⟨hfit', hes⟩ := List.forall_mem_cons.mp he
          -- both sides have one first entry, and it is read off the head
          have hread := nextEntry_encodeEntry hfit' (concat es)
          rw [← concat_cons, h, nextEntry_encodeEntry hfit] at hread
          simp only [Option.some.injEq, Prod.mk.injEq] at hread
          obtain ⟨rfl, hrest⟩ := hread
          obtain ⟨qs, rfl, hq⟩ := ih hps hes hrest.symm
          exact ⟨qs, rfl, hq⟩

/-- **One list.**  The entries of a region are determined by its bytes. -/
theorem concat_inj {ps qs : List Entry} (hp : ∀ p ∈ ps, Fits p) (hq : ∀ q ∈ qs, Fits q)
    (h : concat ps = concat qs) : ps = qs := by
  rw [← List.append_nil (concat qs)] at h
  obtain ⟨rest, rfl, hnil⟩ := exists_of_concat_eq_append hq hp h
  rw [concat_eq_nil.mp hnil, List.append_nil]

theorem exists_cut_of_parseLoop {E : Type} {mk : UInt16 → Bytes → E} {fuel : Nat}
    {entries : List E} {rest : Bytes} (hle : rest.length ≤ fuel)
    (h : parseLoop mk fuel entries rest = none) :
    ∃ ps tail, (∀ p ∈ ps, Fits p) ∧ rest = concat ps ++ tail ∧ Cut tail := by
  induction fuel generalizing entries rest with
  | zero =>
      obtain rfl : rest = [] := List.length_eq_zero_iff.mp (Nat.le_zero.mp hle)
      cases h
  | succ fuel ih =>
      by_cases hr : rest = []
      · rw [hr, parseLoop_nil] at h
        cases h
      · by_cases hcut : Cut rest
        · exact ⟨[], rest, List.forall_mem_nil _, rfl, hcut⟩
        · obtain ⟨⟨e, rest'⟩, hn⟩ := exists_nextEntry_of_not_cut hr hcut
          have hne : rest.isEmpty = false := by simpa using hr
          simp only [parseLoop, hne, Bool.false_eq_true, if_false, hn, Option.bind_eq_bind,
            Option.bind_some] at h
          obtain ⟨hfit, rfl⟩ := nextEntry_eq_some_iff.mp hn
          have hle' : rest'.length ≤ fuel := by
            rw [List.length_append, length_encodeEntry] at hle
            omega
          obtain ⟨ps, tail, hps, rfl, htail⟩ := ih hle' h
          refine ⟨e :: ps, tail, List.forall_mem_cons.mpr ⟨hfit, hps⟩, ?_, htail⟩
          rw [concat_cons, List.append_assoc]

/-- **Refusal.**  A region is refused exactly when it ends inside an entry. -/
theorem parse_eq_none_iff {E : Type} {mk : UInt16 → Bytes → E} {region : Bytes} :
    parse mk region = none ↔
      ∃ ps tail, (∀ p ∈ ps, Fits p) ∧ region = concat ps ++ tail ∧ Cut tail := by
  constructor
  · exact exists_cut_of_parseLoop le_rfl
  · rintro ⟨ps, tail, hps, hregion, htail⟩
    refine Option.eq_none_iff_forall_ne_some.mpr fun es hes => ?_
    obtain ⟨qs, hqs, hcat, -⟩ := parse_eq_some_iff.mp hes
    obtain ⟨rest, rfl, hrest⟩ := exists_of_concat_eq_append hps hqs (hcat.symm.trans hregion)
    cases rest with
    | nil => exact htail.1 hrest.symm
    | cons q rest =>
        have hread := nextEntry_of_cut htail
        rw [← hrest, concat_cons,
          nextEntry_encodeEntry (hqs q (List.mem_append_right _ List.mem_cons_self))] at hread
        cases hread

end Codec.Tlv
