import Mathlib.Data.List.AList
import Rp1.Protocol.Types

/-!
# Connection — the tables of a session

The id allocator and the live set of `src/connection/dispatch.rs`, and the waiter table of the
driver.  A registry is a list without repetitions: the order is that of one traversal of the hash
set, and nothing below depends on it.  The waiter table is an association list with distinct keys.
-/

namespace Rp1.Connection
open Codec

/-! ### Request identifiers -/

/-- Allocates monotonic initiator request identifiers. -/
structure RequestIdAllocator where
  next : UInt64
deriving DecidableEq, Repr

def RequestIdAllocator.new : RequestIdAllocator := ⟨1⟩

/-- The next identifier, skipping the reserved 0. -/
def RequestIdAllocator.allocate (a : RequestIdAllocator) : UInt64 × RequestIdAllocator :=
  let id := if a.next = 0 then 1 else a.next
  let advanced := id + 1
  (id, ⟨if advanced = 0 then 1 else advanced⟩)

/-! ### The live set -/

/-- A refusal to admit an identifier into the live set. -/
inductive RegistryError where
  /-- The identifier is the reserved 0. -/
  | reserved
  /-- The identifier is already live. -/
  | liveReuse
deriving DecidableEq, Repr

/-- The identifiers in flight on one connection. -/
structure InFlightRegistry where
  live : List UInt64
  nodup : live.Nodup
deriving DecidableEq, Repr

namespace InFlightRegistry

def new : InFlightRegistry := ⟨[], .nil⟩

/-- Admits `id` into the live set. -/
def insert (r : InFlightRegistry) (id : UInt64) : Except RegistryError InFlightRegistry :=
  if id = 0 then .error .reserved
  else if h : id ∈ r.live then .error .liveReuse
  else .ok ⟨id :: r.live, List.nodup_cons.mpr ⟨h, r.nodup⟩⟩

/-- Retires `id`, with whether it was live. -/
def retire (r : InFlightRegistry) (id : UInt64) : InFlightRegistry × Bool :=
  (⟨r.live.erase id, r.nodup.erase id⟩, r.live.contains id)

/-- A snapshot of the live identifiers for decode admission. -/
def liveIds (r : InFlightRegistry) : List UInt64 := r.live

instance : Membership UInt64 InFlightRegistry := ⟨fun r id => id ∈ r.live⟩

instance (r : InFlightRegistry) (id : UInt64) : Decidable (id ∈ r) :=
  inferInstanceAs (Decidable (id ∈ r.live))

@[simp] theorem mem_retire {r : InFlightRegistry} {id id' : UInt64} :
    id' ∈ (r.retire id).1 ↔ id' ≠ id ∧ id' ∈ r :=
  r.nodup.mem_erase_iff

theorem insert_eq_ok_iff {r r' : InFlightRegistry} {id : UInt64} :
    r.insert id = .ok r' ↔ id ≠ 0 ∧ id ∉ r ∧ r'.live = id :: r.live := by
  rw [insert]
  by_cases h₀ : id = 0
  · rw [if_pos h₀]
    exact ⟨fun h => (nomatch h), fun h => absurd h₀ h.1⟩
  · by_cases h : id ∈ r.live
    · rw [if_neg h₀, dif_pos h]
      exact ⟨fun h => (nomatch h), fun h' => absurd h h'.2.1⟩
    · rw [if_neg h₀, dif_neg h]
      constructor
      · intro e
        cases e
        exact ⟨h₀, h, rfl⟩
      · rintro ⟨-, -, e⟩
        obtain ⟨live, nodup⟩ := r'
        cases e
        rfl

theorem eq_new_of_forall_notMem {r : InFlightRegistry} (h : ∀ id, id ∉ r) : r = new := by
  obtain ⟨live, nodup⟩ := r
  obtain rfl : live = [] := List.eq_nil_iff_forall_not_mem.mpr h
  rfl

end InFlightRegistry

/-! ### The waiter table -/

/-- The senders that wait for the outcome of a request, by request id. -/
abbrev Waiters (σ : Type) := AList fun _ : UInt64 => σ

namespace Waiters
variable {σ : Type} {w : Waiters σ} {id : UInt64} {sender : σ}

theorem mem_of_lookup (h : w.lookup id = some sender) : id ∈ w :=
  AList.lookup_isSome.mp (by rw [h]; rfl)

theorem eq_empty_of_forall_notMem (h : ∀ id, id ∉ w) : w = ∅ := by
  refine AList.ext ?_
  have hk : w.keys = [] := List.eq_nil_iff_forall_not_mem.mpr h
  exact List.map_eq_nil_iff.mp hk

/-- Taking a waiter out of the table loses no other one. -/
theorem entries_perm (h : w.lookup id = some sender) :
    w.entries.Perm (⟨id, sender⟩ :: (w.erase id).entries) := by
  obtain ⟨sender', l₁, l₂, -, hl, hk⟩ := List.exists_of_kerase (mem_of_lookup h)
  have hmem : (⟨id, sender'⟩ : Sigma fun _ : UInt64 => σ) ∈ w.entries := by
    rw [hl]
    exact List.mem_append_right _ List.mem_cons_self
  obtain rfl : sender' = sender :=
    Option.some.inj ((AList.mem_lookup_iff.mpr hmem).symm.trans h)
  rw [hl]
  show (l₁ ++ ⟨id, sender'⟩ :: l₂).Perm (⟨id, sender'⟩ :: w.entries.kerase id)
  rw [hk]
  exact List.perm_middle

end Waiters

end Rp1.Connection
